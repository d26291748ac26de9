import Mathlib.Tactic.Linarith
import BackendGauntlet.ObjectStoreTieringAge

/-! What a sweep does to versions and uploads that are not older than itself. -/
namespace BackendGauntlet.ObjectStore

open PyText List Option Dict

/-- What the conversion to a float and the arithmetic on floats keep of the rationals. -/
structure Rounding (rnd : ℚ → ℚ) : Prop where
  mono : ∀ x y, x ≤ y → rnd x ≤ rnd y
  idem : ∀ x, rnd (rnd x) = rnd x
  zero : rnd 0 = 0

/-- `mtime < now.timestamp() - days * 86400.0`; instants are in microseconds. -/
def predatesRounded (rnd : ℚ → ℚ) (mtime now days : ℤ) : Bool :=
  rnd (mtime/1000000) < rnd (rnd (now/1000000)-rnd (rnd days*86400))

theorem not_predates_fresh {rnd : ℚ → ℚ} (hrnd : Rounding rnd) {mtime now days : ℤ}
    (hdays : 0 ≤ days) (hfresh : now ≤ mtime) : predatesRounded rnd mtime now days = false := by
  have hpos : (0 : ℚ) ≤ rnd days := by
    rw [← hrnd.zero]
    exact hrnd.mono 0 days (by exact_mod_cast hdays)
  have hspan : (0 : ℚ) ≤ rnd (rnd days*86400) := by
    rw [← hrnd.zero]
    exact hrnd.mono _ _ (by linarith)
  have hcutoff : rnd (rnd (now/1000000)-rnd (rnd days*86400)) ≤ rnd (now/1000000) := by
    rw [← hrnd.idem (now/1000000)]
    exact hrnd.mono _ _ (by rw [hrnd.idem]; linarith)
  have hlater : rnd (now/1000000) ≤ rnd (mtime/1000000) := by
    apply hrnd.mono
    have hle : (now : ℚ) ≤ mtime := by exact_mod_cast hfresh
    linarith
  simp only [predatesRounded, decide_eq_false_iff_not, not_lt]
  exact hcutoff.trans hlater

def SweepWorld.holds (w : SweepWorld) (b : Bucket) (k : Key) (e : VersionEntry) : Prop :=
  ∃ st m, w.index.get b = some st ∧ st.rows.get k = some m ∧ e ∈ m.versions

/-- Every version and every upload that is not older than the sweep is where it was, and so is the
version's blob. -/
structure FreshKept (now : ℤ) (w w' : SweepWorld) : Prop where
  versions : ∀ b k e, w.holds b k e → now ≤ e.lastModified → w'.holds b k e
  blobs : ∀ b k e v, w.holds b k e → now ≤ e.lastModified → e.asLive = some v →
    w'.store.view v.digest = w.store.view v.digest
  uploads : ∀ id mtime, w.upload id = some mtime → now ≤ mtime → w'.upload id = some mtime

/-- No rule that the sweep of a bucket gets to has an age that reaches a fresh version, a blob of
one, or a fresh upload. -/
structure SparesFresh (now : ℤ) (rnd : ℚ → ℚ) (w : SweepWorld) (st : BucketState) : Prop where
  expiry : st.expiryRuns = true → ∀ k m r days e, st.rows.get k = some m →
    m.latestLive = some r → ageFor st.policy LifecycleRule.expireAfterDays k = some days →
      e ∈ m.versions → now ≤ e.lastModified → now-r.lastModified < days*86400000000
  tiering : st.selectionRuns now = true → ∀ d days, DueBy st now days d →
    Tierable (w.store.view d) → ∀ b k e v, w.holds b k e → e.asLive = some v → v.digest = d →
      e.lastModified < now
  reaping : st.migrationRuns now w.store = true → ∀ k m days e,
    (k,m) ∈ (st.survivors now).entries.takeWhile (reapable st.policy) →
      ageFor st.policy LifecycleRule.noncurrentExpireAfterDays k = some days →
        e ∈ m.versions → e.id ≠ m.latest → now ≤ e.lastModified →
          now-e.lastModified < days*86400000000
  aborting : st.completes now w = true → ∀ id mtime days, w.upload id = some mtime →
    now ≤ mtime → abortThreshold st.policy = some days → days < 0 →
      predatesRounded rnd mtime now days = false

section
variable {now : ℤ} {codec : Codec} {predates : ℤ → ℤ → ℤ → Bool} {w w' : SweepWorld}
  {bs : List Bucket} {b : Bucket} {st : BucketState} {k : Key} {m : ObjectMeta}

theorem expires_iff : st.expires now (k,m) = true ↔ ∃ r days, m.latestLive = some r ∧
    ageFor st.policy LifecycleRule.expireAfterDays k = some days ∧
      days*86400000000 ≤ now-r.lastModified := by
  unfold BucketState.expires liveSince
  cases m.latestLive with
  | none => simp [past]
  | some r =>
    cases ageFor st.policy LifecycleRule.expireAfterDays k with
    | none => simp
    | some days => simp [past, olderThanDays]

theorem stale_iff {e : VersionEntry} (he : e ∈ m.versions) :
    e.id ∈ staleVersions st.policy k m now ↔ e.id ≠ m.latest ∧ ∃ days,
      ageFor st.policy LifecycleRule.noncurrentExpireAfterDays k = some days ∧
        days*86400000000 ≤ now-e.lastModified := by
  have hown : e.id ∈ staleVersions st.policy k m now ↔ past now (supersededSince m e)
      (ageFor st.policy LifecycleRule.noncurrentExpireAfterDays k) = true := by
    rw [← staleVersions_eq, List.mem_map]
    constructor
    · rintro ⟨f,hf,hid⟩
      obtain ⟨hin,hpast⟩ := mem_filter.mp hf
      -- ids are distinct within a row, so the listed version is this one
      rw [← inj_on_of_nodup_map m.ids hin he hid]
      exact hpast
    · exact fun hpast => ⟨e,mem_filter.mpr ⟨he,hpast⟩,rfl⟩
  rw [hown, supersededSince]
  by_cases hid : e.id = m.latest
  · simp [hid, past]
  · rw [if_neg hid]
    cases ageFor st.policy LifecycleRule.noncurrentExpireAfterDays k with
    | none => simp
    | some days => simp [past, olderThanDays, hid]

theorem holds_swept (h : Swept now codec predates bs w w') (hst : w.index.get b = some st)
    (hm : st.rows.get k = some m) (e : VersionEntry) :
    w'.holds b k e ↔ e ∈ m.versions ∧ (b ∈ reached now w bs →
      ¬ (st.expiryRuns && st.expires now (k,m)) = true ∧
      ¬ (st.migrationRuns now w.store = true ∧
        (k,m) ∈ (st.survivors now).entries.takeWhile (reapable st.policy) ∧
          e.id ∈ staleVersions st.policy k m now)) := by
  obtain ⟨st',hst',hrows⟩ := h.rows b st hst
  have hrow := hrows k
  rw [hm, bind_some] at hrow
  have hholds : w'.holds b k e ↔ ∃ m', st'.rows.get k = some m' ∧ e ∈ m'.versions := by
    simp [SweepWorld.holds, hst']
  rw [hholds, hrow]
  by_cases hb : b ∈ reached now w bs
  · simp only [hb, if_true, forall_const]
    exact mem_rowAfter now st w.store k m e
  · simp [hb]

theorem mem_migrated {d : Digest} : d ∈ migrated now w bs ↔ ∃ b ∈ reached now w bs, ∃ st,
    w.index.get b = some st ∧ st.selectionRuns now = true ∧ ∃ days, DueBy st now days d := by
  rw [migrated, mem_flatMap]
  apply exists_congr
  intro b
  apply and_congr_right
  intro _
  cases hst : w.index.get b with
  | none => simp [SweepWorld.migrates, hst]
  | some st =>
    simp only [SweepWorld.migrates, hst, some.injEq, exists_eq_left', ← mem_candidates]
    split_ifs with hruns
    · simp [hruns]
    · simp [hruns]

end

/-- Exactly when no rule that the sweep gets to reaches a fresh version, its blob or a fresh
upload. -/
theorem fresh_kept_iff (rnd : ℚ → ℚ) (hrnd : Rounding rnd) (codec : Codec) (now : ℤ)
    (w : SweepWorld) (bs : List Bucket) (hbs : bs.Perm w.index.keys) :
    FreshKept now w (runOnceAt now codec (predatesRounded rnd) bs w).1 ↔
      ∀ b ∈ reached now w bs, ∀ st, w.index.get b = some st → SparesFresh now rnd w st := by
  obtain ⟨hswept,_⟩ := runOnceAt_swept now codec (predatesRounded rnd)
    (hbs.nodup_iff.mpr w.index.nodup) (fun _ => (mem_buckets_iff hbs).mp)
  generalize (runOnceAt now codec (predatesRounded rnd) bs w).1 = w' at hswept
  constructor
  · intro hkept b hb st hst
    refine ⟨?_,?_,?_,?_⟩
    · intro hruns k m r days e hm hlive hage he hfresh
      have hin := hkept.versions b k e ⟨st,m,hst,hm,he⟩ hfresh
      have hnot := (((holds_swept hswept hst hm e).mp hin).2 hb).1
      by_contra hold
      apply hnot
      simp only [hruns, Bool.true_and]
      exact expires_iff.mpr ⟨r,days,hlive,hage,by omega⟩
    · intro hruns d days hdue htierable b' k e v hin hv hd
      by_contra hfresh
      have hsame := hkept.blobs b' k e v hin (by omega) hv
      rw [hd, hswept.view, if_pos (mem_migrated.mpr ⟨b,hb,st,hst,hruns,days,hdue⟩)] at hsame
      exact (tierView_ne_iff codec _).mpr htierable hsame
    · intro hruns k m days e hreap hage he hne hfresh
      have hm : st.rows.get k = some m := by
        have hsurvives := get_eq_some_iff.mpr ((takeWhile_sublist _).subset hreap)
        rw [get_survivors] at hsurvives
        obtain ⟨m₀,hm₀,hkeep⟩ := bind_eq_some_iff.mp hsurvives
        split_ifs at hkeep
        rw [hm₀, hkeep]
      have hin := hkept.versions b k e ⟨st,m,hst,hm,he⟩ hfresh
      have hnot := (((holds_swept hswept hst hm e).mp hin).2 hb).2
      by_contra hold
      exact hnot ⟨hruns,hreap,(stale_iff he).mpr ⟨hne,days,hage,by omega⟩⟩
    · intro hruns id mtime days hid hfresh hdays _
      have hin := hkept.uploads id mtime hid hfresh
      exact ((hswept.uploads id mtime).mp hin).2 b hb st days hst hruns hdays
  · intro h
    refine ⟨?_,?_,?_⟩
    · rintro b k e ⟨st,m,hst,hm,he⟩ hfresh
      refine (holds_swept hswept hst hm e).mpr ⟨he,?_⟩
      intro hb
      constructor
      · intro hexp
        obtain ⟨hruns,hexp⟩ := Bool.and_eq_true_iff.mp hexp
        obtain ⟨r,days,hlive,hage,hold⟩ := expires_iff.mp hexp
        have hnew := (h b hb st hst).expiry hruns k m r days e hm hlive hage he hfresh
        omega
      · rintro ⟨hruns,hreap,hstale⟩
        obtain ⟨hne,days,hage,hold⟩ := (stale_iff he).mp hstale
        have hnew := (h b hb st hst).reaping hruns k m days e hreap hage he hne hfresh
        omega
    · intro b k e v hin hfresh hv
      rw [hswept.view]
      split_ifs with hd
      · obtain ⟨b',hb',st',hst',hruns,days,hdue⟩ := mem_migrated.mp hd
        by_contra hne
        have hold := (h b' hb' st' hst').tiering hruns v.digest days hdue
          ((tierView_ne_iff codec _).mp hne) b k e v hin hv rfl
        omega
      · rfl
    · intro id mtime hid hfresh
      refine (hswept.uploads id mtime).mpr ⟨hid,?_⟩
      intro b hb st days hst hruns hdays
      by_cases hneg : days < 0
      · exact (h b hb st hst).aborting hruns id mtime days hid hfresh hdays hneg
      · exact not_predates_fresh hrnd (by omega) hfresh

theorem rounding_id : Rounding id := ⟨fun _ _ h => h,fun _ => rfl,rfl⟩

def renewedBucket : BucketState :=
  ⟨[⟨true,none,some 1,none,some 1,some 7⟩],
    (Dict.empty.set keyA ((ObjectMeta.newLive abcVersion 0).appendLive xyzVersion tenDays)).set
      keyB (ObjectMeta.newLive abcVersion 0)⟩

def renewedWorld : SweepWorld where
  index := Dict.empty.set photosBucket renewedBucket
  store := mixedStore
  uploads := some ((Dict.empty.set "old".toList 0).set "new".toList tenDays)
  report := ⟨0,0,0,0,0⟩

/-- The old version, blob and upload go; the new version and upload stay. -/
theorem fresh_kept_renewed :
    let w' := (runOnceAt tenDays abcCodec (predatesRounded id) [photosBucket] renewedWorld).1
    w'.holds photosBucket keyA ⟨2,tenDays,.live xyzVersion⟩ ∧
    w'.upload "new".toList = some tenDays ∧
    w'.report.noncurrentExpired = 1 ∧ w'.report.tiered = 1 ∧ w'.report.uploadsAborted = 1 := by
  have hfresh : ∀ row ∈ renewedBucket.rows.entries, ∀ e ∈ row.2.versions,
      tenDays ≤ e.lastModified → e.id = row.2.latest ∧ e.asLive = some xyzVersion := by
    decide +kernel
  have honly (b : Bucket) (st : BucketState) (hst : renewedWorld.index.get b = some st) :
      st = renewedBucket := by
    have hin := get_eq_some_iff.mp hst
    have hentries : renewedWorld.index.entries = [(photosBucket,renewedBucket)] := rfl
    rw [hentries, mem_singleton] at hin
    exact (Prod.mk.inj hin).2
  have hnoExpiry (k : Key) :
      ageFor renewedBucket.policy LifecycleRule.expireAfterDays k = none := rfl
  have hthreshold : abortThreshold renewedBucket.policy = some 7 := by decide
  have hcold : ∀ d ∈ renewedBucket.candidates tenDays, xyzVersion.digest ≠ d := by decide +kernel
  have hkept := (fresh_kept_iff id rounding_id abcCodec tenDays renewedWorld [photosBucket]
    (by decide +kernel)).mpr (by
      intro b _ st hst
      rw [honly b st hst]
      refine ⟨?_,?_,?_,?_⟩
      · intro _ k m r days e _ _ hage
        rw [hnoExpiry] at hage
        cases hage
      · intro _ d days hdue _ b' k e v hin hv hd
        obtain ⟨st',m,hst',hm,he⟩ := hin
        rw [honly b' st' hst'] at hm
        by_contra hnew
        have hxyz := (hfresh (k,m) (get_eq_some_iff.mp hm) e he (by omega)).2
        rw [hv, some.injEq] at hxyz
        exact hcold d (mem_candidates.mpr ⟨days,hdue⟩) (by rw [← hxyz, hd])
      · intro _ k m days e hreap _ he hne hnew
        have hin := (takeWhile_sublist _).subset hreap
        have hrow : (k,m) ∈ renewedBucket.rows.entries := (mem_filter.mp hin).1
        exact absurd (hfresh (k,m) hrow e he hnew).1 hne
      · intro _ id mtime days _ _ hdays hneg
        rw [hthreshold, some.injEq] at hdays
        omega)
  exact ⟨hkept.versions photosBucket keyA _ ⟨_,_,rfl,rfl,by decide +kernel⟩ (Int.le_refl _),
    hkept.uploads "new".toList tenDays (by decide +kernel) (Int.le_refl _),by decide +kernel,
    by decide +kernel,by decide +kernel⟩

def freshWorld (rule : LifecycleRule) (row : ObjectMeta) (other : BucketState) : SweepWorld where
  index := (Dict.empty.set photosBucket ⟨[rule],Dict.empty.set keyA row⟩).set videosBucket other
  store := mixedStore
  uploads := none
  report := ⟨0,0,0,0,0⟩

/-- A negative age expires what was just written; a fresh version goes with an older current one of
its row, and its blob goes cold by an older key of another bucket. -/
theorem accepted_policy_expires_fresh :
    let negative := freshWorld (ageRule none (some (-1)))
      (ObjectMeta.newLive abcVersion tenDays) ⟨[],empty⟩
    let skewed := freshWorld (ageRule none (some 1))
      ((ObjectMeta.newLive abcVersion tenDays).appendLive xyzVersion 0) ⟨[],empty⟩
    let shared := freshWorld (ageRule (some 1) none) (ObjectMeta.newLive abcVersion 0)
      ⟨[],empty.set keyB (ObjectMeta.newLive abcVersion tenDays)⟩
    let sweep := fun w =>
      (runOnceAt tenDays abcCodec predatesExactly [photosBucket, videosBucket] w).1
    validateCoherent [ageRule none (some (-1))] = .ok () ∧
    validateCoherent [ageRule none (some 1)] = .ok () ∧
    validateCoherent [ageRule (some 1) none] = .ok () ∧
    (rowOf (sweep negative).index photosBucket keyA).isNone = true ∧
    (rowOf (sweep skewed).index photosBucket keyA).isNone = true ∧
    (shared.store.hot.get abcDigest).isSome = true ∧
    ((sweep shared).store.hot.get abcDigest).isNone = true := by
  decide +kernel

end BackendGauntlet.ObjectStore
