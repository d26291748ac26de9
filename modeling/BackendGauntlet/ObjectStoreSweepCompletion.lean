import Mathlib.Data.List.TakeWhile
import BackendGauntlet.ObjectStoreSweepEffects

/-! When a lifecycle sweep completes. -/
namespace BackendGauntlet.ObjectStore

open PyText List Option Dict

/-- The ages that the sweep of the bucket compares something with. -/
structure AgesInRange (now : ℤ) (w : SweepWorld) (st : BucketState) : Prop where
  expiry : ∀ k m r days, st.rows.get k = some m → m.latestLive = some r →
    ageFor st.policy LifecycleRule.expireAfterDays k = some days → days.natAbs ≤ timedeltaMaxDays
  tiering : ∀ k m r days, (st.survivors now).get k = some m → m.latestLive = some r →
    ageFor st.policy LifecycleRule.tierAfterDays k = some days → days.natAbs ≤ timedeltaMaxDays
  reaping : ∀ k m v days, (st.survivors now).get k = some m → v ∈ m.versions → v.id ≠ m.latest →
    ageFor st.policy LifecycleRule.noncurrentExpireAfterDays k = some days →
      days.natAbs ≤ timedeltaMaxDays
  aborting : w.uploads.isSome = true → ∀ days, abortThreshold st.policy = some days →
    days.natAbs < floatLimit

theorem overflows_eq_false (since age : Option ℤ) :
    overflows since age = false ↔
      ∀ t days, since = some t → age = some days → days.natAbs ≤ timedeltaMaxDays := by
  cases since with
  | none => simp [overflows]
  | some t =>
    cases age with
    | none => simp [overflows]
    | some days => simp [overflows]

theorem all_in_range (rows : Dict Key ObjectMeta) (since : Key × ObjectMeta → Option ℤ)
    (age : Key → Option ℤ)
    (hsince : ∀ k m, rows.get k = some m → ((since (k,m)).isSome ↔ m.latestLive.isSome)) :
    rows.entries.all (fun e => !overflows (since e) (age e.1)) = true ↔
      ∀ k m r days, rows.get k = some m → m.latestLive = some r → age k = some days →
        days.natAbs ≤ timedeltaMaxDays := by
  simp only [List.all_eq_true, Bool.not_eq_true', overflows_eq_false]
  constructor
  · intro h k m r days hm hr
    obtain ⟨t,ht⟩ := isSome_iff_exists.mp ((hsince k m hm).mpr (by simp [hr]))
    exact h (k,m) (get_eq_some_iff.mp hm) t days ht
  · intro h e he t days ht
    have hm := get_eq_some_iff.mpr he
    obtain ⟨r,hr⟩ := isSome_iff_exists.mp ((hsince e.1 e.2 hm).mp (by simp [ht]))
    exact h e.1 e.2 r days hm hr

theorem completes_iff (now : ℤ) (w : SweepWorld) (st : BucketState) :
    st.completes now w = true ↔
      AgesInRange now w st ∧ ∀ d ∈ st.candidates now, (w.store.view d).packed = false := by
  have hexpiry := all_in_range st.rows liveSince (ageFor st.policy LifecycleRule.expireAfterDays)
    (by simp [liveSince])
  have htiering := all_in_range (st.survivors now) (blobSince (st.survivors now))
    (ageFor st.policy LifecycleRule.tierAfterDays) (by
      intro k m hm
      cases hr : m.latestLive with
      | none => simp [blobSince, digestOf, hr]
      | some r =>
        obtain ⟨newest,hnewest,_⟩ := le_youngest hm hr
        simp [blobSince, digestOf, hr, hnewest])
  have hreaping : (st.survivors now).entries.all (reapable st.policy) = true ↔
      ∀ k m v days, (st.survivors now).get k = some m → v ∈ m.versions → v.id ≠ m.latest →
        ageFor st.policy LifecycleRule.noncurrentExpireAfterDays k = some days →
          days.natAbs ≤ timedeltaMaxDays := by
    simp only [List.all_eq_true, reapable, Bool.not_eq_true', overflows_eq_false, supersededSince]
    constructor
    · intro h k m v days hm hv hne
      exact h (k,m) (get_eq_some_iff.mp hm) v hv v.lastModified days (if_neg hne)
    · intro h e he v hv t days ht
      split_ifs at ht with hne
      exact h e.1 e.2 v days (get_eq_some_iff.mpr he) hv hne
  have haborting : (w.uploads.isNone || (abortThreshold st.policy).all (fun days =>
      decide (days.natAbs < floatLimit))) = true ↔ (w.uploads.isSome = true →
        ∀ days, abortThreshold st.policy = some days → days.natAbs < floatLimit) := by
    cases w.uploads with
    | none => simp
    | some u => simp [Option.all_eq_true]
  have hpacked : (st.candidates now).all (fun d => !(w.store.view d).packed) = true ↔
      ∀ d ∈ st.candidates now, (w.store.view d).packed = false := by simp
  simp only [BucketState.completes, BucketState.reapingRuns, BucketState.migrationRuns,
    BucketState.selectionRuns, BucketState.expiryRuns, Bool.and_eq_true]
  rw [hexpiry, htiering, hreaping, haborting, hpacked]
  constructor
  · rintro ⟨⟨⟨⟨h₁,h₂⟩,h₃⟩,h₄⟩,h₅⟩
    exact ⟨⟨h₁,h₂,h₄,h₅⟩,h₃⟩
  · rintro ⟨h,h₃⟩
    exact ⟨⟨⟨⟨h.expiry,h.tiering⟩,h₃⟩,h.reaping⟩,h.aborting⟩

section
variable (now : ℤ) (codec : Codec) (predates : ℤ → ℤ → ℤ → Bool)

/-- Every phase has been performed for every bucket. -/
structure SweepDone (w w' : SweepWorld) : Prop where
  rows : ∀ b st, w.index.get b = some st → ∃ st', w'.index.get b = some st' ∧
    ∀ k, st'.rows.get k = (st.rows.get k).bind (fun m =>
      if st.expires now (k,m) then none else m.without (staleVersions st.policy k m now))
  tiered : ∀ b st, w.index.get b = some st → ∀ d ∈ st.candidates now,
    w'.store.view d = tierView codec (w.store.view d)
  untiered : ∀ d, (∀ b st, w.index.get b = some st → d ∉ st.candidates now) →
    w'.store.view d = w.store.view d
  uploads : ∀ id mtime, w'.upload id = some mtime ↔ w.upload id = some mtime ∧
    ∀ b st days, w.index.get b = some st → abortThreshold st.policy = some days →
      predates mtime now days = false

def KeepsPacked (s s' : StoreState) : Prop :=
  ∀ d, s.locations.get d = some .haystack →
    (∀ bytes, s.openBlob d = .ok bytes → s'.openBlob d = .ok bytes) ∧
    ∀ start stop bytes, s.openBlobRange d start stop = .ok bytes →
      s'.openBlobRange d start stop = .ok bytes

variable {now codec predates}

theorem reached_all {w : SweepWorld} {bs : List Bucket}
    (h : ∀ b ∈ bs, ∃ st, w.index.get b = some st ∧ st.completes now w = true) :
    reached now w bs = bs := by
  induction bs with
  | nil => rfl
  | cons b bs ih =>
    obtain ⟨st,hst,hcompletes⟩ := h b mem_cons_self
    simp [reached, hst, hcompletes, ih (fun x hx => h x (mem_cons_of_mem b hx))]

theorem sweepDone_of_swept {w w' : SweepWorld} {bs : List Bucket} (hbs : bs.Perm w.index.keys)
    (h : Swept now codec predates bs w w')
    (hall : ∀ b st, w.index.get b = some st → st.completes now w = true) :
    SweepDone now codec predates w w' := by
  have hreached : reached now w bs = bs := by
    apply reached_all
    intro b hb
    obtain ⟨st,hst⟩ := (mem_buckets_iff hbs).mp hb
    exact ⟨st,hst,hall b st hst⟩
  have hruns (b : Bucket) (st : BucketState) (hst : w.index.get b = some st) :
      st.reapingRuns now w.store = true := (Bool.and_eq_true_iff.mp (hall b st hst)).1
  have hmigrates (b : Bucket) (st : BucketState) (hst : w.index.get b = some st) :
      w.migrates now b = st.candidates now := by
    have hselect : st.selectionRuns now = true :=
      (Bool.and_eq_true_iff.mp (Bool.and_eq_true_iff.mp (hruns b st hst)).1).1
    simp [SweepWorld.migrates, hst, hselect]
  refine ⟨?_,?_,?_,?_⟩
  · intro b st hst
    obtain ⟨st',hst',hrows⟩ := h.rows b st hst
    refine ⟨st',hst',?_⟩
    intro k
    rw [hrows, hreached, if_pos ((mem_buckets_iff hbs).mpr ⟨st,hst⟩)]
    obtain ⟨hmigration,hreap⟩ := Bool.and_eq_true_iff.mp (hruns b st hst)
    have hexpiry : st.expiryRuns = true :=
      (Bool.and_eq_true_iff.mp (Bool.and_eq_true_iff.mp hmigration).1).1
    have hwhole : (st.survivors now).entries.takeWhile (reapable st.policy) =
        (st.survivors now).entries := takeWhile_eq_self_iff.mpr (List.all_eq_true.mp hreap)
    cases hm : st.rows.get k with
    | none => rfl
    | some m =>
      simp only [bind_some, BucketState.rowAfter, hexpiry, hmigration, hwhole, Bool.true_and]
      cases hexp : st.expires now (k,m) with
      | true => rfl
      | false =>
        have hin : (k,m) ∈ (st.survivors now).entries := by
          apply get_eq_some_iff.mp
          simp [get_survivors, hm, hexp]
        simp [hin]
  · intro b st hst d hd
    rw [h.view, if_pos]
    rw [migrated, hreached]
    exact mem_flatMap.mpr
      ⟨b,(mem_buckets_iff hbs).mpr ⟨st,hst⟩,by rw [hmigrates b st hst]; exact hd⟩
  · intro d hd
    rw [h.view, if_neg]
    intro hin
    obtain ⟨b,hb,hin⟩ := mem_flatMap.mp hin
    rw [hreached] at hb
    obtain ⟨st,hst⟩ := (mem_buckets_iff hbs).mp hb
    rw [hmigrates b st hst] at hin
    exact hd b st hst hin
  · intro id mtime
    rw [h.uploads, hreached]
    apply and_congr_right
    intro _
    constructor
    · intro hall' b st days hst
      exact hall' b ((mem_buckets_iff hbs).mpr ⟨st,hst⟩) st days hst (hall b st hst)
    · intro hall' b _ st days hst _
      exact hall' b st days hst

theorem openBlob_of_range {s : StoreState} {d : Digest}
    (hroute : s.locations.get d = some .haystack) {start stop : ℕ} {bytes : Bytes}
    (h : s.openBlobRange d start stop = .ok bytes) :
    ∃ content, s.openBlob d = .ok content := by
  unfold StoreState.openBlobRange at h
  unfold StoreState.openBlob
  split_ifs at h ⊢
  rw [hroute] at h ⊢
  cases hc : s.requireReadable d with
  | error e => simp [hc, bind, Except.bind] at h
  | ok content =>
    simp only [hc, bind, Except.bind] at h ⊢
    split_ifs at h with hrange
    have hne : content ≠ [] := by
      intro hnil
      simp [hnil] at hrange
    exact ⟨content,by rw [if_neg hne]⟩

/-- A sweep completes and spares the packed blobs exactly when every age it compares with is in
range and it migrates no readable packed blob and no blob that is only packed. -/
theorem sweep_completes_iff (now : ℤ) (codec : Codec) (predates : ℤ → ℤ → ℤ → Bool)
    (w : SweepWorld) (bs : List Bucket) (hbs : bs.Perm w.index.keys) :
    (∃ w', runOnceAt now codec predates bs w = (w',none) ∧ SweepDone now codec predates w w' ∧
        KeepsPacked w.store w'.store) ↔
      ∀ b st, w.index.get b = some st → AgesInRange now w st ∧
        ∀ d ∈ st.candidates now, w.store.locations.get d = some .haystack →
          w.store.hot.contains d = true ∧ ∀ bytes, w.store.openBlob d ≠ .ok bytes := by
  obtain ⟨hswept,hnone⟩ := runOnceAt_swept now codec predates
    (hbs.nodup_iff.mpr w.index.nodup) (fun _ => (mem_buckets_iff hbs).mp)
  have hpacked (d : Digest) : (w.store.view d).packed = true ↔
      w.store.locations.get d = some .haystack ∧ ¬ w.store.hot.contains d = true := by
    simp only [BlobView.packed, StoreState.view, Dict.contains, Bool.and_eq_true,
      isNone_iff_eq_none, not_isSome_iff_eq_none]
    exact and_congr_left (fun _ => decide_eq_true_iff)
  constructor
  · rintro ⟨w',hrun,hdone,hkeep⟩ b st hst
    have hcompletes := hnone.mp (by rw [hrun]) b ((mem_buckets_iff hbs).mpr ⟨st,hst⟩) st hst
    obtain ⟨hages,hunpacked⟩ := (completes_iff now w st).mp hcompletes
    refine ⟨hages,?_⟩
    intro d hd hroute
    have hhot : w.store.hot.contains d = true := by
      by_contra hcold
      have hp := (hpacked d).mpr ⟨hroute,hcold⟩
      rw [hunpacked d hd] at hp
      cases hp
    refine ⟨hhot,?_⟩
    intro bytes hopen
    -- the migration takes the route away
    have hafter := (hkeep d hroute).1 bytes hopen
    obtain ⟨f,hf⟩ := isSome_iff_exists.mp hhot
    have hlost : w'.store.locations.get d = none := by
      have hview := congrArg BlobView.location (hdone.tiered b st hst d hd)
      simpa [tierView, StoreState.view, hf, hroute, BlobView.remove] using hview
    unfold StoreState.openBlob at hafter
    rw [hlost] at hafter
    split_ifs at hafter
  · intro h
    have hall (b : Bucket) (st : BucketState) (hst : w.index.get b = some st) :
        st.completes now w = true := by
      refine (completes_iff now w st).mpr ⟨(h b st hst).1,?_⟩
      intro d hd
      rw [← Bool.not_eq_true, hpacked]
      exact fun hp => hp.2 ((h b st hst).2 d hd hp.1).1
    refine ⟨_,Prod.ext rfl (hnone.mpr (fun b _ st hst => hall b st hst)),
      sweepDone_of_swept hbs hswept hall,?_⟩
    intro d hroute
    by_cases hd : ∃ b st, w.index.get b = some st ∧ d ∈ st.candidates now
    · obtain ⟨b,st,hst,hd⟩ := hd
      have hunread := ((h b st hst).2 d hd hroute).2
      refine ⟨fun bytes hopen => absurd hopen (hunread bytes),?_⟩
      intro start stop bytes hopen
      obtain ⟨content,hcontent⟩ := openBlob_of_range hroute hopen
      exact absurd hcontent (hunread content)
    · have hview := (sweepDone_of_swept hbs hswept hall).untiered d
        (fun b st hst hin => hd ⟨b,st,hst,hin⟩)
      rw [openBlob_congr _ _ d hview hswept.quarantined]
      exact ⟨fun _ h => h,fun start stop bytes h => by
        rw [openBlobRange_congr _ _ d hview hswept.quarantined, h]⟩

end

def ageRule (tier expire : Option ℤ) : LifecycleRule := ⟨true,none,tier,expire,none,some 7⟩

def mixedStore : StoreState where
  hot := Dict.empty.set abcDigest ⟨[97, 98, 99],0⟩
  needles := Dict.empty.set xyzDigest ⟨[120, 121, 122],false,false⟩
  locations := (Dict.empty.set abcDigest .fileCas).set xyzDigest .haystack
  quarantined := []
  cold := Dict.empty

def agedWorld (rule : LifecycleRule) (version : NewVersion) : SweepWorld where
  index := (Dict.empty.set photosBucket ⟨[rule],
    Dict.empty.set keyA (ObjectMeta.newLive version 0)⟩).set videosBucket
    ⟨[ageRule none (some 1)],Dict.empty.set keyB (ObjectMeta.newLive abcVersion 0)⟩
  store := mixedStore
  uploads := some (Dict.empty.set "u".toList 0)
  report := ⟨0,0,0,0,0⟩

def tenDays : ℤ := 864000000000

/-- The comparison with microseconds in the place of floats. -/
def predatesExactly (mtime now days : ℤ) : Bool := mtime < now-days*86400000000

/-- One blob goes cold, a key expires, an upload is aborted; the packed blob stays readable. -/
theorem sweep_completes_aged : ∃ w',
    runOnceAt tenDays abcCodec predatesExactly [photosBucket, videosBucket]
      (agedWorld (ageRule (some 1) none) abcVersion) = (w',none) ∧
    w'.store.openBlob xyzDigest = .ok [120, 121, 122] := by
  let w := agedWorld (ageRule (some 1) none) abcVersion
  have hin : ∀ e ∈ w.index.entries, e.2.completes tenDays w = true ∧
      ∀ d ∈ e.2.candidates tenDays, w.store.locations.get d ≠ some .haystack := by decide +kernel
  obtain ⟨w',hrun,_,hpacked⟩ := (sweep_completes_iff tenDays abcCodec predatesExactly w
    [photosBucket, videosBucket] (by decide +kernel)).mpr (by
      intro b st hst
      obtain ⟨hcompletes,hroutes⟩ := hin (b,st) (get_eq_some_iff.mp hst)
      exact ⟨((completes_iff tenDays w st).mp hcompletes).1,
        fun d hd hroute => absurd hroute (hroutes d hd)⟩)
  exact ⟨w',hrun,(hpacked xyzDigest (by decide +kernel)).1 _ (by decide +kernel)⟩

/-- A rule that wants to tier a packed blob makes the sweep raise: later buckets and uploads stay.
So does an age too large for `timedelta`. -/
theorem packed_candidate_stops_sweep :
    let w := agedWorld (ageRule (some 1) none) xyzVersion
    let r := runOnceAt tenDays abcCodec predatesExactly [photosBucket, videosBucket] w
    let r' := runOnceAt tenDays abcCodec predatesExactly [photosBucket, videosBucket]
      (agedWorld (ageRule none (some 1000000000)) abcVersion)
    validateCoherent [ageRule (some 1) none] = .ok () ∧
    validateCoherent [ageRule none (some 1000000000)] = .ok () ∧
    validateCoherent [ageRule none (some 1)] = .ok () ∧
    w.store.openBlob xyzDigest = .ok [120, 121, 122] ∧
    w.store.openBlob abcDigest = .ok [97, 98, 99] ∧
    r.2 = some .osError ∧ r'.2 = some .overflowError ∧
    (rowOf r.1.index videosBucket keyB).isSome = true ∧
    (rowOf r'.1.index videosBucket keyB).isSome = true ∧
    r.1.uploads = w.uploads ∧ r'.1.uploads = w.uploads := by
  decide +kernel

end BackendGauntlet.ObjectStore
