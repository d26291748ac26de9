import BackendGauntlet.ObjectStoreSweep

/-! How far a sweep gets, and what it has done by then, from the buckets before it. -/
namespace BackendGauntlet.ObjectStore

open PyText List Option Dict

/-- The row without some superseded versions. -/
def ObjectMeta.without (m : ObjectMeta) (ids : List VersionId) : Option ObjectMeta :=
  if ids = [] then some m
  else
    let kept := m.versions.filter (fun e => e.id ∉ ids)
    if kept = [] then none
    else some ⟨m.latest,kept,m.nextId,m.ids.sublist (filter_sublist.map _)⟩

-- how far the sweep of a bucket gets; each condition includes the one before

def overflows : Option ℤ → Option ℤ → Bool
  | some _, some days => timedeltaMaxDays < days.natAbs
  | _, _ => false

def past (now : ℤ) : Option ℤ → Option ℤ → Bool
  | some lastModified, some days => olderThanDays lastModified now days
  | _, _ => false

def reapable (policy : LifecyclePolicy) (e : Key × ObjectMeta) : Bool :=
  e.2.versions.all (fun v => !overflows (supersededSince e.2 v)
    (ageFor policy LifecycleRule.noncurrentExpireAfterDays e.1))

namespace BucketState
variable (st : BucketState) (now : ℤ)

def expires (e : Key × ObjectMeta) : Bool :=
  past now (liveSince e) (ageFor st.policy LifecycleRule.expireAfterDays e.1)

def survivors : Dict Key ObjectMeta := st.rows.filter (fun k m => !st.expires now (k,m))

/-- The digests that `_tier` hands to the migration, whatever they name. -/
def candidates : List Digest :=
  (((st.survivors now).entries.filter (fun e => past now (blobSince (st.survivors now) e)
    (ageFor st.policy LifecycleRule.tierAfterDays e.1))).filterMap digestOf).dedup

def expiryRuns : Bool :=
  st.rows.entries.all (fun e => !overflows (liveSince e)
    (ageFor st.policy LifecycleRule.expireAfterDays e.1))

def selectionRuns : Bool :=
  st.expiryRuns && (st.survivors now).entries.all (fun e =>
    !overflows (blobSince (st.survivors now) e) (ageFor st.policy LifecycleRule.tierAfterDays e.1))

def migrationRuns (s : StoreState) : Bool :=
  st.selectionRuns now && (st.candidates now).all (fun d => !(s.view d).packed)

def reapingRuns (s : StoreState) : Bool :=
  st.migrationRuns now s && (st.survivors now).entries.all (reapable st.policy)

def completes (w : SweepWorld) : Bool :=
  st.reapingRuns now w.store && (w.uploads.isNone || (abortThreshold st.policy).all (fun days =>
    days.natAbs < floatLimit))

/-- A row after the sweep of its bucket. A row that raises ends the reaping at the rows before. -/
def rowAfter (s : StoreState) (k : Key) (m : ObjectMeta) : Option ObjectMeta :=
  if st.expiryRuns && st.expires now (k,m) then none
  else if st.migrationRuns now s &&
      decide ((k,m) ∈ (st.survivors now).entries.takeWhile (reapable st.policy)) then
    m.without (staleVersions st.policy k m now)
  else some m

end BucketState

/-- The buckets that a sweep comes to: it goes on while they complete. -/
def reached (now : ℤ) (w : SweepWorld) : List Bucket → List Bucket
  | [] => []
  | b :: bs => b :: if (w.index.get b).any (fun st => st.completes now w) then reached now w bs
      else []

def SweepWorld.migrates (w : SweepWorld) (now : ℤ) (b : Bucket) : List Digest :=
  match w.index.get b with
  | none => []
  | some st => if st.selectionRuns now then st.candidates now else []

def migrated (now : ℤ) (w : SweepWorld) (bs : List Bucket) : List Digest :=
  (reached now w bs).flatMap (w.migrates now)

def SweepWorld.upload (w : SweepWorld) (id : Text) : Option ℤ := w.uploads.bind (fun u => u.get id)

theorem aged_eq (now : ℤ) (since age : Option ℤ) :
    aged now since age =
      if overflows since age then .error .overflowError else .ok (past now since age) := by
  cases since with
  | none => rfl
  | some t =>
    cases age with
    | none => rfl
    | some days => simp [aged, overflows, past]

theorem pick_eq {α : Type} (now : ℤ) (since age : α → Option ℤ) (l : List α) :
    pick (fun a => aged now (since a) (age a)) l =
      if l.all (fun a => !overflows (since a) (age a)) then
        .ok (l.filter (fun a => past now (since a) (age a)))
      else .error .overflowError := by
  induction l with
  | nil => rfl
  | cons a as ih =>
    simp only [pick, ih, all_cons, filter_cons]
    rw [aged_eq]
    cases overflows (since a) (age a) with
    | true => rfl
    | false =>
      simp only [Bool.false_eq_true, if_false, Bool.not_false, Bool.true_and]
      split_ifs <;> rfl

/-- Keys are distinct, so leaving out the keys of the due rows is leaving out those rows. -/
theorem filter_keys {rows : Dict Key ObjectMeta} (p : Key × ObjectMeta → Bool) :
    rows.filter (fun k _ => k ∉ (rows.entries.filter p).map Prod.fst) =
      rows.filter (fun k m => !p (k,m)) := by
  have hentries : rows.entries.filter (fun e => decide
      (e.1 ∉ (rows.entries.filter p).map Prod.fst)) = rows.entries.filter (fun e => !p e) := by
    apply filter_congr
    intro e he
    have hiff : e.1 ∈ (rows.entries.filter p).map Prod.fst ↔ p e = true := by
      constructor
      · intro h
        obtain ⟨x,hx,hkey⟩ := List.mem_map.mp h
        obtain ⟨hin,hp⟩ := mem_filter.mp hx
        rw [← inj_on_of_nodup_map rows.nodup hin he hkey]
        exact hp
      · exact fun hp => List.mem_map.mpr ⟨e,mem_filter.mpr ⟨he,hp⟩,rfl⟩
    simp [hiff]
  unfold Dict.filter
  simp only [Dict.mk.injEq]
  exact hentries

theorem staleVersions_eq (policy : LifecyclePolicy) (key : Key) (m : ObjectMeta) (now : ℤ) :
    (m.versions.filter (fun v => past now (supersededSince m v)
      (ageFor policy LifecycleRule.noncurrentExpireAfterDays key))).map VersionEntry.id =
        staleVersions policy key m now := by
  unfold staleVersions ageFor
  cases (matchingRule policy key).bind LifecycleRule.noncurrentExpireAfterDays with
  | none =>
    have hnone (v : VersionEntry) : past now (supersededSince m v) none = false := by
      cases supersededSince m v <;> rfl
    simp [hnone]
  | some days =>
    congr 1
    apply filter_congr
    intro v _
    unfold supersededSince
    split_ifs with hv
    · simp [past, hv]
    · simp [past, hv]

theorem staleVersions_spec (policy : LifecyclePolicy) (key : Key) (m : ObjectMeta) (now : ℤ) :
    (∀ id ∈ staleVersions policy key m now, id ∈ m.versions.map VersionEntry.id) ∧
    (staleVersions policy key m now).Nodup ∧ m.latest ∉ staleVersions policy key m now := by
  rw [← staleVersions_eq]
  refine ⟨?_,m.ids.sublist (filter_sublist.map _),?_⟩
  · intro id hid
    obtain ⟨e,he,rfl⟩ := List.mem_map.mp hid
    exact List.mem_map.mpr ⟨e,(mem_filter.mp he).1,rfl⟩
  · intro hmem
    obtain ⟨e,he,hid⟩ := List.mem_map.mp hmem
    have hpast := (mem_filter.mp he).2
    simp [supersededSince, hid, past] at hpast

theorem without_eq_some {m m' : ObjectMeta} {ids : List VersionId} (h : m.without ids = some m') :
    m'.latest = m.latest ∧ m'.versions = m.versions.filter (fun e => e.id ∉ ids) := by
  unfold ObjectMeta.without at h
  simp only at h
  split_ifs at h with hids hkept
  · cases h
    simp [hids]
  · cases h
    exact ⟨rfl,rfl⟩

theorem without_eq_none {m : ObjectMeta} {ids : List VersionId} (h : m.without ids = none) :
    m.versions.filter (fun e => e.id ∉ ids) = [] := by
  unfold ObjectMeta.without at h
  simp only at h
  split_ifs at h with hids hkept
  exact hkept

theorem without_cons (m : ObjectMeta) (id : VersionId) (ids : List VersionId) :
    m.without (id :: ids) = (m.without [id]).bind (fun m' => m'.without ids) := by
  have hkept : m.versions.filter (fun e => e.id ∉ id :: ids) =
      (m.versions.filter (fun e => e.id ∉ [id])).filter (fun e => e.id ∉ ids) := by
    rw [List.filter_filter]
    apply filter_congr
    intro e _
    simp [Bool.and_comm]
  by_cases hone : m.versions.filter (fun e => e.id ∉ [id]) = []
  · simp only [ObjectMeta.without, reduceCtorEq, if_false, hkept, hone, filter_nil, if_true,
      Option.bind_none]
  · by_cases hids : ids = []
    · simp [ObjectMeta.without, hids]
    · simp only [ObjectMeta.without, reduceCtorEq, if_false, hids, hkept, hone, Option.bind_some]

theorem deleteVersion_superseded {rows : Dict Key ObjectMeta} {key : Key} {m : ObjectMeta}
    {id : VersionId} (hget : rows.get key = some m) (hid : id ∈ m.versions.map VersionEntry.id)
    (hlatest : m.latest ≠ id) :
    ∃ rows', deleteVersion rows key id = some rows' ∧
      ∀ k, rows'.get k = if k = key then m.without [id] else rows.get k := by
  obtain ⟨e,he,rfl⟩ := List.mem_map.mp hid
  have hshort : (m.versions.filter (fun x => x.id ≠ e.id)).length ≠ m.versions.length := by
    intro hlen
    simpa using length_filter_eq_length_iff.mp hlen e he
  simp only [deleteVersion, hget, ObjectMeta.removeVersion, if_neg hshort, if_neg hlatest,
    some.injEq, exists_eq_left']
  intro k
  simp only [ObjectMeta.without, reduceCtorEq, if_false, mem_singleton]
  by_cases hkept : m.versions.filter (fun x => x.id ≠ e.id) = []
  · simp only [hkept, if_true]
    exact get_erase rows key k
  · simp only [hkept, if_false]
    exact Dict.get_set rows key k _

/-- Deleting superseded versions one by one. The row goes with its last version. -/
theorem deleteEach_spec (key : Key) (ids : List VersionId) (rows : Dict Key ObjectMeta)
    (m : ObjectMeta) (hget : rows.get key = some m)
    (hsub : ∀ id ∈ ids, id ∈ m.versions.map VersionEntry.id) (hnodup : ids.Nodup)
    (hlatest : m.latest ∉ ids) :
    (deleteEach key rows ids).2.2 = none ∧
    ∀ k, (deleteEach key rows ids).1.get k = if k = key then m.without ids else rows.get k := by
  induction ids generalizing rows m with
  | nil =>
    refine ⟨rfl,?_⟩
    intro k
    split_ifs with hk
    · rw [hk]
      exact hget
    · rfl
  | cons id ids ih =>
    simp only [mem_cons, not_or] at hlatest
    obtain ⟨hnot,hnodup⟩ := nodup_cons.mp hnodup
    obtain ⟨rows',hdelete,hrows⟩ := deleteVersion_superseded hget (hsub id mem_cons_self) hlatest.1
    have hleft : ∀ i ∈ ids, i ∈ (m.versions.filter (fun e => e.id ∉ [id])).map VersionEntry.id := by
      intro i hi
      obtain ⟨e,he,rfl⟩ := mem_map.mp (hsub i (mem_cons_of_mem id hi))
      refine mem_map_of_mem (mem_filter.mpr ⟨he,?_⟩)
      rw [decide_eq_true_eq, mem_singleton]
      rintro rfl
      exact hnot hi
    simp only [deleteEach, hdelete, without_cons m id ids]
    cases hwithout : m.without [id] with
    | none =>
      -- the row had no other version, and none is left to delete
      rw [without_eq_none hwithout] at hleft
      have hids : ids = [] := eq_nil_iff_forall_not_mem.mpr (by simpa using hleft)
      subst hids
      rw [hwithout] at hrows
      exact ⟨rfl,hrows⟩
    | some m' =>
      rw [hwithout] at hrows
      obtain ⟨hlatest',hversions⟩ := without_eq_some hwithout
      obtain ⟨hnone,hrest⟩ := ih rows' m' (by rw [hrows, if_pos rfl]) (hversions ▸ hleft) hnodup
        (hlatest' ▸ hlatest.2)
      refine ⟨hnone,?_⟩
      intro k
      rw [hrest, hrows]
      split_ifs <;> rfl

/-- A reaping pass deletes from the rows before the first that raises. -/
theorem reapNoncurrent_spec (now : ℤ) (policy : LifecyclePolicy) (es : List (Key × ObjectMeta))
    (hnodup : (es.map Prod.fst).Nodup) (rows : Dict Key ObjectMeta)
    (hes : ∀ e ∈ es, rows.get e.1 = some e.2) :
    ((reapNoncurrent now policy rows es).2.2 = none ↔ es.all (reapable policy) = true) ∧
    ∀ k, (reapNoncurrent now policy rows es).1.get k = (rows.get k).bind (fun m =>
      if (k,m) ∈ es.takeWhile (reapable policy) then m.without (staleVersions policy k m now)
      else some m) := by
  induction es generalizing rows with
  | nil => simp [reapNoncurrent]
  | cons e es ih =>
    obtain ⟨key,m⟩ := e
    obtain ⟨hkey,hnodup⟩ := nodup_cons.mp hnodup
    unfold reapNoncurrent
    rw [pick_eq now (supersededSince m)]
    cases hr : reapable policy (key,m) with
    | false =>
      simp only [reapable] at hr
      simp [hr, reapable]
    | true =>
      have hall := hr
      simp only [reapable] at hr
      obtain ⟨hsub,hstale,hlatest⟩ := staleVersions_spec policy key m now
      obtain ⟨hnone,hrows⟩ := deleteEach_spec key (staleVersions policy key m now) rows m
        (hes (key,m) mem_cons_self) hsub hstale hlatest
      have hother (x : ObjectMeta) (l : List (Key × ObjectMeta)) (hl : l ⊆ es) : (key,x) ∉ l :=
        fun h => hkey (List.mem_map.mpr ⟨(key,x),hl h,rfl⟩)
      obtain ⟨ihnone,ihrows⟩ := ih hnodup
        (deleteEach key rows (staleVersions policy key m now)).1 (by
          intro e he
          have hne : e.1 ≠ key := fun h => hother e.2 es (fun _ hx => hx) (h ▸ he)
          rw [hrows, if_neg hne]
          exact hes e (mem_cons_of_mem _ he))
      simp only [hr, if_true, staleVersions_eq, hnone, all_cons, hall, Bool.true_and,
        takeWhile_cons]
      refine ⟨ihnone,?_⟩
      intro k
      rw [ihrows, hrows]
      by_cases hk : k = key
      · subst hk
        rw [if_pos rfl, hes (k,m) mem_cons_self, bind_some, if_pos mem_cons_self]
        -- the key has one entry, so the later ones leave its row alone
        cases m.without (staleVersions policy k m now) with
        | none => rfl
        | some m' => rw [bind_some, if_neg (hother m' _ (takeWhile_sublist _).subset)]
      · simp [hk]

section
variable (now : ℤ) (codec : Codec) (st : BucketState) (w : SweepWorld)

theorem tierPhase_spec (hruns : st.expiryRuns = true) :
    let r := tierPhase now codec st.policy (st.survivors now) w
    r.1.index = w.index ∧ r.1.uploads = w.uploads ∧
    r.1.store = (if st.selectionRuns now then (tierAll codec w.store (st.candidates now)).2
      else w.store) ∧
    (r.2 = none ↔ st.migrationRuns now w.store = true) := by
  intro r
  have hraise : (tierAll codec w.store (st.candidates now)).1 = true ↔
      ¬ (st.candidates now).all (fun d => !(w.store.view d).packed) = true := by
    rw [(tierAll_spec codec w.store _).1]
    simp
  simp only [r, tierPhase, pick_eq, BucketState.migrationRuns, BucketState.selectionRuns, hruns,
    Bool.true_and]
  split_ifs with hselect
  · simp only [hselect, Bool.true_and]
    rw [← BucketState.candidates]
    split_ifs with h
    · exact ⟨rfl,rfl,rfl,by simpa using hraise.mp h⟩
    · exact ⟨rfl,rfl,rfl,by simpa using not_not.mp (mt hraise.mpr h)⟩
  · simp [hselect]

theorem get_abortEach (uploads : Dict Text ℤ) (ids : List Text) (x : Text) :
    (abortEach uploads ids).1.get x = if x ∈ ids then none else uploads.get x := by
  induction ids generalizing uploads with
  | nil => simp [abortEach]
  | cons id ids ih =>
    unfold abortEach
    split_ifs with hin hx hx
    · simp only [ih, get_erase]
      rcases mem_cons.mp hx with rfl | hx
      · simp
      · simp [hx]
    · simp only [mem_cons, not_or] at hx
      simp only [ih, get_erase, hx.1, hx.2, if_false]
    · rw [ih]
      rcases mem_cons.mp hx with rfl | hx
      · have hnone := get_of_not_contains hin
        simp [hnone]
      · simp [hx]
    · simp only [mem_cons, not_or] at hx
      rw [ih, if_neg hx.2]

variable (predates : ℤ → ℤ → ℤ → Bool)

theorem abortStaleUploads_spec (policy : LifecyclePolicy) :
    let r := abortStaleUploads now predates policy w
    let runs := w.uploads.isNone || (abortThreshold policy).all (fun days =>
      decide (days.natAbs < floatLimit))
    r.1.index = w.index ∧ r.1.store = w.store ∧ r.1.uploads.isSome = w.uploads.isSome ∧
    (r.2 = none ↔ runs = true) ∧
    ∀ id mtime, r.1.upload id = some mtime ↔ w.upload id = some mtime ∧
      (runs = true → ∀ days, abortThreshold policy = some days →
        predates mtime now days = false) := by
  intro r runs
  simp only [r, runs, abortStaleUploads, SweepWorld.upload]
  cases hu : w.uploads with
  | none => simp [hu]
  | some u =>
    cases hdays : abortThreshold policy with
    | none => simp [hu]
    | some days =>
      by_cases hin : days.natAbs < floatLimit
      · simp only [if_neg (Nat.not_le.mpr hin)]
        refine ⟨trivial,trivial,by simp,by simp [hin],?_⟩
        intro id mtime
        have hstale : id ∈ (u.filter (fun _ mtime => predates mtime now days)).keys ↔
            ∃ m, u.get id = some m ∧ predates m now days = true := by
          simp only [Dict.mem_keys, Dict.get_filter, filter_eq_some_iff]
        simp only [bind_some, get_abortEach, hstale]
        split_ifs with h
        · obtain ⟨m,hm,hp⟩ := h
          simp only [false_iff, not_and]
          intro hget hfresh
          cases hm.symm.trans hget
          rw [hfresh (by simp [hin]) days rfl] at hp
          cases hp
        · constructor
          · intro hget
            refine ⟨hget,?_⟩
            intro _ days' hd
            cases hd
            rw [← Bool.not_eq_true]
            exact fun hp => h ⟨mtime,hget,hp⟩
          · exact fun hget => hget.1
      · simp [if_pos (Nat.not_lt.mp hin), hu, hin]

/-- What a sweep of the listed buckets has done, whether it has ended or was stopped. -/
structure Swept (bs : List Bucket) (w w' : SweepWorld) : Prop where
  rows : ∀ b st, w.index.get b = some st → ∃ st', w'.index.get b = some st' ∧
    ∀ k, st'.rows.get k = if b ∈ reached now w bs then
      (st.rows.get k).bind (st.rowAfter now w.store k) else st.rows.get k
  others : ∀ b, b ∉ bs → w'.index.get b = w.index.get b
  view : ∀ d, w'.store.view d =
    if d ∈ migrated now w bs then tierView codec (w.store.view d) else w.store.view d
  quarantined : w'.store.quarantined = w.store.quarantined
  staged : w'.uploads.isSome = w.uploads.isSome
  uploads : ∀ id mtime, w'.upload id = some mtime ↔ w.upload id = some mtime ∧
    ∀ b ∈ reached now w bs, ∀ st days, w.index.get b = some st → st.completes now w = true →
      abortThreshold st.policy = some days → predates mtime now days = false

end

section
variable {now : ℤ} {codec : Codec} {predates : ℤ → ℤ → ℤ → Bool} {w w' : SweepWorld} {b : Bucket}
  {st : BucketState}

theorem ageFor_nil (age : LifecycleRule → Option ℤ) (key : Key) : ageFor [] age key = none := rfl

@[simp] theorem past_none (since : Option ℤ) : past now since none = false := by
  cases since <;> rfl

@[simp] theorem overflows_none (since : Option ℤ) : overflows since none = false := by
  cases since <;> rfl

theorem swept_singleton (hst : w.index.get b = some st)
    (hrows : ∃ st', w'.index.get b = some st' ∧ ∀ k, st'.rows.get k =
      (st.rows.get k).bind (st.rowAfter now w.store k))
    (hothers : ∀ x, x ≠ b → w'.index.get x = w.index.get x)
    (hstore : w'.store = (if st.selectionRuns now then
      (tierAll codec w.store (st.candidates now)).2 else w.store))
    (hstaged : w'.uploads.isSome = w.uploads.isSome)
    (huploads : ∀ id mtime, w'.upload id = some mtime ↔ w.upload id = some mtime ∧
      (st.completes now w = true → ∀ days, abortThreshold st.policy = some days →
        predates mtime now days = false)) :
    Swept now codec predates [b] w w' := by
  have hreached : reached now w [b] = [b] := by simp [reached]
  have hmigrated : migrated now w [b] =
      if st.selectionRuns now then st.candidates now else [] := by
    simp only [migrated, hreached, flatMap_singleton, SweepWorld.migrates, hst]
  obtain ⟨_,hview,hquarantined⟩ := tierAll_spec codec w.store (st.candidates now)
  refine ⟨?_,?_,?_,?_,hstaged,?_⟩
  · intro x stx hx
    by_cases hxb : x = b
    · subst hxb
      cases hst.symm.trans hx
      simpa [hreached] using hrows
    · exact ⟨stx,by rw [hothers x hxb, hx],by simp [hreached, hxb]⟩
  · exact fun x hx => hothers x (fun h => hx (mem_singleton.mpr h))
  · intro d
    rw [hstore, hmigrated]
    split_ifs with hruns hd hd
    · rw [hview, if_pos hd]
    · rw [hview, if_neg hd]
    · cases hd
    · rfl
  · rw [hstore]
    split_ifs
    · exact hquarantined
    · rfl
  · intro id mtime
    rw [huploads, hreached]
    simp only [mem_singleton, forall_eq, hst, some.injEq]
    constructor
    · rintro ⟨hget,hfresh⟩
      exact ⟨hget,fun stx days hstx hruns => hstx ▸ hfresh (hstx ▸ hruns) days⟩
    · rintro ⟨hget,hfresh⟩
      exact ⟨hget,fun hruns days => hfresh st days rfl hruns⟩

theorem andThen_stopped {r : SweepOutcome} (f : SweepWorld → SweepOutcome) (h : ¬ r.2 = none) :
    r.andThen f = r := by
  unfold SweepOutcome.andThen
  split
  · rfl
  · contradiction

theorem andThen_runs {r : SweepOutcome} (f : SweepWorld → SweepOutcome) (h : r.2 = none) :
    r.andThen f = f r.1 := by
  unfold SweepOutcome.andThen
  rw [h]

theorem get_survivors (st : BucketState) (k : Key) :
    (st.survivors now).get k =
      (st.rows.get k).bind (fun m => if st.expires now (k,m) then none else some m) := by
  rw [BucketState.survivors, Dict.get_filter]
  cases st.rows.get k with
  | none => rfl
  | some m => cases h : st.expires now (k,m) <;> simp [h]

variable (now codec predates)

/-- A bucket without rules is as a sweep that finds nothing to do leaves it. -/
theorem sweepBucket_noRules (hst : w.index.get b = some st) (hpol : st.policy = []) :
    Swept now codec predates [b] w w ∧ st.completes now w = true := by
  have hexpires (e : Key × ObjectMeta) : st.expires now e = false := by
    simp [BucketState.expires, hpol, ageFor_nil]
  have hcandidates : st.candidates now = [] := by
    simp [BucketState.candidates, hpol, ageFor_nil]
  have hthreshold : abortThreshold st.policy = none := by rw [hpol]; rfl
  refine ⟨swept_singleton hst ⟨st,hst,?_⟩ (fun _ _ => rfl) ?_ rfl ?_,?_⟩
  · intro k
    cases st.rows.get k with
    | none => rfl
    | some m => simp [BucketState.rowAfter, hexpires, hpol, staleVersions, matchingRule,
        ObjectMeta.without]
  · simp [hcandidates, tierAll]
  · simp [hthreshold]
  · simp [BucketState.completes, BucketState.reapingRuns, BucketState.migrationRuns,
      BucketState.selectionRuns, BucketState.expiryRuns, hcandidates, hthreshold, reapable]
    simp [hpol, ageFor_nil]

theorem sweepBucket_eq (hst : w.index.get b = some st) (hpol : ¬ st.policy = []) :
    ∃ report, sweepBucket now codec predates w b =
      if st.expiryRuns then
        ((tierPhase now codec st.policy (st.survivors now)
          { w.setRows b st (st.survivors now) with report := report }).andThen
            (noncurrentPhase now b st (st.survivors now))).andThen
              (abortStaleUploads now predates st.policy)
      else (w,some .overflowError) := by
  have hpick : pick (fun e => aged now (liveSince e)
      (ageFor st.policy LifecycleRule.expireAfterDays e.1)) st.rows.entries =
        if st.expiryRuns then .ok (st.rows.entries.filter (st.expires now))
        else .error .overflowError := pick_eq now liveSince _ _
  have hrows : st.rows.filter (fun k _ => k ∉ (st.rows.entries.filter (st.expires now)).map
      Prod.fst) = st.survivors now := filter_keys (st.expires now)
  simp only [sweepBucket, hst, hpol, if_false, hpick]
  cases st.expiryRuns with
  | false => exact ⟨w.report,rfl⟩
  | true =>
    simp only [if_true, hrows]
    exact ⟨_,rfl⟩

/-- The sweep of one bucket, up to the phase that raises. -/
theorem sweepBucket_swept (hst : w.index.get b = some st) :
    Swept now codec predates [b] w (sweepBucket now codec predates w b).1 ∧
      ((sweepBucket now codec predates w b).2 = none ↔ st.completes now w = true) := by
  by_cases hpol : st.policy = []
  · obtain ⟨hswept,hcompletes⟩ := sweepBucket_noRules now codec predates hst hpol
    simp only [sweepBucket, hst, hpol, if_true]
    exact ⟨hswept,by simp [hcompletes]⟩
  obtain ⟨report,heq⟩ := sweepBucket_eq now codec predates hst hpol
  rw [heq]
  cases hexpiry : st.expiryRuns with
  | false =>
    have hselect : st.selectionRuns now = false := by simp [BucketState.selectionRuns, hexpiry]
    have hstopped : st.completes now w = false := by
      simp [BucketState.completes, BucketState.reapingRuns, BucketState.migrationRuns, hselect]
    refine ⟨swept_singleton hst ⟨st,hst,?_⟩ (fun _ _ => rfl) (by simp [hselect]) rfl
      (by simp [hstopped]),by simp [hstopped]⟩
    intro k
    cases st.rows.get k with
    | none => rfl
    | some m => simp [BucketState.rowAfter, hexpiry, BucketState.migrationRuns, hselect]
  | true =>
    rw [if_pos rfl]
    generalize hw₁ : ({ w.setRows b st (st.survivors now) with report := report } : SweepWorld) = w₁
    have hstore₁ : w₁.store = w.store := by rw [← hw₁]; rfl
    have huploads₁ : w₁.uploads = w.uploads := by rw [← hw₁]; rfl
    have hindex₁ : w₁.index = w.index.set b { st with rows := st.survivors now } := by
      rw [← hw₁]; rfl
    obtain ⟨hindex,huploads,hstore,hraises⟩ := tierPhase_spec now codec st w₁ hexpiry
    rw [hstore₁] at hstore hraises
    rw [huploads₁] at huploads
    rw [hindex₁] at hindex
    generalize tierPhase now codec st.policy (st.survivors now) w₁ = r
      at hindex huploads hstore hraises ⊢
    cases hmigration : st.migrationRuns now w.store with
    | false =>
      have hstopped : st.completes now w = false := by
        simp [BucketState.completes, BucketState.reapingRuns, hmigration]
      have hr : ¬ r.2 = none := fun h => by simp [hmigration, h] at hraises
      rw [andThen_stopped _ hr, andThen_stopped _ hr]
      refine ⟨swept_singleton hst ⟨_,by rw [hindex, get_set_self],?_⟩
        (fun x hx => by rw [hindex, get_set_ne hx]) hstore (by rw [huploads])
        (by simp [SweepWorld.upload, huploads, hstopped]),by simp [hstopped, hr]⟩
      intro k
      rw [get_survivors]
      congr 1
      funext m
      simp [BucketState.rowAfter, hexpiry, hmigration]
    | true =>
      rw [andThen_runs _ (hraises.mpr hmigration)]
      obtain ⟨hreap,hrows⟩ := reapNoncurrent_spec now st.policy (st.survivors now).entries
        (st.survivors now).nodup (st.survivors now) (fun e he => get_eq_some_iff.mpr he)
      have hafter (k : Key) : (reapNoncurrent now st.policy (st.survivors now)
          (st.survivors now).entries).1.get k =
            (st.rows.get k).bind (st.rowAfter now w.store k) := by
        rw [hrows, get_survivors]
        cases st.rows.get k with
        | none => rfl
        | some m =>
          simp only [bind_some, BucketState.rowAfter, hexpiry, hmigration, Bool.true_and,
            decide_eq_true_eq]
          cases st.expires now (k,m) <;> rfl
      have hothers (x : Bucket) (hx : x ≠ b) :
          (noncurrentPhase now b st (st.survivors now) r.1).1.index.get x = w.index.get x := by
        have hset : r.1.index.get x = w.index.get x := by rw [hindex, get_set_ne hx]
        exact (get_set_ne hx).trans hset
      cases hreaping : (st.survivors now).entries.all (reapable st.policy) with
      | false =>
        have hstopped : st.completes now w = false := by
          simp [BucketState.completes, BucketState.reapingRuns, hreaping]
        have hr : ¬ (noncurrentPhase now b st (st.survivors now) r.1).2 = none :=
          fun h => by simp [hreaping] at hreap; exact hreap h
        rw [andThen_stopped _ hr]
        exact ⟨swept_singleton hst ⟨_,get_set_self,hafter⟩ hothers hstore (congrArg isSome huploads)
          (by simp [hstopped, SweepWorld.upload, noncurrentPhase, SweepWorld.setRows, huploads]),
          by simp [hstopped, hr]⟩
      | true =>
        rw [andThen_runs _ (hreap.mpr hreaping)]
        obtain ⟨hindex₄,hstore₄,hstaged₄,hraises₄,huploads₄⟩ := abortStaleUploads_spec now
          (noncurrentPhase now b st (st.survivors now) r.1).1 predates st.policy
        have hstaging : (noncurrentPhase now b st (st.survivors now) r.1).1.uploads = w.uploads :=
          huploads
        have hcompletes : st.completes now w = (w.uploads.isNone ||
            (abortThreshold st.policy).all (fun days => decide (days.natAbs < floatLimit))) := by
          simp [BucketState.completes, BucketState.reapingRuns, hmigration, hreaping]
        rw [hstaging, ← hcompletes] at hraises₄
        simp only [hstaging, ← hcompletes, SweepWorld.upload] at huploads₄
        refine ⟨swept_singleton hst ⟨_,by rw [hindex₄]; exact get_set_self,hafter⟩
          (fun x hx => by rw [hindex₄]; exact hothers x hx) (hstore₄.trans hstore)
          (hstaged₄.trans (congrArg isSome hstaging)) huploads₄,hraises₄⟩

variable {now codec predates}

/-- How far a sweep gets is the same before and after migrations. -/
theorem migrationRuns_swept {bs : List Bucket} (h : Swept now codec predates bs w w')
    (st : BucketState) : st.migrationRuns now w'.store = st.migrationRuns now w.store := by
  have hpacked (d : Digest) : (w'.store.view d).packed = (w.store.view d).packed := by
    rw [h.view]
    split_ifs
    · exact packed_tierView codec _
    · rfl
  simp only [BucketState.migrationRuns, hpacked]

theorem completes_swept {bs : List Bucket} (h : Swept now codec predates bs w w')
    (st : BucketState) : st.completes now w' = st.completes now w := by
  have hstaged : w'.uploads.isNone = w.uploads.isNone := by
    rw [← not_isSome, ← not_isSome, h.staged]
  simp only [BucketState.completes, BucketState.reapingRuns, migrationRuns_swept h, hstaged]

theorem reached_swept {xs bs : List Bucket} (h : Swept now codec predates xs w w')
    (hbs : ∀ b ∈ bs, b ∉ xs) : reached now w' bs = reached now w bs := by
  induction bs with
  | nil => rfl
  | cons b bs ih =>
    simp only [reached, h.others b (hbs b mem_cons_self), completes_swept h,
      ih (fun x hx => hbs x (mem_cons_of_mem b hx))]

theorem reached_subset (now : ℤ) (w : SweepWorld) (bs : List Bucket) : reached now w bs ⊆ bs := by
  induction bs with
  | nil => exact fun _ h => h
  | cons b bs ih =>
    intro x hx
    rcases mem_cons.mp hx with rfl | hx
    · exact mem_cons_self
    · split_ifs at hx
      · exact mem_cons_of_mem b (ih hx)
      · cases hx

theorem migrated_swept {xs bs : List Bucket} (h : Swept now codec predates xs w w')
    (hbs : ∀ b ∈ bs, b ∉ xs) : migrated now w' bs = migrated now w bs := by
  unfold migrated
  rw [reached_swept h hbs]
  apply flatMap_congr
  intro b hb
  rw [SweepWorld.migrates, h.others b (hbs b (reached_subset now w bs hb))]
  rfl

/-- The buckets are independent but for the blobs they share, and migrating one again changes
nothing. -/
theorem swept_cons {bs : List Bucket} (hb : b ∉ bs) (hst : w.index.get b = some st)
    (hcompletes : st.completes now w = true) {w₁ w₂ : SweepWorld}
    (h₁ : Swept now codec predates [b] w w₁) (h₂ : Swept now codec predates bs w₁ w₂) :
    Swept now codec predates (b :: bs) w w₂ := by
  have hrest (x : Bucket) (hx : x ∈ bs) : x ∉ [b] := fun h => hb (mem_singleton.mp h ▸ hx)
  have hreached : reached now w (b :: bs) = b :: reached now w bs := by
    simp [reached, hst, hcompletes]
  have hown : reached now w [b] = [b] := by simp [reached]
  have hmigrated : migrated now w (b :: bs) = migrated now w [b] ++ migrated now w bs := by
    simp [migrated, hreached, hown]
  have hnot : b ∉ reached now w bs := fun h => hb (reached_subset now w bs h)
  have hsame := reached_swept h₁ hrest
  refine ⟨?_,?_,?_,h₂.quarantined.trans h₁.quarantined,h₂.staged.trans h₁.staged,?_⟩
  · intro x stx hx
    obtain ⟨st₁,hst₁,hrows₁⟩ := h₁.rows x stx hx
    obtain ⟨st₂,hst₂,hrows₂⟩ := h₂.rows x st₁ hst₁
    refine ⟨st₂,hst₂,?_⟩
    intro k
    rw [hrows₂, hsame, hreached]
    by_cases hxb : x = b
    · subst hxb
      rw [if_neg hnot, hrows₁, hown]
      simp
    · have hst₁' : st₁ = stx := by
        rw [h₁.others x (by simp [hxb]), hx] at hst₁
        exact (some.inj hst₁).symm
      subst hst₁'
      have hafter : st₁.rowAfter now w₁.store k = st₁.rowAfter now w.store k := by
        funext m
        simp only [BucketState.rowAfter, migrationRuns_swept h₁]
      simp only [hafter, mem_cons, hxb, false_or]
  · intro x hx
    simp only [mem_cons, not_or] at hx
    rw [h₂.others x hx.2, h₁.others x (by simp [hx.1])]
  · intro d
    rw [h₂.view, h₁.view, migrated_swept h₁ hrest, hmigrated]
    simp only [mem_append]
    by_cases hd : d ∈ migrated now w [b]
    · simp [hd, tierView_idem]
    · simp [hd]
  · intro id mtime
    rw [h₂.uploads, h₁.uploads, hsame, hreached, hown, and_assoc, forall_mem_singleton,
      forall_mem_cons]
    apply and_congr_right
    intro _
    apply and_congr_right
    intro _
    apply forall₂_congr
    intro x hx
    simp only [h₁.others x (hrest x (reached_subset now w bs hx)), completes_swept h₁]

variable (now codec predates)

/-- The sweep of the listed buckets, up to the one that stops it. -/
theorem runOnceAt_swept {bs : List Bucket} (hnodup : bs.Nodup)
    (hbs : ∀ b ∈ bs, ∃ st, w.index.get b = some st) :
    Swept now codec predates bs w (runOnceAt now codec predates bs w).1 ∧
      ((runOnceAt now codec predates bs w).2 = none ↔
        ∀ b ∈ bs, ∀ st, w.index.get b = some st → st.completes now w = true) := by
  induction bs generalizing w with
  | nil =>
    refine ⟨⟨fun b st h => ⟨st,h,by simp [reached]⟩,fun _ _ => rfl,?_,rfl,rfl,?_⟩,
      by simp [runOnceAt]⟩
    · simp [migrated, reached, runOnceAt]
    · simp [reached, runOnceAt]
  | cons b bs ih =>
    obtain ⟨hb,hnodup⟩ := nodup_cons.mp hnodup
    obtain ⟨st,hst⟩ := hbs b mem_cons_self
    obtain ⟨hswept,hnone⟩ := sweepBucket_swept now codec predates hst
    unfold runOnceAt
    cases hcompletes : st.completes now w with
    | false =>
      have hstopped : ¬ (sweepBucket now codec predates w b).2 = none := by simp [hnone, hcompletes]
      have hreached : reached now w (b :: bs) = reached now w [b] := by
        simp [reached, hst, hcompletes]
      rw [andThen_stopped _ hstopped]
      refine ⟨⟨?_,fun x hx => hswept.others x (fun h => hx (mem_singleton.mp h ▸ mem_cons_self)),
        ?_,hswept.quarantined,hswept.staged,?_⟩,?_⟩
      · simpa only [hreached] using hswept.rows
      · intro d
        rw [migrated, hreached]
        exact hswept.view d
      · simpa only [hreached] using hswept.uploads
      · exact ⟨fun h => absurd h hstopped,fun h => by simp [h b mem_cons_self st hst] at hcompletes⟩
    | true =>
      have hrest (x : Bucket) (hx : x ∈ bs) :
          (sweepBucket now codec predates w b).1.index.get x = w.index.get x :=
        hswept.others x (fun h => hb (mem_singleton.mp h ▸ hx))
      obtain ⟨hswept',hnone'⟩ := ih (w := (sweepBucket now codec predates w b).1) hnodup (by
        intro x hx
        rw [hrest x hx]
        exact hbs x (mem_cons_of_mem b hx))
      rw [andThen_runs _ (hnone.mpr hcompletes)]
      refine ⟨swept_cons hb hst hcompletes hswept hswept',?_⟩
      rw [hnone', forall_mem_cons]
      simp only [completes_swept hswept]
      constructor
      · intro h
        refine ⟨fun stx hx => some.inj (hst.symm.trans hx) ▸ hcompletes,?_⟩
        intro x hx stx hstx
        exact h x hx stx ((hrest x hx).trans hstx)
      · intro h x hx stx hstx
        exact h.2 x hx stx ((hrest x hx).symm.trans hstx)

theorem mem_buckets_iff {bs : List Bucket} (hbs : bs.Perm w.index.keys) {b : Bucket} :
    b ∈ bs ↔ ∃ st, w.index.get b = some st := by
  rw [hbs.mem_iff, Dict.mem_keys]

end

/-- The referrers of a digest that were noted are at least this young. -/
def Noted (m : Dict Digest ℤ) (d : Digest) (t : ℤ) : Prop :=
  ∃ newest, m.get d = some newest ∧ t ≤ newest

theorem noted_noteReferrer (m : Dict Digest ℤ) (e : Key × ObjectMeta) {r : ResolvedObject}
    (hlive : e.2.latestLive = some r) :
    Noted (noteReferrer m e) r.live.digest r.lastModified := by
  simp only [noteReferrer, hlive]
  split
  · exact ⟨_,get_set_self,Int.le_refl _⟩
  · rename_i current hm
    split_ifs with hlt
    · exact ⟨_,get_set_self,Int.le_refl _⟩
    · exact ⟨current,hm,Int.not_lt.mp hlt⟩

theorem noted_set {m : Dict Digest ℤ} {d x : Digest} {t t' : ℤ} (h : Noted m d t)
    (hle : ∀ current, m.get x = some current → current ≤ t') : Noted (m.set x t') d t := by
  obtain ⟨newest,hm,hnewest⟩ := h
  by_cases hd : d = x
  · subst hd
    exact ⟨t',get_set_self,Int.le_trans hnewest (hle newest hm)⟩
  · exact ⟨newest,(get_set_ne hd).trans hm,hnewest⟩

theorem noted_foldl {d : Digest} {t : ℤ} (es : List (Key × ObjectMeta)) {m : Dict Digest ℤ}
    (h : Noted m d t) : Noted (es.foldl noteReferrer m) d t := by
  induction es generalizing m with
  | nil => exact h
  | cons e es ih =>
    apply ih
    unfold noteReferrer
    split
    · exact h
    · split
      · rename_i hm
        exact noted_set h (by simp [hm])
      · rename_i current hm
        split_ifs with hlt
        · exact noted_set h (by simpa [hm] using hlt.le)
        · exact h

/-- Every referrer of a blob in the bucket is at least as old as the age the blob is given. -/
theorem le_youngest {rows : Dict Key ObjectMeta} {key : Key} {row : ObjectMeta}
    {r : ResolvedObject} (hrow : rows.get key = some row) (hlive : row.latestLive = some r) :
    Noted (youngest rows) r.live.digest r.lastModified := by
  obtain ⟨front,back,hsplit⟩ := append_of_mem (get_eq_some_iff.mp hrow)
  rw [youngest, hsplit, foldl_append, foldl_cons]
  exact noted_foldl back (noted_noteReferrer _ (key,row) hlive)

theorem resolveLive_without {m m' : ObjectMeta} {ids : List VersionId}
    (h : m.without ids = some m') {ref : ObjectRef} (hid : ref.getD m.latest ∉ ids) :
    m'.resolveLive ref = m.resolveLive ref := by
  obtain ⟨hlatest,hversions⟩ := without_eq_some h
  have hres : m'.resolve ref = m.resolve ref := by
    simp only [ObjectMeta.resolve, hversions, hlatest, find?_filter]
    congr 1
    funext e
    by_cases he : e.id = ref.getD m.latest
    · simp [he, hid]
    · simp [he]
  rw [ObjectMeta.resolveLive, hres]
  rfl

theorem resolveLive_of_latestLive {m : ObjectMeta} {r : ResolvedObject}
    (h : m.latestLive = some r) : m.resolveLive none = .ok r := by
  unfold ObjectMeta.latestLive at h
  cases hres : m.resolveLive none with
  | error e => simp [hres, Except.toOption] at h
  | ok x => simpa [hres, Except.toOption] using h

/-- Reaping does not touch the current version. -/
theorem latestLive_rowAfter (now : ℤ) (st : BucketState) (s : StoreState) (k : Key)
    (m : ObjectMeta) : (st.rowAfter now s k m).bind ObjectMeta.latestLive =
      if st.expiryRuns && st.expires now (k,m) then none else m.latestLive := by
  unfold BucketState.rowAfter
  split_ifs with hexp hreap
  · rfl
  · have hlatest := (staleVersions_spec st.policy k m now).2.2
    cases hw : m.without (staleVersions st.policy k m now) with
    | some m' =>
      rw [bind_some, ObjectMeta.latestLive, resolveLive_without hw (by simpa using hlatest)]
      rfl
    | none =>
      -- a current version would have been kept
      cases hlive : m.latestLive with
      | none => rfl
      | some r =>
        obtain ⟨e,he,_,hid,hr⟩ := resolveLive_mem (resolveLive_of_latestLive hlive)
        have hkept : e ∈ m.versions.filter (fun e => e.id ∉ staleVersions st.policy k m now) := by
          apply mem_filter.mpr
          have hlast : r.versionId = m.latest := hr
          simpa [he, hid, hlast] using hlatest
        rw [without_eq_none hw] at hkept
        cases hkept
  · rfl

theorem mem_rowAfter (now : ℤ) (st : BucketState) (s : StoreState) (k : Key) (m : ObjectMeta)
    (e : VersionEntry) : (∃ m', st.rowAfter now s k m = some m' ∧ e ∈ m'.versions) ↔
      e ∈ m.versions ∧ ¬ (st.expiryRuns && st.expires now (k,m)) = true ∧
        ¬ (st.migrationRuns now s = true ∧
          (k,m) ∈ (st.survivors now).entries.takeWhile (reapable st.policy) ∧
            e.id ∈ staleVersions st.policy k m now) := by
  unfold BucketState.rowAfter
  split_ifs with hexp hreap
  · simp only [false_and, exists_false, false_iff]
    exact fun h => h.2.1 hexp
  · simp only [Bool.and_eq_true, decide_eq_true_eq] at hreap
    have hkept : e ∈ m.versions.filter (fun e => e.id ∉ staleVersions st.policy k m now) ↔
        e ∈ m.versions ∧ e.id ∉ staleVersions st.policy k m now := by simp
    rw [and_iff_right hexp, and_iff_right hreap.1, and_iff_right hreap.2, ← hkept]
    cases hw : m.without (staleVersions st.policy k m now) with
    | some m' => simp [(without_eq_some hw).2]
    | none =>
      rw [without_eq_none hw]
      simp
  · simp only [Bool.and_eq_true, decide_eq_true_eq] at hreap
    rw [and_iff_right hexp]
    simp only [some.injEq, exists_eq_left']
    exact ⟨fun he => ⟨he,fun h => hreap ⟨h.1,h.2.1⟩⟩,fun h => h.1⟩

end BackendGauntlet.ObjectStore
