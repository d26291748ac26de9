import BackendGauntlet.Transition
import BackendGauntlet.ObjectStoreIndex
import BackendGauntlet.ObjectStoreLifecycle

/-! A lifecycle sweep among client writes. Each write to a row is one step. -/
namespace BackendGauntlet.ObjectStore

open PyText List

/-- A deletion with the row it was decided from. `none` drops the key, an id that version. -/
structure Planned where
  key : Key
  seen : ObjectMeta
  days : ℤ
  ref : ObjectRef

def expireDays (policy : LifecyclePolicy) (now : ℤ) (e : Key × ObjectMeta) : Option ℤ :=
  match matchingRule policy e.1, e.2.latestLive with
  | some rule, some live =>
    match rule.expireAfterDays with
    | some days => if olderThanDays live.lastModified now days then some days else none
    | none => none
  | _, _ => none

def planEntry (policy : LifecyclePolicy) (now : ℤ) (e : Key × ObjectMeta) : List Planned :=
  match expireDays policy now e with
  | some days => [⟨e.1,e.2,days,none⟩]
  | none =>
    match (matchingRule policy e.1).bind LifecycleRule.noncurrentExpireAfterDays with
    | none => []
    | some days =>
      (staleVersions policy e.1 e.2 now).map (fun id => ⟨e.1,e.2,days,some id⟩)

def planOf (policy : LifecyclePolicy) (now : ℤ) (entries : List (Key × ObjectMeta)) :
    List Planned :=
  let plan := entries.flatMap (planEntry policy now)
  plan.filter (fun p => p.ref.isNone) ++ plan.filter (fun p => p.ref.isSome)

inductive SweepStage
  | buckets (todo : List Bucket)
  | reading (bucket : Bucket) (policy : LifecyclePolicy) (todo : List Key)
      (entries : List (Key × ObjectMeta)) (rest : List Bucket)
  | deleting (bucket : Bucket) (plan : List Planned) (rest : List Bucket)

structure Sweep where
  now : ℤ
  stage : SweepStage

structure Removal where
  bucket : Bucket
  planned : Planned
  now : ℤ
  versions : List VersionEntry

structure ExpiryState where
  index : Index
  sweep : Option Sweep
  removed : List Removal

inductive ExpiryAction
  | put (bucket : Bucket) (key : Key) (v : NewVersion) (guard : Precondition) (now : ℤ)
  | delete (bucket : Bucket) (key : Key) (ref : ObjectRef)
  | sweepStart (now : ℤ)
  | sweepStep
  | sweepAbort

def removedVersions (row : Option ObjectMeta) (ref : ObjectRef) : List VersionEntry :=
  match row with
  | none => []
  | some m => m.versions.filter (fun e => ref.all (fun id => e.id = id))

def sweepAdvance (s : ExpiryState) (w : Sweep) : ExpiryState :=
  match w.stage with
  | .buckets [] => { s with sweep := none }
  | .buckets (b :: rest) =>
    match s.index.get b with
    -- `load_bucket_metadata` raises `NoSuchBucket`
    | none => { s with sweep := none }
    | some st =>
      if st.policy = [] then { s with sweep := some ⟨w.now,.buckets rest⟩ }
      else { s with sweep := some ⟨w.now,.reading b st.policy st.rows.keys [] rest⟩ }
  | .reading b policy (k :: todo) entries rest =>
    match rowOf s.index b k with
    | none => { s with sweep := some ⟨w.now,.reading b policy todo entries rest⟩ }
    | some m => { s with sweep := some ⟨w.now,.reading b policy todo (entries ++ [(k,m)]) rest⟩ }
  | .reading b policy [] entries rest =>
    { s with sweep := some ⟨w.now,.deleting b (planOf policy w.now entries) rest⟩ }
  | .deleting b (p :: plan) rest =>
    match indexDelete (rowOf s.index b p.key) p.ref with
    -- a version that is gone already ends the sweep
    | .error _ => { s with sweep := none }
    | .ok row =>
      { index := writeRow s.index b p.key row
        sweep := some ⟨w.now,.deleting b plan rest⟩
        removed := s.removed ++
          [⟨b,p,w.now,removedVersions (rowOf s.index b p.key) p.ref⟩] }
  | .deleting _ [] rest => { s with sweep := some ⟨w.now,.buckets rest⟩ }

def clientWrite (s : ExpiryState) (bucket : Bucket) (key : Key) (call : KeyCall) :
    Option ExpiryState :=
  if (s.index.get bucket).isSome then
    some { s with index := writeRow s.index bucket key (call.rowAfter (rowOf s.index bucket key)) }
  else none

def expiryStep (s : ExpiryState) : ExpiryAction → Option ExpiryState
  | .put bucket key v guard now => clientWrite s bucket key (.put v guard now)
  | .delete bucket key ref => clientWrite s bucket key (.delete ref)
  | .sweepStart now =>
    if s.sweep.isSome then none
    else some { s with sweep := some ⟨now,.buckets s.index.keys⟩ }
  | .sweepStep => s.sweep.map (sweepAdvance s)
  | .sweepAbort => if s.sweep.isSome then some { s with sweep := none } else none

def Sweep.pending (w : Sweep) : List (Bucket × Planned) :=
  match w.stage with
  | .buckets _ => []
  | .reading b policy _ entries _ =>
    (entries.flatMap (planEntry policy w.now)).map (fun p => (b,p))
  | .deleting b plan _ => plan.map (fun p => (b,p))

def currentYoungest (m : ObjectMeta) : Bool :=
  m.latestLive.all (fun r => m.versions.all (fun e => e.lastModified ≤ r.lastModified))

/-- No put reaches a key the sweep is about to drop, nor recreates a row of which it is about to
drop a version. -/
def undisturbed (s : ExpiryState) : ExpiryAction → Bool
  | .put bucket key v guard now =>
    (indexPut (rowOf s.index bucket key) v guard now).toOption.isNone ||
    s.sweep.all (fun w => w.pending.all (fun p =>
      !(decide (p.1 = bucket) && decide (p.2.key = key)) ||
        (p.2.ref.isSome && (rowOf s.index bucket key).isSome)))
  | .sweepStep =>
    match s.sweep with
    | some ⟨now,.reading b policy (k :: _) _ _⟩ =>
      (rowOf s.index b k).all (fun m =>
        (expireDays policy now (k,m)).isNone || currentYoungest m)
    | _ => true
  | _ => true

def Unswept (s : ExpiryState) : Prop :=
  (∀ b k, Counts (rowOf s.index b k)) ∧ s.sweep = none ∧ s.removed = []

structure Tracked (now : ℤ) (row : Option ObjectMeta) (p : Planned) : Prop where
  old : ∀ e ∈ p.seen.versions, (∀ id, p.ref = some id → e.id = id) →
    olderThanDays e.lastModified now p.days = true
  same : ∀ m, row = some m → ∀ e ∈ m.versions, (∀ id, p.ref = some id → e.id = id) →
    e ∈ p.seen.versions
  counted : ∀ m, row = some m → ∀ id, p.ref = some id → id < m.nextId

theorem Tracked.shrink (now : ℤ) (row row' : Option ObjectMeta) (p : Planned)
    (h : Tracked now row p)
    (hsub : ∀ m', row' = some m' → ∃ m, row = some m ∧ m'.nextId = m.nextId ∧
      ∀ e ∈ m'.versions, e ∈ m.versions) : Tracked now row' p where
  old := h.old
  same := by
    intro m' hm' e he href
    obtain ⟨m,hm,_,hv⟩ := hsub m' hm'
    exact h.same m hm e (hv e he) href
  counted := by
    intro m' hm' id hid
    obtain ⟨m,hm,hn,_⟩ := hsub m' hm'
    rw [hn]
    exact h.counted m hm id hid

theorem Tracked.put (now : ℤ) (m : ObjectMeta) (p : Planned) (v : NewVersion) (time : ℤ)
    (h : Tracked now (some m) p) (hm : Counts (some m)) (href : p.ref.isSome = true) :
    Tracked now (some (putRow (some m) v time)) p := by
  obtain ⟨id,hid⟩ := Option.isSome_iff_exists.mp href
  have hlt := h.counted m rfl id hid
  obtain ⟨_,hnext,hlat⟩ := counted_putRow (some m) v time hm
  simp only [Option.map_some, Option.getD_some] at hlat
  refine ⟨h.old,?_,?_⟩
  · intro m' hm' e he hre
    cases Option.some.inj hm'
    simp only [putRow, ObjectMeta.appendLive, mem_append, mem_singleton] at he
    rcases he with he | rfl
    · exact h.same m rfl e he hre
    · -- the new id is the counter, past every planned id
      have hnew : m.freshId = id := hre id hid
      have hfresh : m.freshId = m.nextId := hlat
      rw [← hnew, hfresh] at hlt
      exact absurd hlt (Int.lt_irrefl _)
  · intro m' hm' x hx
    cases Option.some.inj hm'
    have hxid : x = id := Option.some.inj (hx.symm.trans hid)
    rw [hxid, hnext, hlat]
    exact Int.lt_add_one_of_le (Int.le_of_lt hlt)

variable {row : Option ObjectMeta} {now : ℤ} {bucket : Bucket} {key : Key} {t : ExpiryState}

theorem indexDelete_shrinks {row' : Option ObjectMeta} {ref : ObjectRef}
    (h : indexDelete row ref = .ok row') (m' : ObjectMeta) (hm' : row' = some m') :
    ∃ m, row = some m ∧ m'.nextId = m.nextId ∧ ∀ e ∈ m'.versions, e ∈ m.versions := by
  cases ref with
  | none => exact absurd (hm'.symm.trans (Except.ok.inj h).symm) (by simp)
  | some id =>
    obtain ⟨m,m1,hm,hr,hif⟩ := indexDelete_version row row' id h
    obtain ⟨hv,hn,_,_⟩ := removeVersion_eq_some m m1 id hr
    rw [hif] at hm'
    split at hm'
    · cases hm'
    · cases Option.some.inj hm'
      refine ⟨m,hm,hn,?_⟩
      intro e he
      rw [hv] at he
      exact (mem_filter.mp he).1

theorem tracked_of_read {policy : LifecyclePolicy} {k : Key} {m : ObjectMeta}
    (hcounts : Counts (some m))
    (hyoung : (expireDays policy now (k,m)).isNone = true ∨ currentYoungest m = true)
    {p : Planned} (hp : p ∈ planEntry policy now (k,m)) :
    p.key = k ∧ Tracked now (some m) p := by
  unfold planEntry at hp
  cases hd : expireDays policy now (k,m) with
  | some days =>
    simp only [hd, mem_singleton] at hp
    subst hp
    refine ⟨rfl,?_,fun m' hm' e he _ => by cases Option.some.inj hm'; exact he,
      fun m' _ id hid => absurd hid (by simp)⟩
    -- the current version is past the age, and no other is younger
    intro e he _
    have hy : currentYoungest m = true := hyoung.resolve_left (by simp [hd])
    unfold expireDays at hd
    cases hrule : matchingRule policy k with
    | none => simp [hrule] at hd
    | some rule =>
      cases hlive : m.latestLive with
      | none => simp [hrule, hlive] at hd
      | some r =>
        simp only [hrule, hlive] at hd
        cases hex : rule.expireAfterDays with
        | none => simp [hex] at hd
        | some days' =>
          simp only [hex] at hd
          split_ifs at hd with hold
          cases hd
          simp only [currentYoungest, hlive, Option.all_some, List.all_eq_true,
            decide_eq_true_eq] at hy
          have hle := hy e he
          unfold olderThanDays at hold ⊢
          simp only [decide_eq_true_eq] at hold ⊢
          omega
  | none =>
    simp only [hd] at hp
    cases hn : (matchingRule policy k).bind LifecycleRule.noncurrentExpireAfterDays with
    | none => simp [hn] at hp
    | some days =>
      simp only [hn] at hp
      obtain ⟨id,hid,rfl⟩ := List.mem_map.mp hp
      unfold staleVersions at hid
      simp only [hn] at hid
      obtain ⟨e0,he0,hide⟩ := List.mem_map.mp hid
      obtain ⟨hmem,hstale⟩ := mem_filter.mp he0
      refine ⟨rfl,?_,fun m' hm' e he _ => by cases Option.some.inj hm'; exact he,?_⟩
      · -- ids are distinct, so the version with this id is the one found stale
        intro e he href
        have hee : e = e0 := by
          apply inj_on_of_nodup_map m.ids he hmem
          rw [href id rfl, hide]
        rw [hee]
        exact (Bool.and_eq_true_iff.mp hstale).2
      · intro m' hm' x hx
        cases Option.some.inj hm'
        have hxid : id = x := Option.some.inj hx
        rw [← hxid, ← hide]
        exact (hcounts m rfl).1 e0 hmem

structure ExpiryInv (s : ExpiryState) : Prop where
  counts : ∀ b k, Counts (rowOf s.index b k)
  tracked : ∀ w, s.sweep = some w → ∀ p ∈ w.pending, Tracked w.now (rowOf s.index p.1 p.2.key) p.2
  removed : ∀ r ∈ s.removed, ∀ e ∈ r.versions, e ∈ r.planned.seen.versions ∧
    olderThanDays e.lastModified r.now r.planned.days = true

def Keeps (R : Option ObjectMeta → Prop) (T : ℤ → Option ObjectMeta → Planned → Prop)
    (s : ExpiryState) : Prop :=
  (∀ b k, R (rowOf s.index b k)) ∧
    ∀ w, s.sweep = some w → ∀ p ∈ w.pending, T w.now (rowOf s.index p.1 p.2.key) p.2

inductive Calls (s : ExpiryState) : ExpiryAction → Bucket → Key → KeyCall → Prop
  | put {b k v guard now} : Calls s (.put b k v guard now) b k (.put v guard now)
  | delete {b k ref} : Calls s (.delete b k ref) b k (.delete ref)
  | sweep {now b p plan rest} (hw : s.sweep = some ⟨now,.deleting b (p :: plan) rest⟩) :
      Calls s .sweepStep b p.key (.delete p.ref)

section
variable {R : Option ObjectMeta → Prop} {T : ℤ → Option ObjectMeta → Planned → Prop}
  {s : ExpiryState} (h : Keeps R T s)
include h

theorem keeps_sweep {sweep : Option Sweep} {removed : List Removal}
    (hsub : ∀ w', sweep = some w' → ∀ p ∈ w'.pending,
      ∃ w, s.sweep = some w ∧ w.now = w'.now ∧ p ∈ w.pending) :
    Keeps R T ⟨s.index,sweep,removed⟩ := by
  refine ⟨h.1,?_⟩
  intro w' hw' p hp
  obtain ⟨w,hw,hnow,hmem⟩ := hsub w' hw' p hp
  rw [← hnow]
  exact h.2 w hw p hmem

theorem keeps_write (hb : (s.index.get bucket).isSome = true) (hrow : R row ∧
      ∀ w, s.sweep = some w → ∀ p ∈ w.pending, p.1 = bucket → p.2.key = key → T w.now row p.2) :
    Keeps R T { s with index := writeRow s.index bucket key row } := by
  refine ⟨?_,?_⟩
  · intro b k
    rw [rowOf_writeRow key row hb]
    split_ifs
    · exact hrow.1
    · exact h.1 b k
  · intro w hw p hp
    rw [rowOf_writeRow key row hb]
    split_ifs with hpk
    · exact hrow.2 w hw p hp hpk.1 hpk.2
    · exact h.2 w hw p hp

/-- A step keeps what its calls keep, if what it reads has the property to begin with. -/
theorem keeps_expiryStep {a : ExpiryAction} (ht : expiryStep s a = some t)
    (hcall : ∀ b k call, Calls s a b k call → R (call.rowAfter (rowOf s.index b k)) ∧
      ∀ w, s.sweep = some w → ∀ p ∈ w.pending, p.1 = b → p.2.key = k →
        T w.now (call.rowAfter (rowOf s.index b k)) p.2)
    (hread : ∀ now b policy k todo entries rest m, a = .sweepStep →
      s.sweep = some ⟨now,.reading b policy (k :: todo) entries rest⟩ →
      rowOf s.index b k = some m → ∀ p ∈ planEntry policy now (k,m), p.key = k ∧ T now (some m) p) :
    Keeps R T t := by
  have hclient : ∀ b k call, Calls s a b k call → clientWrite s b k call = some t →
      Keeps R T t := by
    intro b k call hc ht
    unfold clientWrite at ht
    split_ifs at ht with hb
    cases ht
    exact keeps_write h hb (hcall b k call hc)
  have hend : Keeps R T { s with sweep := none } := keeps_sweep h (by simp)
  cases a with
  | put bucket key v guard now => exact hclient _ _ _ .put ht
  | delete bucket key ref => exact hclient _ _ _ .delete ht
  | sweepStart now =>
    simp only [expiryStep] at ht
    split_ifs at ht
    cases ht
    apply keeps_sweep h
    intro w hw p hp
    cases hw
    cases hp
  | sweepAbort =>
    simp only [expiryStep] at ht
    split_ifs at ht
    cases ht
    exact hend
  | sweepStep =>
    simp only [expiryStep, Option.map_eq_some_iff] at ht
    obtain ⟨⟨now,stage⟩,hw,rfl⟩ := ht
    have hstage : ∀ stage', (∀ p ∈ (Sweep.mk now stage').pending,
        p ∈ (Sweep.mk now stage).pending) →
        Keeps R T { s with sweep := some ⟨now,stage'⟩ } := by
      intro stage' hsub
      apply keeps_sweep h
      intro w' hw' p hp
      cases Option.some.inj hw'
      exact ⟨_,hw,rfl,hsub p hp⟩
    cases stage with
    | buckets todo =>
      cases todo with
      | nil => exact hend
      | cons b rest =>
        simp only [sweepAdvance]
        cases hst : s.index.get b with
        | none => exact hend
        | some st =>
          simp only
          split_ifs
          · exact hstage _ (by simp [Sweep.pending])
          · exact hstage _ (by simp [Sweep.pending])
    | reading b policy todo entries rest =>
      cases todo with
      | nil =>
        apply hstage
        intro p hp
        simp only [Sweep.pending, planOf, map_append, mem_append, List.mem_map, mem_filter] at hp ⊢
        rcases hp with ⟨q,hq,rfl⟩ | ⟨q,hq,rfl⟩
        · exact ⟨q,hq.1,rfl⟩
        · exact ⟨q,hq.1,rfl⟩
      | cons k todo =>
        simp only [sweepAdvance]
        cases hm : rowOf s.index b k with
        | none => exact hstage _ (fun p hp => hp)
        | some m =>
          refine ⟨h.1,?_⟩
          intro w' hw' p hp
          cases Option.some.inj hw'
          simp only [Sweep.pending, flatMap_append, map_append, mem_append] at hp
          rcases hp with hp | hp
          · exact h.2 _ hw p hp
          · obtain ⟨q,hq,rfl⟩ := List.mem_map.mp hp
            simp only [flatMap_cons, flatMap_nil, append_nil] at hq
            obtain ⟨hkey,hT⟩ := hread now b policy k todo entries rest m rfl hw hm q hq
            simp only [hkey, hm]
            exact hT
    | deleting b plan rest =>
      cases plan with
      | nil => exact hstage _ (by simp [Sweep.pending])
      | cons p plan =>
        simp only [sweepAdvance]
        cases hrow : indexDelete (rowOf s.index b p.key) p.ref with
        | error e => exact hend
        | ok row =>
          have hafter : KeyCall.rowAfter (.delete p.ref) (rowOf s.index b p.key) = row := by
            simp [KeyCall.rowAfter, KeyCall.apply, hrow, Except.map]
          have hwritten : Keeps R T { s with index := writeRow s.index b p.key row } := by
            cases hb : s.index.get b with
            | some st =>
              have hc := hcall b p.key _ (.sweep hw)
              rw [hafter] at hc
              exact keeps_write h (by simp [hb]) hc
            | none =>
              -- an unlink in a bucket that is not there removes nothing
              have hsame : writeRow s.index b p.key row = s.index := by simp [writeRow, hb]
              rw [hsame]
              exact h
          apply keeps_sweep hwritten
          intro w' hw' q hq
          cases Option.some.inj hw'
          exact ⟨_,hw,rfl,mem_cons_of_mem (b,p) hq⟩

end

section
variable (s : ExpiryState) (hI : ExpiryInv s) {a : ExpiryAction}
include hI

theorem tracked_call (hok : undisturbed s a = true) {call : KeyCall}
    (hcall : Calls s a bucket key call) {w : Sweep} (hw : s.sweep = some w)
    {p : Bucket × Planned} (hp : p ∈ w.pending) (hpb : p.1 = bucket) (hpk : p.2.key = key) :
    Tracked w.now (call.rowAfter (rowOf s.index bucket key)) p.2 := by
  have htr := hI.tracked w hw p hp
  rw [hpb, hpk] at htr
  unfold KeyCall.rowAfter
  rcases call.apply_cases (rowOf s.index bucket key) with ⟨e,ha,_⟩ |
      ⟨v,guard,now,rfl,hc,ha,_⟩ | ⟨ref,row,rfl,hd,ha,_⟩
  · rw [ha]
    exact htr
  · -- a put that succeeds: only a version removal may be pending, and the row is there
    cases hcall
    rw [ha]
    have hput := (indexPut_eq_ok (rowOf s.index bucket key) v guard now _).mpr ⟨hc,rfl⟩
    simp only [undisturbed, hput, Except.toOption, Option.isNone_some, Bool.false_or, hw,
      Option.all_some, List.all_eq_true] at hok
    have hp' := hok p hp
    simp only [hpb, hpk, decide_true, Bool.and_self, Bool.not_true, Bool.false_or,
      Bool.and_eq_true] at hp'
    obtain ⟨m,hm⟩ := Option.isSome_iff_exists.mp hp'.2
    have hcm := hI.counts bucket key
    rw [hm] at htr hcm ⊢
    exact Tracked.put w.now m p.2 v now htr hcm hp'.1
  · rw [ha]
    exact htr.shrink _ _ _ _ (indexDelete_shrinks hd)

theorem removed_expiryStep (ht : expiryStep s a = some t) (r : Removal) (hr : r ∈ t.removed)
    (e : VersionEntry) (he : e ∈ r.versions) : e ∈ r.planned.seen.versions ∧
      olderThanDays e.lastModified r.now r.planned.days = true := by
  have hold : t.removed = s.removed ∨ ∃ now b p plan rest,
      s.sweep = some ⟨now,.deleting b (p :: plan) rest⟩ ∧ t.removed = s.removed ++
        [⟨b,p,now,removedVersions (rowOf s.index b p.key) p.ref⟩] := by
    cases a with
    | sweepStep =>
      simp only [expiryStep, Option.map_eq_some_iff] at ht
      obtain ⟨⟨now,stage⟩,hw,rfl⟩ := ht
      unfold sweepAdvance
      split
      all_goals try split
      all_goals try split_ifs
      all_goals try exact .inl rfl
      rename_i b p plan rest hst _ row _
      cases hst
      exact .inr ⟨now,b,p,plan,rest,hw,rfl⟩
    | _ =>
      simp only [expiryStep, clientWrite] at ht
      split_ifs at ht
      cases ht
      exact .inl rfl
  rcases hold with hold | ⟨now,b,p,plan,rest,hw,hnew⟩
  · rw [hold] at hr
    exact hI.removed r hr e he
  rw [hnew] at hr
  rcases mem_append.mp hr with hr | hr
  · exact hI.removed r hr e he
  · rw [mem_singleton.mp hr] at he ⊢
    have hp := hI.tracked _ hw (b,p) mem_cons_self
    unfold removedVersions at he
    cases hm : rowOf s.index b p.key with
    | none => simp [hm] at he
    | some m =>
      simp only [hm, mem_filter, Option.all_eq_true, decide_eq_true_eq] at he
      have href : ∀ id, p.ref = some id → e.id = id := fun id hid => he.2 id hid
      have hseen := hp.same m hm e he.1 href
      exact ⟨hseen,hp.old e hseen href⟩

theorem inv_expiryStep (hok : undisturbed s a = true) (ht : expiryStep s a = some t) :
    ExpiryInv t := by
  have hkeep : Keeps Counts Tracked t := by
    apply keeps_expiryStep ⟨hI.counts,hI.tracked⟩ ht
    · intro b k call hc
      exact ⟨counts_rowAfter call _ (hI.counts b k),fun w hw p => tracked_call s hI hok hc hw⟩
    · rintro now b policy k todo entries rest m rfl hw hm p hp
      simp only [undisturbed, hw, hm, Option.all_some, Bool.or_eq_true] at hok
      have hcounts := hI.counts b k
      rw [hm] at hcounts
      exact tracked_of_read hcounts hok hp
  exact ⟨hkeep.1,hkeep.2,removed_expiryStep s hI ht⟩

end

/-- If no put comes between the sweep's read of a row and its deletions there, only versions that it
has read and that are past their age are removed. -/
theorem expiry_removes_only_old (s : ExpiryState)
    (hs : Transition.Reachable Unswept expiryStep (fun s a => undisturbed s a = true) s) :
    ∀ r ∈ s.removed, ∀ e ∈ r.versions, e ∈ r.planned.seen.versions ∧
      olderThanDays e.lastModified r.now r.planned.days = true := by
  have hI : ExpiryInv s := by
    apply Transition.reachable_invariant ExpiryInv ?_ ?_ s hs
    · intro s h
      obtain ⟨hcounts,hnone,hempty⟩ := h
      refine ⟨hcounts,?_,?_⟩
      · intro w hw
        rw [hnone] at hw
        cases hw
      · rw [hempty]
        intro r hr
        cases hr
    · intro s t a hI hok ht
      exact inv_expiryStep s hI hok ht
  exact hI.removed

def expiringPhotos : ExpiryState :=
  ⟨Dict.empty.set photosBucket ⟨[⟨true,none,none,some 1,none,none⟩],Dict.empty⟩,none,[]⟩

theorem unswept_expiringPhotos : Unswept expiringPhotos := by
  refine ⟨?_,rfl,rfl⟩
  intro b k m hm
  simp only [rowOf, expiringPhotos, Dict.get_set, Dict.get_empty] at hm
  split_ifs at hm <;> simp at hm

def overwriteBehindSweep : List ExpiryAction :=
  [.put photosBucket keyA abcVersion .none 0, .sweepStart 172800000000, .sweepStep, .sweepStep,
    .put photosBucket keyA xyzVersion .none 172800000000, .sweepStep, .sweepStep]

/-- The sweep deletes the object that has just been written. -/
theorem sweep_deletes_fresh_object :
    ∃ s, Transition.Reachable Unswept expiryStep Transition.anyStep s ∧
      (s.removed.any (fun r => r.versions.any (fun e =>
          decide (e = ⟨2,172800000000,.live xyzVersion⟩) &&
            !olderThanDays e.lastModified r.now r.planned.days)) &&
        (rowOf s.index photosBucket keyA).isNone) = true :=
  Transition.reachable_of_run _ _ overwriteBehindSweep expiringPhotos unswept_expiringPhotos
    (by decide +kernel)

def overwriteBesideSweep : List ExpiryAction :=
  [.put photosBucket keyA abcVersion .none 0, .sweepStart 172800000000, .sweepStep, .sweepStep,
    .put photosBucket keyB xyzVersion .none 172800000000, .sweepStep, .sweepStep,
    .put photosBucket keyA xyzVersion .none 172800000000]

theorem sweep_removes_old_abc :
    ∃ s, Transition.Reachable Unswept expiryStep (fun s a => undisturbed s a = true) s ∧
      decide (s.removed.map (fun r => r.versions.map VersionEntry.lastModified) = [[0]]) = true ∧
      ∀ r ∈ s.removed, ∀ e ∈ r.versions, e ∈ r.planned.seen.versions ∧
        olderThanDays e.lastModified r.now r.planned.days = true := by
  refine Exists.imp (fun s (h : _ ∧ _) => ⟨h.1,h.2,expiry_removes_only_old s h.1⟩) ?_
  exact Transition.reachable_of_checkedRun _ _ _ overwriteBesideSweep expiringPhotos
    unswept_expiringPhotos (by decide +kernel)

end BackendGauntlet.ObjectStore
