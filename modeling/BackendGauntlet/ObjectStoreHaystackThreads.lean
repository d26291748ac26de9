import BackendGauntlet.ObjectStoreHaystackVolumes
import BackendGauntlet.Transition

/-! Threads that change one Haystack, by the sections that a lock protects. -/
namespace BackendGauntlet.ObjectStore

open PyText Option Dict

inductive OpStage
  | decided
  | logged
  | returned
deriving DecidableEq

structure OpRecord where
  op : LogOp
  stage : OpStage
  start : ℕ
  stop : ℕ
deriving DecidableEq

/-- `used` holds every volume id minted so far; `ops` and `clock` are the history. -/
structure ThreadState where
  disk : Disk
  index : NeedleIndex
  active : Option (VolumeId × ℕ)
  used : List VolumeId
  clock : ℕ
  ops : Dict ℕ OpRecord

inductive MutatorAction
  | commit (i : ℕ) (d : Digest) (fresh : VolumeId)
  | remove (i : ℕ) (d : Digest)
  | quarantine (i : ℕ) (d : Digest)
  | log (i : ℕ)
  | update (i : ℕ)
  | checkpoint

def beginOp (s : ThreadState) (i : ℕ) (op : LogOp) : ThreadState :=
  { s with clock := s.clock+1, ops := s.ops.set i ⟨op,.decided,s.clock,0⟩ }

def flagBegin (s : ThreadState) (i : ℕ) (op : Option LogOp) : Option ThreadState :=
  if s.ops.contains i then none
  else
    match op with
    | none => some { s with clock := s.clock+1 }
    | some op => some (beginOp s i op)

def logStep (s : ThreadState) (i : ℕ) : Option ThreadState :=
  match s.ops.get i with
  | none => none
  | some a =>
    if a.stage = .decided then
      some { s with
        disk := appendLog s.disk a.op (a.op.line.length+1)
        clock := s.clock+1
        ops := s.ops.set i { a with stage := .logged } }
    else none

def updateStep (s : ThreadState) (i : ℕ) : Option ThreadState :=
  match s.ops.get i with
  | none => none
  | some a =>
    if a.stage = .logged then
      some { s with
        index := a.op.apply s.index
        clock := s.clock+1
        ops := s.ops.set i { a with stage := .returned, stop := s.clock } }
    else none

/-- Content addressing: a digest is always committed with the same bytes. -/
def mutatorStep (payload : Digest → Bytes) (maxVolumeSize : ℕ) (s : ThreadState) :
    MutatorAction → Option ThreadState
  | .commit i d fresh =>
    if s.ops.contains i || fresh ∈ s.used then none
    else
      (appendNeedle maxVolumeSize s.active s.disk.volumes d (payload d) fresh
        (needleFrame d (payload d)).length).map (fun p =>
          beginOp { s with
            disk := { s.disk with volumes := p.1 }
            active := some (p.2.volumeId,p.2.payloadOffset+p.2.size)
            used := fresh :: s.used } i (.put d p.2))
  | .remove i d => flagBegin s i (removeOp s.index d)
  | .quarantine i d => flagBegin s i (quarantineOp s.index d)
  | .log i => logStep s i
  | .update i => updateStep s i
  | .checkpoint =>
    some { s with disk := ObjectStore.checkpoint s.disk s.index, clock := s.clock+1 }

def LogOp.isPut : LogOp → Bool
  | .put _ _ => true
  | _ => false

def Overtaken (ops : Dict ℕ OpRecord) (a : OpRecord) : Prop :=
  ∃ i b, ops.get i = some b ∧ b.op.digest = a.op.digest ∧ b.op.isPut ≠ a.op.isPut ∧
    b.stage = .returned ∧ a.stop < b.stop

def Shows (op : LogOp) (row : Option NeedleRecord) : Prop :=
  match op with
  | .put _ _ => ∃ r, row = some r ∧ r.isLive = true
  | .delete _ => ∀ r, row = some r → r.deleted = true
  | .quarantine _ => ∀ r, row = some r → r.quarantined = true

def HoldsPayload (payload : Digest → Bytes) (volumes : Volumes) (d : Digest) (l : NeedleLocator) :
    Prop :=
  readRegion volumes l = some (payload d) ∧ (payload d).length = l.size

structure Idle (payload : Digest → Bytes) (s : ThreadState) : Prop where
  noOps : s.ops = Dict.empty
  log : ∃ ops, s.disk.log = logText ops
  durable : ∃ index, s.disk.durable = .ok index ∧ ∀ d, index.get d = s.index.get d
  volumes : VolumesOk s.disk.volumes s.active
  volumesUsed : ∀ v file, s.disk.volumes.get v = some file → v ∈ s.used
  rowsUsed : ∀ d r, s.index.get d = some r → r.locator.volumeId ∈ s.used
  live : ∀ d r, s.index.get d = some r → r.isLive = true →
    HoldsPayload payload s.disk.volumes d r.locator

structure CoreInv (payload : Digest → Bytes) (s : ThreadState) : Prop where
  volumes : VolumesOk s.disk.volumes s.active
  volumesUsed : ∀ v file, s.disk.volumes.get v = some file → v ∈ s.used
  rowsUsed : ∀ d r, s.index.get d = some r → r.locator.volumeId ∈ s.used
  live : ∀ d r, s.index.get d = some r → r.isLive = true →
    HoldsPayload payload s.disk.volumes d r.locator
  flight : ∀ i a, s.ops.get i = some a → a.stage ≠ .returned → ∀ d l, a.op = .put d l →
    HoldsPayload payload s.disk.volumes d l
  started : ∀ i a, s.ops.get i = some a → a.start ≤ s.clock
  stopped : ∀ i a, s.ops.get i = some a → a.stage = .returned → a.start ≤ a.stop ∧ a.stop < s.clock
  shown : ∀ i a, s.ops.get i = some a → a.stage = .returned →
    Overtaken s.ops a ∨ Shows a.op (s.index.get a.op.digest)

theorem row_delete (d : Digest) (row : Option NeedleRecord) :
    (LogOp.delete d).row d row = row.map (fun r => { r with deleted := true }) := if_pos rfl

theorem row_quarantine (d : Digest) (row : Option NeedleRecord) :
    (LogOp.quarantine d).row d row = row.map (fun r => { r with quarantined := true }) := if_pos rfl

theorem row_put (d : Digest) (l : NeedleLocator) (row : Option NeedleRecord) :
    (LogOp.put d l).row d row = some ⟨l,false,false⟩ := if_pos rfl

variable {row : Option NeedleRecord} {op : LogOp} {d : Digest} {i : ℕ} {t : ThreadState}

theorem shows_self (op : LogOp) : Shows op (op.row op.digest row) := by
  cases op with
  | put d l => exact ⟨⟨l,false,false⟩,row_put d l row,rfl⟩
  | delete d =>
    simp only [LogOp.digest, row_delete, Shows]
    cases row <;> simp
  | quarantine d =>
    simp only [LogOp.digest, row_quarantine, Shows]
    cases row <;> simp

theorem shows_row {x : LogOp} (hd : x.digest = op.digest)
    (hp : x.isPut = op.isPut) (h : Shows op row) : Shows op (x.row op.digest row) := by
  rw [← hd]
  cases x with
  | put d l =>
    cases op with
    | put d' l' => exact ⟨⟨l,false,false⟩,row_put d l row,rfl⟩
    | delete d' | quarantine d' => simp [LogOp.isPut] at hp
  | delete d =>
    simp only [LogOp.digest, row_delete]
    cases op with
    | put d' l' => simp [LogOp.isPut] at hp
    | delete d' => cases row <;> simp [Shows]
    | quarantine d' => cases row <;> simp_all [Shows]
  | quarantine d =>
    simp only [LogOp.digest, row_quarantine]
    cases op with
    | put d' l' => simp [LogOp.isPut] at hp
    | delete d' => cases row <;> simp_all [Shows]
    | quarantine d' => cases row <;> simp [Shows]

theorem row_eq_some {r : NeedleRecord}
    (h : op.row d row = some r) :
    (∃ r', row = some r' ∧ r.locator = r'.locator ∧ (r.isLive = true → r'.isLive = true)) ∨
      op = .put d r.locator := by
  by_cases hd : op.digest = d
  · subst hd
    cases op with
    | put x l =>
      rw [LogOp.digest, row_put, some.injEq] at h
      exact Or.inr (by rw [← h]; rfl)
    | delete x =>
      rw [LogOp.digest, row_delete] at h
      obtain ⟨r',hr',rfl⟩ := map_eq_some_iff.mp h
      exact Or.inl ⟨r',hr',rfl,by simp [NeedleRecord.isLive]⟩
    | quarantine x =>
      rw [LogOp.digest, row_quarantine] at h
      obtain ⟨r',hr',rfl⟩ := map_eq_some_iff.mp h
      exact Or.inl ⟨r',hr',rfl,by simp [NeedleRecord.isLive]⟩
  · rw [row_ne row hd] at h
    exact Or.inl ⟨r,h,rfl,id⟩

theorem overtaken_set {ops : Dict ℕ OpRecord} {b a : OpRecord}
    (hi : ∀ c, ops.get i = some c → c.stage ≠ .returned) (h : Overtaken ops a) :
    Overtaken (ops.set i b) a := by
  obtain ⟨j,c,hc,hd,hp,hr,ht⟩ := h
  have hj : j ≠ i := fun hj => hi c (hj ▸ hc) hr
  exact ⟨j,c,by rw [get_set_ne hj, hc],hd,hp,hr,ht⟩

section
variable (payload : Digest → Bytes) (maxVolumeSize : ℕ) (s : ThreadState)

theorem coreInv_idle (h : Idle payload s) : CoreInv payload s where
  volumes := h.volumes
  volumesUsed := h.volumesUsed
  rowsUsed := h.rowsUsed
  live := h.live
  flight := fun i a ha => by simp [h.noOps] at ha
  started := fun i a ha => by simp [h.noOps] at ha
  stopped := fun i a ha => by simp [h.noOps] at ha
  shown := fun i a ha => by simp [h.noOps] at ha

variable (hI : CoreInv payload s)
include hI

variable {payload}

theorem coreInv_tick : CoreInv payload { s with clock := s.clock+1 } :=
  { hI with
    started := fun i a ha => Nat.le_succ_of_le (hI.started i a ha)
    stopped := fun i a ha hr => (hI.stopped i a ha hr).imp_right Nat.lt_succ_of_lt }

theorem coreInv_files {snapshot : Option Text} {log : Text} :
    CoreInv payload { s with disk := ⟨snapshot,log,s.disk.volumes⟩ } :=
  ⟨hI.volumes,hI.volumesUsed,hI.rowsUsed,hI.live,hI.flight,hI.started, hI.stopped,hI.shown⟩

theorem coreInv_begin (hnew : s.ops.get i = none)
    (hput : ∀ d l, op = .put d l → HoldsPayload payload s.disk.volumes d l) :
    CoreInv payload (beginOp s i op) where
  volumes := hI.volumes
  volumesUsed := hI.volumesUsed
  rowsUsed := hI.rowsUsed
  live := hI.live
  flight := forall_get_set hI.flight (fun _ => hput)
  started := forall_get_set (fun j a ha => Nat.le_succ_of_le (hI.started j a ha))
    (Nat.le_succ _)
  stopped := forall_get_set
    (fun j a ha hr => (hI.stopped j a ha hr).imp_right Nat.lt_succ_of_lt) (by simp)
  shown := by
    refine forall_get_set (fun j a ha hr => ?_) (by simp)
    exact (hI.shown j a ha hr).imp_left (overtaken_set (by simp [hnew]))

/-- An appended needle is read back, and so are those before it. -/
theorem coreInv_append {fresh : VolumeId} {result : Volumes} {l : NeedleLocator}
    (ha : appendNeedle maxVolumeSize s.active s.disk.volumes d (payload d) fresh
      (needleFrame d (payload d)).length = some (result,l)) :
    CoreInv payload { s with
      disk := { s.disk with volumes := result }
      active := some (l.volumeId,l.payloadOffset+l.size)
      used := fresh :: s.used } ∧ HoldsPayload payload result d l := by
  have hkeep (x : Digest) (l' : NeedleLocator) (h : HoldsPayload payload s.disk.volumes x l') :
      HoldsPayload payload result x l' :=
    ⟨readRegion_append hI.volumes ha l' _ h.1 h.2,h.2⟩
  refine ⟨⟨volumesOk_appended hI.volumes ha (Nat.le_refl _),?_,?_,?_,?_,
    hI.started,hI.stopped,hI.shown⟩,readRegion_appended hI.volumes ha (Nat.le_refl _)⟩
  · obtain ⟨_,_,_,hother,_⟩ := appendNeedle_get hI.volumes ha
    intro v file hv
    by_cases hl : v = l.volumeId
    · rcases appendNeedle_volume ha with ⟨n,hn⟩ | hfresh
      · obtain ⟨needles,hneedles,_⟩ := hI.volumes.active _ _ hn
        exact List.mem_cons_of_mem _ (hl ▸ hI.volumesUsed _ _ hneedles)
      · exact List.mem_cons.mpr (Or.inl (hl.trans hfresh))
    · exact List.mem_cons_of_mem _ (hI.volumesUsed v file (by rwa [hother v hl] at hv))
  · exact fun x r hr => List.mem_cons_of_mem _ (hI.rowsUsed x r hr)
  · exact fun x r hr hlive => hkeep x _ (hI.live x r hr hlive)
  · exact fun j a hj hs x l' ho => hkeep x l' (hI.flight j a hj hs x l' ho)

theorem coreInv_log (ht : logStep s i = some t) : CoreInv payload t := by
  unfold logStep at ht
  split at ht
  · simp at ht
  · rename_i a ha
    split_ifs at ht with hs
    cases ht
    refine ⟨hI.volumes,hI.volumesUsed,hI.rowsUsed,hI.live,?_,?_,?_,?_⟩
    · exact forall_get_set hI.flight (fun _ => hI.flight i a ha (by simp [hs]))
    · exact forall_get_set (fun j b hb => Nat.le_succ_of_le (hI.started j b hb))
        (Nat.le_succ_of_le (hI.started i a ha))
    · exact forall_get_set
        (fun j b hb hr => (hI.stopped j b hb hr).imp_right Nat.lt_succ_of_lt) (by simp)
    · refine forall_get_set (fun j b hb hr => ?_) (by simp)
      exact (hI.shown j b hb hr).imp_left (overtaken_set (by simp [ha, hs]))

theorem holdsPayload_used {l : NeedleLocator}
    (h : HoldsPayload payload s.disk.volumes d l) : l.volumeId ∈ s.used := by
  obtain ⟨file,hf,_⟩ := map_eq_some_iff.mp h.1
  exact hI.volumesUsed _ _ hf

theorem coreInv_update (ht : updateStep s i = some t) :
    CoreInv payload t := by
  unfold updateStep at ht
  split at ht
  · simp at ht
  · rename_i a ha
    split_ifs at ht with hs
    cases ht
    have hput (d : Digest) (l : NeedleLocator) (ho : a.op = .put d l) :
        HoldsPayload payload s.disk.volumes d l := hI.flight i a ha (by simp [hs]) d l ho
    refine ⟨hI.volumes,hI.volumesUsed,?_,?_,?_,?_,?_,?_⟩
    · intro d r hr
      rw [get_apply] at hr
      rcases row_eq_some hr with ⟨r',hr',hl,_⟩ | ho
      · exact hl ▸ hI.rowsUsed d r' hr'
      · exact holdsPayload_used s hI (hput d _ ho)
    · intro d r hr hlive
      rw [get_apply] at hr
      rcases row_eq_some hr with ⟨r',hr',hl,hold⟩ | ho
      · exact hl ▸ hI.live d r' hr' (hold hlive)
      · exact hput d _ ho
    · exact forall_get_set hI.flight (fun h => absurd rfl h)
    · exact forall_get_set (fun j b hb => Nat.le_succ_of_le (hI.started j b hb))
        (Nat.le_succ_of_le (hI.started i a ha))
    · exact forall_get_set
        (fun j b hb hr => (hI.stopped j b hb hr).imp_right Nat.lt_succ_of_lt)
        (fun _ => ⟨hI.started i a ha,Nat.lt_succ_self _⟩)
    · simp only [get_apply]
      refine forall_get_set (fun j b hb hr => ?_) (fun _ => Or.inr (shows_self a.op))
      rcases hI.shown j b hb hr with h | h
      · exact Or.inl (overtaken_set (by simp [ha, hs]) h)
      · by_cases hd : a.op.digest = b.op.digest
        · by_cases hp : a.op.isPut = b.op.isPut
          · exact Or.inr (shows_row hd hp h)
          · exact Or.inl ⟨i,_,get_set_self,hd,hp,rfl,(hI.stopped j b hb hr).2⟩
        · exact Or.inr (by rwa [row_ne _ hd])

end

/-- Every step of a mutator keeps the invariant, whatever the others have done. -/
theorem coreInv_mutatorStep (payload : Digest → Bytes) {maxVolumeSize : ℕ} {s : ThreadState}
    {a : MutatorAction} (hI : CoreInv payload s)
    (ht : mutatorStep payload maxVolumeSize s a = some t) : CoreInv payload t := by
  have hflag (i : ℕ) (op : Option LogOp) (hop : ∀ d l, op ≠ some (.put d l))
      (h : flagBegin s i op = some t) : CoreInv payload t := by
    unfold flagBegin at h
    split_ifs at h with hnew
    have hnone := get_of_not_contains hnew
    cases op with
    | none => exact some.inj h ▸ coreInv_tick s hI
    | some op =>
      cases h
      exact coreInv_begin s hI hnone (fun d l ho => absurd (by rw [ho]) (hop d l))
  cases a with
  | commit i d fresh =>
    simp only [mutatorStep] at ht
    split at ht
    · simp at ht
    · rename_i hnew
      obtain ⟨⟨result,l⟩,ha,rfl⟩ := map_eq_some_iff.mp ht
      obtain ⟨hA,hl⟩ := coreInv_append maxVolumeSize s hI ha
      have hnone : s.ops.get i = none := by
        simp only [Bool.or_eq_true, not_or] at hnew
        simpa [Dict.contains] using hnew.1
      refine coreInv_begin _ hA hnone (fun d' l' ho => ?_)
      obtain ⟨rfl,rfl⟩ := LogOp.put.inj ho
      exact hl
  | remove i d =>
    refine hflag i _ (fun d' l h => ?_) ht
    unfold removeOp at h
    split at h <;> simp at h
  | quarantine i d =>
    refine hflag i _ (fun d' l h => ?_) ht
    unfold quarantineOp at h
    split at h <;> simp at h
  | log i => exact coreInv_log s hI ht
  | update i => exact coreInv_update s hI ht
  | checkpoint =>
    cases ht
    exact coreInv_tick _ (coreInv_files s hI)

def freshThreads : ThreadState :=
  ⟨checkpoint ⟨none,[],Dict.empty⟩ Dict.empty,Dict.empty,none,[],0,Dict.empty⟩

theorem idle_freshThreads (payload : Digest → Bytes) : Idle payload freshThreads where
  noOps := rfl
  log := ⟨[],rfl⟩
  durable := ⟨empty,durable_checkpoint _ _,fun _ => rfl⟩
  volumes := ⟨by simp [freshThreads, checkpoint, writeSnapshot],by simp [freshThreads]⟩
  volumesUsed := by simp [freshThreads, checkpoint, writeSnapshot]
  rowsUsed := by simp [freshThreads]
  live := by simp [freshThreads]

end BackendGauntlet.ObjectStore
