import BackendGauntlet.ObjectStoreHaystackThreads
import BackendGauntlet.ObjectStoreManifest

/-! What snapshot and log say of the mutations that have returned. -/
namespace BackendGauntlet.ObjectStore

open PyText Transition Option

/-- An opposite mutation of the digest had not returned: the log may have the two in either order.
-/
def Excused (ops : Dict ℕ OpRecord) (a : OpRecord) : Prop :=
  ∃ i b, ops.get i = some b ∧ b.op.digest = a.op.digest ∧ b.op.isPut ≠ a.op.isPut ∧
    ¬ (b.stage = .returned ∧ b.stop < a.start)

def DurablyShown (payload : Digest → Bytes) (s : ThreadState) : Prop :=
  ∃ index, s.disk.durable = .ok index ∧
    (∀ i a, s.ops.get i = some a → a.stage = .returned →
      Excused s.ops a ∨ Shows a.op (index.get a.op.digest)) ∧
    ∀ d r, index.get d = some r → r.isLive = true →
      HoldsPayload payload s.disk.volumes d r.locator

/-- A checkpoint runs while no mutation is between its log append and its index update. -/
def settledCheckpoint (s : ThreadState) : MutatorAction → Bool
  | .checkpoint => s.ops.entries.all (fun e => e.2.stage ≠ .logged)
  | _ => true

section
variable (ops : Dict ℕ OpRecord) (i : ℕ) (b a : OpRecord)

theorem excused_set (hop : ∀ c, ops.get i = some c → b.op = c.op)
    (hb : ¬ (b.stage = .returned ∧ b.stop < a.start)) (h : Excused ops a) :
    Excused (ops.set i b) a := by
  obtain ⟨j,c,hc,hd,hp,hn⟩ := h
  by_cases hj : j = i
  · subst hj
    exact ⟨j,b,Dict.get_set_self,by rw [hop c hc, hd],by rwa [hop c hc],hb⟩
  · exact ⟨j,c,by rw [Dict.get_set_ne hj, hc],hd,hp,hn⟩

/-- One mutation is applied to the row of another: it opposes it, and is an excuse, or the
effect survives it. -/
theorem excused_or_shows_row (row : Option NeedleRecord) (hi : ops.get i = some b)
    (hb : ¬ (b.stage = .returned ∧ b.stop < a.start)) (h : Excused ops a ∨ Shows a.op row) :
    Excused ops a ∨ Shows a.op (b.op.row a.op.digest row) := by
  rcases h with h | h
  · exact Or.inl h
  · by_cases hd : b.op.digest = a.op.digest
    · by_cases hp : b.op.isPut = a.op.isPut
      · exact Or.inr (shows_row hd hp h)
      · exact Or.inl ⟨i,b,hi,hd,hp,hb⟩
    · exact Or.inr (by rwa [row_ne row hd])

end

structure Recorded (payload : Digest → Bytes) (s : ThreadState) (index : NeedleIndex) : Prop where
  shown : ∀ i a, s.ops.get i = some a → a.stage ≠ .decided →
    Excused s.ops a ∨ Shows a.op (index.get a.op.digest)
  live : ∀ d r, index.get d = some r → r.isLive = true →
    HoldsPayload payload s.disk.volumes d r.locator

structure FilesInv (payload : Digest → Bytes) (s : ThreadState) : Prop where
  log : ∃ ops, s.disk.log = logText ops
  durable : ∃ index, s.disk.durable = .ok index ∧ Recorded payload s index

theorem filesInv_idle (payload : Digest → Bytes) {s : ThreadState} (h : Idle payload s) :
    FilesInv payload s := by
  obtain ⟨index,hd,hsame⟩ := h.durable
  refine ⟨h.log,index,hd,?_,?_⟩
  · intro i a ha
    simp [h.noOps] at ha
  · intro d r hr hlive
    exact h.live d r (by rw [← hsame d, hr]) hlive

section
variable (payload : Digest → Bytes) (s : ThreadState) (index : NeedleIndex)
  (hI : CoreInv payload s) (hR : Recorded payload s index)
include hR

theorem recorded_begin {i : ℕ} (op : LogOp) (hnew : s.ops.get i = none) :
    Recorded payload (beginOp s i op) index := by
  refine ⟨Dict.forall_get_set (fun j a ha hd => ?_) (by simp),hR.live⟩
  exact (hR.shown j a ha hd).imp_left (excused_set _ _ _ _ (by simp [hnew]) (by simp))

theorem recorded_log {i : ℕ} {a : OpRecord} (ha : s.ops.get i = some a) (hI : CoreInv payload s)
    (hs : a.stage = .decided) (disk : Disk) (hv : disk.volumes = s.disk.volumes) (clock : ℕ) :
    Recorded payload { s with
      disk := disk, clock := clock, ops := s.ops.set i { a with stage := .logged } }
      (a.op.apply index) := by
  constructor
  · simp only [get_apply]
    refine Dict.forall_get_set (fun j b hb hd => ?_) (fun _ => Or.inr (shows_self a.op))
    have hkeep : Excused s.ops b → Excused (s.ops.set i { a with stage := .logged }) b :=
      excused_set _ _ _ _ (fun c hc => by rw [← some.inj (ha.symm.trans hc)]) (by simp)
    exact excused_or_shows_row _ i { a with stage := .logged } b _ (Dict.get_set_self)
      (by simp) ((hR.shown j b hb hd).imp_left hkeep)
  · intro d r hr hlive
    simp only [hv]
    rw [get_apply] at hr
    rcases row_eq_some hr with ⟨r',hr',hl,hold⟩ | ho
    · exact hl ▸ hR.live d r' hr' (hold hlive)
    · exact hI.flight i a ha (by simp [hs]) d _ ho

theorem recorded_update {i : ℕ} {t : ThreadState} (hI : CoreInv payload s)
    (ht : updateStep s i = some t) : Recorded payload t index ∧ t.disk = s.disk := by
  unfold updateStep at ht
  split at ht
  · simp at ht
  · rename_i a ha
    split_ifs at ht with hs
    cases ht
    have hkeep (j : ℕ) (b : OpRecord) (hb : s.ops.get j = some b) (h : Excused s.ops b) :
        Excused (s.ops.set i ⟨a.op,.returned,a.start,s.clock⟩) b := by
      refine excused_set _ _ _ _ (fun c hc => by rw [← some.inj (ha.symm.trans hc)]) ?_ h
      rintro ⟨_,hlt⟩
      exact absurd (hI.started j b hb) (Nat.not_le.mpr hlt)
    refine ⟨⟨Dict.forall_get_set (fun j b hb hd => ?_) (fun _ => ?_),hR.live⟩,rfl⟩
    · exact (hR.shown j b hb hd).imp_left (hkeep j b hb)
    · exact (hR.shown i a ha (by simp [hs])).imp_left (hkeep i a ha)

end

theorem recorded_checkpoint (payload : Digest → Bytes) {s : ThreadState} (hI : CoreInv payload s)
    (hc : settledCheckpoint s .checkpoint = true) : Recorded payload s s.index := by
  refine ⟨fun i a ha hd => ?_,hI.live⟩
  have hr : a.stage = .returned := by
    have hl : a.stage ≠ .logged := by
      simpa using List.all_eq_true.mp hc (i,a) (Dict.get_eq_some_iff.mp ha)
    cases h : a.stage with
    | decided => exact absurd h hd
    | logged => exact absurd h hl
    | returned => rfl
  refine (hI.shown i a ha hr).imp_left ?_
  rintro ⟨j,b,hb,hdig,hp,_,ht⟩
  exact ⟨j,b,hb,hdig,hp,fun h => by have := (hI.stopped i a ha hr).1; omega⟩

theorem filesInv_step (payload : Digest → Bytes) {maxVolumeSize : ℕ} {s t : ThreadState}
    {a : MutatorAction} (hI : CoreInv payload s) (hF : FilesInv payload s)
    (hc : settledCheckpoint s a = true) (ht : mutatorStep payload maxVolumeSize s a = some t) :
    FilesInv payload t := by
  obtain ⟨hlog,index,hd,hR⟩ := hF
  have hflag (i : ℕ) (op : Option LogOp) (h : flagBegin s i op = some t) : FilesInv payload t := by
    unfold flagBegin at h
    split_ifs at h with hnew
    have hnone := Dict.get_of_not_contains hnew
    cases op with
    | none =>
      cases h
      exact ⟨hlog,index,hd,hR.shown,hR.live⟩
    | some op =>
      cases h
      exact ⟨hlog,index,hd,recorded_begin payload s index hR op hnone⟩
  cases a with
  | commit i d fresh =>
    simp only [mutatorStep] at ht
    split at ht
    · simp at ht
    · rename_i hnew
      obtain ⟨⟨result,l⟩,ha,rfl⟩ := map_eq_some_iff.mp ht
      have hnone : s.ops.get i = none := by
        simp only [Bool.or_eq_true, not_or] at hnew
        simpa [Dict.contains] using hnew.1
      refine ⟨hlog,index,hd,?_⟩
      apply recorded_begin
      · refine ⟨hR.shown,fun x r hr hlive => ?_⟩
        have h := hR.live x r hr hlive
        exact ⟨readRegion_append hI.volumes ha _ _ h.1 h.2,h.2⟩
      · exact hnone
  | remove i d => exact hflag i _ ht
  | quarantine i d => exact hflag i _ ht
  | log i =>
    simp only [mutatorStep] at ht
    unfold logStep at ht
    split at ht
    · simp at ht
    · rename_i a ha
      split_ifs at ht with hs
      cases ht
      obtain ⟨ops,hops⟩ := hlog
      have happ := (durable_appendLog s.disk a.op (a.op.line.length+1) index
        (hops ▸ logShape_logText ops) (hops ▸ cleanEnd_logText ops) hd).2
      rw [if_pos (Nat.le_succ _)] at happ
      refine ⟨⟨ops ++ [a.op],?_⟩,_,happ,?_⟩
      · simp [appendLog, hops, logText_append, List.take_of_length_le]
      · apply recorded_log payload s index hR ha hI hs
        rfl
  | update i =>
    obtain ⟨hR',hdisk⟩ := recorded_update payload s index hR hI ht
    exact ⟨hdisk ▸ hlog,index,hdisk ▸ hd,hR'⟩
  | checkpoint =>
    cases ht
    have hR' := recorded_checkpoint payload hI hc
    exact ⟨⟨[],rfl⟩,s.index,durable_checkpoint s.disk s.index,hR'.shown,hR'.live⟩

/-- If no checkpoint falls between append and index update, both files show what has returned. -/
theorem returned_mutations_durable (payload : Digest → Bytes) (maxVolumeSize : ℕ) (s : ThreadState)
    (hs : Reachable (Idle payload) (mutatorStep payload maxVolumeSize)
      (fun s a => settledCheckpoint s a = true) s) : DurablyShown payload s := by
  have hinv : CoreInv payload s ∧ FilesInv payload s :=
    reachable_invariant (fun s => CoreInv payload s ∧ FilesInv payload s)
      (fun s h => ⟨coreInv_idle payload s h,filesInv_idle payload h⟩)
      (fun s t a hI hc ht => ⟨coreInv_mutatorStep payload hI.1 ht,
        filesInv_step payload hI.1 hI.2 hc ht⟩) s hs
  obtain ⟨_,index,hd,hR⟩ := hinv.2
  exact ⟨index,hd,fun i a ha hr => hR.shown i a ha (by simp [hr]),hR.live⟩

/-- Whatever the interleaving, the index in memory shows what has returned and its live rows lead to
their payloads. -/
theorem returned_mutations_shown (payload : Digest → Bytes) (maxVolumeSize : ℕ) (s : ThreadState)
    (hs : Reachable (Idle payload) (mutatorStep payload maxVolumeSize) anyStep s) :
    (∀ i a, s.ops.get i = some a → a.stage = .returned →
      Overtaken s.ops a ∨ Shows a.op (s.index.get a.op.digest)) ∧
    ∀ d r, s.index.get d = some r → r.isLive = true →
      HoldsPayload payload s.disk.volumes d r.locator := by
  have hI := reachable_invariant (CoreInv payload) (coreInv_idle payload)
    (fun _ _ _ hu _ hv => coreInv_mutatorStep payload hu hv) s hs
  exact ⟨hI.shown,hI.live⟩

theorem returned_abc_durable :
    ∃ s, (Reachable (Idle abcPayload) (mutatorStep abcPayload 1000)
        (fun s a => settledCheckpoint s a = true) s ∧
        s.ops.entries.any (fun e => e.2.stage = .returned) = true) ∧ DurablyShown abcPayload s := by
  refine Exists.imp (fun s hs => ⟨hs,returned_mutations_durable abcPayload 1000 s hs.1⟩) ?_
  exact reachable_of_checkedRun _ _ _
    [.commit 0 abcDigest volumeA, .log 0, .update 0, .checkpoint] freshThreads
    (idle_freshThreads _) (by decide +kernel)

theorem returned_abc_shown :
    ∃ s, (Reachable (Idle abcPayload) (mutatorStep abcPayload 1000) anyStep s ∧
        (s.index.get abcDigest).any NeedleRecord.isLive = true) ∧
      ∀ r, s.index.get abcDigest = some r → r.isLive = true →
        HoldsPayload abcPayload s.disk.volumes abcDigest r.locator := by
  refine Exists.imp (fun s hs =>
    ⟨hs,(returned_mutations_shown abcPayload 1000 s hs.1).2 abcDigest⟩) ?_
  exact reachable_of_run _ _ [.commit 0 abcDigest volumeA, .log 0, .checkpoint, .update 0]
    freshThreads (idle_freshThreads _) (by decide +kernel)

/-- A checkpoint between the append and the index update: the record is in neither file. -/
theorem checkpoint_loses_logged_commit :
    ∃ s, Reachable (Idle abcPayload) (mutatorStep abcPayload 1000) anyStep s ∧
      ¬ DurablyShown abcPayload s := by
  obtain ⟨t,ht,⟨a,ha,hdig,hr⟩,hputs,index',hd',hrow⟩ := reachable_of_run (Idle abcPayload)
    (mutatorStep abcPayload 1000)
    (P := fun s => (∃ a, s.ops.get 0 = some a ∧ a.op.digest = abcDigest ∧ a.stage = .returned) ∧
      (∀ e ∈ s.ops.entries, e.2.op.isPut = true) ∧
      ∃ index, s.disk.durable.toOption = some index ∧ index.get abcDigest = none)
    [.commit 0 abcDigest volumeA, .log 0, .checkpoint, .update 0] freshThreads
    (idle_freshThreads _) (by decide +kernel)
  refine ⟨t,ht,?_⟩
  rintro ⟨index,hd,hshown,_⟩
  have hput (i : ℕ) (b : OpRecord) (hb : t.ops.get i = some b) : b.op.isPut = true :=
    hputs (i,b) (Dict.get_eq_some_iff.mp hb)
  rcases hshown 0 a ha hr with ⟨i,b,hb,_,hne,_⟩ | h
  · exact hne ((hput i b hb).trans (hput 0 a ha).symm)
  · have hind : index = index' := by simpa [hd, Except.toOption] using hd'
    rw [hdig, hind, hrow] at h
    have hop := hput 0 a ha
    cases hao : a.op <;> simp_all [Shows, LogOp.isPut]

end BackendGauntlet.ObjectStore
