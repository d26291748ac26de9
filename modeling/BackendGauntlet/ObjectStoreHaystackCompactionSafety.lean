import BackendGauntlet.ObjectStoreHaystackCompaction
import BackendGauntlet.ObjectStoreManifest

/-! Which needles survive compaction, in every interleaving with commits, removals,
quarantines and reads. -/
namespace BackendGauntlet.ObjectStore

open PyText Transition List Option Dict

def LogOp.volume : LogOp → Option VolumeId
  | .put _ l => some l.volumeId
  | _ => none

def noFlight (s : ThreadState) (v : VolumeId) : Bool :=
  s.ops.entries.all (fun e => e.2.stage = .returned || e.2.op.volume ≠ some v)

/-- The live rows of a volume are captured while no commit on its way has a needle there. -/
def settledCapture (s : HaystackThreads) : HaystackThreadsAction → Bool
  | .advance c _ =>
    match s.compactors.get c with
    | some ⟨_,.sealed old,_⟩ => noFlight s.core old
    | _ => true
  | _ => true

def KeepsLive (payload : Digest → Bytes) (s : ThreadState) : Prop :=
  (∀ i a d l, s.ops.get i = some a → a.op = .put d l → a.stage = .returned →
    ¬ Overtaken s.ops a → ∃ r, s.index.get d = some r ∧ r.isLive = true) ∧
  ∀ d r, s.index.get d = some r → r.isLive = true →
    HoldsPayload payload s.disk.volumes d r.locator

theorem noFlight_iff (s : ThreadState) (v : VolumeId) :
    noFlight s v = true ↔
      ∀ i a, s.ops.get i = some a → a.stage ≠ .returned → a.op.volume ≠ some v := by
  simp only [noFlight, List.all_eq_true, Bool.or_eq_true, decide_eq_true_eq, Prod.forall,
    get_eq_some_iff]
  constructor
  · intro h i a ha hs
    exact (h i a ha).resolve_left hs
  · intro h i a ha
    by_cases hs : a.stage = .returned
    · exact Or.inl hs
    · exact Or.inr (h i a ha hs)

def Sealed (s : ThreadState) (v : VolumeId) : Prop := ∀ n, s.active ≠ some (v,n)

structure Clear (s : ThreadState) (v : VolumeId) : Prop where
  isSealed : Sealed s v
  flight : noFlight s v = true
  rows : ∀ d r, s.index.get d = some r → r.locator.volumeId ≠ v

structure Retired (s : ThreadState) (v : VolumeId) (ds : List Digest) : Prop where
  isSealed : Sealed s v
  flight : noFlight s v = true
  rows : ∀ d r, s.index.get d = some r → r.isLive = true → r.locator.volumeId = v → d ∈ ds

def Intact (payload : Digest → Bytes) (volumes : Volumes) (d : Digest) (l : NeedleLocator) : Prop :=
  ∀ file, volumes.get l.volumeId = some file → HoldsPayload payload volumes d l

structure Undisturbed (payload : Digest → Bytes) (s t : ThreadState) (v : VolumeId) : Prop where
  isSealed : Sealed s v → Sealed t v
  flight : Sealed s v → noFlight s v = true → noFlight t v = true
  rows : noFlight s v = true → ∀ d r, t.index.get d = some r → r.locator.volumeId = v →
    ∃ r', s.index.get d = some r' ∧ r'.locator.volumeId = v ∧ (r.isLive = true → r'.isLive = true)
  region : ∀ d l, l.volumeId = v → Intact payload s.disk.volumes d l →
    Intact payload t.disk.volumes d l

namespace CompactStage

def old : CompactStage → List VolumeId
  | .sealed v => [v]
  | .captured v _ => [v]
  | .opened v _ _ => [v]
  | .published v _ _ => [v]
  | .swept v => [v]
  | .saved v => [v]
  | _ => []

def pending : CompactStage → Option VolumeId
  | .published _ new _ => some new
  | _ => none

end CompactStage

def StageInv (payload : Digest → Bytes) (s : ThreadState) : CompactStage → Prop
  | .ready => True
  | .sealed old => Sealed s old
  | .captured old live => Retired s old (live.map Prod.fst) ∧
      ∀ e ∈ live, e.2.volumeId = old ∧ Intact payload s.disk.volumes e.1 e.2
  | .opened old live src => Retired s old (live.map Prod.fst) ∧
      ∀ e ∈ live, slice src e.2.payloadOffset e.2.size = payload e.1
  | .published old new moved => Retired s old (moved.map Prod.fst) ∧
      ∀ e ∈ moved, e.2.volumeId = new ∧ HoldsPayload payload s.disk.volumes e.1 e.2
  | .swept old => Clear s old
  | .saved old => Clear s old
  | .failed _ => True

def Compactor.volumes (k : Compactor) : List VolumeId := k.stage.old ++ k.todo

structure PendingInv (s : HaystackThreads) (c : ℕ) (new : VolumeId) : Prop where
  used : new ∈ s.core.used
  clear : Clear s.core new
  own : ∀ c' k', s.compactors.get c' = some k' → new ∉ k'.volumes ∧
    (k'.stage.pending = some new → c' = c)

structure CompactionInv (payload : Digest → Bytes) (s : HaystackThreads) : Prop where
  core : CoreInv payload s.core
  used : ∀ c k, s.compactors.get c = some k → ∀ v ∈ k.volumes, v ∈ s.core.used
  stage : ∀ c k, s.compactors.get c = some k → StageInv payload s.core k.stage
  pending : ∀ c k, s.compactors.get c = some k → ∀ new, k.stage.pending = some new →
    PendingInv s c new

section
variable (payload : Digest → Bytes) (s t : ThreadState) (v : VolumeId)
  (hu : Undisturbed payload s t v)
include hu

variable {payload}

theorem clear_undisturbed (h : Clear s v) : Clear t v where
  isSealed := hu.isSealed h.isSealed
  flight := hu.flight h.isSealed h.flight
  rows := fun d r hr hv => by
    obtain ⟨r',hr',hv',_⟩ := hu.rows h.flight d r hr hv
    exact h.rows d r' hr' hv'

theorem retired_undisturbed {ds : List Digest} (h : Retired s v ds) : Retired t v ds where
  isSealed := hu.isSealed h.isSealed
  flight := hu.flight h.isSealed h.flight
  rows := fun d r hr hlive hv => by
    obtain ⟨r',hr',hv',hlive'⟩ := hu.rows h.flight d r hr hv
    exact h.rows d r' hr' (hlive' hlive) hv'

end

variable {s t : ThreadState} {fresh : VolumeId}

theorem stageInv_undisturbed (payload : Digest → Bytes) {stage : CompactStage}
    (hold : ∀ v ∈ stage.old, Undisturbed payload s t v)
    (hnew : ∀ v, stage.pending = some v → Undisturbed payload s t v ∧
      ∀ file, s.disk.volumes.get v = some file → ∃ file', t.disk.volumes.get v = some file')
    (h : StageInv payload s stage) : StageInv payload t stage := by
  cases stage with
  | ready => trivial
  | sealed old => exact (hold old mem_cons_self).isSealed h
  | captured old live =>
    have hu := hold old mem_cons_self
    exact ⟨retired_undisturbed s t old hu h.1,fun e he =>
      ⟨(h.2 e he).1,hu.region e.1 e.2 (h.2 e he).1 (h.2 e he).2⟩⟩
  | opened old live src =>
    exact ⟨retired_undisturbed s t old (hold old mem_cons_self) h.1,h.2⟩
  | published old new moved =>
    obtain ⟨hu,hstays⟩ := hnew new rfl
    refine ⟨retired_undisturbed s t old (hold old mem_cons_self) h.1,fun e he => ?_⟩
    obtain ⟨hv,hp⟩ := h.2 e he
    obtain ⟨file,hf,_⟩ := map_eq_some_iff.mp hp.1
    obtain ⟨file',hf'⟩ := hstays file (hv ▸ hf)
    exact ⟨hv,hu.region e.1 e.2 hv (fun _ _ => hp) file' (hv ▸ hf')⟩
  | swept old | saved old => exact clear_undisturbed s t old (hold old mem_cons_self) h
  | failed e => trivial

theorem noFlight_set {v : VolumeId} {i : ℕ} {b : OpRecord}
    (ht : t.ops = s.ops.set i b) (hb : b.stage ≠ .returned → b.op.volume ≠ some v)
    (h : noFlight s v = true) : noFlight t v = true := by
  rw [noFlight_iff] at h ⊢
  rw [ht]
  exact forall_get_set h hb

theorem undisturbed_ops (payload : Digest → Bytes) {v : VolumeId}
    (ha : t.active = s.active) (hi : t.index = s.index) (hd : t.disk.volumes = s.disk.volumes)
    (hf : noFlight s v = true → noFlight t v = true) : Undisturbed payload s t v where
  isSealed := fun h => by rwa [Sealed, ha]
  flight := fun _ => hf
  rows := fun _ d r hr hv => ⟨r,hi ▸ hr,hv,id⟩
  region := fun d l _ h => hd ▸ h

structure Beside (payload : Digest → Bytes) (s t : ThreadState) : Prop where
  used : ∀ v ∈ s.used, v ∈ t.used
  undisturbed : ∀ v ∈ s.used, Undisturbed payload s t v
  stays : ∀ v file, s.disk.volumes.get v = some file → ∃ file', t.disk.volumes.get v = some file'

section
variable (payload : Digest → Bytes) (maxVolumeSize : ℕ) (s t : ThreadState) (i : ℕ)

theorem beside_flagBegin {op : Option LogOp} (hop : ∀ o, op = some o → o.volume = none)
    (h : flagBegin s i op = some t) : Beside payload s t := by
  unfold flagBegin at h
  split_ifs at h
  cases op with
  | none =>
    cases h
    exact ⟨fun v hv => hv,fun v _ => undisturbed_ops payload rfl rfl rfl id,
      fun v file hf => ⟨file,hf⟩⟩
  | some op =>
    cases h
    refine ⟨fun v hv => hv,fun v _ => undisturbed_ops payload rfl rfl rfl ?_,
      fun v file hf => ⟨file,hf⟩⟩
    exact noFlight_set rfl (fun _ => by simp [hop op rfl])

theorem beside_logStep (h : logStep s i = some t) : Beside payload s t := by
  unfold logStep at h
  split at h
  · simp at h
  · rename_i a ha
    split_ifs at h with hs
    cases h
    refine ⟨fun v hv => hv,fun v _ => undisturbed_ops payload rfl rfl rfl (fun hf => ?_),
      fun v file hf => ⟨file,hf⟩⟩
    exact noFlight_set rfl (fun _ => (noFlight_iff s v).mp hf i a ha (by simp [hs])) hf

theorem beside_updateStep (h : updateStep s i = some t) : Beside payload s t := by
  unfold updateStep at h
  split at h
  · simp at h
  · rename_i a ha
    split_ifs at h with hs
    cases h
    refine ⟨fun v hv => hv,fun v _ => ⟨id,?_,?_,fun d l _ h => h⟩,fun v file hf => ⟨file,hf⟩⟩
    · exact fun _ => noFlight_set rfl (fun hr => absurd rfl hr)
    · intro hf d r hr hv
      rw [get_apply] at hr
      rcases row_eq_some hr with ⟨r',hr',hl,hlive⟩ | ho
      · exact ⟨r',hr',hl ▸ hv,hlive⟩
      · have hne := (noFlight_iff s v).mp hf i a ha (by simp [hs])
        rw [ho] at hne
        exact absurd (congrArg some hv) hne

theorem beside_commit (hI : CoreInv payload s) {d : Digest}
    (hfresh : fresh ∉ s.used) {result : Volumes} {l : NeedleLocator}
    (ha : appendNeedle maxVolumeSize s.active s.disk.volumes d (payload d) fresh
      (needleFrame d (payload d)).length = some (result,l)) :
    Beside payload s (beginOp { s with
      disk := { s.disk with volumes := result }
      active := some (l.volumeId,l.payloadOffset+l.size)
      used := fresh :: s.used } i (.put d l)) := by
  obtain ⟨_,_,hnew,hother,_⟩ := appendNeedle_get hI.volumes ha
  have htarget (v : VolumeId) (hv : v ∈ s.used) (hl : l.volumeId = v) :
      ∃ n, s.active = some (v,n) := by
    rcases appendNeedle_volume ha with h | h
    · exact hl ▸ h
    · exact absurd (h ▸ hl ▸ hv) hfresh
  refine ⟨fun v hv => mem_cons_of_mem _ hv,fun v hv => ⟨?_,?_,?_,?_⟩,?_⟩
  · intro hsealed n hn
    obtain ⟨m,hm⟩ := htarget v hv (Prod.mk.inj (some.inj hn)).1
    exact hsealed m hm
  · intro hsealed
    refine noFlight_set rfl (fun _ hvol => ?_)
    obtain ⟨m,hm⟩ := htarget v hv (some.inj hvol)
    exact hsealed m hm
  · exact fun _ x r hr hrv => ⟨r,hr,hrv,id⟩
  · intro x l' hl' hin file hf
    have hold : ∃ file', s.disk.volumes.get l'.volumeId = some file' := by
      by_cases hl : l'.volumeId = l.volumeId
      · obtain ⟨n,hn⟩ := htarget v hv (hl.symm.trans hl')
        obtain ⟨needles,hneedles,_⟩ := hI.volumes.active v n hn
        exact ⟨_,hl' ▸ hneedles⟩
      · exact ⟨file,by rw [← hother _ hl]; exact hf⟩
    obtain ⟨file',hf'⟩ := hold
    have h := hin file' hf'
    exact ⟨readRegion_append hI.volumes ha _ _ h.1 h.2,h.2⟩
  · intro v file hf
    by_cases hl : v = l.volumeId
    · exact ⟨_,hl ▸ hnew⟩
    · exact ⟨file,by rw [← hother v hl] at hf; exact hf⟩

/-- A mutator does not disturb the volume being compacted. -/
theorem beside_mutatorStep (hI : CoreInv payload s) {a : MutatorAction}
    (ht : mutatorStep payload maxVolumeSize s a = some t) : Beside payload s t := by
  cases a with
  | commit i d fresh =>
    simp only [mutatorStep] at ht
    split at ht
    · simp at ht
    · rename_i hnew
      obtain ⟨⟨result,l⟩,ha,rfl⟩ := map_eq_some_iff.mp ht
      simp only [Bool.or_eq_true, not_or, decide_eq_true_eq] at hnew
      exact beside_commit payload maxVolumeSize s i hI hnew.2 ha
  | remove i d =>
    refine beside_flagBegin payload s t i (fun o ho => ?_) ht
    unfold removeOp at ho
    split at ho <;> simp at ho
    rw [← ho.2]
    rfl
  | quarantine i d =>
    refine beside_flagBegin payload s t i (fun o ho => ?_) ht
    unfold quarantineOp at ho
    split at ho <;> simp at ho
    rw [← ho.2]
    rfl
  | log i => exact beside_logStep payload s t i ht
  | update i => exact beside_updateStep payload s t i ht
  | checkpoint =>
    cases ht
    exact ⟨fun v hv => hv,fun v _ => undisturbed_ops payload rfl rfl rfl id,
      fun v file hf => ⟨file,hf⟩⟩

end

section
variable (payload : Digest → Bytes) (volumes : Volumes) (d : Digest) (l : NeedleLocator)
  (v : VolumeId)

theorem holdsPayload_set (file : Bytes) (hv : volumes.get v = none)
    (h : HoldsPayload payload volumes d l) : HoldsPayload payload (volumes.set v file) d l := by
  refine ⟨?_,h.2⟩
  have hne : l.volumeId ≠ v := fun hl => by simp [HoldsPayload, readRegion, hl, hv] at h
  rw [readRegion, get_set_ne hne]
  exact h.1

theorem holdsPayload_erase (hl : l.volumeId ≠ v) (h : HoldsPayload payload volumes d l) :
    HoldsPayload payload (volumes.erase v) d l := by
  refine ⟨?_,h.2⟩
  rw [readRegion, get_erase_ne hl]
  exact h.1

end

structure Advances (payload : Digest → Bytes) (s : ThreadState) (k : Compactor) (t : ThreadState)
    (k' : Compactor) : Prop where
  core : CoreInv payload t
  used : ∀ v ∈ s.used, v ∈ t.used
  undisturbed : ∀ v ∈ s.used, k.stage.pending ≠ some v → Undisturbed payload s t v
  stays : ∀ v file, v ∉ k.volumes → s.disk.volumes.get v = some file →
    ∃ file', t.disk.volumes.get v = some file'
  volumes : ∀ v ∈ k'.volumes, v ∈ k.volumes
  stage : StageInv payload t k'.stage
  pending : ∀ new, k'.stage.pending = some new → new ∉ s.used ∧ new ∈ t.used ∧ Clear t new

section
variable (payload : Digest → Bytes) (s : ThreadState) (k k' : Compactor) (old : VolumeId)
  (hI : CoreInv payload s)
include hI

variable {payload}

theorem advances_self (hv : ∀ v ∈ k'.volumes, v ∈ k.volumes) (hs : StageInv payload s k'.stage)
    (hp : k'.stage.pending = none) : Advances payload s k s k' where
  core := hI
  used := fun _ hv => hv
  undisturbed := fun v _ _ => undisturbed_ops payload rfl rfl rfl id
  stays := fun _ file _ hf => ⟨file,hf⟩
  volumes := hv
  stage := hs
  pending := fun new hn => by simp [hp] at hn

theorem advances_seal (hv : ∀ v ∈ k'.volumes, v ∈ k.volumes)
    (hs : k'.stage = .sealed old) :
    Advances payload s k { s with active := s.active.filter (fun a => a.1 ≠ old) } k' := by
  have hactive (v : VolumeId) (n : ℕ) (h : s.active.filter (fun a => a.1 ≠ old) = some (v,n)) :
      s.active = some (v,n) ∧ v ≠ old := by
    obtain ⟨ha,hne⟩ := filter_eq_some_iff.mp h
    exact ⟨ha,by simpa using hne⟩
  refine ⟨⟨⟨hI.volumes.framed,fun v n h => hI.volumes.active v n (hactive v n h).1⟩, hI.volumesUsed,
    hI.rowsUsed,hI.live,hI.flight,hI.started,hI.stopped,hI.shown⟩,fun _ h => h,?_,
    fun _ file _ hf => ⟨file,hf⟩,hv,?_,fun new hn => by simp [hs, CompactStage.pending] at hn⟩
  · intro v _ _
    exact ⟨fun h n hn => h n (hactive v n hn).1,fun _ => id,fun _ d r hr hrv => ⟨r,hr,hrv,id⟩,
      fun d l _ h => h⟩
  · rw [hs]
    exact fun n hn => (hactive old n hn).2 rfl

theorem stageInv_capture (hf : noFlight s old = true) (hs : Sealed s old) :
    StageInv payload s (.captured old (liveIn s.index old)) := by
  refine ⟨⟨hs,hf,fun d r hr hlive hv => ?_⟩,fun e he => ?_⟩
  · exact List.mem_map.mpr ⟨(d,r.locator),(mem_liveIn).mpr ⟨r,hr,hlive,rfl,hv⟩,rfl⟩
  · obtain ⟨r,hr,hlive,hl,hv⟩ := (mem_liveIn).mp he
    exact ⟨hv,fun _ _ => hl ▸ hI.live e.1 r hr hlive⟩

theorem coreInv_sweep {moved : List (Digest × NeedleLocator)}
    (hr : Retired s old (moved.map Prod.fst))
    (hm : ∀ e ∈ moved, e.2.volumeId ≠ old ∧ HoldsPayload payload s.disk.volumes e.1 e.2) :
    CoreInv payload { s with index := dropVolumeRows (remapRows s.index moved) old } := by
  refine ⟨hI.volumes,hI.volumesUsed,?_,?_,hI.flight,hI.started,hI.stopped,?_⟩
  · intro d r hg
    obtain ⟨_,r',hr',_,_,rfl | ⟨_,hmem⟩⟩ := get_sweep hg
    · exact hI.rowsUsed d r hr'
    · exact holdsPayload_used s hI (hm _ hmem).2
  · intro d r hg hlive
    obtain ⟨_,r',hr',_,_,rfl | ⟨_,hmem⟩⟩ := get_sweep hg
    · exact hI.live d r hr' hlive
    · exact (hm _ hmem).2
  · intro i a ha hret
    refine (hI.shown i a ha hret).imp_right (fun hshow => ?_)
    cases hop : a.op with
    | put d l =>
      rw [hop] at hshow
      obtain ⟨r,hrow,hlive⟩ := hshow
      exact live_sweep s.index moved old d r hrow hlive (fun e he => (hm e he).1)
        (hr.rows d r hrow hlive)
    | delete d =>
      rw [hop] at hshow
      intro r hg
      obtain ⟨_,r',hr',hdel,_⟩ := get_sweep hg
      exact hdel.trans (hshow r' hr')
    | quarantine d =>
      rw [hop] at hshow
      intro r hg
      obtain ⟨_,r',hr',_,hq,_⟩ := get_sweep hg
      exact hq.trans (hshow r' hr')

theorem advances_sweep (moved : List (Digest × NeedleLocator)) (hk : k.stage.old = [old])
    (hr : Retired s old (moved.map Prod.fst))
    (hm : ∀ e ∈ moved, e.2.volumeId ≠ old ∧ HoldsPayload payload s.disk.volumes e.1 e.2)
    (hp : ∀ e ∈ moved, k.stage.pending = some e.2.volumeId) :
    Advances payload s k (sweep s k old moved).1 (sweep s k old moved).2 where
  core := coreInv_sweep s old hI hr hm
  used := fun _ h => h
  undisturbed := fun v _ hne => by
    refine ⟨id,fun _ => id,fun _ d r hg hv => ?_,fun d l _ h => h⟩
    obtain ⟨_,r',hr',_,_,rfl | ⟨_,hmem⟩⟩ := get_sweep hg
    · exact ⟨r,hr',hv,id⟩
    · exact absurd (hv ▸ hp _ hmem) hne
  stays := fun _ file _ hf => ⟨file,hf⟩
  volumes := fun v hv => by
    rw [Compactor.volumes, hk]
    exact hv
  stage := ⟨hr.isSealed,hr.flight,fun d r hg => (get_sweep hg).1⟩
  pending := fun new hn => by simp [sweep, CompactStage.pending] at hn

theorem advances_publish {live moved : List (Digest × NeedleLocator)}
    {src out : Bytes} (hfresh : fresh ∉ s.used) (hk : k.stage = .opened old live src)
    (hs : StageInv payload s (.opened old live src))
    (hc : copyNeedles src fresh live 0 = .ok (out,moved)) :
    Advances payload s k { s with
        disk := { s.disk with volumes := s.disk.volumes.set fresh out }
        used := fresh :: s.used }
      { k with stage := .published old fresh moved } := by
  obtain ⟨hkeys,hout,hlim,hmoved⟩ :=
    copyNeedles_spec payload [] out moved hs.2 hc
  have hnone : s.disk.volumes.get fresh = none := by
    cases hg : s.disk.volumes.get fresh with
    | none => rfl
    | some file => exact absurd (hI.volumesUsed fresh file hg) hfresh
  have hframed : Framed out (live.map (fun e => (e.1,payload e.1))) :=
    ⟨by simpa using hlim (by simp [offsetLimit]),[],Or.inl rfl,by simp [hout]⟩
  have hkeep (x : Digest) (l : NeedleLocator) : HoldsPayload payload s.disk.volumes x l →
        HoldsPayload payload (s.disk.volumes.set fresh out) x l :=
    holdsPayload_set payload _ x l fresh out hnone
  have hclear : Clear s fresh := by
    refine ⟨fun n hn => ?_,?_,fun d r hr hv => hfresh (hv ▸ hI.rowsUsed d r hr)⟩
    · obtain ⟨needles,hneedles,_⟩ := hI.volumes.active fresh n hn
      simp [hnone] at hneedles
    · refine (noFlight_iff s fresh).mpr (fun i a ha hstage hvol => ?_)
      cases hop : a.op with
      | put d l =>
        rw [hop] at hvol
        have hu := holdsPayload_used s hI (hI.flight i a ha hstage d l hop)
        exact hfresh (some.inj hvol ▸ hu)
      | delete d | quarantine d => simp [hop, LogOp.volume] at hvol
  refine ⟨⟨⟨?_,?_⟩,?_,fun d r hr => mem_cons_of_mem _ (hI.rowsUsed d r hr),
      fun d r hr hlive => hkeep d _ (hI.live d r hr hlive),
      fun i a ha hstage d l hop => hkeep d l (hI.flight i a ha hstage d l hop),hI.started,
      hI.stopped,hI.shown⟩,
    fun v hv => mem_cons_of_mem _ hv,?_,?_,?_,?_,?_⟩
  · exact forall_get_set hI.volumes.framed ⟨_,hframed⟩
  · intro v n hn
    obtain ⟨needles,hneedles,hlen⟩ := hI.volumes.active v n hn
    have hne : v ≠ fresh := fun h => by simp [h, hnone] at hneedles
    exact ⟨needles,by rw [get_set_ne hne, hneedles],hlen⟩
  · exact forall_get_set
      (fun v file hf => mem_cons_of_mem _ (hI.volumesUsed v file hf)) mem_cons_self
  · intro v hv _
    refine ⟨id,fun _ => id,fun _ d r hr hrv => ⟨r,hr,hrv,id⟩,fun d l hl hin file hf => ?_⟩
    have hne : l.volumeId ≠ fresh := fun h => hfresh (h ▸ hl ▸ hv)
    rw [get_set_ne hne] at hf
    exact hkeep d l (hin file hf)
  · intro v file _ hf
    by_cases hne : v = fresh
    · exact ⟨out,by rw [hne, get_set_self]⟩
    · exact ⟨file,by rw [get_set_ne hne, hf]⟩
  · intro v hv
    simpa [Compactor.volumes, hk, CompactStage.old] using hv
  · refine ⟨⟨hs.1.isSealed,hs.1.flight,hkeys ▸ hs.1.rows⟩,fun e he => ?_⟩
    obtain ⟨hv,hsize,hslice⟩ := hmoved e he
    refine ⟨hv,?_,hsize⟩
    rw [readRegion, hv, get_set_self, map_some]
    simpa using hslice []
  · intro new hn
    obtain rfl : fresh = new := some.inj hn
    exact ⟨hfresh,mem_cons_self,hclear.isSealed,hclear.flight,hclear.rows⟩

theorem advances_checkpoint (hk : k.stage = .swept old) (hs : Clear s old) :
    Advances payload s k { s with disk := checkpoint s.disk s.index }
      { k with stage := .saved old } where
  core := coreInv_files s hI
  used := fun _ h => h
  undisturbed := fun v _ _ => undisturbed_ops payload rfl rfl rfl id
  stays := fun _ file _ hf => ⟨file,hf⟩
  volumes := fun v hv => by simpa [Compactor.volumes, hk, CompactStage.old] using hv
  stage := ⟨hs.isSealed,hs.flight,hs.rows⟩
  pending := fun new hn => by simp [CompactStage.pending] at hn

theorem advances_unlink (hk : k.stage = .saved old) (hs : Clear s old) :
    Advances payload s k
      { s with disk := { s.disk with volumes := s.disk.volumes.erase old } }
      { k with stage := .ready } := by
  have hkeep (x : Digest) (l : NeedleLocator) (hl : l.volumeId ≠ old) :
      HoldsPayload payload s.disk.volumes x l →
        HoldsPayload payload (s.disk.volumes.erase old) x l :=
    holdsPayload_erase payload _ x l old hl
  have hflight := (noFlight_iff s old).mp hs.flight
  refine ⟨⟨⟨fun v file hf => hI.volumes.framed v file (get_of_get_erase hf),?_⟩,
      fun v file hf => hI.volumesUsed v file (get_of_get_erase hf),hI.rowsUsed,
      fun d r hr hlive => hkeep d _ (hs.rows d r hr) (hI.live d r hr hlive),?_,hI.started,
      hI.stopped,hI.shown⟩,
    fun _ h => h,?_,?_,?_,trivial,fun new hn => by simp [CompactStage.pending] at hn⟩
  · intro v n hn
    obtain ⟨needles,hneedles,hlen⟩ := hI.volumes.active v n hn
    have hne : v ≠ old := fun h => hs.isSealed n (h ▸ hn)
    exact ⟨needles,by rw [get_erase_ne hne, hneedles],hlen⟩
  · intro i a ha hstage d l hop
    refine hkeep d l (fun hl => hflight i a ha hstage ?_) (hI.flight i a ha hstage d l hop)
    rw [hop, LogOp.volume, hl]
  · intro v _ _
    refine ⟨id,fun _ => id,fun _ d r hr hrv => ⟨r,hr,hrv,id⟩,fun d l _ hin file hf => ?_⟩
    rw [get_erase] at hf
    split_ifs at hf with hl
    exact hkeep d l hl (hin file hf)
  · intro v file hv hf
    have hne : v ≠ old := fun h => hv (by simp [Compactor.volumes, hk, CompactStage.old, h])
    exact ⟨file,by rw [get_erase_ne hne, hf]⟩
  · intro v hv
    exact mem_append_right _ (by simpa [Compactor.volumes, CompactStage.old] using hv)

end

theorem advances_compactorStep (payload : Digest → Bytes) {k k' : Compactor}
    (hI : CoreInv payload s) (hs : StageInv payload s k.stage)
    (hp : ∀ new, k.stage.pending = some new → new ∉ k.volumes)
    (hc : ∀ old, k.stage = .sealed old → noFlight s old = true)
    (ht : compactorStep s k fresh = some (t,k')) : Advances payload s k t k' := by
  obtain ⟨todo,stage,dropped⟩ := k
  cases stage with
  | ready =>
    cases todo with
    | nil => simp [compactorStep] at ht
    | cons old todo =>
      cases ht
      exact advances_seal s _ _ old hI (fun v hv => hv) rfl
  | sealed old =>
    cases ht
    exact advances_self s _ _ hI (fun v hv => hv) (stageInv_capture s old hI (hc old rfl) hs) rfl
  | captured old live =>
    cases live with
    | nil =>
      cases ht
      exact advances_sweep s _ old hI [] rfl hs.1 (by simp) (by simp)
    | cons e live =>
      simp only [compactorStep] at ht
      split at ht
      · cases ht
        exact advances_self s _ _ hI (fun v hv => mem_append_right _ hv) trivial rfl
      · rename_i src hsrc
        cases ht
        refine advances_self s _ _ hI (fun v hv => hv) ⟨hs.1,fun e' he' => ?_⟩ rfl
        obtain ⟨hv,hin⟩ := hs.2 e' he'
        have hread := (hin src (hv ▸ hsrc)).1
        rw [readRegion, hv, hsrc, map_some] at hread
        exact some.inj hread
  | opened old live src =>
    simp only [compactorStep] at ht
    split_ifs at ht with hfresh
    split at ht
    · cases ht
      exact advances_self s _ _ hI (fun v hv => mem_append_right _ hv) trivial rfl
    · rename_i out moved hcopy
      cases ht
      exact advances_publish s _ old hI hfresh rfl hs hcopy
  | published old new moved =>
    cases ht
    have hne : new ≠ old := fun h => hp new rfl (h ▸ mem_cons_self)
    exact advances_sweep s _ old hI moved rfl hs.1 (fun e he => ⟨(hs.2 e he).1 ▸ hne,(hs.2 e he).2⟩)
      (fun e he => congrArg some (hs.2 e he).1.symm)
  | swept old =>
    cases ht
    exact advances_checkpoint s _ old hI rfl hs
  | saved old =>
    cases ht
    exact advances_unlink s _ old hI rfl hs
  | failed e => simp [compactorStep] at ht

section
variable (payload : Digest → Bytes) (maxVolumeSize : ℕ) (s t : HaystackThreads)
  (hI : CompactionInv payload s)
include hI

theorem compactionInv_mutate {core : ThreadState} {a : MutatorAction}
    (hm : mutatorStep payload maxVolumeSize s.core a = some core) :
    CompactionInv payload { s with core := core } := by
  have hb := beside_mutatorStep payload maxVolumeSize s.core core hI.core hm
  refine ⟨coreInv_mutatorStep payload hI.core hm,
    fun c k hk v hv => hb.used v (hI.used c k hk v hv),fun c k hk => ?_,fun c k hk new hn => ?_⟩
  · refine stageInv_undisturbed payload (fun v hv => ?_) (fun v hv => ?_) (hI.stage c k hk)
    · exact hb.undisturbed v (hI.used c k hk v (mem_append_left _ hv))
    · exact ⟨hb.undisturbed v (hI.pending c k hk v hv).used,hb.stays v⟩
  · obtain ⟨hused,hclear,hown⟩ := hI.pending c k hk new hn
    exact ⟨hb.used new hused,
      clear_undisturbed s.core core new (hb.undisturbed new hused) hclear,hown⟩

theorem compactionInv_start (c : ℕ) {todo : List VolumeId}
    (hd : isDirtyOrder todo s.core.index = true) :
    CompactionInv payload { s with compactors := s.compactors.set c ⟨todo,.ready,[]⟩ } := by
  have hrow (v : VolumeId) (hv : v ∈ todo) :
      ∃ d r, s.core.index.get d = some r ∧ r.locator.volumeId = v := by
    simp only [isDirtyOrder, Bool.and_eq_true, List.all_eq_true, decide_eq_true_eq] at hd
    obtain ⟨e,he,hev⟩ := List.mem_map.mp (hd.1.2 v hv)
    exact ⟨e.1,e.2,get_eq_some_iff.mpr (mem_filter.mp he).1,hev⟩
  refine ⟨hI.core,forall_get_set hI.used (fun v hv => ?_),
    forall_get_set hI.stage trivial,?_⟩
  · obtain ⟨d,r,hr,rfl⟩ := hrow v hv
    exact hI.core.rowsUsed d r hr
  · refine forall_get_set (fun c' k hk new hn => ?_)
      (fun new hn => by simp [CompactStage.pending] at hn)
    obtain ⟨hused,hclear,hown⟩ := hI.pending c' k hk new hn
    refine ⟨hused,hclear,forall_get_set hown ⟨fun hv => ?_,fun hn => ?_⟩⟩
    · obtain ⟨d,r,hr,hrv⟩ := hrow new hv
      exact hclear.rows d r hr hrv
    · simp [CompactStage.pending] at hn

theorem compactionInv_advance {c : ℕ} {k k' : Compactor} {core : ThreadState}
    (hk : s.compactors.get c = some k) (ha : Advances payload s.core k core k') :
    CompactionInv payload { s with core := core, compactors := s.compactors.set c k' } := by
  -- The pending copy of another compaction is not the one this step works with.
  have hother (c' : ℕ) (j : Compactor) (hj : s.compactors.get c' = some j) (hc : c' ≠ c)
      (new : VolumeId) (hn : j.stage.pending = some new) : k.stage.pending ≠ some new :=
    fun h => hc (((hI.pending c' j hj new hn).own c k hk).2 h).symm
  refine ⟨ha.core,?_,?_,?_⟩
  · exact forall_get_set (fun c' j hj v hv => ha.used v (hI.used c' j hj v hv))
      (fun v hv => ha.used v (hI.used c k hk v (ha.volumes v hv)))
  · refine forall_get_set_ne _ _ (fun c' j hc hj => ?_) ha.stage
    refine stageInv_undisturbed payload (fun v hv => ?_) (fun v hv => ?_) (hI.stage c' j hj)
    · have hmem : v ∈ j.volumes := mem_append_left _ hv
      exact ha.undisturbed v (hI.used c' j hj v hmem)
        (fun h => ((hI.pending c k hk v h).own c' j hj).1 hmem)
    · have hpend := hI.pending c' j hj v hv
      exact ⟨ha.undisturbed v hpend.used (hother c' j hj hc v hv),
        fun file => ha.stays v file (hpend.own c k hk).1⟩
  · refine forall_get_set_ne _ _ (fun c' j hc hj new hn => ?_) (fun new hn => ?_)
    · obtain ⟨hused,hclear,hown⟩ := hI.pending c' j hj new hn
      have hu := ha.undisturbed new hused (hother c' j hj hc new hn)
      refine ⟨ha.used new hused,clear_undisturbed s.core core new hu hclear,
        forall_get_set hown ⟨fun hv => ?_,fun hn' => ?_⟩⟩
      · exact (hown c k hk).1 (ha.volumes new hv)
      · exact absurd hused (ha.pending new hn').1
    · obtain ⟨hfresh,hused,hclear⟩ := ha.pending new hn
      refine ⟨hused,hclear,forall_get_set (fun c' j hj => ⟨fun hv => ?_,fun hn' => ?_⟩)
        ⟨fun hv => ?_,fun _ => rfl⟩⟩
      · exact hfresh (hI.used c' j hj new hv)
      · exact absurd (hI.pending c' j hj new hn').used hfresh
      · exact hfresh (hI.used c k hk new (ha.volumes new hv))

end

/-- Mutators and compactors keep the invariant. -/
theorem compactionInv_step (payload : Digest → Bytes) {maxVolumeSize : ℕ} {s t : HaystackThreads}
    {a : HaystackThreadsAction} (hI : CompactionInv payload s) (hc : settledCapture s a = true)
    (ht : haystackThreadsStep payload maxVolumeSize s a = some t) : CompactionInv payload t := by
  cases a with
  | mutate a =>
    obtain ⟨core,hm,rfl⟩ := map_eq_some_iff.mp ht
    exact compactionInv_mutate payload maxVolumeSize s hI hm
  | compaction c todo =>
    simp only [haystackThreadsStep] at ht
    split_ifs at ht with hd
    cases ht
    refine compactionInv_start payload s hI c ?_
    simp only [Bool.or_eq_true, not_or, Bool.not_eq_true', Bool.not_eq_false] at hd
    exact hd.2
  | advance c fresh =>
    simp only [haystackThreadsStep] at ht
    split at ht
    · simp at ht
    · rename_i k hk
      obtain ⟨⟨core,k'⟩,hstep,rfl⟩ := map_eq_some_iff.mp ht
      refine compactionInv_advance payload s hI hk
        (advances_compactorStep payload hI.core (hI.stage c k hk)
          (fun new hn => ((hI.pending c k hk new hn).own c k hk).1) (fun old ho => ?_) hstep)
      obtain ⟨todo,stage,dropped⟩ := k
      subst ho
      simpa [settledCapture, hk] using hc
  | locate j d start stop =>
    simp only [haystackThreadsStep] at ht
    split_ifs at ht
    cases ht
    exact ⟨hI.core,hI.used,hI.stage,fun c k hk new hn =>
      ⟨(hI.pending c k hk new hn).used,(hI.pending c k hk new hn).clear,
        (hI.pending c k hk new hn).own⟩⟩
  | openRange j =>
    simp only [haystackThreadsStep] at ht
    split at ht
    · simp at ht
    · obtain ⟨r,_,rfl⟩ := map_eq_some_iff.mp ht
      exact ⟨hI.core,hI.used,hI.stage,fun c k hk new hn =>
        ⟨(hI.pending c k hk new hn).used,(hI.pending c k hk new hn).clear,
          (hI.pending c k hk new hn).own⟩⟩

def IdleThreads (payload : Digest → Bytes) (s : HaystackThreads) : Prop :=
  Idle payload s.core ∧ s.compactors = Dict.empty ∧ s.readers = Dict.empty

theorem compactionInv_idle (payload : Digest → Bytes) (s : HaystackThreads)
    (h : IdleThreads payload s) : CompactionInv payload s where
  core := coreInv_idle payload s.core h.1
  used := fun c k hk => by simp [h.2.1] at hk
  stage := fun c k hk => by simp [h.2.1] at hk
  pending := fun c k hk => by simp [h.2.1] at hk

/-- If no volume is captured with a commit on its way into it, no live needle is lost. -/
theorem compaction_keeps_live (payload : Digest → Bytes) (maxVolumeSize : ℕ) (s : HaystackThreads)
    (hs : Reachable (IdleThreads payload) (haystackThreadsStep payload maxVolumeSize)
      (fun s a => settledCapture s a = true) s) : KeepsLive payload s.core := by
  have hI := reachable_invariant (CompactionInv payload) (compactionInv_idle payload)
    (fun s t a hI hc ht => compactionInv_step payload hI hc ht) s hs
  refine ⟨fun i a d l ha hop hr hno => ?_,hI.core.live⟩
  have h := (hI.core.shown i a ha hr).resolve_left hno
  rw [hop] at h
  exact h

def freshHaystack : HaystackThreads := ⟨freshThreads,Dict.empty,Dict.empty⟩

theorem idle_freshHaystack (payload : Digest → Bytes) : IdleThreads payload freshHaystack :=
  ⟨idle_freshThreads payload,rfl,rfl⟩

def volumeC : VolumeId := ⟨"33333333-3333-4333-8333-333333333333".toList,by decide⟩

def commitAndRemove : List HaystackThreadsAction :=
  [.mutate (.commit 0 abcDigest volumeA), .mutate (.log 0), .mutate (.update 0),
    .mutate (.remove 1 abcDigest), .mutate (.log 1), .mutate (.update 1)]

/-- A second commit shares the volume, and a read of it overlaps the compaction. -/
theorem compaction_keeps_manifest :
    ∃ s, (Reachable (IdleThreads abcPayload) (haystackThreadsStep abcPayload 1000)
        (fun s a => settledCapture s a = true) s ∧
        (s.core.index.get abcManifestDigest).any (fun r => r.locator.volumeId = volumeC) = true) ∧
      KeepsLive abcPayload s.core := by
  refine Exists.imp (fun s hs => ⟨hs,compaction_keeps_live abcPayload 1000 s hs.1⟩) ?_
  exact reachable_of_checkedRun _ _ _
    (commitAndRemove ++
      [.mutate (.commit 2 abcManifestDigest volumeB), .mutate (.log 2), .mutate (.update 2),
        .compaction 0 [volumeA], .advance 0 volumeC, .advance 0 volumeC, .advance 0 volumeC,
        .locate 0 abcManifestDigest 0 9, .advance 0 volumeC, .openRange 0, .advance 0 volumeC,
        .advance 0 volumeC, .advance 0 volumeC])
    freshHaystack (idle_freshHaystack _) (by decide +kernel)

/-- A commit has its needle but no row when the compaction looks: it returns with a row into a
volume that is gone. -/
theorem compaction_unlinks_commit_in_flight :
    ∃ s, Reachable (IdleThreads abcPayload) (haystackThreadsStep abcPayload 1000) anyStep s ∧
      ¬ KeepsLive abcPayload s.core := by
  obtain ⟨t,ht,r,hr,hlive,hgone⟩ := reachable_of_run (IdleThreads abcPayload)
    (haystackThreadsStep abcPayload 1000)
    (P := fun s => ∃ r, s.core.index.get abcManifestDigest = some r ∧ r.isLive = true ∧
      s.core.disk.volumes.get r.locator.volumeId = none)
    (commitAndRemove ++
      [.mutate (.commit 2 abcManifestDigest volumeB), .compaction 0 [volumeA], .advance 0 volumeC,
        .advance 0 volumeC, .advance 0 volumeC, .advance 0 volumeC, .advance 0 volumeC,
        .mutate (.log 2), .mutate (.update 2)])
    freshHaystack (idle_freshHaystack _) (by decide +kernel)
  refine ⟨t,ht,fun h => ?_⟩
  have hread := (h.2 abcManifestDigest r hr hlive).1
  simp [readRegion, hgone] at hread

end BackendGauntlet.ObjectStore
