import BackendGauntlet.ObjectStoreHaystackCompactionSafety
import BackendGauntlet.ObjectStoreHaystackCrash
import BackendGauntlet.ObjectStoreHaystackDurable

/-! Threads and compactions of one Haystack process after another, with crashes in between. -/
namespace BackendGauntlet.ObjectStore

open PyText Transition

/-- `lost` holds the mutations that a crash cut short, each with the time of the crash. -/
structure RebootState where
  threads : HaystackThreads
  up : Bool
  lost : List OpRecord

inductive RebootAction
  | run (a : HaystackThreadsAction)
  | crash
  | crashRenamed
  | boot
  | bootTruncated (v : VolumeId)
  | bootRenamed

def crashed (s : RebootState) (disk : Disk) : RebootState where
  threads :=
    ⟨{ s.threads.core with
        disk := disk
        index := Dict.empty
        active := none
        clock := s.threads.core.clock+1
        ops := s.threads.core.ops.filter (fun _ a => a.stage = .returned) },
      Dict.empty,Dict.empty⟩
  up := false
  lost := s.lost ++ (s.threads.core.ops.entries.filter (fun e => e.2.stage ≠ .returned)).map
    (fun e => { e.2 with stop := s.threads.core.clock })

def withDisk (s : RebootState) (disk : Disk) : RebootState :=
  { s with threads := { s.threads with core := { s.threads.core with disk := disk } } }

def booted (s : RebootState) (disk : Disk) (index : NeedleIndex) : RebootState where
  threads := { s.threads with core := { s.threads.core with disk := disk, index := index } }
  up := true
  lost := s.lost

/-- A checkpoint may be cut short between its rename and its truncation. -/
def rebootStep (payload : Digest → Bytes) (maxVolumeSize : ℕ) (s : RebootState) :
    RebootAction → Option RebootState
  | .run a =>
    if s.up then
      (haystackThreadsStep payload maxVolumeSize s.threads a).map (fun t => { s with threads := t })
    else none
  | .crash => if s.up then some (crashed s s.threads.core.disk) else none
  | .crashRenamed =>
    if s.up then some (crashed s (writeSnapshot s.threads.core.disk s.threads.core.index)) else none
  | .boot =>
    if s.up then none
    else
      match bootstrapWith checkpoint s.threads.core.disk with
      | .ok (disk,index) => some (booted s disk index)
      | .error _ => none
  | .bootTruncated v =>
    if s.up then none
    else
      match s.threads.core.disk.durable with
      | .ok index =>
        if index.isEmpty then
          some (withDisk s { s.threads.core.disk with
            volumes := s.threads.core.disk.volumes.modify v (truncateTorn v) })
        else none
      | .error _ => none
  | .bootRenamed =>
    if s.up then none
    else
      match bootstrapWith writeSnapshot s.threads.core.disk with
      | .ok (disk,_) => some (withDisk s disk)
      | .error _ => none

/-- A removal or quarantine that has reached the log: it has returned, or a crash took the
process before it could. -/
def Flagged (s : RebootState) (a : OpRecord) : Prop :=
  a.op.isPut = false ∧
    ((∃ i, s.threads.core.ops.get i = some a ∧ a.stage = .returned) ∨
      (a ∈ s.lost ∧ a.stage = .logged))

/-- A commit of the same digest had not ended, by return or by crash, when the mutation began. -/
def Recommitted (s : RebootState) (a : OpRecord) : Prop :=
  Excused s.threads.core.ops a ∨
    ∃ b ∈ s.lost, b.op.digest = a.op.digest ∧ b.op.isPut ≠ a.op.isPut ∧ a.start ≤ b.stop

def DeletedStay (s : RebootState) : Prop :=
  s.up = true → ∀ a, Flagged s a → ¬ Recommitted s a →
    ∀ r, s.threads.core.index.get a.op.digest = some r → r.isLive = false

def settledFlags (s : ThreadState) : Bool :=
  s.ops.entries.all (fun e => e.2.stage ≠ .logged || e.2.op.isPut)

/-- If the index on disk is empty, no volume has a whole needle of a removed digest. -/
def scanClean (s : RebootState) : Bool :=
  match s.threads.core.disk.durable with
  | .error _ => true
  | .ok index =>
    !index.isEmpty ||
      (s.threads.core.ops.entries.map Prod.snd ++ s.lost).all (fun a =>
        a.op.isPut || ((rebuildFromVolumes s.threads.core.disk.volumes).get a.op.digest).isNone)

/-- Checkpoints run when no flag is on its way, and boots that scan the volumes find no needle
of a removed digest. -/
def deletionsKept (s : RebootState) : RebootAction → Bool
  | .run (.mutate .checkpoint) => settledFlags s.threads.core
  | .run (.advance c _) =>
    match s.threads.compactors.get c with
    | some ⟨_,.swept _,_⟩ => settledFlags s.threads.core
    | _ => true
  | .crashRenamed => settledFlags s.threads.core
  | .boot => scanClean s
  | .bootRenamed => scanClean s
  | _ => true

def FirstProcess (payload : Digest → Bytes) (s : RebootState) : Prop :=
  IdleThreads payload s.threads ∧ s.up = true ∧ s.lost = []

end BackendGauntlet.ObjectStore
