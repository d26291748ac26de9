import BackendGauntlet.ObjectStoreHaystackVolumes
import BackendGauntlet.Transition

/-! One Haystack process after another over one directory; a crash may cut any operation short. -/
namespace BackendGauntlet.ObjectStore

open PyText Transition

structure Ram where
  index : NeedleIndex
  active : Option (VolumeId × ℕ)

/-- `Haystack._bootstrap_index`, with the effect of its checkpoint as a parameter. -/
def bootstrapWith (save : Disk → NeedleIndex → Disk) (disk : Disk) :
    Except ReadError (Disk × NeedleIndex) := do
  let index ← disk.durable
  if index.isEmpty && !disk.volumes.isEmpty then
    let index := rebuildFromVolumes disk.volumes
    return (save { disk with volumes := disk.volumes.mapValues truncateTorn } index,index)
  else if disk.snapshot.isNone then return (save disk index,index)
  else return (disk,index)

variable (save : Disk → NeedleIndex → Disk)

theorem bootstrapWith_cases {disk disk' : Disk}
    {index index' : NeedleIndex} (hd : disk.durable = .ok index)
    (h : bootstrapWith save disk = .ok (disk',index')) :
    (index.isEmpty = true ∧ index' = rebuildFromVolumes disk.volumes ∧
      disk' = save { disk with volumes := disk.volumes.mapValues truncateTorn } index') ∨
      (index' = index ∧ (disk' = save disk index ∨ disk' = disk)) := by
  simp only [bootstrapWith, hd, bind, Except.bind, pure, Except.pure] at h
  split_ifs at h with h1 h2
  · obtain ⟨hdisk,hindex⟩ := Prod.mk.inj (Except.ok.inj h)
    rw [Bool.and_eq_true] at h1
    refine Or.inl ⟨h1.1,hindex.symm,?_⟩
    rw [← hdisk, hindex]
  · obtain ⟨hdisk,hindex⟩ := Prod.mk.inj (Except.ok.inj h)
    exact Or.inr ⟨hindex.symm,Or.inl hdisk.symm⟩
  · obtain ⟨hdisk,hindex⟩ := Prod.mk.inj (Except.ok.inj h)
    exact Or.inr ⟨hindex.symm,Or.inr hdisk.symm⟩

theorem bootstrapWith_ok {disk : Disk} {index : NeedleIndex}
    (hd : disk.durable = .ok index) :
    ∃ disk' index', bootstrapWith save disk = .ok (disk',index') := by
  simp only [bootstrapWith, hd, bind, Except.bind, pure, Except.pure]
  split_ifs
  · exact ⟨_,_,rfl⟩
  · exact ⟨_,_,rfl⟩
  · exact ⟨_,_,rfl⟩

inductive Acked
  | commit (payload : Bytes)
  | remove
  | quarantine
deriving DecidableEq

structure HaystackState where
  disk : Disk
  ram : Option Ram
  acked : Dict Digest Acked

inductive HaystackAction
  | boot
  | bootTruncated (v : VolumeId)
  | bootRenamed
  | commit (d : Digest) (payload : Bytes) (fresh : VolumeId)
  | remove (d : Digest)
  | quarantine (d : Digest)
  | checkpoint
  | crash
  | crashVolume (d : Digest) (payload : Bytes) (fresh : VolumeId) (written : ℕ)
  | crashCommit (d : Digest) (payload : Bytes) (fresh : VolumeId) (written : ℕ)
  | crashRemove (d : Digest) (written : ℕ)
  | crashQuarantine (d : Digest) (written : ℕ)
  | crashRenamed

def flagStep (s : HaystackState) (ram : Ram) (op : Option LogOp) (d : Digest) (a : Acked) :
    HaystackState :=
  match op with
  | none => { s with acked := s.acked.set d a }
  | some op =>
    ⟨appendLog s.disk op (op.line.length+1),some { ram with index := op.apply ram.index },
      s.acked.set d a⟩

def flagCrash (s : HaystackState) (op : Option LogOp) (written : ℕ) : Option HaystackState :=
  op.map (fun op => { s with disk := appendLog s.disk op written, ram := none })

section
variable (maxVolumeSize : ℕ)

def upStep (s : HaystackState) (ram : Ram) : HaystackAction → Option HaystackState
  | .commit d payload fresh =>
    (appendNeedle maxVolumeSize ram.active s.disk.volumes d payload fresh
      (needleFrame d payload).length).map (fun p =>
        let op := LogOp.put d p.2
        ⟨appendLog { s.disk with volumes := p.1 } op (op.line.length+1),
          some ⟨op.apply ram.index,some (p.2.volumeId,p.2.payloadOffset+p.2.size)⟩,
          s.acked.set d (.commit payload)⟩)
  | .remove d => some (flagStep s ram (removeOp ram.index d) d .remove)
  | .quarantine d => some (flagStep s ram (quarantineOp ram.index d) d .quarantine)
  | .checkpoint => some { s with disk := ObjectStore.checkpoint s.disk ram.index }
  | .crash => some { s with ram := none }
  | .crashVolume d payload fresh written =>
    (appendNeedle maxVolumeSize ram.active s.disk.volumes d payload fresh written).map
      (fun p => { s with disk := { s.disk with volumes := p.1 }, ram := none })
  | .crashCommit d payload fresh written =>
    (appendNeedle maxVolumeSize ram.active s.disk.volumes d payload fresh
      (needleFrame d payload).length).map (fun p =>
        { s with
          disk := appendLog { s.disk with volumes := p.1 } (.put d p.2) written
          ram := none })
  | .crashRemove d written => flagCrash s (removeOp ram.index d) written
  | .crashQuarantine d written => flagCrash s (quarantineOp ram.index d) written
  | .crashRenamed => some { s with disk := writeSnapshot s.disk ram.index, ram := none }
  | _ => none

/-- The scan cuts torn tails, and the checkpoint of a boot may be cut short. -/
def downStep (s : HaystackState) : HaystackAction → Option HaystackState
  | .boot =>
    match bootstrapWith ObjectStore.checkpoint s.disk with
    | .ok (disk,index) => some { s with disk := disk, ram := some ⟨index,none⟩ }
    | .error _ => none
  | .bootTruncated v =>
    match s.disk.durable with
    | .ok index =>
      if index.isEmpty then
        some { s with disk := { s.disk with volumes := s.disk.volumes.modify v (truncateTorn v) } }
      else none
    | .error _ => none
  | .bootRenamed =>
    match bootstrapWith writeSnapshot s.disk with
    | .ok (disk,_) => some { s with disk := disk }
    | .error _ => none
  | _ => none

def haystackStep (s : HaystackState) (a : HaystackAction) : Option HaystackState :=
  match s.ram with
  | some ram => upStep maxVolumeSize s ram a
  | none => downStep s a

end

def newDirectory (s : HaystackState) : Prop :=
  s = ⟨⟨none,[],Dict.empty⟩,none,Dict.empty⟩

section
variable (maxVolumeSize : ℕ) (d : Digest)

/-- A crash leaves no complete record of what it cuts short on `d`, once `d` was acknowledged. -/
def noTrace (s : HaystackState) (op : LogOp) (written : ℕ) : Bool :=
  op.digest ≠ d || (s.acked.get d).isNone || written < op.line.length

/-- Nor does it leave a whole needle of `d` while the index has no row. -/
def noNeedle (s : HaystackState) (ram : Ram) (x : Digest) (payload : Bytes) (written : ℕ) : Bool :=
  x ≠ d || (s.acked.get d).isNone || written < (needleFrame x payload).length ||
    !ram.index.isEmpty

def upIntact (s : HaystackState) (ram : Ram) : HaystackAction → Bool
  | .commit _ _ _ => cleanEnd s.disk.log
  | .remove x => (removeOp ram.index x).isNone || cleanEnd s.disk.log
  | .quarantine x => (quarantineOp ram.index x).isNone || cleanEnd s.disk.log
  | .crashVolume x payload _ written => noNeedle d s ram x payload written
  | .crashCommit x payload fresh written =>
    cleanEnd s.disk.log && noNeedle d s ram x payload (needleFrame x payload).length &&
      (match appendNeedle maxVolumeSize ram.active s.disk.volumes x payload fresh
          (needleFrame x payload).length with
        | none => true
        | some p => noTrace d s (.put x p.2) written)
  | .crashRemove x written => cleanEnd s.disk.log && noTrace d s (.delete x) written
  | .crashQuarantine x written => cleanEnd s.disk.log && noTrace d s (.quarantine x) written
  | _ => true

def intact (s : HaystackState) (a : HaystackAction) : Bool :=
  match s.ram with
  | some ram => upIntact maxVolumeSize d s ram a
  | none => true

end

def Agrees (acked : Option Acked) (volumes : Volumes) (row : Option NeedleRecord) : Prop :=
  match acked with
  | none => True
  | some (.commit payload) =>
    ∃ r, row = some r ∧ r.isLive = true ∧ readRegion volumes r.locator = some payload ∧
      payload.length = r.locator.size
  | some _ => ∀ r, row = some r → r.isLive = false

end BackendGauntlet.ObjectStore
