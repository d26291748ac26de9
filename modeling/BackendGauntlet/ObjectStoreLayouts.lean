import BackendGauntlet.ObjectStoreHaystackCrash
import BackendGauntlet.ObjectStoreNeedles
import BackendGauntlet.Readers

/-! `Store` over its two backends, down to the bytes of the volumes. -/
namespace BackendGauntlet.ObjectStore

open Readers

inductive BlobLayoutKind
  | fileCas
  | haystack
  | hybrid
deriving DecidableEq

def BlobLayoutKind.packsSmall (k : BlobLayoutKind) : Bool := k ≠ .fileCas

def fitsInVolume (maxVolumeSize payloadLen : ℕ) : Bool :=
  needleHeaderLen+payloadLen ≤ max maxVolumeSize (needleHeaderLen+1)

def indexedDigests (index : NeedleIndex) : List Digest :=
  (index.entries.filter (fun e => e.2.isLive)).map Prod.fst

def badRange (start : ℕ) (stop : ℤ) (what : String) (length : ℕ) : OpError :=
  .app (.invalidRequest ("invalid range: start=" ++ toString start ++ " end=" ++ toString stop ++
    " " ++ what ++ "=" ++ toString length))

def requireReadable (index : NeedleIndex) (d : Digest) : Except OpError NeedleLocator :=
  match index.get d with
  | none => .error (.app .noSuchKey)
  | some r =>
    if r.deleted then .error (.app .noSuchKey)
    else if r.quarantined then .error (.app .integrityError)
    else .ok r.locator

/-- `objects` is FileCas; `disk`, `index` and `active` the Haystack. What is in `quarantine/` is
never read. -/
structure Store where
  policy : BlobLayoutKind
  maxVolumeSize : ℕ
  objects : Dict Digest Bytes
  disk : Disk
  index : NeedleIndex
  active : Option (VolumeId × ℕ)
  locations : Dict Digest BlobLocation
  -- the read gate; a set in the source, which only a restart empties
  quarantined : List Digest

namespace Store

/-- A digest in both backends is routed to the Haystack. -/
def rebuildLocations (objects : Dict Digest Bytes) (index : NeedleIndex) :
    Dict Digest BlobLocation :=
  (indexedDigests index).foldl (fun m d => m.set d .haystack)
    (objects.keys.foldl (fun m d => m.set d .fileCas) Dict.empty)

def boot (objects : Dict Digest Bytes) (disk : Disk) (policy : BlobLayoutKind)
    (maxVolumeSize : ℕ) : Except ReadError Store := do
  let (disk,index) ← bootstrapWith ObjectStore.checkpoint disk
  return ⟨policy,maxVolumeSize,objects,disk,index,none,rebuildLocations objects index,[]⟩

def chooseLocation (s : Store) (payloadLen : ℕ) : BlobLocation :=
  if s.policy.packsSmall && fitsInVolume s.maxVolumeSize payloadLen then .haystack else .fileCas

def logOp (s : Store) (op : LogOp) : Store :=
  { s with disk := appendLog s.disk op (op.line.length+1), index := op.apply s.index }

/-- `Haystack.remove` and `mark_quarantined`, which may find nothing to do. -/
def flag (s : Store) : Option LogOp → Store
  | none => s
  | some op => s.logOp op

def commitNeedle (s : Store) (d : Digest) (data : Bytes) (fresh : VolumeId) : Option Store :=
  (appendNeedle s.maxVolumeSize s.active s.disk.volumes d data fresh
    (needleFrame d data).length).map (fun p =>
      logOp { s with
        disk := { s.disk with volumes := p.1 }
        active := some (p.2.volumeId,p.2.payloadOffset+p.2.size) } (.put d p.2))

def commitTemp (s : Store) (d : Digest) (data : Bytes) (fresh : VolumeId) : Option Store :=
  -- the dedup check looks at the routes alone, not at the gate
  if s.locations.contains d then some s
  else
    match s.chooseLocation data.length with
    | .fileCas =>
      -- `publish_temp` replaces a file that a route no longer leads to
      some { s with
        objects := s.objects.set d data
        locations := s.locations.set d .fileCas }
    | .haystack =>
      (s.commitNeedle d data fresh).map (fun t =>
        { t with locations := s.locations.set d .haystack })

/-- The route goes first, then the bytes behind it. -/
def remove (s : Store) (d : Digest) : Store :=
  match s.locations.get d with
  | none => s
  | some .fileCas =>
    { s with
      locations := s.locations.erase d
      objects := s.objects.erase d }
  | some .haystack => flag { s with locations := s.locations.erase d } (removeOp s.index d)

def openNeedleRange (s : Store) (d : Digest) (start : ℕ) (stop : ℤ) :
    Except OpError (Window ℕ) := do
  let l ← requireReadable s.index d
  if stop < start ∨ (l.size : ℤ) ≤ stop then .error (badRange start stop "needle_size" l.size)
  else
    match s.disk.volumes.get l.volumeId with
    | none => .error .osError
    | some file => .ok ⟨file.drop (l.payloadOffset+start),(stop-start+1).toNat⟩

def openNeedle (s : Store) (d : Digest) : Except OpError (Window ℕ) := do
  let l ← requireReadable s.index d
  -- the range from 0 to -1 when the needle is empty
  s.openNeedleRange d 0 (l.size-1)

def openBlob (s : Store) (d : Digest) : Except OpError (Window ℕ) :=
  if d ∈ s.quarantined then .error (.app .integrityError)
  else
    match s.locations.get d with
    | none => .error (.app .noSuchKey)
    | some .haystack => s.openNeedle d
    | some .fileCas =>
      match s.objects.get d with
      | none => .error (.app .noSuchKey)
      | some file => .ok ⟨file,file.length⟩

def openBlobRange (s : Store) (d : Digest) (start : ℕ) (stop : ℤ) : Except OpError (Window ℕ) :=
  if d ∈ s.quarantined then .error (.app .integrityError)
  else
    match s.locations.get d with
    | none => .error (.app .noSuchKey)
    | some .haystack => s.openNeedleRange d start stop
    | some .fileCas =>
      match s.objects.get d with
      | none => .error (.app .noSuchKey)
      | some file =>
        if stop < start ∨ (file.length : ℤ) ≤ stop then
          .error (badRange start stop "file_len" file.length)
        else .ok ⟨file.drop start,(stop-start+1).toNat⟩

/-- The end of `_compact_volume`: the rows are moved and swept, the index saved, and the old
volume unlinked. -/
def retire (s : Store) (old : VolumeId) (moved : List (Digest × NeedleLocator)) : Store :=
  let index := dropVolumeRows (remapRows s.index moved) old
  let disk := ObjectStore.checkpoint s.disk index
  { s with disk := { disk with volumes := disk.volumes.erase old }, index := index }

/-- `Haystack._compact_volume`, with a fresh id. A copy that fails leaves the volume sealed. -/
def compactVolume (s : Store) (old fresh : VolumeId) :
    Option (Store × Except OpError (List Digest)) :=
  -- no commit may append to a volume that is about to be unlinked
  let sealed := { s with active := s.active.filter (fun a => a.1 ≠ old) }
  match liveIn s.index old with
  | [] => some (sealed.retire old [],.ok (volumeDigests s.index old))
  | live =>
    match s.disk.volumes.get old with
    | none => some (sealed,.error .osError)
    | some src =>
      if s.disk.volumes.contains fresh then none
      else
        match copyNeedles src fresh live 0 with
        | .error e => some (sealed,.error e)
        | .ok (out,moved) =>
          some (retire { sealed with
              disk := { s.disk with volumes := s.disk.volumes.set fresh out } } old moved,
            .ok (volumeDigests (remapRows s.index moved) old))

def compaction (s : Store) : List (VolumeId × VolumeId) →
    Option (Store × Except OpError (List Digest))
  | [] => some (s,.ok [])
  | (old,fresh) :: todo =>
    match s.compactVolume old fresh with
    | none => none
    | some (t,.error e) => some (t,.error e)
    | some (t,.ok dropped) =>
      (t.compaction todo).map (fun p => (p.1,p.2.map (fun more => dropped ++ more)))

/-- After a pass that went through, the dropped digests leave the map. -/
def compactHaystack (s : Store) (todo : List (VolumeId × VolumeId)) : Option Store :=
  (s.compaction todo).map (fun p =>
    match p.2 with
    | .error _ => p.1
    -- popped whichever backend the route leads to
    | .ok dropped => { p.1 with locations := dropped.foldl (fun m d => m.erase d) p.1.locations })

section
variable (hash : Bytes → Digest)

def quarantineBlob (s : Store) (d : Digest) : Store :=
  { s with
    quarantined := s.quarantined ++ [d]
    locations := s.locations.erase d
    objects := s.objects.erase d }

def examinedFiles (s : Store) : List (Digest × Bytes) :=
  s.objects.entries.filter (fun e => e.1 ∉ s.quarantined)

def scrubFileCas (s : Store) : Store × ℕ :=
  (((s.examinedFiles.filter (fun e => hash e.2 ≠ e.1)).map Prod.fst).foldl quarantineBlob s,
    s.examinedFiles.length)

def needlesByVolume (index : NeedleIndex) : List (Digest × NeedleLocator) :=
  let live := (index.entries.filter (fun e => e.2.isLive)).map (fun e => (e.1,e.2.locator))
  (live.map (fun e => e.2.volumeId)).eraseDups.flatMap (fun v =>
    live.filter (fun e => e.2.volumeId = v))

def mismatched (volumes : Volumes) (e : Digest × NeedleLocator) : Bool :=
  match readRegion volumes e.2 with
  | none => false
  -- a slice of a file that was cut is shorter than the row says
  | some payload => payload.length < e.2.size || hash payload ≠ e.1

/-- `Haystack.scrub_once`, with how many needles it has examined. A volume that is gone is
passed over. -/
def scrubHaystack (s : Store) : Store × ℕ :=
  let needles := (needlesByVolume s.index).filter
    (fun e => s.disk.volumes.contains e.2.volumeId)
  ((needles.filter (mismatched hash s.disk.volumes)).foldl
      (fun s e => s.flag (quarantineOp s.index e.1)) s,
    needles.length)

def haystackQuarantined (s : Store) : List Digest :=
  (s.locations.entries.filter (fun e => e.2 = .haystack && e.1 ∉ indexedDigests s.index)).map
    Prod.fst

def mirror (s : Store) : Store :=
  s.haystackQuarantined.foldl (fun s d =>
    { s with
      quarantined := s.quarantined ++ [d]
      locations := s.locations.erase d }) s

def scrubOnce (s : Store) : Store × ℕ :=
  let files := s.scrubFileCas hash
  let needles := files.1.scrubHaystack hash
  -- a row that was flagged is no longer indexed, and so its route is found by the mirror
  (needles.1.mirror,files.2+needles.2)

end

end Store

/-- Besides the operations: a restart, and the decay of a file or of a needle's payload. -/
inductive StoreAction
  | commit (data : Bytes) (fresh : VolumeId)
  | remove (d : Digest)
  | compact (todo : List (VolumeId × VolumeId))
  | checkpoint
  | scrub
  | reopen (policy : BlobLayoutKind) (maxVolumeSize : ℕ)
  | rotFile (d : Digest) (bytes : Bytes)
  | rotNeedle (d : Digest) (l : NeedleLocator) (bytes : Bytes)

def rotVolume (d : Digest) (l : NeedleLocator) (bytes : Bytes) (volumes : Volumes) :
    Option Volumes :=
  match volumes.get l.volumeId with
  | none => none
  | some file =>
    if (d,l) ∈ (scanNeedles l.volumeId file.length 0 file).1 ∧ bytes.length = l.size then
      some (volumes.set l.volumeId (writeAt file l.payloadOffset bytes))
    else none

/-- A commit names the blob by the hash of its bytes. -/
def storeStep (hash : Bytes → Digest) (s : Store) : StoreAction → Option Store
  | .commit data fresh => s.commitTemp (hash data) data fresh
  | .remove d => some (s.remove d)
  | .compact todo =>
    if isDirtyOrder (todo.map Prod.fst) s.index then s.compactHaystack todo else none
  | .checkpoint => some { s with disk := ObjectStore.checkpoint s.disk s.index }
  | .scrub => some (s.scrubOnce hash).1
  | .reopen policy maxVolumeSize => (Store.boot s.objects s.disk policy maxVolumeSize).toOption
  | .rotFile d bytes =>
    if s.objects.contains d then some { s with objects := s.objects.set d bytes } else none
  | .rotNeedle d l bytes =>
    (rotVolume d l bytes s.disk.volumes).map (fun volumes =>
      { s with disk := { s.disk with volumes := volumes } })

def newStore (s : Store) : Prop :=
  ∃ policy maxVolumeSize, Store.boot Dict.empty ⟨none,[],Dict.empty⟩ policy maxVolumeSize = .ok s

section
open PyText List

/-! The paths of FileCas, each as the tuple of its components. -/

def shardWidth : ℕ := 2

/-- `path.relative_to(root)`; it raises `ValueError` for a path outside the root. -/
def relativeTo (root path : List Text) : Option (List Text) :=
  if path.take root.length = root then some (path.drop root.length) else none

def blobPath (objectsRoot : List Text) (d : Digest) : List Text :=
  objectsRoot ++ [d.text.take 2,(d.text.drop 2).take 2,d.text]

def digestFromPath (objectsRoot path : List Text) : Option Digest :=
  match relativeTo objectsRoot path with
  | some [shardA,shardB,name] =>
    if shardA.length ≠ shardWidth ∨ shardB.length ≠ shardWidth then none
    else if (shardA ++ shardB).isPrefixOf name then (Digest.new name).toOption
    else none
  | _ => none

theorem Digest.new_eq_ok {name : Text} {d : Digest} (h : Digest.new name = .ok d) :
    d.text = name.map lowerHex := by
  unfold Digest.new at h
  split at h
  · cases h
  · rw [← Except.ok.inj h]

theorem digestFromPath_eq_some {root path : List Text} {d : Digest} :
    digestFromPath root path = some d ↔ ∃ name, Digest.new name = .ok d ∧
      path = root ++ [name.take 2,(name.drop 2).take 2,name] := by
  constructor
  · intro h
    unfold digestFromPath relativeTo at h
    split_ifs at h with hroot
    split at h
    · rename_i a b name hparts
      split_ifs at h with hwidth hname
      have hnew : Digest.new name = .ok d := by
        cases hd : Digest.new name with
        | error e => simp [hd, Except.toOption] at h
        | ok d' => simpa [hd, Except.toOption] using h
      -- the shards are the first four characters of the name
      obtain ⟨t,rfl⟩ := isPrefixOf_iff_prefix.mp hname
      simp only [shardWidth, ne_eq, not_or, not_not] at hwidth
      refine ⟨a ++ b ++ t,hnew,?_⟩
      rw [← take_append_drop root.length path, hroot, Option.some.inj hparts]
      simp [hwidth.1, hwidth.2]
    · cases h
  · rintro ⟨name,hnew,rfl⟩
    have hlen : name.length = 64 := by
      rw [← d.length_text, Digest.new_eq_ok hnew, length_map]
    have hname : (name.take 2 ++ (name.drop 2).take 2).isPrefixOf name = true := by
      apply isPrefixOf_iff_prefix.mpr
      rw [← take_add]
      exact take_prefix _ _
    simp [digestFromPath, relativeTo, shardWidth, hlen, hname, hnew, Except.toOption]

/-- The inverse of `blobPath`, except at a sharded name of 64 hexadecimal digits that are not all in
lower case. -/
theorem digest_from_path_inverts_iff (objectsRoot path : List Text) :
    (∀ d, digestFromPath objectsRoot path = some d ↔ path = blobPath objectsRoot d) ↔
      ∀ name, Digest.validate name = .ok () →
        path = objectsRoot ++ [name.take 2,(name.drop 2).take 2,name] →
          name.map lowerHex = name := by
  constructor
  · intro h name hvalid hpath
    obtain ⟨d,hd⟩ : ∃ d, Digest.new name = .ok d := by
      unfold Digest.new
      split
      · rename_i e herror
        rw [hvalid] at herror
        cases herror
      · exact ⟨_,rfl⟩
    have hread := (h d).mp (digestFromPath_eq_some.mpr ⟨name,hd,hpath⟩)
    rw [hpath, blobPath, append_cancel_left_eq] at hread
    simp only [cons.injEq, and_true] at hread
    rw [← Digest.new_eq_ok hd, hread.2.2]
  · intro h d
    rw [digestFromPath_eq_some]
    constructor
    · rintro ⟨name,hnew,hpath⟩
      have hvalid : Digest.validate name = .ok () := by
        unfold Digest.new at hnew
        split at hnew
        · cases hnew
        · assumption
      rw [blobPath, Digest.new_eq_ok hnew, h name hvalid hpath, hpath]
    · rintro rfl
      exact ⟨d.text,d.new_text,rfl⟩

def photosRoot : List Text := ["/".toList,"data".toList,"objects".toList]

/-- A file whose name is in upper case is taken for the blob, which has another path. -/
theorem digest_from_path_upper_case :
    let path := photosRoot ++ ["BA".toList,"78".toList,
      "BA7816BF8F01CFEA414140DE5DAE2223B00361A396177A9CB410FF61F20015AD".toList]
    digestFromPath photosRoot path = some abcDigest ∧ path ≠ blobPath photosRoot abcDigest := by
  decide +kernel

end

end BackendGauntlet.ObjectStore
