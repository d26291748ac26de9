import BackendGauntlet.Dict
import BackendGauntlet.Json
import BackendGauntlet.ObjectStoreObjects

/-! Packed volumes: the framed needles, their index, and its snapshot and log in ASCII. -/
namespace BackendGauntlet.ObjectStore

open PyText

def isUuidChar (i : ℕ) (c : Char) : Bool :=
  if i ∈ [8, 13, 18, 23] then c = '-'
  else (48 ≤ c.toNat && c.toNat ≤ 57) || (97 ≤ c.toNat && c.toNat ≤ 102)

structure VolumeId where
  text : Text
  valid : text.length = 36 ∧ text.zipIdx.all (fun p => isUuidChar p.2 p.1) = true
deriving DecidableEq

def offsetLimit : ℕ := 2^63

structure NeedleLocator where
  volumeId : VolumeId
  payloadOffset : ℕ
  size : ℕ
  inRange : payloadOffset+size < offsetLimit
deriving DecidableEq

structure NeedleRecord where
  locator : NeedleLocator
  deleted : Bool
  quarantined : Bool
deriving DecidableEq

def NeedleRecord.isLive (r : NeedleRecord) : Bool := !r.deleted && !r.quarantined

abbrev NeedleIndex := Dict Digest NeedleRecord

inductive LogOp
  | put (digest : Digest) (locator : NeedleLocator)
  | delete (digest : Digest)
  | quarantine (digest : Digest)
deriving DecidableEq

namespace LogOp

def digest : LogOp → Digest
  | .put d _ => d
  | .delete d => d
  | .quarantine d => d

def json : LogOp → Json
  | .put d l =>
    .obj [("op".toList,.str "put".toList), ("digest".toList,.str d.text),
      ("volume_id".toList,.str l.volumeId.text), ("offset".toList,.num l.payloadOffset),
      ("size".toList,.num l.size)]
  | .delete d => .obj [("op".toList,.str "delete".toList), ("digest".toList,.str d.text)]
  | .quarantine d => .obj [("op".toList,.str "quarantine".toList), ("digest".toList,.str d.text)]

def line (op : LogOp) : Text := op.json.dumps none

def apply (index : NeedleIndex) : LogOp → NeedleIndex
  | .put d l => index.set d ⟨l,false,false⟩
  | .delete d => index.modify d (fun r => { r with deleted := true })
  | .quarantine d => index.modify d (fun r => { r with quarantined := true })

end LogOp

inductive ReadError
  | unreadable
  | app (e : AppError)
  | attributeError
deriving DecidableEq

def readField (j : Json) (key : String) : Except ReadError Json :=
  match j.get key.toList with
  | none => .error .unreadable
  | some v => .ok v

def readDigest : Json → Except ReadError Digest
  | .str s =>
    match Digest.new s with
    | .error e => .error (.app e)
    | .ok d => .ok d
  | _ => .error .unreadable

/-- The locator of a row. Values that no writer of the files produces count as unreadable. -/
def readLocator (volumeId offset size : Json) : Except ReadError NeedleLocator :=
  match volumeId, offset, size with
  | .str v, .num o, .num n =>
    if hv : v.length = 36 ∧ v.zipIdx.all (fun p => isUuidChar p.2 p.1) = true then
      if hr : 0 ≤ o ∧ 0 ≤ n ∧ o.toNat+n.toNat < offsetLimit then
        .ok ⟨⟨v,hv⟩,o.toNat,n.toNat,hr.2.2⟩
      else .error .unreadable
    else .error .unreadable
  | _, _, _ => .error .unreadable

def applyLogOp (op : Json) (index : NeedleIndex) : Except ReadError NeedleIndex := do
  let kind ← readField op "op"
  let digest ← readDigest (← readField op "digest")
  match kind with
  | .str k =>
    if k = "put".toList then
      let locator ← readLocator (← readField op "volume_id") (← readField op "offset")
        (← readField op "size")
      return index.set digest ⟨locator,false,false⟩
    else if k = "delete".toList then
      return index.modify digest (fun r => { r with deleted := true })
    else if k = "quarantine".toList then
      return index.modify digest (fun r => { r with quarantined := true })
    else throw .unreadable
  | _ => throw .unreadable

/-- `Haystack._replay_log_into`: the first unreadable line ends it. -/
def replayLines : List Text → NeedleIndex → Except ReadError NeedleIndex
  | [], index => .ok index
  | line :: lines, index =>
    let stripped := strip line
    if stripped = [] then replayLines lines index
    else
      match Json.loads stripped with
      | none => .ok index
      | some op =>
        match applyLogOp op index with
        | .ok index => replayLines lines index
        | .error .unreadable => .ok index
        | .error e => .error e

def replayLog (log : Text) (index : NeedleIndex) : Except ReadError NeedleIndex :=
  replayLines (splitChar '\n' log) index

def indexVersion : ℤ := 3

def entryJson (e : Digest × NeedleRecord) : Json :=
  .obj [("digest".toList,.str e.1.text), ("volume_id".toList,.str e.2.locator.volumeId.text),
    ("offset".toList,.num e.2.locator.payloadOffset), ("size".toList,.num e.2.locator.size),
    ("deleted".toList,.bool e.2.deleted), ("quarantined".toList,.bool e.2.quarantined)]

def snapshotJson (index : NeedleIndex) : Json :=
  .obj [("version".toList,.num indexVersion), ("entries".toList,.arr (index.entries.map entryJson))]

def snapshotText (index : NeedleIndex) : Text := (snapshotJson index).dumps (some 2)

def readFlag (entry : Json) (key : String) : Except ReadError Bool :=
  match entry.get key.toList with
  | none => .ok false
  | some (.bool b) => .ok b
  | some _ => .error .unreadable

def readEntry (entry : Json) : Except ReadError (Digest × NeedleRecord) := do
  let digest ← readDigest (← readField entry "digest")
  let locator ← readLocator (← readField entry "volume_id") (← readField entry "offset")
    (← readField entry "size")
  return (digest,⟨locator,← readFlag entry "deleted",← readFlag entry "quarantined"⟩)

def readEntries : List Json → NeedleIndex → Except ReadError NeedleIndex
  | [], index => .ok index
  | entry :: entries, index => do
    let (digest,record) ← readEntry entry
    readEntries entries (index.set digest record)

def readSnapshot (text : Text) : Except ReadError NeedleIndex :=
  match Json.loads text with
  | none => .error .unreadable
  | some (.obj fields) => do
    match (Json.obj fields).get "version".toList with
    | some (.num v) => if v ≠ indexVersion then throw .unreadable
    | _ => throw .unreadable
    match ← readField (.obj fields) "entries" with
    | .arr entries => readEntries entries Dict.empty
    | _ => throw .unreadable
  | some _ => .error .attributeError

/-- A missing or unreadable file is empty. -/
def loadSnapshot : Option Text → Except ReadError NeedleIndex
  | none => .ok Dict.empty
  | some text =>
    match readSnapshot text with
    | .error .unreadable => .ok Dict.empty
    | r => r

def needleHeaderLen : ℕ := digestLen+8

def packBytes : ℕ → ℕ → Bytes
  | 0, _ => []
  | k+1, n => n%256 :: packBytes k (n/256)

def packSize (n : ℕ) : Bytes := packBytes 8 n

def unpackSize (bs : Bytes) : ℕ := bs.foldr (fun b n => b+256*n) 0

def needleFrame (d : Digest) (payload : Bytes) : Bytes :=
  d.text.map Char.toNat ++ (packSize payload.length ++ payload)

def headerDigest (bs : Bytes) : Option Digest :=
  if bs.all (fun b => b < 128) then (Digest.new (bs.map Char.ofNat)).toOption else none

def scanNeedles (v : VolumeId) : ℕ → ℕ → Bytes → List (Digest × NeedleLocator) × ℕ
  | 0, position, _ => ([],position)
  | fuel+1, position, rest =>
    if rest.length < needleHeaderLen then ([],position)
    else
      match headerDigest (rest.take digestLen) with
      | none => ([],position)
      | some d =>
        let size := unpackSize ((rest.drop digestLen).take 8)
        if rest.length < needleHeaderLen+size then ([],position)
        else if hr : position+needleHeaderLen+size < offsetLimit then
          let (needles,stop) := scanNeedles v fuel (position+needleHeaderLen+size)
            (rest.drop (needleHeaderLen+size))
          ((d,⟨v,position+needleHeaderLen,size,hr⟩) :: needles,stop)
        else ([],position)

def scanVolume (v : VolumeId) (file : Bytes) (index : NeedleIndex) : NeedleIndex :=
  (scanNeedles v file.length 0 file).1.foldl (fun m e => m.set e.1 ⟨e.2,false,false⟩) index

def truncateTorn (v : VolumeId) (file : Bytes) : Bytes :=
  file.take (scanNeedles v file.length 0 file).2

abbrev Volumes := Dict VolumeId Bytes

/-- `Haystack._rebuild_from_volumes`, in the order of the file names. -/
def rebuildFromVolumes (volumes : Volumes) : NeedleIndex :=
  (volumes.entries.insertionSort (fun a b => leText a.1.text b.1.text = true)).foldl
    (fun m e => scanVolume e.1 e.2 m) Dict.empty

def readRegion (volumes : Volumes) (l : NeedleLocator) : Option Bytes :=
  (volumes.get l.volumeId).map (fun file => slice file l.payloadOffset l.size)

/-- The directory `volumes/`; a missing log reads as an empty one. -/
structure Disk where
  snapshot : Option Text
  log : Text
  volumes : Volumes

def Disk.durable (disk : Disk) : Except ReadError NeedleIndex := do
  replayLog disk.log (← loadSnapshot disk.snapshot)

/-- The first half of `checkpoint`: the snapshot is renamed into place. -/
def writeSnapshot (disk : Disk) (index : NeedleIndex) : Disk :=
  { disk with snapshot := some (snapshotText index) }

def checkpoint (disk : Disk) (index : NeedleIndex) : Disk :=
  { writeSnapshot disk index with log := [] }

def writeAt (file : Bytes) (position : ℕ) (bytes : Bytes) : Bytes :=
  file.take position ++ (bytes ++ file.drop (position+bytes.length))

/-- The id of a new volume is that of no other file. -/
def ensureActive (maxVolumeSize : ℕ) (active : Option (VolumeId × ℕ)) (volumes : Volumes)
    (framed : ℕ) (fresh : VolumeId) : Option (VolumeId × ℕ × Volumes) :=
  match active.filter (fun a => a.2+framed ≤ max maxVolumeSize (needleHeaderLen+1)) with
  | some (v,next) => some (v,next,volumes)
  | none => if volumes.contains fresh then none else some (fresh,0,volumes.set fresh [])

/-- The volume half of `Haystack.commit_temp`, of which `written` bytes reach the file. -/
def appendNeedle (maxVolumeSize : ℕ) (active : Option (VolumeId × ℕ)) (volumes : Volumes)
    (d : Digest) (payload : Bytes) (fresh : VolumeId) (written : ℕ) :
    Option (Volumes × NeedleLocator) :=
  match ensureActive maxVolumeSize active volumes (needleFrame d payload).length fresh with
  | none => none
  | some (v,start,volumes) =>
    if hr : start+needleHeaderLen+payload.length < offsetLimit then
      some (volumes.modify v (fun file =>
        writeAt file start ((needleFrame d payload).take written)),
        ⟨v,start+needleHeaderLen,payload.length,hr⟩)
    else none

def removeOp (index : NeedleIndex) (d : Digest) : Option LogOp :=
  match index.get d with
  | none => none
  | some r => if r.deleted then none else some (.delete d)

def quarantineOp (index : NeedleIndex) (d : Digest) : Option LogOp :=
  match index.get d with
  | none => none
  | some r => if r.quarantined then none else some (.quarantine d)

def appendLog (disk : Disk) (op : LogOp) (written : ℕ) : Disk :=
  { disk with log := disk.log ++ (op.line ++ ['\n']).take written }

end BackendGauntlet.ObjectStore
