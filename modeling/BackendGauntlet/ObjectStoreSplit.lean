import BackendGauntlet.ObjectStoreGcRace
import BackendGauntlet.ObjectStoreGcMark

/-! The split deployment: two processes over one data directory, each with a store of its own. -/
namespace BackendGauntlet.ObjectStore

/-- What both processes see: the hot tree, and the rows that `needles.json` and `needles.log`
amount to. -/
structure BlobDisk where
  hot : Dict Digest HotFile
  needles : Dict Digest Needle

def BlobDisk.has (disk : BlobDisk) (d : Digest) : Bool :=
  disk.hot.contains d || ((disk.needles.get d).map (fun n => !n.deleted)).getD false

structure StoreProcess where
  locations : Dict Digest BlobLocation
  needles : Dict Digest Needle

def rebuildLocations (disk : BlobDisk) : Dict Digest BlobLocation :=
  let files := disk.hot.keys.foldl (fun m d => m.set d .fileCas) Dict.empty
  let live := disk.needles.entries.filter (fun e => !e.2.deleted && !e.2.quarantined)
  live.foldl (fun m e => m.set e.1 .haystack) files

def openStore (disk : BlobDisk) : StoreProcess := ⟨rebuildLocations disk,disk.needles⟩

/-- The store of a process as the read path sees it; no scrubber runs in it. -/
def StoreProcess.view (p : StoreProcess) (disk : BlobDisk) : StoreState :=
  ⟨disk.hot,p.needles,p.locations,[],Dict.empty⟩

inductive CommitStage
  | staging
  | streamed (mtime : ℤ)
  | missed (mtime : ℤ)
  | published
deriving DecidableEq

structure SplitPut where
  bucket : Bucket
  key : Key
  version : NewVersion
  precondition : Precondition
  parts : List Digest
  stage : CommitStage

structure SplitHeld where
  carried : Option NewVersion
  row : ObjectMeta
  staged : Bool

inductive CollectPhase
  | buckets (todo : List Bucket)
  | rows (bucket : Bucket) (todo : List (Bucket × Key)) (rest : List Bucket)
  | tmp (todo : List (Bucket × Key)) (rest : List Bucket)
  | marking (todo : List ObjectMeta)
  | listing (cutoff : ℤ)
  | sweeping

structure Collection where
  phase : CollectPhase
  committed : List ObjectMeta
  inFlight : List ObjectMeta
  referenced : List Digest
  candidates : List Digest
  popped : Option (Digest × BlobLocation)

/-- `acked` is history: the acknowledged PUTs whose key was not deleted since. -/
structure SplitState where
  clock : ℤ
  disk : BlobDisk
  front : StoreProcess
  service : StoreProcess
  bucketDirs : List Bucket
  rows : Dict (Bucket × Key) ObjectMeta
  held : Dict (Bucket × Key) SplitHeld
  puts : Dict ℕ SplitPut
  collections : Dict ℕ Collection
  acked : List ((Bucket × Key) × NewVersion)

inductive SplitAction
  | tick (n : ℕ)
  | openFront
  | openService
  | putStart (i : ℕ) (bucket : Bucket) (key : Key) (version : NewVersion)
      (precondition : Precondition)
  | putStep (i : ℕ)
  | deleteLatest (bucket : Bucket) (key : Key)
  | deleteVersion (bucket : Bucket) (key : Key) (id : VersionId)
  | writeStep (bucket : Bucket) (key : Key)
  | gcStart (g : ℕ)
  | gcStep (g : ℕ)
  | gcExamine (g : ℕ) (d : Digest)

def SplitState.idle (s : SplitState) : Bool :=
  s.puts.isEmpty && s.held.isEmpty && s.collections.isEmpty

/-- A PUT is in flight from its first byte until its row is renamed into place. -/
def SplitState.putInFlight (s : SplitState) : Bool :=
  !s.puts.isEmpty || s.held.entries.any (fun e => e.2.carried.isSome)

def lockRow (s : SplitState) (i : ℕ) (p : SplitPut) : Option SplitState :=
  match s.held.get (p.bucket,p.key) with
  | some _ => none
  | none =>
    let current := s.rows.get (p.bucket,p.key)
    match p.precondition.check current with
    | .error _ => some { s with puts := s.puts.erase i }
    | .ok _ =>
      some { s with
        puts := s.puts.erase i
        held := s.held.set (p.bucket,p.key)
          ⟨some p.version,putRow current p.version s.clock,false⟩ }

def finishRow (s : SplitState) (bk : Bucket × Key) : Option SplitState :=
  match s.held.get bk with
  | none => none
  | some h =>
    if h.row.versions = [] then
      some { s with
        rows := s.rows.erase bk
        held := s.held.erase bk
        acked := s.acked.filter (fun e => e.1 ≠ bk) }
    else if h.staged then
      some { s with
        rows := s.rows.set bk h.row
        held := s.held.erase bk
        acked :=
          match h.carried with
          | some v => (bk,v) :: s.acked
          | none => s.acked.filter (fun e => e.1 ≠ bk) }
    else
      some { s with
        bucketDirs := bk.1 :: s.bucketDirs
        held := s.held.set bk { h with staged := true } }

/-- The tombstone goes to the shared log if this process has an undeleted row. -/
def serviceRemove (s : SplitState) (l : BlobLocation) (d : Digest) : SplitState :=
  match l with
  | .fileCas => { s with disk := { s.disk with hot := s.disk.hot.erase d } }
  | .haystack =>
    match s.service.needles.get d with
    | none => s
    | some n =>
      if n.deleted then s
      else { s with
        disk := { s.disk with
          needles := s.disk.needles.modify d (fun n => { n with deleted := true }) }
        service := { s.service with
          needles := s.service.needles.modify d (fun n => { n with deleted := true }) } }

section
variable (fromBytes : Bytes → Option Manifest) (payload : Digest → Bytes) (cfg : RaceConfig)

def uploadParts (v : NewVersion) : List Digest :=
  match v.blobKind with
  | .whole => [v.digest]
  | .manifest => listedChunks fromBytes payload v.digest ++ [v.digest]

def publishPart (s : SplitState) (d : Digest) (mtime : ℤ) : SplitState :=
  match chooseLocation cfg (payload d).length with
  | .fileCas =>
    { s with disk := { s.disk with hot := s.disk.hot.set d ⟨payload d,mtime⟩ } }
  | .haystack =>
    { s with
      disk := { s.disk with needles := s.disk.needles.set d ⟨payload d,false,false⟩ }
      front := { s.front with needles := s.front.needles.set d ⟨payload d,false,false⟩ } }

def commitPart (s : SplitState) (i : ℕ) (p : SplitPut) (d : Digest) (rest : List Digest) :
    SplitState :=
  match p.stage with
  | .staging => { s with puts := s.puts.set i { p with stage := .streamed s.clock } }
  | .streamed mtime =>
    if s.front.locations.contains d then
      { s with puts := s.puts.set i { p with parts := rest, stage := .staging } }
    else { s with puts := s.puts.set i { p with stage := .missed mtime } }
  | .missed mtime =>
    { publishPart payload cfg s d mtime with puts := s.puts.set i { p with stage := .published } }
  | .published =>
    { s with
      front := { s.front with
        locations := s.front.locations.set d (chooseLocation cfg (payload d).length) }
      puts := s.puts.set i { p with parts := rest, stage := .staging } }

def splitPutStep (s : SplitState) (i : ℕ) : Option SplitState :=
  match s.puts.get i with
  | none => none
  | some p =>
    match p.parts with
    | d :: rest => some (commitPart payload cfg s i p d rest)
    | [] => lockRow s i p

/-- One step of `Index.gc` in the index service, which opens manifests through its own map. -/
def collectStep (s : SplitState) (c : Collection) : SplitState × Option Collection :=
  match c.phase with
  | .buckets [] => (s,some { c with phase := .marking (c.committed ++ c.inFlight) })
  | .buckets (b :: rest) =>
    (s,some { c with phase := .rows b (s.rows.keys.filter (fun bk => bk.1 = b)) rest })
  | .rows b [] rest =>
    let listed := (s.held.entries.filter (fun e => e.1.1 = b && e.2.staged)).map Prod.fst
    (s,some { c with phase := .tmp listed rest })
  | .rows b (bk :: todo) rest =>
    (s,some { c with
      phase := .rows b todo rest
      committed := c.committed ++ (s.rows.get bk).toList })
  | .tmp [] rest => (s,some { c with phase := .buckets rest })
  | .tmp (bk :: todo) rest =>
    let found := ((s.held.get bk).filter SplitHeld.staged).map SplitHeld.row
    (s,some { c with phase := .tmp todo rest, inFlight := c.inFlight ++ found.toList })
  | .marking [] => (s,some { c with phase := .listing (s.clock-cfg.gcGrace) })
  | .marking (m :: todo) =>
    match markVersions fromBytes (s.service.view s.disk) c.referenced m.versions with
    | .error _ => (s,none)
    | .ok referenced => (s,some { c with phase := .marking todo, referenced := referenced })
  | .listing _ => (s,some { c with phase := .sweeping })
  | .sweeping =>
    match c.popped, c.candidates with
    | some (d,l), rest =>
      (serviceRemove s l d,some { c with popped := none, candidates := rest.tail })
    | none, [] => (s,none)
    | none, d :: rest =>
      match s.service.locations.get d with
      | none => (s,some { c with candidates := rest })
      | some l =>
        ({ s with service := { s.service with locations := s.service.locations.erase d } },
          some { c with popped := some (d,l) })

def splitGcStep (s : SplitState) (g : ℕ) : Option SplitState :=
  match s.collections.get g with
  | none => none
  | some c =>
    match collectStep fromBytes cfg s c with
    | (t,some c') => some { t with collections := s.collections.set g c' }
    | (t,none) => some { t with collections := s.collections.erase g }

def splitGcExamine (s : SplitState) (g : ℕ) (d : Digest) : Option SplitState :=
  match s.collections.get g with
  | none => none
  | some c =>
    match c.phase, s.disk.hot.get d with
    | .listing cutoff, some f =>
      if d ∈ c.referenced ∨ cutoff < f.mtime then some s
      else some { s with
        collections := s.collections.set g { c with candidates := c.candidates ++ [d] } }
    | _, _ => none

/-- The interleavings with no PUT in flight while a collection runs. A process is restarted
only between calls. -/
def splitStep (s : SplitState) : SplitAction → Option SplitState
  | .tick n => some { s with clock := s.clock+n }
  | .openFront => if s.idle then some { s with front := openStore s.disk } else none
  | .openService => if s.idle then some { s with service := openStore s.disk } else none
  | .putStart i bucket key version precondition =>
    if s.puts.contains i || !s.collections.isEmpty then none
    else some { s with
      puts := s.puts.set i
        ⟨bucket,key,version,precondition,uploadParts fromBytes payload version,.staging⟩ }
  | .putStep i => splitPutStep payload cfg s i
  | .deleteLatest bucket key =>
    if s.held.contains (bucket,key) then none
    else some { s with
      rows := s.rows.erase (bucket,key)
      acked := s.acked.filter (fun e => e.1 ≠ (bucket,key)) }
  | .deleteVersion bucket key id =>
    if s.held.contains (bucket,key) then none
    else
      match (s.rows.get (bucket,key)).bind (fun m => m.removeVersion id) with
      | none => none
      | some m' => some { s with held := s.held.set (bucket,key) ⟨none,m',false⟩ }
  | .writeStep bucket key => finishRow s (bucket,key)
  | .gcStart g =>
    if s.collections.contains g || s.putInFlight then none
    else some { s with
      collections := s.collections.set g ⟨.buckets s.bucketDirs,[],[],[],[],none⟩ }
  | .gcStep g => splitGcStep fromBytes cfg s g
  | .gcExamine g d => splitGcExamine s g d

def StoredVersion (disk : BlobDisk) (v : LiveVersion) : Prop :=
  ∀ d ∈ neededDigests fromBytes payload v, disk.has d = true

structure BlobsOnDisk (s : SplitState) : Prop where
  acked : ∀ e ∈ s.acked, StoredVersion fromBytes payload s.disk e.2
  rows : ∀ bk m, s.rows.get bk = some m → ∀ v ∈ m.versions.filterMap VersionEntry.asLive,
    StoredVersion fromBytes payload s.disk v

structure BothOpened (s : SplitState) : Prop where
  idle : s.idle = true
  front : s.front = openStore s.disk
  service : s.service = openStore s.disk
  hot : ∀ d f, s.disk.hot.get d = some f → f.content = payload d
  needles : ∀ d n, s.disk.needles.get d = some n → n.content = payload d
  blobs : BlobsOnDisk fromBytes payload s
  dirs : ∀ bk m, s.rows.get bk = some m → bk.1 ∈ s.bucketDirs
  noAcked : s.acked = []

/-- The front-end deduplicates only against blobs on disk, and the index service opens every
manifest it marks. -/
def mapsCurrent (s : SplitState) : SplitAction → Bool
  | .putStep i =>
    match s.puts.get i with
    | some ⟨_,_,_,_,d :: _,.streamed _⟩ => !s.front.locations.contains d || s.disk.has d
    | _ => true
  | .gcStep g =>
    match s.collections.get g with
    | some ⟨.marking (m :: _),_,_,_,_,_⟩ =>
      (m.versions.filterMap VersionEntry.asLive).all (fun v =>
        v.blobKind ≠ .manifest || ((s.service.view s.disk).openBlob v.digest).isOk)
    | _ => true
  | _ => true

end

end BackendGauntlet.ObjectStore
