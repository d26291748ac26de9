import BackendGauntlet.ObjectStoreStore
import BackendGauntlet.ObjectStoreHaystack
import BackendGauntlet.Transition

/-! Whole-object PUTs, deletes and collections as interleaved steps, each one effect. -/
namespace BackendGauntlet.ObjectStore

open PyText

structure RaceConfig where
  packsSmall : Bool
  maxVolumeSize : ℕ
  gcGrace : ℤ

def chooseLocation (cfg : RaceConfig) (payloadLen : ℕ) : BlobLocation :=
  if cfg.packsSmall && needleHeaderLen+payloadLen ≤ max cfg.maxVolumeSize (needleHeaderLen+1)
  then .haystack else .fileCas

inductive PutStage
  | streamed
  | missed
  | published
  | committed
deriving DecidableEq

/-- A PUT whose body is in a temp file; `tempMtime` is the time of its last write. -/
structure Put where
  bucket : Bucket
  key : Key
  digest : Digest
  etag : Text
  contentType : Text
  content : Bytes
  precondition : Precondition
  tempMtime : ℤ
  stage : PutStage
deriving DecidableEq

def Put.version (p : Put) : NewVersion :=
  ⟨p.digest,p.etag,p.content.length,p.contentType,.whole⟩

structure Held where
  carried : Option Digest
  row : ObjectMeta
  staged : Bool
deriving DecidableEq

inductive GcPhase
  | buckets
  | rows (bucket : Bucket)
  | tmp
  | listing (cutoff : ℤ)
  | sweeping
deriving DecidableEq

/-- `overlap` is history: the digests of PUTs past their dedup check and not yet indexed at some
moment. -/
structure Gc where
  phase : GcPhase
  bucketsTodo : List Bucket
  rowsTodo : List (Bucket × Key)
  tmpTodo : List (Bucket × Key)
  referenced : List Digest
  candidates : List Digest
  popped : Option (Digest × BlobLocation)
  overlap : List Digest
deriving DecidableEq

structure RaceState where
  clock : ℤ
  store : StoreState
  bucketDirs : List Bucket
  rows : Dict (Bucket × Key) ObjectMeta
  held : Dict (Bucket × Key) Held
  puts : Dict ℕ Put
  gcs : Dict ℕ Gc

inductive RaceAction
  | tick (n : ℕ)
  | putStart (p : ℕ) (bucket : Bucket) (key : Key) (digest : Digest) (etag contentType : Text)
      (content : Bytes) (precondition : Precondition)
  | putStep (p : ℕ)
  | deleteLatest (bucket : Bucket) (key : Key)
  | deleteVersion (bucket : Bucket) (key : Key) (id : VersionId)
  | writeStep (bucket : Bucket) (key : Key)
  | gcStart (g : ℕ)
  | gcStep (g : ℕ)
  | gcExamine (g : ℕ) (d : Digest)

def publish (s : StoreState) (l : BlobLocation) (p : Put) : StoreState :=
  match l with
  | .fileCas => { s with hot := s.hot.set p.digest ⟨p.content,p.tempMtime⟩ }
  | .haystack => { s with needles := s.needles.set p.digest ⟨p.content,false,false⟩ }

def backendRemove (s : StoreState) (l : BlobLocation) (d : Digest) : StoreState :=
  match l with
  | .fileCas => { s with hot := s.hot.erase d }
  | .haystack => { s with needles := s.needles.modify d (fun n => { n with deleted := true }) }

def inFlightDigests (s : RaceState) : List Digest :=
  (s.puts.entries.filter (fun e => e.2.stage ≠ .streamed)).map (fun e => e.2.digest) ++
    s.held.entries.filterMap (fun e => e.2.carried)

/-- The dedup check of `Store.commit_temp`, seen by every collection under way. -/
def putCheck (s : RaceState) (i : ℕ) (p : Put) : RaceState :=
  { s with
    puts := s.puts.set i
      { p with stage := if s.store.contains p.digest then .committed else .missed }
    gcs := s.gcs.mapValues (fun _ c => { c with overlap := p.digest :: c.overlap }) }

def putLock (s : RaceState) (i : ℕ) (p : Put) : Option RaceState :=
  match s.held.get (p.bucket,p.key) with
  | some _ => none
  | none =>
    let current := s.rows.get (p.bucket,p.key)
    match p.precondition.check current with
    | .error _ => some { s with puts := s.puts.erase i }
    | .ok _ =>
      some { s with
        puts := s.puts.erase i
        held := s.held.set (p.bucket,p.key) ⟨some p.digest,putRow current p.version s.clock,false⟩ }

section
variable (cfg : RaceConfig)

def putStep (s : RaceState) (i : ℕ) : Option RaceState :=
  match s.puts.get i with
  | none => none
  | some p =>
    match p.stage with
    | .streamed => some (putCheck s i p)
    | .missed =>
      some { s with
        store := publish s.store (chooseLocation cfg p.content.length) p
        puts := s.puts.set i { p with stage := .published } }
    | .published =>
      some { s with
        store := { s.store with
          locations := s.store.locations.set p.digest (chooseLocation cfg p.content.length) }
        puts := s.puts.set i { p with stage := .committed } }
    | .committed => putLock s i p

def writeStep (s : RaceState) (bk : Bucket × Key) : Option RaceState :=
  match s.held.get bk with
  | none => none
  | some h =>
    if h.row.versions = [] then
      some { s with rows := s.rows.erase bk, held := s.held.erase bk }
    else if h.staged then
      some { s with rows := s.rows.set bk h.row, held := s.held.erase bk }
    else
      some { s with
        bucketDirs := bk.1 :: s.bucketDirs
        held := s.held.set bk { h with staged := true } }

def gcAdvance (s : RaceState) (c : Gc) : Option (RaceState × Option Gc) :=
  match c.phase with
  | .buckets =>
    match c.bucketsTodo with
    | b :: rest =>
      some (s,some { c with
        phase := .rows b
        bucketsTodo := rest
        rowsTodo := s.rows.keys.filter (fun bk => bk.1 = b) })
    | [] => some (s,some { c with phase := .listing (s.clock-cfg.gcGrace) })
  | .rows b =>
    match c.rowsTodo with
    | bk :: rest =>
      let found := ((s.rows.get bk).map ObjectMeta.digests).getD []
      some (s,some { c with rowsTodo := rest, referenced := found ++ c.referenced })
    | [] =>
      some (s,some { c with
        phase := .tmp
        tmpTodo := (s.held.entries.filter (fun e => e.1.1 = b && e.2.staged)).map Prod.fst })
  | .tmp =>
    match c.tmpTodo with
    | bk :: rest =>
      -- A row renamed away since the listing is no longer there to be read.
      let found := (((s.held.get bk).filter Held.staged).map (fun h => h.row.digests)).getD []
      some (s,some { c with tmpTodo := rest, referenced := found ++ c.referenced })
    | [] => some (s,some { c with phase := .buckets })
  | .listing _ => some (s,some { c with phase := .sweeping })
  | .sweeping =>
    match c.popped, c.candidates with
    | some (d,l), rest =>
      some ({ s with store := backendRemove s.store l d },
        some { c with popped := none, candidates := rest.tail })
    | none, d :: rest =>
      match s.store.locations.get d with
      | none => some (s,some { c with candidates := rest })
      | some l =>
        some ({ s with store := { s.store with locations := s.store.locations.erase d } },
          some { c with popped := some (d,l) })
    | none, [] => some (s,none)

def gcStep (s : RaceState) (g : ℕ) : Option RaceState :=
  match s.gcs.get g with
  | none => none
  | some c =>
    match gcAdvance cfg s c with
    | none => none
    | some (t,some c') => some { t with gcs := s.gcs.set g c' }
    | some (t,none) => some { t with gcs := s.gcs.erase g }

def gcExamine (s : RaceState) (g : ℕ) (d : Digest) : Option RaceState :=
  match s.gcs.get g with
  | none => none
  | some c =>
    match c.phase, s.store.hot.get d with
    | .listing cutoff, some f =>
      if d ∈ c.referenced ∨ cutoff < f.mtime then some s
      else some { s with gcs := s.gcs.set g { c with candidates := c.candidates ++ [d] } }
    | _, _ => none

def raceStep (s : RaceState) : RaceAction → Option RaceState
  | .tick n => some { s with clock := s.clock+n }
  | .putStart p bucket key digest etag contentType content precondition =>
    if s.puts.contains p then none
    else some { s with
      puts := s.puts.set p
        ⟨bucket,key,digest,etag,contentType,content,precondition,s.clock,.streamed⟩ }
  | .putStep p => putStep cfg s p
  | .deleteLatest bucket key =>
    if s.held.contains (bucket,key) then none
    else some { s with rows := s.rows.erase (bucket,key) }
  | .deleteVersion bucket key id =>
    if s.held.contains (bucket,key) then none
    else
      match (s.rows.get (bucket,key)).bind (fun m => m.removeVersion id) with
      | none => none
      | some m' => some { s with held := s.held.set (bucket,key) ⟨none,m',false⟩ }
  | .writeStep bucket key => writeStep s (bucket,key)
  | .gcStart g =>
    if s.gcs.contains g then none
    else some { s with
      gcs := s.gcs.set g ⟨.buckets,s.bucketDirs,[],[],[],[],none,inFlightDigests s⟩ }
  | .gcStep g => gcStep cfg s g
  | .gcExamine g d => gcExamine s g d

end

def holds (s : StoreState) (d : Digest) : BlobLocation → Prop
  | .fileCas => s.hot.contains d = true
  | .haystack => ∃ n, s.needles.get d = some n ∧ n.deleted = false

def Present (s : StoreState) (d : Digest) : Prop := ∃ l, s.locations.get d = some l ∧ holds s d l

def RowsBacked (s : RaceState) : Prop :=
  ∀ bk m, s.rows.get bk = some m → ∀ d ∈ m.digests, Present s.store d

structure Quiescent (s : RaceState) : Prop where
  noPuts : s.puts = Dict.empty
  noHeld : s.held = Dict.empty
  noGcs : s.gcs = Dict.empty
  routed : ∀ d l, s.store.locations.get d = some l → holds s.store d l
  backed : RowsBacked s
  dirs : ∀ bk m, s.rows.get bk = some m → bk.1 ∈ s.bucketDirs

/-- The two guards suffice: a blob of an overlapping PUT is examined only when its row was scanned
or it is young, and no PUT deduplicates against a digest about to be removed. -/
def guarded (s : RaceState) : RaceAction → Bool
  | .gcExamine g d =>
    match s.gcs.get g with
    | none => true
    | some c =>
      match c.phase, s.store.hot.get d with
      | .listing cutoff, some f => d ∉ c.overlap || d ∈ c.referenced || cutoff < f.mtime
      | _, _ => true
  | .putStep p =>
    match s.puts.get p with
    | none => true
    | some put =>
      put.stage ≠ .streamed || s.gcs.entries.all (fun e => put.digest ∉ e.2.candidates)
  | _ => true

end BackendGauntlet.ObjectStore
