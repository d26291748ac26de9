import Mathlib.Data.List.Dedup
import BackendGauntlet.ObjectStoreManifest

/-! Lifecycle rules, the migration of one blob, and reads through both tiers. -/
namespace BackendGauntlet.ObjectStore

open PyText

structure LifecycleRule where
  enabled : Bool
  keyPrefix : Option Text
  tierAfterDays : Option ℤ
  expireAfterDays : Option ℤ
  noncurrentExpireAfterDays : Option ℤ
  abortMultipartAfterDays : Option ℤ
deriving DecidableEq

def LifecycleRule.matches (rule : LifecycleRule) (key : Key) : Bool :=
  rule.enabled && (rule.keyPrefix.all (fun p => p.isPrefixOf key.text))

abbrev LifecyclePolicy := List LifecycleRule

def matchingRule (policy : LifecyclePolicy) (key : Key) : Option LifecycleRule :=
  policy.find? (fun rule => rule.matches key)

def LifecycleRule.ages (rule : LifecycleRule) : List (String × Option ℤ) :=
  [("tier_after_days",rule.tierAfterDays), ("expire_after_days",rule.expireAfterDays),
    ("noncurrent_expire_after_days",rule.noncurrentExpireAfterDays),
    ("abort_multipart_after_days",rule.abortMultipartAfterDays)]

def LifecycleRule.validateCoherent (rule : LifecycleRule) : Except AppError Unit :=
  match rule.ages.find? (fun age => age.2 = some 0) with
  | some age => .error (.invalidRequest (age.1 ++ " must be greater than zero"))
  | none =>
    match rule.tierAfterDays, rule.expireAfterDays with
    | some tier, some expire =>
      if expire ≤ tier then
        .error (.invalidRequest "tier_after_days must be less than expire_after_days")
      else .ok ()
    | _, _ => .ok ()

def validateCoherent : LifecyclePolicy → Except AppError Unit
  | [] => .ok ()
  | rule :: rules =>
    match rule.validateCoherent with
    | .error e => .error e
    | .ok _ => validateCoherent rules

structure BucketState where
  policy : LifecyclePolicy
  rows : Dict Key ObjectMeta

abbrev Index := Dict Bucket BucketState

def rowOf (ix : Index) (bucket : Bucket) (key : Key) : Option ObjectMeta :=
  (ix.get bucket).bind (fun st => st.rows.get key)

def writeRow (ix : Index) (bucket : Bucket) (key : Key) (row : Option ObjectMeta) : Index :=
  match ix.get bucket with
  | none => ix
  | some st =>
    match row with
    | none => ix.set bucket { st with rows := st.rows.erase key }
    | some m => ix.set bucket { st with rows := st.rows.set key m }

theorem rowOf_writeRow {ix : Index} {bucket : Bucket} (key : Key) (row : Option ObjectMeta)
    (hb : (ix.get bucket).isSome = true) (b : Bucket) (k : Key) :
    rowOf (writeRow ix bucket key row) b k =
      if b = bucket ∧ k = key then row else rowOf ix b k := by
  obtain ⟨st,hst⟩ := Option.isSome_iff_exists.mp hb
  unfold writeRow rowOf
  simp only [hst]
  cases row with
  | none =>
    by_cases hbb : b = bucket
    · simp only [hbb, Dict.get_set_self, hst, Option.bind_some, Dict.get_erase, true_and]
    · simp [hbb, Dict.get_set_ne hbb]
  | some m =>
    by_cases hbb : b = bucket
    · simp [hbb, hst, Dict.get_set]
    · simp [hbb, Dict.get_set_ne hbb]

/-- The comparison of `_older_than_days`, where its `timedelta` can be built. -/
def olderThanDays (lastModified now days : ℤ) : Bool := days*86400000000 ≤ now-lastModified

def noteReferrer (m : Dict Digest ℤ) (e : Key × ObjectMeta) : Dict Digest ℤ :=
  match e.2.latestLive with
  | none => m
  | some r =>
    match m.get r.live.digest with
    | none => m.set r.live.digest r.lastModified
    | some current =>
      if current < r.lastModified then m.set r.live.digest r.lastModified else m

/-- The age of a blob is that of its youngest referrer in the bucket. -/
def youngest (rows : Dict Key ObjectMeta) : Dict Digest ℤ :=
  rows.entries.foldl noteReferrer Dict.empty

section
variable (codec : Codec)

def tierBlob (s : StoreState) (d : Digest) (f : HotFile) : StoreState :=
  if s.cold.contains d then
    if s.contains d then s.remove d else s
  else { s with cold := s.cold.set d (codec.compress f.content) }.remove d

def tierOne (s : StoreState) (d : Digest) : Bool × StoreState :=
  match s.locate d with
  | .error _ => (false,s)
  | .ok .zstd => (false,s)
  | .ok .raw =>
    match s.hot.get d with
    | none => (true,s)
    | some f => (false,tierBlob codec s d f)

/-- The gathered migrations. One that raises does not cancel the others. -/
def tierAll (s : StoreState) : List Digest → Bool × StoreState
  | [] => (false,s)
  | d :: ds =>
    let r := tierOne codec s d
    let rest := tierAll r.2 ds
    (r.1 || rest.1,rest.2)

end

/-- `Index.delete` of one version; `none` is `NoSuchKey`. -/
def deleteVersion (rows : Dict Key ObjectMeta) (key : Key) (id : VersionId) :
    Option (Dict Key ObjectMeta) :=
  match rows.get key with
  | none => none
  | some m =>
    match m.removeVersion id with
    | none => none
    | some m' => some (if m'.versions = [] then rows.erase key else rows.set key m')

def staleVersions (policy : LifecyclePolicy) (key : Key) (m : ObjectMeta) (now : ℤ) :
    List VersionId :=
  match (matchingRule policy key).bind LifecycleRule.noncurrentExpireAfterDays with
  | none => []
  | some days =>
    (m.versions.filter (fun e => e.id ≠ m.latest && olderThanDays e.lastModified now days)).map
      VersionEntry.id

section
variable (codec : Codec)

def coldRange (s : StoreState) (d : Digest) (start length : ℕ) : Except OpError Bytes :=
  match s.cold.get d with
  | none => .error (.app .noSuchKey)
  | some z =>
    match codec.decompress z with
    | none => .error .osError
    | some content => .ok (slice content start length)

def openChunkSlice (s : StoreState) (c : ChunkSlice) : Except OpError Bytes :=
  match s.locate c.digest with
  | .error e => .error (.app e)
  | .ok .raw => (s.openBlobRange c.digest c.offset (c.offset+c.length-1)).mapError .app
  | .ok .zstd => coldRange codec s c.digest c.offset c.length

def openSlices (s : StoreState) : List ChunkSlice → Except OpError Bytes
  | [] => .ok []
  | c :: cs =>
    if c.length = 0 then openSlices s cs
    else
      match openChunkSlice codec s c with
      | .error e => .error e
      | .ok a => (openSlices s cs).map (fun b => a ++ b)

variable (fromBytes : Bytes → Option Manifest)

def openReader (s : StoreState) (v : LiveVersion) (start stop : ℕ) : Except OpError Bytes :=
  if v.size = 0 then .ok []
  else
    match v.blobKind with
    | .manifest =>
      match loadManifest fromBytes s v.digest with
      | .error e => .error e
      | .ok m => openSlices codec s (mapRange m start stop)
    | .whole =>
      match s.locate v.digest with
      | .error e => .error (.app e)
      | .ok .raw => (s.openBlobRange v.digest start stop).mapError .app
      | .ok .zstd =>
        if v.size ≤ stop then .error (.app (StoreState.rangeError start stop v.size "size"))
        else coldRange codec s v.digest start (stop+1-start)

end

end BackendGauntlet.ObjectStore
