import BackendGauntlet.ObjectStoreIndexWire
import BackendGauntlet.ObjectStoreIndex
import BackendGauntlet.ObjectStoreListing
import BackendGauntlet.ObjectStoreGcMark
import BackendGauntlet.ObjectStoreAuthMediation

/-! The index behind `IndexBackend`, in the process and over HTTP. A path is decoded once. -/
namespace BackendGauntlet.ObjectStore

open PyText

structure BucketEntry where
  metadata : Option BucketMetadata
  rows : Dict Key ObjectMeta

structure IndexTree where
  buckets : Dict Bucket BucketEntry
  store : StoreState

namespace IndexTree

def rowAt (s : IndexTree) (b : Bucket) (k : Key) : Option ObjectMeta :=
  (s.buckets.get b).bind (fun e => e.rows.get k)

def setRow (s : IndexTree) (b : Bucket) (k : Key) (m : ObjectMeta) : IndexTree :=
  match s.buckets.get b with
  | none => { s with buckets := s.buckets.set b ⟨none,Dict.empty.set k m⟩ }
  | some e => { s with buckets := s.buckets.set b { e with rows := e.rows.set k m } }

def dropRow (s : IndexTree) (b : Bucket) (k : Key) : IndexTree :=
  match s.buckets.get b with
  | none => s
  | some e => { s with buckets := s.buckets.set b { e with rows := e.rows.erase k } }

def files (s : IndexTree) : List BucketFiles :=
  s.buckets.entries.map (fun e => ⟨e.2.rows.entries.map (fun r => RowFile.row r.2),[]⟩)

end IndexTree

inductive IndexCall
  | createBucket (bucket : Bucket)
  | buckets
  | ensureBucket (bucket : Bucket)
  | put (bucket : Bucket) (key : Key) (version : NewVersion) (precondition : Option Precondition)
  | get (bucket : Bucket) (key : Key)
  | resolve (bucket : Bucket) (key : Key) (ref : ObjectRef)
  | delete (bucket : Bucket) (key : Key) (ref : ObjectRef)
  | list (bucket : Bucket) (keyPrefix : Text) (delimiter continuation : Option Text) (maxKeys : ℤ)
  | indexEntries (bucket : Bucket)
  | gc
  | loadBucketMetadata (bucket : Bucket)
  | storeBucketMetadata (bucket : Bucket) (metadata : BucketMetadata)

/-- What a call returns; `done` is Python's `None` of a call that returns nothing. -/
inductive IndexValue
  | done
  | names (names : List Text)
  | row (row : Option IndexRow)
  | resolved (row : ResolvedRow)
  | listing (page : ListingPage)
  | entries (rows : List IndexRow)
  | reclaimed (count : ℕ)
  | metadata (metadata : BucketMetadata)
deriving DecidableEq

section
variable (fromBytes : Bytes → Option Manifest) (gcGrace : ℤ)

def localCall (now : ℤ) (s : IndexTree) : IndexCall → Except OpError IndexValue × IndexTree
  | .createBucket b =>
    if s.buckets.contains b then (.error (.app .bucketAlreadyExists),s)
    else (.ok .done,{ s with
      buckets := s.buckets.set b ⟨some (BucketMetadata.new now),Dict.empty⟩ })
  | .buckets =>
    (.ok (.names ((s.buckets.keys.map Bucket.text).insertionSort (fun a b => leText a b = true))),s)
  | .ensureBucket b =>
    if s.buckets.contains b then (.ok .done,s) else (.error (.app .noSuchBucket),s)
  | .put b k v precondition =>
    match indexPut (s.rowAt b k) v (precondition.getD .none) now with
    | .error e => (.error (.app e),s)
    | .ok m => (.ok (.row (some ⟨b,k,m⟩)),s.setRow b k m)
  | .get b k => (.ok (.row ((s.rowAt b k).map (fun m => ⟨b,k,m⟩))),s)
  | .resolve b k ref =>
    match indexResolve (s.rowAt b k) ref with
    | .error e => (.error (.app e),s)
    | .ok r => (.ok (.resolved ⟨b,k,r⟩),s)
  | .delete b k ref =>
    match indexDelete (s.rowAt b k) ref with
    | .error e => (.error (.app e),s)
    | .ok none => (.ok .done,s.dropRow b k)
    | .ok (some m) => (.ok .done,s.setRow b k m)
  | .list b keyPrefix delimiter continuation maxKeys =>
    match s.buckets.get b with
    | none => (.error (.app .noSuchBucket),s)
    | some e =>
      let page := listPage e.rows keyPrefix delimiter continuation maxKeys
      (.ok (.listing ⟨page.objects.map (fun o => ⟨b,o.1,o.2⟩),page.commonPrefixes,
        page.nextContinuationToken⟩),s)
  | .indexEntries b =>
    let rows := ((s.buckets.get b).map (fun e => e.rows.entries)).getD []
    (.ok (.entries (rows.map (fun r => ⟨b,r.1,r.2⟩))),s)
  | .gc =>
    match gc fromBytes s.store s.files now gcGrace with
    | (.error e,store) => (.error e,{ s with store := store })
    | (.ok n,store) => (.ok (.reclaimed n),{ s with store := store })
  | .loadBucketMetadata b =>
    match s.buckets.get b with
    | none => (.error (.app .noSuchBucket),s)
    | some e =>
      match e.metadata with
      | none => (.ok (.metadata (BucketMetadata.new now)),s)
      | some m =>
        -- an older document is rewritten on the way
        if m.schemaVersion < currentSchemaVersion then
          let m' := { m with schemaVersion := currentSchemaVersion }
          (.ok (.metadata m'),{ s with
            buckets := s.buckets.set b { e with metadata := some m' } })
        else (.ok (.metadata m),s)
  | .storeBucketMetadata b m =>
    match s.buckets.get b with
    | none => (.error (.app .noSuchBucket),s)
    | some e =>
      (.ok .done,{ s with buckets := s.buckets.set b { e with metadata := some m } })

end

def indexUrl (segments : List Text) : Text :=
  segments.flatMap (fun segment => '/' :: Percent.quote [] segment)

/-- The slashes of a key stay separators. -/
def keyUrl (b : Bucket) (k : Key) (tail : String) : Text :=
  indexUrl ["v1".toList, "buckets".toList, b.text, tail.toList] ++
    '/' :: Percent.quote ['/'] k.text

def putBody (v : NewVersion) (precondition : Option Precondition) : Json :=
  .obj (liveFields v ++ [("precondition".toList,preconditionWire precondition)])

def refBody (ref : ObjectRef) : Json := .obj [("object_ref".toList,objectRefWire ref)]

def truthy : Option Text → Option Text
  | some [] => none
  | s => s

/-- The request `RemoteIndex` makes of a call. Empty delimiters and tokens are not sent. -/
def indexRequest (dt : DatetimeText) : IndexCall → IndexRequest
  | .createBucket b =>
    ⟨.put,indexUrl ["v1".toList, "buckets".toList, b.text],.empty,none⟩
  | .buckets => ⟨.get,indexUrl ["v1".toList, "buckets".toList],.empty,none⟩
  | .ensureBucket b => ⟨.get,indexUrl ["v1".toList, "buckets".toList, b.text],.empty,none⟩
  | .put b k v precondition => ⟨.put,keyUrl b k "keys",.empty,some (putBody v precondition)⟩
  | .get b k => ⟨.get,keyUrl b k "keys",.empty,none⟩
  | .resolve b k ref => ⟨.post,keyUrl b k "resolve",.empty,some (refBody ref)⟩
  | .delete b k ref => ⟨.delete,keyUrl b k "keys",.empty,some (refBody ref)⟩
  | .list b keyPrefix delimiter continuation maxKeys =>
    ⟨.get,indexUrl ["v1".toList, "buckets".toList, b.text, "list".toList],
      ⟨some keyPrefix,truthy delimiter,truthy continuation,some maxKeys⟩,none⟩
  | .indexEntries b =>
    ⟨.get,indexUrl ["v1".toList, "buckets".toList, b.text, "entries".toList],.empty,none⟩
  | .gc => ⟨.post,indexUrl ["v1".toList, "gc".toList],.empty,none⟩
  | .loadBucketMetadata b =>
    ⟨.get,indexUrl ["v1".toList, "buckets".toList, b.text, "metadata".toList],.empty,none⟩
  | .storeBucketMetadata b m =>
    ⟨.put,indexUrl ["v1".toList, "buckets".toList, b.text, "metadata".toList],.empty,
      some (metadataJson dt m)⟩

inductive IndexRoute
  | buckets
  | bucket (bucket : Text)
  | metadata (bucket : Text)
  | list (bucket : Text)
  | entries (bucket : Text)
  | keys (bucket key : Text)
  | resolve (bucket key : Text)
  | gc

/-- A literal up to the end anchor, which also stands before a final line feed. -/
def endsRoute (literal : String) (s : Text) : Bool :=
  s = literal.toList || s = literal.toList ++ ['\n']

def afterLiteral (literal : String) (s : Text) : Option Text :=
  if literal.toList.isPrefixOf s then some (s.drop literal.toList.length) else none

def bucketRoute (bucket rest : Text) : Option IndexRoute :=
  if endsRoute "metadata" rest then some (.metadata bucket)
  else if endsRoute "list" rest then some (.list bucket)
  else if endsRoute "entries" rest then some (.entries bucket)
  else
    match afterLiteral "keys/" rest with
    | some key => (keyMatch key).map (IndexRoute.keys bucket)
    | none =>
      match afterLiteral "resolve/" rest with
      | some key => (keyMatch key).map (IndexRoute.resolve bucket)
      | none => none

/-- The route of a decoded path, as the framework compiles the patterns. -/
def routeOf (path : Text) : Option IndexRoute :=
  if endsRoute "/v1/gc" path then some .gc
  else if endsRoute "/v1/buckets" path then some .buckets
  else
    match afterLiteral "/v1/buckets/" path with
    | none => none
    | some p =>
      match cut '/' p with
      | none => if p = [] then none else some (.bucket p)
      | some (bucket,rest) => if bucket = [] then none else bucketRoute bucket rest

def detail (status : ℕ) : IndexResponse :=
  ⟨status,.json (.obj [("detail".toList,.str [])])⟩

/-- A path without a route: redirected if it has one with or without its final slashes. -/
def unrouted (path : Text) : IndexResponse :=
  let other :=
    if path.getLast? = some '/' then (path.reverse.dropWhile (· = '/')).reverse
    else path ++ ['/']
  if (routeOf other).isSome then ⟨307,.empty⟩ else detail 404

def orRespond {α : Type} (a : Option α) (r : IndexResponse) : Except IndexResponse α :=
  match a with
  | some a => .ok a
  | none => .error r

def parseBucket (t : Text) : Except IndexResponse Bucket :=
  match h : Bucket.validate t with
  | .error e => .error (errorResponse e)
  | .ok () => .ok ⟨t,h⟩

def parseKey (t : Text) : Except IndexResponse Key :=
  match h : Key.validate t with
  | .error e => .error (errorResponse e)
  | .ok () => .ok ⟨t,h⟩

def parseVersion (body : Json) : Except IndexResponse NewVersion := do
  let t ← orRespond (JsonCodec.text.field "digest" body) internalError
  let digest ← (Digest.new t).mapError errorResponse
  let etag ← orRespond (JsonCodec.text.field "etag" body) internalError
  let size ← orRespond (JsonCodec.nat.field "size" body) internalError
  let contentType ← orRespond (JsonCodec.text.field "content_type" body) internalError
  let blobKind ← orRespond (blobKindText.fieldOr "blob_kind" .whole body) internalError
  .ok ⟨digest,etag,size,contentType,blobKind⟩

def parseRef (body : Option Json) : Except IndexResponse ObjectRef :=
  let payload := (body.bind (fun j => j.get "object_ref".toList)).getD (.obj [])
  orRespond (objectRefFromWire payload) internalError

/-- The handlers up to their call of the index. -/
def parseRequest (dt : DatetimeText) (now : ℤ) (r : IndexRequest) :
    Except IndexResponse IndexCall :=
  match routeOf (Percent.unquote r.path) with
  | none => .error (unrouted (Percent.unquote r.path))
  | some route =>
    match r.method, route with
    | .get, .buckets => .ok .buckets
    | .put, .bucket b => (parseBucket b).map IndexCall.createBucket
    | .get, .bucket b => (parseBucket b).map IndexCall.ensureBucket
    | .get, .metadata b => (parseBucket b).map IndexCall.loadBucketMetadata
    | .put, .metadata b => do
      let m ← orRespond (r.body.bind (metadataCodec dt now).decode) (detail 422)
      let bucket ← parseBucket b
      .ok (.storeBucketMetadata bucket m)
    | .get, .list b =>
      if r.params.maxKeys.getD 1000 < 0 then .error (detail 422)
      else (parseBucket b).map (fun bucket => .list bucket (r.params.keyPrefix.getD [])
        r.params.delimiter r.params.continuation (r.params.maxKeys.getD 1000))
    | .get, .entries b => (parseBucket b).map IndexCall.indexEntries
    | .put, .keys b k => do
      let body ← orRespond r.body (detail 422)
      let version ← parseVersion body
      let bucket ← parseBucket b
      let key ← parseKey k
      let guard ← orRespond
        (preconditionFromWire ((body.get "precondition".toList).getD (.obj []))) internalError
      .ok (.put bucket key version (some guard))
    | .get, .keys b k => do
      let bucket ← parseBucket b
      let key ← parseKey k
      .ok (.get bucket key)
    | .delete, .keys b k => do
      let bucket ← parseBucket b
      let key ← parseKey k
      let ref ← parseRef r.body
      .ok (.delete bucket key ref)
    | .post, .resolve b k => do
      let bucket ← parseBucket b
      let key ← parseKey k
      let ref ← parseRef r.body
      .ok (.resolve bucket key ref)
    | .post, .gc => .ok .gc
    | _, _ => .error (detail 405)

def success (dt : DatetimeText) (call : IndexCall) : IndexValue → IndexResponse
  | .done =>
    match call with
    | .ensureBucket b => ⟨200,.json (.obj [("name".toList,bucketText.encode b)])⟩
    | .delete _ _ _ => ⟨204,.empty⟩
    | _ => ⟨200,.empty⟩
  | .names names => ⟨200,.json (JsonCodec.text.list.encode names)⟩
  | .row r => ⟨200,.json ((maybeRowCodec dt).encode r)⟩
  | .resolved r => ⟨200,.json (resolvedJson dt r)⟩
  | .listing page => ⟨200,.json (pageJson dt page)⟩
  | .entries rows => ⟨200,.json ((rowCodec dt).list.encode rows)⟩
  | .reclaimed n => ⟨200,.json (.obj [("reclaimed".toList,JsonCodec.nat.encode n)])⟩
  | .metadata m => ⟨200,.json (metadataJson dt m)⟩

def respond (dt : DatetimeText) (call : IndexCall) : Except OpError IndexValue → IndexResponse
  | .ok v => success dt call v
  | .error (.app e) => errorResponse e
  | .error _ => internalError

/-- What `RemoteIndex` raises: an exception of the application, or one of Python's own over a
body it cannot read. -/
inductive ClientError
  | app (e : AppException)
  | malformed
deriving DecidableEq

/-- `RemoteIndex._request` on the answer; an empty body is `None`. -/
def requestResult (r : IndexResponse) : Except ClientError Json :=
  if 200 ≤ r.status ∧ r.status < 300 then
    match r.body with
    | .empty => .ok .null
    | .json j => .ok j
    | .text _ => .error .malformed
  else .error (.app (errorFromResponse r))

def readAnswer (v : Option IndexValue) : Except ClientError IndexValue :=
  match v with
  | some v => .ok v
  | none => .error .malformed

def resultOf (dt : DatetimeText) (now : ℤ) (call : IndexCall) (r : IndexResponse) :
    Except ClientError IndexValue :=
  match requestResult r with
  | .error e => .error e
  | .ok payload =>
    match call with
    | .createBucket _ => .ok .done
    | .buckets => readAnswer ((JsonCodec.text.list.decode payload).map IndexValue.names)
    | .ensureBucket _ => .ok .done
    | .put _ _ _ _ => readAnswer (((rowCodec dt).decode payload).map (fun r => .row (some r)))
    | .get _ _ => readAnswer (((maybeRowCodec dt).decode payload).map IndexValue.row)
    | .resolve _ _ _ => readAnswer (((resolvedCodec dt).decode payload).map IndexValue.resolved)
    | .delete _ _ _ => .ok .done
    | .list _ _ _ _ _ => readAnswer (((pageCodec dt).decode payload).map IndexValue.listing)
    | .indexEntries _ => readAnswer (((rowCodec dt).list.decode payload).map IndexValue.entries)
    | .gc => readAnswer ((JsonCodec.nat.field "reclaimed" payload).map IndexValue.reclaimed)
    | .loadBucketMetadata _ =>
      readAnswer (((metadataCodec dt now).decode payload).map IndexValue.metadata)
    | .storeBucketMetadata _ _ => .ok .done

section
variable (dt : DatetimeText) (fromBytes : Bytes → Option Manifest) (gcGrace : ℤ)

def remoteCall (now : ℤ) (s : IndexTree) (call : IndexCall) :
    Except ClientError IndexValue × IndexTree :=
  match parseRequest dt now (indexRequest dt call) with
  | .error r => (resultOf dt now call r,s)
  | .ok parsed =>
    let answer := localCall fromBytes gcGrace now s parsed
    (resultOf dt now call (respond dt parsed answer.1),answer.2)

end

/-- The same value, or the same subclass of `AppError` with the same message. Any other exception
must not become a value. -/
inductive SameOutcome : Except OpError IndexValue → Except ClientError IndexValue → Prop
  | value (v : IndexValue) : SameOutcome (.ok v) (.ok v)
  | raises (e : AppError) : SameOutcome (.error (.app e)) (.error (.app e.exception))
  | foreign (e : OpError) (x : AppException) (h : ∀ a, e ≠ .app a) :
    SameOutcome (.error e) (.error (.app x))

/-- The calls that reach the service as they were made: no key with a line feed, no page of a
negative size. -/
def transmitted : IndexCall → Bool
  | .put _ k _ _ => '\n' ∉ k.text
  | .get _ k => '\n' ∉ k.text
  | .resolve _ k _ => '\n' ∉ k.text
  | .delete _ k _ => '\n' ∉ k.text
  | .list _ _ _ _ maxKeys => 0 ≤ maxKeys
  | _ => true

end BackendGauntlet.ObjectStore
