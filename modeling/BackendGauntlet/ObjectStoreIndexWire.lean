import BackendGauntlet.JsonCodec
import BackendGauntlet.ObjectStoreObjects

/-! What the front-end and the index service send each other, as JSON and error codes. -/
namespace BackendGauntlet.ObjectStore

open PyText

inductive ErrorClass
  | appError
  | noSuchBucket
  | noSuchKey
  | noSuchUpload
  | bucketAlreadyExists
  | invalidRequest
  | entityTooLarge
  | preconditionFailed
  | accessDenied
  | integrityError
deriving DecidableEq

def ErrorClass.statusCode : ErrorClass → ℕ
  | .appError => 500
  | .noSuchBucket => 404
  | .noSuchKey => 404
  | .noSuchUpload => 404
  | .bucketAlreadyExists => 409
  | .invalidRequest => 400
  | .entityTooLarge => 413
  | .preconditionFailed => 412
  | .accessDenied => 403
  | .integrityError => 500

def ErrorClass.code : ErrorClass → Text
  | .appError => "InternalError".toList
  | .noSuchBucket => "NoSuchBucket".toList
  | .noSuchKey => "NoSuchKey".toList
  | .noSuchUpload => "NoSuchUpload".toList
  | .bucketAlreadyExists => "BucketAlreadyExists".toList
  | .invalidRequest => "InvalidRequest".toList
  | .entityTooLarge => "EntityTooLarge".toList
  | .preconditionFailed => "PreconditionFailed".toList
  | .accessDenied => "AccessDenied".toList
  | .integrityError => "InternalError".toList

def generic5xxMessage : Text := "internal server error".toList

def ErrorClass.message : ErrorClass → Text
  | .appError => generic5xxMessage
  | .noSuchBucket => "no such bucket".toList
  | .noSuchKey => "no such key".toList
  | .noSuchUpload => "no such upload".toList
  | .bucketAlreadyExists => "bucket already exists".toList
  | .invalidRequest => "invalid request".toList
  | .entityTooLarge => "entity too large".toList
  | .preconditionFailed => "precondition failed".toList
  | .accessDenied => "access denied".toList
  | .integrityError => "blob failed integrity check".toList

structure AppException where
  cls : ErrorClass
  message : Text
deriving DecidableEq

def AppError.exception : AppError → AppException
  | .noSuchBucket => ⟨.noSuchBucket,ErrorClass.noSuchBucket.message⟩
  | .noSuchKey => ⟨.noSuchKey,ErrorClass.noSuchKey.message⟩
  | .noSuchUpload => ⟨.noSuchUpload,ErrorClass.noSuchUpload.message⟩
  | .bucketAlreadyExists => ⟨.bucketAlreadyExists,ErrorClass.bucketAlreadyExists.message⟩
  | .preconditionFailed => ⟨.preconditionFailed,ErrorClass.preconditionFailed.message⟩
  | .entityTooLarge => ⟨.entityTooLarge,ErrorClass.entityTooLarge.message⟩
  | .accessDenied => ⟨.accessDenied,ErrorClass.accessDenied.message⟩
  | .integrityError => ⟨.integrityError,ErrorClass.integrityError.message⟩
  | .invalidRequest message => ⟨.invalidRequest,message.toList⟩

def AppException.clientMessage (e : AppException) : Text :=
  if 500 ≤ e.cls.statusCode then generic5xxMessage else e.message

inductive HttpMethod
  | get
  | put
  | post
  | delete
deriving DecidableEq

structure QueryParams where
  keyPrefix : Option Text
  delimiter : Option Text
  continuation : Option Text
  maxKeys : Option ℤ

def QueryParams.empty : QueryParams := ⟨none,none,none,none⟩

structure IndexRequest where
  method : HttpMethod
  path : Text
  params : QueryParams
  body : Option Json

inductive ResponseBody
  | empty
  | json (j : Json)
  | text (t : Text)

structure IndexResponse where
  status : ℕ
  body : ResponseBody

def errorResponse (e : AppError) : IndexResponse :=
  ⟨e.exception.cls.statusCode,.json (.obj [("code".toList,.str e.exception.cls.code),
    ("message".toList,.str e.exception.clientMessage)])⟩

/-- What the framework answers when a handler raises anything else. -/
def internalError : IndexResponse := ⟨500,.text "Internal Server Error".toList⟩

def errorCodes : List (Text × ErrorClass) :=
  [("NoSuchBucket".toList,.noSuchBucket), ("NoSuchKey".toList,.noSuchKey),
    ("NoSuchUpload".toList,.noSuchUpload), ("BucketAlreadyExists".toList,.bucketAlreadyExists),
    ("InvalidRequest".toList,.invalidRequest), ("EntityTooLarge".toList,.entityTooLarge),
    ("PreconditionFailed".toList,.preconditionFailed), ("AccessDenied".toList,.accessDenied)]

def statusFallback : List (ℕ × ErrorClass) :=
  [(404,.noSuchKey), (409,.bucketAlreadyExists), (400,.invalidRequest),
    (412,.preconditionFailed), (413,.entityTooLarge), (403,.accessDenied)]

def errorFromStatus (status : ℕ) : AppException :=
  match statusFallback.find? (fun e => e.1 = status) with
  | some (_,cls) => ⟨cls,cls.message⟩
  | none => ⟨.appError,"index service HTTP ".toList ++ intText status ++
      " (unparseable error body)".toList⟩

def errorFromResponse (r : IndexResponse) : AppException :=
  match r.body with
  | .json j =>
    match JsonCodec.text.field "code" j with
    | none => errorFromStatus r.status
    | some code =>
      let message := (JsonCodec.text.field "message" j).getD []
      match errorCodes.find? (fun e => e.1 = code) with
      | none => ⟨.appError,"index service: ".toList ++ code ++ ": ".toList ++ message⟩
      | some (_,cls) => if message = [] then ⟨cls,cls.message⟩ else ⟨cls,message⟩
  | _ => errorFromStatus r.status

/-- The errors a client can tell apart: all but those of code `InternalError`. -/
def AppError.listed : AppError → Bool
  | .integrityError => false
  | .invalidRequest message => message.toList ≠ []
  | _ => true

theorem errorFromResponse_fields {status : ℕ} {code message : Text} {cls : ErrorClass}
    (hcls : errorCodes.find? (fun e => e.1 = code) = some (code,cls)) (hm : message ≠ []) :
    errorFromResponse ⟨status,.json (.obj [("code".toList,.str code),
      ("message".toList,.str message)])⟩ = ⟨cls,message⟩ := by
  have hcode : JsonCodec.text.field "code" (.obj [("code".toList,.str code),
      ("message".toList,.str message)]) = some code := rfl
  have hmessage : JsonCodec.text.field "message" (.obj [("code".toList,.str code),
      ("message".toList,.str message)]) = some message := rfl
  unfold errorFromResponse
  simp only [hcode, hmessage, hcls, Option.getD_some, if_neg hm]

/-- A listed error comes back as it was raised, class and message. -/
theorem errorFromResponse_errorResponse {e : AppError} (he : e.listed = true) :
    errorFromResponse (errorResponse e) = e.exception := by
  cases e with
  | invalidRequest message =>
    have hm : message.toList ≠ [] := of_decide_eq_true he
    exact errorFromResponse_fields rfl hm
  | integrityError => exact absurd he (by decide)
  | noSuchBucket | noSuchKey | noSuchUpload | bucketAlreadyExists | preconditionFailed
  | entityTooLarge | accessDenied => exact errorFromResponse_fields rfl (by decide)

/-- `datetime.isoformat` with `fromisoformat`, and what pydantic writes and reads. -/
structure DatetimeText where
  isoformat : ℤ → Text
  fromisoformat : Text → Option ℤ
  dump : ℤ → Text
  load : Text → Option ℤ
  fromisoformat_isoformat : ∀ t, fromisoformat (isoformat t) = some t
  load_dump : ∀ t, load (dump t) = some t

/-- A name that is wrapped without another check keeps what its type says about it. -/
def bucketText : JsonCodec Bucket :=
  JsonCodec.text.via Bucket.text
    (fun t => if h : Bucket.validate t = .ok () then some ⟨t,h⟩ else none)
    (fun b => by simp [b.valid])

def keyText : JsonCodec Key :=
  JsonCodec.text.via Key.text (fun t => if h : Key.validate t = .ok () then some ⟨t,h⟩ else none)
    (fun k => by simp [k.valid])

def digestText : JsonCodec Digest :=
  JsonCodec.text.via Digest.text (fun t => (Digest.new t).toOption)
    (fun d => by rw [Digest.new_text]; rfl)

def BlobKind.value : BlobKind → Text
  | .whole => "whole".toList
  | .manifest => "manifest".toList

def BlobKind.ofValue (t : Text) : Option BlobKind :=
  if t = "whole".toList then some .whole
  else if t = "manifest".toList then some .manifest
  else none

def blobKindText : JsonCodec BlobKind :=
  JsonCodec.text.via BlobKind.value BlobKind.ofValue (fun k => by cases k <;> rfl)

def liveFields (v : LiveVersion) : List (Text × Json) :=
  [("digest".toList,digestText.encode v.digest), ("etag".toList,.str v.etag),
    ("size".toList,JsonCodec.nat.encode v.size), ("content_type".toList,.str v.contentType),
    ("blob_kind".toList,blobKindText.encode v.blobKind)]

def readLive (j : Json) : Option LiveVersion := do
  let digest ← digestText.field "digest" j
  let etag ← JsonCodec.text.field "etag" j
  let size ← JsonCodec.nat.field "size" j
  let contentType ← JsonCodec.text.field "content_type" j
  let blobKind ← blobKindText.fieldOr "blob_kind" .whole j
  some ⟨digest,etag,size,contentType,blobKind⟩

theorem readLive_of_get (j : Json) (v : LiveVersion)
    (h : ∀ f ∈ liveFields v, j.get f.1 = some f.2) : readLive j = some v := by
  simp only [liveFields, List.forall_mem_cons] at h
  obtain ⟨hd,he,hs,hc,hk,_⟩ := h
  have h1 := digestText.field_of_get "digest" j v.digest hd
  have h2 := JsonCodec.text.field_of_get "etag" j v.etag he
  have h3 := JsonCodec.nat.field_of_get "size" j v.size hs
  have h4 := JsonCodec.text.field_of_get "content_type" j v.contentType hc
  have h5 := blobKindText.fieldOr_of_get "blob_kind" .whole j v.blobKind hk
  simp [readLive, h1, h2, h3, h4, h5]

def kindCodec : JsonCodec VersionKind where
  encode
    | .live v => .obj (("type".toList,.str "live".toList) :: liveFields v)
    | .deleteMarker => .obj [("type".toList,.str "delete_marker".toList)]
  decode j :=
    match JsonCodec.text.field "type" j with
    | none => none
    | some t =>
      if t = "live".toList then (readLive j).map VersionKind.live
      else if t = "delete_marker".toList then some .deleteMarker
      else none
  decode_encode k := by
    cases k with
    | deleteMarker => rfl
    | live v =>
      have ht : JsonCodec.text.field "type"
          (.obj (("type".toList,.str "live".toList) :: liveFields v)) = some "live".toList := rfl
      have hv := readLive_of_get (.obj (("type".toList,.str "live".toList) :: liveFields v)) v (by
          simp only [liveFields, List.forall_mem_cons, List.not_mem_nil, false_implies,
            implies_true, and_true]
          exact ⟨rfl,rfl,rfl,rfl,rfl⟩)
      simp only [ht, if_true, hv, Option.map_some]

structure IndexRow where
  bucket : Bucket
  key : Key
  row : ObjectMeta
deriving DecidableEq

section
variable (dt : DatetimeText)

def instantText : JsonCodec ℤ :=
  JsonCodec.text.via dt.dump dt.load dt.load_dump

def versionJson (e : VersionEntry) : Json :=
  .obj [("id".toList,.num e.id), ("last_modified".toList,(instantText dt).encode e.lastModified),
    ("kind".toList,kindCodec.encode e.kind)]

def versionCodec : JsonCodec VersionEntry where
  encode := versionJson dt
  decode j := do
    let id ← JsonCodec.int.field "id" j
    let lastModified ← (instantText dt).field "last_modified" j
    let kind ← kindCodec.field "kind" j
    some ⟨id,lastModified,kind⟩
  decode_encode e := by
    have h1 := JsonCodec.int.field_of_get "id" (versionJson dt e) e.id rfl
    have h2 := (instantText dt).field_of_get "last_modified" (versionJson dt e) e.lastModified rfl
    have h3 := kindCodec.field_of_get "kind" (versionJson dt e) e.kind rfl
    simp only [h1, h2, h3, Option.bind_eq_bind, Option.bind_some]

def rowJson (r : IndexRow) : Json :=
  .obj [("bucket".toList,bucketText.encode r.bucket), ("key".toList,keyText.encode r.key),
    ("latest".toList,.num r.row.latest),
    ("versions".toList,(versionCodec dt).list.encode r.row.versions),
    ("next_id".toList,.num r.row.nextId)]

def rowCodec : JsonCodec IndexRow where
  encode := rowJson dt
  decode j := do
    let bucket ← bucketText.field "bucket" j
    let key ← keyText.field "key" j
    let latest ← JsonCodec.int.field "latest" j
    let versions ← (versionCodec dt).list.field "versions" j
    let nextId ← JsonCodec.int.fieldOr "next_id" 0 j
    if h : (versions.map VersionEntry.id).Nodup then
      some ⟨bucket,key,⟨latest,versions,nextId,h⟩⟩
    else none
  decode_encode r := by
    have h1 := bucketText.field_of_get "bucket" (rowJson dt r) r.bucket rfl
    have h2 := keyText.field_of_get "key" (rowJson dt r) r.key rfl
    have h3 := JsonCodec.int.field_of_get "latest" (rowJson dt r) r.row.latest rfl
    have h4 := (versionCodec dt).list.field_of_get "versions" (rowJson dt r) r.row.versions rfl
    have h5 := JsonCodec.int.fieldOr_of_get "next_id" 0 (rowJson dt r) r.row.nextId rfl
    simp [h1, h2, h3, h4, h5, r.row.ids]

theorem rowCodec_ne_null (r : IndexRow) : (rowCodec dt).encode r ≠ .null := by
  simp [rowCodec, rowJson]

def maybeRowCodec : JsonCodec (Option IndexRow) := (rowCodec dt).nullable (rowCodec_ne_null dt)

structure ResolvedRow where
  bucket : Bucket
  key : Key
  resolved : ResolvedObject
deriving DecidableEq

def resolvedJson (r : ResolvedRow) : Json :=
  .obj [("bucket".toList,bucketText.encode r.bucket), ("key".toList,keyText.encode r.key),
    ("version_id".toList,.num r.resolved.versionId),
    ("digest".toList,digestText.encode r.resolved.live.digest),
    ("etag".toList,.str r.resolved.live.etag),
    ("size".toList,JsonCodec.nat.encode r.resolved.live.size),
    ("content_type".toList,.str r.resolved.live.contentType),
    ("last_modified".toList,.str (dt.isoformat r.resolved.lastModified)),
    ("blob_kind".toList,blobKindText.encode r.resolved.live.blobKind)]

def resolvedCodec : JsonCodec ResolvedRow where
  encode := resolvedJson dt
  decode j := do
    let bucket ← bucketText.field "bucket" j
    let key ← keyText.field "key" j
    let versionId ← JsonCodec.int.field "version_id" j
    let lastModified ← (JsonCodec.text.field "last_modified" j).bind dt.fromisoformat
    let live ← readLive j
    some ⟨bucket,key,⟨versionId,live,lastModified⟩⟩
  decode_encode r := by
    have h1 := bucketText.field_of_get "bucket" (resolvedJson dt r) r.bucket rfl
    have h2 := keyText.field_of_get "key" (resolvedJson dt r) r.key rfl
    have h3 := JsonCodec.int.field_of_get "version_id" (resolvedJson dt r)
      r.resolved.versionId rfl
    have h4 := JsonCodec.text.field_of_get "last_modified" (resolvedJson dt r)
      (dt.isoformat r.resolved.lastModified) rfl
    have h5 := readLive_of_get (resolvedJson dt r) r.resolved.live (by
      simp only [liveFields, List.forall_mem_cons, List.not_mem_nil, false_implies,
        implies_true, and_true]
      exact ⟨rfl,rfl,rfl,rfl,rfl⟩)
    simp [h1, h2, h3, h4, h5, dt.fromisoformat_isoformat]

structure ListingPage where
  objects : List IndexRow
  commonPrefixes : List Text
  nextContinuationToken : Option Text
deriving DecidableEq

def tokenCodec : JsonCodec (Option Text) := JsonCodec.text.nullable (by simp [JsonCodec.text])

def pageJson (p : ListingPage) : Json :=
  .obj [("objects".toList,(rowCodec dt).list.encode p.objects),
    ("common_prefixes".toList,JsonCodec.text.list.encode p.commonPrefixes),
    ("next_continuation_token".toList,tokenCodec.encode p.nextContinuationToken)]

def pageCodec : JsonCodec ListingPage where
  encode := pageJson dt
  decode j := do
    let objects ← (rowCodec dt).list.field "objects" j
    let commonPrefixes ← JsonCodec.text.list.field "common_prefixes" j
    let token ← tokenCodec.fieldOr "next_continuation_token" none j
    some ⟨objects,commonPrefixes,token⟩
  decode_encode p := by
    have h1 := (rowCodec dt).list.field_of_get "objects" (pageJson dt p) p.objects rfl
    have h2 := JsonCodec.text.list.field_of_get "common_prefixes" (pageJson dt p)
      p.commonPrefixes rfl
    have h3 := tokenCodec.fieldOr_of_get "next_continuation_token" none (pageJson dt p)
      p.nextContinuationToken rfl
    simp [h1, h2, h3]

end

structure RuleDocument where
  id : Text
  enabled : Bool
  keyPrefix : Option Text
  tierAfterDays : Option ℤ
  expireAfterDays : Option ℤ
  noncurrentExpireAfterDays : Option ℤ
  abortMultipartAfterDays : Option ℤ
deriving DecidableEq

def daysCodec : JsonCodec (Option ℤ) := JsonCodec.int.nullable (by simp [JsonCodec.int])

def ruleJson (r : RuleDocument) : Json :=
  .obj [("id".toList,.str r.id), ("enabled".toList,.bool r.enabled),
    ("prefix".toList,tokenCodec.encode r.keyPrefix),
    ("tier_after_days".toList,daysCodec.encode r.tierAfterDays),
    ("expire_after_days".toList,daysCodec.encode r.expireAfterDays),
    ("noncurrent_expire_after_days".toList,daysCodec.encode r.noncurrentExpireAfterDays),
    ("abort_multipart_after_days".toList,daysCodec.encode r.abortMultipartAfterDays)]

def ruleCodec : JsonCodec RuleDocument where
  encode := ruleJson
  decode j := do
    let id ← JsonCodec.text.fieldOr "id" [] j
    let enabled ← JsonCodec.bool.fieldOr "enabled" true j
    let keyPrefix ← tokenCodec.fieldOr "prefix" none j
    let tier ← daysCodec.fieldOr "tier_after_days" none j
    let expire ← daysCodec.fieldOr "expire_after_days" none j
    let noncurrent ← daysCodec.fieldOr "noncurrent_expire_after_days" none j
    let abort ← daysCodec.fieldOr "abort_multipart_after_days" none j
    some ⟨id,enabled,keyPrefix,tier,expire,noncurrent,abort⟩
  decode_encode r := by
    have h1 := JsonCodec.text.fieldOr_of_get "id" [] (ruleJson r) r.id rfl
    have h2 := JsonCodec.bool.fieldOr_of_get "enabled" true (ruleJson r) r.enabled rfl
    have h3 := tokenCodec.fieldOr_of_get "prefix" none (ruleJson r) r.keyPrefix rfl
    have h4 := daysCodec.fieldOr_of_get "tier_after_days" none (ruleJson r) r.tierAfterDays rfl
    have h5 := daysCodec.fieldOr_of_get "expire_after_days" none (ruleJson r)
      r.expireAfterDays rfl
    have h6 := daysCodec.fieldOr_of_get "noncurrent_expire_after_days" none (ruleJson r)
      r.noncurrentExpireAfterDays rfl
    have h7 := daysCodec.fieldOr_of_get "abort_multipart_after_days" none (ruleJson r)
      r.abortMultipartAfterDays rfl
    simp [h1, h2, h3, h4, h5, h6, h7]

def policyCodec : JsonCodec (List RuleDocument) where
  encode rules := .obj [("rules".toList,ruleCodec.list.encode rules)]
  decode j := ruleCodec.list.fieldOr "rules" [] j
  decode_encode rules := ruleCodec.list.fieldOr_of_get "rules" [] _ rules rfl

def currentSchemaVersion : ℤ := 1

structure BucketMetadata where
  schemaVersion : ℤ
  createdAt : ℤ
  lifecycle : List RuleDocument
deriving DecidableEq

def BucketMetadata.new (now : ℤ) : BucketMetadata := ⟨currentSchemaVersion,now,[]⟩

section
variable (dt : DatetimeText)

def metadataJson (m : BucketMetadata) : Json :=
  .obj [("schema_version".toList,.num m.schemaVersion),
    ("created_at".toList,(instantText dt).encode m.createdAt),
    ("lifecycle".toList,policyCodec.encode m.lifecycle)]

/-- A document without a birth date is read as born now. -/
def metadataCodec (now : ℤ) : JsonCodec BucketMetadata where
  encode := metadataJson dt
  decode j := do
    let schemaVersion ← JsonCodec.int.fieldOr "schema_version" currentSchemaVersion j
    let createdAt ← (instantText dt).fieldOr "created_at" now j
    let lifecycle ← policyCodec.fieldOr "lifecycle" [] j
    some ⟨schemaVersion,createdAt,lifecycle⟩
  decode_encode m := by
    have h1 := JsonCodec.int.fieldOr_of_get "schema_version" currentSchemaVersion
      (metadataJson dt m) m.schemaVersion rfl
    have h2 := (instantText dt).fieldOr_of_get "created_at" now (metadataJson dt m)
      m.createdAt rfl
    have h3 := policyCodec.fieldOr_of_get "lifecycle" [] (metadataJson dt m) m.lifecycle rfl
    simp [h1, h2, h3]

end

def preconditionWire (precondition : Option Precondition) : Json :=
  match precondition.getD .none with
  | .ifMatch etag => .obj [("type".toList,.str "if_match".toList), ("etag".toList,.str etag)]
  | .ifNoneMatchStar => .obj [("type".toList,.str "if_none_match_star".toList)]
  | .none => .obj [("type".toList,.str "none".toList)]

/-- `none` when the guard has no etag to compare. -/
def preconditionFromWire (payload : Json) : Option Precondition := do
  let kind ← JsonCodec.text.fieldOr "type" "none".toList payload
  if kind = "if_match".toList then (JsonCodec.text.field "etag" payload).map Precondition.ifMatch
  else if kind = "if_none_match_star".toList then some .ifNoneMatchStar
  else some .none

theorem preconditionFromWire_wire (precondition : Option Precondition) :
    preconditionFromWire (preconditionWire precondition) = some (precondition.getD .none) := by
  unfold preconditionWire
  cases precondition.getD .none with
  | none => rfl
  | ifMatch etag => rfl
  | ifNoneMatchStar => rfl

def objectRefWire (ref : ObjectRef) : Json :=
  match ref with
  | none => .obj [("type".toList,.str "latest".toList)]
  | some id => .obj [("type".toList,.str "version".toList), ("id".toList,.num id)]

/-- `none` when a version is asked for without an id. -/
def objectRefFromWire (payload : Json) : Option ObjectRef :=
  if JsonCodec.text.field "type" payload = some "version".toList then
    (JsonCodec.int.field "id" payload).map some
  else some none

theorem objectRefFromWire_wire (ref : ObjectRef) :
    objectRefFromWire (objectRefWire ref) = some ref := by
  cases ref with
  | none => rfl
  | some id => rfl

end BackendGauntlet.ObjectStore
