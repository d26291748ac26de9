import BackendGauntlet.ObjectStoreNaming
import BackendGauntlet.Percent
import Mathlib.Tactic.Linarith
import Mathlib.Tactic.Positivity

/-! The object gate: presigned URLs, bearer credentials and the ASGI middleware. -/
namespace BackendGauntlet.ObjectStore

open PyText Percent

structure AuthConfig where
  accessKeyId : Text
  secretAccessKey : Text

/-- A UTC instant in microseconds since the epoch, up to the last one `datetime` has. -/
structure Instant where
  micros : ℕ
  inRange : micros < 253402300800000000

/-- `int(datetime.timestamp())`: the nearest of the floats, which have 53 bits, cut to an integer.
There are no ties, as a million has only six factors of two. -/
def Instant.seconds (t : Instant) : ℤ :=
  let scale := 2^(52-(t.micros/1000000).log2)
  (((2*t.micros*scale+1000000)/2000000/scale : ℕ) : ℤ)

/-- Where the floats get so sparse that the last microsecond of a second rounds up. -/
def exactSeconds : ℕ := 2^34

section
variable {t : Instant}

theorem Instant.seconds_nonneg : 0 ≤ t.seconds := by
  rw [Instant.seconds]
  exact Int.natCast_nonneg _

theorem Instant.le_seconds_iff {e : ℕ} : (e : ℤ) ≤ t.seconds ↔
    e*2000000*2^(52-(t.micros/1000000).log2) ≤
      2*t.micros*2^(52-(t.micros/1000000).log2)+1000000 := by
  rw [Instant.seconds, Nat.cast_le, Nat.div_div_eq_div_mul, Nat.le_div_iff_mul_le (by positivity),
    Nat.mul_assoc e]

theorem Instant.le_seconds {e : ℕ} (h : 1000000*e ≤ t.micros) : (e : ℤ) ≤ t.seconds := by
  rw [le_seconds_iff]
  exact le_add_right (Nat.mul_le_mul_right _ (by omega))

theorem Instant.seconds_lt {e : ℕ} (h : t.micros < 1000000*e) (he : e ≤ exactSeconds) :
    t.seconds < e := by
  rw [← not_le, le_seconds_iff]
  -- half a unit in the last place is less than a microsecond
  have hlog : (t.micros/1000000).log2 ≤ 33 := by
    rcases Nat.eq_zero_or_pos (t.micros/1000000) with hs | hs
    · rw [hs]
      decide
    · rw [← Nat.lt_succ_iff, Nat.log2_lt (by omega)]
      unfold exactSeconds at he
      omega
  have hscale : 2^19 ≤ 2^(52-(t.micros/1000000).log2) :=
    Nat.pow_le_pow_right (by decide) (by omega)
  generalize 2^(52-(t.micros/1000000).log2) = scale at hscale ⊢
  nlinarith

theorem Instant.seconds_last {e : ℕ} (h : t.micros+1 = 1000000*e) (he : exactSeconds < e) :
    (e : ℤ) ≤ t.seconds := by
  rw [le_seconds_iff]
  unfold exactSeconds at he
  have hlog : 34 ≤ (t.micros/1000000).log2 := by
    rw [Nat.le_log2 (by omega)]
    omega
  have hscale : 2^(52-(t.micros/1000000).log2) ≤ 2^18 :=
    Nat.pow_le_pow_right (by decide) (by omega)
  generalize 2^(52-(t.micros/1000000).log2) = scale at hscale ⊢
  nlinarith

end

structure PresignRequest where
  method : Text
  bucket : Text
  key : Text
  expiresAt : Instant

structure PresignedUrl where
  pathAndQuery : Text
  expires : ℤ
deriving DecidableEq

def queryExpires : Text := "expires".toList
def querySignature : Text := "signature".toList

inductive AuthError
  | accessDenied
  | typeError
deriving DecidableEq

/-- `hmac.compare_digest` on two `str`: it refuses to compare beyond ASCII. -/
def compareDigest (a b : Text) : Except AuthError Bool :=
  if a.all (fun c => c.toNat < 128) && b.all (fun c => c.toNat < 128) then .ok (a == b)
  else .error .typeError

def credentialsMatch (config : AuthConfig) (authorization : Option Text) : Except AuthError Bool :=
  match authorization with
  | none => .ok false
  | some header =>
    if ¬ "Bearer ".toList <+: header then .ok false
    else
      let token := header.drop "Bearer ".toList.length
      match cut ':' token with
      | some (keyId,secret) => do
        if ← compareDigest keyId config.accessKeyId then
          compareDigest secret config.secretAccessKey
        else return false
      | none => compareDigest token config.secretAccessKey

/-- An HTTP request as the ASGI scope holds it: the path is already decoded once. -/
structure Request where
  method : Text
  path : Text
  queryString : List ℕ
  headers : List (List ℕ × List ℕ)

def latin1 (bs : List ℕ) : Text := bs.map Char.ofNat

def lowerLatin1 (c : Char) : Char :=
  if (65 ≤ c.toNat ∧ c.toNat ≤ 90) ∨ (0xC0 ≤ c.toNat ∧ c.toNat ≤ 0xDE ∧ c.toNat ≠ 0xD7) then
    Char.ofNat (c.toNat+32)
  else c

/-- `headers.get(name)` in the dictionary the middleware builds: the last one wins. -/
def Request.header (r : Request) (name : Text) : Option Text :=
  (r.headers.reverse.find? (fun h => (latin1 h.1).map lowerLatin1 == name)).map
    (fun h => latin1 h.2)

def Request.query (r : Request) (name : Text) : Option Text :=
  parseQsFirst (latin1 r.queryString) name

def Request.signature (r : Request) : Option Text :=
  (r.query querySignature).filter (fun s => s ≠ [])

def Request.expires (r : Request) : Option (Option ℤ) :=
  match r.query queryExpires with
  | none => some none
  | some raw => (parseInt raw).map some

def gatedPath (path : Text) : Option (Text × Text) :=
  match cut '/' (lstrip '/' path) with
  | none => none
  | some (bucket,key) =>
    if bucket = [] ∨ key = [] ∨ bucket = "presign".toList then none else some (bucket,key)

inductive GateOutcome
  | forward
  | deny
  | raised (e : AuthError)
deriving DecidableEq

def asciiUpper (s : Text) : Text :=
  s.map (fun c => if 97 ≤ c.toNat ∧ c.toNat ≤ 122 then Char.ofNat (c.toNat-32) else c)

section
variable (upper : Text → Text) (mac : Text → Text → Text)

def canonicalString (method bucket key : Text) (expires : ℤ) : Text :=
  upper method ++ '\n' :: '/' :: (bucket ++ '/' :: (key ++ '\n' :: intText expires))

def sign (config : AuthConfig) (request : PresignRequest) (now : Instant) :
    Except AppError PresignedUrl :=
  let expires := request.expiresAt.seconds
  if expires ≤ now.seconds then .error (.invalidRequest "presign expiry must be in the future")
  else
    let signature := mac config.secretAccessKey
      (canonicalString upper request.method request.bucket request.key expires)
    let path := '/' :: (request.bucket ++ '/' :: quote ['/'] request.key)
    .ok ⟨path ++ '?' :: (queryExpires ++ '=' :: intText expires ++
      '&' :: (querySignature ++ '=' :: signature)),expires⟩

def verify (config : AuthConfig) (method bucket key : Text) (expires : ℤ) (signature : Text)
    (now : Instant) : Except AuthError Unit :=
  if expires ≤ now.seconds then .error .accessDenied
  else do
    let expected := mac config.secretAccessKey (canonicalString upper method bucket key expires)
    if ← compareDigest expected signature then return () else throw .accessDenied

def authorizeObject (config : AuthConfig) (method bucket key : Text) (expires : Option ℤ)
    (signature authorization : Option Text) (now : Instant) : Except AuthError Unit :=
  if expires.isSome ∨ signature.isSome then
    match expires, signature with
    | some e, some s =>
      if s = [] then .error .accessDenied else verify upper mac config method bucket key e s now
    | _, _ => .error .accessDenied
  else do
    if ← credentialsMatch config authorization then return () else throw .accessDenied

/-- The key is percent-decoded once more here. A malformed expiry ends it before. -/
def authorizeRequest (config : AuthConfig) (r : Request) (bucket key : Text) (now : Instant) :
    Except AuthError Unit :=
  match r.expires with
  | none => .error .accessDenied
  | some expires =>
    authorizeObject upper mac config r.method bucket (unquote key) expires r.signature
      (r.header "authorization".toList) now

def objectAuthMiddleware (config : Option AuthConfig) (r : Request) (now : Instant) :
    GateOutcome :=
  match config with
  | none => .forward
  | some config =>
    match gatedPath r.path with
    | none => .forward
    | some (bucket,key) =>
      match authorizeRequest upper mac config r bucket key now with
      | .ok _ => .forward
      | .error .accessDenied => .deny
      | .error .typeError => .raised .typeError

end

theorem gatedPath_object (bucket key : Text) (hb : bucket ≠ []) (hs : '/' ∉ bucket)
    (hk : key ≠ []) :
    gatedPath ('/' :: (bucket ++ '/' :: key)) =
      if bucket = "presign".toList then none else some (bucket,key) := by
  have hl : lstrip '/' ('/' :: (bucket ++ '/' :: key)) = bucket ++ '/' :: key := by
    cases bucket with
    | nil => exact False.elim (hb rfl)
    | cons c bucket =>
      have hc : c ≠ '/' := fun h => hs (by simp [h])
      simp [lstrip, hc]
  have hcut := (cut_eq_some_iff '/' (bucket ++ '/' :: key) bucket key).mpr ⟨rfl,hs⟩
  simp only [gatedPath, hl, hcut, hb, hk, false_or]

theorem forward_iff_authorized (upper : Text → Text) (mac : Text → Text → Text)
    (config : AuthConfig) {r : Request} {bucket key : Text} (now : Instant)
    (hg : gatedPath r.path = some (bucket,key)) :
    objectAuthMiddleware upper mac (some config) r now = .forward ↔
      authorizeRequest upper mac config r bucket key now = .ok () := by
  simp only [objectAuthMiddleware, hg]
  cases authorizeRequest upper mac config r bucket key now with
  | ok u => simp
  | error e => cases e <;> simp

theorem compareDigest_ok_true_iff (a b : Text) :
    compareDigest a b = .ok true ↔ a = b ∧ ∀ c ∈ a, c.toNat < 128 := by
  unfold compareDigest
  split_ifs with h
  · simp only [Bool.and_eq_true, List.all_eq_true, decide_eq_true_eq] at h
    simp only [Except.ok.injEq, beq_iff_eq]
    exact ⟨fun he => ⟨he,h.1⟩,fun he => he.1⟩
  · simp only [false_iff]
    rintro ⟨rfl,ha⟩
    exact h (by simpa using ha)

/-- Accepted exactly when unexpired and signed by the keyed hash of its own claims. -/
theorem verify_ok_iff (upper : Text → Text) (mac : Text → Text → Text) {config : AuthConfig}
    {method bucket key : Text} {expires : ℤ} {signature : Text} {now : Instant} :
    verify upper mac config method bucket key expires signature now = .ok () ↔
      now.seconds < expires ∧
      signature = mac config.secretAccessKey (canonicalString upper method bucket key expires) ∧
      ∀ c ∈ signature, c.toNat < 128 := by
  unfold verify
  split_ifs with h
  · simp only [false_iff]
    rintro ⟨hlt,_⟩
    omega
  · have hc := compareDigest_ok_true_iff
      (mac config.secretAccessKey (canonicalString upper method bucket key expires)) signature
    have hlt : now.seconds < expires := by omega
    cases hd : compareDigest
        (mac config.secretAccessKey (canonicalString upper method bucket key expires))
          signature with
    | error e =>
      simp only [bind, Except.bind, hd, reduceCtorEq, false_iff]
      rintro ⟨_,hs,ha⟩
      have := hc.mpr ⟨hs.symm,hs ▸ ha⟩
      rw [hd] at this
      cases this
    | ok b =>
      rw [hd] at hc
      cases b with
      | true =>
        obtain ⟨he,ha⟩ := hc.mp rfl
        simp only [bind, Except.bind, hd, if_true, pure, Except.pure, true_iff]
        exact ⟨hlt,he.symm,he ▸ ha⟩
      | false =>
        simp only [bind, Except.bind, hd, Bool.false_eq_true, if_false, throw, throwThe,
          MonadExceptOf.throw, reduceCtorEq, false_iff]
        rintro ⟨_,hs,ha⟩
        have := hc.mpr ⟨hs.symm,hs ▸ ha⟩
        cases this

end BackendGauntlet.ObjectStore
