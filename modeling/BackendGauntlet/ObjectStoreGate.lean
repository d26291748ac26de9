import BackendGauntlet.ObjectStoreAuth
import BackendGauntlet.ObjectStoreS3Xml

/-! The answers of the object gate: it forwards, sends one `403`, or raises. -/
namespace BackendGauntlet.ObjectStore

open PyText

inductive AsgiMessage
  | responseStart (status : ℕ) (headers : List (Text × Text))
  | responseBody (body : List ℕ)
deriving DecidableEq

def denyBody : List ℕ := Utf8.encode (errorXml "AccessDenied".toList "access denied".toList)

def denyMessages : List AsgiMessage :=
  [.responseStart 403 [("content-type".toList,"application/xml".toList),
      ("content-length".toList,intText denyBody.length)],
    .responseBody denyBody]

structure GateRun where
  forwarded : ℕ
  sent : List AsgiMessage
  raised : Option AuthError
deriving DecidableEq

def DeniesAccess (sent : List AsgiMessage) : Prop :=
  ∃ body, sent = [.responseStart 403 [("content-type".toList,"application/xml".toList),
      ("content-length".toList,intText body.length)], .responseBody body] ∧
    parseError body = .ok ⟨"AccessDenied".toList,"access denied".toList⟩

def GateRun.answers (run : GateRun) : Prop :=
  run.raised = none ∧ (run.forwarded = 1 ∧ run.sent = [] ∨
    run.forwarded = 0 ∧ DeniesAccess run.sent)

def isAscii (t : Text) : Bool := t.all (fun c => c.toNat < 128)

def comparable (p : Text × Text) : Bool := isAscii p.1 && isAscii p.2

/-- What `credentials_match` compares is ASCII: the token, or the key id before its colon and, if
this is the configured one, the secret behind it. -/
structure BearerAscii (config : AuthConfig) (authorization : Option Text) : Prop where
  token : ∀ token, authorization = some ("Bearer ".toList ++ token) → ':' ∉ token →
    comparable (token,config.secretAccessKey) = true
  pair : ∀ keyId secret, authorization = some ("Bearer ".toList ++ (keyId ++ ':' :: secret)) →
    ':' ∉ keyId → comparable (keyId,config.accessKeyId) = true ∧
      (keyId = config.accessKeyId → comparable (secret,config.secretAccessKey) = true)

section
variable (upper : Text → Text) (mac : Text → Text → Text)

def gateRun (config : AuthConfig) (r : Request) (now : Instant) : GateRun :=
  match objectAuthMiddleware upper mac (some config) r now with
  | .forward => ⟨1,[],none⟩
  | .deny => ⟨0,denyMessages,none⟩
  | .raised e => ⟨0,[],some e⟩

/-- What the gate compares for a request with these fields is ASCII: the signature if there is one
that has not expired, and the bearer credentials if the query has neither field. -/
structure CredentialsAscii (config : AuthConfig) (method bucket key : Text) (expires : Option ℤ)
    (signature authorization : Option Text) (now : Instant) : Prop where
  signed : ∀ e s, expires = some e → signature = some s → s ≠ [] → now.seconds < e →
    comparable (mac config.secretAccessKey (canonicalString upper method bucket key e),s) = true
  bearer : expires = none → signature = none → BearerAscii config authorization

theorem compareDigest_eq (a b : Text) :
    compareDigest a b = if comparable (a,b) then .ok (a == b) else .error .typeError := rfl

theorem compareDigest_ne_typeError_iff {a b : Text} :
    compareDigest a b ≠ .error .typeError ↔ comparable (a,b) = true := by
  rw [compareDigest_eq]
  split_ifs with h <;> simp [h]

variable (config : AuthConfig)

theorem bearerAscii_iff (token : Text) :
    BearerAscii config (some ("Bearer ".toList ++ token)) ↔
      match cut ':' token with
      | some (keyId,secret) => comparable (keyId,config.accessKeyId) = true ∧
          (keyId = config.accessKeyId → comparable (secret,config.secretAccessKey) = true)
      | none => comparable (token,config.secretAccessKey) = true := by
  cases hcut : cut ':' token with
  | none =>
    have hcolon := (cut_eq_none_iff ':' token).mp hcut
    constructor
    · intro h
      exact h.token token rfl hcolon
    · intro h
      refine ⟨?_,?_⟩
      · intro token' htoken _
        cases List.append_cancel_left (Option.some.inj htoken)
        exact h
      · intro keyId secret htoken
        cases List.append_cancel_left (Option.some.inj htoken)
        simp at hcolon
  | some p =>
    obtain ⟨keyId,secret⟩ := p
    obtain ⟨rfl,hid⟩ := (cut_eq_some_iff ':' token keyId secret).mp hcut
    constructor
    · intro h
      exact h.pair keyId secret rfl hid
    · intro h
      refine ⟨?_,?_⟩
      · intro token' htoken hcolon
        cases List.append_cancel_left (Option.some.inj htoken)
        simp at hcolon
      · intro keyId' secret' htoken hid'
        have hsame := List.append_cancel_left (Option.some.inj htoken)
        have hcut' := (cut_eq_some_iff ':' _ keyId' secret').mpr ⟨hsame,hid'⟩
        cases hcut.symm.trans hcut'
        exact h

theorem credentialsMatch_ne_typeError_iff (authorization : Option Text) :
    credentialsMatch config authorization ≠ .error .typeError ↔
      BearerAscii config authorization := by
  cases authorization with
  | none => exact iff_of_true (by simp [credentialsMatch]) ⟨by simp,by simp⟩
  | some header =>
    unfold credentialsMatch
    by_cases hbearer : "Bearer ".toList <+: header
    · obtain ⟨token,rfl⟩ := hbearer
      simp only [List.prefix_append, not_true, if_false, List.drop_left, bearerAscii_iff]
      cases cut ':' token with
      | none => exact compareDigest_ne_typeError_iff
      | some p =>
        obtain ⟨keyId,secret⟩ := p
        simp only [compareDigest_eq keyId]
        by_cases hid : comparable (keyId,config.accessKeyId) = true
        · simp only [hid, if_true, true_and, bind, Except.bind, beq_iff_eq]
          -- the second comparison is made if the first one succeeds
          split_ifs with heq
          · simpa only [heq, true_imp_iff] using compareDigest_ne_typeError_iff
          · simp [heq, pure, Except.pure]
        · simp [hid, bind, Except.bind]
    · simp only [hbearer, not_false_eq_true, if_true]
      refine iff_of_true (by simp) ⟨?_,?_⟩
      · rintro token ⟨⟩
        exact absurd (List.prefix_append _ _) hbearer
      · rintro keyId secret ⟨⟩
        exact absurd (List.prefix_append _ _) hbearer

theorem verify_ne_typeError_iff (method bucket key : Text) (expires : ℤ)
    (signature : Text) (now : Instant) :
    verify upper mac config method bucket key expires signature now ≠ .error .typeError ↔
      expires ≤ now.seconds ∨ comparable (mac config.secretAccessKey
        (canonicalString upper method bucket key expires),signature) = true := by
  unfold verify
  by_cases hexpired : expires ≤ now.seconds
  · simp [hexpired]
  · simp only [hexpired, if_false, false_or, compareDigest_eq]
    split_ifs with h
    · simp only [h, bind, Except.bind, iff_true]
      split_ifs <;> simp [pure, Except.pure, throw, throwThe, MonadExceptOf.throw]
    · simp [h, bind, Except.bind]

theorem authorizeObject_ne_typeError_iff {method bucket key : Text}
    {expires : Option ℤ} {signature authorization : Option Text} (now : Instant) :
    authorizeObject upper mac config method bucket key expires signature authorization now ≠
        .error .typeError ↔
      CredentialsAscii upper mac config method bucket key expires signature authorization now := by
  unfold authorizeObject
  cases expires with
  | some e =>
    cases signature with
    | some s =>
      simp only [Option.isSome_some, true_or, if_true]
      by_cases hs : s = []
      · rw [if_pos hs]
        exact iff_of_true (by simp) ⟨by simp [hs],by simp⟩
      · rw [if_neg hs, verify_ne_typeError_iff, ← not_lt, ← imp_iff_not_or]
        constructor
        · intro h
          refine ⟨?_,by simp⟩
          rintro _ _ ⟨⟩ ⟨⟩ _ hlive
          exact h hlive
        · intro h hlive
          exact h.signed e s rfl rfl hs hlive
    | none => exact iff_of_true (by simp) ⟨by simp,by simp⟩
  | none =>
    cases signature with
    | some s => exact iff_of_true (by simp) ⟨by simp,by simp⟩
    | none =>
      have hascii : CredentialsAscii upper mac config method bucket key none none authorization
          now ↔ BearerAscii config authorization :=
        ⟨fun h => h.bearer rfl rfl,fun h => ⟨by simp,fun _ _ => h⟩⟩
      rw [hascii, ← credentialsMatch_ne_typeError_iff]
      simp only [Option.isSome_none, Bool.false_eq_true, or_self, if_false]
      cases credentialsMatch config authorization with
      | error e => simp [bind, Except.bind]
      | ok b => cases b <;> simp [bind, Except.bind, pure, Except.pure, throw, throwThe,
          MonadExceptOf.throw]

theorem deniesAccess_denyMessages : DeniesAccess denyMessages :=
  ⟨denyBody,rfl,by decide +kernel⟩

theorem gateRun_answers_iff_outcome (r : Request) (now : Instant) :
    (gateRun upper mac config r now).answers ↔
      ∀ e, objectAuthMiddleware upper mac (some config) r now ≠ .raised e := by
  unfold gateRun
  cases objectAuthMiddleware upper mac (some config) r now with
  | forward => simp [GateRun.answers]
  | deny => simp [GateRun.answers, deniesAccess_denyMessages]
  | raised e => simp [GateRun.answers]

theorem authorizeRequest_ne_typeError_iff {r : Request} (bucket key : Text) (now : Instant) :
    authorizeRequest upper mac config r bucket key now ≠ .error .typeError ↔
      ∀ expires, r.expires = some expires → CredentialsAscii upper mac config r.method bucket
        (Percent.unquote key) expires r.signature (r.header "authorization".toList) now := by
  unfold authorizeRequest
  cases r.expires with
  | none => simp
  | some expires =>
    simp only [Option.some.injEq, forall_eq']
    exact authorizeObject_ne_typeError_iff upper mac config now

/-- The gate forwards or denies with one `403` exactly if all texts for `hmac.compare_digest` are
ASCII. -/
theorem gate_answers_iff (config : AuthConfig) (r : Request) (now : Instant) :
    (gateRun upper mac config r now).answers ↔
      ∀ bucket key expires, gatedPath r.path = some (bucket,key) → r.expires = some expires →
        CredentialsAscii upper mac config r.method bucket (Percent.unquote key) expires r.signature
          (r.header "authorization".toList) now := by
  rw [gateRun_answers_iff_outcome]
  cases hpath : gatedPath r.path with
  | none => simp [objectAuthMiddleware, hpath]
  | some p =>
    obtain ⟨bucket,key⟩ := p
    have hrequest := authorizeRequest_ne_typeError_iff upper mac config (r := r) bucket key now
    simp only [objectAuthMiddleware, hpath, Option.some.injEq, Prod.mk.injEq, and_imp]
    constructor
    · rintro h _ _ expires rfl rfl
      refine hrequest.mp ?_ expires
      intro htype
      exact h .typeError (by rw [htype])
    · intro h e
      have hrequest := hrequest.mpr (fun expires => h bucket key expires rfl rfl)
      cases hrun : authorizeRequest upper mac config r bucket key now with
      | ok u => simp
      | error e => cases e <;> simp_all

end

def requestWith (query : String) (authorization : Option (List ℕ)) : Request where
  method := "GET".toList
  path := "/photos/a".toList
  queryString := query.toList.map Char.toNat
  headers := authorization.toList.map (fun value => ("authorization".toList.map Char.toNat,value))

def localGate (r : Request) : GateRun :=
  gateRun asciiUpper (fun _ _ => List.replicate 64 '0') ⟨"local".toList,"secret".toList⟩ r
    ⟨1700000000000000,by decide⟩

/-- A token with the octet `0xE9`, and a signature that decodes to it, end with the `TypeError`. -/
theorem non_ascii_credentials_escape :
    localGate (requestWith "" (some ("Bearer ".toList.map Char.toNat ++ [0xE9]))) =
      ⟨0,[],some .typeError⟩ ∧
    localGate (requestWith "expires=1800000000&signature=%C3%A9" none) =
      ⟨0,[],some .typeError⟩ := by
  decide +kernel

end BackendGauntlet.ObjectStore
