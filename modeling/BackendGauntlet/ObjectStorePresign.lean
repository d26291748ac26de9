import BackendGauntlet.ObjectStoreAuthMediation

/-! Presigned URLs from minting to use. -/
namespace BackendGauntlet.ObjectStore

open PyText Percent List

def NoCollision (mac : Text → Text → Text) (secret x y : Text) : Prop :=
  mac secret x = mac secret y → x = y

/-- `hexdigest()` returns lowercase hexadecimal digits, at least one. -/
structure HexOutput (mac : Text → Text → Text) : Prop where
  ne_nil : ∀ secret x, mac secret x ≠ []
  hex : ∀ secret x, ∀ c ∈ mac secret x,
    (48 ≤ c.toNat ∧ c.toNat ≤ 57) ∨ (97 ≤ c.toNat ∧ c.toNat ≤ 102)

theorem intText_plain {n : ℤ} (c : Char) (hc : c ∈ intText n) : 45 ≤ c.toNat ∧ c.toNat ≤ 57 := by
  rcases mem_intText hc with hd | rfl
  · have := isDigit_toNat c hd
    omega
  · decide

theorem newline_not_mem_intText (n : ℤ) : '\n' ∉ intText n := by
  intro h
  exact absurd (intText_plain '\n' h) (by decide)

variable (upper : Text → Text)

/-- The four claims are read back from a canonical string, the method up to its case. -/
theorem canonicalString_eq_iff
    (hup : ∀ m, '\n' ∉ m → '\n' ∉ upper m) {m m' : Text} (hm : '\n' ∉ m) (hm' : '\n' ∉ m')
    (b b' : Bucket) (k k' : Text) (e e' : ℤ) :
    canonicalString upper m b.text k e = canonicalString upper m' b'.text k' e' ↔
      upper m = upper m' ∧ b.text = b'.text ∧ k = k' ∧ e = e' := by
  constructor
  · intro h
    obtain ⟨h1,h2⟩ := append_sep_inj '\n' _ _ _ _ (hup m hm) (hup m' hm') h
    obtain ⟨h3,h4⟩ := append_sep_inj '/' _ _ _ _ (bucket_plain b).1 (bucket_plain b').1
      (cons.inj h2).2
    -- The key may hold newlines, the expiry none: the last newline separates them.
    obtain ⟨h5,h6⟩ := append_sep_inj_last '\n' _ _ _ _ (newline_not_mem_intText e)
      (newline_not_mem_intText e') h4
    exact ⟨h1,h3,h5,intText_injective h6⟩
  · rintro ⟨h1,h2,h3,h4⟩
    simp only [canonicalString, h1, h2, h3, h4]

/-- Without a bearer token, an unexpired signature over the request's own claims. -/
theorem authorizeRequest_presigned (mac : Text → Text → Text)
    {config : AuthConfig} {r : Request} {bucket key : Text} {now : Instant}
    (hp : r.signature ≠ none ∨ credentialsMatch config (r.header "authorization".toList) ≠ .ok true)
    (ha : authorizeRequest upper mac config r bucket key now = .ok ()) :
    ∃ e s, r.expires = some (some e) ∧ r.signature = some s ∧ now.seconds < e ∧
      s = mac config.secretAccessKey
        (canonicalString upper r.method bucket (unquote key) e) := by
  unfold authorizeRequest at ha
  cases hx : r.expires with
  | none =>
    rw [hx] at ha
    cases ha
  | some x =>
    rw [hx] at ha
    simp only [authorizeObject] at ha
    split_ifs at ha with hq
    · cases x with
      | none => cases ha
      | some e =>
        cases hs : r.signature with
        | none =>
          rw [hs] at ha
          cases ha
        | some s =>
          rw [hs] at ha
          simp only at ha
          split_ifs at ha
          have hv := (verify_ok_iff _ _).mp ha
          exact ⟨e,s,rfl,rfl,hv.1,hv.2.1⟩
    · -- Neither parameter is there, so the bearer token must have matched.
      exfalso
      rcases hp with hp | hp
      · exact hq (Or.inr (Option.isSome_iff_ne_none.mpr hp))
      · cases hc : credentialsMatch config (r.header "authorization".toList) with
        | error err =>
          simp only [bind, Except.bind, hc] at ha
          cases ha
        | ok ok =>
          cases ok with
          | true => exact hp hc
          | false =>
            simp only [bind, Except.bind, hc] at ha
            cases ha

/-- A presigned request that the gate forwards acts on the bucket, key, expiry and method that were
signed. Exempt buckets and keys that a second decoding changes are outside the statement. -/
theorem presigned_request_binds_claims (upper : Text → Text) (mac : Text → Text → Text)
    (hup : ∀ m, '\n' ∉ m → '\n' ∉ upper m) (hfix : ∀ h : Handler, upper h.method = h.method)
    (config : AuthConfig) :
    (∀ (r : Request) (now : Instant) (h : Handler) (bucket : Bucket) (key : Key),
      bucket.text ≠ "presign".toList → hasEscape key.text = false →
      r.method = h.method → r.path = objectPath bucket.text key.text →
      objectAuthMiddleware upper mac (some config) r now = .forward →
      (r.signature ≠ none ∨
        credentialsMatch config (r.header "authorization".toList) ≠ .ok true) →
      ∃ e s, r.expires = some (some e) ∧ r.signature = some s ∧
        ∀ (m' : Text) (b' : Bucket) (k' : Text) (e' : ℤ), '\n' ∉ m' →
          s = mac config.secretAccessKey (canonicalString upper m' b'.text k' e') →
          NoCollision mac config.secretAccessKey (canonicalString upper m' b'.text k' e')
            (canonicalString upper r.method bucket.text key.text e) →
          upper m' = r.method ∧ b'.text = bucket.text ∧ k' = key.text ∧ e' = e) ∧
    (∀ (m m' : Text) (b b' : Bucket) (k k' : Text) (e e' : ℤ), '\n' ∉ m → '\n' ∉ m' →
      (canonicalString upper m b.text k e = canonicalString upper m' b'.text k' e' ↔
        upper m = upper m' ∧ b.text = b'.text ∧ k = k' ∧ e = e')) := by
  refine ⟨?_,fun m m' b b' k k' e e' hm hm' =>
    canonicalString_eq_iff upper hup hm hm' b b' k k' e e'⟩
  intro r now h bucket key hb hk hm hpath hf hp
  have hg := gatedPath_object bucket.text key.text (bucket_ne_nil bucket) (bucket_plain bucket).1
    (key_ne_nil key)
  rw [if_neg hb, show '/' :: (bucket.text ++ '/' :: key.text) = r.path from hpath.symm] at hg
  have ha := (forward_iff_authorized upper mac config now hg).mp hf
  obtain ⟨e,s,he,hs,_,hmac⟩ := authorizeRequest_presigned upper mac hp ha
  rw [(unquote_eq_self_iff key.text).mpr hk] at hmac
  refine ⟨e,s,he,hs,?_⟩
  intro m' b' k' e' hm' hs' hno
  have hrm : '\n' ∉ r.method := by
    rw [hm]
    cases h <;> decide
  have hc := hno (hs'.symm.trans hmac)
  obtain ⟨h1,h2,h3,h4⟩ :=
    (canonicalString_eq_iff upper hup hm' hrm b' bucket k' key.text e' e).mp hc
  exact ⟨by rw [h1, hm, hfix],h2,h3,h4⟩

theorem newline_not_mem_asciiUpper (m : Text) (hm : '\n' ∉ m) : '\n' ∉ asciiUpper m := by
  intro h
  obtain ⟨c,hc,hu⟩ := List.mem_map.mp h
  split_ifs at hu with hl
  · have h10 := congrArg Char.toNat hu
    rw [octet_toNat (c.toNat-32) (by omega)] at h10
    have : '\n'.toNat = 10 := rfl
    omega
  · exact hm (hu ▸ hc)

def photoRequest : Request where
  method := "GET".toList
  path := "/photos/a.jpg".toList
  queryString := ("expires=1700000000&signature=101aade93e54ec585d2ee0ed1ffabff5" ++
    "cfe15670c1b63b08d0efdbae5472174c").toList.map Char.toNat
  headers := []

/-- What HMAC-SHA256 gives under `s3cret` for the canonical string of `photoRequest`. -/
def photoMac : Text → Text → Text := fun _ _ =>
  "101aade93e54ec585d2ee0ed1ffabff5cfe15670c1b63b08d0efdbae5472174c".toList

theorem presigned_photo_binds_claims :
    ∃ e s, photoRequest.expires = some (some e) ∧ photoRequest.signature = some s ∧
      (s = photoMac "s3cret".toList
        (canonicalString asciiUpper "get".toList "photos".toList "a.jpg".toList 1700000000) →
        asciiUpper "get".toList = photoRequest.method ∧ 1700000000 = e) := by
  obtain ⟨e,s,he,hs,hbind⟩ := (presigned_request_binds_claims asciiUpper photoMac
    newline_not_mem_asciiUpper (fun h => by cases h <;> decide)
    ⟨"local".toList,"s3cret".toList⟩).1 photoRequest ⟨0,by decide⟩ .getObject
    ⟨"photos".toList,rfl⟩ ⟨"a.jpg".toList,rfl⟩ (by decide) rfl rfl rfl (by decide)
    (Or.inl (by decide))
  have he' : e = 1700000000 := by
    have h0 : photoRequest.expires = some (some 1700000000) := by decide
    simpa using he.symm.trans h0
  refine ⟨e,s,he,hs,fun hsig => ?_⟩
  have hb := hbind "get".toList ⟨"photos".toList,rfl⟩ "a.jpg".toList 1700000000 (by decide) hsig
    (fun _ => by rw [he']; decide)
  exact ⟨hb.1,hb.2.2.2⟩

/-- Two distinct claims with one canonical string: the method is upper-cased first. -/
theorem canonicalString_method_case :
    ("get".toList,"photos".toList,"a.jpg".toList,(1700000000 : ℤ)) ≠
      ("GET".toList,"photos".toList,"a.jpg".toList,1700000000) ∧
    '\n' ∉ "get".toList ∧ '\n' ∉ "GET".toList ∧
    Bucket.validate "photos".toList = .ok () ∧
    canonicalString asciiUpper "get".toList "photos".toList "a.jpg".toList 1700000000 =
      canonicalString asciiUpper "GET".toList "photos".toList "a.jpg".toList 1700000000 := by
  decide

/-- The request a client makes with a minted URL. The server splits off the query and
percent-decodes the path once. -/
def requestOf (method url : Text) (headers : List (List ℕ × List ℕ)) : Request :=
  match cut '?' url with
  | some (path,query) => ⟨method,unquote path,query.map Char.toNat,headers⟩
  | none => ⟨method,unquote url,[],headers⟩

def WorksUntilExpiry (upper : Text → Text) (mac : Text → Text → Text) (config : AuthConfig)
    (method : Text) (url : PresignedUrl) : Prop :=
  ∀ (headers : List (List ℕ × List ℕ)) (now : Instant),
    ((now.micros : ℤ) < 1000000*url.expires →
      objectAuthMiddleware upper mac (some config)
        (requestOf method url.pathAndQuery headers) now = .forward) ∧
    (1000000*url.expires ≤ (now.micros : ℤ) →
      objectAuthMiddleware upper mac (some config)
        (requestOf method url.pathAndQuery headers) now = .deny)

def presignQuery (expires : ℤ) (signature : Text) : Text :=
  queryExpires ++ '=' :: intText expires ++ '&' :: (querySignature ++ '=' :: signature)

theorem sign_ok (mac : Text → Text → Text) {config : AuthConfig}
    {request : PresignRequest} {now : Instant} {url : PresignedUrl}
    (hs : sign upper mac config request now = .ok url) :
    now.seconds < request.expiresAt.seconds ∧ url.expires = request.expiresAt.seconds ∧
    url.pathAndQuery = objectPath request.bucket (quote ['/'] request.key) ++ '?' ::
      presignQuery url.expires (mac config.secretAccessKey
        (canonicalString upper request.method request.bucket request.key url.expires)) := by
  unfold sign at hs
  simp only at hs
  split_ifs at hs with h
  simp only [Except.ok.injEq] at hs
  subst hs
  exact ⟨by omega,rfl,rfl⟩

theorem bucketChar_safe {c : Char} (hc : isBucketChar c = true) :
    c.toNat < 128 ∧ alwaysSafe c = true := by
  have hn : c.toNat < 128 := by
    simp only [isBucketChar, Bool.or_eq_true, Bool.and_eq_true, decide_eq_true_eq,
      beq_iff_eq] at hc
    rcases hc with (hc | hc) | rfl
    · omega
    · omega
    · decide
  have hall : ∀ n < 128, isBucketChar (Char.ofNat n) = true → alwaysSafe (Char.ofNat n) = true := by
    decide
  have hback : Char.ofNat c.toNat = c := Char.ofNat_toNat c
  exact ⟨hn,hback ▸ hall c.toNat hn (hback.symm ▸ hc)⟩

theorem quote_objectPath (bucket : Bucket) (key : Text) :
    quote ['/'] (objectPath bucket.text key) = objectPath bucket.text (quote ['/'] key) := by
  have hslash (s : Text) : quote ['/'] ('/' :: s) = '/' :: quote ['/'] s :=
    quote_cons_safe ['/'] '/' s (by decide) (Or.inr (by decide))
  have hbucket (b s : Text) (hb : ∀ c ∈ b, isBucketChar c = true) :
      quote ['/'] (b ++ s) = b ++ quote ['/'] s := by
    induction b with
    | nil => rfl
    | cons c b ih =>
      have hc := bucketChar_safe (hb c mem_cons_self)
      rw [cons_append, quote_cons_safe ['/'] c _ hc.1 (Or.inl hc.2),
        ih (fun x hx => hb x (mem_cons_of_mem c hx)), cons_append]
  simp only [objectPath, hslash, hbucket bucket.text _ (bucket_chars bucket)]

theorem requestOf_minted (method : Text) (bucket : Bucket) (key query : Text)
    (headers : List (List ℕ × List ℕ)) :
    requestOf method (objectPath bucket.text (quote ['/'] key) ++ '?' :: query) headers =
      ⟨method,objectPath bucket.text key,query.map Char.toNat,headers⟩ := by
  have hq : '?' ∉ quote ['/'] (objectPath bucket.text key) := by
    intro h
    rcases mem_quote h with h | h | h
    · exact (alwaysSafe_ne h).2.1 rfl
    · exact absurd h (by decide)
    · exact absurd h (by decide)
  have hcut := (cut_eq_some_iff '?' (objectPath bucket.text (quote ['/'] key) ++ '?' :: query)
    (objectPath bucket.text (quote ['/'] key)) query).mpr ⟨rfl,quote_objectPath bucket key ▸ hq⟩
  simp only [requestOf, hcut]
  rw [← quote_objectPath, unquote_quote ['/'] (by decide)]

theorem fieldSafe_of_range {s : Text}
    (hs : ∀ c ∈ s, (45 ≤ c.toNat ∧ c.toNat ≤ 57) ∨ (97 ≤ c.toNat ∧ c.toNat ≤ 122)) :
    fieldSafe s := by
  intro c hc
  have h := hs c hc
  refine ⟨?_,?_,?_,?_⟩ <;> rintro rfl <;> revert h <;> decide

theorem minted_query (mac : Text → Text → Text) (hmac : HexOutput mac) (secret x : Text)
    {expires : ℤ} (he : expires.natAbs < 10^12) (method path : Text)
    (headers : List (List ℕ × List ℕ)) :
    let r : Request := ⟨method,path,(presignQuery expires (mac secret x)).map Char.toNat,headers⟩
    r.expires = some (some expires) ∧ r.signature = some (mac secret x) := by
  intro r
  have hlatin : latin1 r.queryString = presignQuery expires (mac secret x) := by
    have hid : Char.ofNat ∘ Char.toNat = id := funext Char.ofNat_toNat
    simp [r, latin1, hid]
  have hqsl : parseQsl (latin1 r.queryString) =
      [(queryExpires,intText expires), (querySignature,mac secret x)] := by
    rw [hlatin, presignQuery]
    refine parseQsl_pair (fieldSafe_of_range (all_iff_forall_prop.mp (by decide)))
      (fieldSafe_of_range (fun c hc => Or.inl (intText_plain c hc)))
      (fieldSafe_of_range (all_iff_forall_prop.mp (by decide)))
      (fieldSafe_of_range ?_) (intText_ne_nil _) (hmac.ne_nil secret x)
    intro c hc
    have := hmac.hex secret x c hc
    omega
  have hdigits : (Nat.toDigits 10 expires.natAbs).length ≤ maxStrDigits :=
    ((Nat.length_toDigits_le_iff (by decide) (by decide)).mpr he).trans (by decide)
  constructor
  · have hq : r.query queryExpires = some (intText expires) := by
      simp [Request.query, parseQsFirst, hqsl]
    simp [Request.expires, hq, parseInt_intText hdigits]
  · have hne : (queryExpires == querySignature) = false := by decide
    have hq : r.query querySignature = some (mac secret x) := by
      simp [Request.query, parseQsFirst, hqsl, hne]
    simp [Request.signature, hq, hmac.ne_nil secret x]

theorem verify_of_ascii (mac : Text → Text → Text) (hmac : HexOutput mac)
    (config : AuthConfig) (method bucket key : Text) (expires : ℤ) (x : Text) (now : Instant) :
    verify upper mac config method bucket key expires (mac config.secretAccessKey x) now =
      if expires ≤ now.seconds ∨ mac config.secretAccessKey
        (canonicalString upper method bucket key expires) ≠ mac config.secretAccessKey x
      then .error .accessDenied else .ok () := by
  have hascii (y : Text) : (mac config.secretAccessKey y).all (fun c => c.toNat < 128) = true := by
    simp only [List.all_eq_true, decide_eq_true_eq]
    intro c hc
    have := hmac.hex config.secretAccessKey y c hc
    omega
  unfold verify
  by_cases he : expires ≤ now.seconds
  · rw [if_pos he, if_pos (Or.inl he)]
  · simp only [he, if_false, false_or, compareDigest, hascii, Bool.and_self, if_true, bind,
      Except.bind, beq_iff_eq, pure, Except.pure, throw, throwThe, MonadExceptOf.throw, ne_eq]
    split_ifs <;> rfl

theorem objectAuthMiddleware_minted (mac : Text → Text → Text)
    (hmac : HexOutput mac) (config : AuthConfig) (method : Text) {bucket : Bucket} (key : Key)
    {expires : ℤ} (he : expires.natAbs < 10^12) {x : Text} (hb : bucket.text ≠ "presign".toList)
    (headers : List (List ℕ × List ℕ)) (now : Instant) :
    objectAuthMiddleware upper mac (some config) ⟨method,objectPath bucket.text key.text,
      (presignQuery expires (mac config.secretAccessKey x)).map Char.toNat,headers⟩ now =
    if expires ≤ now.seconds ∨ mac config.secretAccessKey
        (canonicalString upper method bucket.text (unquote key.text) expires) ≠
          mac config.secretAccessKey x
    then .deny else .forward := by
  have hg := gatedPath_object bucket.text key.text (bucket_ne_nil bucket) (bucket_plain bucket).1
    (key_ne_nil key)
  rw [if_neg hb] at hg
  obtain ⟨hexp,hsig⟩ := minted_query mac hmac config.secretAccessKey x he method
    (objectPath bucket.text key.text) headers
  simp only [objectAuthMiddleware, objectPath, hg, authorizeRequest] at hexp hsig ⊢
  simp only [hexp, hsig, authorizeObject, Option.isSome_some, true_or, if_true,
    hmac.ne_nil config.secretAccessKey x, if_false, verify_of_ascii upper mac hmac]
  split_ifs <;> rfl

/-- Exactly when the bucket is gated, the second decoding leaves the key alone, and the seconds
before the expiry are floats that no rounding takes up to it. -/
theorem minted_url_works_iff (upper : Text → Text) (mac : Text → Text → Text)
    (hmac : HexOutput mac) (config : AuthConfig) (method : Text) (bucket : Bucket) (key : Key)
    (expiresAt minted : Instant) (url : PresignedUrl)
    (hs : sign upper mac config ⟨method,bucket.text,key.text,expiresAt⟩ minted = .ok url)
    (hno : NoCollision mac config.secretAccessKey
      (canonicalString upper method bucket.text (unquote key.text) expiresAt.seconds)
      (canonicalString upper method bucket.text key.text expiresAt.seconds))
    (hlast : url.expires < 253402300800) :
    WorksUntilExpiry upper mac config method url ↔
      bucket.text ≠ "presign".toList ∧ hasEscape key.text = false ∧ url.expires ≤ exactSeconds := by
  obtain ⟨hlt,hexp,hurl⟩ := sign_ok upper mac hs
  obtain ⟨e,he⟩ := Int.eq_ofNat_of_zero_le expiresAt.seconds_nonneg
  have hreq (headers : List (List ℕ × List ℕ)) :=
    requestOf_minted method bucket key.text (presignQuery url.expires (mac config.secretAccessKey
      (canonicalString upper method bucket.text key.text url.expires))) headers
  simp only at hurl hexp
  have hdigits : expiresAt.seconds.natAbs < 10^12 := by omega
  simp only [hexp] at hreq hurl
  unfold WorksUntilExpiry
  simp only [hurl, hreq]
  rw [hexp] at hlast ⊢
  constructor
  · intro hw
    have hb : bucket.text ≠ "presign".toList := by
      intro hb
      have hdeny := (hw [] ⟨1000000*e,by omega⟩).2 (by rw [he]; simp)
      rw [forward_of_presign upper mac config _ key.text (key_ne_nil key) (by rw [← hb])] at hdeny
      exact absurd hdeny (by decide)
    refine ⟨hb,?_,?_⟩
    · by_contra hesc
      -- The URL is still valid at the instant of its minting.
      have hbefore : (minted.micros : ℤ) < 1000000*expiresAt.seconds := by
        by_contra hnot
        have hle := minted.le_seconds (e := e) (by omega)
        exact absurd hlt (by rw [he]; omega)
      have hfwd := (hw [] minted).1 hbefore
      rw [objectAuthMiddleware_minted upper mac hmac config method key hdigits hb] at hfwd
      split_ifs at hfwd with hc
      have hsame := hno (not_not.mp (not_or.mp hc).2)
      apply hesc
      rw [← unquote_eq_self_iff]
      simpa [canonicalString] using hsame
    · by_contra hlate
      have hpos : exactSeconds < e := by omega
      -- the last microsecond before the expiry counts as the expiry
      have hfwd := (hw [] ⟨1000000*e-1,by omega⟩).1 (by rw [he]; simp; omega)
      rw [objectAuthMiddleware_minted upper mac hmac config method key hdigits hb, if_pos] at hfwd
      · cases hfwd
      · rw [he]
        exact Or.inl (Instant.seconds_last (by simp; omega) hpos)
  · rintro ⟨hb,hesc,hexact⟩ headers now
    rw [objectAuthMiddleware_minted upper mac hmac config method key hdigits hb,
      (unquote_eq_self_iff key.text).mpr hesc]
    simp only [ne_eq, not_true_eq_false, or_false]
    constructor
    · intro hnow
      have hlt := now.seconds_lt (e := e) (by omega) (by omega)
      rw [if_neg (by omega)]
    · intro hnow
      have hle := now.le_seconds (e := e) (by omega)
      rw [if_pos (by omega)]

theorem hexOutput_photoMac : HexOutput photoMac where
  ne_nil := fun _ _ => cons_ne_nil _ _
  hex := by
    intro _ _
    change ∀ c ∈ photoMac [] [], _
    exact all_iff_forall_prop.mp (by decide)

theorem minted_photo_url_works :
    WorksUntilExpiry asciiUpper photoMac ⟨"local".toList,"s3cret".toList⟩ "GET".toList
      ⟨("/photos/a.jpg?expires=1700000000&signature=101aade93e54ec585d2ee0ed1ffabff5" ++
        "cfe15670c1b63b08d0efdbae5472174c").toList,1700000000⟩ :=
  (minted_url_works_iff asciiUpper photoMac hexOutput_photoMac
    ⟨"local".toList,"s3cret".toList⟩ "GET".toList ⟨"photos".toList,rfl⟩ ⟨"a.jpg".toList,rfl⟩
    ⟨1700000000000000,by decide⟩ ⟨0,by decide⟩ _ (by decide +kernel) (fun _ => rfl)
    (by decide)).mpr ⟨by decide,rfl,by decide⟩

/-- HMAC-SHA256 under `s3cret` of the claims on `a%41` and, below, on `aA`. -/
def escapedMac : Text → Text → Text := fun _ x =>
  if x = canonicalString asciiUpper "GET".toList "photos".toList "a%41".toList 1700000000 then
    "236503b7c8030a4bbc1f285c6629cfd2387a8c0375f283da744836c30fb73590".toList
  else "d179c40bf296e88b4dca8a1b3ac5ef5a37a2fe16f1a2e26711eaa43902dbc83a".toList

/-- The URL minted for the key `a%41` is denied long before it expires. -/
theorem minted_escaped_url_denied :
    sign asciiUpper escapedMac ⟨"local".toList,"s3cret".toList⟩
      ⟨"GET".toList,"photos".toList,"a%41".toList,⟨1700000000000000,by decide⟩⟩
      ⟨0,by decide⟩ =
      .ok ⟨("/photos/a%2541?expires=1700000000&signature=236503b7c8030a4bbc1f285c6629cfd2" ++
        "387a8c0375f283da744836c30fb73590").toList,1700000000⟩ ∧
    Bucket.validate "photos".toList = .ok () ∧ Key.validate "a%41".toList = .ok () ∧
    objectAuthMiddleware asciiUpper escapedMac (some ⟨"local".toList,"s3cret".toList⟩)
      (requestOf "GET".toList
        ("/photos/a%2541?expires=1700000000&signature=236503b7c8030a4bbc1f285c6629cfd2" ++
          "387a8c0375f283da744836c30fb73590").toList []) ⟨0,by decide⟩ = .deny := by
  refine ⟨by decide +kernel,rfl,rfl,by decide +kernel⟩

end BackendGauntlet.ObjectStore
