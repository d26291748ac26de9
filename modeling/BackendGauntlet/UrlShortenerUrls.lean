import BackendGauntlet.UrlShortenerResolve
import BackendGauntlet.UrlSplit

/-! Which URLs are stored, and which of them `redirect` can answer with. -/
namespace BackendGauntlet.UrlShortener

open PyText UrlSplit Option

def maxUrlLen : ℕ := 2048

def blockedHostSuffixes : List Text :=
  [".localhost".toList, ".local".toList, ".internal".toList]

def invalidUrl : Text := "invalid URL".toList

section
variable (env : UrlEnv)

def isBlockedHostname (hostname : Text) : Bool :=
  let host := env.lower (hostname.reverse.dropWhile (· == '.')).reverse
  host == "localhost".toList || blockedHostSuffixes.any (·.isSuffixOf host)

def isBlockedHost (hostname : Text) : Bool :=
  match env.ipAddress hostname with
  | none => isBlockedHostname env hostname
  | some ip =>
    match ip.isV6, ip.mappedGlobal with
    | true, some mappedGlobal => !mappedGlobal
    | _, _ => !ip.isGlobal

def stripDefaultPort (netloc : Text) : Text := ((rcut ':' netloc).map Prod.fst).getD []

def normalizeUrl (parts : SplitResult) (port : Option ℕ) : Text :=
  urlunsplit {
    scheme := env.lower parts.scheme
    netloc := if port = some 443 then stripDefaultPort parts.netloc else parts.netloc
    path := if parts.path.isEmpty then ['/'] else parts.path
    query := parts.query
    fragment := [] }

def validateLongUrl (raw : Text) : Except Text Text :=
  if (strip raw).isEmpty then .error invalidUrl
  else match urlsplit env (strip raw) with
    | none => .error invalidUrl
    | some parts =>
      if env.lower parts.scheme ≠ "https".toList then .error "only https URLs are allowed".toList
      else match parts.port with
        | none => .error invalidUrl
        | some port =>
          if (parts.hostname env).isEmpty then .error invalidUrl
          else if isBlockedHost env (parts.hostname env) then
            .error "internal URLs are not allowed".toList
          else if (normalizeUrl env parts port).length > maxUrlLen then
            .error "URL too long".toList
          else .ok (normalizeUrl env parts port)

end

/-- `s.encode("latin-1")`; `none` is a `UnicodeEncodeError`. -/
def encodeLatin1 : Text → Option (List ℕ)
  | [] => some []
  | c :: s => if c.toNat ≤ 255 then (encodeLatin1 s).map (c.toNat :: ·) else none

def CacheOutcome.header : CacheOutcome → Text
  | .hit => "HIT".toList
  | .negative => "NEGATIVE".toList
  | .miss => "MISS".toList
  | .degraded => "DEGRADED".toList

structure Response where
  status : ℕ
  headers : List (Text × List ℕ)
deriving DecidableEq

inductive RedirectError
  | notFound
  | unicodeEncodeError
deriving DecidableEq

def encodeHeaders : List (Text × Text) → Option (List (Text × List ℕ))
  | [] => some []
  | h :: hs => (encodeLatin1 h.2).bind (fun value =>
      (encodeHeaders hs).map ((h.1,value) :: ·))

def locationHeader : Text := "location".toList

def redirect (resolved : Resolved) : Except RedirectError Response :=
  match resolved.link with
  | none => .error .notFound
  | some (_,longUrl) =>
    match encodeHeaders [(locationHeader,longUrl), ("x-cache".toList,resolved.outcome.header),
        ("cache-control".toList,"no-store".toList)] with
    | none => .error .unicodeEncodeError
    | some headers => .ok ⟨302,headers⟩

def Followable (result : Except RedirectError Response) : Prop :=
  ∃ response location, result = .ok response ∧ response.status = 302 ∧
    response.headers.lookup locationHeader = some location ∧
    13 ∉ location ∧ 10 ∉ location ∧ 0 ∉ location

def servable (c : Char) : Bool := 1 ≤ c.toNat && c.toNat ≤ 255

theorem encodeLatin1_eq_some_iff (s : Text) (bytes : List ℕ) :
    encodeLatin1 s = some bytes ↔ (∀ c ∈ s, c.toNat ≤ 255) ∧ bytes = s.map Char.toNat := by
  induction s generalizing bytes with
  | nil =>
    simp only [encodeLatin1, some.injEq, List.not_mem_nil, false_implies, implies_true,
      List.map_nil, true_and]
    exact eq_comm
  | cons c s ih =>
    by_cases hc : c.toNat ≤ 255
    · simp only [encodeLatin1, hc, if_true, map_eq_some_iff, ih, List.mem_cons,
        forall_eq_or_imp, true_and, List.map_cons]
      constructor
      · rintro ⟨bytes,⟨hs,rfl⟩,rfl⟩
        exact ⟨hs,rfl⟩
      · rintro ⟨hs,rfl⟩
        exact ⟨_,⟨hs,rfl⟩,rfl⟩
    · simp [encodeLatin1, hc]

variable (outcome : CacheOutcome)

theorem encodeLatin1_header :
    ∃ bytes, encodeLatin1 outcome.header = some bytes := by
  cases outcome <;> exact ⟨_,rfl⟩

theorem redirect_some (linkId : ℕ) (url : Text) :
    redirect ⟨outcome,some (linkId,url)⟩ =
      match encodeHeaders [(locationHeader,url), ("x-cache".toList,outcome.header),
          ("cache-control".toList,"no-store".toList)] with
      | none => .error .unicodeEncodeError
      | some headers => .ok ⟨302,headers⟩ := rfl

theorem encodeHeaders_of_none {name value : Text} {headers : List (Text × Text)}
    (h : encodeLatin1 value = none) : encodeHeaders ((name,value) :: headers) = none := by
  rw [encodeHeaders, h, bind_none]

theorem encodeHeaders_of_some {name value : Text} {headers : List (Text × Text)} {bytes : List ℕ}
    (h : encodeLatin1 value = some bytes) :
    encodeHeaders ((name,value) :: headers) = (encodeHeaders headers).map ((name,bytes) :: ·) := by
  rw [encodeHeaders, h, bind_some]

theorem redirect_link (linkId : ℕ) (url : Text) :
    (encodeLatin1 url = none → redirect ⟨outcome,some (linkId,url)⟩ = .error .unicodeEncodeError) ∧
    ∀ bytes, encodeLatin1 url = some bytes → ∃ headers,
      redirect ⟨outcome,some (linkId,url)⟩ = .ok ⟨302,(locationHeader,bytes) :: headers⟩ := by
  obtain ⟨value,hvalue⟩ := encodeLatin1_header outcome
  constructor
  · intro h
    rw [redirect_some, encodeHeaders_of_none h]
  · intro bytes h
    have hstore : ∃ b, encodeLatin1 "no-store".toList = some b := ⟨_,rfl⟩
    obtain ⟨b,hb⟩ := hstore
    refine ⟨[("x-cache".toList,value), ("cache-control".toList,b)],?_⟩
    rw [redirect_some, encodeHeaders_of_some h, encodeHeaders_of_some hvalue,
      encodeHeaders_of_some hb]
    rfl

/-- A stored URL without CR and LF can be followed exactly when all its characters are
servable. -/
theorem followable_iff (linkId : ℕ) {url : Text} (hcr : '\r' ∉ url)
    (hlf : '\n' ∉ url) :
    Followable (redirect ⟨outcome,some (linkId,url)⟩) ↔ ∀ c ∈ url, servable c = true := by
  obtain ⟨hnone,hsome⟩ := redirect_link outcome linkId url
  have hnotMem (x : Char) (hx : x ∉ url) : x.toNat ∉ url.map Char.toNat := by
    intro hm
    obtain ⟨c,hc,he⟩ := List.mem_map.mp hm
    exact hx (Char.toNat_inj.mp he ▸ hc)
  constructor
  · rintro ⟨response,location,hok,_,hlookup,_,_,hnul⟩ c hc
    cases henc : encodeLatin1 url with
    | none =>
      rw [hnone henc] at hok
      cases hok
    | some bytes =>
      obtain ⟨headers,hredirect⟩ := hsome bytes henc
      rw [hredirect] at hok
      cases hok
      obtain ⟨hbound,hbytes⟩ := (encodeLatin1_eq_some_iff url bytes).mp henc
      have hlocation : location = url.map Char.toNat := by
        simpa [hbytes] using hlookup.symm
      have hpos : c.toNat ≠ 0 := by
        intro hzero
        apply hnul
        rw [hlocation, ← hzero]
        exact List.mem_map_of_mem hc
      have := hbound c hc
      simp only [servable, Bool.and_eq_true, decide_eq_true_eq]
      omega
  · intro h
    simp only [servable, Bool.and_eq_true, decide_eq_true_eq] at h
    have henc := (encodeLatin1_eq_some_iff url _).mpr ⟨fun c hc => (h c hc).2,rfl⟩
    obtain ⟨headers,hredirect⟩ := hsome _ henc
    refine ⟨_,url.map Char.toNat,hredirect,rfl,by simp,hnotMem '\r' hcr,hnotMem '\n' hlf,?_⟩
    intro hm
    obtain ⟨c,hc,he⟩ := List.mem_map.mp hm
    have := (h c hc).1
    omega

theorem servable_punctuation : Punctuation (fun c => servable c = true) where
  colon := by decide
  slash := by decide
  question := by decide
  hash := by decide
  scheme := List.all_eq_true.mp (by decide +kernel)
  digit := by
    intro c hc
    obtain ⟨h1,h2⟩ := isDigit_toNat c hc
    simp only [servable, Bool.and_eq_true, decide_eq_true_eq]
    omega

theorem servable_of_removed (c : Char) (hc : isRemoved c = true) : servable c = true := by
  simp only [isRemoved, Bool.or_eq_true, beq_iff_eq] at hc
  rcases hc with (rfl | rfl) | rfl
  · decide
  · decide
  · decide

theorem not_isRemoved_punctuation : Punctuation (fun c => isRemoved c = false) where
  colon := by decide
  slash := by decide
  question := by decide
  hash := by decide
  scheme := by
    have hall : schemeChars.all (fun c => !isRemoved c) = true := by decide +kernel
    simpa using hall
  digit := by
    intro c hc
    obtain ⟨h1,_⟩ := isDigit_toNat c hc
    have hne (x : Char) (hx : x.toNat < 48) : c ≠ x := by
      intro he
      rw [he] at h1
      omega
    simp [isRemoved, hne '\t' (by decide), hne '\r' (by decide), hne '\n' (by decide)]

section
variable (env : UrlEnv)

theorem validateLongUrl_ok {raw url : Text} (h : validateLongUrl env raw = .ok url) :
    ∃ parts port, urlsplit env (strip raw) = some parts ∧ env.lower parts.scheme = "https".toList ∧
      parts.port = some port ∧ url = normalizeUrl env parts port := by
  unfold validateLongUrl at h
  split at h
  · cases h
  split at h
  · cases h
  rename_i parts hparts
  split at h
  · cases h
  rename_i hscheme
  split at h
  · cases h
  rename_i port hport
  split at h
  · cases h
  split at h
  · cases h
  split at h
  · cases h
  cases h
  exact ⟨parts,port,hparts,of_not_not hscheme,hport,rfl⟩

theorem forall_normalizeUrl (P : Char → Prop) (hP : Punctuation P) {url : Text}
    {parts : SplitResult} {port : Option ℕ} (hparts : urlsplit env url = some parts)
    (hscheme : env.lower parts.scheme = "https".toList) (hne : parts.scheme ≠ [])
    (hport : parts.port = some port) :
    (∀ c ∈ normalizeUrl env parts port, P c) ↔ ∀ c ∈ (splitOnce '#' (cleaned url)).1, P c := by
  have hhttps : ∀ c ∈ env.lower parts.scheme, P c := by
    intro c hc
    rw [hscheme] at hc
    have hall : "https".toList.all (fun c => schemeChars.contains c) = true := by decide +kernel
    exact hP.scheme c (List.contains_iff_mem.mp (List.all_eq_true.mp hall c hc))
  have hnetloc : (∀ c ∈ (if port = some 443 then stripDefaultPort parts.netloc else parts.netloc),
      P c) ↔ ∀ c ∈ parts.netloc, P c := by
    split_ifs with h443
    · rw [h443] at hport
      obtain ⟨before,digits,hcut,hsplit,hdigits⟩ := rcut_port hport
      rw [stripDefaultPort, hcut, hsplit, forall_append]
      simp only [map_some, getD_some, List.mem_cons, forall_eq_or_imp]
      exact ⟨fun h => ⟨h,hP.colon,fun c hc => hP.digit c (hdigits c hc)⟩,fun h => h.1⟩
    · exact Iff.rfl
  have hpath : (∀ c ∈ (if parts.path.isEmpty then ['/'] else parts.path), P c) ↔
      ∀ c ∈ parts.path, P c := by
    split_ifs with hempty
    · simp [List.isEmpty_iff.mp hempty, hP.slash]
    · exact Iff.rfl
  rw [normalizeUrl, forall_urlunsplit P hP, hnetloc, hpath, forall_urlsplit P hP hparts hne]
  simp only [List.not_mem_nil, false_implies, implies_true, and_true]
  exact ⟨fun h => h.2,fun h => ⟨hhttps,h⟩⟩

/-- Exactly when no character before the fragment is NUL or beyond latin-1. -/
theorem accepted_url_followable_iff (raw url : Text) (h : validateLongUrl env raw = .ok url)
    (outcome : CacheOutcome) (linkId : ℕ) :
    Followable (redirect ⟨outcome,some (linkId,url)⟩) ↔
      ∀ c ∈ beforeFragment (strip raw), servable c = true := by
  obtain ⟨parts,port,hparts,hscheme,hport,rfl⟩ := validateLongUrl_ok env h
  have hne : parts.scheme ≠ [] := by
    intro hnil
    rw [hnil, env.lower_nil] at hscheme
    exact absurd hscheme (by decide)
  have hclean := (forall_normalizeUrl env _ not_isRemoved_punctuation hparts
    hscheme hne hport).mpr (not_removed_of_mem_cleaned)
  rw [followable_iff outcome linkId (fun hm => absurd (hclean _ hm) (by decide))
      (fun hm => absurd (hclean _ hm) (by decide)),
    forall_normalizeUrl env _ servable_punctuation hparts hscheme hne hport,
    forall_cleaned _ servable_of_removed]

end

def asciiEnv : UrlEnv := ⟨fun s => s.map Char.toLower,rfl,id,fun _ => none⟩

def exampleUrl : Text := "https://example.com:443/a?b#c".toList

theorem accepted_url_followable_example :
    validateLongUrl asciiEnv exampleUrl = .ok "https://example.com/a?b".toList ∧
    Followable (redirect ⟨.miss,some (1,"https://example.com/a?b".toList)⟩) := by
  have h : validateLongUrl asciiEnv exampleUrl = .ok "https://example.com/a?b".toList := by
    decide +kernel
  exact ⟨h,(accepted_url_followable_iff asciiEnv exampleUrl _ h .miss 1).mpr
    (List.all_eq_true.mp (by decide +kernel))⟩

/-- A path in another script is accepted, and every redirect to it fails. -/
theorem accepted_url_unservable :
    validateLongUrl asciiEnv "https://example.com/日本".toList = .ok "https://example.com/日本".toList ∧
    redirect ⟨.miss,some (1,"https://example.com/日本".toList)⟩ = .error .unicodeEncodeError := by
  constructor
  · decide +kernel
  · decide +kernel

end BackendGauntlet.UrlShortener
