import BackendGauntlet.PyText

/-! `urllib.parse`: taking a URL apart and putting it together again. -/
namespace BackendGauntlet.UrlSplit

open PyText List

/-- `mappedGlobal` is whether the IPv4 address that it maps, if any, is global. -/
structure IpAddress where
  isV6 : Bool
  isGlobal : Bool
  mappedGlobal : Option Bool

/-- `str.lower`, NFKC normalization and `ip_address`, which raises on `none`. -/
structure UrlEnv where
  lower : Text → Text
  lower_nil : lower [] = []
  nfkc : Text → Text
  ipAddress : Text → Option IpAddress

structure SplitResult where
  scheme : Text
  netloc : Text
  path : Text
  query : Text
  fragment : Text
deriving DecidableEq

def rcut (sep : Char) (s : Text) : Option (Text × Text) :=
  (cut sep s.reverse).map (fun p => (p.2.reverse,p.1.reverse))

variable (sep : Char)

theorem rcut_eq_some_iff (s a b : Text) :
    rcut sep s = some (a,b) ↔ s = a ++ sep :: b ∧ sep ∉ b := by
  simp only [rcut, Option.map_eq_some_iff, Prod.exists, Prod.mk.injEq]
  constructor
  · rintro ⟨x,y,hcut,rfl,rfl⟩
    obtain ⟨hs,hn⟩ := (cut_eq_some_iff sep s.reverse x y).mp hcut
    refine ⟨?_,by simpa using hn⟩
    rw [← reverse_reverse s, hs]
    simp
  · rintro ⟨rfl,hn⟩
    refine ⟨b.reverse,a.reverse,(cut_eq_some_iff _ _ _ _).mpr ⟨by simp,by simpa using hn⟩,?_⟩
    simp

def asciiLetters : Text := "abcdefghijklmnopqrstuvwxyzABCDEFGHIJKLMNOPQRSTUVWXYZ".toList

def schemeChars : Text := asciiLetters ++ "0123456789+-.".toList

def hexDigits : Text := "abcdefABCDEF0123456789".toList

def isC0OrSpace (c : Char) : Bool := c.toNat ≤ 32

def isRemoved (c : Char) : Bool := c == '\t' || c == '\r' || c == '\n'

def cleaned (url : Text) : Text :=
  (url.dropWhile isC0OrSpace).filter (!isRemoved ·)

def splitScheme (lower : Text → Text) (url : Text) : Text × Text :=
  match cut ':' url with
  | some (c :: raw,rest) =>
    if asciiLetters.contains c && (c :: raw).all schemeChars.contains then
      (lower (c :: raw),rest)
    else ([],url)
  | _ => ([],url)

def endsNetloc (c : Char) : Bool := c == '/' || c == '?' || c == '#'

/-- `_splitnetloc`, when the text starts with two slashes. -/
def splitNetloc : Text → Text × Text
  | '/' :: '/' :: rest => (rest.takeWhile (!endsNetloc ·),rest.dropWhile (!endsNetloc ·))
  | url => ([],url)

def splitOnce (sep : Char) (s : Text) : Text × Text := (cut sep s).getD (s,[])

def hostinfo (netloc : Text) : Text × Text :=
  let info := ((rcut '@' netloc).map Prod.snd).getD netloc
  match cut '[' info with
  | some (_,bracketed) =>
    let split := splitOnce ']' bracketed
    (split.1,(splitOnce ':' split.2).2)
  | none => splitOnce ':' info

section
variable (env : UrlEnv)

def checkBracketedHost (hostname : Text) : Bool :=
  match hostname with
  | 'v' :: rest =>
    match rest.span hexDigits.contains with
    | (_ :: _,'.' :: _ :: _) => true
    | _ => false
  | _ => (env.ipAddress hostname).any IpAddress.isV6

def checkBracketedNetloc (netloc : Text) : Bool :=
  let info := ((rcut '@' netloc).map Prod.snd).getD netloc
  match cut '[' info with
  | some (before,bracketed) =>
    let split := splitOnce ']' bracketed
    before.isEmpty && (split.2.isEmpty || split.2.head? == some ':') &&
      checkBracketedHost env split.1
  | none => checkBracketedHost env (splitOnce ':' info).1

def checkBrackets (netloc : Text) : Bool :=
  match netloc.contains '[', netloc.contains ']' with
  | true, true => checkBracketedNetloc env netloc
  | false, false => true
  | _, _ => false

def checkNetloc (netloc : Text) : Bool :=
  let n := netloc.filter (fun c => !"@:#?".toList.contains c)
  netloc.all (·.toNat < 128) || n == env.nfkc n ||
    "/?#@:".toList.all (fun c => !(env.nfkc n).contains c)

/-- `urlsplit(url)`; `none` is a `ValueError`. -/
def urlsplit (url : Text) : Option SplitResult :=
  let schemed := splitScheme env.lower (cleaned url)
  let located := splitNetloc schemed.2
  let unfragmented := splitOnce '#' located.2
  let unqueried := splitOnce '?' unfragmented.1
  if checkBrackets env located.1 && checkNetloc env located.1 then
    some ⟨schemed.1,located.1,unqueried.1,unqueried.2,unfragmented.2⟩
  else none

/-- `None` is the empty text. -/
def SplitResult.hostname (parts : SplitResult) : Text :=
  match (hostinfo parts.netloc).1 with
  | [] => []
  | host =>
    match cut '%' host with
    | some (name,zone) => env.lower name ++ '%' :: zone
    | none => env.lower host

end

/-- No port is `some none`, a `ValueError` is `none`. -/
def SplitResult.port (parts : SplitResult) : Option (Option ℕ) :=
  match (hostinfo parts.netloc).2 with
  | [] => some none
  | digits =>
    if digits.all Char.isDigit then
      match readNat digits with
      | some n => if n ≤ 65535 then some (some n) else none
      | none => none
    else none

def usesNetloc : List Text :=
  ["", "ftp", "http", "gopher", "nntp", "telnet", "imap", "wais", "file", "mms", "https", "shttp",
    "snews", "prospero", "rtsp", "rtsps", "rtspu", "rsync", "svn", "svn+ssh", "sftp", "nfs", "git",
    "git+ssh", "ws", "wss"].map String.toList

def joinNetloc (scheme netloc path : Text) : Text :=
  if netloc.isEmpty then
    if path.take 2 = ['/', '/'] ||
        (!scheme.isEmpty && usesNetloc.contains scheme && (path.isEmpty || path.head? = some '/'))
    then '/' :: '/' :: path
    else path
  else
    '/' :: '/' :: netloc ++ (if path.isEmpty || path.head? = some '/' then path else '/' :: path)

def urlunsplit (parts : SplitResult) : Text :=
  (if parts.scheme.isEmpty then [] else parts.scheme ++ [':']) ++
    joinNetloc parts.scheme parts.netloc parts.path ++
    (if parts.query.isEmpty then [] else '?' :: parts.query) ++
    (if parts.fragment.isEmpty then [] else '#' :: parts.fragment)

/-! ## Which characters survive -/

def beforeFragment (url : Text) : Text :=
  (url.dropWhile isC0OrSpace).takeWhile (fun c => c ≠ '#')

variable {url : Text} {parts : SplitResult}

section
variable (P : Char → Prop)

theorem forall_append (s t : Text) :
    (∀ c ∈ s ++ t, P c) ↔ (∀ c ∈ s, P c) ∧ ∀ c ∈ t, P c := by
  simp [or_imp, forall_and]

theorem forall_splitOnce {sep : Char} (hsep : P sep) (s : Text) :
    (∀ c ∈ s, P c) ↔ (∀ c ∈ (splitOnce sep s).1, P c) ∧ ∀ c ∈ (splitOnce sep s).2, P c := by
  unfold splitOnce
  cases hcut : cut sep s with
  | none => simp
  | some p =>
    obtain ⟨hs,_⟩ := (cut_eq_some_iff sep s p.1 p.2).mp hcut
    rw [hs, forall_append]
    simp [hsep]

theorem takeWhile_splitOnce (s : Text) :
    s.takeWhile (fun c => c ≠ sep) = (splitOnce sep s).1 := by
  induction s with
  | nil => rfl
  | cons c s ih =>
    by_cases hc : c = sep
    · subst hc
      simp [splitOnce, cut]
    · rw [takeWhile_cons_of_pos (by simp [hc]), ih]
      simp only [splitOnce, cut, hc, if_false]
      cases cut sep s with
      | none => rfl
      | some p => rfl

theorem splitOnce_append (s t : Text) (hs : sep ∉ s) :
    (splitOnce sep (s ++ t)).1 = s ++ (splitOnce sep t).1 := by
  rw [← takeWhile_splitOnce, ← takeWhile_splitOnce, takeWhile_append_of_pos]
  intro c hc
  exact decide_eq_true (fun he => hs (he ▸ hc))

theorem takeWhile_filter_removed (s : Text) :
    (s.filter (!isRemoved ·)).takeWhile (fun c => c ≠ '#') =
      (s.takeWhile (fun c => c ≠ '#')).filter (!isRemoved ·) := by
  induction s with
  | nil => rfl
  | cons c s ih =>
    by_cases hc : c = '#'
    · subst hc
      rfl
    · cases hr : isRemoved c with
      | true =>
        rw [filter_cons_of_neg (by simp [hr]), takeWhile_cons_of_pos (by simp [hc]),
          filter_cons_of_neg (by simp [hr]), ih]
      | false =>
        rw [filter_cons_of_pos (by simp [hr]), takeWhile_cons_of_pos (by simp [hc]),
          takeWhile_cons_of_pos (by simp [hc]), filter_cons_of_pos (by simp [hr]), ih]

theorem forall_cleaned (hremoved : ∀ c, isRemoved c = true → P c) (url : Text) :
    (∀ c ∈ beforeFragment url, P c) ↔ ∀ c ∈ (splitOnce '#' (cleaned url)).1, P c := by
  rw [← takeWhile_splitOnce, cleaned, takeWhile_filter_removed]
  constructor
  · intro h c hc
    exact h c (mem_filter.mp hc).1
  · intro h c hc
    cases hr : isRemoved c with
    | true => exact hremoved c hr
    | false => exact h c (mem_filter.mpr ⟨hc,by simp [hr]⟩)

theorem not_removed_of_mem_cleaned (c : Char)
    (h : c ∈ (splitOnce '#' (cleaned url)).1) : isRemoved c = false := by
  rw [← takeWhile_splitOnce] at h
  simpa using (mem_filter.mp ((takeWhile_sublist _).subset h)).2

structure Punctuation : Prop where
  colon : P ':'
  slash : P '/'
  question : P '?'
  hash : P '#'
  scheme : ∀ c ∈ schemeChars, P c
  digit : ∀ c : Char, c.isDigit = true → P c

variable (hP : Punctuation P)
include hP

theorem forall_splitNetloc (url : Text) :
    (∀ c ∈ (splitOnce '#' url).1, P c) ↔
      (∀ c ∈ (splitNetloc url).1, P c) ∧ ∀ c ∈ (splitOnce '#' (splitNetloc url).2).1, P c := by
  unfold splitNetloc
  split
  · rename_i rest
    have hno : '#' ∉ '/' :: '/' :: rest.takeWhile (!endsNetloc ·) := by
      intro hm
      simp only [mem_cons, Char.reduceEq, false_or] at hm
      have hend := List.all_eq_true.mp all_takeWhile '#' hm
      simp [endsNetloc] at hend
    have hrest : '/' :: '/' :: rest = ('/' :: '/' :: rest.takeWhile (!endsNetloc ·)) ++
        rest.dropWhile (!endsNetloc ·) := by
      simp [takeWhile_append_dropWhile]
    rw [hrest, splitOnce_append '#' _ _ hno, forall_append]
    simp [hP.slash]
  · simp

theorem forall_splitScheme (lower : Text → Text)
    (hscheme : (splitScheme lower url).1 ≠ []) :
    (∀ c ∈ (splitOnce '#' url).1, P c) ↔
      ∀ c ∈ (splitOnce '#' (splitScheme lower url).2).1, P c := by
  revert hscheme
  unfold splitScheme
  split
  · rename_i c raw rest hcut
    split_ifs with hc
    · intro _
      obtain ⟨hurl,_⟩ := (cut_eq_some_iff ':' url (c :: raw) rest).mp hcut
      simp only [Bool.and_eq_true, List.all_eq_true, contains_iff_mem] at hc
      have hchars : ∀ x ∈ c :: raw ++ [':'], P x := by
        intro x hx
        rcases mem_append.mp hx with hx | hx
        · exact hP.scheme x (hc.2 x hx)
        · exact mem_singleton.mp hx ▸ hP.colon
      have hno : '#' ∉ c :: raw ++ [':'] := by
        intro hm
        rcases mem_append.mp hm with hm | hm
        · exact absurd (hc.2 _ hm) (by decide +kernel)
        · exact absurd hm (by decide)
      have hsplit : url = (c :: raw ++ [':']) ++ rest := by
        rw [hurl]
        simp
      rw [hsplit, splitOnce_append '#' _ _ hno, forall_append]
      exact ⟨fun h => h.2,fun h => ⟨hchars,h⟩⟩
    · exact fun h => absurd rfl h
  · exact fun h => absurd rfl h

/-- A URL has a property of its characters exactly if its parts do. -/
theorem forall_urlsplit {env : UrlEnv}
    (h : urlsplit env url = some parts) (hscheme : parts.scheme ≠ []) :
    (∀ c ∈ (splitOnce '#' (cleaned url)).1, P c) ↔
      (∀ c ∈ parts.netloc, P c) ∧ (∀ c ∈ parts.path, P c) ∧ ∀ c ∈ parts.query, P c := by
  simp only [urlsplit, Option.ite_none_right_eq_some, Option.some.injEq] at h
  obtain ⟨_,rfl⟩ := h
  rw [forall_splitScheme P hP env.lower hscheme, forall_splitNetloc P hP,
    forall_splitOnce P hP.question (splitOnce '#' _).1]

theorem forall_joinNetloc (scheme netloc path : Text) :
    (∀ c ∈ joinNetloc scheme netloc path, P c) ↔ (∀ c ∈ netloc, P c) ∧ ∀ c ∈ path, P c := by
  unfold joinNetloc
  split_ifs with hnetloc hslashes hpath
  · simp [List.isEmpty_iff.mp hnetloc, hP.slash]
  · simp [List.isEmpty_iff.mp hnetloc]
  · simp [hP.slash, or_imp, forall_and]
  · simp [hP.slash, or_imp, forall_and]

/-- So does what parts are joined to. -/
theorem forall_urlunsplit (parts : SplitResult) :
    (∀ c ∈ urlunsplit parts, P c) ↔
      (∀ c ∈ parts.scheme, P c) ∧ (∀ c ∈ parts.netloc, P c) ∧ (∀ c ∈ parts.path, P c) ∧
        (∀ c ∈ parts.query, P c) ∧ ∀ c ∈ parts.fragment, P c := by
  have hscheme : (∀ c ∈ (if parts.scheme.isEmpty then [] else parts.scheme ++ [':']), P c) ↔
      ∀ c ∈ parts.scheme, P c := by
    split_ifs with hs
    · simp [List.isEmpty_iff.mp hs]
    · rw [forall_append]
      simp [hP.colon]
  have hopt (sep : Char) (hsep : P sep) (s : Text) :
      (∀ c ∈ (if s.isEmpty then [] else sep :: s), P c) ↔ ∀ c ∈ s, P c := by
    split_ifs with hs
    · simp [List.isEmpty_iff.mp hs]
    · simp [hsep]
  rw [urlunsplit, forall_append, forall_append, forall_append, hscheme, forall_joinNetloc P hP,
    hopt '?' hP.question, hopt '#' hP.hash]
  tauto

end

/-! ## The port -/

theorem splitOnce_snd (s : Text) (h : (splitOnce sep s).2 ≠ []) :
    s = (splitOnce sep s).1 ++ sep :: (splitOnce sep s).2 := by
  unfold splitOnce at h ⊢
  cases hcut : cut sep s with
  | none =>
    rw [hcut] at h
    exact absurd rfl h
  | some p => exact ((cut_eq_some_iff sep s p.1 p.2).mp hcut).1

theorem hostinfo_port {netloc : Text} (h : (hostinfo netloc).2 ≠ []) :
    ∃ before, netloc = before ++ ':' :: (hostinfo netloc).2 := by
  have hinfo : ∃ user, netloc = user ++ ((rcut '@' netloc).map Prod.snd).getD netloc := by
    cases hcut : rcut '@' netloc with
    | none => exact ⟨[],rfl⟩
    | some p =>
      refine ⟨p.1 ++ ['@'],?_⟩
      rw [((rcut_eq_some_iff '@' netloc p.1 p.2).mp hcut).1]
      simp
  obtain ⟨user,huser⟩ := hinfo
  unfold hostinfo at h ⊢
  simp only at h ⊢
  generalize ((rcut '@' netloc).map Prod.snd).getD netloc = info at h huser ⊢
  cases hcut : cut '[' info with
  | none =>
    rw [hcut] at h
    refine ⟨user ++ (splitOnce ':' info).1,?_⟩
    rw [huser, append_assoc, ← splitOnce_snd ':' info h]
  | some p =>
    rw [hcut] at h
    simp only at h ⊢
    have hbracketed : (splitOnce ']' p.2).2 ≠ [] := by
      intro hnil
      rw [hnil] at h
      exact h rfl
    have hport := splitOnce_snd ':' _ h
    refine ⟨user ++ p.1 ++ '[' :: (splitOnce ']' p.2).1 ++
      ']' :: (splitOnce ':' (splitOnce ']' p.2).2).1,?_⟩
    rw [huser, ((cut_eq_some_iff '[' info p.1 p.2).mp hcut).1]
    conv_lhs => rw [splitOnce_snd ']' p.2 hbracketed, hport]
    simp

theorem port_digits {n : ℕ} (h : parts.port = some (some n)) :
    (hostinfo parts.netloc).2 ≠ [] ∧ ∀ c ∈ (hostinfo parts.netloc).2, c.isDigit = true := by
  unfold SplitResult.port at h
  split at h
  · cases h
  · rename_i hne
    split_ifs at h with hdigits
    exact ⟨hne,List.all_eq_true.mp hdigits⟩

theorem rcut_port {n : ℕ} (h : parts.port = some (some n)) :
    ∃ before digits, rcut ':' parts.netloc = some (before,digits) ∧
      parts.netloc = before ++ ':' :: digits ∧ ∀ c ∈ digits, c.isDigit = true := by
  obtain ⟨hne,hdigits⟩ := port_digits h
  obtain ⟨before,hbefore⟩ := hostinfo_port hne
  refine ⟨before,_,(rcut_eq_some_iff _ _ _ _).mpr ⟨hbefore,?_⟩,hbefore,hdigits⟩
  intro hcolon
  exact absurd (hdigits ':' hcolon) (by decide)

end BackendGauntlet.UrlSplit
