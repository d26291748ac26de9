import BackendGauntlet.Percent
import Mathlib.Data.List.TakeWhile

/-! Documents of XML 1.0 with namespaces, from text to element tree. -/
namespace BackendGauntlet.Xml

open PyText List Option

/-- The production `Char`. A surrogate is no `Char` of Lean either. -/
def isChar (c : Char) : Bool :=
  c == '\t' || c == '\n' || c == '\r' || (0x20 ≤ c.toNat && c.toNat ≤ 0xFFFD) ||
    0x10000 ≤ c.toNat

def isSpace (c : Char) : Bool := c == ' ' || c == '\t' || c == '\n' || c == '\r'

def inRanges (ranges : List (ℕ × ℕ)) (c : Char) : Bool :=
  ranges.any (fun r => r.1 ≤ c.toNat && c.toNat ≤ r.2)

def isNameStart (c : Char) : Bool :=
  c == ':' || c == '_' || c.isAlpha ||
    inRanges [(0xC0,0xD6), (0xD8,0xF6), (0xF8,0x2FF), (0x370,0x37D), (0x37F,0x1FFF),
      (0x200C,0x200D), (0x2070,0x218F), (0x2C00,0x2FEF), (0x3001,0xD7FF), (0xF900,0xFDCF),
      (0xFDF0,0xFFFD), (0x10000,0xEFFFF)] c

def isNameChar (c : Char) : Bool :=
  isNameStart c || c == '-' || c == '.' || c.isDigit || c.toNat == 0xB7 ||
    inRanges [(0x300,0x36F), (0x203F,0x2040)] c

/-- `after` says that the character before was a return, which stands for a feed behind it too. -/
def lineFeeds : Bool → Text → Text
  | _, [] => []
  | after, c :: s =>
    if c = '\r' then '\n' :: lineFeeds true s
    else if c = '\n' ∧ after then lineFeeds false s
    else c :: lineFeeds false s

def normalizeLines (s : Text) : Text := lineFeeds false s

def numbered (base : ℕ) (digits : Text) : Option Char := do
  let values ← digits.mapM (fun c => (hexValue c).filter (· < base))
  let n := values.foldl (fun n v => n*base+v) 0
  if digits ≠ [] ∧ n.isValidChar ∧ isChar (Char.ofNat n) then return Char.ofNat n else none

def reference (name : Text) : Option Char :=
  match name with
  | '#' :: 'x' :: digits => numbered 16 digits
  | '#' :: digits => numbered 10 digits
  | _ =>
    if name = "amp".toList then some '&'
    else if name = "lt".toList then some '<'
    else if name = "gt".toList then some '>'
    else if name = "quot".toList then some '"'
    else if name = "apos".toList then some '\''
    else none

/-- Replace the references of a text. `pending` is the name of an open one, in reverse. -/
def expand : Option Text → Text → Option Text
  | none, [] => some []
  | some _, [] => none
  | none, c :: s => if c = '&' then expand (some []) s else (expand none s).map (c :: ·)
  | some pending, c :: s =>
    if c = ';' then
      (reference pending.reverse).bind (fun x => (expand none s).map (x :: ·))
    else expand (some (c :: pending)) s

def hasSectionEnd : Text → Bool
  | [] => false
  | c :: s => "]]>".toList.isPrefixOf (c :: s) || hasSectionEnd s

def characterData (t : Text) : Option Text :=
  if hasSectionEnd t then none else expand none (normalizeLines t)

def attributeValue (t : Text) : Option Text :=
  expand none ((normalizeLines t).map (fun c => if isSpace c then ' ' else c))

inductive Token
  | text (t : Text)
  | markup (body : Text)
deriving DecidableEq

inductive Mode
  | text (seen : Text)
  | markup (seen : Text)
  | quoted (quote : Char) (seen : Text)

def tokens : Mode → Text → Option (List Token)
  | .text seen, [] => some [.text seen.reverse]
  | .markup _, [] => none
  | .quoted _ _, [] => none
  | .text seen, c :: s =>
    if c = '<' then (tokens (.markup []) s).map (.text seen.reverse :: ·)
    else tokens (.text (c :: seen)) s
  | .markup seen, c :: s =>
    if c = '>' then (tokens (.text []) s).map (.markup seen.reverse :: ·)
    else if c = '<' then none
    else if c = '"' ∨ c = '\'' then tokens (.quoted c (c :: seen)) s
    else tokens (.markup (c :: seen)) s
  | .quoted quote seen, c :: s =>
    if c = '<' then none
    else if c = quote then tokens (.markup (c :: seen)) s
    else tokens (.quoted quote (c :: seen)) s

def readName : Text → Option (Text × Text)
  | [] => none
  | c :: s =>
    if isNameStart c then some (c :: s.takeWhile isNameChar,s.dropWhile isNameChar) else none

def readValue (s : Text) : Option (Text × Text) :=
  match s.dropWhile isSpace with
  | '=' :: s =>
    match s.dropWhile isSpace with
    | q :: s => if q = '"' ∨ q = '\'' then cut q s else none
    | [] => none
  | _ => none

/-- Every attribute takes some of the text, so its length is enough fuel. -/
def readAttributes : ℕ → Text → Option (List (Text × Text))
  | 0, s => if s.all isSpace then some [] else none
  | fuel+1, s =>
    match s with
    | [] => some []
    | c :: s =>
      if !isSpace c then none
      else
        match s.dropWhile isSpace with
        | [] => some []
        | s => do
          let (name,s) ← readName s
          let (raw,s) ← readValue s
          let value ← attributeValue raw
          let others ← readAttributes fuel s
          if (others.map Prod.fst).contains name then none else return (name,value) :: others

inductive Tag
  | start (name : Text) (attributes : List (Text × Text)) (closed : Bool)
  | stop (name : Text)
deriving DecidableEq

def readTag (body : Text) : Option Tag :=
  match body with
  | '/' :: s => do
    let (name,s) ← readName s
    if s.all isSpace then return .stop name else none
  | s => do
    let closed := s.getLast? = some '/'
    let (name,s) ← readName (if closed then s.dropLast else s)
    let attributes ← readAttributes s.length s
    return .start name attributes closed

/-- An element by its expanded name, with the text before its first child. The text behind a
child is not kept. -/
inductive Element
  | mk (tag : Text) (text : Text) (children : List Element)

def Element.tag : Element → Text
  | .mk tag _ _ => tag

def Element.text : Element → Text
  | .mk _ text _ => text

def Element.children : Element → List Element
  | .mk _ _ children => children

/-- The namespaces in scope by prefix; the default one has the empty prefix. -/
abbrev Scope := List (Text × Text)

def Scope.declare (attributes : List (Text × Text)) (scope : Scope) : Scope :=
  attributes.filterMap (fun a =>
    if a.1 = "xmlns".toList then some ([],a.2)
    else match cut ':' a.1 with
      | some (head,label) => if head = "xmlns".toList then some (label,a.2) else none
      | none => none) ++ scope

theorem Scope.declare_nil (scope : Scope) : Scope.declare [] scope = scope := rfl

def Scope.expandName (scope : Scope) (name : Text) : Option Text :=
  match cut ':' name with
  | some (label,tail) =>
    (scope.lookup label).map (fun uri => '\x7b' :: (uri ++ '\x7d' :: tail))
  | none =>
    match scope.lookup [] with
    | some uri => some (if uri = [] then name else '\x7b' :: (uri ++ '\x7d' :: name))
    | none => some name

structure Open where
  name : Text
  tag : Text
  scope : Scope
  text : Text
  children : List Element

def Open.close (o : Open) : Element := .mk o.tag o.text o.children.reverse

structure Builder where
  stack : List Open
  root : Option Element

def Builder.scope (b : Builder) : Scope := (b.stack.head?.map Open.scope).getD []

def Builder.attach (b : Builder) (e : Element) : Builder :=
  match b.stack with
  | [] => { b with root := some e }
  | o :: os => { b with stack := { o with children := e :: o.children } :: os }

def Builder.addText (b : Builder) (t : Text) : Option Builder :=
  match b.stack with
  | [] => if t.all isSpace then some b else none
  | o :: os => (characterData t).map (fun t =>
    { b with stack := { o with text := if o.children = [] then o.text ++ t else o.text } :: os })

def Builder.addTag (b : Builder) : Tag → Option Builder
  | .start name attributes closed =>
    if b.stack = [] ∧ b.root.isSome then none
    else
      let scope := b.scope.declare attributes
      (scope.expandName name).map (fun tag =>
        if closed then b.attach (.mk tag [] [])
        else { b with stack := ⟨name,tag,scope,[],[]⟩ :: b.stack })
  | .stop name =>
    match b.stack with
    | [] => none
    | o :: os => if o.name = name then some (Builder.attach ⟨os,b.root⟩ o.close) else none

def Builder.add (b : Builder) : Token → Option Builder
  | .text t => b.addText t
  | .markup body => (readTag body).bind b.addTag

def dropDeclaration : List Token → Option (List Token)
  | .text [] :: .markup ('?' :: 'x' :: 'm' :: 'l' :: s) :: ts =>
    if s.getLast? = some '?' then do
      let attributes ← readAttributes s.length s.dropLast
      match attributes with
      | (name,version) :: others =>
        if name = "version".toList ∧ "1.".toList <+: version ∧
            (others.map Prod.fst).Sublist ["encoding".toList, "standalone".toList] then
          return ts
        else none
      | [] => none
    else none
  | ts => some ts

def parse (document : Text) : Option Element := do
  let ts ← if document.all isChar then tokens (.text []) document else none
  let ts ← dropDeclaration ts
  let b ← ts.foldlM Builder.add ⟨[],none⟩
  if b.stack = [] then b.root else none

def WellFormed (document : Text) : Prop := (parse document).isSome = true

theorem forall_mem_of_all {p : Char → Prop} [DecidablePred p] {t : Text}
    (h : t.all (fun c => p c) = true) : ∀ c ∈ t, p c := by
  simpa using h

/-! Texts between tags. -/

def escapeChar (c : Char) : Text :=
  if c = '&' then "&amp;".toList
  else if c = '<' then "&lt;".toList
  else if c = '>' then "&gt;".toList
  else if c = '"' then "&quot;".toList
  else if c = '\'' then "&apos;".toList
  else [c]

theorem escapeChar_cases (c : Char) :
    (c ∈ ['&', '<', '>', '"', '\''] ∧
        (escapeChar c).all (fun x => x.isAlpha || x == '&' || x == ';') = true) ∨
      (c ∉ ['&', '<', '>', '"', '\''] ∧ escapeChar c = [c]) := by
  by_cases hc : c ∈ ['&', '<', '>', '"', '\'']
  · refine Or.inl ⟨hc,?_⟩
    simp only [mem_cons, not_mem_nil, or_false] at hc
    rcases hc with rfl | rfl | rfl | rfl | rfl <;> decide
  · refine Or.inr ⟨hc,?_⟩
    simp only [mem_cons, not_mem_nil, or_false, not_or] at hc
    simp [escapeChar, hc]

theorem expand_escapeChar (c : Char) (s : Text) :
    expand none (escapeChar c ++ s) = (expand none s).map (c :: ·) := by
  unfold escapeChar
  split_ifs with h1 h2 h3 h4 h5
  · rw [h1]
    rfl
  · rw [h2]
    rfl
  · rw [h3]
    rfl
  · rw [h4]
    rfl
  · rw [h5]
    rfl
  · simp [expand, h1]

variable {n t : Text}

/-- Entities undo the escaping. -/
theorem expand_escape : expand none (t.flatMap escapeChar) = some t := by
  induction t with
  | nil => rfl
  | cons c t ih => rw [flatMap_cons, expand_escapeChar, ih, map_some]

variable (after : Bool)

theorem return_not_mem_lineFeeds (s : Text) : '\r' ∉ lineFeeds after s := by
  induction s generalizing after with
  | nil => simp [lineFeeds]
  | cons c s ih =>
    unfold lineFeeds
    split_ifs with hr hn
    · simpa using ih true
    · exact ih false
    · simp only [mem_cons, not_or]
      exact ⟨Ne.symm hr,ih false⟩

theorem normalizeLines_eq_self_iff (s : Text) : normalizeLines s = s ↔ '\r' ∉ s := by
  constructor
  · intro h
    rw [← h]
    exact return_not_mem_lineFeeds false s
  · intro h
    unfold normalizeLines
    induction s with
    | nil => rfl
    | cons c s ih =>
      simp only [mem_cons, not_or] at h
      simp [lineFeeds, Ne.symm h.1, ih h.2]

theorem lineFeeds_escapeChar {c : Char} (hc : c ∈ ['&', '<', '>', '"', '\''])
    (s : Text) : lineFeeds after (escapeChar c ++ s) = escapeChar c ++ lineFeeds false s := by
  simp only [mem_cons, not_mem_nil, or_false] at hc
  rcases hc with rfl | rfl | rfl | rfl | rfl <;> rfl

theorem lineFeeds_escape (t : Text) :
    lineFeeds after (t.flatMap escapeChar) = (lineFeeds after t).flatMap escapeChar := by
  induction t generalizing after with
  | nil => rfl
  | cons c t ih =>
    rcases escapeChar_cases c with ⟨hc,_⟩ | ⟨hc,heq⟩
    · have hr : c ≠ '\r' := by rintro rfl; exact absurd hc (by decide)
      have hn : c ≠ '\n' := by rintro rfl; exact absurd hc (by decide)
      have hkeep : lineFeeds after (c :: t) = c :: lineFeeds false t := by
        simp [lineFeeds, hr, hn]
      rw [flatMap_cons, lineFeeds_escapeChar after hc, ih, hkeep, flatMap_cons]
    · rw [flatMap_cons, heq, cons_append, nil_append, lineFeeds, lineFeeds]
      have hfeed : escapeChar '\n' = ['\n'] := by decide
      split_ifs with hr hn
      · rw [ih, flatMap_cons, hfeed, cons_append, nil_append]
      · exact ih false
      · rw [ih, flatMap_cons, heq, cons_append, nil_append]

theorem mem_escape_plain (t : Text) (c : Char) (hc : c = '<' ∨ c = '>') :
    c ∉ t.flatMap escapeChar := by
  intro hmem
  obtain ⟨x,_,hx⟩ := mem_flatMap.mp hmem
  rcases escapeChar_cases x with ⟨_,hsafe⟩ | ⟨hplain,heq⟩
  · rcases hc with rfl | rfl <;> exact absurd (List.all_eq_true.mp hsafe _ hx) (by decide)
  · rw [heq, mem_singleton] at hx
    rw [← hx] at hplain
    rcases hc with rfl | rfl <;> exact hplain (by decide)

theorem hasSectionEnd_of_not_mem (ht : '>' ∉ t) : hasSectionEnd t = false := by
  induction t with
  | nil => rfl
  | cons c t ih =>
    have hno : "]]>".toList.isPrefixOf (c :: t) = false := by
      rw [Bool.eq_false_iff]
      intro h
      obtain ⟨rest,hrest⟩ := isPrefixOf_iff_prefix.mp h
      exact ht (hrest ▸ by simp)
    simp only [mem_cons, not_or] at ht
    rw [hasSectionEnd, hno, ih ht.2, Bool.or_false]

/-- Escaped text is read as the text itself, with its line ends normalized. -/
theorem characterData_escape (t : Text) :
    characterData (t.flatMap escapeChar) = some (normalizeLines t) := by
  have hend := hasSectionEnd_of_not_mem (mem_escape_plain t '>' (Or.inr rfl))
  rw [characterData, hend, normalizeLines, lineFeeds_escape]
  exact expand_escape

theorem characterData_plain (ht : ∀ c ∈ t, c ∉ ['&', '<', '>', '"', '\'', '\r']) :
    characterData t = some t := by
  have hesc : t.flatMap escapeChar = t := by
    induction t with
    | nil => rfl
    | cons c t ih =>
      have hc := ht c mem_cons_self
      rcases escapeChar_cases c with ⟨hspecial,_⟩ | ⟨_,heq⟩
      · exact absurd (by simp only [mem_cons] at hspecial ⊢; tauto) hc
      · rw [flatMap_cons, heq, ih (fun x hx => ht x (mem_cons_of_mem c hx))]
        rfl
  have hreturn : '\r' ∉ t := fun h => ht _ h (by simp)
  have h := characterData_escape t
  rwa [hesc, (normalizeLines_eq_self_iff t).mpr hreturn] at h

theorem escape_all_isChar (t : Text) :
    (t.flatMap escapeChar).all isChar = t.all isChar := by
  induction t with
  | nil => rfl
  | cons c t ih =>
    have hc : (escapeChar c).all isChar = isChar c := by
      rcases escapeChar_cases c with ⟨hspecial,_⟩ | ⟨_,heq⟩
      · simp only [mem_cons, not_mem_nil, or_false] at hspecial
        rcases hspecial with rfl | rfl | rfl | rfl | rfl <;> decide
      · rw [heq]
        simp
    rw [flatMap_cons, all_append, hc, ih, all_cons]

/-! Tags. -/

def plainName : Text → Bool
  | [] => false
  | c :: s => isNameStart c && s.all isNameChar && !(c :: s).contains ':'

def IsMarkup (body : Text) : Prop :=
  ∀ s, tokens (.markup []) (body ++ '>' :: s) =
    (tokens (.text []) s).map (.markup body :: ·)

theorem tokens_markup {body : Text} (h : ∀ c ∈ body, c ∉ ['<', '>', '"', '\'']) (seen s : Text) :
    tokens (.markup seen) (body ++ s) = tokens (.markup (body.reverse ++ seen)) s := by
  induction body generalizing seen with
  | nil => rfl
  | cons c body ih =>
    have hc := h c mem_cons_self
    simp only [mem_cons, not_mem_nil, or_false, not_or] at hc
    rw [cons_append, tokens, if_neg hc.2.1, if_neg hc.1, if_neg (by tauto),
      ih (fun x hx => h x (mem_cons_of_mem c hx)), reverse_cons, append_assoc]
    rfl

theorem tokens_quoted {value : Text} (hopen : '<' ∉ value) (hquote : '"' ∉ value)
    (seen s : Text) : tokens (.quoted '"' seen) (value ++ '"' :: s) =
      tokens (.markup ('"' :: (value.reverse ++ seen))) s := by
  induction value generalizing seen with
  | nil => rfl
  | cons c value ih =>
    simp only [mem_cons, not_or] at hopen hquote
    rw [cons_append, tokens, if_neg (Ne.symm hopen.1), if_neg (Ne.symm hquote.1),
      ih hopen.2 hquote.2, reverse_cons, append_assoc]
    rfl

theorem isMarkup_plain (body : Text) (h : ∀ c ∈ body, c ∉ ['<', '>', '"', '\'']) :
    IsMarkup body := by
  intro s
  rw [tokens_markup h, tokens, if_pos rfl, append_nil, reverse_reverse]

theorem isMarkup_attribute {body value : Text} (h : ∀ c ∈ body, c ∉ ['<', '>', '"', '\''])
    (hopen : '<' ∉ value) (hquote : '"' ∉ value) :
    IsMarkup (body ++ '"' :: (value ++ ['"'])) := by
  intro s
  have hbody : body ++ '"' :: (value ++ ['"']) ++ '>' :: s =
      body ++ '"' :: (value ++ '"' :: '>' :: s) := by simp
  have hmode : tokens (.markup (body.reverse ++ [])) ('"' :: (value ++ '"' :: '>' :: s)) =
      tokens (.quoted '"' ('"' :: body.reverse)) (value ++ '"' :: '>' :: s) := by
    rw [append_nil]
    rfl
  rw [hbody, tokens_markup h, hmode, tokens_quoted hopen hquote, tokens, if_pos rfl]
  simp

theorem tokens_text (ht : '<' ∉ t) (seen s : Text) :
    tokens (.text seen) (t ++ s) = tokens (.text (t.reverse ++ seen)) s := by
  induction t generalizing seen with
  | nil => rfl
  | cons c t ih =>
    simp only [mem_cons, not_or] at ht
    rw [cons_append, tokens, if_neg (Ne.symm ht.1), ih ht.2, reverse_cons, append_assoc]
    rfl

/-- Text up to a tag, and the tag. -/
theorem tokens_tag (t body s : Text) (ht : '<' ∉ t) (hbody : IsMarkup body) :
    tokens (.text []) (t ++ '<' :: (body ++ '>' :: s)) =
      (tokens (.text []) s).map (fun ts => .text t :: .markup body :: ts) := by
  rw [tokens_text ht, tokens, if_pos rfl, hbody s, Option.map_map, append_nil, reverse_reverse]
  rfl

theorem plainName_chars (n : Text) (h : plainName n = true) (c : Char) (hc : c ∈ n) :
    isNameChar c = true ∧ c ≠ ':' := by
  cases n with
  | nil => cases hc
  | cons x s =>
    simp only [plainName, Bool.and_eq_true, Bool.not_eq_true', List.all_eq_true] at h
    refine ⟨?_,?_⟩
    · rcases mem_cons.mp hc with rfl | hc
      · rw [isNameChar, h.1.1]
        rfl
      · exact h.1.2 c hc
    · rintro rfl
      exact absurd (contains_iff_mem.mpr hc) (by rw [h.2]; simp)

theorem isMarkup_name (h : plainName n = true) : IsMarkup n := by
  apply isMarkup_plain
  intro c hc hbad
  have hname := (plainName_chars n h c hc).1
  simp only [mem_cons, not_mem_nil, or_false] at hbad
  rcases hbad with rfl | rfl | rfl | rfl <;> exact absurd hname (by decide)

theorem isMarkup_stop (h : plainName n = true) : IsMarkup ('/' :: n) := by
  apply isMarkup_plain
  intro c hc hbad
  rcases mem_cons.mp hc with rfl | hc
  · exact absurd hbad (by decide)
  · have hname := (plainName_chars n h c hc).1
    simp only [mem_cons, not_mem_nil, or_false] at hbad
    rcases hbad with rfl | rfl | rfl | rfl <;> exact absurd hname (by decide)

theorem readName_plain (h : plainName n = true) : readName n = some (n,[]) := by
  cases n with
  | nil => cases h
  | cons c s =>
    simp only [plainName, Bool.and_eq_true] at h
    rw [readName, if_pos h.1.1, takeWhile_eq_self_iff.mpr (List.all_eq_true.mp h.1.2),
      dropWhile_eq_nil_iff.mpr (List.all_eq_true.mp h.1.2)]

theorem readTag_start (h : plainName n = true) :
    readTag n = some (.start n [] false) := by
  have hslash : '/' ∉ n := fun hmem =>
    absurd (plainName_chars n h '/' hmem).1 (by decide)
  have hlast : ¬ n.getLast? = some '/' := fun hl => hslash (mem_of_getLast? hl)
  unfold readTag
  split
  · exact absurd mem_cons_self hslash
  · simp [hlast, readName_plain h, readAttributes]

theorem readTag_stop (h : plainName n = true) : readTag ('/' :: n) = some (.stop n) := by
  have hread : readTag ('/' :: n) = (readName n).bind
      (fun p => if p.2.all isSpace then some (.stop p.1) else none) := rfl
  rw [hread, readName_plain h]
  rfl

/-! Elements. -/

def tagged (name inner : Text) : Text :=
  '<' :: (name ++ '>' :: (inner ++ '<' :: '/' :: (name ++ ['>'])))

def Reads (scope : Scope) (s : Text) (es : List Element) : Prop :=
  ∃ ts, (∀ rest, tokens (.text []) (s ++ rest) = (tokens (.text []) rest).map (ts ++ ·)) ∧
    ∀ o os root, o.scope = scope → ts.foldlM Builder.add ⟨o :: os,root⟩ =
      some ⟨{ o with children := es.reverse ++ o.children } :: os,root⟩

theorem reads_nil (scope : Scope) : Reads scope [] [] := by
  refine ⟨[],?_,?_⟩
  · intro rest
    simp
  · intro o os root _
    rfl

/-- Contents that are read one by one are read together. -/
theorem reads_append (scope : Scope) (s s' : Text) (es es' : List Element)
    (h : Reads scope s es) (h' : Reads scope s' es') : Reads scope (s ++ s') (es ++ es') := by
  obtain ⟨ts,htokens,hbuild⟩ := h
  obtain ⟨ts',htokens',hbuild'⟩ := h'
  refine ⟨ts ++ ts',?_,?_⟩
  · intro rest
    rw [append_assoc, htokens, htokens', Option.map_map]
    simp [Function.comp_def]
  · intro o os root ho
    rw [foldlM_append, hbuild o os root ho]
    simp only [bind_eq_bind, bind_some]
    rw [hbuild' { o with children := es.reverse ++ o.children } os root ho,
      reverse_append, append_assoc]

theorem reads_flatMap {α : Type*} (scope : Scope) (xs : List α) (f : α → Text)
    (g : α → Element) (h : ∀ x ∈ xs, Reads scope (f x) [g x]) :
    Reads scope (xs.flatMap f) (xs.map g) := by
  induction xs with
  | nil => exact reads_nil scope
  | cons x xs ih =>
    have hx := h x mem_cons_self
    exact reads_append scope _ _ [g x] _ hx (ih (fun y hy => h y (mem_cons_of_mem x hy)))

theorem addText_nil (o : Open) (os : List Open) (root : Option Element) :
    Builder.addText ⟨o :: os,root⟩ [] = some ⟨o :: os,root⟩ := by
  simp [Builder.addText, characterData, hasSectionEnd, normalizeLines, lineFeeds, expand]

theorem addTag_start {o : Open} (os : List Open) (root : Option Element) {name tag : Text}
    (htag : o.scope.expandName name = some tag) :
    Builder.addTag ⟨o :: os,root⟩ (.start name [] false) =
      some ⟨⟨name,tag,o.scope,[],[]⟩ :: o :: os,root⟩ := by
  simp [Builder.addTag, Builder.scope, Scope.declare_nil, htag]

section
variable (scope : Scope) (name tag : Text) (hname : plainName name = true)
  (htag : scope.expandName name = some tag)
include hname htag

theorem reads_leaf (t value : Text) (ht : '<' ∉ t) (hvalue : characterData t = some value) :
    Reads scope (tagged name t) [.mk tag value []] := by
  refine ⟨[.text [], .markup name, .text t, .markup ('/' :: name)],?_,?_⟩
  · intro rest
    have hopen := tokens_tag [] name (t ++ '<' :: ('/' :: name ++ '>' :: rest)) (by simp)
      (isMarkup_name hname)
    have hclose := tokens_tag t ('/' :: name) rest ht (isMarkup_stop hname)
    rw [hclose, Option.map_map] at hopen
    simpa [tagged, Function.comp_def] using hopen
  · intro o os root ho
    rw [← ho] at htag
    simp only [foldlM_cons, foldlM_nil, Builder.add, readTag_start hname,
      readTag_stop hname, bind_eq_bind, bind_some, addText_nil,
      addTag_start os root htag]
    simp [Builder.addText, hvalue, Builder.addTag, Builder.attach, Open.close]

theorem reads_node {inner : Text} {es : List Element} (h : Reads scope inner es) :
    Reads scope (tagged name inner) [.mk tag [] es] := by
  obtain ⟨ts,htokens,hbuild⟩ := h
  refine ⟨[.text [], .markup name] ++ (ts ++ [.text [], .markup ('/' :: name)]),?_,?_⟩
  · intro rest
    have hopen := tokens_tag [] name (inner ++ '<' :: ('/' :: name ++ '>' :: rest)) (by simp)
      (isMarkup_name hname)
    have hclose := tokens_tag [] ('/' :: name) rest (by simp) (isMarkup_stop hname)
    rw [nil_append] at hclose
    rw [htokens, hclose, Option.map_map, Option.map_map] at hopen
    simpa [tagged, Function.comp_def] using hopen
  · intro o os root ho
    have hinner := hbuild ⟨name,tag,scope,[],[]⟩ (o :: os) root rfl
    rw [← ho] at htag hinner
    simp only [cons_append, nil_append, foldlM_cons, Builder.add, addText_nil,
      readTag_start hname, bind_eq_bind, bind_some,
      addTag_start os root htag, foldlM_append, hinner, foldlM_nil,
      readTag_stop hname]
    simp [Builder.addTag, Builder.attach, Open.close]

end

/-- The whole document: the declaration and the root with what it declares. -/
theorem parse_document (d body name tag inner : Text) (attributes : List (Text × Text))
    (es : List Element) (hd : IsMarkup d)
    (hdrop : ∀ ts, dropDeclaration (.text [] :: .markup d :: ts) = some ts)
    (hbody : IsMarkup body) (hroot : readTag body = some (.start name attributes false))
    (hname : plainName name = true)
    (htag : Scope.expandName (Scope.declare attributes []) name = some tag)
    (hinner : Reads (Scope.declare attributes []) inner es) (document : Text)
    (hdocument : document = '<' :: (d ++ '>' ::
      '<' :: (body ++ '>' :: (inner ++ '<' :: '/' :: (name ++ ['>'])))))
    (hchars : document.all isChar = true) : parse document = some (.mk tag [] es) := by
  obtain ⟨ts,htokens,hbuild⟩ := hinner
  have hlex : tokens (.text []) document = some (.text [] :: .markup d :: .text [] ::
      .markup body :: (ts ++ [.text [], .markup ('/' :: name), .text []])) := by
    have hfirst := tokens_tag [] d
      ('<' :: (body ++ '>' :: (inner ++ '<' :: ('/' :: name ++ ['>'])))) (by simp) hd
    have hsecond := tokens_tag [] body (inner ++ '<' :: ('/' :: name ++ ['>'])) (by simp) hbody
    have hlast := tokens_tag [] ('/' :: name) [] (by simp) (isMarkup_stop hname)
    rw [nil_append] at hfirst hsecond hlast
    rw [hsecond, htokens, hlast, Option.map_map, Option.map_map, Option.map_map] at hfirst
    rw [hdocument]
    simpa [tokens, Function.comp_def] using hfirst
  have hin := hbuild ⟨name,tag,Scope.declare attributes [],[],[]⟩ [] none rfl
  have hempty : Builder.add ⟨[],none⟩ (.text []) = some ⟨[],none⟩ := rfl
  have hstart : Builder.add ⟨[],none⟩ (.markup body) =
      some ⟨[⟨name,tag,Scope.declare attributes [],[],[]⟩],none⟩ := by
    simp [Builder.add, hroot, Builder.addTag, Builder.scope, htag]
  unfold parse
  simp only [hchars, if_true, hlex, bind_eq_bind, bind_some, hdrop,
    foldlM_cons, hempty, hstart, foldlM_append, hin, foldlM_nil]
  have hlast (root : Option Element) : Builder.addText ⟨[],root⟩ [] = some ⟨[],root⟩ := rfl
  simp only [Builder.add, addText_nil, readTag_stop hname, bind_some]
  simp [Builder.addTag, Builder.attach, hlast, Open.close]

theorem wellFormed_all_isChar {document : Text} (h : WellFormed document) :
    document.all isChar = true := by
  by_contra hbad
  unfold WellFormed parse at h
  rw [if_neg hbad] at h
  cases h

end BackendGauntlet.Xml
