import Mathlib.Tactic.IntervalCases
import BackendGauntlet.PyText

/-! Python's `json` module: the printer, the strict parser, and where one inverts the other. -/
namespace BackendGauntlet

open PyText List Option

/-- Fields are kept as written; a number with a fraction or an exponent is kept as its text. -/
inductive Json
  | null
  | bool (b : Bool)
  | num (n : ℤ)
  | real (text : Text)
  | str (s : Text)
  | arr (items : List Json)
  | obj (fields : List (Text × Json))

namespace Json

/-- `d[key]` of a parsed object: the last field of that name wins. -/
def get (key : Text) : Json → Option Json
  | .obj fields => (fields.reverse.find? (fun f => f.1 = key)).map Prod.snd
  | _ => none

def hexDigit (n : ℕ) : Char := if n < 10 then Char.ofNat (48+n) else Char.ofNat (87+n)

def hexUnit (n : ℕ) : Text :=
  ['\\', 'u', hexDigit (n/4096%16), hexDigit (n/256%16), hexDigit (n/16%16),
    hexDigit (n%16)]

def shortEscapes : List (Char × Char) :=
  [('"','"'), ('\\','\\'), ('\n','n'), ('\r','r'), ('\t','t'), (Char.ofNat 12,'f'),
    (Char.ofNat 8,'b')]

def isPlain (c : Char) : Bool := 32 ≤ c.toNat && c.toNat ≤ 126 && c ≠ '"' && c ≠ '\\'

def escapeChar (c : Char) : Text :=
  if isPlain c then [c]
  else
    match shortEscapes.find? (fun e => e.1 = c) with
    | some e => ['\\', e.2]
    | none =>
      if c.toNat < 0x10000 then hexUnit c.toNat
      else
        hexUnit (0xD800+(c.toNat-0x10000)/1024) ++ hexUnit (0xDC00+(c.toNat-0x10000)%1024)

def quoted (s : Text) : Text := '"' :: (s.flatMap escapeChar ++ ['"'])

def gap (indent : Option ℕ) (level : ℕ) : Text :=
  match indent with
  | none => []
  | some k => '\n' :: List.replicate (k*level) ' '

def padding (indent : Option ℕ) (level : ℕ) : Text :=
  match indent with
  | none => [' ']
  | some _ => gap indent level

mutual
def text (indent : Option ℕ) (level : ℕ) : Json → Text
  | .null => "null".toList
  | .bool true => "true".toList
  | .bool false => "false".toList
  | .num n => intText n
  | .real t => t
  | .str s => quoted s
  | .arr [] => ['[', ']']
  | .arr (j :: js) =>
    '[' :: (gap indent (level+1) ++ (text indent (level+1) j ++
      moreItems indent (level+1) js ++ (gap indent level ++ [']'])))
  | .obj [] => ['\x7b', '\x7d']
  | .obj ((k,j) :: fs) =>
    '\x7b' :: (gap indent (level+1) ++ (quoted k ++ ':' :: ' ' :: text indent (level+1) j ++
      moreFields indent (level+1) fs ++ (gap indent level ++ ['\x7d'])))

def moreItems (indent : Option ℕ) (level : ℕ) : List Json → Text
  | [] => []
  | j :: js => ',' :: (padding indent level ++ (text indent level j ++ moreItems indent level js))

def moreFields (indent : Option ℕ) (level : ℕ) : List (Text × Json) → Text
  | [] => []
  | (k,j) :: fs =>
    ',' :: (padding indent level ++ (quoted k ++ ':' :: ' ' :: text indent level j ++
      moreFields indent level fs))
end

def dumps (indent : Option ℕ) (j : Json) : Text := text indent 0 j

def isSpace (c : Char) : Bool := c = ' ' || c = '\t' || c = '\n' || c = '\r'

def skipSpace (s : Text) : Text := s.dropWhile isSpace

def rawString : Bool → Text → Option (Text × Text)
  | _, [] => none
  | esc, c :: s =>
    if esc then (rawString false s).map (fun p => (c :: p.1,p.2))
    else if c = '"' then some ([],s)
    else if c.toNat < 32 then none
    else (rawString (c = '\\') s).map (fun p => (c :: p.1,p.2))

def unescape : Text → Option (List ℕ)
  | [] => some []
  | c :: s =>
    if c ≠ '\\' then (unescape s).map (fun t => c.toNat :: t)
    else
      match s with
      | 'u' :: h1 :: h2 :: h3 :: h4 :: r => do
        let a ← hexValue h1
        let b ← hexValue h2
        let c ← hexValue h3
        let d ← hexValue h4
        let t ← unescape r
        return (a*4096+b*256+c*16+d) :: t
      | '/' :: r => (unescape r).map (fun t => '/'.toNat :: t)
      | e :: r =>
        match shortEscapes.find? (fun x => x.2 = e) with
        | none => none
        | some x => (unescape r).map (fun t => x.1.toNat :: t)
      | [] => none

/-- Pairs of surrogates become one code point; a lone one has no `Char` and is replaced. -/
def joinSurrogates : List ℕ → Text
  | [] => []
  | [a] => [if 0xD800 ≤ a ∧ a ≤ 0xDFFF then '�' else Char.ofNat a]
  | a :: b :: s =>
    if 0xD800 ≤ a ∧ a ≤ 0xDBFF ∧ 0xDC00 ≤ b ∧ b ≤ 0xDFFF then
      Char.ofNat (0x10000+(a-0xD800)*1024+(b-0xDC00)) :: joinSurrogates s
    else
      (if 0xD800 ≤ a ∧ a ≤ 0xDFFF then '�' else Char.ofNat a) :: joinSurrogates (b :: s)

def scanString (s : Text) : Option (Text × Text) := do
  let (raw,r) ← rawString false s
  let t ← unescape raw
  return (joinSurrogates t,r)

def fraction : Text → Text
  | '.' :: r => if r.takeWhile Char.isDigit = [] then [] else '.' :: r.takeWhile Char.isDigit
  | _ => []

def exponent (s : Text) : Text :=
  match s with
  | e :: r =>
    if e ≠ 'e' ∧ e ≠ 'E' then []
    else
      let sign := r.takeWhile (fun c => c = '-' || c = '+') |>.take 1
      let digits := (r.drop sign.length).takeWhile Char.isDigit
      if digits = [] then [] else e :: (sign ++ digits)
  | [] => []

def scanNat (s : Text) : Text :=
  match s with
  | '0' :: _ => ['0']
  | _ => s.takeWhile Char.isDigit

def scanUnsigned (neg : Bool) (s : Text) : Option (Json × Text) :=
  let digits := scanNat s
  let r := s.drop digits.length
  let frac := fraction r
  let exp := exponent (r.drop frac.length)
  let sign := if neg then ['-'] else []
  if digits = [] then none
  else if frac ≠ [] ∨ exp ≠ [] then
    some (.real (sign ++ digits ++ frac ++ exp),r.drop (frac.length+exp.length))
  else if digits.length ≤ maxStrDigits then
    let n : ℤ := Nat.ofDigitChars 10 digits 0
    some (.num (if neg then -n else n),r)
  else none

def scanNumber : Text → Option (Json × Text)
  | [] => none
  | c :: s => if c = '-' then scanUnsigned true s else scanUnsigned false (c :: s)

def literals : List (Text × Json) :=
  [("null".toList,.null), ("true".toList,.bool true), ("false".toList,.bool false),
    ("NaN".toList,.real "NaN".toList), ("Infinity".toList,.real "Infinity".toList),
    ("-Infinity".toList,.real "-Infinity".toList)]

def scanScalar (s : Text) : Option (Json × Text) :=
  match literals.find? (fun p => p.1 <+: s) with
  | some p => some (p.2,s.drop p.1.length)
  | none => scanNumber s

def expect (c : Char) : Text → Option Text
  | [] => none
  | x :: s => if x = c then some s else none

-- The fuel bounds the nesting; a text is never nested deeper than it is long.
mutual
def scanValue : ℕ → Text → Option (Json × Text)
  | 0, _ => none
  | _+1, [] => none
  | n+1, c :: s =>
    if c = '"' then (scanString s).map (fun p => (.str p.1,p.2))
    else if c = '[' then
      match expect ']' (skipSpace s) with
      | some r => some (.arr [],r)
      | none => do
        let (j,r) ← scanValue n (skipSpace s)
        let (js,r) ← scanItems n (skipSpace r)
        return (.arr (j :: js),r)
    else if c = '\x7b' then
      match expect '\x7d' (skipSpace s) with
      | some r => some (.obj [],r)
      | none => do
        let (f,r) ← scanField n (skipSpace s)
        let (fs,r) ← scanFields n (skipSpace r)
        return (.obj (f :: fs),r)
    else scanScalar (c :: s)

def scanField : ℕ → Text → Option ((Text × Json) × Text)
  | 0, _ => none
  | n+1, s => do
    let r ← expect '"' s
    let (k,r) ← scanString r
    let r ← expect ':' (skipSpace r)
    let (j,r) ← scanValue n (skipSpace r)
    return ((k,j),r)

def scanItems : ℕ → Text → Option (List Json × Text)
  | 0, _ => none
  | n+1, s =>
    match expect ']' s with
    | some r => some ([],r)
    | none => do
      let r ← expect ',' s
      let (j,r) ← scanValue n (skipSpace r)
      let (js,r) ← scanItems n (skipSpace r)
      return (j :: js,r)

def scanFields : ℕ → Text → Option (List (Text × Json) × Text)
  | 0, _ => none
  | n+1, s =>
    match expect '\x7d' s with
    | some r => some ([],r)
    | none => do
      let r ← expect ',' s
      let (f,r) ← scanField n (skipSpace r)
      let (fs,r) ← scanFields n (skipSpace r)
      return (f :: fs,r)
end

def loads (s : Text) : Option Json := do
  let (j,r) ← scanValue (s.length+1) (skipSpace s)
  if skipSpace r = [] then return j else none

def PlainText (s : Text) : Prop := ∀ c ∈ s, isPlain c = true

variable {k r rest s : Text} {c : Char} {level n : ℕ} {j : Json} {fs : List (Text × Json)}

theorem plainText_of_all (hs : s.all isPlain = true) : PlainText s :=
  List.all_eq_true.mp hs

theorem plain_bounds (hc : isPlain c = true) :
    32 ≤ c.toNat ∧ c.toNat ≤ 126 ∧ c ≠ '"' ∧ c ≠ '\\' := by
  simpa [isPlain, and_assoc] using hc

theorem escape_plain (hs : PlainText s) : s.flatMap escapeChar = s := by
  induction s with
  | nil => rfl
  | cons c s ih =>
    have hc : isPlain c = true := hs c mem_cons_self
    rw [flatMap_cons, ih (fun x hx => hs x (mem_cons_of_mem c hx)), escapeChar, if_pos hc]
    rfl

theorem rawString_plain (s rest : Text) (hs : PlainText s) :
    rawString false (s ++ '"' :: rest) = some (s,rest) := by
  induction s with
  | nil => rfl
  | cons c s ih =>
    obtain ⟨hl,_,hq,hb⟩ := plain_bounds (hs c mem_cons_self)
    have hn : ¬ c.toNat < 32 := by omega
    simp [rawString, hq, hn, hb, ih (fun x hx => hs x (mem_cons_of_mem c hx))]

theorem unescape_plain (hs : PlainText s) : unescape s = some (s.map Char.toNat) := by
  induction s with
  | nil => rfl
  | cons c s ih =>
    obtain ⟨_,_,_,hb⟩ := plain_bounds (hs c mem_cons_self)
    rw [unescape.eq_def]
    simp [hb, ih (fun x hx => hs x (mem_cons_of_mem c hx))]

theorem joinSurrogates_plain (hs : PlainText s) :
    joinSurrogates (s.map Char.toNat) = s := by
  induction s with
  | nil => rfl
  | cons c s ih =>
    have hc := plain_bounds (hs c mem_cons_self)
    have hn : ¬ 0xD800 ≤ c.toNat := by omega
    have hs' := ih (fun x hx => hs x (mem_cons_of_mem c hx))
    cases s with
    | nil => simp [joinSurrogates, hn]
    | cons d s =>
      simp only [map_cons] at hs' ⊢
      simp [joinSurrogates, hn, hs']

/-- A printed string is read back. -/
theorem scanString_quoted (s rest : Text) (hs : PlainText s) :
    scanString (s.flatMap escapeChar ++ '"' :: rest) = some (s,rest) := by
  simp [scanString, escape_plain hs, rawString_plain s rest hs, unescape_plain hs,
    joinSurrogates_plain hs]

def Stops (rest : Text) : Prop :=
  ∀ c ∈ rest.head?, c.isDigit = false ∧ c ≠ '.' ∧ c ≠ 'e' ∧ c ≠ 'E'

theorem takeWhile_digits (hs : ∀ c ∈ s, c.isDigit = true) (hr : Stops rest) :
    (s ++ rest).takeWhile Char.isDigit = s := by
  rw [takeWhile_append_of_pos hs]
  cases rest with
  | nil => simp
  | cons c rest => simp [(hr c rfl).1]

theorem toDigits_head (hn : 0 < n) : ∃ c s, Nat.toDigits 10 n = c :: s ∧ c ≠ '0' := by
  induction n using Nat.strong_induction_on with
  | _ n ih =>
    rw [Nat.toDigits_eq_if (by decide)]
    split_ifs with hlt
    · refine ⟨n.digitChar,[],rfl,?_⟩
      interval_cases n <;> decide
    · obtain ⟨c,s,hs,hc⟩ := ih (n/10) (by omega) (by omega)
      exact ⟨c,s ++ [(n%10).digitChar],by rw [hs]; rfl,hc⟩

theorem scanNat_digits (n : ℕ) (hr : Stops rest) :
    scanNat (Nat.toDigits 10 n ++ rest) = Nat.toDigits 10 n := by
  have hd : ∀ c ∈ Nat.toDigits 10 n, c.isDigit = true :=
    fun c hc => Nat.isDigit_of_mem_toDigits (by decide) (by decide) hc
  rcases Nat.eq_zero_or_pos n with rfl | hn
  · rfl
  · obtain ⟨c,s,hs,hc⟩ := toDigits_head hn
    have ht := takeWhile_digits hd hr
    rw [hs] at ht ⊢
    unfold scanNat
    split
    · rename_i heq
      exact absurd (cons.inj heq).1 hc
    · exact ht

theorem scanUnsigned_digits (neg : Bool)
    (hn : (Nat.toDigits 10 n).length ≤ maxStrDigits) (hr : Stops rest) :
    scanUnsigned neg (Nat.toDigits 10 n ++ rest) =
      some (.num (if neg then -(n : ℤ) else n),rest) := by
  have hfrac : fraction rest = [] := by
    cases rest with
    | nil => rfl
    | cons c rest =>
      unfold fraction
      split
      · rename_i heq
        exact absurd (cons.inj heq).1 (hr c rfl).2.1
      · rfl
  have hexp : exponent rest = [] := by
    cases rest with
    | nil => rfl
    | cons c rest => simp [exponent, (hr c rfl).2.2]
  have hne : Nat.toDigits 10 n ≠ [] := Nat.toDigits_ne_nil
  simp [scanUnsigned, scanNat_digits n hr, hfrac, hexp, hne, hn]

/-- A printed integer is read back. -/
theorem scanNumber_intText {n : ℤ}
    (hn : (Nat.toDigits 10 n.natAbs).length ≤ maxStrDigits) (hr : Stops rest) :
    scanNumber (intText n ++ rest) = some (.num n,rest) := by
  unfold intText
  split_ifs with hneg
  · have hval : -((n.natAbs : ℕ) : ℤ) = n := by omega
    have hscan := scanUnsigned_digits true hn hr
    simpa only [scanNumber, cons_append, if_true, hval] using hscan
  · have hval : ((n.natAbs : ℕ) : ℤ) = n := by omega
    have hscan := scanUnsigned_digits false hn hr
    cases hd : Nat.toDigits 10 n.natAbs with
    | nil => exact absurd hd Nat.toDigits_ne_nil
    | cons c s =>
      have hc : c ≠ '-' := by
        rintro rfl
        have := Nat.isDigit_of_mem_toDigits (b := 10) (n := n.natAbs) (c := '-') (by decide)
          (by decide) (hd ▸ mem_cons_self)
        exact absurd this (by decide)
      rw [hd, hval] at hscan
      simpa only [scanNumber, cons_append, hc, if_false, Bool.false_eq_true] using hscan

mutual
def Printable : Json → Prop
  | .null => True
  | .bool _ => True
  | .num n => (Nat.toDigits 10 n.natAbs).length ≤ maxStrDigits
  | .real _ => False
  | .str s => PlainText s
  | .arr js => PrintableItems js
  | .obj fs => PrintableFields fs

def PrintableItems : List Json → Prop
  | [] => True
  | j :: js => Printable j ∧ PrintableItems js

def PrintableFields : List (Text × Json) → Prop
  | [] => True
  | (k,j) :: fs => PlainText k ∧ Printable j ∧ PrintableFields fs
end

theorem skipSpace_gap (indent : Option ℕ) (level : ℕ) (s : Text) :
    skipSpace (gap indent level ++ s) = skipSpace s := by
  cases indent with
  | none => rfl
  | some k =>
    have hr (m : ℕ) : skipSpace (List.replicate m ' ' ++ s) = skipSpace s := by
      induction m with
      | zero => rfl
      | succ m ih => simpa [skipSpace, List.replicate_succ, isSpace] using ih
    simpa [skipSpace, gap, isSpace] using hr (k*level)

theorem skipSpace_padding (indent : Option ℕ) (level : ℕ) (s : Text) :
    skipSpace (padding indent level ++ s) = skipSpace s := by
  cases indent with
  | none => rfl
  | some k => exact skipSpace_gap (some k) level s

theorem skipSpace_cons (c : Char) (s : Text) (hc : isSpace c = false) :
    skipSpace (c :: s) = c :: s := by
  simp [skipSpace, hc]

theorem intText_head (n : ℤ) :
    ∃ c s, intText n = c :: s ∧
      (c.isDigit = true ∨ c = '-' ∧ ∃ d r, s = d :: r ∧ d.isDigit = true) := by
  have hd : ∃ d r, Nat.toDigits 10 n.natAbs = d :: r ∧ d.isDigit = true := by
    cases h : Nat.toDigits 10 n.natAbs with
    | nil => exact absurd h Nat.toDigits_ne_nil
    | cons d r =>
      exact ⟨d,r,rfl,Nat.isDigit_of_mem_toDigits (b := 10) (n := n.natAbs) (by decide) (by decide)
        (h ▸ mem_cons_self)⟩
  obtain ⟨d,r,h,hdig⟩ := hd
  unfold intText
  split_ifs
  · exact ⟨'-',_,rfl,Or.inr ⟨rfl,d,r,h,hdig⟩⟩
  · exact ⟨d,r,h,Or.inl hdig⟩

theorem text_head (indent : Option ℕ) (level : ℕ) (j : Json) (hj : Printable j) :
    ∃ c s, text indent level j = c :: s ∧ isSpace c = false ∧ c ≠ ']' ∧ c ≠ '\x7d' := by
  match j with
  | .null => exact ⟨'n',_,rfl,by decide⟩
  | .bool true => exact ⟨'t',_,rfl,by decide⟩
  | .bool false => exact ⟨'f',_,rfl,by decide⟩
  | .num n =>
    obtain ⟨c,s,hs,hc⟩ := intText_head n
    refine ⟨c,s,by rw [text, hs],?_⟩
    rcases hc with hc | ⟨rfl,_⟩
    · have hb := isDigit_toNat c hc
      refine ⟨?_,?_,?_⟩
      · simp only [isSpace, Bool.or_eq_false_iff, decide_eq_false_iff_not]
        refine ⟨⟨⟨?_,?_⟩,?_⟩,?_⟩ <;> rintro rfl <;> exact absurd hc (by decide)
      · rintro rfl
        exact absurd hc (by decide)
      · rintro rfl
        exact absurd hc (by decide)
    · decide
  | .real t => exact False.elim hj
  | .str s => exact ⟨'"',_,rfl,by decide⟩
  | .arr [] => exact ⟨'[',_,rfl,by decide⟩
  | .arr (j :: js) => exact ⟨'[',_,rfl,by decide⟩
  | .obj [] => exact ⟨'\x7b',_,rfl,by decide⟩
  | .obj ((k,j) :: fs) => exact ⟨'\x7b',_,rfl,by decide⟩

theorem scanScalar_intText {n : ℤ}
    (hn : (Nat.toDigits 10 n.natAbs).length ≤ maxStrDigits) (hr : Stops rest) :
    scanScalar (intText n ++ rest) = some (.num n,rest) := by
  have hnone : literals.find? (fun p => p.1 <+: intText n ++ rest) = none := by
    obtain ⟨c,s,hs,hc⟩ := intText_head n
    rw [hs]
    rcases hc with hc | ⟨rfl,d,r,rfl,hd⟩
    · have hne (x : Char) (hx : x.isDigit = false) : x ≠ c := by
        rintro rfl
        exact absurd (hc.symm.trans hx) (by decide)
      simp [literals, cons_prefix_cons, hne 'n' (by decide), hne 't' (by decide),
        hne 'f' (by decide), hne 'N' (by decide), hne 'I' (by decide), hne '-' (by decide)]
    · have hI : 'I' ≠ d := by
        rintro rfl
        exact absurd hd (by decide)
      simp [literals, cons_prefix_cons, hI]
  rw [scanScalar, hnone]
  exact scanNumber_intText hn hr

theorem stops_of_head (c : Char) (s : Text) (hc : c ∈ [',', ']', '\x7d', '\n']) :
    Stops (c :: s) := by
  have h : ∀ x ∈ [',', ']', '\x7d', '\n'], x.isDigit = false ∧ x ≠ '.' ∧ x ≠ 'e' ∧ x ≠ 'E' :=
    all_iff_forall_prop.mp (by decide)
  intro x hx
  exact some.inj hx ▸ h c hc

theorem stops_close (indent : Option ℕ) (level : ℕ) (c : Char) (rest : Text)
    (hc : c = ']' ∨ c = '\x7d') : Stops (gap indent level ++ c :: rest) := by
  cases indent with
  | none => exact stops_of_head c rest (by rcases hc with rfl | rfl <;> decide)
  | some k => exact stops_of_head '\n' _ (by decide)

theorem stops_moreItems (indent : Option ℕ) (level : ℕ) (js : List Json) (rest : Text) :
    Stops (moreItems indent (level+1) js ++ (gap indent level ++ ']' :: rest)) := by
  cases js with
  | nil => exact stops_close indent level ']' rest (Or.inl rfl)
  | cons j js => exact stops_of_head ',' _ (by decide)

theorem stops_moreFields (indent : Option ℕ) (level : ℕ) (fs : List (Text × Json)) (rest : Text) :
    Stops (moreFields indent (level+1) fs ++ (gap indent level ++ '\x7d' :: rest)) := by
  cases fs with
  | nil => exact stops_close indent level '\x7d' rest (Or.inr rfl)
  | cons f fs => exact stops_of_head ',' _ (by decide)

theorem skipSpace_text (indent : Option ℕ) (level : ℕ) (hj : Printable j) (s : Text) :
    skipSpace (text indent level j ++ s) = text indent level j ++ s := by
  obtain ⟨c,t,ht,hc,_⟩ := text_head indent level j hj
  rw [ht]
  exact skipSpace_cons c (t ++ s) hc

theorem scanField_text {indent : Option ℕ}
    (hk : PlainText k) (hj : Printable j)
    (hv : scanValue n (text indent level j ++ rest) = some (j,rest)) :
    scanField (n+1) (quoted k ++ ':' :: ' ' :: text indent level j ++ rest) =
      some ((k,j),rest) := by
  have hs : scanString
      (k.flatMap escapeChar ++ '"' :: (':' :: ' ' :: (text indent level j ++ rest))) =
      some (k,':' :: ' ' :: (text indent level j ++ rest)) := scanString_quoted k _ hk
  have hsp : skipSpace (' ' :: (text indent level j ++ rest)) = text indent level j ++ rest :=
    skipSpace_text indent level hj rest
  have hcol : skipSpace (':' :: ' ' :: (text indent level j ++ rest)) =
      ':' :: ' ' :: (text indent level j ++ rest) := skipSpace_cons _ _ (by decide)
  simp [scanField, quoted, expect, hs, hcol, hsp, hv]

theorem skipSpace_close (indent : Option ℕ) (level : ℕ) (c : Char) (rest : Text)
    (hc : c = ']' ∨ c = '\x7d') : skipSpace (gap indent level ++ c :: rest) = c :: rest := by
  rw [skipSpace_gap]
  exact skipSpace_cons c rest (by rcases hc with rfl | rfl <;> decide)

section
variable (indent : Option ℕ) (n : ℕ)

def ReadsValues : Prop := ∀ (level : ℕ) (j : Json) (rest : Text), Printable j →
  (text indent level j).length ≤ n → Stops rest →
  scanValue n (text indent level j ++ rest) = some (j,rest)

def ReadsItems : Prop := ∀ (level : ℕ) (js : List Json) (rest : Text), PrintableItems js →
  (moreItems indent (level+1) js).length < n →
  scanItems n (skipSpace (moreItems indent (level+1) js ++
    (gap indent level ++ ']' :: rest))) = some (js,rest)

def ReadsField : Prop := ∀ (level : ℕ) (k : Text) (j : Json) (rest : Text), PlainText k →
  Printable j → (text indent level j).length < n → Stops rest →
  scanField n (quoted k ++ ':' :: ' ' :: text indent level j ++ rest) = some ((k,j),rest)

def ReadsFields : Prop := ∀ (level : ℕ) (fs : List (Text × Json)) (rest : Text),
  PrintableFields fs → (moreFields indent (level+1) fs).length < n →
  scanFields n (skipSpace (moreFields indent (level+1) fs ++
    (gap indent level ++ '\x7d' :: rest))) = some (fs,rest)

variable {indent n}

theorem scanValue_num (level : ℕ) {k : ℤ} (hk : Printable (.num k))
    (hr : Stops rest) :
    scanValue (n+1) (text indent level (.num k) ++ rest) = some (.num k,rest) := by
  have hscan := scanScalar_intText hk hr
  obtain ⟨c,s,hs,hc⟩ := intText_head k
  have hne (x : Char) (hx : x.isDigit = false) (hm : x ≠ '-') : c ≠ x := by
    rintro rfl
    rcases hc with hc | hc
    · exact absurd (hc.symm.trans hx) (by decide)
    · exact hm hc.1
  rw [hs] at hscan
  simpa [text, hs, scanValue, hne '"' (by decide) (by decide), hne '[' (by decide) (by decide),
    hne '\x7b' (by decide) (by decide)] using hscan

section
variable (hvalues : ReadsValues indent n) (hitems : ReadsItems indent n)
include hvalues hitems

theorem reads_item (level : ℕ) (js : List Json) (rest : Text) (hj : Printable j)
    (hjs : PrintableItems js) (hn : (text indent (level+1) j).length ≤ n)
    (hn' : (moreItems indent (level+1) js).length < n) :
    let tail := moreItems indent (level+1) js ++ (gap indent level ++ ']' :: rest)
    skipSpace (text indent (level+1) j ++ tail) = text indent (level+1) j ++ tail ∧
      scanValue n (text indent (level+1) j ++ tail) = some (j,tail) ∧
      scanItems n (skipSpace tail) = some (js,rest) :=
  ⟨skipSpace_text indent (level+1) hj _,
    hvalues (level+1) j _ hj hn (stops_moreItems indent level js rest),
    hitems level js rest hjs hn'⟩

theorem scanValue_arr {js : List Json} (rest : Text)
    (hj : Printable (.arr (j :: js)))
    (hn : (text indent level (.arr (j :: js))).length ≤ n+1) :
    scanValue (n+1) (text indent level (.arr (j :: js)) ++ rest) =
      some (.arr (j :: js),rest) := by
  obtain ⟨hj,hjs⟩ := hj
  simp only [text, length_cons, length_append, length_nil] at hn
  obtain ⟨hsp,hv,hi⟩ := reads_item hvalues hitems level js rest hj hjs (by omega) (by omega)
  obtain ⟨c,s,hs,_,hc,_⟩ := text_head indent (level+1) j hj
  have hx : expect ']' (text indent (level+1) j ++
      (moreItems indent (level+1) js ++ (gap indent level ++ ']' :: rest))) = none := by
    simp [hs, expect, hc]
  simp [text, scanValue, skipSpace_gap, hsp, hx, hv, hi]

theorem readsItems_succ : ReadsItems indent (n+1) := by
  intro level js rest hjs hn
  match js with
  | [] =>
    simp [moreItems, skipSpace_close indent level ']' rest (Or.inl rfl), scanItems, expect]
  | j :: js =>
    obtain ⟨hj,hjs⟩ := hjs
    simp only [moreItems, length_cons, length_append] at hn
    obtain ⟨hsp,hv,hi⟩ := reads_item hvalues hitems level js rest hj hjs (by omega) (by omega)
    simp [moreItems, skipSpace_cons ',' _ (by decide), scanItems, expect, skipSpace_padding,
      hsp, hv, hi]

end

section
variable (hfield : ReadsField indent n) (hfields : ReadsFields indent n)
include hfield hfields

theorem reads_field (level : ℕ) (j : Json) (fs : List (Text × Json)) (rest : Text)
    (hk : PlainText k) (hj : Printable j) (hfs : PrintableFields fs)
    (hn : (text indent (level+1) j).length < n)
    (hn' : (moreFields indent (level+1) fs).length < n) :
    let tail := moreFields indent (level+1) fs ++ (gap indent level ++ '\x7d' :: rest)
    scanField n ('"' :: (k.flatMap escapeChar ++
        '"' :: ':' :: ' ' :: (text indent (level+1) j ++ tail))) = some ((k,j),tail) ∧
      scanFields n (skipSpace tail) = some (fs,rest) := by
  have hf := hfield (level+1) k j _ hk hj hn (stops_moreFields indent level fs rest)
  simp only [quoted, cons_append, append_assoc, nil_append] at hf
  exact ⟨hf,hfields level fs rest hfs hn'⟩

theorem scanValue_obj (rest : Text)
    (hj : Printable (.obj ((k,j) :: fs)))
    (hn : (text indent level (.obj ((k,j) :: fs))).length ≤ n+1) :
    scanValue (n+1) (text indent level (.obj ((k,j) :: fs)) ++ rest) =
      some (.obj ((k,j) :: fs),rest) := by
  obtain ⟨hk,hj,hfs⟩ := hj
  simp only [text, quoted, length_cons, length_append, length_nil] at hn
  obtain ⟨hf,hi⟩ := reads_field hfield hfields level j fs rest hk hj hfs (by omega) (by omega)
  simp [text, quoted, scanValue, skipSpace_gap, skipSpace_cons '"' _ (by decide), expect, hf, hi]

theorem readsFields_succ : ReadsFields indent (n+1) := by
  intro level fs rest hfs hn
  match fs with
  | [] =>
    simp [moreFields, skipSpace_close indent level '\x7d' rest (Or.inr rfl), scanFields, expect]
  | (k,j) :: fs =>
    obtain ⟨hk,hj,hfs⟩ := hfs
    simp only [moreFields, quoted, length_cons, length_append, length_nil] at hn
    obtain ⟨hf,hi⟩ := reads_field hfield hfields level j fs rest hk hj hfs (by omega) (by omega)
    simp [moreFields, quoted, skipSpace_cons ',' _ (by decide), scanFields, expect,
      skipSpace_padding, skipSpace_cons '"' _ (by decide), hf, hi]

theorem readsValues_succ (hvalues : ReadsValues indent n) (hitems : ReadsItems indent n) :
    ReadsValues indent (n+1) := by
  intro level j rest hj hn hr
  match j with
  | .null => simp [text, scanValue, scanScalar, literals]
  | .bool true => simp [text, scanValue, scanScalar, literals, cons_prefix_cons]
  | .bool false => simp [text, scanValue, scanScalar, literals, cons_prefix_cons]
  | .num k => exact scanValue_num level hj hr
  | .real t => exact False.elim hj
  | .str s =>
    have hs := scanString_quoted s rest hj
    simp [text, quoted, scanValue, hs]
  | .arr [] => simp [text, scanValue, skipSpace, isSpace, expect]
  | .arr (j :: js) => exact scanValue_arr hvalues hitems rest hj hn
  | .obj [] => simp [text, scanValue, skipSpace, isSpace, expect]
  | .obj ((k,j) :: fs) => exact scanValue_obj hfield hfields rest hj hn

end

variable (indent n)

/-- What is printed is read back; the induction is on the fuel, which every nested scan
decreases. -/
theorem scan_text : ReadsValues indent n ∧ ReadsItems indent n ∧ ReadsField indent n ∧
    ReadsFields indent n := by
  induction n with
  | zero =>
    refine ⟨?_,fun _ _ _ _ h => absurd h (by omega),fun _ _ _ _ _ _ h => absurd h (by omega),
      fun _ _ _ _ h => absurd h (by omega)⟩
    intro level j rest hj hn
    obtain ⟨c,s,hs,_⟩ := text_head indent level j hj
    simp [hs] at hn
  | succ n ih =>
    obtain ⟨hvalues,hitems,hfield,hfields⟩ := ih
    refine ⟨readsValues_succ hfield hfields hvalues hitems,readsItems_succ hvalues hitems,?_,
      readsFields_succ hfield hfields⟩
    intro level k j rest hk hj hn hr
    exact scanField_text hk hj (hvalues level j rest hj (by omega) hr)

end

/-- `json.loads(json.dumps(j)) == j` on printable documents. -/
theorem loads_dumps (indent : Option ℕ) (hj : Printable j) :
    loads (dumps indent j) = some j := by
  have hv := (scan_text indent ((dumps indent j).length+1)).1 0 j [] hj (by simp [dumps])
    nofun
  have hs := skipSpace_text indent 0 hj []
  rw [append_nil] at hv hs
  simp only [dumps] at hv
  simp only [loads, dumps, hs, hv, bind_eq_bind, bind_some]
  rfl

section
variable (P : Char → Prop) (hP : ∀ c ∈ [',', ' ', ':', '"'], P c)
include hP

theorem forall_mem_quoted (s : Text) (hs : PlainText s) (h : ∀ c ∈ s, P c) :
    ∀ c ∈ quoted s, P c := by
  intro c hc
  rw [quoted, escape_plain hs, mem_cons, mem_append, mem_singleton] at hc
  rcases hc with rfl | hc | rfl
  · exact hP _ (by decide)
  · exact h c hc
  · exact hP _ (by decide)

theorem forall_mem_field {f : Text × Json} (hk : PlainText f.1) (hf : ∀ c ∈ f.1, P c)
    (hj : ∀ c ∈ text none level f.2, P c) :
    ∀ c ∈ quoted f.1 ++ ':' :: ' ' :: text none level f.2, P c := by
  intro c hc
  simp only [mem_append, mem_cons] at hc
  rcases hc with hc | rfl | rfl | hc
  · exact forall_mem_quoted P hP f.1 hk hf c hc
  · exact hP _ (by decide)
  · exact hP _ (by decide)
  · exact hj c hc

theorem forall_mem_moreFields
    (h : ∀ f ∈ fs, PlainText f.1 ∧ (∀ c ∈ f.1, P c) ∧ ∀ c ∈ text none level f.2, P c) :
    ∀ c ∈ moreFields none level fs, P c := by
  induction fs with
  | nil => simp [moreFields]
  | cons f fs ih =>
    obtain ⟨hk,hf,hj⟩ := h f mem_cons_self
    intro c hc
    simp only [moreFields, padding, mem_cons, mem_append, not_mem_nil, or_false] at hc
    rcases hc with rfl | rfl | hc | hc
    · exact hP _ (by decide)
    · exact hP _ (by decide)
    · exact forall_mem_field P hP hk hf hj c (by simpa using hc)
    · exact ih (fun g hg => h g (mem_cons_of_mem f hg)) c hc

theorem object_shape {f : Text × Json}
    (h : ∀ g ∈ f :: fs, PlainText g.1 ∧ (∀ c ∈ g.1, P c) ∧ ∀ c ∈ text none 1 g.2, P c) :
    ∃ body, dumps none (.obj (f :: fs)) = '\x7b' :: (body ++ ['\x7d']) ∧ ∀ c ∈ body, P c := by
  obtain ⟨hk,hf,hj⟩ := h f mem_cons_self
  refine ⟨quoted f.1 ++ ':' :: ' ' :: text none 1 f.2 ++ moreFields none 1 fs,rfl,?_⟩
  intro c hc
  rcases mem_append.mp hc with hc | hc
  · exact forall_mem_field P hP hk hf hj c hc
  · exact forall_mem_moreFields P hP (fun g hg => h g (mem_cons_of_mem f hg)) c hc

end

theorem rawString_suffix (esc : Bool) (s a r : Text) (h : rawString esc s = some (a,r)) :
    r <:+ s := by
  induction s generalizing esc a with
  | nil => simp [rawString] at h
  | cons c s ih =>
    unfold rawString at h
    split_ifs at h with h1 h2 h3
    · obtain ⟨p,hp,he⟩ := Option.map_eq_some_iff.mp h
      exact (ih _ p.1 (by rw [hp, ← (Prod.mk.inj he).2])).trans (List.suffix_cons c s)
    · exact (Prod.mk.inj (Option.some.inj h)).2 ▸ List.suffix_cons c s
    · obtain ⟨p,hp,he⟩ := Option.map_eq_some_iff.mp h
      exact (ih _ p.1 (by rw [hp, ← (Prod.mk.inj he).2])).trans (List.suffix_cons c s)

theorem scanString_suffix {a : Text} (h : scanString s = some (a,r)) : r <:+ s := by
  simp only [scanString, bind_eq_bind, bind_eq_some_iff] at h
  obtain ⟨⟨raw,r'⟩,hraw,t,_,he⟩ := h
  exact (Prod.mk.inj (some.inj he)).2 ▸ rawString_suffix false s raw r' hraw

theorem expect_suffix (h : expect c s = some r) : r <:+ s := by
  cases s with
  | nil => simp [expect] at h
  | cons x s =>
    simp only [expect] at h
    split_ifs at h
    exact some.inj h ▸ suffix_cons x s

theorem mem_of_expect (h : expect c s = some r) : c ∈ s := by
  cases s with
  | nil => simp [expect] at h
  | cons x s =>
    simp only [expect] at h
    split_ifs at h with hx
    exact hx ▸ mem_cons_self

theorem scanScalar_suffix (h : scanScalar s = some (j,r)) :
    r <:+ s := by
  have hu (neg : Bool) (s : Text) (j : Json) (r : Text) (h : scanUnsigned neg s = some (j,r)) :
      r <:+ s := by
    simp only [scanUnsigned] at h
    split_ifs at h <;> rw [← (Prod.mk.inj (some.inj h)).2]
    · exact (drop_suffix _ _).trans (drop_suffix _ _)
    · exact (drop_suffix _ _).trans (drop_suffix _ _)
    · exact drop_suffix _ _
    · exact drop_suffix _ _
  unfold scanScalar at h
  split at h
  · rw [← (Prod.mk.inj (some.inj h)).2]
    exact drop_suffix _ _
  · cases s with
    | nil => simp [scanNumber] at h
    | cons c s =>
      simp only [scanNumber] at h
      split_ifs at h
      · exact (hu true s j r h).trans (suffix_cons c s)
      · exact hu false (c :: s) j r h

theorem skipSpace_suffix (s : Text) : skipSpace s <:+ s := dropWhile_suffix _

theorem scan_suffix :
    (∀ s j r, scanValue n s = some (j,r) → r <:+ s) ∧
    (∀ s js r, scanItems n s = some (js,r) → r <:+ s) ∧
    (∀ s f r, scanField n s = some (f,r) → r <:+ s) ∧
    ∀ s fs r, scanFields n s = some (fs,r) → r <:+ s ∧ '\x7d' ∈ s := by
  induction n with
  | zero => simp [scanValue, scanItems, scanField, scanFields]
  | succ n ih =>
    obtain ⟨hvalue,hitems,hfield,hfields⟩ := ih
    refine ⟨?_,?_,?_,?_⟩
    · intro s j r h
      cases s with
      | nil => simp [scanValue] at h
      | cons c s =>
        simp only [scanValue] at h
        split_ifs at h
        · obtain ⟨p,hp,he⟩ := map_eq_some_iff.mp h
          have hr := scanString_suffix hp
          rw [(Prod.mk.inj he).2] at hr
          exact hr.trans (suffix_cons c s)
        · have htail := suffix_cons c s
          split at h
          · rename_i r' hr
            rw [← (Prod.mk.inj (some.inj h)).2]
            exact (expect_suffix hr).trans ((skipSpace_suffix s).trans htail)
          · simp only [bind_eq_bind, bind_eq_some_iff] at h
            obtain ⟨⟨j0,r0⟩,h0,⟨js,r1⟩,h1,he⟩ := h
            rw [← (Prod.mk.inj (some.inj he)).2]
            have h2 := (hitems _ _ _ h1).trans (skipSpace_suffix r0)
            exact (h2.trans (hvalue _ _ _ h0)).trans ((skipSpace_suffix s).trans htail)
        · have htail := suffix_cons c s
          split at h
          · rename_i r' hr
            rw [← (Prod.mk.inj (some.inj h)).2]
            exact (expect_suffix hr).trans ((skipSpace_suffix s).trans htail)
          · simp only [bind_eq_bind, bind_eq_some_iff] at h
            obtain ⟨⟨f,r0⟩,h0,⟨fs,r1⟩,h1,he⟩ := h
            rw [← (Prod.mk.inj (some.inj he)).2]
            have h2 := (hfields _ _ _ h1).1.trans (skipSpace_suffix r0)
            exact (h2.trans (hfield _ _ _ h0)).trans ((skipSpace_suffix s).trans htail)
        · exact scanScalar_suffix h
    · intro s js r h
      simp only [scanItems] at h
      split at h
      · rename_i r' hr
        exact (Prod.mk.inj (some.inj h)).2 ▸ expect_suffix hr
      · simp only [bind_eq_bind, bind_eq_some_iff] at h
        obtain ⟨r0,h0,⟨j,r1⟩,h1,⟨js,r2⟩,h2,he⟩ := h
        rw [← (Prod.mk.inj (some.inj he)).2]
        have h3 := (hvalue _ _ _ h1).trans ((skipSpace_suffix r0).trans (expect_suffix h0))
        exact ((hitems _ _ _ h2).trans (skipSpace_suffix r1)).trans h3
    · intro s f r h
      simp only [scanField, bind_eq_bind, bind_eq_some_iff] at h
      obtain ⟨r0,h0,⟨k,r1⟩,h1,r2,h2,⟨j,r3⟩,h3,he⟩ := h
      rw [← (Prod.mk.inj (some.inj he)).2]
      have h4 := (scanString_suffix h1).trans (expect_suffix h0)
      have h5 := (expect_suffix h2).trans ((skipSpace_suffix r1).trans h4)
      exact ((hvalue _ _ _ h3).trans (skipSpace_suffix r2)).trans h5
    · intro s fs r h
      simp only [scanFields] at h
      split at h
      · rename_i r' hr
        have hs := expect_suffix hr
        refine ⟨(Prod.mk.inj (some.inj h)).2 ▸ hs,?_⟩
        exact mem_of_expect hr
      · simp only [bind_eq_bind, bind_eq_some_iff] at h
        obtain ⟨r0,h0,⟨f,r1⟩,h1,⟨fs,r2⟩,h2,he⟩ := h
        rw [← (Prod.mk.inj (some.inj he)).2]
        have h3 := (hfield _ _ _ h1).trans ((skipSpace_suffix r0).trans (expect_suffix h0))
        have h4 := (skipSpace_suffix r1).trans h3
        obtain ⟨h5,hb⟩ := hfields _ _ _ h2
        exact ⟨h5.trans h4,h4.subset hb⟩

/-- An object without its brace does not parse. -/
theorem loads_unclosed (hs : '\x7d' ∉ s) : loads ('\x7b' :: s) = none := by
  have hsp : skipSpace ('\x7b' :: s) = '\x7b' :: s := skipSpace_cons _ _ (by decide)
  have hx : expect '\x7d' (skipSpace s) = none := by
    cases h : expect '\x7d' (skipSpace s) with
    | none => rfl
    | some r => exact absurd ((skipSpace_suffix s).subset (mem_of_expect h)) hs
  have hscan : scanValue (s.length+2) ('\x7b' :: s) = none := by
    have hq : ('\x7b' : Char) ≠ '"' := by decide
    have hb : ('\x7b' : Char) ≠ '[' := by decide
    simp only [scanValue, hq, hb, if_false, if_true, hx]
    cases hf : scanField (s.length+1) (skipSpace s) with
    | none => rfl
    | some p =>
      obtain ⟨f,r⟩ := p
      have hr := ((scan_suffix).2.2.1 _ _ _ hf).trans (skipSpace_suffix s)
      cases hfs : scanFields (s.length+1) (skipSpace r) with
      | none => simp [hfs]
      | some q =>
        have hm := ((scan_suffix).2.2.2 _ q.1 q.2 hfs).2
        exact absurd (hr.subset ((skipSpace_suffix r).subset hm)) hs
  simp [loads, hsp, hscan]

end Json

end BackendGauntlet
