import Mathlib.Data.List.TakeWhile
import Mathlib.Data.Bool.AllAny
import Mathlib.Data.List.Sort

/-! Python `str` methods and the `int` constructor, on lists of characters. -/
namespace BackendGauntlet.PyText

open List Option

abbrev Text := List Char

def hexValue (c : Char) : Option ℕ :=
  if 48 ≤ c.toNat ∧ c.toNat ≤ 57 then some (c.toNat-48)
  else if 65 ≤ c.toNat ∧ c.toNat ≤ 70 then some (c.toNat-55)
  else if 97 ≤ c.toNat ∧ c.toNat ≤ 102 then some (c.toNat-87)
  else none

/-- `s.partition(sep)` for a one-character separator; `none` when it is absent. -/
def cut (sep : Char) : Text → Option (Text × Text)
  | [] => none
  | c :: s => if c = sep then some ([],s) else (cut sep s).map (fun p => (c :: p.1,p.2))

def splitChar (sep : Char) : Text → List Text
  | [] => [[]]
  | c :: s =>
    if c = sep then [] :: splitChar sep s
    else match splitChar sep s with
      | [] => [[c]]
      | w :: ws => (c :: w) :: ws

def lstrip (c : Char) (s : Text) : Text := s.dropWhile (fun x => x == c)

def intText (n : ℤ) : Text :=
  if n < 0 then '-' :: Nat.toDigits 10 n.natAbs else Nat.toDigits 10 n.natAbs

/-- The zeros of the Unicode decimal digit runs. -/
def digitZeros : List ℕ :=
  [0x30, 0x660, 0x6F0, 0x7C0, 0x966, 0x9E6, 0xA66, 0xAE6, 0xB66, 0xBE6, 0xC66, 0xCE6, 0xD66,
   0xDE6, 0xE50, 0xED0, 0xF20, 0x1040, 0x1090, 0x17E0, 0x1810, 0x1946, 0x19D0, 0x1A80, 0x1A90,
   0x1B50, 0x1BB0, 0x1C40, 0x1C50, 0xA620, 0xA8D0, 0xA900, 0xA9D0, 0xA9F0, 0xAA50, 0xABF0,
   0xFF10, 0x104A0, 0x10D30, 0x11066, 0x110F0, 0x11136, 0x111D0, 0x112F0, 0x11450, 0x114D0,
   0x11650, 0x116C0, 0x11730, 0x118E0, 0x11950, 0x11C50, 0x11D50, 0x11DA0, 0x11F50, 0x16A60,
   0x16AC0, 0x16B50, 0x1D7CE, 0x1D7D8, 0x1D7E2, 0x1D7EC, 0x1D7F6, 0x1E140, 0x1E2F0, 0x1E4F0,
   0x1E950, 0x1FBF0]

def wideSpaces : List ℕ :=
  [0x85, 0xA0, 0x1680, 0x2000, 0x2001, 0x2002, 0x2003, 0x2004, 0x2005, 0x2006, 0x2007, 0x2008,
   0x2009, 0x200A, 0x2028, 0x2029, 0x202F, 0x205F, 0x3000]

/-- To `int` a wide space is a blank, and a digit of any script the ASCII digit. -/
def asciiImage (c : Char) : Char :=
  if c.toNat < 127 then c
  else if c.toNat ∈ wideSpaces then ' '
  else match digitZeros.find? (fun z => z ≤ c.toNat && c.toNat < z+10) with
    | some z => Nat.digitChar (c.toNat-z)
    | none => '?'

def isBlank (c : Char) : Bool := c.toNat == 32 || (9 ≤ c.toNat && c.toNat ≤ 13)

def isSpaceChar (c : Char) : Bool :=
  isBlank c || (28 ≤ c.toNat && c.toNat ≤ 31) || c.toNat ∈ wideSpaces

def strip (s : Text) : Text :=
  ((s.dropWhile isSpaceChar).reverse.dropWhile isSpaceChar).reverse

/-- A single underscore may stand between two digits; `prev` says whether one came before. -/
def readDigits : Bool → Text → Option Text
  | prev, [] => if prev then some [] else none
  | prev, c :: s =>
    if c.isDigit then (readDigits true s).map (fun ds => c :: ds)
    else if c = '_' ∧ prev = true then readDigits false s
    else none

def maxStrDigits : ℕ := 4300

def readNat (s : Text) : Option ℕ :=
  (readDigits false s).bind (fun ds =>
    if ds.length ≤ maxStrDigits then some (Nat.ofDigitChars 10 ds 0) else none)

/-- `int(s)`; `none` is a `ValueError`. -/
def parseInt (s : Text) : Option ℤ :=
  let t := ((s.map asciiImage).dropWhile isBlank).reverse.dropWhile isBlank
  match t.reverse with
  | '-' :: u => (readNat u).map (fun n : ℕ => -(n : ℤ))
  | '+' :: u => (readNat u).map (fun n : ℕ => (n : ℤ))
  | u => (readNat u).map (fun n : ℕ => (n : ℤ))

def findText (needle : Text) : Text → Option ℕ
  | [] => if needle = [] then some 0 else none
  | c :: s =>
    if needle.isPrefixOf (c :: s) then some 0 else (findText needle s).map (fun p => p+1)

/-- The text up to the end of the first occurrence determines where that occurrence is. -/
theorem findText_take_append (needle s t : Text) (p : ℕ) (h : findText needle s = some p) :
    findText needle (s.take (p+needle.length) ++ t) = some p ∧
      p+needle.length ≤ s.length := by
  induction s generalizing p with
  | nil =>
    unfold findText at h
    split at h
    · rename_i hn
      cases h
      subst hn
      refine ⟨?_,by simp⟩
      cases t <;> simp [findText]
    · cases h
  | cons c s ih =>
    unfold findText at h
    split at h
    · rename_i hpre
      cases h
      obtain ⟨u,hu⟩ := isPrefixOf_iff_prefix.mp hpre
      have hlen : needle.length ≤ (c :: s).length := by
        rw [← hu, length_append]
        omega
      have htake : (c :: s).take (0+needle.length) = needle := by
        rw [← hu, Nat.zero_add, take_left]
      refine ⟨?_,by omega⟩
      rw [htake]
      -- the occurrence is at the very start
      cases hnt : needle ++ t with
      | nil => simp [findText, (append_eq_nil_iff.mp hnt).1]
      | cons d u' =>
        have hp : needle.isPrefixOf (d :: u') = true :=
          isPrefixOf_iff_prefix.mpr (hnt ▸ prefix_append needle t)
        simp [findText, hp]
    · rename_i hpre
      obtain ⟨p0,hp0,rfl⟩ := map_eq_some_iff.mp h
      obtain ⟨hfind,hlen⟩ := ih p0 hp0
      refine ⟨?_,by rw [length_cons]; omega⟩
      have hcons : (c :: s).take (p0+1+needle.length) ++ t =
          c :: (s.take (p0+needle.length) ++ t) := by
        rw [show p0+1+needle.length = (p0+needle.length)+1 by omega, take_succ_cons,
          cons_append]
      -- an occurrence at the start would already be one in the whole text
      have hno : ¬ needle.isPrefixOf (c :: (s.take (p0+needle.length) ++ t)) = true := by
        intro hp
        apply hpre
        have hstarts := isPrefixOf_iff_prefix.mp hp
        have h1 := prefix_iff_eq_take.mp hstarts
        apply isPrefixOf_iff_prefix.mpr
        apply prefix_iff_eq_take.mpr
        rw [← hcons, take_append_of_le_length (by
          rw [length_take, length_cons]
          omega), take_take, Nat.min_eq_left (by omega)] at h1
        exact h1
      rw [hcons, findText, if_neg hno, hfind]
      rfl

/-- `s < t`: by code points, a proper beginning first. -/
def ltText : Text → Text → Bool
  | _, [] => false
  | [], _ :: _ => true
  | a :: s, b :: t => decide (a.toNat < b.toNat) || (a == b && ltText s t)

def leText (s t : Text) : Bool := !ltText t s

theorem ltText_irrefl (s : Text) : ltText s s = false := by
  induction s with
  | nil => rfl
  | cons a s ih => simp [ltText, ih]

theorem ltText_trans (s t u : Text) (hst : ltText s t = true) (htu : ltText t u = true) :
    ltText s u = true := by
  induction s generalizing t u with
  | nil =>
    cases u with
    | nil => exact absurd htu (by cases t <;> simp [ltText])
    | cons c u => rfl
  | cons a s ih =>
    cases t with
    | nil => cases hst
    | cons b t =>
      cases u with
      | nil => cases htu
      | cons c u =>
        simp only [ltText, Bool.or_eq_true, Bool.and_eq_true, decide_eq_true_eq, beq_iff_eq]
          at hst htu ⊢
        rcases hst with hab | ⟨hab,hst⟩
        · rcases htu with hbc | ⟨hbc,_⟩
          · exact Or.inl (by omega)
          · exact Or.inl (by rw [← hbc]; exact hab)
        · rcases htu with hbc | ⟨hbc,htu⟩
          · exact Or.inl (by rw [hab]; exact hbc)
          · exact Or.inr ⟨hab.trans hbc,ih t u hst htu⟩

theorem ltText_trichotomy (s t : Text) : ltText s t = true ∨ s = t ∨ ltText t s = true := by
  induction s generalizing t with
  | nil => cases t <;> simp [ltText]
  | cons a s ih =>
    cases t with
    | nil => simp [ltText]
    | cons b t =>
      simp only [ltText, Bool.or_eq_true, Bool.and_eq_true, decide_eq_true_eq, beq_iff_eq,
        cons.injEq]
      by_cases hab : a = b
      · subst hab
        simpa using ih t
      · have hne : a.toNat ≠ b.toNat := fun h => hab (Char.toNat_inj.mp h)
        rcases Nat.lt_or_gt_of_ne hne with h | h
        · exact Or.inl (Or.inl h)
        · exact Or.inr (Or.inr (Or.inl h))

theorem leText_iff (s t : Text) : leText s t = true ↔ ltText s t = true ∨ s = t := by
  unfold leText
  constructor
  · intro h
    rcases ltText_trichotomy s t with hst | hst | hts
    · exact Or.inl hst
    · exact Or.inr hst
    · simp [hts] at h
  · rintro (h | rfl)
    · by_contra hn
      have hts : ltText t s = true := by simpa using hn
      have hss := ltText_trans s t s h hts
      simp [ltText_irrefl] at hss
    · simp [ltText_irrefl]

theorem leText_trans {s t u : Text} (hst : leText s t = true) (htu : leText t u = true) :
    leText s u = true := by
  rw [leText_iff] at hst htu ⊢
  rcases hst with hst | rfl
  · rcases htu with htu | rfl
    · exact Or.inl (ltText_trans s t u hst htu)
    · exact Or.inl hst
  · exact htu

theorem leText_total (s t : Text) : leText s t = true ∨ leText t s = true := by
  rw [leText_iff, leText_iff]
  rcases ltText_trichotomy s t with h | h | h
  · exact Or.inl (Or.inl h)
  · exact Or.inl (Or.inr h)
  · exact Or.inr (Or.inl h)

theorem leText_antisymm {s t : Text} (hst : leText s t = true) (hts : leText t s = true) :
    s = t := by
  rw [leText_iff] at hst hts
  rcases hst with hst | rfl
  · rcases hts with hts | rfl
    · have hss := ltText_trans s t s hst hts
      rw [ltText_irrefl] at hss
      cases hss
    · rfl
  · rfl

theorem pairwise_sortByName {α : Type*} (name : α → Text) (items : List α) :
    (items.insertionSort (fun a b => leText (name a) (name b) = true)).Pairwise
      (fun a b => leText (name a) (name b) = true) := by
  have : Std.Total (fun a b : α => leText (name a) (name b) = true) :=
    ⟨fun a b => leText_total (name a) (name b)⟩
  have : IsTrans α (fun a b : α => leText (name a) (name b) = true) :=
    ⟨fun a b c => leText_trans⟩
  exact pairwise_insertionSort _ items

variable (sep : Char)

/-- The text is cut at its first separator. -/
theorem cut_eq_some_iff (s a b : Text) :
    cut sep s = some (a,b) ↔ s = a ++ sep :: b ∧ sep ∉ a := by
  induction s generalizing a with
  | nil => simp [cut]
  | cons c s ih =>
    by_cases hc : c = sep
    · simp only [cut, hc, if_true, some.injEq, Prod.mk.injEq]
      constructor
      · rintro ⟨rfl,rfl⟩
        simp
      · rintro ⟨he,hn⟩
        cases a with
        | nil => simpa using he
        | cons x a =>
          simp only [cons_append, cons.injEq] at he
          exact False.elim (hn (by simp [← he.1]))
    · simp only [cut, hc, if_false, map_eq_some_iff, Prod.exists, Prod.mk.injEq]
      constructor
      · rintro ⟨x,y,hx,rfl,rfl⟩
        obtain ⟨hs,hn⟩ := (ih x).mp hx
        refine ⟨by rw [hs, cons_append],?_⟩
        simp only [mem_cons, not_or]
        exact ⟨fun h => hc h.symm,hn⟩
      · rintro ⟨he,hn⟩
        cases a with
        | nil => exact False.elim (hc (cons.inj he).1)
        | cons x a =>
          simp only [cons_append, cons.injEq] at he
          exact ⟨a,b,(ih a).mpr ⟨he.2,fun h => hn (mem_cons_of_mem x h)⟩,by rw [he.1],rfl⟩

theorem cut_eq_none_iff (s : Text) : cut sep s = none ↔ sep ∉ s := by
  induction s with
  | nil => simp [cut]
  | cons c s ih =>
    by_cases hc : c = sep
    · simp [cut, hc]
    · simp [cut, hc, ih, Ne.symm hc]

theorem append_sep_inj (a b a' b' : Text) (ha : sep ∉ a) (ha' : sep ∉ a')
    (h : a ++ sep :: b = a' ++ sep :: b') : a = a' ∧ b = b' := by
  have hc := (cut_eq_some_iff sep (a ++ sep :: b) a b).mpr ⟨rfl,ha⟩
  have hc' := (cut_eq_some_iff sep (a ++ sep :: b) a' b').mpr ⟨h,ha'⟩
  simpa using hc.symm.trans hc'

theorem append_sep_inj_last (a b a' b' : Text) (hb : sep ∉ b) (hb' : sep ∉ b')
    (h : a ++ sep :: b = a' ++ sep :: b') : a = a' ∧ b = b' := by
  have hr : b.reverse ++ sep :: a.reverse = b'.reverse ++ sep :: a'.reverse := by
    have := congrArg reverse h
    simpa using this
  obtain ⟨h1,h2⟩ := append_sep_inj sep b.reverse a.reverse b'.reverse a'.reverse
    (by simpa using hb) (by simpa using hb') hr
  exact ⟨reverse_inj.mp h2,reverse_inj.mp h1⟩

theorem splitChar_none (s : Text) (hs : sep ∉ s) : splitChar sep s = [s] := by
  induction s with
  | nil => rfl
  | cons c s ih =>
    simp only [mem_cons, not_or] at hs
    simp only [splitChar, Ne.symm hs.1, if_false, ih hs.2]

theorem splitChar_append (a b : Text) (ha : sep ∉ a) :
    splitChar sep (a ++ sep :: b) = a :: splitChar sep b := by
  induction a with
  | nil => simp [splitChar]
  | cons c a ih =>
    simp only [mem_cons, not_or] at ha
    simp only [cons_append, splitChar, Ne.symm ha.1, if_false, ih ha.2]

theorem strip_cons (c : Char) (s : Text) (hc : isSpaceChar c = false) :
    ∃ t, strip (c :: s) = c :: t ∧ ∀ x ∈ t, x ∈ s := by
  have hd : (c :: s).dropWhile isSpaceChar = c :: s := by simp [hc]
  have hr : (s.reverse ++ [c]).dropWhile isSpaceChar = s.reverse.dropWhile isSpaceChar ++ [c] := by
    rw [dropWhile_append]
    split_ifs with hn
    · simp [List.isEmpty_iff.mp hn, hc]
    · rfl
  refine ⟨(s.reverse.dropWhile isSpaceChar).reverse,?_,?_⟩
  · rw [strip, hd, reverse_cons, hr]
    simp
  · intro x hx
    exact mem_reverse.mp ((dropWhile_suffix _).subset (mem_reverse.mp hx))

theorem strip_eq_self (c e : Char) (s : Text) (hc : isSpaceChar c = false)
    (he : isSpaceChar e = false) : strip (c :: (s ++ [e])) = c :: (s ++ [e]) := by
  have hd : (c :: (s ++ [e])).dropWhile isSpaceChar = c :: (s ++ [e]) := by simp [hc]
  rw [strip, hd]
  simp [he]

theorem readDigits_digits (s : Text) (hs : ∀ c ∈ s, c.isDigit = true) (prev : Bool)
    (hp : prev = true ∨ s ≠ []) : readDigits prev s = some s := by
  induction s generalizing prev with
  | nil =>
    rcases hp with hp | hp
    · simp [readDigits, hp]
    · exact False.elim (hp rfl)
  | cons c s ih =>
    have hc := hs c (mem_cons_self)
    simp [readDigits, hc, ih (fun x hx => hs x (mem_cons_of_mem c hx)) true (Or.inl rfl)]

theorem isDigit_toNat (c : Char) (hc : c.isDigit = true) : 48 ≤ c.toNat ∧ c.toNat ≤ 57 := by
  simp only [Char.isDigit, Bool.and_eq_true, decide_eq_true_eq] at hc
  exact ⟨hc.1,hc.2⟩

theorem plain_asciiImage {c : Char} (hc : c.isDigit = true ∨ c = '-') :
    asciiImage c = c ∧ isBlank c = false := by
  have hn : 45 ≤ c.toNat ∧ c.toNat ≤ 57 := by
    rcases hc with hc | rfl
    · have := isDigit_toNat c hc; omega
    · decide
  constructor
  · simp only [asciiImage, if_pos (show c.toNat < 127 by omega)]
  · simp only [isBlank, Bool.or_eq_false_iff, beq_eq_false_iff_ne, ne_eq, Bool.and_eq_false_iff,
      decide_eq_false_iff_not]
    omega

theorem dropWhile_blank_plain {s : Text} (hs : ∀ c ∈ s, c.isDigit = true ∨ c = '-') :
    s.dropWhile isBlank = s := by
  cases s with
  | nil => rfl
  | cons c s =>
    have hc := (plain_asciiImage (hs c mem_cons_self)).2
    simp [hc]

theorem strip_plain {s : Text} (hs : ∀ c ∈ s, c.isDigit = true ∨ c = '-') :
    (((s.map asciiImage).dropWhile isBlank).reverse.dropWhile isBlank).reverse = s := by
  have hm : s.map asciiImage = s := by
    conv_rhs => rw [← List.map_id s]
    apply map_congr_left
    intro c hc
    exact (plain_asciiImage (hs c hc)).1
  rw [hm, dropWhile_blank_plain hs,
    dropWhile_blank_plain (fun c hc => hs c (mem_reverse.mp hc)), reverse_reverse]

theorem readNat_toDigits {n : ℕ} (hn : (Nat.toDigits 10 n).length ≤ maxStrDigits) :
    readNat (Nat.toDigits 10 n) = some n := by
  have hd : ∀ c ∈ Nat.toDigits 10 n, c.isDigit = true :=
    fun c hc => Nat.isDigit_of_mem_toDigits (by decide) (by decide) hc
  simp [readNat, readDigits_digits _ hd false (Or.inr Nat.toDigits_ne_nil), hn]

/-- `int(str(n)) == n` below the digit limit. -/
theorem parseInt_intText {n : ℤ} (hn : (Nat.toDigits 10 n.natAbs).length ≤ maxStrDigits) :
    parseInt (intText n) = some n := by
  have hd : ∀ c ∈ Nat.toDigits 10 n.natAbs, c.isDigit = true :=
    fun c hc => Nat.isDigit_of_mem_toDigits (by decide) (by decide) hc
  have hp : ∀ c ∈ intText n, c.isDigit = true ∨ c = '-' := by
    intro c hc
    unfold intText at hc
    split_ifs at hc
    · rcases mem_cons.mp hc with hc | hc
      · exact Or.inr hc
      · exact Or.inl (hd c hc)
    · exact Or.inl (hd c hc)
  simp only [parseInt, strip_plain hp]
  unfold intText
  split_ifs with h
  · simp only [readNat_toDigits hn, map_some, some.injEq]
    omega
  · have hread := readNat_toDigits hn
    have habs : ((n.natAbs : ℕ) : ℤ) = n := by omega
    split
    · next u hu =>
      have := hd '-' (by rw [hu]; exact mem_cons_self)
      exact absurd this (by decide)
    · next u hu =>
      have := hd '+' (by rw [hu]; exact mem_cons_self)
      exact absurd this (by decide)
    · simp [hread, habs]

theorem mem_intText {n : ℤ} {c : Char} (hc : c ∈ intText n) : c.isDigit = true ∨ c = '-' := by
  unfold intText at hc
  split_ifs at hc
  · rcases mem_cons.mp hc with hc | hc
    · exact Or.inr hc
    · exact Or.inl (Nat.isDigit_of_mem_toDigits (by decide) (by decide) hc)
  · exact Or.inl (Nat.isDigit_of_mem_toDigits (by decide) (by decide) hc)

theorem intText_ne_nil (n : ℤ) : intText n ≠ [] := by
  unfold intText
  split_ifs
  · simp
  · exact Nat.toDigits_ne_nil

theorem intText_injective {n m : ℤ} (h : intText n = intText m) : n = m := by
  have hdigits (a b : ℕ) (hab : Nat.toDigits 10 a = Nat.toDigits 10 b) : a = b := by
    rw [← Nat.ofDigitChars_ten_toDigits (n := a), hab, Nat.ofDigitChars_ten_toDigits]
  have hsign (a b : ℕ) : '-' :: Nat.toDigits 10 a ≠ Nat.toDigits 10 b := by
    intro hab
    have hd := Nat.isDigit_of_mem_toDigits (b := 10) (n := b) (c := '-') (by decide) (by decide)
      (hab ▸ mem_cons_self)
    exact absurd hd (by decide)
  unfold intText at h
  split_ifs at h
  · have := hdigits _ _ (cons.inj h).2
    omega
  · exact False.elim (hsign _ _ h)
  · exact False.elim (hsign _ _ h.symm)
  · have := hdigits _ _ h
    omega

/-! ### `strip` -/

def stripWhile (p : Char → Bool) (s : Text) : Text :=
  ((s.dropWhile p).reverse.dropWhile p).reverse

section
variable {p : Char → Bool}

theorem stripWhile_append_left (w s : Text) (hw : ∀ c ∈ w, p c = true) :
    stripWhile p (w ++ s) = stripWhile p s := by
  rw [stripWhile, stripWhile, dropWhile_append_of_pos hw]

theorem stripWhile_append_right (s w : Text) (hw : ∀ c ∈ w, p c = true) :
    stripWhile p (s ++ w) = stripWhile p s := by
  have hnil : w.dropWhile p = [] := dropWhile_eq_nil_iff.mpr hw
  have hrev : ∀ c ∈ w.reverse, p c = true := fun c hc => hw c (mem_reverse.mp hc)
  rw [stripWhile, stripWhile, dropWhile_append]
  split
  · rename_i hempty
    rw [hnil, List.isEmpty_iff.mp hempty]
  · rw [reverse_append, dropWhile_append_of_pos hrev]

theorem stripWhile_decompose (s : Text) : ∃ w w', s = w ++ (stripWhile p s ++ w') ∧
    (∀ c ∈ w, p c = true) ∧ ∀ c ∈ w', p c = true := by
  refine ⟨s.takeWhile p,((s.dropWhile p).reverse.takeWhile p).reverse,?_,?_,?_⟩
  · rw [stripWhile, ← reverse_append, takeWhile_append_dropWhile, reverse_reverse,
      takeWhile_append_dropWhile]
  · exact fun c hc => mem_takeWhile_imp hc
  · exact fun c hc => mem_takeWhile_imp (mem_reverse.mp hc)

theorem stripWhile_stripWhile (s : Text) : stripWhile p (stripWhile p s) = stripWhile p s := by
  obtain ⟨w,w',hs,hw,hw'⟩ := stripWhile_decompose s
  calc stripWhile p (stripWhile p s) = stripWhile p (stripWhile p s ++ w') :=
        (stripWhile_append_right _ _ hw').symm
    _ = stripWhile p (w ++ (stripWhile p s ++ w')) := (stripWhile_append_left _ _ hw).symm
    _ = stripWhile p s := by rw [← hs]

variable (p)

theorem mem_of_mem_stripWhile {c : Char} {s : Text} (h : c ∈ stripWhile p s) : c ∈ s := by
  obtain ⟨w,w',hs,_,_⟩ := stripWhile_decompose s
  rw [hs]
  exact mem_append_right w (mem_append_left w' h)

end

end BackendGauntlet.PyText
