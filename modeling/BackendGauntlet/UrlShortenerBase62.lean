import Mathlib.Data.Nat.Digits.Lemmas
import BackendGauntlet.UrlShortenerSlugs

/-! Base 62 as a numeral system. -/
namespace BackendGauntlet.UrlShortener

open PyText List Option

def OverAlphabet (s : Text) : Prop := ∀ c ∈ s, c ∈ base62Alphabet

def Canonical (s : Text) : Prop :=
  (s ≠ [] ∧ OverAlphabet s ∧ s.head? ≠ some '0') ∨ s = ['0']

def AlphabetLt (s t : Text) : Prop :=
  List.Lex (fun a b => base62Alphabet.idxOf a < base62Alphabet.idxOf b) s t

def digitsOf (s : Text) : List ℕ := (s.map base62Alphabet.idxOf).reverse

theorem base62Char_idxOf {c : Char} (h : c ∈ base62Alphabet) :
    base62Alphabet.idxOf c < 62 ∧ base62Char (base62Alphabet.idxOf c) = c := by
  have hlt := idxOf_lt_length_of_mem h
  refine ⟨hlt,?_⟩
  rw [base62Char, getD_eq_getElem _ _ hlt, getElem_idxOf]

theorem base62Char_inj {d e : ℕ} (hd : d < 62) (he : e < 62) (h : base62Char d = base62Char e) :
    d = e := by
  have hi := base62Index_char hd
  rw [h, base62Index_char he] at hi
  exact (some.inj hi).symm

theorem digitsOf_lt {s : Text} (hs : OverAlphabet s) : ∀ d ∈ digitsOf s, d < 62 := by
  intro d hd
  obtain ⟨c,hc,rfl⟩ := mem_map.mp (mem_reverse.mp hd)
  exact (base62Char_idxOf (hs c hc)).1

theorem map_digitsOf {s : Text} (hs : OverAlphabet s) :
    ((digitsOf s).map base62Char).reverse = s := by
  rw [digitsOf, map_reverse, reverse_reverse, List.map_map]
  conv_rhs => rw [← List.map_id s]
  apply map_congr_left
  intro c hc
  exact (base62Char_idxOf (hs c hc)).2

theorem base62Decode_eq {s : Text} (hs : OverAlphabet s) :
    base62Decode s = some (Nat.ofDigits 62 (digitsOf s)) := by
  conv_lhs => rw [← map_digitsOf hs]
  exact base62Decode_digits (digitsOf_lt hs)

theorem overAlphabet_of_decode {s : Text} {start n : ℕ}
    (h : s.foldlM (fun value c => (base62Index c).map (fun d => value*62+d)) start = some n) :
    OverAlphabet s := by
  induction s generalizing start with
  | nil =>
    intro c hc
    exact absurd hc not_mem_nil
  | cons c s ih =>
    rw [foldlM_cons] at h
    obtain ⟨next,hnext,hrest⟩ := bind_eq_some_iff.mp h
    obtain ⟨d,hd,_⟩ := map_eq_some_iff.mp hnext
    intro x hx
    rcases mem_cons.mp hx with hx | hx
    · -- the index knows the characters of the alphabet only
      by_contra hn
      rw [base62Index, idxOf?_eq_none_iff.mpr (hx ▸ hn)] at hd
      cases hd
    · exact ih hrest x hx

theorem base62Decode_eq_none_iff (s : Text) :
    base62Decode s = none ↔ ∃ c ∈ s, c ∉ base62Alphabet := by
  constructor
  · intro h
    by_contra hn
    push Not at hn
    rw [base62Decode_eq hn] at h
    cases h
  · intro ⟨c,hc,hn⟩
    by_contra h
    obtain ⟨n,hn'⟩ := ne_none_iff_exists'.mp h
    exact hn (overAlphabet_of_decode hn' c hc)

theorem canonical_encode (n : ℕ) : Canonical (base62Encode n) := by
  by_cases hn : n = 0
  · subst hn
    exact Or.inr (by decide +kernel)
  · have hlt : ∀ d ∈ Nat.digits 62 n, d < 62 := fun d hd => Nat.digits_lt_base (by decide) hd
    have hne : Nat.digits 62 n ≠ [] := Nat.digits_ne_nil_iff_ne_zero.mpr hn
    rw [base62Encode, if_neg hn]
    refine Or.inl ⟨by simpa using hne,?_,?_⟩
    · intro c hc
      obtain ⟨d,hd,rfl⟩ := mem_map.mp (mem_reverse.mp hc)
      by_contra hnot
      have hi := base62Index_char (hlt d hd)
      rw [base62Index, idxOf?_eq_none_iff.mpr hnot] at hi
      cases hi
    · -- the first character is the most significant digit, which is not zero
      rw [head?_reverse, getLast?_map, getLast?_eq_getLast_of_ne_nil hne, map_some]
      intro h
      apply Nat.getLast_digit_ne_zero 62 hn
      apply base62Char_inj (hlt _ (getLast_mem hne)) (by decide)
      exact (some.inj h).trans (by decide +kernel)

theorem base62Encode_decode {s : Text} (hs : Canonical s) :
    ∃ n, base62Decode s = some n ∧ base62Encode n = s := by
  rcases hs with ⟨hne,hs,hhead⟩ | rfl
  · refine ⟨_,base62Decode_eq hs,?_⟩
    have hnil : digitsOf s ≠ [] := by simpa [digitsOf] using hne
    have hlast : ∀ h : digitsOf s ≠ [], (digitsOf s).getLast h ≠ 0 := by
      intro h h0
      apply hhead
      have hget : (digitsOf s).getLast? = some 0 := by rw [getLast?_eq_getLast_of_ne_nil h, h0]
      conv_lhs => rw [← map_digitsOf hs]
      rw [head?_reverse, getLast?_map, hget]
      decide +kernel
    have hdigits := Nat.digits_ofDigits 62 (by decide) (digitsOf s) (digitsOf_lt hs) hlast
    have hpos : Nat.ofDigits 62 (digitsOf s) ≠ 0 := by
      intro h0
      rw [h0, Nat.digits_zero] at hdigits
      exact hnil hdigits.symm
    rw [base62Encode, if_neg hpos, hdigits, map_digitsOf hs]
  · exact ⟨0,by decide +kernel,by decide +kernel⟩

/-- Texts of one length compare like the numbers they spell, leading zeros or not. -/
theorem ofDigits_lt_iff {s t : Text} (hs : OverAlphabet s) (ht : OverAlphabet t)
    (hlen : s.length = t.length) :
    Nat.ofDigits 62 (digitsOf s) < Nat.ofDigits 62 (digitsOf t) ↔ AlphabetLt s t := by
  induction s generalizing t with
  | nil =>
    rw [length_nil] at hlen
    rw [eq_nil_of_length_eq_zero hlen.symm]
    simp [AlphabetLt]
  | cons a s ih =>
    obtain ⟨b,t,rfl⟩ := exists_cons_of_length_eq_add_one hlen.symm
    have hs' : OverAlphabet s := fun c hc => hs c (mem_cons_of_mem a hc)
    have ht' : OverAlphabet t := fun c hc => ht c (mem_cons_of_mem b hc)
    have hlen' : s.length = t.length := by simpa using hlen
    have hsplit (c : Char) (u : Text) : Nat.ofDigits 62 (digitsOf (c :: u)) =
        Nat.ofDigits 62 (digitsOf u)+62^u.length*base62Alphabet.idxOf c := by
      rw [digitsOf, map_cons, reverse_cons, Nat.ofDigits_append]
      simp [digitsOf]
    have hbound (u : Text) (hu : OverAlphabet u) :
        Nat.ofDigits 62 (digitsOf u) < 62^u.length := by
      have h := Nat.ofDigits_lt_base_pow_length (by decide : 1 < 62) (digitsOf_lt hu)
      simpa [digitsOf] using h
    have hb := hbound s hs'
    have hb' := hbound t ht'
    rw [hsplit, hsplit, ← hlen', AlphabetLt, cons_lex_cons_iff, ← AlphabetLt, ← ih hs' ht' hlen']
    rw [← hlen'] at hb'
    -- a larger leading digit outweighs all that follow
    have hlead {i j : ℕ} (hij : i < j) : 62^s.length*i+62^s.length ≤ 62^s.length*j := by
      rw [← Nat.mul_succ]
      exact Nat.mul_le_mul_left _ hij
    have hinj : base62Alphabet.idxOf a = base62Alphabet.idxOf b → a = b := by
      intro h
      rw [← (base62Char_idxOf (hs a mem_cons_self)).2, h,
        (base62Char_idxOf (ht b mem_cons_self)).2]
    rcases Nat.lt_trichotomy (base62Alphabet.idxOf a) (base62Alphabet.idxOf b) with h | h | h
    · have := hlead h
      exact iff_of_true (by omega) (Or.inl h)
    · rw [hinj h]
      simp
    · have := hlead h
      refine iff_of_false (by omega) ?_
      rintro (hlt | ⟨he,_⟩)
      · omega
      · rw [he] at h
        exact absurd h (Nat.lt_irrefl _)

theorem overAlphabet_encode (n : ℕ) : OverAlphabet (base62Encode n) :=
  overAlphabet_of_decode (base62Decode_encode n)

/-- Base 62 is a bijection between the numbers and the canonical numerals. It refuses exactly the
texts with a foreign character, and keeps the order among encodings of one length. -/
theorem base62_bijection :
    (∀ n, base62Decode (base62Encode n) = some n) ∧
    (∀ s, (∃ n, base62Encode n = s) ↔ Canonical s) ∧
    (∀ s, Canonical s → ∃ n, base62Decode s = some n ∧ base62Encode n = s) ∧
    (∀ s, base62Decode s = none ↔ ∃ c ∈ s, c ∉ base62Alphabet) ∧
    ∀ m n, (base62Encode m).length = (base62Encode n).length →
      (m < n ↔ AlphabetLt (base62Encode m) (base62Encode n)) := by
  refine ⟨base62Decode_encode,?_,fun s hs => base62Encode_decode hs,base62Decode_eq_none_iff,?_⟩
  · intro s
    constructor
    · intro ⟨n,hn⟩
      exact hn ▸ canonical_encode n
    · intro hs
      obtain ⟨n,_,hn⟩ := base62Encode_decode hs
      exact ⟨n,hn⟩
  · intro m n hlen
    have hval (k : ℕ) : Nat.ofDigits 62 (digitsOf (base62Encode k)) = k := by
      have h := base62Decode_eq (overAlphabet_encode k)
      rw [base62Decode_encode] at h
      exact (some.inj h).symm
    rw [← ofDigits_lt_iff (overAlphabet_encode m) (overAlphabet_encode n) hlen, hval, hval]

end BackendGauntlet.UrlShortener
