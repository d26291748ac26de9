import Mathlib.Data.List.Basic

/-! UTF-8 with a replacing decoder. Octets are natural numbers. -/
namespace BackendGauntlet.Utf8

open List

def encodeNat (n : ℕ) : List ℕ :=
  if n < 0x80 then [n]
  else if n < 0x800 then [0xC0+n/64, 0x80+n%64]
  else if n < 0x10000 then [0xE0+n/4096, 0x80+n/64%64, 0x80+n%64]
  else [0xF0+n/262144, 0x80+n/4096%64, 0x80+n/64%64, 0x80+n%64]

def encodeChar (c : Char) : List ℕ := encodeNat c.toNat

def encode (s : List Char) : List ℕ := s.flatMap encodeChar

def isTail (b : ℕ) : Bool := 0x80 ≤ b && b ≤ 0xBF

/-- The first octet decides which second ones would be overlong, a surrogate or out of range. -/
def isSecond (a b : ℕ) : Bool :=
  isTail b && (a != 0xE0 || 0xA0 ≤ b) && (a != 0xED || b ≤ 0x9F) &&
    (a != 0xF0 || 0x90 ≤ b) && (a != 0xF4 || b ≤ 0x8F)

def replacement : Char := '�'

def decodeReplace : List ℕ → List Char
  | [] => []
  | a :: l =>
    if a < 0x80 then Char.ofNat a :: decodeReplace l
    else if 0xC2 ≤ a ∧ a ≤ 0xDF then
      match l with
      | b :: l =>
        if isTail b then Char.ofNat ((a-0xC0)*64+(b-0x80)) :: decodeReplace l
        else replacement :: decodeReplace (b :: l)
      | [] => [replacement]
    else if 0xE0 ≤ a ∧ a ≤ 0xEF then
      match l with
      | b :: l =>
        if isSecond a b then
          match l with
          | c :: l =>
            if isTail c then
              Char.ofNat ((a-0xE0)*4096+(b-0x80)*64+(c-0x80)) :: decodeReplace l
            else replacement :: decodeReplace (c :: l)
          | [] => [replacement]
        else replacement :: decodeReplace (b :: l)
      | [] => [replacement]
    else if 0xF0 ≤ a ∧ a ≤ 0xF4 then
      match l with
      | b :: l =>
        if isSecond a b then
          match l with
          | c :: l =>
            if isTail c then
              match l with
              | d :: l =>
                if isTail d then
                  Char.ofNat ((a-0xF0)*262144+(b-0x80)*4096+(c-0x80)*64+(d-0x80)) ::
                    decodeReplace l
                else replacement :: decodeReplace (d :: l)
              | [] => [replacement]
            else replacement :: decodeReplace (c :: l)
          | [] => [replacement]
        else replacement :: decodeReplace (b :: l)
      | [] => [replacement]
    else replacement :: decodeReplace l

theorem char_toNat_bounds (c : Char) :
    c.toNat < 0xD800 ∨ (0xDFFF < c.toNat ∧ c.toNat < 0x110000) := c.valid

/-- Decoding reads one encoded character back and leaves the rest untouched. -/
theorem decodeReplace_encodeChar (c : Char) (l : List ℕ) :
    decodeReplace (encodeChar c ++ l) = c :: decodeReplace l := by
  have hc := char_toNat_bounds c
  have hback : Char.ofNat c.toNat = c := Char.ofNat_toNat c
  unfold encodeChar encodeNat
  split_ifs with h1 h2 h3
  · simp only [cons_append, nil_append]
    rw [decodeReplace.eq_def]
    simp only [h1, if_true, hback]
  · have hb : isTail (0x80+c.toNat%64) = true := by
      simp only [isTail, Bool.and_eq_true, decide_eq_true_eq]; omega
    have hv : (0xC0+c.toNat/64-0xC0)*64+(0x80+c.toNat%64-0x80) = c.toNat := by omega
    simp only [cons_append, nil_append]
    rw [decodeReplace.eq_def]
    simp only [hb, if_true, hv, hback,
      if_neg (show ¬ 0xC0+c.toNat/64 < 0x80 by omega),
      if_pos (show 0xC2 ≤ 0xC0+c.toNat/64 ∧ 0xC0+c.toNat/64 ≤ 0xDF by omega)]
  · have hb : isSecond (0xE0+c.toNat/4096) (0x80+c.toNat/64%64) = true := by
      simp only [isSecond, isTail, Bool.and_eq_true, Bool.or_eq_true, decide_eq_true_eq,
        bne_iff_ne, ne_eq]
      omega
    have ht : isTail (0x80+c.toNat%64) = true := by
      simp only [isTail, Bool.and_eq_true, decide_eq_true_eq]; omega
    have hv : (0xE0+c.toNat/4096-0xE0)*4096+(0x80+c.toNat/64%64-0x80)*64 +
        (0x80+c.toNat%64-0x80) = c.toNat := by omega
    simp only [cons_append, nil_append]
    rw [decodeReplace.eq_def]
    simp only [hb, ht, if_true, hv, hback,
      if_neg (show ¬ 0xE0+c.toNat/4096 < 0x80 by omega),
      if_neg (show ¬ (0xC2 ≤ 0xE0+c.toNat/4096 ∧ 0xE0+c.toNat/4096 ≤ 0xDF) by omega),
      if_pos (show 0xE0 ≤ 0xE0+c.toNat/4096 ∧ 0xE0+c.toNat/4096 ≤ 0xEF by omega)]
  · have hb : isSecond (0xF0+c.toNat/262144) (0x80+c.toNat/4096%64) = true := by
      simp only [isSecond, isTail, Bool.and_eq_true, Bool.or_eq_true, decide_eq_true_eq,
        bne_iff_ne, ne_eq]
      omega
    have ht : isTail (0x80+c.toNat/64%64) = true := by
      simp only [isTail, Bool.and_eq_true, decide_eq_true_eq]; omega
    have ht' : isTail (0x80+c.toNat%64) = true := by
      simp only [isTail, Bool.and_eq_true, decide_eq_true_eq]; omega
    have hv : (0xF0+c.toNat/262144-0xF0)*262144+(0x80+c.toNat/4096%64-0x80)*4096 +
        (0x80+c.toNat/64%64-0x80)*64+(0x80+c.toNat%64-0x80) = c.toNat := by omega
    simp only [cons_append, nil_append]
    rw [decodeReplace.eq_def]
    simp only [hb, ht, ht', if_true, hv, hback,
      if_neg (show ¬ 0xF0+c.toNat/262144 < 0x80 by omega),
      if_neg (show ¬ (0xC2 ≤ 0xF0+c.toNat/262144 ∧ 0xF0+c.toNat/262144 ≤ 0xDF) by omega),
      if_neg (show ¬ (0xE0 ≤ 0xF0+c.toNat/262144 ∧ 0xF0+c.toNat/262144 ≤ 0xEF) by omega),
      if_pos (show 0xF0 ≤ 0xF0+c.toNat/262144 ∧ 0xF0+c.toNat/262144 ≤ 0xF4 by omega)]

variable (s : List Char)

theorem decodeReplace_encode_append (l : List ℕ) :
    decodeReplace (encode s ++ l) = s ++ decodeReplace l := by
  induction s with
  | nil => rfl
  | cons c s ih =>
    simp only [encode, flatMap_cons, append_assoc] at ih ⊢
    rw [decodeReplace_encodeChar, ih, cons_append]

theorem decodeReplace_encode : decodeReplace (encode s) = s := by
  have h := decodeReplace_encode_append s []
  simpa only [append_nil, decodeReplace] using h

theorem encodeChar_lt {c : Char} : ∀ b ∈ encodeChar c, b < 256 := by
  have hc := char_toNat_bounds c
  intro b hb
  unfold encodeChar encodeNat at hb
  split_ifs at hb <;> simp only [mem_cons, not_mem_nil, or_false] at hb <;> omega

theorem decodeReplace_length_le (l : List ℕ) : (decodeReplace l).length ≤ l.length := by
  fun_induction decodeReplace l <;> simp only [length_cons, length_nil] at * <;> omega

/-- A strict decoder: `none` unless the octets are the encoding of a text. -/
def decodeStrict (l : List ℕ) : Option (List Char) :=
  if encode (decodeReplace l) = l then some (decodeReplace l) else none

theorem decodeStrict_encode : decodeStrict (encode s) = some s := by
  rw [decodeStrict, decodeReplace_encode, if_pos rfl]

end BackendGauntlet.Utf8
