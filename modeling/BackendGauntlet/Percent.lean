import Mathlib.Tactic.IntervalCases
import BackendGauntlet.PyText
import BackendGauntlet.Utf8

/-! Percent-encoding as in `urllib.parse`. -/
namespace BackendGauntlet.Percent

open PyText List

def upperHexDigit (n : ℕ) : Char := if n < 10 then Char.ofNat (48+n) else Char.ofNat (55+n)

def escapeByte (b : ℕ) : Text := ['%', upperHexDigit (b/16), upperHexDigit (b%16)]

def alwaysSafe (c : Char) : Bool :=
  c.isAlphanum || c == '_' || c == '.' || c == '-' || c == '~'

def quoteByte (safe : Text) (b : ℕ) : Text :=
  if b < 128 ∧ (alwaysSafe (Char.ofNat b) = true ∨ Char.ofNat b ∈ safe) then [Char.ofNat b]
  else escapeByte b

def quote (safe s : Text) : Text := (Utf8.encode s).flatMap (quoteByte safe)

def hexPair (h l : Char) : Option ℕ :=
  match hexValue h, hexValue l with
  | some a, some b => some (16*a+b)
  | _, _ => none

/-- The octets of the current ASCII run wait in `acc`; other characters stand for themselves. -/
def unquoteRun : List ℕ → Text → Text
  | acc, [] => Utf8.decodeReplace acc
  | acc, c :: s =>
    if c = '%' then
      match s with
      | h :: l :: t =>
        match hexPair h l with
        | some b => unquoteRun (acc ++ [b]) t
        | none => unquoteRun (acc ++ [37]) (h :: l :: t)
      | [h] => unquoteRun (acc ++ [37]) [h]
      | [] => unquoteRun (acc ++ [37]) []
    else if c.toNat < 128 then unquoteRun (acc ++ [c.toNat]) s
    else Utf8.decodeReplace acc ++ c :: unquoteRun [] s

def unquote (s : Text) : Text := if '%' ∈ s then unquoteRun [] s else s

def startsHexPair : Text → Bool
  | h :: l :: _ => (hexPair h l).isSome
  | _ => false

def hasEscape : Text → Bool
  | [] => false
  | c :: s => (c == '%' && startsHexPair s) || hasEscape s

def plusToSpace (s : Text) : Text := s.map (fun c => if c = '+' then ' ' else c)

/-- One `name=value` field; a field without a value is dropped. -/
def parseField (f : Text) : Option (Text × Text) :=
  match cut '=' f with
  | none => none
  | some (n,v) => if v = [] then none else some (unquote (plusToSpace n),unquote (plusToSpace v))

def parseQsl (qs : Text) : List (Text × Text) :=
  if qs = [] then [] else (splitChar '&' qs).filterMap parseField

def parseQsFirst (qs name : Text) : Option Text :=
  ((parseQsl qs).find? (fun p => p.1 == name)).map Prod.snd

theorem upperHexDigit_toNat {n : ℕ} (hn : n < 16) :
    (upperHexDigit n).toNat = if n < 10 then 48+n else 55+n := by
  interval_cases n <;> decide

theorem hexValue_upperHexDigit (n : ℕ) (hn : n < 16) : hexValue (upperHexDigit n) = some n := by
  unfold hexValue
  rw [upperHexDigit_toNat hn]
  split_ifs <;> (congr 1; omega)

variable {s : Text} {c : Char}

theorem unquoteRun_hexPair (acc : List ℕ) {h l : Char} {b : ℕ} (hp : hexPair h l = some b) :
    unquoteRun acc ('%' :: h :: l :: s) = unquoteRun (acc ++ [b]) s := by
  rw [unquoteRun.eq_def]
  simp [hp]

theorem unquoteRun_ascii (acc : List ℕ) (hc : c ≠ '%')
    (ha : c.toNat < 128) : unquoteRun acc (c :: s) = unquoteRun (acc ++ [c.toNat]) s := by
  rw [unquoteRun.eq_def]
  simp [hc, ha]

theorem octet_toNat : ∀ b < 256, (Char.ofNat b).toNat = b := by decide +kernel

theorem alwaysSafe_ne (hc : alwaysSafe c = true) : c ≠ '%' ∧ c ≠ '?' ∧ c ≠ '#' := by
  refine ⟨?_,?_,?_⟩ <;> rintro rfl <;> revert hc <;> decide

/-- A text for each octet that is read back as that octet, wherever it stands. -/
def ReadsBack (q : ℕ → Text) : Prop :=
  ∀ b < 256, ∀ acc s, unquoteRun acc (q b ++ s) = unquoteRun (acc ++ [b]) s

theorem readsBack_quoteByte {safe : Text} (hsafe : '%' ∉ safe) : ReadsBack (quoteByte safe) := by
  intro b hb acc s
  unfold quoteByte
  split_ifs with h
  · have hne : Char.ofNat b ≠ '%' := by
      intro hc
      rcases h.2 with h2 | h2
      · exact (alwaysSafe_ne h2).1 hc
      · exact hsafe (hc ▸ h2)
    rw [cons_append, nil_append, unquoteRun_ascii acc hne, octet_toNat b hb]
    rw [octet_toNat b hb]
    exact h.1
  · apply unquoteRun_hexPair
    simp only [hexPair, hexValue_upperHexDigit (b/16) (by omega),
      hexValue_upperHexDigit (b%16) (by omega), Option.some.injEq]
    omega

theorem ReadsBack.flatMap {q : ℕ → Text} (hq : ReadsBack q) {bs : List ℕ}
    (hb : ∀ b ∈ bs, b < 256) (acc : List ℕ) (s : Text) :
    unquoteRun acc (bs.flatMap q ++ s) = unquoteRun (acc ++ bs) s := by
  induction bs generalizing acc with
  | nil => simp
  | cons b bs ih =>
    rw [forall_mem_cons] at hb
    rw [flatMap_cons, append_assoc, hq b hb.1, ih hb.2]
    simp

theorem unquoteRun_noEscape (s t : Text) (hs : hasEscape s = false)
    (ht : ∀ c ∈ t, c.toNat < 128) : unquoteRun (t.map Char.toNat) s = t ++ s := by
  have hdec (u : Text) (hu : ∀ c ∈ u, c.toNat < 128) :
      Utf8.decodeReplace (u.map Char.toNat) = u := by
    have he : Utf8.encode u = u.map Char.toNat := by
      induction u with
      | nil => rfl
      | cons c u ih =>
        have hc := hu c mem_cons_self
        have hu' := ih (fun x hx => hu x (mem_cons_of_mem c hx))
        simp only [Utf8.encode, flatMap_cons] at hu' ⊢
        rw [hu', Utf8.encodeChar, Utf8.encodeNat, if_pos (by omega)]
        rfl
    rw [← he, Utf8.decodeReplace_encode]
  induction s generalizing t with
  | nil =>
    rw [unquoteRun, hdec t ht, append_nil]
  | cons c s ih =>
    have hs' : hasEscape s = false := by
      rw [hasEscape, Bool.or_eq_false_iff] at hs
      exact hs.2
    have hsnoc (ha : c.toNat < 128) : unquoteRun (t.map Char.toNat ++ [c.toNat]) s =
        t ++ c :: s := by
      have hx := ih (t ++ [c]) hs' (by
        intro x hx
        rcases mem_append.mp hx with hx | hx
        · exact ht x hx
        · rwa [mem_singleton.mp hx])
      simpa using hx
    rw [unquoteRun.eq_def]
    by_cases hc : c = '%'
    · subst hc
      have hpct := hsnoc (by decide)
      rw [hasEscape, Bool.or_eq_false_iff] at hs
      simp only [if_true]
      -- an escape needs two more characters
      rcases s with _ | ⟨h,_ | ⟨l,u⟩⟩
      · exact hpct
      · exact hpct
      · have hn : hexPair h l = none := by
          simpa [startsHexPair] using hs.1
        simp only [hn]
        exact hpct
    · simp only [hc, if_false]
      split_ifs with ha
      · exact hsnoc ha
      · have h0 := ih [] hs' (by simp)
        simp only [map_nil, nil_append] at h0
        rw [hdec t ht, h0]

theorem hasEscape_of_not_mem (hs : '%' ∉ s) : hasEscape s = false := by
  induction s with
  | nil => rfl
  | cons c s ih =>
    simp only [mem_cons, not_or] at hs
    rw [hasEscape, ih hs.2, Bool.or_false]
    simp [Ne.symm hs.1]

theorem unquote_eq_run (s : Text) : unquote s = unquoteRun [] s := by
  unfold unquote
  split_ifs with h
  · rfl
  · have hs := unquoteRun_noEscape s [] (hasEscape_of_not_mem h) (by simp)
    simpa using hs.symm

theorem octet_lt {b : ℕ} (hb : b ∈ Utf8.encode s) : b < 256 := by
  obtain ⟨c,_,hc⟩ := mem_flatMap.mp hb
  exact Utf8.encodeChar_lt b hc

/-- Decoding undoes every such encoding. -/
theorem ReadsBack.unquote {q : ℕ → Text} (hq : ReadsBack q) (s : Text) :
    unquote ((Utf8.encode s).flatMap q) = s := by
  have h := hq.flatMap (fun b => octet_lt (s := s)) [] []
  rw [unquote_eq_run]
  simpa only [append_nil, nil_append, unquoteRun, Utf8.decodeReplace_encode] using h

/-- Decoding inverts encoding on every text, whatever extra characters are safe. -/
theorem unquote_quote (safe : Text) (hsafe : '%' ∉ safe) (s : Text) :
    unquote (quote safe s) = s := (readsBack_quoteByte hsafe).unquote s

theorem unquoteRun_length (acc : List ℕ) (s : Text) :
    (unquoteRun acc s).length ≤ acc.length+s.length ∧
      (hasEscape s = true → (unquoteRun acc s).length < acc.length+s.length) := by
  fun_induction unquoteRun acc s with
  | case1 acc =>
    exact ⟨by simpa using Utf8.decodeReplace_length_le acc,by simp [hasEscape]⟩
  | case2 acc h l t b hb ih =>
    simp only [length_append, length_cons, length_nil] at ih ⊢
    omega
  | case3 acc h l t hb ih =>
    simp only [length_append, length_cons, length_nil] at ih ⊢
    refine ⟨by omega,fun he => ?_⟩
    have he' : hasEscape (h :: l :: t) = true := by simpa [hasEscape, startsHexPair, hb] using he
    have := ih.2 he'
    omega
  | case4 acc h ih =>
    simp only [length_append, length_cons, length_nil] at ih ⊢
    exact ⟨by omega,by simp [hasEscape, startsHexPair]⟩
  | case5 acc ih =>
    simp only [length_append, length_cons, length_nil] at ih ⊢
    exact ⟨by omega,by simp [hasEscape, startsHexPair]⟩
  | case6 acc c s hc ha ih =>
    simp only [length_append, length_cons, length_nil] at ih ⊢
    refine ⟨by omega,fun he => ?_⟩
    have he' : hasEscape s = true := by simpa [hasEscape, hc] using he
    have := ih.2 he'
    omega
  | case7 acc c s hc ha ih =>
    have hl := Utf8.decodeReplace_length_le acc
    simp only [length_append, length_cons, length_nil] at ih ⊢
    refine ⟨by omega,fun he => ?_⟩
    have he' : hasEscape s = true := by simpa [hasEscape, hc] using he
    have := ih.2 he'
    omega

/-- `unquote` fixes exactly the texts without an escape. -/
theorem unquote_eq_self_iff (s : Text) : unquote s = s ↔ hasEscape s = false := by
  constructor
  · intro h
    by_contra he
    have hlt := (unquoteRun_length [] s).2 (Bool.not_eq_false _ ▸ he)
    rw [← unquote_eq_run, h] at hlt
    simp at hlt
  · intro h
    rw [unquote_eq_run]
    simpa using unquoteRun_noEscape s [] h (by simp)

theorem mem_quote {safe : Text} (hc : c ∈ quote safe s) :
    alwaysSafe c = true ∨ c ∈ safe ∨ c = '%' := by
  obtain ⟨b,hb,hc⟩ := mem_flatMap.mp hc
  have hlt := octet_lt hb
  have hhex (n : ℕ) (hn : n < 16) : alwaysSafe (upperHexDigit n) = true := by
    interval_cases n <;> decide
  unfold quoteByte at hc
  split_ifs at hc with h
  · rw [mem_singleton.mp hc]
    rcases h.2 with h | h
    · exact Or.inl h
    · exact Or.inr (Or.inl h)
  · simp only [escapeByte, mem_cons, not_mem_nil, or_false] at hc
    rcases hc with hc | hc | hc
    · exact Or.inr (Or.inr hc)
    · exact Or.inl (hc ▸ hhex (b/16) (by omega))
    · exact Or.inl (hc ▸ hhex (b%16) (by omega))

theorem quote_cons_safe (safe : Text) (c : Char) (s : Text) (ha : c.toNat < 128)
    (hc : alwaysSafe c = true ∨ c ∈ safe) : quote safe (c :: s) = c :: quote safe s := by
  have hback : Char.ofNat c.toNat = c := Char.ofNat_toNat c
  have he : Utf8.encodeChar c = [c.toNat] := by
    rw [Utf8.encodeChar, Utf8.encodeNat, if_pos ha]
  simp only [quote, Utf8.encode, flatMap_cons, he, flatMap_append, flatMap_nil,
    append_nil, quoteByte, hback]
  rw [if_pos ⟨ha,hc⟩, cons_append, nil_append]

theorem quote_append_safe (safe s t : Text)
    (hs : ∀ c ∈ s, c.toNat < 128 ∧ (alwaysSafe c = true ∨ c ∈ safe)) :
    quote safe (s ++ t) = s ++ quote safe t := by
  induction s with
  | nil => rfl
  | cons c s ih =>
    rw [forall_mem_cons] at hs
    rw [cons_append, quote_cons_safe safe c (s ++ t) hs.1.1 hs.1.2, ih hs.2, cons_append]

/-- A text that `parse_qs` reads back as it is: no separator, no escape, no plus. -/
def fieldSafe (s : Text) : Prop := ∀ c ∈ s, c ≠ '&' ∧ c ≠ '=' ∧ c ≠ '%' ∧ c ≠ '+'

theorem unquote_plusToSpace_of_safe (hs : fieldSafe s) :
    unquote (plusToSpace s) = s := by
  have hp : plusToSpace s = s := by
    conv_rhs => rw [← List.map_id s]
    apply map_congr_left
    intro c hc
    simp [(hs c hc).2.2.2]
  rw [hp]
  exact (unquote_eq_self_iff s).mpr (hasEscape_of_not_mem (fun h => (hs '%' h).2.2.1 rfl))

theorem parseField_of_safe {n v : Text} (hn : fieldSafe n) (hv : fieldSafe v) (hne : v ≠ []) :
    parseField (n ++ '=' :: v) = some (n,v) := by
  have hc : cut '=' (n ++ '=' :: v) = some (n,v) :=
    (cut_eq_some_iff '=' _ n v).mpr ⟨rfl,fun h => (hn '=' h).2.1 rfl⟩
  simp [parseField, hc, hne, unquote_plusToSpace_of_safe hn, unquote_plusToSpace_of_safe hv]

theorem parseQsl_pair {n v m w : Text} (hn : fieldSafe n) (hv : fieldSafe v) (hm : fieldSafe m)
    (hw : fieldSafe w) (hv0 : v ≠ []) (hw0 : w ≠ []) :
    parseQsl (n ++ '=' :: v ++ '&' :: (m ++ '=' :: w)) = [(n,v), (m,w)] := by
  have hamp (a b : Text) (ha : fieldSafe a) (hb : fieldSafe b) : '&' ∉ a ++ '=' :: b := by
    intro h
    rcases mem_append.mp h with h | h
    · exact (ha '&' h).1 rfl
    · rcases mem_cons.mp h with h | h
      · exact absurd h (by decide)
      · exact (hb '&' h).1 rfl
  have hsplit : splitChar '&' (n ++ '=' :: v ++ '&' :: (m ++ '=' :: w)) =
      [n ++ '=' :: v, m ++ '=' :: w] := by
    rw [splitChar_append '&' _ _ (hamp n v hn hv), splitChar_none '&' _ (hamp m w hm hw)]
  unfold parseQsl
  rw [if_neg (by simp), hsplit, filterMap_cons, parseField_of_safe hn hv hv0]
  simp [parseField_of_safe hm hw hw0]

end BackendGauntlet.Percent
