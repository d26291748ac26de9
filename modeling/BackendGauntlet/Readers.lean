import Mathlib.Tactic.Common
import Mathlib.Data.Int.Notation

/-! Readers: objects that hand out what they hold piece by piece. -/
namespace BackendGauntlet.Readers

open List

variable {ρ α : Type*}

/-- Each state has what is left to give; a nonempty read takes its piece off the front. -/
structure Reader (ρ α : Type*) where
  read : ρ → ℤ → List α × ρ
  left : ρ → List α
  gives : ∀ r n, n ≠ 0 → (read r n).1 ++ left (read r n).2 = left r
  progresses : ∀ r n, n ≠ 0 → left r ≠ [] → (read r n).1 ≠ []

def reads (R : Reader ρ α) (r : ρ) : List ℤ → List α × ρ
  | [] => ([],r)
  | n :: sizes =>
    let piece := R.read r n
    let rest := reads R piece.2 sizes
    (piece.1 ++ rest.1,rest.2)

section
variable (R : Reader ρ α) (r : ρ) (sizes : List ℤ) (hsizes : ∀ n ∈ sizes, n ≠ 0)
include hsizes

/-- What was read, then what is left, is what there was. -/
theorem reads_append : (reads R r sizes).1 ++ R.left (reads R r sizes).2 = R.left r := by
  induction sizes generalizing r with
  | nil => rfl
  | cons n sizes ih =>
    have hrest := ih (R.read r n).2 (fun m hm => hsizes m (mem_cons_of_mem n hm))
    rw [reads, append_assoc, hrest]
    exact R.gives r n (hsizes n mem_cons_self)

theorem length_left_reads :
    (R.left (reads R r sizes).2).length ≤ (R.left r).length-sizes.length := by
  induction sizes generalizing r with
  | nil => exact Nat.le_refl _
  | cons n sizes ih =>
    have hn := hsizes n mem_cons_self
    have hrest := ih (R.read r n).2 (fun m hm => hsizes m (mem_cons_of_mem n hm))
    have hgives := congrArg length (R.gives r n hn)
    rw [length_append] at hgives
    simp only [reads, length_cons]
    by_cases hnil : R.left r = []
    · rw [hnil, length_nil] at hgives
      omega
    · have hpiece := length_pos_iff.mpr (R.progresses r n hn hnil)
      omega

theorem reads_all (hlen : (R.left r).length ≤ sizes.length) :
    (reads R r sizes).1 = R.left r := by
  have happend := reads_append R r sizes hsizes
  have hleft := length_left_reads R r sizes hsizes
  have hnil : R.left (reads R r sizes).2 = [] := length_eq_zero_iff.mp (by omega)
  rw [← happend, hnil, append_nil]

theorem read_eq_nil_iff {n : ℤ} (hn : n ≠ 0) :
    (R.read (reads R r sizes).2 n).1 = [] ↔ (reads R r sizes).1 = R.left r := by
  have happend := reads_append R r sizes hsizes
  have hgives := R.gives (reads R r sizes).2 n hn
  constructor
  · intro hpiece
    have hnil : R.left (reads R r sizes).2 = [] := by
      by_contra hleft
      exact R.progresses _ n hn hleft hpiece
    rw [← happend, hnil, append_nil]
  · intro hall
    have hnil : R.left (reads R r sizes).2 = [] := by
      rw [hall] at happend
      exact append_right_eq_self.mp happend
    rw [hnil] at hgives
    exact (append_eq_nil_iff.mp hgives).1

end

structure Window (α : Type*) where
  source : List α
  remaining : ℕ
deriving DecidableEq

namespace Window

def read (w : Window α) (size : ℤ) : List α × Window α :=
  if w.remaining = 0 then ([],w)
  else
    let want := if size < 0 then w.remaining else min size.toNat w.remaining
    let piece := w.source.take want
    (piece,⟨w.source.drop want,w.remaining-piece.length⟩)

def left (w : Window α) : List α := w.source.take w.remaining

variable (w : Window α)

theorem read_zero : w.read 0 = ([],w) := by
  by_cases h : w.remaining = 0
  · simp [read, h]
  · simp [read, h]

theorem read_append (size : ℤ) :
    (w.read size).1 ++ (w.read size).2.left = w.left := by
  unfold read
  by_cases h0 : w.remaining = 0
  · simp [h0, left]
  · simp only [h0, if_false, left]
    generalize hwant : (if size < 0 then w.remaining else min size.toNat w.remaining) = want
    have hle : want ≤ w.remaining := by
      rw [← hwant]
      split_ifs
      · exact Nat.le_refl _
      · exact Nat.min_le_right _ _
    have hsplit : w.remaining = want+(w.remaining-want) := by omega
    have hrest : (w.source.drop want).take (w.remaining-(w.source.take want).length) =
        (w.source.drop want).take (w.remaining-want) := by
      -- a short piece means that the source has ended
      apply take_eq_take_iff.mpr
      rw [length_take, length_drop]
      omega
    calc w.source.take want ++
          (w.source.drop want).take (w.remaining-(w.source.take want).length)
        = w.source.take want ++ (w.source.drop want).take (w.remaining-want) := by rw [hrest]
      _ = w.source.take (want+(w.remaining-want)) := take_add.symm
      _ = w.source.take w.remaining := by rw [← hsplit]

theorem read_ne_nil (size : ℤ) (hsize : size ≠ 0) (hleft : w.left ≠ []) :
    (w.read size).1 ≠ [] := by
  have hpos := length_pos_iff.mpr hleft
  rw [left, length_take] at hpos
  apply ne_nil_of_length_pos
  rw [read, if_neg (by omega), length_take]
  split_ifs
  · omega
  · omega

def reader (α : Type*) : Reader (Window α) α where
  read := read
  left := left
  gives := fun w n _ => read_append w n
  progresses := read_ne_nil

theorem reads_nonzero (sizes : List ℤ) :
    reads (reader α) w sizes = reads (reader α) w (sizes.filter (fun n => n ≠ 0)) := by
  induction sizes generalizing w with
  | nil => rfl
  | cons n sizes ih =>
    by_cases hn : n = 0
    · have hzero : (reader α).read w n = ([],w) := by rw [hn]; exact read_zero w
      have hfilter : (n :: sizes).filter (fun n => n ≠ 0) = sizes.filter (fun n => n ≠ 0) := by
        simp [hn]
      rw [hfilter, reads, hzero, ← ih w]
      rfl
    · have hfilter : (n :: sizes).filter (fun n => n ≠ 0) =
          n :: sizes.filter (fun n => n ≠ 0) := by simp [hn]
      rw [hfilter, reads, reads, ih]

/-- Whatever the sizes, the pieces make up the front of the window, and enough of them other
than zero all of it. -/
theorem reads_window (sizes : List ℤ) :
    (reads (reader α) w sizes).1 <+: w.left ∧
      (w.left.length ≤ (sizes.filter (fun n => n ≠ 0)).length →
        (reads (reader α) w sizes).1 = w.left) := by
  have hsizes : ∀ n ∈ sizes.filter (fun n => n ≠ 0), n ≠ 0 := by
    intro n hn
    simpa using (mem_filter.mp hn).2
  rw [reads_nonzero]
  refine ⟨⟨_,reads_append (reader α) w _ hsizes⟩,?_⟩
  intro hlen
  exact reads_all (reader α) w _ hsizes hlen

end Window

section
variable (R : Reader ρ α)

def concatRead : List ρ → ℤ → List α × List ρ
  | [], _ => ([],[])
  | part :: parts, n =>
    let piece := R.read part n
    if piece.1.isEmpty then concatRead parts n else (piece.1,piece.2 :: parts)

def concatLeft (parts : List ρ) : List α := parts.flatMap R.left

theorem concatRead_append (parts : List ρ) (n : ℤ) (hn : n ≠ 0) :
    (concatRead R parts n).1 ++ concatLeft R (concatRead R parts n).2 = concatLeft R parts := by
  induction parts with
  | nil => rfl
  | cons part parts ih =>
    have hgives := R.gives part n hn
    simp only [concatRead]
    split_ifs with hempty
    · -- an empty piece means that the part has nothing left
      have hpiece : (R.read part n).1 = [] := List.isEmpty_iff.mp hempty
      have hdone : R.left part = [] := by
        by_contra hleft
        exact R.progresses part n hn hleft hpiece
      rw [ih]
      simp [concatLeft, hdone]
    · simp [concatLeft, ← append_assoc, hgives]

theorem concatRead_ne_nil (parts : List ρ) (n : ℤ) (hn : n ≠ 0)
    (hleft : concatLeft R parts ≠ []) : (concatRead R parts n).1 ≠ [] := by
  induction parts with
  | nil => exact absurd rfl hleft
  | cons part parts ih =>
    simp only [concatRead]
    split_ifs with hempty
    · have hpiece : (R.read part n).1 = [] := List.isEmpty_iff.mp hempty
      have hdone : R.left part = [] := by
        by_contra hpart
        exact R.progresses part n hn hpart hpiece
      apply ih
      rw [concatLeft, flatMap_cons, hdone] at hleft
      exact hleft
    · intro hnil
      exact hempty (List.isEmpty_iff.mpr hnil)

def concat : Reader (List ρ) α where
  read := concatRead R
  left := concatLeft R
  gives := concatRead_append R
  progresses := concatRead_ne_nil R

end

end BackendGauntlet.Readers
