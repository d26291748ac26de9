import Mathlib.Algebra.BigOperators.Ring.Finset
import Mathlib.Algebra.BigOperators.Group.Finset.Sigma
import Mathlib.Algebra.Module.LinearMap.Defs
import Mathlib.Algebra.Module.Pi
import Mathlib.Logic.Equiv.Basic

/-! Sums kept in an accumulator, decoding by a left inverse, and elimination, which keeps the
solutions of `[A | I]`. -/
namespace BackendGauntlet.LinearCode

def accumulate {R : Type} [Zero R] [Add R] (n : ℕ) (f : ℕ → R) : R :=
  (List.range n).foldl (fun acc i => acc+f i) 0

theorem foldl_range_induction {σ : Type} {f : σ → ℕ → σ} {P : ℕ → σ → Prop} {s : σ} {n : ℕ}
    (h0 : P 0 s) (hstep : ∀ k < n, ∀ r, P k r → P (k+1) (f r k)) :
    P n ((List.range n).foldl f s) := by
  induction n with
  | zero => exact h0
  | succ n ih =>
    rw [List.range_succ, List.foldl_append]
    exact hstep n (Nat.lt_succ_self n) _ (ih (fun k hk => hstep k (Nat.lt_succ_of_lt hk)))

theorem accumulate_eq_sum {R : Type} [AddCommMonoid R] (n : ℕ) (f : ℕ → R) :
    accumulate n f = ∑ i ∈ Finset.range n, f i := by
  induction n with
  | zero => rfl
  | succ n ih =>
    rw [Finset.sum_range_succ, ← ih, accumulate, List.range_succ, List.foldl_append]
    rfl

theorem accumulate_congr {R : Type} [AddCommMonoid R] (n : ℕ) (f g : ℕ → R)
    (h : ∀ i < n, f i = g i) : accumulate n f = accumulate n g := by
  rw [accumulate_eq_sum, accumulate_eq_sum]
  apply Finset.sum_congr rfl
  intro i hi
  exact h i (Finset.mem_range.mp hi)

theorem accumulate_except {R : Type} [AddCommMonoid R] (hself : ∀ a : R, a+a = 0) {n hole : ℕ}
    (hh : hole < n) (f : ℕ → R) :
    (List.range n).foldl (fun acc i => if i = hole then acc else acc+f i) (accumulate n f) =
      f hole := by
  have hfold (start : R) (m : ℕ) :
      (List.range m).foldl (fun acc i => if i = hole then acc else acc+f i) start =
        start + ∑ i ∈ Finset.range m, if i = hole then 0 else f i := by
    induction m with
    | zero => simp
    | succ m ih =>
      rw [List.range_succ, List.foldl_append, ih, Finset.sum_range_succ, ← add_assoc]
      by_cases hm : m = hole
      · simp [hm]
      · simp [hm]
  calc (List.range n).foldl (fun acc i => if i = hole then acc else acc+f i) (accumulate n f)
      = ∑ i ∈ Finset.range n, (f i+if i = hole then 0 else f i) := by
        rw [hfold, accumulate_eq_sum, Finset.sum_add_distrib]
    _ = ∑ i ∈ Finset.range n, if i = hole then f i else 0 := by
        apply Finset.sum_congr rfl
        intro i _
        by_cases hi : i = hole
        · simp [hi]
        · simp [hi, hself]
    _ = f hole := by simp [hh]

theorem accumulate_leftInverse {R : Type} [CommRing R] {n : ℕ} (N G : ℕ → ℕ → R)
    (h : ∀ r < n, ∀ j < n, accumulate n (fun c => N r c*G c j) = if r = j then 1 else 0)
    (d : ℕ → R) {r : ℕ} (hr : r < n) :
    accumulate n (fun c => N r c*accumulate n (fun j => G c j*d j)) = d r := by
  simp only [accumulate_eq_sum] at h ⊢
  calc ∑ c ∈ Finset.range n, N r c * ∑ j ∈ Finset.range n, G c j*d j
      = ∑ c ∈ Finset.range n, ∑ j ∈ Finset.range n, N r c*G c j*d j := by
        simp only [Finset.mul_sum, mul_assoc]
    _ = ∑ j ∈ Finset.range n, (∑ c ∈ Finset.range n, N r c*G c j)*d j := by
        rw [Finset.sum_comm]
        simp only [Finset.sum_mul]
    _ = ∑ j ∈ Finset.range n, (if r = j then 1 else 0)*d j := by
        apply Finset.sum_congr rfl
        intro j hj
        rw [h r hr j (Finset.mem_range.mp hj)]
    _ = d r := by simp [hr]

section Elimination
variable {R : Type} [CommRing R] {n : ℕ}

/-- The pivot row is swapped in and scaled, then added to the other rows with any factors: a
linear form that vanishes on the rows before vanishes on the rows after, and back. -/
theorem vanish_iff_of_pivot {M : Type} [AddCommGroup M] [Module R M] (φ : M →ₗ[R] R)
    {a b : ℕ → M} {c p : ℕ} (hc : c < n) (hp : p < n) {u v : R} (huv : v*u = 1) (f : ℕ → R)
    (hpivot : b c = u • a p)
    (hrow : ∀ i < n, i ≠ c → b i = a (Equiv.swap c p i)+f i • b c) :
    (∀ i < n, φ (b i) = 0) ↔ ∀ i < n, φ (a i) = 0 := by
  have hlt {i : ℕ} (hi : i < n) : Equiv.swap c p i < n := by
    rw [Equiv.swap_apply_def]
    split_ifs <;> assumption
  constructor
  · intro h i hi
    by_cases hip : i = p
    · have hback : a i = v • b c := by rw [hpivot, smul_smul, huv, one_smul, hip]
      rw [hback, map_smul, h c hc, smul_zero]
    · -- row `i` has gone to where the swap takes it
      have hne : Equiv.swap c p i ≠ c := by
        intro he
        apply hip
        have := congrArg (Equiv.swap c p) he
        rwa [Equiv.swap_apply_self, Equiv.swap_apply_left] at this
      have hb := h _ (hlt hi)
      rw [hrow _ (hlt hi) hne, Equiv.swap_apply_self, map_add, map_smul, h c hc, smul_zero,
        add_zero] at hb
      exact hb
  · intro h
    have hbc : φ (b c) = 0 := by rw [hpivot, map_smul, h p hp, smul_zero]
    intro i hi
    by_cases hic : i = c
    · rw [hic, hbc]
    · rw [hrow i hi hic, map_add, map_smul, hbc, smul_zero, add_zero, h _ (hlt hi)]

/-- `(x,y)` solves the system whose rows are those of `P` followed by those of `Q`. -/
def Solves (n : ℕ) (P Q : ℕ → ℕ → R) (x y : ℕ → R) : Prop :=
  ∀ i < n, accumulate n (fun j => P i j*x j)+accumulate n (fun j => Q i j*y j) = 0

/-- The left-hand side of one row, as a linear form in the row. -/
def rowForm (n : ℕ) (x y : ℕ → R) : (ℕ → R) →ₗ[R] R where
  toFun r := accumulate n (fun j => r j*x j)+accumulate n (fun j => r (n+j)*y j)
  map_add' r s := by
    simp only [accumulate_eq_sum, Pi.add_apply, add_mul, Finset.sum_add_distrib]
    exact add_add_add_comm _ _ _ _
  map_smul' v r := by
    simp only [accumulate_eq_sum, Pi.smul_apply, smul_eq_mul, mul_assoc, ← Finset.mul_sum,
      ← mul_add, RingHom.id_apply]

def delta (i j : ℕ) : R := if i = j then 1 else 0

theorem accumulate_delta {i : ℕ} (hi : i < n) (x : ℕ → R) :
    accumulate n (fun j => delta i j*x j) = x i := by
  rw [accumulate_eq_sum]
  simp [delta, hi]

theorem product_of_solves {A B : ℕ → ℕ → R}
    (h : ∀ x y, Solves n A delta x y → Solves n delta B x y) {i k : ℕ} (hi : i < n) (hk : k < n) :
    accumulate n (fun j => B i j*A j k) = delta i k := by
  -- the `k`th unit vector, and minus its image under `A`
  have hunit (j : ℕ) : accumulate n (fun l => A j l*delta l k) = A j k := by
    rw [accumulate_eq_sum]
    simp [delta, hk]
  have hs := h (fun l => delta l k) (fun j => -A j k) (by
    intro j hj
    rw [hunit, accumulate_delta hj, add_neg_cancel]) i hi
  rw [accumulate_delta hi, accumulate_eq_sum] at hs
  simp only [mul_neg, Finset.sum_neg_distrib] at hs
  rw [accumulate_eq_sum]
  exact (add_neg_eq_zero.mp hs).symm

theorem Solves.symm {P Q : ℕ → ℕ → R} {x y : ℕ → R} (h : Solves n P Q x y) :
    Solves n Q P y x := by
  intro i hi
  rw [add_comm]
  exact h i hi

end Elimination

end BackendGauntlet.LinearCode
