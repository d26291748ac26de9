import BackendGauntlet.ObjectStoreReedSolomon

/-! The elimination in `invert`, for every matrix. -/
namespace BackendGauntlet.ObjectStore.ReedSolomon

open Gf Gf256 LinearCode List

structure Shape (width : ℕ) (a : List (List Gf)) : Prop where
  height : a.length = rsK
  width : ∀ row ∈ a, row.length = width

structure Square where
  rows : List (List Gf)
  shape : Shape rsK rows

def product (A B : Square) (i k : ℕ) : Gf :=
  accumulate rsK (fun j => Gf256.new.mul (cell A.rows i j) (cell B.rows j k))

def IsInverse (A B : Square) : Prop :=
  ∀ i < rsK, ∀ k < rsK, product A B i k = (if i = k then ofNat 1 else 0) ∧
    product B A i k = if i = k then ofNat 1 else 0

variable {a b : List (List Gf)} {c w : ℕ}

theorem Shape.set (h : Shape w a) (i : ℕ) {r : List Gf} (hr : r.length = w) :
    Shape w (a.set i r) := by
  refine ⟨by rw [length_set, h.height],?_⟩
  intro row hrow
  rcases mem_or_eq_of_mem_set hrow with hrow | rfl
  · exact h.width row hrow
  · exact hr

theorem Shape.length_row (h : Shape w a) {i : ℕ} (hi : i < rsK) : (a.getD i []).length = w := by
  have hlt : i < a.length := by rw [h.height]; exact hi
  rw [getD_eq_getElem?_getD, getElem?_eq_getElem hlt, Option.getD_some]
  exact h.width _ (getElem_mem hlt)

theorem Shape.cell_set (h : Shape w a) {i : ℕ} (hi : i < rsK) (r : List Gf) (k : ℕ) :
    cell (a.set i r) k = if k = i then fun j => r.getD j 0 else cell a k := by
  funext j
  split_ifs with hk
  · rw [hk, cell, Gf256.getD_set_self (by rw [h.height]; exact hi)]
  · rw [cell, Gf256.getD_set_ne (Ne.symm hk), cell]

theorem getD_zipWith_add (v : Gf) {r s : List Gf} (h : r.length = s.length) (j : ℕ) :
    (zipWith (fun c p => c+Gf256.new.mul v p) r s).getD j 0 = r.getD j 0+v*s.getD j 0 := by
  by_cases hj : j < r.length
  · have hs : j < s.length := h ▸ hj
    simp [getD_eq_getElem?_getD, hj, hs, mul_new]
  · have hs : ¬ j < s.length := h ▸ hj
    simp [getD_eq_getElem?_getD, Nat.not_lt.mp hj, Nat.not_lt.mp hs]

/-- One pass of the inner loop. A row whose factor is zero is left, as the formula says too. -/
theorem clearRow_spec (h : Shape w a) (hc : c < rsK) {row : ℕ} (hr : row < rsK) :
    let cleared := if cell a row c = 0 then a else
      a.set row (zipWith (fun x p => x+Gf256.new.mul (cell a row c) p) (a.getD row [])
        (a.getD c []))
    Shape w cleared ∧ ∀ k, cell cleared k =
      if k = row then cell a row+cell a row c • cell a c else cell a k := by
  have hlen : (a.getD row []).length = (a.getD c []).length := by
    rw [h.length_row hr, h.length_row hc]
  intro cleared
  by_cases h0 : cell a row c = 0
  · simp only [cleared, if_pos h0, h0, zero_smul, add_zero]
    refine ⟨h,fun k => ?_⟩
    split_ifs with hk
    · rw [hk]
    · rfl
  · simp only [cleared, if_neg h0]
    refine ⟨h.set row (by rw [length_zipWith, hlen, h.length_row hc, Nat.min_self]),fun k => ?_⟩
    rw [h.cell_set hr]
    split_ifs with hk
    · funext j
      exact getD_zipWith_add _ hlen j
    · rfl

/-- After `n` passes the rows below `n` are cleared; the pivot row is as it was. -/
theorem clearColumn_spec (h : Shape w a) (hc : c < rsK) :
    Shape w (clearColumn Gf256.new c a) ∧ ∀ k, cell (clearColumn Gf256.new c a) k =
      if k < rsK ∧ k ≠ c then cell a k+cell a k c • cell a c else cell a k := by
  refine foldl_range_induction (P := fun n r => Shape w r ∧ ∀ k, cell r k =
    if k < n ∧ k ≠ c then cell a k+cell a k c • cell a c else cell a k) ⟨h,by simp⟩ ?_
  intro n hn r ⟨hshape,hcell⟩
  have hrow := (hcell n).trans (if_neg (by omega))
  have hpivot := (hcell c).trans (if_neg (by omega))
  by_cases hnc : n = c
  · refine ⟨by rwa [if_pos hnc],fun k => ?_⟩
    have hiff : (k < n ∧ k ≠ c) ↔ k < n+1 ∧ k ≠ c := by omega
    rw [if_pos hnc, hcell k]
    simp only [hiff]
  · obtain ⟨hshape',hcell'⟩ := clearRow_spec hshape hc hn
    rw [if_neg hnc]
    refine ⟨hshape',fun k => (hcell' k).trans ?_⟩
    rw [hrow, hpivot]
    by_cases hkn : k = n
    · rw [if_pos hkn, if_pos ⟨by omega,hkn ▸ hnc⟩, hkn]
    · have hiff : (k < n ∧ k ≠ c) ↔ k < n+1 ∧ k ≠ c := by omega
      rw [if_neg hkn, hcell k]
      simp only [hiff]

theorem swapped_spec (h : Shape w a) (hc : c < rsK) {p : ℕ} (hp : p < rsK) :
    let swapped := if p ≠ c then (a.set p (a.getD c [])).set c (a.getD p []) else a
    Shape w swapped ∧ ∀ k, cell swapped k = cell a (Equiv.swap c p k) := by
  intro swapped
  by_cases hpc : p = c
  · simp only [swapped, if_neg (not_not.mpr hpc), hpc, Equiv.swap_self]
    exact ⟨h,fun k => rfl⟩
  · have hset := h.set p (h.length_row hc)
    simp only [swapped, if_pos hpc]
    refine ⟨hset.set c (h.length_row hp),?_⟩
    intro k
    rw [hset.cell_set hc, h.cell_set hp, Equiv.swap_apply_def]
    split_ifs <;> rfl

theorem scaled_spec (h : Shape w a) (hc : c < rsK) (u : Gf) :
    let scaled := a.set c ((a.getD c []).map (fun x => Gf256.new.mul x u))
    Shape w scaled ∧ ∀ k, cell scaled k = if k = c then u • cell a c else cell a k := by
  refine ⟨h.set c (by rw [length_map, h.length_row hc]),?_⟩
  intro k
  rw [h.cell_set hc]
  split_ifs with hk
  · funext j
    rw [Pi.smul_apply, smul_eq_mul, mul_comm, cell]
    generalize a.getD c [] = row
    simp only [getD_eq_getElem?_getD, getElem?_map]
    cases row[j]? with
    | none => simp
    | some v => simp [mul_new]
  · rfl

/-- One column: either a pivot is found and its row is swapped in, scaled and subtracted from the
others, or the column is zero from the diagonal on. -/
theorem eliminate_spec (h : Shape w a) (hc : c < rsK) :
    (∃ b p u, eliminate Gf256.new a c = .ok b ∧ Shape w b ∧ c ≤ p ∧ p < rsK ∧ cell a p c*u = 1 ∧
      cell b c = u • cell a p ∧ ∀ i < rsK, i ≠ c →
        cell b i = cell a (Equiv.swap c p i)+cell a (Equiv.swap c p i) c • cell b c) ∨
    ((∃ msg, eliminate Gf256.new a c = .error (.singular msg)) ∧
      ∀ i, c ≤ i → i < rsK → cell a i c = 0) := by
  unfold eliminate
  cases hfind : (range' c (rsK-c)).find? (fun row => cell a row c ≠ 0) with
  | none =>
    refine Or.inr ⟨⟨_,rfl⟩,?_⟩
    intro i hci hi
    have hz := find?_eq_none.mp hfind i (mem_range'_1.mpr ⟨hci,by omega⟩)
    simpa using hz
  | some p =>
    have hmem := mem_range'_1.mp (mem_of_find?_eq_some hfind)
    have hp : p < rsK := by omega
    have hne : cell a p c ≠ 0 := by simpa using find?_some hfind
    obtain ⟨hswap,hswapped⟩ := swapped_spec h hc hp
    have hpivot := hswapped c
    rw [Equiv.swap_apply_left] at hpivot
    obtain ⟨u,hu,huv⟩ := inv_new hne
    obtain ⟨hscale,hscaled⟩ := scaled_spec hswap hc u
    obtain ⟨hclear,hrows⟩ := clearColumn_spec hscale hc
    have hrow := (hrows c).trans (if_neg (by simp))
    simp only [hpivot, hu]
    rw [hscaled c, if_pos rfl, hpivot] at hrow
    refine Or.inl ⟨_,p,u,rfl,hclear,hmem.1,hp,huv,hrow,?_⟩
    intro i hi hic
    rw [hrows i, if_pos ⟨hi,hic⟩, hrow, hscaled i, if_neg hic, hswapped i, hscaled c, if_pos rfl,
      hpivot]

/-- After `c` columns: the solutions are those of `[A | I]`, and the columns done are unit. -/
structure Reduced (A : Square) (c : ℕ) (a : List (List Gf)) : Prop where
  shape : Shape (rsK+rsK) a
  solutions : ∀ x y, (∀ i < rsK, rowForm rsK x y (cell a i) = 0) ↔
    Solves rsK (cell A.rows) delta x y
  unit : ∀ k < c, ∀ i < rsK, cell a i k = delta i k

def augment (A : Square) : List (List Gf) :=
  A.rows.mapIdx (fun i row =>
    row ++ (range rsK).map (fun j => if i = j then ofNat 1 else 0))

theorem cell_augment (A : Square) {i j : ℕ} (hi : i < rsK) (hj : j < rsK) :
    cell (augment A) i j = cell A.rows i j ∧ cell (augment A) i (rsK+j) = delta i j := by
  have hlt : i < A.rows.length := by rw [A.shape.height]; exact hi
  have hwidth := A.shape.length_row hi
  have hrow : (augment A).getD i [] = A.rows.getD i [] ++
      (range rsK).map (fun j => if i = j then ofNat 1 else 0) := by
    simp [augment, getD_eq_getElem?_getD, hlt]
  simp only [cell, hrow]
  generalize A.rows.getD i [] = row at hwidth
  constructor
  · rw [getD_eq_getElem?_getD, getElem?_append_left (by omega), getD_eq_getElem?_getD]
  · rw [getD_eq_getElem?_getD, getElem?_append_right (by omega), hwidth, Nat.add_sub_cancel_left]
    simp only [getElem?_map, getElem?_range hj]
    rfl

theorem reduced_augment (A : Square) : Reduced A 0 (augment A) := by
  refine ⟨⟨by rw [augment, length_mapIdx, A.shape.height],?_⟩,?_,fun k hk => absurd hk (by omega)⟩
  · intro row hrow
    obtain ⟨i,hi,rfl⟩ := mem_mapIdx.mp hrow
    rw [length_append, A.shape.width _ (getElem_mem hi), length_map, length_range]
  · intro x y
    refine forall_congr' fun i => forall_congr' fun hi => ?_
    have hleft := accumulate_congr rsK (fun j => cell (augment A) i j*x j)
      (fun j => cell A.rows i j*x j) (fun j hj => by rw [(cell_augment A hi hj).1])
    have hright := accumulate_congr rsK (fun j => cell (augment A) i (rsK+j)*y j)
      (fun j => delta i j*y j) (fun j hj => by rw [(cell_augment A hi hj).2])
    rw [← hleft, ← hright]
    rfl

variable {A : Square}

/-- A zero column from the diagonal on: what the unit columns make of it is a solution. -/
theorem Reduced.kernel (h : Reduced A c a) (hc : c < rsK)
    (hz : ∀ i, c ≤ i → i < rsK → cell a i c = 0) :
    ∃ x, x c = 1 ∧ Solves rsK (cell A.rows) delta x 0 := by
  refine ⟨fun j => if j < c then cell a j c else delta c j,?_,?_⟩
  · simp [delta]
  · apply (h.solutions _ _).mp
    intro i hi
    have hsplit (j : ℕ) (hj : j < rsK) :
        cell a i j*(if j < c then cell a j c else delta c j) =
          delta i j*(if j < c then cell a j c else 0)+delta c j*cell a i c := by
      by_cases hjc : j < c
      · rw [if_pos hjc, if_pos hjc, h.unit j hjc i hi, delta, delta, if_neg (by omega : c ≠ j),
          zero_mul, add_zero]
      · rw [if_neg hjc, if_neg hjc, mul_zero, zero_add, delta]
        by_cases hcj : c = j
        · rw [if_pos hcj, hcj, mul_comm]
        · rw [if_neg hcj, mul_zero, zero_mul]
    have hx : accumulate rsK (fun j => cell a i j*(if j < c then cell a j c else delta c j)) =
        (if i < c then cell a i c else 0)+cell a i c := by
      rw [accumulate_congr rsK _ _ hsplit, accumulate_eq_sum, Finset.sum_add_distrib,
        ← accumulate_eq_sum, ← accumulate_eq_sum, accumulate_delta hi, accumulate_delta hc]
    have hy : accumulate rsK (fun j => cell a i (rsK+j)*(0 : ℕ → Gf) j) = 0 := by
      simp [accumulate_eq_sum]
    refine (congrArg₂ (· + ·) hx hy).trans ?_
    by_cases hic : i < c
    · rw [if_pos hic, Gf.add_self, add_zero]
    · rw [if_neg hic, hz i (by omega) hi, add_zero, add_zero]

theorem Reduced.step (h : Reduced A c a) (hc : c < rsK) :
    (∃ b, eliminate Gf256.new a c = .ok b ∧ Reduced A (c+1) b) ∨
    ((∃ msg, eliminate Gf256.new a c = .error (.singular msg)) ∧
      ∃ x, x c = 1 ∧ Solves rsK (cell A.rows) delta x 0) := by
  rcases eliminate_spec h.shape hc with ⟨b,p,u,hok,hshape,hcp,hp,hu,hpivot,hrow⟩ | ⟨herr,hz⟩
  · refine Or.inl ⟨b,hok,hshape,?_,?_⟩
    · intro x y
      rw [← h.solutions x y]
      exact vanish_iff_of_pivot (rowForm rsK x y) hc hp hu _ hpivot hrow
    · have hone : cell b c c = 1 := by
        rw [hpivot, Pi.smul_apply, smul_eq_mul, mul_comm, hu]
      have hlt {i : ℕ} (hi : i < rsK) : Equiv.swap c p i < rsK := by
        rw [Equiv.swap_apply_def]
        split_ifs <;> assumption
      intro k hk i hi
      by_cases hkc : k = c
      · subst hkc
        by_cases hik : i = k
        · rw [hik, hone, delta, if_pos rfl]
        · -- in characteristic two, adding the factor clears the cell
          rw [hrow i hi hik, Pi.add_apply, Pi.smul_apply, hone, smul_eq_mul, mul_one,
            Gf.add_self, delta, if_neg hik]
      · have hk' : k < c := by omega
        have hzero : cell b c k = 0 := by
          rw [hpivot, Pi.smul_apply, h.unit k hk' p hp, delta, if_neg (by omega), smul_zero]
        by_cases hic : i = c
        · rw [hic, hzero, delta, if_neg (by omega)]
        · have hfix : Equiv.swap c p k = k := Equiv.swap_apply_of_ne_of_ne hkc (by omega)
          have hiff : Equiv.swap c p i = k ↔ i = k := by
            rw [Equiv.swap_apply_eq_iff, hfix]
          rw [hrow i hi hic, Pi.add_apply, Pi.smul_apply, hzero, smul_zero, add_zero,
            h.unit k hk' _ (hlt hi), delta, delta]
          simp only [hiff]
  · exact Or.inr ⟨herr,h.kernel hc hz⟩

theorem run_spec (A : Square) {n : ℕ} (hn : n ≤ rsK) :
    (∃ b, (range n).foldlM (eliminate Gf256.new) (augment A) = .ok b ∧ Reduced A n b) ∨
    ((∃ msg, (range n).foldlM (eliminate Gf256.new) (augment A) = .error (.singular msg)) ∧
      ∃ k < rsK, ∃ x, x k = 1 ∧ Solves rsK (cell A.rows) delta x 0) := by
  induction n with
  | zero => exact Or.inl ⟨_,rfl,reduced_augment A⟩
  | succ n ih =>
    rw [range_succ, foldlM_append]
    rcases ih (by omega) with ⟨b,hb,hred⟩ | ⟨⟨msg,hmsg⟩,hkernel⟩
    · rw [hb]
      simp only [foldlM_cons, foldlM_nil, bind_pure]
      rcases hred.step (by omega) with hok | ⟨herr,x,hx⟩
      · exact Or.inl hok
      · exact Or.inr ⟨herr,n,by omega,x,hx⟩
    · rw [hmsg]
      exact Or.inr ⟨⟨msg,rfl⟩,hkernel⟩

def rightHalf (h : Shape (rsK+rsK) a) : Square where
  rows := a.map (drop rsK)
  shape := by
    refine ⟨by rw [length_map, h.height],?_⟩
    intro row hrow
    obtain ⟨r,hr,rfl⟩ := mem_map.mp hrow
    rw [length_drop, h.width r hr, Nat.add_sub_cancel_left]

theorem cell_rightHalf (h : Shape (rsK+rsK) a) (i j : ℕ) :
    cell (rightHalf h).rows i j = cell a i (rsK+j) := by
  simp only [cell, rightHalf, getD_eq_getElem?_getD, getElem?_map]
  cases a[i]? with
  | none => simp
  | some r => simp

/-- With every column done the solutions are those of `[I | B]`. -/
theorem Reduced.isInverse (h : Reduced A rsK a) : IsInverse A (rightHalf h.shape) := by
  have hsol (x y : ℕ → Gf) : Solves rsK delta (cell (rightHalf h.shape).rows) x y ↔
      Solves rsK (cell A.rows) delta x y := by
    rw [← h.solutions x y]
    refine forall_congr' fun i => forall_congr' fun hi => ?_
    have hleft := accumulate_congr rsK (fun j => cell a i j*x j) (fun j => delta i j*x j)
      (fun j hj => by rw [h.unit j hj i hi])
    simp only [cell_rightHalf]
    rw [← hleft]
    rfl
  intro i hi k hk
  simp only [product, mul_new]
  exact ⟨product_of_solves (fun x y hs => ((hsol y x).mp hs.symm).symm) hi hk,
    product_of_solves (fun x y hs => (hsol x y).mpr hs) hi hk⟩

theorem no_inverse_of_kernel {k : ℕ} (hk : k < rsK) {x : ℕ → Gf} (hx : x k = 1)
    (hs : Solves rsK (cell A.rows) delta x 0) (B : Square) : ¬ IsInverse A B := by
  intro h
  have hleft : ∀ i < rsK, ∀ j < rsK,
      accumulate rsK (fun l => cell B.rows i l*cell A.rows l j) = if i = j then 1 else 0 := by
    intro i hi j hj
    have := (h i hi j hj).2
    simp only [product, mul_new] at this
    exact this
  have hzero : ∀ l < rsK, accumulate rsK (fun j => cell A.rows l j*x j) = 0 := by
    intro l hl
    have := hs l hl
    simp only [Pi.zero_apply, mul_zero, accumulate_eq_sum, Finset.sum_const_zero,
      add_zero] at this ⊢
    exact this
  -- an inverse takes the image of `x`, which is zero, back to `x`
  have hback := accumulate_leftInverse _ _ hleft x hk
  rw [hx, accumulate_congr rsK _ (fun _ => 0) (fun l hl => by rw [hzero l hl, mul_zero])] at hback
  simp only [accumulate_eq_sum, Finset.sum_const_zero] at hback
  exact absurd hback (by decide +kernel)

/-- `invert` on any four by four matrix: the inverse, on both sides, if there is one, and
`Singular` if there is none. -/
theorem invert_correct (A : Square) :
    ((∃ B, IsInverse A B) → ∃ B : Square, invert Gf256.new A.rows = .ok B.rows ∧ IsInverse A B) ∧
    ((¬ ∃ B, IsInverse A B) → ∃ msg, invert Gf256.new A.rows = .error (.singular msg)) := by
  rcases run_spec A (Nat.le_refl rsK) with ⟨b,hb,hred⟩ | ⟨⟨msg,hmsg⟩,k,hk,x,hx,hs⟩
  · have hok : invert Gf256.new A.rows = .ok (rightHalf hred.shape).rows := by
      rw [invert]
      exact congrArg _ hb
    exact ⟨fun _ => ⟨_,hok,hred.isInverse⟩,fun h => absurd ⟨_,hred.isInverse⟩ h⟩
  · have herr : invert Gf256.new A.rows = .error (.singular msg) := by
      rw [invert]
      exact congrArg _ hmsg
    exact ⟨fun ⟨B,hB⟩ => absurd hB (no_inverse_of_kernel hk hx hs B),fun _ => ⟨msg,herr⟩⟩

end BackendGauntlet.ObjectStore.ReedSolomon
