import Mathlib.Tactic.Linarith
import Mathlib.Tactic.Ring

/-! The generic cell rate algorithm for one source. -/
namespace BackendGauntlet.Gcra

def due (tat : Option ℤ) (now : ℤ) : ℤ := max (tat.getD now) now

variable {later now start : ℤ} {tat : Option ℤ} {count : ℕ}

theorem due_later (tat : Option ℤ) (h : now ≤ later) :
    due tat later = max (due tat now) later := by
  cases tat with
  | none => simp [due, h]
  | some x => simp [due, max_assoc, max_eq_right h]

theorem le_due (tat : Option ℤ) (now : ℤ) : now ≤ due tat now := le_max_right _ _

theorem due_some_le (x now : ℤ) : x ≤ due (some x) now := le_max_left _ _

theorem due_congr {tat' : Option ℤ} (h : due tat now = due tat' now)
    (hle : now ≤ later) : due tat later = due tat' later := by
  rw [due_later tat hle, h, ← due_later tat' hle]

section
variable (tolerance : ℤ)

def admits (tat : Option ℤ) (now : ℤ) : Bool := due tat now-now ≤ tolerance

theorem admits_iff (tat : Option ℤ) (now : ℤ) :
    admits tolerance tat now = true ↔ due tat now ≤ now+tolerance := by
  simp only [admits, decide_eq_true_eq]
  omega

/-- After a refusal at `now` a request conforms from `due - tolerance` on and not before. -/
theorem admits_after_denial (htol : 0 ≤ tolerance)
    (hle : now ≤ later) :
    admits tolerance tat later = true ↔ due tat now-tolerance ≤ later := by
  rw [admits_iff, due_later tat hle, max_le_iff]
  omega

end

section
variable (period tolerance : ℤ)

def charge (tat : Option ℤ) (now : ℤ) : Option ℤ :=
  if admits tolerance tat now then some (due tat now+period) else tat

def after (tat : Option ℤ) (times : List ℤ) : Option ℤ := times.foldl (charge period tolerance) tat

def admitted : Option ℤ → List ℤ → List ℤ
  | _, [] => []
  | tat, now :: times =>
    if admits tolerance tat now then
      now :: admitted (charge period tolerance tat now) times
    else admitted tat times

theorem charge_admitted (h : admits tolerance tat now = true) :
    charge period tolerance tat now = some (due tat now+period) :=
  if_pos h

theorem charge_denied (h : admits tolerance tat now = false) :
    charge period tolerance tat now = tat := by
  simp [charge, h]

theorem after_admitted (tat : Option ℤ) (times : List ℤ) :
    after period tolerance tat (admitted period tolerance tat times) =
      after period tolerance tat times := by
  induction times generalizing tat with
  | nil => rfl
  | cons now times ih =>
    cases h : admits tolerance tat now with
    | true =>
      simp only [admitted, h, if_true, after, List.foldl_cons]
      exact ih _
    | false =>
      simp only [admitted, h, Bool.false_eq_true, if_false, after, List.foldl_cons,
        charge_denied period tolerance h]
      exact ih _

theorem admitted_sublist (tat : Option ℤ) (times : List ℤ) :
    (admitted period tolerance tat times).Sublist times := by
  induction times generalizing tat with
  | nil => exact List.Sublist.refl _
  | cons now times ih =>
    unfold admitted
    split_ifs
    · exact (ih _).cons_cons now
    · exact (ih tat).cons now

def Ahead (start : ℤ) (count : ℕ) (tat : Option ℤ) : Prop :=
  count = 0 ∨ ∃ x, tat = some x ∧ start+count*period ≤ x

theorem ahead_due
    (h : Ahead period start count tat) (hnow : start ≤ now) :
    start+count*period ≤ due tat now := by
  rcases h with rfl | ⟨x,rfl,hx⟩
  · simpa using hnow.trans (le_due tat now)
  · exact hx.trans (due_some_le x now)

theorem ahead_charge (hperiod : 0 < period) (now : ℤ)
    (h : Ahead period start count tat) :
    Ahead period start count (charge period tolerance tat now) := by
  rcases h with h | ⟨x,rfl,hx⟩
  · exact Or.inl h
  · right
    cases ha : admits tolerance (some x) now with
    | true =>
      refine ⟨_,charge_admitted period tolerance ha,?_⟩
      have hd := due_some_le x now
      omega
    | false => exact ⟨x,charge_denied period tolerance ha,hx⟩

def inWindow (start width now : ℤ) : Bool := start ≤ now && now < start+width

theorem count_lt (hperiod : 0 < period) {burst width : ℤ}
    (h : Ahead period start count tat) (hw : inWindow start width now = true)
    (ha : admits ((burst-1)*period) tat now = true) : count+1 ≤ burst+width/period := by
  simp only [inWindow, Bool.and_eq_true, decide_eq_true_eq] at hw
  have hlow := ahead_due period h hw.1
  have hhigh := (admits_iff _ tat now).mp ha
  have hprod : ((count : ℤ)+1-burst)*period ≤ width := by
    calc ((count : ℤ)+1-burst)*period
        = count*period-(burst-1)*period := by ring
      _ ≤ width := by omega
  have hdiv := (Int.le_ediv_iff_mul_le hperiod).mpr hprod
  omega

theorem admitted_window_from (hperiod : 0 < period) (burst start width : ℤ) (count : ℕ)
    (tat : Option ℤ) (times : List ℤ) (h : Ahead period start count tat)
    (hcount : (count : ℤ) ≤ burst+width/period) :
    (count+(admitted period ((burst-1)*period) tat times).countP (inWindow start width) : ℤ)
      ≤ burst+width/period := by
  -- the count so far is carried along with how far the state has moved past the start
  induction times generalizing tat count with
  | nil => simpa [admitted] using hcount
  | cons now times ih =>
    cases ha : admits ((burst-1)*period) tat now with
    | false =>
      simp only [admitted, ha, Bool.false_eq_true, if_false]
      exact ih count tat h hcount
    | true =>
      simp only [admitted, ha, if_true]
      cases hw : inWindow start width now with
      | false =>
        rw [List.countP_cons_of_neg (by simp [hw])]
        exact ih count _ (ahead_charge period _ hperiod now h) hcount
      | true =>
        rw [List.countP_cons_of_pos hw]
        have hlow := ahead_due period h (of_decide_eq_true (Bool.and_eq_true _ _ ▸ hw).1)
        have hnext : Ahead period start (count+1)
            (charge period ((burst-1)*period) tat now) := by
          refine Or.inr ⟨_,charge_admitted period _ ha,?_⟩
          push_cast
          linarith
        have hrest := ih (count+1) _ hnext (by exact_mod_cast count_lt period hperiod h hw ha)
        push_cast at hrest ⊢
        linarith

/-- A window admits its share and the burst, and no more. -/
theorem admitted_window (hperiod : 0 < period) {burst : ℤ} (hburst : 1 ≤ burst)
    (start : ℤ) (width : ℕ) (tat : Option ℤ) {times : List ℤ} :
    ((admitted period ((burst-1)*period) tat times).countP (inWindow start width) : ℤ)
      ≤ burst+width/period := by
  have hwidth : (0 : ℤ) ≤ width/period := Int.ediv_nonneg (by omega) hperiod.le
  have h := admitted_window_from period hperiod burst start width 0 tat times (Or.inl rfl)
    (by push_cast; omega)
  simpa using h

def room (tat : Option ℤ) (now : ℤ) : ℤ := max 0 ((now+tolerance-due tat now)/period+1)

theorem room_pos_iff (hperiod : 0 < period) (tat : Option ℤ) (now : ℤ) :
    0 < room period tolerance tat now ↔ admits tolerance tat now = true := by
  rw [admits_iff, room, lt_max_iff]
  have hdiv := Int.ediv_nonneg_iff_of_pos (a := now+tolerance-due tat now) hperiod
  omega

theorem room_charge (hperiod : 0 < period)
    (h : admits tolerance tat now = true) :
    room period tolerance (charge period tolerance tat now) now =
      room period tolerance tat now-1 := by
  have hdue : due (charge period tolerance tat now) now = due tat now+period := by
    rw [charge_admitted period tolerance h, due, Option.getD_some]
    have := le_due tat now
    omega
  have hpos := (room_pos_iff period tolerance hperiod tat now).mpr h
  have hsub : (now+tolerance-(due tat now+period))/period =
      (now+tolerance-due tat now)/period-1 := by
    rw [show now+tolerance-(due tat now+period) =
      now+tolerance-due tat now+(-1)*period by ring,
      Int.add_mul_ediv_right _ _ hperiod.ne']
    ring
  simp only [room, hdue, hsub] at hpos ⊢
  omega

theorem admitted_together (hperiod : 0 < period) (tat : Option ℤ) (now : ℤ) (times : List ℤ)
    (htimes : ∀ t ∈ times, t = now) :
    ((admitted period tolerance tat times).length : ℤ) =
      min (times.length : ℤ) (room period tolerance tat now) := by
  induction times generalizing tat with
  | nil =>
    have hroom : 0 ≤ room period tolerance tat now := le_max_left _ _
    simp [admitted, hroom]
  | cons t times ih =>
    cases htimes t List.mem_cons_self
    have hrest := fun u hu => htimes u (List.mem_cons_of_mem _ hu)
    cases ha : admits tolerance tat now with
    | true =>
      have hroom := room_charge period tolerance hperiod ha
      simp only [admitted, ha, if_true, List.length_cons]
      push_cast
      rw [ih _ hrest, hroom]
      omega
    | false =>
      have hroom : ¬ 0 < room period tolerance tat now := by
        rw [room_pos_iff period tolerance hperiod, ha]
        simp
      simp only [admitted, ha, Bool.false_eq_true, if_false, List.length_cons]
      rw [ih _ hrest]
      push_cast
      omega

end

end BackendGauntlet.Gcra
