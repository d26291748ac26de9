import Mathlib.Algebra.Ring.Defs
import Mathlib.Dynamics.PeriodicPts.Defs

/-! Multiplication by adding logarithms to the base of one additive map. -/
namespace BackendGauntlet

structure LogTables (V : Type) [AddCommGroup V] where
  order : ℕ
  one : V
  shift : V →+ V
  log : V → ℕ
  period : shift^[order] one = one
  power_log : ∀ v, v ≠ 0 → shift^[log v] one = v

namespace LogTables

variable {V : Type} [AddCommGroup V] [DecidableEq V] (t : LogTables V)

def power (k : ℕ) : V := t.shift^[k] t.one

def mul (v w : V) : V :=
  if v = 0 ∨ w = 0 then 0 else t.power ((t.log v+t.log w)%t.order)

omit [DecidableEq V] in
theorem power_mod (k : ℕ) : t.power (k%t.order) = t.power k :=
  Function.IsPeriodicPt.iterate_mod_apply t.period k

theorem mul_comm (v w : V) : t.mul v w = t.mul w v := by
  simp only [mul, or_comm, Nat.add_comm]

theorem mul_zero (v : V) : t.mul v 0 = 0 := by simp [mul]

/-- Multiplying is shifting as often as the logarithm says. -/
theorem mul_eq_shift (v : V) {w : V} (hw : w ≠ 0) : t.mul v w = t.shift^[t.log w] v := by
  by_cases hv : v = 0
  · rw [hv, mul, if_pos (Or.inl rfl), iterate_map_zero]
  · rw [mul, if_neg (by simp [hv, hw]), power_mod, power, Nat.add_comm,
      Function.iterate_add_apply, t.power_log v hv]

theorem one_mul (v : V) : t.mul t.one v = v := by
  by_cases hv : v = 0
  · rw [hv, mul_zero]
  · rw [mul_eq_shift t t.one hv, t.power_log v hv]

/-- Shifting is additive, hence so is multiplying. -/
theorem add_mul (u v w : V) : t.mul (u+v) w = t.mul u w+t.mul v w := by
  by_cases hw : w = 0
  · simp only [hw, mul_zero, add_zero]
  · rw [mul_eq_shift t _ hw, mul_eq_shift t u hw, mul_eq_shift t v hw, iterate_map_add]

/-- The product is associative, as shifts commute. -/
theorem mul_assoc (u v w : V) : t.mul (t.mul u v) w = t.mul u (t.mul v w) := by
  by_cases hu : u = 0
  · rw [hu, mul_comm t 0 v, mul_zero, mul_comm t 0 w, mul_zero, mul_comm t 0, mul_zero]
  by_cases hw : w = 0
  · rw [hw, mul_zero, mul_zero, mul_zero]
  -- both sides shift `v` by the logarithms of `u` and `w`, in the two orders
  rw [mul_eq_shift t _ hw, mul_comm t u v, mul_eq_shift t v hu, mul_comm t u (t.mul v w),
    mul_eq_shift t _ hu, mul_eq_shift t v hw, ← Function.iterate_add_apply,
    ← Function.iterate_add_apply, Nat.add_comm]

abbrev commRing : CommRing V :=
  { ‹AddCommGroup V› with
    mul := t.mul
    one := t.one
    mul_assoc := t.mul_assoc
    mul_comm := t.mul_comm
    one_mul := t.one_mul
    mul_one := fun v => (t.mul_comm v t.one).trans (t.one_mul v)
    mul_zero := t.mul_zero
    zero_mul := fun v => (t.mul_comm 0 v).trans (t.mul_zero v)
    right_distrib := t.add_mul
    left_distrib := fun u v w => by
      have h := t.add_mul v w u
      rw [t.mul_comm (v+w) u, t.mul_comm v u, t.mul_comm w u] at h
      exact h }

end LogTables

end BackendGauntlet
