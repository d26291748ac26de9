import Mathlib.Data.List.Iterate
import Mathlib.Data.Fintype.EquivFin
import BackendGauntlet.LogTables

/-! The arithmetic of GF(2⁸) that the erasure codes work in. -/
namespace BackendGauntlet.ObjectStore

open List

def Gf : Type := BitVec 8

namespace Gf

def ofNat (n : ℕ) : Gf := BitVec.ofNat 8 n

def toNat (a : Gf) : ℕ := BitVec.toNat a

def add (a b : Gf) : Gf := BitVec.xor a b

def reductionByte : BitVec 8 := 0x1D

def highBit : BitVec 8 := 0x80

def xtime (a : Gf) : Gf :=
  let bits : BitVec 8 := a
  let shifted := bits <<< 1
  if bits &&& highBit ≠ 0 then shifted ^^^ reductionByte else shifted

instance : DecidableEq Gf := inferInstanceAs (DecidableEq (BitVec 8))

instance : Add Gf := ⟨add⟩

instance : Zero Gf := ⟨ofNat 0⟩

instance : Neg Gf := ⟨id⟩

instance : AddCommGroup Gf where
  add_assoc a b c := BitVec.xor_assoc a b c
  add_comm a b := BitVec.xor_comm a b
  zero_add a := BitVec.zero_xor
  add_zero a := BitVec.xor_zero
  neg_add_cancel a := BitVec.xor_self
  nsmul := nsmulRec
  zsmul := zsmulRec

theorem add_self (a : Gf) : a+a = 0 := BitVec.xor_self

def correction (a : BitVec 8) : BitVec 8 := if a.msb then reductionByte else 0

theorem correction_xor (a b : BitVec 8) :
    correction (a ^^^ b) = correction a ^^^ correction b := by
  unfold correction
  rw [BitVec.msb_xor]
  cases a.msb <;> cases b.msb <;> rfl

theorem xtime_eq (a : BitVec 8) : xtime a = (a <<< 1 ^^^ correction a : BitVec 8) := by
  have h : ∀ a : BitVec 8, (if a &&& highBit ≠ 0 then a <<< 1 ^^^ reductionByte else a <<< 1) =
      a <<< 1 ^^^ correction a := by decide +kernel
  exact h a

theorem xtime_add (a b : Gf) : xtime (a+b) = xtime a+xtime b := by
  have h (x y : BitVec 8) : xtime (BitVec.xor x y) = BitVec.xor (xtime x) (xtime y) := by
    rw [xtime_eq, xtime_eq, xtime_eq, BitVec.xor_eq, BitVec.xor_eq, correction_xor,
      BitVec.shiftLeft_xor_distrib]
    ac_rfl
  exact h a b

def double : Gf →+ Gf := AddMonoidHom.mk' xtime xtime_add

def power (k : ℕ) : Gf := double^[k] (ofNat 1)

theorem power_succ (k : ℕ) : power (k+1) = xtime (power k) :=
  Function.iterate_succ_apply' double k (ofNat 1)

theorem power_add (j k : ℕ) : power (j+k) = double^[j] (power k) :=
  Function.iterate_add_apply double j k (ofNat 1)

theorem double_injective : Function.Injective double := by
  apply (injective_iff_map_eq_zero double).mpr
  have h : ∀ a : BitVec 8, a <<< 1 ^^^ correction a = 0 → a = 0 := by decide +kernel
  intro a ha
  exact h a ((xtime_eq a).symm.trans ha)

theorem power_ne_zero (k : ℕ) : power k ≠ 0 := by
  intro h
  have hzero : double^[k] 0 = 0 := iterate_map_zero double k
  have hone := (double_injective.iterate k) (h.trans hzero.symm)
  exact absurd hone (by decide)

def mulOrder : ℕ := 255

theorem power_mulOrder : power mulOrder = ofNat 1 := by
  have h : xtime^[255] (ofNat 1) = ofNat 1 := by decide +kernel
  exact h

theorem power_ne_one {k : ℕ} (hk : k+1 < mulOrder) : power (k+1) ≠ ofNat 1 := by
  have h : ofNat 1 ∉ iterate xtime (ofNat 2) 254 := by decide +kernel
  intro hone
  apply h
  apply mem_iterate.mpr
  refine ⟨k,by unfold mulOrder at hk; omega,?_⟩
  rw [← hone, power_add k 1]
  rfl

theorem power_inj {j k : ℕ} (hj : j < mulOrder) (hk : k < mulOrder) (h : power j = power k) :
    j = k := by
  -- of two equal powers, the quotient is a power that is one
  have hle (a b : ℕ) (hab : a < b) (hb : b < mulOrder) : power a ≠ power b := by
    intro he
    obtain ⟨n,rfl⟩ : ∃ n, b = a+(n+1) := ⟨b-a-1,by omega⟩
    rw [power_add] at he
    have hone : ofNat 1 = power (n+1) := double_injective.iterate a he
    exact power_ne_one (by omega) hone.symm
  rcases Nat.lt_trichotomy j k with hlt | heq | hlt
  · exact absurd h (hle j k hlt hk)
  · exact heq
  · exact absurd h.symm (hle k j hlt hj)

theorem toNat_pos {a : Gf} (ha : a ≠ 0) : 0 < a.toNat := by
  apply Nat.pos_of_ne_zero
  intro h
  exact ha (BitVec.eq_of_toNat_eq h)

theorem toNat_lt (a : Gf) : a.toNat < 256 := BitVec.isLt a

theorem toNat_inj {a b : Gf} (h : a.toNat = b.toNat) : a = b := BitVec.eq_of_toNat_eq h

/-- The generator reaches every element but zero. -/
theorem exists_power {a : Gf} (ha : a ≠ 0) : ∃ k < mulOrder, power k = a := by
  -- an injective map of the 255 exponents into the 255 nonzero bytes is onto
  let f (k : Fin 255) : Fin 255 :=
    ⟨(power k).toNat-1,by
      have h1 := toNat_pos (power_ne_zero k)
      have h2 := toNat_lt (power k)
      omega⟩
  have hinj : Function.Injective f := by
    intro j k hjk
    have h1 := toNat_pos (power_ne_zero j)
    have h2 := toNat_pos (power_ne_zero k)
    have hval : (power j).toNat-1 = (power k).toNat-1 := congrArg Fin.val hjk
    exact Fin.ext (power_inj j.isLt k.isLt (toNat_inj (by omega)))
  have hsurj := Finite.injective_iff_surjective.mp hinj
  have h1 := toNat_pos ha
  have h2 := toNat_lt a
  obtain ⟨k,hk⟩ := hsurj ⟨a.toNat-1,by omega⟩
  have hval : (power k).toNat-1 = a.toNat-1 := congrArg Fin.val hk
  have h3 := toNat_pos (power_ne_zero k)
  exact ⟨k,k.isLt,toNat_inj (by omega)⟩

end Gf

open Gf

inductive ErasureError
  | singular (message : String)
  | tooManyErasures (need have_ : ℕ)
  | invalidLayout (message : String)
deriving DecidableEq

structure Gf256 where
  log : List ℕ
  antilog : List Gf

namespace Gf256

def fillStep (st : Gf256 × Gf) (exponent : ℕ) : Gf256 × Gf :=
  (⟨st.1.log.set st.2.toNat exponent,st.1.antilog.set exponent st.2⟩,xtime st.2)

def fill (n : ℕ) : Gf256 × Gf :=
  (List.range n).foldl fillStep (⟨List.replicate 256 0,List.replicate 256 0⟩,ofNat 1)

/-- `Gf256()`: index 255 of the powers mirrors index 0. -/
def new : Gf256 :=
  let gf := (fill mulOrder).1
  { gf with antilog := gf.antilog.set mulOrder (gf.antilog.getD 0 0) }

def mul (gf : Gf256) (a b : Gf) : Gf :=
  if a = 0 ∨ b = 0 then 0
  else gf.antilog.getD ((gf.log.getD a.toNat 0+gf.log.getD b.toNat 0)%mulOrder) 0

def inv (gf : Gf256) (a : Gf) : Except ErasureError Gf :=
  if a = 0 then .error (.singular "multiplicative inverse of 0 is undefined")
  else .ok (gf.antilog.getD (mulOrder-gf.log.getD a.toNat 0) 0)

theorem fill_succ (n : ℕ) : fill (n+1) = fillStep (fill n) n := by
  rw [fill, range_succ, foldl_append]
  rfl

structure Filled (n : ℕ) (st : Gf256 × Gf) : Prop where
  value : st.2 = power n
  logLength : st.1.log.length = 256
  antilogLength : st.1.antilog.length = 256
  antilog : ∀ k < n, st.1.antilog.getD k 0 = power k
  log : ∀ k < n, st.1.log.getD (power k).toNat 0 = k

theorem getD_set_self {α : Type} {l : List α} {i : ℕ} {a d : α} (hi : i < l.length) :
    (l.set i a).getD i d = a := by
  simp [getD_eq_getElem?_getD, hi]

theorem getD_set_ne {α : Type} {l : List α} {i j : ℕ} {a d : α} (hij : i ≠ j) :
    (l.set i a).getD j d = l.getD j d := by
  simp [getD_eq_getElem?_getD, hij]

theorem filled_fill {n : ℕ} (hn : n ≤ mulOrder) : Filled n (fill n) := by
  induction n with
  | zero =>
    refine ⟨rfl,length_replicate,length_replicate,?_,?_⟩
    · intro k hk
      omega
    · intro k hk
      omega
  | succ n ih =>
    have h := ih (by omega)
    have hn256 : n < 256 := by unfold mulOrder at hn; omega
    rw [fill_succ]
    refine ⟨?_,?_,?_,?_,?_⟩
    · rw [power_succ, ← h.value]
      rfl
    · rw [fillStep, length_set, h.logLength]
    · rw [fillStep, length_set, h.antilogLength]
    · intro k hk
      simp only [fillStep]
      by_cases hkn : k = n
      · rw [hkn, getD_set_self (by rw [h.antilogLength]; exact hn256), h.value]
      · rw [getD_set_ne (Ne.symm hkn), h.antilog k (by omega)]
    · intro k hk
      simp only [fillStep, h.value]
      by_cases hkn : k = n
      · rw [hkn, getD_set_self (by rw [h.logLength]; exact toNat_lt _)]
      · -- an earlier power is another byte, so its entry stays
        have hne : (power n).toNat ≠ (power k).toNat := by
          intro he
          have := power_inj (by omega) (by omega) (toNat_inj he)
          omega
        rw [getD_set_ne hne, h.log k (by omega)]

theorem antilog_new {k : ℕ} (hk : k < mulOrder) : new.antilog.getD k 0 = power k := by
  have h := filled_fill (Nat.le_refl _)
  rw [new]
  rw [getD_set_ne (by omega), h.antilog k hk]

theorem log_new {k : ℕ} (hk : k < mulOrder) : new.log.getD (power k).toNat 0 = k := by
  have h := filled_fill (Nat.le_refl _)
  rw [new]
  rw [h.log k hk]

-- 255 passes are not to be run by unification
attribute [irreducible] fill

def logTables : LogTables Gf where
  order := mulOrder
  one := ofNat 1
  shift := double
  log a := new.log.getD a.toNat 0
  period := power_mulOrder
  power_log a ha := by
    obtain ⟨k,hk,rfl⟩ := exists_power ha
    rw [log_new hk]
    rfl

theorem logTables_log (a : Gf) : logTables.log a = new.log.getD a.toNat 0 := rfl

theorem logTables_power (k : ℕ) : logTables.power k = power k := rfl

theorem logTables_order : logTables.order = mulOrder := rfl

instance : CommRing Gf := logTables.commRing

/-- The product of the code is the product of the ring. -/
theorem mul_new (a b : Gf) : new.mul a b = a*b := by
  have h : a*b = logTables.mul a b := rfl
  rw [h, mul, LogTables.mul, logTables_power, logTables_log, logTables_log, logTables_order]
  split_ifs with hzero
  · rfl
  · rw [antilog_new (Nat.mod_lt _ (by decide))]

theorem antilog_new_mulOrder : new.antilog.getD mulOrder 0 = power mulOrder := by
  have h := filled_fill (Nat.le_refl _)
  have hfirst : (fill mulOrder).1.antilog.getD 0 0 = power 0 := h.antilog 0 (by decide)
  rw [new]
  rw [getD_set_self (by rw [h.antilogLength]; decide), hfirst, power_mulOrder]
  rfl

/-- Every element but zero has an inverse. -/
theorem inv_new {a : Gf} (ha : a ≠ 0) : ∃ b, new.inv a = .ok b ∧ a*b = 1 := by
  obtain ⟨j,hj,rfl⟩ := exists_power ha
  refine ⟨power (mulOrder-j),?_,?_⟩
  · rw [inv, if_neg ha, log_new hj]
    by_cases h0 : j = 0
    · rw [h0, Nat.sub_zero, antilog_new_mulOrder]
    · rw [antilog_new (by omega)]
  · have hshift : power (mulOrder-j)*power j = double^[j] (power (mulOrder-j)) := by
      have h := LogTables.mul_eq_shift logTables (power (mulOrder-j)) ha
      rw [logTables_log, log_new hj] at h
      exact h
    calc power j*power (mulOrder-j)
        = double^[j] (power (mulOrder-j)) := by rw [mul_comm, hshift]
      _ = power (j+(mulOrder-j)) := (power_add j _).symm
      _ = power mulOrder := by rw [Nat.add_sub_cancel' hj.le]
      _ = 1 := power_mulOrder

end Gf256

end BackendGauntlet.ObjectStore
