import Mathlib.Tactic.FieldSimp
import Mathlib.Tactic.Linarith
import Mathlib.Tactic.Positivity
import BackendGauntlet.Dict
import BackendGauntlet.PyText

/-! Quantiles that the dashboard reads off the buckets of a histogram. -/
namespace BackendGauntlet.JobQueue

open PyText List

inductive Num
  | finite (v : ℚ)
  | posInf
  | negInf
  | nan
deriving DecidableEq

namespace Num

def neg : Num → Num
  | finite v => finite (-v)
  | posInf => negInf
  | negInf => posInf
  | nan => nan

def add : Num → Num → Num
  | finite a, finite b => finite (a+b)
  | finite _, b => b
  | a, finite _ => a
  | a, b => if a = b then a else nan

def sub (a b : Num) : Num := a.add b.neg

def sign : Num → ℤ
  | finite v => if 0 < v then 1 else if v < 0 then -1 else 0
  | posInf => 1
  | negInf => -1
  | nan => 0

def mul : Num → Num → Num
  | finite a, finite b => finite (a*b)
  | a, b =>
    if a.sign*b.sign = 1 then posInf else if a.sign*b.sign = -1 then negInf else nan

def div : Num → Num → Num
  | finite a, finite b => finite (a/b)
  | finite _, posInf => finite 0
  | a, finite _ => a
  | _, _ => nan

def le : Num → Num → Bool
  | nan, _ => false
  | _, nan => false
  | negInf, _ => true
  | _, posInf => true
  | finite a, finite b => a ≤ b
  | _, _ => false

def lt (a b : Num) : Bool := a.le b && !b.le a

def abs (a : Num) : Num := if a.lt (finite 0) then a.neg else a

def isFinite : Num → Bool
  | finite _ => true
  | _ => false

end Num

structure Sample where
  name : Text
  labels : Dict Text Text
  value : Num
deriving DecidableEq

def seriesOf (s : List Sample) (name : Text) : List Sample := s.filter (fun x => x.name = name)

def sum (s : List Sample) (name : Text) : ℚ :=
  (seriesOf s name).foldl (fun a x => match x.value with
    | .finite v => a+v
    | _ => a) 0

structure Bucket where
  le : Num
  count : Num
deriving DecidableEq

section
variable (number : Text → Num)

def parseValue (raw : Text) : Num :=
  if raw = "+Inf".toList then .posInf
  else if raw = "-Inf".toList then .negInf
  else if raw = "NaN".toList then .nan
  else number raw

def closest (q : ℚ) (quant : List Sample) : Option Num :=
  (quant.foldl (fun (best : Option Num × Num) x =>
    let gap := ((number ((x.labels.get "quantile".toList).getD [])).sub (.finite q)).abs
    if gap.lt best.2 && x.value.isFinite then (some x.value,gap) else best) (none,.posInf)).1

def bucketsOf (s : List Sample) (base : Text) : List Bucket :=
  ((seriesOf s (base ++ "_bucket".toList)).filterMap (fun x =>
    (x.labels.get "le".toList).map (fun le => ⟨parseValue number le,x.value⟩))).insertionSort
      (fun a b => a.le.le b.le = true)

def walkBuckets (target : Num) : Num → Num → List Bucket → Option Num
  | _, _, [] => none
  | prevLe, prevCount, b :: rest =>
    if target.le b.count then
      if b.le = .posInf then some prevLe
      else
        let span := b.count.sub prevCount
        let frac := if Num.lt (.finite 0) span then (target.sub prevCount).div span else .finite 0
        some (prevLe.add (frac.mul (b.le.sub prevLe)))
    else walkBuckets target b.le b.count rest

/-- The walk goes over the lines of all label sets, with the total of all of them. -/
def quantileSeconds (s : List Sample) (base : Text) (q : ℚ) : Option Num :=
  let quant := (seriesOf s base).filter (fun x => x.labels.contains "quantile".toList)
  if quant.isEmpty then
    let buckets := bucketsOf number s base
    let total := sum s (base ++ "_count".toList)
    if buckets.isEmpty || total ≤ 0 then none
    else
      (walkBuckets (.finite (q*total)) (.finite 0) (.finite 0) buckets).or
        (buckets.getLast?.map Bucket.le)
  else closest number q quant

end

/-- The finite bounds that all label sets have in common. -/
structure Bounds where
  values : List ℚ
  nonempty : values ≠ []
  increasing : values.Pairwise (· < ·)

/-- What one label set exposes: how many observations are at most a bound, and how many in all. -/
structure Histogram (bounds : Bounds) where
  count : ℚ → ℕ
  total : ℕ
  cumulative : bounds.values.Pairwise (fun a b => count a ≤ count b)
  le_total : ∀ b ∈ bounds.values, count b ≤ total

section
variable {bounds : Bounds}

def Histogram.line (h : Histogram bounds) (b : ℚ) : Bucket := ⟨.finite b,.finite (h.count b)⟩

def Histogram.last (h : Histogram bounds) : Bucket := ⟨.posInf,.finite h.total⟩

structure Exposes (number : Text → Num) (s : List Sample) (base : Text)
    (hists : List (Histogram bounds)) : Prop where
  summary : ∀ x ∈ seriesOf s base, x.labels.contains "quantile".toList = false
  buckets : (seriesOf s (base ++ "_bucket".toList)).map (fun x =>
      (x.labels.get "le".toList).map (fun le => Bucket.mk (parseValue number le) x.value)) =
    (hists.flatMap (fun h => bounds.values.map h.line ++ [h.last])).map some
  counts : (seriesOf s (base ++ "_count".toList)).map Sample.value =
    hists.map (fun h => .finite h.total)

/-- The histogram of all observations, whichever label set they have. -/
def pooled (hists : List (Histogram bounds)) : Histogram bounds where
  count := fun b => (hists.map (fun h => h.count b)).sum
  total := (hists.map Histogram.total).sum
  cumulative := by
    induction hists with
    | nil => exact pairwise_of_forall (fun _ _ => le_rfl)
    | cons h hists ih =>
      simp only [map_cons, sum_cons]
      exact h.cumulative.imp₂ (fun _ _ => Nat.add_le_add) ih
  le_total := by
    intro b hb
    exact sum_le_sum (fun h _ => h.le_total b hb)

end

/-- Whether a value lies in the first bucket that reaches the target, or is the largest finite bound
if only the last bucket does. -/
def InBucket (count : ℚ → ℕ) (target v : ℚ) : Option ℚ → List ℚ → Prop
  | lower, [] => lower = some v
  | lower, b :: bs =>
    if target ≤ count b then (∀ l ∈ lower, l ≤ v) ∧ v ≤ b
    else InBucket count target v (some b) bs

/-- Durations are not negative, so the first bucket starts at 0, unless its own bound is less. -/
def leastBound : List ℚ → Option ℚ
  | [] => none
  | b :: _ => if 0 ≤ b then some 0 else none

structure PooledQuantiles {bounds : Bounds} (number : Text → Num) (s : List Sample) (base : Text)
    (hists : List (Histogram bounds)) : Prop where
  within : ∀ q, 0 < q → q ≤ 1 → ∃ v, quantileSeconds number s base q = some (.finite v) ∧
    InBucket (pooled hists).count (q*(pooled hists).total) v (leastBound bounds.values)
      bounds.values
  mono : ∀ q q' v v', 0 < q → q ≤ q' → q' ≤ 1 → quantileSeconds number s base q = some (.finite v) →
    quantileSeconds number s base q' = some (.finite v') → v ≤ v'

section
variable {α ι : Type} {r : α → α → Prop} [DecidableRel r]

theorem foldr_orderedInsert_append {low s t : List α} (h : ∀ a ∈ t, ∀ b ∈ low, ¬ r a b) :
    t.foldr (orderedInsert r) (low ++ s) = low ++ t.foldr (orderedInsert r) s := by
  have hinsert (a : α) (l : List α) (ha : ∀ b ∈ low, ¬ r a b) :
      orderedInsert r a (low ++ l) = low ++ orderedInsert r a l := by
    induction low with
    | nil => rfl
    | cons b low ih =>
      rw [forall_mem_cons] at ha
      rw [cons_append, orderedInsert_of_not_le r _ ha.1, cons_append]
      exact congrArg (b :: ·) (ih (fun a ha b hb => h a ha b (mem_cons_of_mem _ hb)) ha.2)
  induction t with
  | nil => rfl
  | cons a t ih =>
    rw [forall_mem_cons] at h
    rw [foldr_cons, foldr_cons, ih h.2, hinsert a _ h.1]

/-- A stable sort of lists that begin with their least elements puts these first, in their order. -/
theorem insertionSort_flatMap_cons (xs : List ι) (first : ι → α) (rest : ι → List α)
    (hfirst : ∀ x y, r (first x) (first y)) (hle : ∀ x y, ∀ a ∈ rest y, r (first x) a)
    (hlt : ∀ x y, ∀ a ∈ rest x, ¬ r a (first y)) :
    (xs.flatMap (fun x => first x :: rest x)).insertionSort r =
      xs.map first ++ (xs.flatMap rest).insertionSort r := by
  induction xs with
  | nil => rfl
  | cons x xs ih =>
    have hleast : ∀ a ∈ rest x ++ xs.flatMap (fun x => first x :: rest x), r (first x) a := by
      intro a ha
      rcases mem_append.mp ha with ha | ha
      · exact hle x x a ha
      · obtain ⟨y,_,hy⟩ := mem_flatMap.mp ha
        rcases mem_cons.mp hy with rfl | hy
        · exact hfirst x y
        · exact hle x y a hy
    rw [flatMap_cons, cons_append, insertionSort_cons_of_forall_rel r hleast, map_cons, cons_append,
      flatMap_cons]
    congr 1
    simp only [insertionSort, foldr_append] at ih ⊢
    rw [ih, foldr_orderedInsert_append]
    intro a ha b hb
    obtain ⟨y,_,rfl⟩ := mem_map.mp hb
    exact hlt x y a ha

end

section
variable {bounds : Bounds}

/-- The lines bound by bound, and at each bound in the order of the label sets. -/
def rows (hists : List (Histogram bounds)) (bs : List ℚ) : List Bucket :=
  bs.flatMap (fun b => hists.map (fun h => h.line b)) ++ hists.map Histogram.last

theorem insertionSort_lines (hists : List (Histogram bounds)) {bs : List ℚ}
    (hbs : bs.Pairwise (· < ·)) :
    (hists.flatMap (fun h => bs.map h.line ++ [h.last])).insertionSort
      (fun a b => a.le.le b.le = true) = rows hists bs := by
  induction bs with
  | nil =>
    simp only [rows, map_nil, nil_append, flatMap_nil]
    rw [← map_eq_flatMap]
    apply Pairwise.insertionSort_eq
    rw [pairwise_map]
    exact pairwise_of_forall (fun _ _ => rfl)
  | cons b bs ih =>
    simp only [rows, map_cons, cons_append, flatMap_cons, append_assoc]
    rw [insertionSort_flatMap_cons, ih hbs.of_cons, rows]
    · intro x y
      simp [Histogram.line, Num.le]
    · intro x y a ha
      simp only [mem_append, mem_map, mem_singleton] at ha
      rcases ha with ⟨c,hc,rfl⟩ | rfl
      · simpa [Histogram.line, Num.le] using (rel_of_pairwise_cons hbs hc).le
      · rfl
    · intro x y a ha
      simp only [mem_append, mem_map, mem_singleton] at ha
      rcases ha with ⟨c,hc,rfl⟩ | rfl
      · simpa [Histogram.line, Num.le] using rel_of_pairwise_cons hbs hc
      · simp [Histogram.last, Histogram.line, Num.le]

variable {number : Text → Num} {s : List Sample} {base : Text} {hists : List (Histogram bounds)}

theorem bucketsOf_eq (hs : Exposes number s base hists) :
    bucketsOf number s base = rows hists bounds.values := by
  have hlines : (seriesOf s (base ++ "_bucket".toList)).filterMap (fun x =>
      (x.labels.get "le".toList).map (fun le => Bucket.mk (parseValue number le) x.value)) =
        hists.flatMap (fun h => bounds.values.map h.line ++ [h.last]) := by
    have hb := congrArg (filterMap id) hs.buckets
    rw [filterMap_map, filterMap_map] at hb
    simpa using hb
  rw [bucketsOf, hlines, insertionSort_lines hists bounds.increasing]

theorem sum_counts (hs : Exposes number s base hists) :
    sum s (base ++ "_count".toList) = (pooled hists).total := by
  have hfold (xs : List Sample) (hists : List (Histogram bounds)) (a : ℚ)
      (h : xs.map Sample.value = hists.map (fun h => .finite h.total)) :
      xs.foldl (fun a x => match x.value with
        | .finite v => a+v
        | _ => a) a = a+(pooled hists).total := by
    induction xs generalizing hists a with
    | nil =>
      cases hists with
      | nil => simp [pooled]
      | cons h hists => cases h
    | cons x xs ih =>
      cases hists with
      | nil => cases h
      | cons h' hists =>
        rw [map_cons, map_cons, cons.injEq] at h
        simp only [foldl_cons, h.1]
        rw [ih hists _ h.2]
        simp [pooled, add_assoc]
  rw [sum, hfold _ hists 0 hs.counts, zero_add]

theorem quantileSeconds_eq {q : ℚ} (hs : Exposes number s base hists)
    (hpos : 0 < (pooled hists).total) :
    quantileSeconds number s base q =
      (walkBuckets (.finite (q*(pooled hists).total)) (.finite 0) (.finite 0)
        (rows hists bounds.values)).or (some .posInf) := by
  have hquant : (seriesOf s base).filter (fun x => x.labels.contains "quantile".toList) = [] :=
    filter_eq_nil_iff.mpr (fun x hx => by rw [hs.summary x hx]; exact Bool.false_ne_true)
  have htotal : ¬ ((pooled hists).total : ℚ) ≤ 0 := by
    rw [not_le]
    exact_mod_cast hpos
  obtain ⟨h,hists',hcons⟩ : ∃ h hists', hists = hists' ++ [h] := by
    rcases eq_nil_or_concat hists with rfl | ⟨hists',h,rfl⟩
    · simp [pooled] at hpos
    · exact ⟨h,hists',by simp⟩
  have hlast : (rows hists bounds.values).getLast? = some h.last := by
    simp [rows, hcons]
  have hne : (rows hists bounds.values).isEmpty = false := by
    simp [rows, hcons]
  simp only [quantileSeconds, hquant, sum_counts hs, bucketsOf_eq hs, isEmpty_nil, if_true, hne,
    htotal, decide_false, Bool.or_self, Bool.false_eq_true, if_false, hlast]
  rfl

end

/-- The count that the walk goes on with, which is that of the last label set. -/
def carried (after : Bool) (count : ℕ) : ℚ := if after then 0 else count

/-- What the walk comes to if all observations are of one label set, by whether label sets without
any come before it and after it. -/
def interpolate (count : ℚ → ℕ) (before after : Bool) (target : ℚ) : ℚ → ℚ → List ℚ → Num
  | lower, _, [] => if before then .posInf else .finite lower
  | lower, below, b :: bs =>
    if target ≤ count b then
      -- a line without observations has moved the lower bound up to this one
      .finite (if before then b else lower+(target-below)/(count b-below)*(b-lower))
    else interpolate count before after target b (carried after (count b)) bs

theorem walkBuckets_zeros {target : ℚ} (htarget : 0 < target) (le lower below : Num)
    {zeros : List Bucket} (hzeros : ∀ z ∈ zeros, z = ⟨le,.finite 0⟩) (rest : List Bucket) :
    walkBuckets (.finite target) lower below (zeros ++ rest) =
      if zeros = [] then walkBuckets (.finite target) lower below rest
      else walkBuckets (.finite target) le (.finite 0) rest := by
  induction zeros generalizing lower below with
  | nil => rfl
  | cons z zeros ih =>
    rw [forall_mem_cons] at hzeros
    obtain ⟨rfl,hzeros⟩ := hzeros
    simp only [cons_append, walkBuckets, Num.le, not_le.mpr htarget, decide_false,
      Bool.false_eq_true, if_false, reduceCtorEq]
    rw [ih _ _ hzeros, ite_self]

section
variable {bounds : Bounds} {before after : List (Histogram bounds)} {h : Histogram bounds}
  {target lower below : ℚ} {bs : List ℚ}

theorem carried_lt {after : Bool} {count : ℕ} (htarget : 0 < target) (h : ¬ target ≤ count) :
    carried after count < target := by
  unfold carried
  split_ifs
  · exact htarget
  · exact not_le.mp h

theorem walkBuckets_rows (hzero : ∀ z ∈ before ++ after, z.total = 0) (htarget : 0 < target)
    (hbelow : below < target) (htotal : target ≤ h.total) (hbs : bs ⊆ bounds.values) :
    walkBuckets (.finite target) (.finite lower) (.finite below) (rows (before ++ h :: after) bs) =
      some (interpolate h.count (!before.isEmpty) (!after.isEmpty) target lower below bs) := by
  have hline (zeros : List (Histogram bounds)) (hz : ∀ z ∈ zeros, z.total = 0) (b : ℚ)
      (hb : b ∈ bounds.values) :
      ∀ z ∈ zeros.map (fun h => h.line b), z = ⟨.finite b,.finite 0⟩ := by
    intro z hmem
    obtain ⟨x,hx,rfl⟩ := mem_map.mp hmem
    have hcount : x.count b = 0 := Nat.le_zero.mp (hz x hx ▸ x.le_total b hb)
    simp [Histogram.line, hcount]
  have hbefore : ∀ z ∈ before, z.total = 0 := fun z hz => hzero z (mem_append_left _ hz)
  have hafter : ∀ z ∈ after, z.total = 0 := fun z hz => hzero z (mem_append_right _ hz)
  induction bs generalizing lower below with
  | nil =>
    have hlast : ∀ z ∈ before.map Histogram.last, z = ⟨.posInf,.finite 0⟩ := by
      intro z hmem
      obtain ⟨x,hx,rfl⟩ := mem_map.mp hmem
      simp [Histogram.last, hbefore x hx]
    rw [rows, flatMap_nil, nil_append, map_append, walkBuckets_zeros htarget _ _ _ hlast]
    cases before <;>
      simp [walkBuckets, Histogram.last, Num.le, htotal, interpolate]
  | cons b bs ih =>
    rw [cons_subset] at hbs
    rw [rows, flatMap_cons, append_assoc, ← rows, map_append, append_assoc,
      walkBuckets_zeros htarget _ _ _ (hline before hbefore b hbs.1), map_cons, cons_append]
    by_cases hb : target ≤ h.count b
    · have hspan : below < h.count b := hbelow.trans_le hb
      have hpos : 0 < h.count b := by exact_mod_cast htarget.trans_le hb
      have hne : h.count b ≠ 0 := by omega
      cases before with
      | nil =>
        simp [walkBuckets, Histogram.line, interpolate, Num.le, Num.lt, Num.sub, Num.add, Num.neg,
          Num.div, Num.mul, ← sub_eq_add_neg, hb, hspan, hspan.le]
      | cons z zs =>
        simp [walkBuckets, Histogram.line, interpolate, Num.le, Num.lt, Num.sub, Num.add, Num.neg,
          Num.div, Num.mul, hb, hne]
    · -- no line at this bound reaches the target, and the last one of them is remembered
      have hstep (lower below : Num) : walkBuckets (.finite target) lower below
          (h.line b :: (after.map (fun h => h.line b) ++ rows (before ++ h :: after) bs)) =
          walkBuckets (.finite target) (.finite b)
            (.finite (carried (!after.isEmpty) (h.count b)))
            (rows (before ++ h :: after) bs) := by
        rw [walkBuckets, if_neg (by simpa [Histogram.line, Num.le] using hb),
          walkBuckets_zeros htarget _ _ _ (hline after hafter b hbs.1)]
        cases after <;> rfl
      rw [hstep, hstep, ite_self, interpolate, if_neg hb]
      exact ih (carried_lt htarget hb) hbs.2

end

section
variable {count : ℚ → ℕ} {before after : Bool} {target lower below : ℚ} {bs : List ℚ}

theorem interpolate_finite_iff : (∃ v, interpolate count before after target lower below bs =
    .finite v) ↔ (before = true → ∃ b ∈ bs, target ≤ count b) := by
  induction bs generalizing lower below with
  | nil => cases before <;> simp [interpolate]
  | cons b bs ih =>
    by_cases hb : target ≤ count b
    · simp [interpolate, hb]
    · simp [interpolate, ih, hb]

/-- The share of a bucket that a target uses up. -/
theorem share_bounds {full : ℚ} (hbelow : below < target) (hfull : target ≤ full) :
    0 ≤ (target-below)/(full-below) ∧ (target-below)/(full-below) ≤ 1 := by
  have hspan : 0 < full-below := by linarith
  constructor
  · exact div_nonneg (by linarith) hspan.le
  · rw [div_le_one hspan]
    linarith

theorem inBucket_interpolate {v : ℚ} (htarget : 0 < target) (hbelow : below < target)
    (hlower : ∀ b ∈ bs, lower ≤ b) (hbs : bs.Pairwise (· < ·))
    (hv : interpolate count before after target lower below bs = .finite v) :
    InBucket count target v (some lower) bs := by
  induction bs generalizing lower below with
  | nil => cases before <;> simp_all [interpolate, InBucket]
  | cons b bs ih =>
    have hwidth : 0 ≤ b-lower := sub_nonneg.mpr (hlower b mem_cons_self)
    rw [interpolate] at hv
    rw [InBucket]
    by_cases hb : target ≤ count b
    · rw [if_pos hb] at hv ⊢
      cases hv
      obtain ⟨h0,h1⟩ := share_bounds hbelow hb
      split_ifs
      · exact ⟨by simpa using hwidth,le_rfl⟩
      · refine ⟨by simpa using mul_nonneg h0 hwidth,?_⟩
        linarith [mul_le_of_le_one_left hwidth h1]
    · rw [if_neg hb] at hv ⊢
      exact ih (carried_lt htarget hb) (fun c hc => (rel_of_pairwise_cons hbs hc).le) hbs.of_cons hv

theorem le_of_inBucket {v : ℚ} (hlower : ∀ b ∈ bs, lower ≤ b) (hbs : bs.Pairwise (· < ·))
    (h : InBucket count target v (some lower) bs) : lower ≤ v := by
  induction bs generalizing lower with
  | nil => exact (Option.some.inj h).le
  | cons b bs ih =>
    rw [InBucket] at h
    split_ifs at h with hb
    · exact h.1 lower rfl
    · exact (hlower b mem_cons_self).trans
        (ih (fun c hc => (rel_of_pairwise_cons hbs hc).le) hbs.of_cons h)

theorem interpolate_mono {target' v v' : ℚ} (htarget : 0 < target) (hbelow : below < target)
    (hle : target ≤ target') (hlower : ∀ b ∈ bs, lower ≤ b) (hbs : bs.Pairwise (· < ·))
    (hv : interpolate count before after target lower below bs = .finite v)
    (hv' : interpolate count before after target' lower below bs = .finite v') : v ≤ v' := by
  induction bs generalizing lower below with
  | nil => exact (Num.finite.inj (hv.symm.trans hv')).le
  | cons b bs ih =>
    have hwidth : 0 ≤ b-lower := sub_nonneg.mpr (hlower b mem_cons_self)
    have hrest : ∀ c ∈ bs, b ≤ c := fun c hc => (rel_of_pairwise_cons hbs hc).le
    rw [interpolate] at hv'
    by_cases hb : target ≤ count b
    · by_cases hb' : target' ≤ count b
      · rw [interpolate, if_pos hb] at hv
        rw [if_pos hb'] at hv'
        cases hv
        cases hv'
        split_ifs
        · rfl
        · have hspan : 0 < (count b : ℚ)-below := by linarith
          have hshare : (target-below)/(count b-below) ≤ (target'-below)/(count b-below) := by
            gcongr
          linarith [mul_le_mul_of_nonneg_right hshare hwidth]
      · -- the larger target leaves this bucket, and ends above its bound
        have hin := inBucket_interpolate htarget hbelow hlower hbs hv
        rw [InBucket, if_pos hb] at hin
        rw [if_neg hb'] at hv'
        have htarget' := htarget.trans_le hle
        exact hin.2.trans (le_of_inBucket hrest hbs.of_cons (inBucket_interpolate htarget'
          (carried_lt htarget' hb') hrest hbs.of_cons hv'))
    · have hb' : ¬ target' ≤ count b := fun h => hb (hle.trans h)
      rw [interpolate, if_neg hb] at hv
      rw [if_neg hb'] at hv'
      exact ih (carried_lt htarget hb) hrest hbs.of_cons hv hv'

theorem interpolate_start {b : ℚ} (htarget : 0 < target)
    (h : b < 0 → before = false → count b = 0) :
    interpolate count before after target 0 0 (b :: bs) =
      interpolate count before after target (min 0 b) 0 (b :: bs) := by
  rcases le_or_gt 0 b with hb | hb
  · rw [min_eq_left hb]
  · cases before with
    | true => simp [interpolate]
    | false => simp [interpolate, h hb rfl, not_le.mpr htarget]

end

theorem inBucket_congr {count count' : ℚ → ℕ} {target v : ℚ} {lower : Option ℚ} {bs : List ℚ}
    (h : ∀ b ∈ bs, count b = count' b) (hv : InBucket count target v lower bs) :
    InBucket count' target v lower bs := by
  induction bs generalizing lower with
  | nil => exact hv
  | cons b bs ih =>
    rw [forall_mem_cons] at h
    rw [InBucket, ← h.1]
    rw [InBucket] at hv
    split_ifs at hv ⊢
    · exact hv
    · exact ih h.2 hv

theorem inBucket_leastBound {count : ℚ → ℕ} {target v b : ℚ} {bs : List ℚ}
    (hv : InBucket count target v (some (min 0 b)) (b :: bs)) :
    InBucket count target v (leastBound (b :: bs)) (b :: bs) := by
  rcases le_or_gt 0 b with hb | hb
  · rwa [leastBound, if_pos hb, ← min_eq_left hb]
  · rw [leastBound, if_neg (not_le.mpr hb)]
    rw [InBucket] at hv ⊢
    split_ifs at hv ⊢
    · exact ⟨nofun,hv.2⟩
    · exact hv

theorem exists_of_walkBuckets {target : ℚ} {lower below : Num} {bs : List Bucket}
    (h : walkBuckets (.finite target) lower below bs ≠ none) :
    ∃ b ∈ bs, Num.le (.finite target) b.count = true := by
  induction bs generalizing lower below with
  | nil => exact absurd rfl h
  | cons b bs ih =>
    rw [walkBuckets] at h
    split_ifs at h with hb
    · exact ⟨b,mem_cons_self,hb⟩
    · exact ⟨b,mem_cons_self,hb⟩
    · obtain ⟨c,hc,hle⟩ := ih h
      exact ⟨c,mem_cons_of_mem _ hc,hle⟩

section
variable {bounds : Bounds} {hists before after : List (Histogram bounds)} {h : Histogram bounds}

theorem pooled_total_of_zero (hzero : ∀ z ∈ before ++ after, z.total = 0) :
    (pooled (before ++ h :: after)).total = h.total := by
  have hsum (zs : List (Histogram bounds)) (hzs : ∀ z ∈ zs, z.total = 0) :
      (zs.map Histogram.total).sum = 0 := sum_eq_zero (by simpa using hzs)
  simp [pooled, hsum before (fun z hz => hzero z (mem_append_left _ hz)),
    hsum after (fun z hz => hzero z (mem_append_right _ hz))]

theorem pooled_count_of_zero (hzero : ∀ z ∈ before ++ after, z.total = 0) (b : ℚ)
    (hb : b ∈ bounds.values) : (pooled (before ++ h :: after)).count b = h.count b := by
  have hsum (zs : List (Histogram bounds)) (hzs : ∀ z ∈ zs, z.total = 0) :
      (zs.map (fun z => z.count b)).sum = 0 := by
    apply sum_eq_zero
    intro c hc
    obtain ⟨z,hz,rfl⟩ := mem_map.mp hc
    exact Nat.le_zero.mp (hzs z hz ▸ z.le_total b hb)
  simp [pooled, hsum before (fun z hz => hzero z (mem_append_left _ hz)),
    hsum after (fun z hz => hzero z (mem_append_right _ hz))]

/-- A line that reaches the total is one of a label set that has all of it. -/
theorem exists_only (hreach : ∃ b ∈ rows hists bounds.values,
    Num.le (.finite (pooled hists).total) b.count = true) :
    ∃ before h after, hists = before ++ h :: after ∧ ∀ z ∈ before ++ after, z.total = 0 := by
  obtain ⟨h,hmem,hle⟩ : ∃ h ∈ hists, (pooled hists).total ≤ h.total := by
    obtain ⟨line,hline,hle⟩ := hreach
    simp only [rows, mem_append, mem_flatMap, mem_map] at hline
    rcases hline with ⟨b,hb,h,hmem,rfl⟩ | ⟨h,hmem,rfl⟩
    · refine ⟨h,hmem,le_trans ?_ (h.le_total b hb)⟩
      simpa [Histogram.line, Num.le] using hle
    · refine ⟨h,hmem,?_⟩
      simpa [Histogram.last, Num.le] using hle
  obtain ⟨before,after,rfl⟩ := append_of_mem hmem
  refine ⟨before,h,after,rfl,?_⟩
  intro z hz
  have hle' : z.total ≤ ((before ++ after).map Histogram.total).sum :=
    le_sum_of_mem (mem_map_of_mem hz)
  simp only [pooled, map_append, map_cons, sum_append, sum_cons] at hle hle'
  omega

variable {number : Text → Num} {s : List Sample} {base : Text}

theorem quantileSeconds_only {q : ℚ} (hs : Exposes number s base (before ++ h :: after))
    (hzero : ∀ z ∈ before ++ after, z.total = 0) (hpos : 0 < h.total) (hq : 0 < q) (hq1 : q ≤ 1) :
    quantileSeconds number s base q = some (interpolate h.count (!before.isEmpty) (!after.isEmpty)
      (q*h.total) 0 0 bounds.values) := by
  have hsum : (pooled (before ++ h :: after)).total = h.total := pooled_total_of_zero hzero
  have htotal : (0 : ℚ) < h.total := by exact_mod_cast hpos
  have htarget : 0 < q*h.total := mul_pos hq htotal
  rw [quantileSeconds_eq hs (by omega), hsum, walkBuckets_rows hzero htarget htarget
    (mul_le_of_le_one_left htotal.le hq1) (fun _ hb => hb), Option.some_or]

end

/-- The quantiles are those of the pooled histogram exactly if one label set has all observations.
If one without any is listed before it, its bounds must hold them all; if it is the first and its
least bound is negative, none may be below that. -/
theorem pooled_quantiles_iff (number : Text → Num) (s : List Sample) (base : Text) (bounds : Bounds)
    (hists : List (Histogram bounds)) (hs : Exposes number s base hists)
    (hpos : 0 < (pooled hists).total) :
    PooledQuantiles number s base hists ↔
      ∃ before h after, hists = before ++ h :: after ∧ (∀ z ∈ before ++ after, z.total = 0) ∧
        if before = [] then ∀ b ∈ bounds.values.head?, b < 0 → h.count b = 0
        else ∃ b ∈ bounds.values, h.count b = h.total := by
  obtain ⟨b,bs,hbs⟩ := exists_cons_of_ne_nil bounds.nonempty
  have hincreasing : (b :: bs).Pairwise (· < ·) := hbs ▸ bounds.increasing
  have hmem : b ∈ bounds.values := by simp [hbs]
  constructor
  · intro hpq
    obtain ⟨v,hv,-⟩ := hpq.within 1 one_pos le_rfl
    have hwalk := hv
    rw [quantileSeconds_eq hs hpos, one_mul] at hwalk
    obtain ⟨before,h,after,rfl,hzero⟩ := exists_only (exists_of_walkBuckets (fun hnone => by
      rw [hnone] at hwalk
      cases hwalk))
    have hsum : (pooled (before ++ h :: after)).total = h.total := pooled_total_of_zero hzero
    have htotal : (0 : ℚ) < h.total := by exact_mod_cast hsum ▸ hpos
    refine ⟨before,h,after,rfl,hzero,?_⟩
    rw [hsum] at hpos
    split_ifs with hbefore
    · subst hbefore
      intro b' hb' hneg
      obtain rfl : b = b' := by simpa [hbs] using hb'
      by_contra hcount
      -- half of the first bucket is between its bound and 0
      have hcpos : (0 : ℚ) < h.count b := by exact_mod_cast Nat.pos_of_ne_zero hcount
      have hcle : (h.count b : ℚ) ≤ h.total := by exact_mod_cast h.le_total b hmem
      have hq : 0 < (h.count b : ℚ)/2/h.total := by positivity
      have hq1 : (h.count b : ℚ)/2/h.total ≤ 1 := by
        rw [div_le_one htotal]
        linarith
      obtain ⟨v,hv,hin⟩ := hpq.within _ hq hq1
      have htarget : (h.count b : ℚ)/2/h.total*h.total = h.count b/2 := by field_simp
      have hhalf : (h.count b : ℚ)/2 ≤ h.count b := by linarith
      rw [quantileSeconds_only hs hzero hpos hq hq1, htarget, hbs, interpolate, if_pos hhalf] at hv
      rw [hsum, htarget, hbs, InBucket, pooled_count_of_zero hzero b hmem, if_pos hhalf] at hin
      simp only [isEmpty_nil, Bool.not_true, Bool.false_eq_true, if_false, Option.some.injEq,
        Num.finite.injEq, sub_zero, zero_add] at hv
      have hshare : (h.count b : ℚ)/2/h.count b = 1/2 := by field_simp
      rw [hshare] at hv
      linarith [hin.2]
    · rw [quantileSeconds_only hs hzero hpos one_pos le_rfl, one_mul] at hv
      obtain ⟨c,hc,hle⟩ := interpolate_finite_iff.mp ⟨v,Option.some.inj hv⟩ (by simpa using hbefore)
      exact ⟨c,hc,le_antisymm (h.le_total c hc) (by exact_mod_cast hle)⟩
  · rintro ⟨before,h,after,rfl,hzero,hcond⟩
    have hsum : (pooled (before ++ h :: after)).total = h.total := pooled_total_of_zero hzero
    rw [hsum] at hpos
    have htotal : (0 : ℚ) < h.total := by exact_mod_cast hpos
    have hstart : b < 0 → (!before.isEmpty) = false → h.count b = 0 := by
      intro hneg hbefore
      rw [if_pos (by simpa using hbefore)] at hcond
      exact hcond b (by simp [hbs]) hneg
    have hlower : ∀ c ∈ b :: bs, min 0 b ≤ c := by
      intro c hc
      apply (min_le_right 0 b).trans
      rcases mem_cons.mp hc with rfl | hc
      · rfl
      · exact (rel_of_pairwise_cons hincreasing hc).le
    have hshown (q : ℚ) (hq : 0 < q) (hq1 : q ≤ 1) : quantileSeconds number s base q =
        some (interpolate h.count (!before.isEmpty) (!after.isEmpty) (q*h.total) (min 0 b) 0
          (b :: bs)) := by
      rw [quantileSeconds_only hs hzero hpos hq hq1, hbs,
        interpolate_start (mul_pos hq htotal) hstart]
    refine ⟨?_,?_⟩
    · intro q hq hq1
      have htarget := mul_pos hq htotal
      obtain ⟨v,hv⟩ : ∃ v, interpolate h.count (!before.isEmpty) (!after.isEmpty) (q*h.total)
          (min 0 b) 0 (b :: bs) = .finite v := by
        rw [interpolate_finite_iff, ← hbs]
        intro hbefore
        rw [if_neg (by simpa using hbefore)] at hcond
        obtain ⟨c,hc,hall⟩ := hcond
        refine ⟨c,hc,?_⟩
        rw [hall]
        exact mul_le_of_le_one_left htotal.le hq1
      refine ⟨v,by rw [hshown q hq hq1, hv],?_⟩
      rw [hsum]
      apply inBucket_congr (fun c hc => (pooled_count_of_zero hzero c hc).symm)
      rw [hbs]
      exact inBucket_leastBound (inBucket_interpolate htarget htarget hlower hincreasing hv)
    · intro q q' v v' hq hle hq1 hv hv'
      rw [hshown q hq (hle.trans hq1)] at hv
      rw [hshown q' (hq.trans_le hle) hq1] at hv'
      exact interpolate_mono (mul_pos hq htotal) (mul_pos hq htotal)
        (mul_le_mul_of_nonneg_right hle htotal.le) hlower hincreasing (Option.some.inj hv)
        (Option.some.inj hv')

def decimal (t : Text) : Num := ((readNat t).map (fun n => Num.finite n)).getD .nan

/-- The samples of a kind of jobs with so many executions, of at most a second each. -/
def execution (kind : String) (n : ℕ) : List Sample :=
  let labels : Dict Text Text := Dict.empty.set "kind".toList kind.toList
  [⟨"exec_bucket".toList,labels.set "le".toList "1".toList,.finite n⟩,
    ⟨"exec_bucket".toList,labels.set "le".toList "+Inf".toList,.finite n⟩,
    ⟨"exec_count".toList,labels,.finite n⟩]

def oneSecond : Bounds := ⟨[1],by simp,pairwise_singleton _ _⟩

def short (n : ℕ) : Histogram oneSecond := ⟨fun _ => n,n,pairwise_singleton _ _,fun _ _ => le_rfl⟩

/-- A kind that no job has been executed of does no harm. -/
theorem pooled_quantiles_idle_kind :
    PooledQuantiles decimal (execution "report" 0 ++ execution "email" 1) "exec".toList
      [short 0, short 1] :=
  (pooled_quantiles_iff decimal _ _ oneSecond _
    ⟨by decide +kernel,by decide +kernel,by decide +kernel⟩ (by decide)).mpr
    ⟨[short 0],short 1,[],rfl,by simp [short],1,by simp [oneSecond],rfl⟩

/-- With two kinds of jobs no line reaches the total, and the latency shown is infinite. -/
theorem quantile_of_two_kinds :
    Exposes decimal (execution "email" 1 ++ execution "report" 1) "exec".toList
      [short 1, short 1] ∧
    quantileSeconds decimal (execution "email" 1 ++ execution "report" 1) "exec".toList 1 =
      some .posInf ∧
    ¬ PooledQuantiles decimal (execution "email" 1 ++ execution "report" 1) "exec".toList
      [short 1, short 1] := by
  have hinf : quantileSeconds decimal (execution "email" 1 ++ execution "report" 1)
      "exec".toList 1 = some .posInf := by decide +kernel
  refine ⟨⟨by decide +kernel,by decide +kernel,by decide +kernel⟩,hinf,fun h => ?_⟩
  obtain ⟨v,hv,-⟩ := h.within 1 one_pos le_rfl
  rw [hinf] at hv
  cases hv

end BackendGauntlet.JobQueue
