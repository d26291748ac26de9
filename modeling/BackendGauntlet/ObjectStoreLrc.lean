import BackendGauntlet.ObjectStoreReedSolomon

/-! The local reconstruction code (4, 2, 2). -/
namespace BackendGauntlet.ObjectStore.Lrc

open Gf LinearCode List Option
open ReedSolomon (Shard shardLen dataShard length_dataShard cell eraseAt getD_eraseAt
  map_getD_range)

def labK : ℕ := 4

def labL : ℕ := 2

def labR : ℕ := 2

def labN : ℕ := labK+labL+labR

def groupSize : ℕ := labK/labL

def globalCoefficients : List (List Gf) :=
  [[ofNat 1, ofNat 2, ofNat 4, ofNat 8], [ofNat 1, ofNat 3, ofNat 9, ofNat 27]]

structure RepairStats where
  shardsRead : ℕ
  usedLocal : Bool
deriving DecidableEq

def groupDataIds (group : ℕ) : List ℕ := List.range' (group*groupSize) groupSize

def localGroupOf (shardId : ℕ) : Option (List ℕ) :=
  if shardId < labK then
    some (groupDataIds (shardId/groupSize) ++ [labK+shardId/groupSize])
  else if shardId < labK+labL then
    some (groupDataIds (shardId-labK) ++ [labK+(shardId-labK)])
  else none

def xorShards (shardLen : ℕ) (chunks : List (List Gf)) : List Gf :=
  (List.range shardLen).map (fun column =>
    chunks.foldl (fun acc chunk => acc+chunk.getD column 0) 0)

def globalParity (gf : Gf256) (coefficients : List Gf) (shardLen : ℕ) (data : List (List Gf)) :
    List Gf :=
  (List.range shardLen).map (fun column =>
    accumulate labK (fun index => gf.mul (coefficients.getD index 0) (cell data index column)))

/-- The plaintext is padded and cut as for RS(4,2). -/
def encode (gf : Gf256) (plaintext : List Gf) : Except ErasureError (List Shard) :=
  if plaintext = [] then .error (.invalidLayout "plaintext must be non-empty")
  else
    let data := (List.range labK).map (dataShard plaintext)
    .ok ((List.range labK).map (fun index => ⟨index,data.getD index []⟩) ++
      (List.range labL).map (fun group => ⟨labK+group,
        xorShards (shardLen plaintext) ((groupDataIds group).map (fun m => data.getD m []))⟩) ++
      (List.range labR).map (fun offset => ⟨labK+labL+offset,
        globalParity gf (globalCoefficients.getD offset []) (shardLen plaintext) data⟩))

/-- The first half of `Lrc.repair_one`: the rest of the local group, if all of it is there. -/
def repairLocal (shards : List (Option Shard)) (missing : ℕ) : Option (Shard × RepairStats) :=
  match localGroupOf missing with
  | none => none
  | some group =>
    let peers := group.filter (fun member => member ≠ missing)
    let present := peers.map (fun member => shards.getD member none)
    if present.any Option.isNone then none
    else
      let intact := present.filterMap id
      let shardLen := (intact.head?.map (fun shard => shard.data.length)).getD 0
      some (⟨missing,xorShards shardLen (intact.map Shard.data)⟩,⟨intact.length,true⟩)

def availableGlobal (shards : List (Option Shard)) : Option (List Gf × List Gf) :=
  (List.range labR).findSome? (fun offset =>
    (shards.getD (labK+labL+offset) none).map (fun shard =>
      (globalCoefficients.getD offset [],shard.data)))

def dataSlots (shards : List (Option Shard)) : List (Option (List Gf)) :=
  (List.range labK).map (fun index => (shards.getD index none).map Shard.data)

def holesOf (data : List (Option (List Gf))) : List ℕ :=
  (List.range labK).filter (fun index => (data.getD index none).isNone)

section
variable (gf : Gf256)

def recompute (shardId : ℕ) (data : List (Option (List Gf))) : List Gf :=
  let known := data.map (fun chunk => chunk.getD [])
  if shardId < labK then known.getD shardId []
  else
    let shardLen := (data.findSome? (fun chunk => chunk.map List.length)).getD 0
    if shardId < labK+labL then
      xorShards shardLen ((groupDataIds (shardId-labK)).map (fun member => known.getD member []))
    else globalParity gf (globalCoefficients.getD (shardId-labK-labL) []) shardLen known

def solveHole (coefficients parity : List Gf) (data : List (Option (List Gf))) (hole : ℕ)
    (inverse : Gf) : List Gf :=
  (List.range parity.length).map (fun column =>
    gf.mul ((List.range labK).foldl (fun acc index =>
      if index = hole then acc
      else acc+gf.mul (coefficients.getD index 0)
        (((data.getD index none).getD []).getD column 0))
      (parity.getD column 0)) inverse)

def repairViaGlobal (shards : List (Option Shard)) (missing : ℕ) :
    Except ErasureError (Shard × RepairStats) :=
  let data := dataSlots shards
  let holes := holesOf data
  if holes.length > 1 ∨ (holes ≠ [] ∧ holes.head? ≠ some missing) then
    .error (.tooManyErasures labK (labK-holes.length))
  else
    match holes with
    | [] => .ok (⟨missing,recompute gf missing data⟩,⟨labK,false⟩)
    | hole :: _ =>
      match availableGlobal shards with
      | none => .error (.tooManyErasures labK (labK-1))
      | some (coefficients,parity) =>
        match gf.inv (coefficients.getD hole 0) with
        | .error e => .error e
        | .ok inverse =>
          let rebuilt := solveHole gf coefficients parity data hole inverse
          .ok (⟨missing,recompute gf missing (data.set hole (some rebuilt))⟩,⟨labK,false⟩)

def repairOne (shards : List (Option Shard)) (missing : ℤ) :
    Except ErasureError (Shard × RepairStats) :=
  if shards.length ≠ labN then
    .error (.invalidLayout ("expected " ++ toString labN ++ " shard slots, got " ++
      toString shards.length))
  else if ¬ (0 ≤ missing ∧ missing < labN) then
    .error (.invalidLayout ("missing id " ++ toString missing ++ " out of range 0.." ++
      toString labN))
  else
    match repairLocal shards missing.toNat with
    | some repaired => .ok repaired
    | none => repairViaGlobal gf shards missing.toNat

end

def shardAt (plaintext : List Gf) (i : ℕ) : Shard :=
  if i < labK then ⟨i,dataShard plaintext i⟩
  else if i < labK+labL then
    ⟨i,xorShards (shardLen plaintext) ((groupDataIds (i-labK)).map (dataShard plaintext))⟩
  else
    ⟨i,globalParity Gf256.new (globalCoefficients.getD (i-labK-labL) []) (shardLen plaintext)
      ((List.range labK).map (dataShard plaintext))⟩

theorem encode_eq (plaintext : List Gf) (h : plaintext ≠ []) :
    encode Gf256.new plaintext = .ok ((range labN).map (shardAt plaintext)) := by
  rw [encode, if_neg h]
  rfl

theorem length_shardAt (plaintext : List Gf) (i : ℕ) :
    (shardAt plaintext i).data.length = shardLen plaintext := by
  unfold shardAt
  split_ifs with h1 h2
  · exact length_dataShard plaintext i h1
  · simp [xorShards]
  · simp [globalParity]

theorem id_shardAt (plaintext : List Gf) (i : ℕ) : (shardAt plaintext i).id = i := by
  unfold shardAt
  split_ifs <;> rfl

theorem getD_map_range (f : ℕ → Gf) {n column : ℕ} (hc : column < n) :
    ((range n).map f).getD column 0 = f column := by
  simp [getD_eq_getElem?_getD, hc]

variable {missing x y : ℕ}

section
variable (plaintext : List Gf)

theorem group_column (group column : ℕ) (hg : group < labL) (hc : column < shardLen plaintext) :
    (shardAt plaintext (labK+group)).data.getD column 0 =
      (shardAt plaintext (2*group)).data.getD column 0 +
        (shardAt plaintext (2*group+1)).data.getD column 0 := by
  have hparity : (shardAt plaintext (labK+group)).data = xorShards (shardLen plaintext)
      [(shardAt plaintext (2*group)).data, (shardAt plaintext (2*group+1)).data] := by
    have h : group = 0 ∨ group = 1 := by unfold labL at hg; omega
    rcases h with rfl | rfl
    · rfl
    · rfl
  rw [hparity, xorShards, getD_map_range _ hc]
  simp

theorem xorShards_pair {n : ℕ} {a b c : List Gf} (hlen : c.length = n)
    (h : ∀ column < n, a.getD column 0+b.getD column 0 = c.getD column 0) :
    xorShards n [a, b] = c := by
  rw [← map_getD_range c 0 n hlen, xorShards]
  apply map_congr_left
  intro column hcolumn
  rw [← h column (mem_range.mp hcolumn)]
  simp

def localPeers (missing : ℕ) : Option (ℕ × ℕ) :=
  if missing = 0 then some (1,4)
  else if missing = 1 then some (0,4)
  else if missing = 2 then some (3,5)
  else if missing = 3 then some (2,5)
  else if missing = 4 then some (0,1)
  else if missing = 5 then some (2,3)
  else none

theorem localPeers_bounds (h : localPeers missing = some (x,y)) :
    x < labN ∧ y < labN ∧ x ≠ missing ∧ y ≠ missing := by
  unfold localPeers at h
  split_ifs at h with m0 m1 m2 m3 m4 m5
  all_goals cases h
  all_goals subst missing; decide

/-- A shard of a local group is the sum of the two others. -/
theorem xor_localPeers (h : localPeers missing = some (x,y)) :
    xorShards (shardLen plaintext) [(shardAt plaintext x).data, (shardAt plaintext y).data] =
      (shardAt plaintext missing).data := by
  apply xorShards_pair (length_shardAt plaintext missing)
  intro column hc
  have h0 : (shardAt plaintext 4).data.getD column 0 = (shardAt plaintext 0).data.getD column 0 +
      (shardAt plaintext 1).data.getD column 0 := group_column plaintext 0 column (by decide) hc
  have h1 : (shardAt plaintext 5).data.getD column 0 = (shardAt plaintext 2).data.getD column 0 +
      (shardAt plaintext 3).data.getD column 0 := group_column plaintext 1 column (by decide) hc
  -- in the field a summand is cancelled by adding it again
  have hcancel (a b : Gf) : a+(a+b) = b := by rw [← add_assoc, add_self, zero_add]
  unfold localPeers at h
  split_ifs at h with m0 m1 m2 m3 m4 m5
  all_goals cases h
  · rw [m0, h0, add_comm ((shardAt plaintext 0).data.getD column 0), hcancel]
  · rw [m1, h0, hcancel]
  · rw [m2, h1, add_comm ((shardAt plaintext 2).data.getD column 0), hcancel]
  · rw [m3, h1, hcancel]
  · rw [m4, h0]
  · rw [m5, h1]

end

theorem repairLocal_eq {shards : List (Option Shard)}
    (h : localPeers missing = some (x,y)) :
    repairLocal shards missing =
      match shards.getD x none, shards.getD y none with
      | some a, some b =>
        some (⟨missing,xorShards a.data.length [a.data, b.data]⟩,⟨2,true⟩)
      | _, _ => none := by
  have hpeers : (localGroupOf missing).map (fun g => g.filter (fun m => m ≠ missing)) =
      some [x, y] := by
    unfold localPeers at h
    split_ifs at h with m0 m1 m2 m3 m4 m5
    all_goals cases h
    all_goals subst missing; decide
  obtain ⟨group,hgroup,hfilter⟩ := map_eq_some_iff.mp hpeers
  simp only [repairLocal, hgroup, hfilter, map_cons, map_nil]
  cases hx : shards.getD x none with
  | none => simp
  | some a =>
    cases hy : shards.getD y none with
    | none => simp
    | some b => simp

theorem repairLocal_global {shards : List (Option Shard)}
    (h : localPeers missing = none) (hlt : missing < labN) : repairLocal shards missing = none := by
  have hgroup : ∀ m < labN, localPeers m = none → localGroupOf m = none := by decide
  rw [repairLocal, hgroup missing hlt h]

theorem availableGlobal_eq (shards : List (Option Shard)) :
    availableGlobal shards =
      match shards.getD 6 none, shards.getD 7 none with
      | some a, _ => some (globalCoefficients.getD 0 [],a.data)
      | none, some b => some (globalCoefficients.getD 1 [],b.data)
      | none, none => none := by
  have hrange : range labR = [0, 1] := rfl
  rw [availableGlobal, hrange]
  simp only [findSome?_cons, findSome?_nil, labK, labL]
  cases shards.getD 6 none with
  | some a => rfl
  | none =>
    cases shards.getD 7 none with
    | some b => rfl
    | none => rfl

section
variable (plaintext : List Gf)

theorem global_column {offset column : ℕ} (ho : offset < labR) (hc : column < shardLen plaintext) :
    (shardAt plaintext (labK+labL+offset)).data.getD column 0 =
      accumulate labK (fun index => (globalCoefficients.getD offset []).getD index 0 *
        (dataShard plaintext index).getD column 0) := by
  have hparity : (shardAt plaintext (labK+labL+offset)).data =
      globalParity Gf256.new (globalCoefficients.getD offset []) (shardLen plaintext)
        ((range labK).map (dataShard plaintext)) := by
    have h : offset = 0 ∨ offset = 1 := by unfold labR at ho; omega
    rcases h with rfl | rfl
    · rfl
    · rfl
  rw [hparity, globalParity, getD_map_range _ hc]
  apply accumulate_congr
  intro index hi
  rw [Gf256.mul_new]
  simp [cell, getD_eq_getElem?_getD, hi]

theorem coefficient_ne_zero (offset index : ℕ) (ho : offset < labR) (hi : index < labK) :
    (globalCoefficients.getD offset []).getD index 0 ≠ 0 := by
  have h : ∀ offset < labR, ∀ index < labK,
      (globalCoefficients.getD offset []).getD index (ofNat 0) ≠ ofNat 0 := by decide
  exact h offset ho index hi

def dataExcept (hole : ℕ) : List (Option (List Gf)) :=
  (List.range labK).map (fun i => if i = hole then none else some (dataShard plaintext i))

theorem getD_dataExcept (hole i : ℕ) (hi : i < labK) :
    (dataExcept plaintext hole).getD i none =
      if i = hole then none else some (dataShard plaintext i) := by
  simp [dataExcept, getD_eq_getElem?_getD, hi]

theorem solveHole_eq {offset hole : ℕ} (ho : offset < labR) (hh : hole < labK) {inverse : Gf}
    (hinv : (globalCoefficients.getD offset []).getD hole 0*inverse = 1) :
    solveHole Gf256.new (globalCoefficients.getD offset [])
        (shardAt plaintext (labK+labL+offset)).data (dataExcept plaintext hole) hole inverse =
      dataShard plaintext hole := by
  rw [solveHole, length_shardAt,
    ← map_getD_range (dataShard plaintext hole) 0 _ (length_dataShard plaintext hole hh)]
  apply map_congr_left
  intro column hcolumn
  have hc := mem_range.mp hcolumn
  rw [Gf256.mul_new, global_column plaintext ho hc]
  -- the other terms cancel, and what is left is the term of the lost shard
  have hfold := accumulate_except add_self hh (fun index =>
    (globalCoefficients.getD offset []).getD index 0*(dataShard plaintext index).getD column 0)
  have hterms : (range labK).foldl (fun acc index =>
      if index = hole then acc
      else acc+Gf256.new.mul ((globalCoefficients.getD offset []).getD index 0)
        ((((dataExcept plaintext hole).getD index none).getD []).getD column 0))
      (accumulate labK (fun index => (globalCoefficients.getD offset []).getD index 0 *
        (dataShard plaintext index).getD column 0)) =
      (globalCoefficients.getD offset []).getD hole 0 *
        (dataShard plaintext hole).getD column 0 := by
    rw [← hfold]
    apply foldl_ext
    intro acc index hindex
    by_cases hskip : index = hole
    · rw [if_pos hskip, if_pos hskip]
    · rw [if_neg hskip, if_neg hskip, Gf256.mul_new,
        getD_dataExcept plaintext hole index (mem_range.mp hindex), if_neg hskip]
      rfl
  rw [hterms, mul_comm, ← mul_assoc, mul_comm inverse, hinv, one_mul]

theorem recompute_parity (hm : labK ≤ missing) (hlt : missing < labN) :
    recompute Gf256.new missing ((range labK).map (fun i => some (dataShard plaintext i))) =
      (shardAt plaintext missing).data := by
  have hlen : (dataShard plaintext 0).length = shardLen plaintext :=
    length_dataShard plaintext 0 (by decide)
  have hfirst : (((range labK).map (fun i => some (dataShard plaintext i))).findSome?
      (fun chunk => chunk.map length)).getD 0 = shardLen plaintext := hlen
  simp only [recompute, if_neg (Nat.not_lt.mpr hm), hfirst]
  have h : missing = 4 ∨ missing = 5 ∨ missing = 6 ∨ missing = 7 := by
    unfold labK at hm
    unfold labN labK labL labR at hlt
    omega
  rcases h with rfl | rfl | rfl | rfl
  all_goals rfl

variable (missing : ℕ) (lost : Finset ℕ)

def slotsWithout : List (Option Shard) :=
  eraseAt (insert missing lost) ((List.range labN).map (shardAt plaintext))

theorem getD_slotsWithout (i : ℕ) (hi : i < labN) :
    (slotsWithout plaintext missing lost).getD i none =
      if i = missing ∨ i ∈ lost then none else some (shardAt plaintext i) := by
  rw [slotsWithout, getD_eraseAt _ _ hi]
  simp

theorem dataSlots_slotsWithout :
    dataSlots (slotsWithout plaintext missing lost) = (range labK).map (fun index =>
      if index = missing ∨ index ∈ lost then none else some (dataShard plaintext index)) := by
  apply map_congr_left
  intro index hindex
  have hk := mem_range.mp hindex
  rw [getD_slotsWithout plaintext missing lost index (by unfold labN; omega)]
  split_ifs
  · rfl
  · rw [map_some, shardAt, if_pos hk]

theorem holesOf_map (f : ℕ → Option (List Gf)) :
    holesOf ((range labK).map f) = (range labK).filter (fun index => (f index).isNone) := by
  apply filter_congr
  intro index hindex
  have hk := mem_range.mp hindex
  simp [getD_eq_getElem?_getD, hk]

theorem repairViaGlobal_lost {i : ℕ} (hi : i < labK) (hne : i ≠ missing) (hlost : i ∈ lost) :
    ∃ need have_, repairViaGlobal Gf256.new (slotsWithout plaintext missing lost) missing =
      .error (.tooManyErasures need have_) := by
  have hmem : i ∈ holesOf (dataSlots (slotsWithout plaintext missing lost)) := by
    rw [dataSlots_slotsWithout, holesOf_map]
    exact mem_filter.mpr ⟨mem_range.mpr hi,by simp [hlost]⟩
  simp only [repairViaGlobal]
  rw [if_pos ?_]
  · exact ⟨_,_,rfl⟩
  · -- a single hole is this one, and not the missing shard
    generalize holesOf (dataSlots (slotsWithout plaintext missing lost)) = holes at hmem
    match holes, hmem with
    | [h], hmem =>
      rw [mem_singleton] at hmem
      refine Or.inr ⟨by simp,?_⟩
      rw [← hmem]
      simpa using hne
    | _ :: _ :: _, _ => exact Or.inl (by simp)

section
variable (hdata : ∀ i < labK, i ≠ missing → i ∉ lost)
include hdata

theorem hole_iff (i : ℕ) (hi : i < labK) : (i = missing ∨ i ∈ lost) ↔ i = missing := by
  constructor
  · rintro (h | h)
    · exact h
    · by_contra hne
      exact hdata i hi hne h
  · exact Or.inl

theorem repairViaGlobal_parity (hm : labK ≤ missing) (hlt : missing < labN) :
    repairViaGlobal Gf256.new (slotsWithout plaintext missing lost) missing =
      .ok (shardAt plaintext missing,⟨4,false⟩) := by
  have hall : dataSlots (slotsWithout plaintext missing lost) =
      (range labK).map (fun index => some (dataShard plaintext index)) := by
    rw [dataSlots_slotsWithout]
    apply map_congr_left
    intro i hi
    have hk := mem_range.mp hi
    have hne : ¬ (i = missing ∨ i ∈ lost) := by
      rw [hole_iff missing lost hdata i hk]
      omega
    rw [if_neg hne]
  have hholes : holesOf ((range labK).map (fun index => some (dataShard plaintext index))) =
      [] := by
    rw [holesOf_map]
    simp
  simp only [repairViaGlobal, hall, hholes]
  rw [if_neg (by simp), recompute_parity plaintext hm hlt]
  exact congrArg (fun id => Except.ok ((⟨id,(shardAt plaintext missing).data⟩ : Shard),
    (⟨4,false⟩ : RepairStats))) (id_shardAt plaintext missing).symm

theorem repairViaGlobal_data (hm : missing < labK) :
    repairViaGlobal Gf256.new (slotsWithout plaintext missing lost) missing =
      if 6 ∈ lost ∧ 7 ∈ lost then .error (.tooManyErasures 4 3)
      else .ok (shardAt plaintext missing,⟨4,false⟩) := by
  have hall : dataSlots (slotsWithout plaintext missing lost) = dataExcept plaintext missing := by
    rw [dataSlots_slotsWithout]
    apply map_congr_left
    intro i hi
    simp only [hole_iff missing lost hdata i (mem_range.mp hi)]
  have hholes : holesOf (dataExcept plaintext missing) = [missing] := by
    have hone : ∀ m < labK, (range labK).filter (fun index => index = m) = [m] := by decide
    rw [dataExcept, holesOf_map, ← hone missing hm]
    apply filter_congr
    intro i _
    by_cases hi : i = missing
    · simp [hi]
    · simp [hi]
  -- either row gives the lost shard, which is then read off the completed data
  have hsolve (offset : ℕ) (ho : offset < labR) :
      ∃ inverse, Gf256.new.inv ((globalCoefficients.getD offset []).getD missing 0) = .ok inverse ∧
        recompute Gf256.new missing ((dataExcept plaintext missing).set missing
          (some (solveHole Gf256.new (globalCoefficients.getD offset [])
            (shardAt plaintext (labK+labL+offset)).data (dataExcept plaintext missing) missing
            inverse))) = dataShard plaintext missing := by
    obtain ⟨inverse,hok,hmul⟩ := Gf256.inv_new (coefficient_ne_zero offset missing ho hm)
    refine ⟨inverse,hok,?_⟩
    rw [solveHole_eq plaintext ho hm hmul, recompute, if_pos hm]
    have hlen : missing < (dataExcept plaintext missing).length := by
      simpa [dataExcept] using hm
    simp [getD_eq_getElem?_getD, hlen]
  have hshard : shardAt plaintext missing = ⟨missing,dataShard plaintext missing⟩ := by
    rw [shardAt, if_pos hm]
  have h6 := getD_slotsWithout plaintext missing lost 6 (by decide)
  have h7 := getD_slotsWithout plaintext missing lost 7 (by decide)
  have hne6 : 6 ≠ missing := by unfold labK at hm; omega
  have hne7 : 7 ≠ missing := by unfold labK at hm; omega
  simp only [hne6, hne7, false_or] at h6 h7
  simp only [repairViaGlobal, hall, hholes]
  rw [if_neg (by simp), availableGlobal_eq, h6, h7, hshard]
  by_cases l6 : 6 ∈ lost
  · by_cases l7 : 7 ∈ lost
    · simp only [l6, l7, if_true, and_self]
      rfl
    · obtain ⟨inverse,hok,hrebuilt⟩ := hsolve 1 (by decide)
      simp only [l6, l7, if_true, if_false, and_false, hok]
      exact congrArg (fun bytes => Except.ok ((⟨missing,bytes⟩ : Shard),(⟨4,false⟩ : RepairStats)))
        hrebuilt
  · obtain ⟨inverse,hok,hrebuilt⟩ := hsolve 0 (by decide)
    simp only [l6, if_false, false_and, hok]
    exact congrArg (fun bytes => Except.ok ((⟨missing,bytes⟩ : Shard),(⟨4,false⟩ : RepairStats)))
      hrebuilt

end

def localGroups : List (List ℕ) := [[0, 1, 4], [2, 3, 5]]

def LocalSurvives : Prop :=
  ∃ group ∈ localGroups, missing ∈ group ∧ ∀ m ∈ group, m ≠ missing → m ∉ lost

/-- The other data shards are there, and a parity over all of them where one is needed. -/
def GlobalSurvives : Prop :=
  (∀ i < labK, i ≠ missing → i ∉ lost) ∧ (labK ≤ missing ∨ ∃ g, (g = 6 ∨ g = 7) ∧ g ∉ lost)

theorem localSurvives_iff (x y : ℕ) (h : localPeers missing = some (x,y)) :
    LocalSurvives missing lost ↔ x ∉ lost ∧ y ∉ lost := by
  unfold localPeers at h
  split_ifs at h with m0 m1 m2 m3 m4 m5
  all_goals cases h
  all_goals subst missing; simp [LocalSurvives, localGroups]

theorem not_localSurvives (h : localPeers missing = none) : ¬ LocalSurvives missing lost := by
  have hgroups : ∀ group ∈ localGroups, ∀ m ∈ group, localPeers m ≠ none := by decide
  rintro ⟨group,hgroup,hmem,_⟩
  exact hgroups group hgroup missing hmem h

theorem repairOne_slotsWithout (hlt : missing < labN) :
    repairOne Gf256.new (slotsWithout plaintext missing lost) missing =
      match repairLocal (slotsWithout plaintext missing lost) missing with
      | some repaired => .ok repaired
      | none => repairViaGlobal Gf256.new (slotsWithout plaintext missing lost) missing := by
  have hlen : (slotsWithout plaintext missing lost).length = labN := by
    simp [slotsWithout, eraseAt]
  rw [repairOne, if_neg (by rw [hlen]; exact not_not.mpr rfl),
    if_neg (not_not.mpr ⟨by omega,by exact_mod_cast hlt⟩), Int.toNat_natCast]

theorem repairLocal_survives (hs : LocalSurvives missing lost) :
    repairLocal (slotsWithout plaintext missing lost) missing =
      some (shardAt plaintext missing,⟨2,true⟩) := by
  cases hp : localPeers missing with
  | none => exact absurd hs (not_localSurvives missing lost hp)
  | some peers =>
    obtain ⟨x,y⟩ := peers
    obtain ⟨hx,hy⟩ := (localSurvives_iff missing lost x y hp).mp hs
    obtain ⟨hxn,hyn,hxm,hym⟩ := localPeers_bounds hp
    rw [repairLocal_eq hp, getD_slotsWithout plaintext missing lost x hxn,
      getD_slotsWithout plaintext missing lost y hyn, if_neg (by simp [hxm, hx]),
      if_neg (by simp [hym, hy])]
    simp only [length_shardAt, xor_localPeers plaintext hp]
    exact congrArg (fun id => some ((⟨id,(shardAt plaintext missing).data⟩ : Shard),
      (⟨2,true⟩ : RepairStats))) (id_shardAt plaintext missing).symm

theorem repairLocal_broken (hlt : missing < labN) (hs : ¬ LocalSurvives missing lost) :
    repairLocal (slotsWithout plaintext missing lost) missing = none := by
  cases hp : localPeers missing with
  | none => exact repairLocal_global hp hlt
  | some peers =>
    obtain ⟨x,y⟩ := peers
    rw [localSurvives_iff missing lost x y hp, not_and_or, not_not, not_not] at hs
    obtain ⟨hxn,hyn,_⟩ := localPeers_bounds hp
    rw [repairLocal_eq hp]
    rcases hs with hx | hy
    · rw [getD_slotsWithout plaintext missing lost x hxn, if_pos (Or.inr hx)]
    · rw [getD_slotsWithout plaintext missing lost y hyn, if_pos (Or.inr hy)]
      split
      · rename_i hnone
        cases hnone
      · rfl

end

/-- One lost shard is repaired from its local group or from the data shards and a parity over them,
and exactly; every other loss is reported. -/
theorem lrc_repair_exact (plaintext : List Gf) (h : plaintext ≠ []) :
    ∃ shards, encode Gf256.new plaintext = .ok shards ∧ shards.length = 8 ∧
      ∀ missing, missing < 8 → ∀ lost : Finset ℕ,
        ∃ shard, shards[missing]? = some shard ∧
          (LocalSurvives missing lost →
            repairOne Gf256.new (eraseAt (insert missing lost) shards) missing =
              .ok (shard,⟨2,true⟩)) ∧
          (¬ LocalSurvives missing lost → GlobalSurvives missing lost →
            repairOne Gf256.new (eraseAt (insert missing lost) shards) missing =
              .ok (shard,⟨4,false⟩)) ∧
          (¬ LocalSurvives missing lost → ¬ GlobalSurvives missing lost → ∃ need have_,
            repairOne Gf256.new (eraseAt (insert missing lost) shards) missing =
              .error (.tooManyErasures need have_)) := by
  refine ⟨_,encode_eq plaintext h,by simp [labN, labK, labL, labR],?_⟩
  intro missing hlt lost
  have hrepair := repairOne_slotsWithout plaintext missing lost hlt
  refine ⟨shardAt plaintext missing,?_,?_,?_,?_⟩
  · have hrange : missing < (range labN).length := by rw [length_range]; exact hlt
    simp [getElem?_eq_getElem hrange]
  · intro hs
    rw [repairLocal_survives plaintext missing lost hs] at hrepair
    exact hrepair
  · intro hs hg
    rw [repairLocal_broken plaintext missing lost hlt hs] at hrepair
    apply hrepair.trans
    by_cases hm : labK ≤ missing
    · exact repairViaGlobal_parity plaintext missing lost hg.1 hm hlt
    · have hparity : ¬ (6 ∈ lost ∧ 7 ∈ lost) := by
        rintro ⟨h6,h7⟩
        obtain ⟨g,rfl | rfl,hg⟩ := hg.2.resolve_left hm
        · exact hg h6
        · exact hg h7
      rw [repairViaGlobal_data plaintext missing lost hg.1 (Nat.not_le.mp hm), if_neg hparity]
  · intro hs hg
    rw [repairLocal_broken plaintext missing lost hlt hs] at hrepair
    by_cases hdata : ∀ i < labK, i ≠ missing → i ∉ lost
    · -- a data shard is missing, and both parities over all of them are lost
      obtain ⟨hm,hparity⟩ : ¬ labK ≤ missing ∧ ¬ ∃ g, (g = 6 ∨ g = 7) ∧ g ∉ lost := by
        rw [← not_or]
        exact fun hor => hg ⟨hdata,hor⟩
      have hboth : 6 ∈ lost ∧ 7 ∈ lost := by
        constructor
        · by_contra h6
          exact hparity ⟨6,Or.inl rfl,h6⟩
        · by_contra h7
          exact hparity ⟨7,Or.inr rfl,h7⟩
      refine ⟨4,3,hrepair.trans ?_⟩
      rw [repairViaGlobal_data plaintext missing lost hdata (Nat.not_le.mp hm), if_pos hboth]
    · push Not at hdata
      obtain ⟨i,hi,hne,hlost⟩ := hdata
      obtain ⟨need,have_,herror⟩ := repairViaGlobal_lost plaintext missing lost hi hne hlost
      exact ⟨need,have_,hrepair.trans herror⟩

/-- A shard of five bytes, with its local peer lost too. -/
theorem lrc_repair_five :
    ∃ shards shard, encode Gf256.new (List.replicate 5 (ofNat 33)) = .ok shards ∧
      shards[0]? = some shard ∧
      repairOne Gf256.new (eraseAt (insert 0 {4}) shards) (0 : ℕ) = .ok (shard,⟨4,false⟩) := by
  obtain ⟨shards,hencode,_,hrepair⟩ :=
    lrc_repair_exact (replicate 5 (ofNat 33)) (by decide)
  obtain ⟨shard,hshard,_,hglobal,_⟩ := hrepair 0 (by decide) {4}
  refine ⟨shards,shard,hencode,hshard,hglobal ?_ ?_⟩
  · rw [localSurvives_iff 0 {4} 1 4 rfl]
    simp
  · refine ⟨?_,Or.inr ⟨6,Or.inl rfl,by simp⟩⟩
    intro i hi _
    unfold labK at hi
    simp only [Finset.mem_singleton]
    omega

end BackendGauntlet.ObjectStore.Lrc
