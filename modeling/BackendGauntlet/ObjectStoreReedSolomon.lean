import BackendGauntlet.LinearCode
import BackendGauntlet.ObjectStoreGf256

/-! The systematic code RS(4,2), and how any four of the six shards give the data back. -/
namespace BackendGauntlet.ObjectStore.ReedSolomon

open Gf LinearCode List Option

def rsK : ℕ := 4

def rsM : ℕ := 2

def rsN : ℕ := rsK+rsM

def qCoefficients : List Gf := [ofNat 1, ofNat 2, ofNat 4, ofNat 8]

structure Shard where
  id : ℕ
  data : List Gf
deriving DecidableEq

def cell (m : List (List Gf)) (row col : ℕ) : Gf := (m.getD row []).getD col 0

def padded (plaintext : List Gf) : List Gf :=
  let remainder := plaintext.length%rsK
  if remainder = 0 then plaintext else plaintext ++ List.replicate (rsK-remainder) 0

def shardLen (plaintext : List Gf) : ℕ := (padded plaintext).length/rsK

def dataShard (plaintext : List Gf) (i : ℕ) : List Gf :=
  ((padded plaintext).drop (i*shardLen plaintext)).take (shardLen plaintext)

def parityP (plaintext : List Gf) : List Gf :=
  (List.range (shardLen plaintext)).map (fun column =>
    accumulate rsK (fun index => (dataShard plaintext index).getD column 0))

def parityQ (gf : Gf256) (plaintext : List Gf) : List Gf :=
  (List.range (shardLen plaintext)).map (fun column =>
    accumulate rsK (fun index =>
      gf.mul (qCoefficients.getD index 0) ((dataShard plaintext index).getD column 0)))

def encode (gf : Gf256) (plaintext : List Gf) : Except ErasureError (List Shard) :=
  if plaintext = [] then .error (.invalidLayout "plaintext must be non-empty")
  else
    .ok ((List.range rsK).map (fun index => ⟨index,dataShard plaintext index⟩) ++
      [⟨rsK,parityP plaintext⟩, ⟨rsK+1,parityQ gf plaintext⟩])

def generatorRow (shardId : ℕ) : Except ErasureError (List Gf) :=
  if shardId < rsK then
    .ok ((List.range rsK).map (fun column => if column = shardId then ofNat 1 else 0))
  else if shardId = rsK then .ok [ofNat 1, ofNat 1, ofNat 1, ofNat 1]
  else if shardId = rsK+1 then .ok qCoefficients
  else .error (.invalidLayout ("shard id " ++ toString shardId ++ " out of range for RS(4,2)"))

section
variable (gf : Gf256)

def clearColumn (column : ℕ) (augmented : List (List Gf)) : List (List Gf) :=
  (List.range rsK).foldl (fun a row =>
    if row = column then a
    else
      let factor := cell a row column
      if factor = 0 then a
      else a.set row (List.zipWith (fun c p => c+gf.mul factor p)
        (a.getD row []) (a.getD column []))) augmented

def eliminate (augmented : List (List Gf)) (column : ℕ) : Except ErasureError (List (List Gf)) :=
  match (List.range' column (rsK-column)).find? (fun row => cell augmented row column ≠ 0) with
  | none => .error (.singular ("zero pivot in column " ++ toString column ++
      " while inverting the survivor submatrix"))
  | some pivot =>
    let swapped :=
      if pivot ≠ column then
        (augmented.set pivot (augmented.getD column [])).set column (augmented.getD pivot [])
      else augmented
    match gf.inv (cell swapped column column) with
    | .error e => .error e
    | .ok pivotInverse =>
      let scaled := swapped.set column
        ((swapped.getD column []).map (fun c => gf.mul c pivotInverse))
      .ok (clearColumn gf column scaled)

/-- `ReedSolomon.invert`, from `[A | I]` to `[I | A⁻¹]`. -/
def invert (matrix : List (List Gf)) : Except ErasureError (List (List Gf)) :=
  let augmented := matrix.mapIdx (fun i row =>
    row ++ (List.range rsK).map (fun j => if i = j then ofNat 1 else 0))
  ((List.range rsK).foldlM (eliminate gf) augmented).map (fun a => a.map (List.drop rsK))

def survivors (shards : List (Option Shard)) : List (ℕ × Shard) :=
  (List.range shards.length).filterMap (fun index =>
    (shards.getD index none).map (fun shard => (index,shard)))

def recover (chosen : List (ℕ × Shard)) (shardLen : ℕ) (inverse : List (List Gf)) : List Gf :=
  (List.range rsK).flatMap (fun row =>
    (List.range shardLen).map (fun column =>
      accumulate rsK (fun col =>
        gf.mul (cell inverse row col) (cell (chosen.map (fun c => c.2.data)) col column))))

def reconstruct (shards : List (Option Shard)) : Except ErasureError (List Gf) :=
  if shards.length ≠ rsN then
    .error (.invalidLayout ("expected " ++ toString rsN ++ " shard slots, got " ++
      toString shards.length))
  else
    let found := survivors shards
    if found.length < rsK then .error (.tooManyErasures rsK found.length)
    else
      let chosen := found.take rsK
      let shardLen := (chosen.head?.map (fun c => c.2.data.length)).getD 0
      if chosen.any (fun c => c.2.data.length ≠ shardLen) then
        .error (.invalidLayout "survivor shards have unequal lengths")
      else do
        let submatrix ← chosen.mapM (fun c => generatorRow c.1)
        let inverse ← invert gf submatrix
        .ok (recover gf chosen shardLen inverse)

end

def eraseAt (lost : Finset ℕ) (shards : List Shard) : List (Option Shard) :=
  shards.mapIdx (fun index shard => if index ∈ lost then none else some shard)

def rowOf (i : ℕ) : List Gf := (generatorRow i).toOption.getD []

def recovers (positions : List ℕ) : Bool :=
  match invert Gf256.new (positions.map rowOf) with
  | .error _ => false
  | .ok inverse =>
    (List.range rsK).all (fun r => (List.range rsK).all (fun j =>
      accumulate rsK (fun c => Gf256.new.mul (cell inverse r c) (cell (positions.map rowOf) c j)) =
        if r = j then ofNat 1 else 0))

/-- Any four of the six rows are independent, and the elimination finds their inverse. -/
theorem recovers_of_four : ∀ ps ∈ (range rsN).sublistsLen rsK, recovers ps = true := by
  decide +kernel

variable (plaintext : List Gf)

theorem length_padded :
    (padded plaintext).length = rsK*shardLen plaintext := by
  have hdvd : rsK ∣ (padded plaintext).length := by
    simp only [padded]
    split_ifs with h
    · exact Nat.dvd_of_mod_eq_zero h
    · simp only [rsK] at h ⊢
      rw [length_append, length_replicate]
      omega
  exact (Nat.mul_div_cancel' hdvd).symm

theorem length_dataShard (i : ℕ) (hi : i < rsK) :
    (dataShard plaintext i).length = shardLen plaintext := by
  have hle : i*shardLen plaintext+shardLen plaintext ≤ rsK*shardLen plaintext := by
    rw [← Nat.succ_mul]
    exact Nat.mul_le_mul_right _ hi
  rw [dataShard, length_take, length_drop, length_padded]
  omega

theorem flatMap_pieces {α : Type} (l : List α) (n k : ℕ) :
    (range k).flatMap (fun i => (l.drop (i*n)).take n) = l.take (k*n) := by
  induction k with
  | zero => simp
  | succ k ih =>
    rw [range_succ, flatMap_append, ih, Nat.succ_mul, take_add]
    simp

theorem map_getD_range {α : Type} (l : List α) (d : α) (n : ℕ) (hn : l.length = n) :
    (range n).map (fun i => l.getD i d) = l := by
  subst hn
  apply ext_getElem
  · simp
  · intro i h1 h2
    simp [getD_eq_getElem?_getD, h2]

def shardAt (plaintext : List Gf) (i : ℕ) : Shard :=
  if i < rsK then ⟨i,dataShard plaintext i⟩
  else if i = rsK then ⟨i,parityP plaintext⟩
  else ⟨i,parityQ Gf256.new plaintext⟩

theorem encode_eq (h : plaintext ≠ []) :
    encode Gf256.new plaintext = .ok ((range rsN).map (shardAt plaintext)) := by
  rw [encode, if_neg h]
  rfl

theorem length_shardAt (i : ℕ) :
    (shardAt plaintext i).data.length = shardLen plaintext := by
  unfold shardAt
  split_ifs with h1 h2
  · exact length_dataShard plaintext i h1
  · simp [parityP]
  · simp [parityQ]

theorem generatorRow_eq {i : ℕ} (hi : i < rsN) : generatorRow i = .ok (rowOf i) := by
  have h : ∀ i < 6, generatorRow i = .ok (rowOf i) := by decide +kernel
  exact h i hi

theorem rowOf_data {i j : ℕ} (hi : i < rsK) (hj : j < rsK) :
    (rowOf i).getD j 0 = if j = i then 1 else 0 := by
  have h : ∀ i < 4, ∀ j < 4, (rowOf i).getD j 0 = if j = i then ofNat 1 else 0 := by
    decide +kernel
  exact h i hi j hj

theorem rowOf_p {j : ℕ} (hj : j < rsK) : (rowOf rsK).getD j 0 = 1 := by
  have h : ∀ j < 4, (rowOf 4).getD j 0 = ofNat 1 := by decide +kernel
  exact h j hj

/-- Every shard is the combination of the data shards that its generator row gives. -/
theorem shardAt_column {plaintext : List Gf} {i column : ℕ} (hi : i < rsN)
    (hc : column < shardLen plaintext) :
    (shardAt plaintext i).data.getD column 0 =
      accumulate rsK (fun j => (rowOf i).getD j 0*(dataShard plaintext j).getD column 0) := by
  have hmap (f : ℕ → Gf) : ((range (shardLen plaintext)).map f).getD column 0 = f column := by
    simp [getD_eq_getElem?_getD, hc]
  by_cases hdata : i < rsK
  · -- the code is systematic: a data row picks its own shard
    rw [shardAt, if_pos hdata, accumulate_eq_sum, Finset.sum_eq_single i]
    · rw [rowOf_data hdata hdata, if_pos rfl, one_mul]
    · intro j hj hne
      rw [rowOf_data hdata (Finset.mem_range.mp hj), if_neg hne, zero_mul]
    · intro hn
      exact absurd (Finset.mem_range.mpr hdata) hn
  · by_cases hp : i = rsK
    · rw [shardAt, if_neg hdata, if_pos hp, hp]
      simp only [parityP, hmap, accumulate_eq_sum]
      apply Finset.sum_congr rfl
      intro j hj
      rw [rowOf_p (Finset.mem_range.mp hj), one_mul]
    · -- the row of Q has the coefficients of its loop
      have hq : i = rsK+1 := by unfold rsN rsM at hi; omega
      rw [shardAt, if_neg hdata, if_neg hp, hq]
      simp only [parityQ, hmap, Gf256.mul_new]
      rfl

theorem getD_eraseAt (lost : Finset ℕ) (f : ℕ → Shard) {n i : ℕ} (hi : i < n) :
    (eraseAt lost ((range n).map f)).getD i none = if i ∈ lost then none else some (f i) := by
  simp [eraseAt, getD_eq_getElem?_getD, hi]

theorem survivors_eraseAt (lost : Finset ℕ) (f : ℕ → Shard) (n : ℕ) :
    survivors (eraseAt lost ((range n).map f)) =
      ((range n).filter (fun i => i ∉ lost)).map (fun i => (i,f i)) := by
  have hlen : (eraseAt lost ((range n).map f)).length = n := by simp [eraseAt]
  have hcongr : survivors (eraseAt lost ((range n).map f)) =
      (range n).filterMap (fun i => if i ∈ lost then none else some (i,f i)) := by
    rw [survivors, hlen]
    apply filterMap_congr
    intro i hi
    rw [getD_eraseAt lost f (mem_range.mp hi)]
    split_ifs <;> rfl
  rw [hcongr]
  induction range n with
  | nil => rfl
  | cons i l ih => by_cases h : i ∈ lost <;> simp [h, ih]

theorem length_kept {lost : Finset ℕ} (h : lost.card ≤ rsM) :
    rsK ≤ ((range rsN).filter (fun i => i ∉ lost)).length := by
  have hlost : ((range rsN).filter (fun i => i ∈ lost)).length ≤ lost.card := by
    rw [← toFinset_card_of_nodup (nodup_range.filter _)]
    apply Finset.card_le_card
    intro i hi
    simpa using (mem_filter.mp (List.mem_toFinset.mp hi)).2
  have hsum := length_eq_length_filter_add (l := range rsN) (fun i => i ∈ lost)
  simp only [length_range, rsN, decide_not] at hsum hlost ⊢
  omega

theorem mapM_generatorRow {ps : List ℕ} (h : ∀ i ∈ ps, i < rsN) :
    ps.mapM generatorRow = .ok (ps.map rowOf) := by
  induction ps with
  | nil => rfl
  | cons i ps ih =>
    rw [forall_mem_cons] at h
    rw [mapM_cons, generatorRow_eq h.1, ih h.2]
    rfl

theorem recover_shardAt {ps : List ℕ} (hps : ∀ i ∈ ps, i < rsN)
    (hlen : ps.length = rsK) (hrec : recovers ps = true) :
    ∃ inverse, invert Gf256.new (ps.map rowOf) = .ok inverse ∧
      recover Gf256.new (ps.map (fun i => (i,shardAt plaintext i))) (shardLen plaintext) inverse =
        padded plaintext := by
  unfold recovers at hrec
  split at hrec
  · cases hrec
  · rename_i inverse hinv
    refine ⟨inverse,hinv,?_⟩
    have hleft : ∀ r < rsK, ∀ j < rsK,
        accumulate rsK (fun c => cell inverse r c*cell (ps.map rowOf) c j) =
          if r = j then 1 else 0 := by
      intro r hr j hj
      have h := List.all_eq_true.mp (List.all_eq_true.mp hrec r (mem_range.mpr hr)) j
        (mem_range.mpr hj)
      simp only [Gf256.mul_new, decide_eq_true_eq] at h
      exact h
    -- what the shards at `ps` hold in one column, as an image of the data
    have hobs (column col : ℕ) (hc : column < shardLen plaintext) (hcol : col < rsK) :
        cell ((ps.map (fun i => (i,shardAt plaintext i))).map (fun c => c.2.data)) col column =
          accumulate rsK (fun j => cell (ps.map rowOf) col j *
            (dataShard plaintext j).getD column 0) := by
      have hp : col < ps.length := by rw [hlen]; exact hcol
      have hrow : (ps.map rowOf).getD col [] = rowOf (ps.get ⟨col,hp⟩) := by
        simp [getD_eq_getElem?_getD, hp]
      have hshard : ((ps.map (fun i => (i,shardAt plaintext i))).map (fun c => c.2.data)).getD
          col [] = (shardAt plaintext (ps.get ⟨col,hp⟩)).data := by
        simp [getD_eq_getElem?_getD, hp]
      rw [cell, hshard, shardAt_column (hps _ (List.get_mem ps ⟨col,hp⟩)) hc]
      simp only [cell, hrow]
    -- column by column, the inverse takes what the shards hold back to the data
    have hrow (row : ℕ) (hr : row < rsK) :
        (range (shardLen plaintext)).map (fun column => accumulate rsK (fun col =>
          Gf256.new.mul (cell inverse row col)
            (cell ((ps.map (fun i => (i,shardAt plaintext i))).map (fun c => c.2.data))
              col column))) = dataShard plaintext row := by
      rw [← map_getD_range (dataShard plaintext row) 0 _ (length_dataShard plaintext row hr)]
      apply map_congr_left
      intro column hc
      rw [← accumulate_leftInverse (cell inverse) (cell (ps.map rowOf)) hleft
        (fun j => (dataShard plaintext j).getD column 0) hr]
      apply accumulate_congr
      intro col hcol
      rw [Gf256.mul_new, hobs column col (mem_range.mp hc) hcol]
    have hrows : recover Gf256.new (ps.map (fun i => (i,shardAt plaintext i)))
        (shardLen plaintext) inverse = (range rsK).flatMap (dataShard plaintext) := by
      rw [recover]
      apply flatMap_congr
      intro row hr
      exact hrow row (mem_range.mp hr)
    rw [hrows]
    have hjoin := flatMap_pieces (padded plaintext) (shardLen plaintext) rsK
    rw [take_of_length_le (Nat.le_of_eq (length_padded plaintext))] at hjoin
    exact hjoin

theorem length_survivors (slots : List (Option Shard)) :
    (survivors slots).length = (slots.filter isSome).length := by
  have hslots := map_getD_range slots none _ rfl
  calc (survivors slots).length
      = (range slots.length).countP (fun i => (slots.getD i none).isSome) := by
        rw [survivors, length_filterMap_eq_countP]
        simp
    _ = ((range slots.length).map (fun i => slots.getD i none)).countP isSome := by
        rw [countP_map]
        rfl
    _ = (slots.filter isSome).length := by rw [hslots, countP_eq_length_filter]

theorem reconstruct_tooFew (gf : Gf256) {slots : List (Option Shard)} (hlen : slots.length = rsN)
    (h : (slots.filter isSome).length < rsK) :
    reconstruct gf slots = .error (.tooManyErasures rsK (slots.filter isSome).length) := by
  rw [← length_survivors] at h ⊢
  simp [reconstruct, hlen, h]

theorem reconstruct_eraseAt {lost : Finset ℕ} (h : lost.card ≤ rsM) :
    reconstruct Gf256.new (eraseAt lost ((range rsN).map (shardAt plaintext))) =
      .ok (padded plaintext) := by
  have hslots : (eraseAt lost ((range rsN).map (shardAt plaintext))).length = rsN := by
    simp [eraseAt]
  have hkept := length_kept h
  -- the first four survivors sit at four of the six positions, in order
  let kept := (range rsN).filter (fun i => i ∉ lost)
  have hsub : (kept.take rsK).Sublist (range rsN) :=
    (take_sublist _ _).trans filter_sublist
  have hlen : (kept.take rsK).length = rsK := by
    rw [length_take]
    exact Nat.min_eq_left hkept
  have hlt : ∀ i ∈ kept.take rsK, i < rsN := by
    intro i hi
    exact mem_range.mp (hsub.subset hi)
  obtain ⟨inverse,hinv,hrecover⟩ := recover_shardAt plaintext hlt hlen
    (recovers_of_four _ (mem_sublistsLen.mpr ⟨hsub,hlen⟩))
  -- the checks of `reconstruct`, in its order: enough survivors, of one length, with rows
  have hchosen : (survivors (eraseAt lost ((range rsN).map (shardAt plaintext)))).take rsK =
      (kept.take rsK).map (fun i => (i,shardAt plaintext i)) := by
    rw [survivors_eraseAt, map_take]
  have hfound : ¬ (survivors (eraseAt lost ((range rsN).map (shardAt plaintext)))).length <
      rsK := by
    rw [survivors_eraseAt, length_map]
    exact Nat.not_lt.mpr hkept
  have hhead : (((kept.take rsK).map (fun i => (i,shardAt plaintext i))).head?.map
      (fun c => c.2.data.length)).getD 0 = shardLen plaintext := by
    obtain ⟨i,rest,hcons⟩ := exists_cons_of_length_pos
      (show 0 < (kept.take rsK).length by rw [hlen]; decide)
    rw [hcons]
    exact length_shardAt plaintext i
  have hequal : ((kept.take rsK).map (fun i => (i,shardAt plaintext i))).any
      (fun c => c.2.data.length ≠ shardLen plaintext) = false := by
    apply List.any_eq_false.mpr
    intro c hc
    obtain ⟨i,_,rfl⟩ := List.mem_map.mp hc
    simp [length_shardAt]
  have hrows : ((kept.take rsK).map (fun i => (i,shardAt plaintext i))).mapM
      (fun c => generatorRow c.1) = .ok ((kept.take rsK).map rowOf) := by
    rw [mapM_map]
    exact mapM_generatorRow hlt
  simp only [reconstruct, hslots, ne_eq, not_true_eq_false, if_false, hfound, hchosen, hhead]
  rw [if_neg (by rw [hequal]; decide), hrows]
  simp only [bind, Except.bind, hinv, hrecover]

theorem padded_eq :
    ∃ n < rsK, padded plaintext = plaintext ++ replicate n 0 := by
  simp only [padded]
  split_ifs with h
  · exact ⟨0,by decide,by simp⟩
  · have hlt : plaintext.length%rsK < rsK := Nat.mod_lt _ (by decide)
    exact ⟨rsK-plaintext.length%rsK,by omega,rfl⟩

/-- Any two of the six shards may be lost; with fewer than four left, the loss is reported. -/
theorem reedSolomon_recovers (plaintext : List Gf) (h : plaintext ≠ []) :
    ∃ shards, encode Gf256.new plaintext = .ok shards ∧ shards.length = 6 ∧
      (∃ n < 4, 4 ∣ plaintext.length+n ∧ ∀ lost : Finset ℕ, lost.card ≤ 2 →
        reconstruct Gf256.new (eraseAt lost shards) = .ok (plaintext ++ List.replicate n 0)) ∧
      ∀ slots : List (Option Shard), slots.length = 6 →
        (slots.filter Option.isSome).length < 4 → reconstruct Gf256.new slots =
          .error (.tooManyErasures 4 (slots.filter Option.isSome).length) := by
  obtain ⟨n,hn,hpadded⟩ := padded_eq plaintext
  have hdvd : 4 ∣ plaintext.length+n := by
    have hlen := length_padded plaintext
    rw [hpadded, length_append, length_replicate] at hlen
    exact ⟨shardLen plaintext,hlen⟩
  refine ⟨_,encode_eq plaintext h,by simp [rsN, rsK, rsM],⟨n,hn,hdvd,?_⟩,?_⟩
  · intro lost hlost
    rw [reconstruct_eraseAt plaintext hlost, hpadded]
  · intro slots hlen hfew
    exact reconstruct_tooFew Gf256.new hlen hfew

theorem reedSolomon_recovers_seven :
    ∃ shards, encode Gf256.new (List.replicate 7 (ofNat 33)) = .ok shards ∧ shards.length = 6 ∧
      (∃ n < 4, 4 ∣ (List.replicate 7 (ofNat 33)).length+n ∧
        ∀ lost : Finset ℕ, lost.card ≤ 2 → reconstruct Gf256.new (eraseAt lost shards) =
          .ok (List.replicate 7 (ofNat 33) ++ List.replicate n 0)) ∧
      ∀ slots : List (Option Shard), slots.length = 6 →
        (slots.filter Option.isSome).length < 4 → reconstruct Gf256.new slots =
          .error (.tooManyErasures 4 (slots.filter Option.isSome).length) :=
  reedSolomon_recovers (replicate 7 (ofNat 33)) (by decide)

end BackendGauntlet.ObjectStore.ReedSolomon
