import BackendGauntlet.ObjectStoreHaystackLog

/-! Volume files: whole needles with at most one torn at the end. -/
namespace BackendGauntlet.ObjectStore

open List Option

theorem unpackSize_packBytes (k n : ℕ) (hn : n < 256^k) : unpackSize (packBytes k n) = n := by
  induction k generalizing n with
  | zero =>
    have h0 : n = 0 := by simpa using hn
    simp [packBytes, unpackSize, h0]
  | succ k ih =>
    have hdiv : n/256 < 256^k := Nat.div_lt_of_lt_mul (by rw [Nat.pow_succ] at hn; omega)
    have hrest := ih (n/256) hdiv
    simp only [unpackSize] at hrest
    simp only [packBytes, unpackSize, foldr_cons, hrest]
    omega

theorem length_packBytes (k n : ℕ) : (packBytes k n).length = k := by
  induction k generalizing n with
  | zero => rfl
  | succ k ih => simp [packBytes, ih]

theorem length_needleFrame (d : Digest) (payload : Bytes) :
    (needleFrame d payload).length = needleHeaderLen+payload.length := by
  simp only [needleFrame, length_append, length_map, d.length_text, packSize,
    length_packBytes, needleHeaderLen, digestLen]
  omega

theorem headerDigest_text (d : Digest) : headerDigest (d.text.map Char.toNat) = some d := by
  have hascii : (d.text.map Char.toNat).all (fun b => b < 128) = true := by
    rw [List.all_eq_true]
    intro b hb
    obtain ⟨c,hc,rfl⟩ := List.mem_map.mp hb
    have hp := Json.plain_bounds (digest_char hc).1
    exact decide_eq_true (by omega)
  have hback : (d.text.map Char.toNat).map Char.ofNat = d.text := by
    rw [List.map_map]
    conv_rhs => rw [← List.map_id d.text]
    exact map_congr_left (fun c _ => Char.ofNat_toNat c)
  simp [headerDigest, hascii, hback, Digest.new_text, Except.toOption]

theorem header_of_frame (d : Digest) {n : ℕ} (hn : n < 2^64) (rest : Bytes) :
    headerDigest ((d.text.map Char.toNat ++ (packSize n ++ rest)).take digestLen) = some d ∧
      unpackSize (((d.text.map Char.toNat ++ (packSize n ++ rest)).drop digestLen).take 8) = n := by
  have hl : (d.text.map Char.toNat).length = digestLen := by simp [d.length_text, digestLen]
  have hp : (packSize n).length = 8 := length_packBytes 8 n
  constructor
  · rw [take_append_of_le_length (by omega), take_of_length_le (by omega), headerDigest_text]
  · rw [← hl, drop_left, ← hp, take_left]
    exact unpackSize_packBytes 8 n (by simpa using hn)

def needlesBytes (needles : List (Digest × Bytes)) : Bytes :=
  needles.flatMap (fun n => needleFrame n.1 n.2)

def TornNeedle (tail : Bytes) : Prop :=
  tail = [] ∨ ∃ d payload, payload.length < 2^64 ∧ tail <+: needleFrame d payload ∧
    tail ≠ needleFrame d payload

variable (v : VolumeId)

theorem scanNeedles_torn (fuel position : ℕ) {tail : Bytes} (ht : TornNeedle tail) :
    scanNeedles v fuel position tail = ([],position) := by
  cases fuel with
  | zero => rfl
  | succ fuel =>
    rcases ht with rfl | ⟨d,payload,hp,hpre,hne⟩
    · simp [scanNeedles, needleHeaderLen, digestLen]
    · by_cases hshort : tail.length < needleHeaderLen
      · simp [scanNeedles, hshort]
      · obtain ⟨rest,hrest⟩ := hpre
        have hlen : tail.length < (needleFrame d payload).length := by
          rw [← hrest, length_append]
          have : rest ≠ [] := by
            rintro rfl
            exact hne (by simpa using hrest)
          have := length_pos_iff.mpr this
          omega
        rw [length_needleFrame] at hlen
        -- The header is whole, so it is the header of the needle that was being written.
        have hhead : d.text.map Char.toNat ++ packSize payload.length <+: tail := by
          have hframe :
              d.text.map Char.toNat ++ packSize payload.length <+: needleFrame d payload :=
            ⟨payload,by simp [needleFrame]⟩
          apply prefix_of_prefix_length_le hframe ⟨rest,hrest⟩
          simp only [needleHeaderLen, digestLen] at hshort
          simp only [length_append, length_map, d.length_text, packSize, length_packBytes]
          omega
        obtain ⟨t,rfl⟩ := hhead
        rw [append_assoc] at hshort hlen ⊢
        obtain ⟨hd,hz⟩ := header_of_frame d hp t
        simp only [scanNeedles, hshort, if_false, hd, hz, hlen, if_true]

def placeNeedles (v : VolumeId) : ℕ → List (Digest × Bytes) → List (Digest × NeedleLocator)
  | _, [] => []
  | position, n :: needles =>
    if hr : position+needleHeaderLen+n.2.length < offsetLimit then
      (n.1,⟨v,position+needleHeaderLen,n.2.length,hr⟩) ::
        placeNeedles v (position+needleHeaderLen+n.2.length) needles
    else []

theorem length_needlesBytes_cons (n : Digest × Bytes) (needles : List (Digest × Bytes)) :
    (needlesBytes (n :: needles)).length =
      needleHeaderLen+n.2.length+(needlesBytes needles).length := by
  simp [needlesBytes, length_needleFrame]

theorem placeNeedles_cons (position : ℕ) (n : Digest × Bytes)
    (needles : List (Digest × Bytes))
    (hlim : position+(needlesBytes (n :: needles)).length < offsetLimit) :
    ∃ hr, placeNeedles v position (n :: needles) =
      (n.1,⟨v,position+needleHeaderLen,n.2.length,hr⟩) ::
        placeNeedles v (position+needleHeaderLen+n.2.length) needles := by
  rw [length_needlesBytes_cons] at hlim
  have hr : position+needleHeaderLen+n.2.length < offsetLimit := by omega
  exact ⟨hr,by rw [placeNeedles, dif_pos hr]⟩

theorem map_fst_placeNeedles (position : ℕ) (needles : List (Digest × Bytes))
    (hlim : position+(needlesBytes needles).length < offsetLimit) :
    (placeNeedles v position needles).map Prod.fst = needles.map Prod.fst := by
  induction needles generalizing position with
  | nil => rfl
  | cons n needles ih =>
    obtain ⟨hr,hplace⟩ := placeNeedles_cons v position n needles hlim
    rw [length_needlesBytes_cons] at hlim
    rw [hplace, map_cons, map_cons, ih _ (by omega)]

/-- The scan finds the needles of a volume, in order, and nothing of a torn one. -/
theorem scanNeedles_needles (needles : List (Digest × Bytes)) (tail : Bytes)
    (ht : TornNeedle tail) (fuel position : ℕ) (hf : (needlesBytes needles).length ≤ fuel)
    (hlim : position+(needlesBytes needles).length < offsetLimit) :
    scanNeedles v fuel position (needlesBytes needles ++ tail) =
      (placeNeedles v position needles,position+(needlesBytes needles).length) := by
  induction needles generalizing fuel position with
  | nil =>
    have h := scanNeedles_torn v fuel position ht
    simp [needlesBytes, placeNeedles, h]
  | cons n needles ih =>
    have hlen := length_needlesBytes_cons n needles
    obtain ⟨hr,hplace⟩ := placeNeedles_cons v position n needles hlim
    obtain ⟨fuel,rfl⟩ : ∃ m, fuel = m+1 := ⟨fuel-1,by
      simp only [needleHeaderLen, digestLen] at hlen
      omega⟩
    have hbytes : needlesBytes (n :: needles) ++ tail =
        n.1.text.map Char.toNat ++
          (packSize n.2.length ++ (n.2 ++ (needlesBytes needles ++ tail))) := by
      simp [needlesBytes, needleFrame]
    have hn : n.2.length < 2^64 := by
      simp only [offsetLimit] at hlim
      omega
    obtain ⟨hd,hz⟩ := header_of_frame n.1 hn (n.2 ++ (needlesBytes needles ++ tail))
    have hshort : ¬ (needlesBytes (n :: needles) ++ tail).length < needleHeaderLen := by
      rw [length_append, hlen]
      omega
    have hfit : ¬ (needlesBytes (n :: needles) ++ tail).length < needleHeaderLen+n.2.length := by
      rw [length_append, hlen]
      omega
    have hdrop : (needlesBytes (n :: needles) ++ tail).drop (needleHeaderLen+n.2.length) =
        needlesBytes needles ++ tail := by
      rw [← length_needleFrame n.1 n.2]
      simp [needlesBytes]
    have hih := ih fuel (position+needleHeaderLen+n.2.length)
      (by simp only [needleHeaderLen, digestLen] at hlen; omega) (by omega)
    rw [← hbytes] at hd hz
    simp only [scanNeedles, hshort, if_false, hd, hz, hfit, hr, dif_pos, hdrop, hih, hplace,
      Prod.mk.injEq, true_and]
    omega

def Framed (file : Bytes) (needles : List (Digest × Bytes)) : Prop :=
  file.length < offsetLimit ∧ ∃ tail, TornNeedle tail ∧ file = needlesBytes needles ++ tail

/-- A scan finds the whole needles in their order. -/
theorem scanNeedles_framed {file : Bytes} {needles : List (Digest × Bytes)}
    (h : Framed file needles) :
    (scanNeedles v file.length 0 file).1.map Prod.fst = needles.map Prod.fst ∧
      truncateTorn v file = needlesBytes needles := by
  obtain ⟨hlim,tail,ht,rfl⟩ := h
  rw [length_append] at hlim
  have hscan := scanNeedles_needles v needles tail ht (needlesBytes needles ++ tail).length 0
    (by simp) (by omega)
  rw [truncateTorn, hscan, Nat.zero_add, take_left]
  exact ⟨map_fst_placeNeedles v 0 needles (by omega),rfl⟩

theorem framed_truncateTorn {file : Bytes} {needles : List (Digest × Bytes)}
    (h : Framed file needles) : Framed (truncateTorn v file) needles := by
  rw [(scanNeedles_framed v h).2]
  obtain ⟨hlim,tail,_,rfl⟩ := h
  rw [length_append] at hlim
  exact ⟨by omega,[],Or.inl rfl,by simp⟩

theorem get_foldl_set_eq_none (es : List (Digest × NeedleLocator)) (index : NeedleIndex)
    (d : Digest) :
    (es.foldl (fun m e => m.set e.1 ⟨e.2,false,false⟩) index).get d = none ↔
      index.get d = none ∧ d ∉ es.map Prod.fst := by
  induction es generalizing index with
  | nil => simp
  | cons e es ih =>
    rw [foldl_cons, ih, Dict.get_set]
    by_cases hd : d = e.1
    · simp [hd]
    · simp [hd]

/-- A scan of all volumes has a row for a digest exactly when some volume has a needle of it. -/
theorem get_rebuild_eq_none {volumes : Volumes} (d : Digest) :
    (rebuildFromVolumes volumes).get d = none ↔ ∀ v file, volumes.get v = some file →
        d ∉ (scanNeedles v file.length 0 file).1.map Prod.fst := by
  have hfold (vs : List (VolumeId × Bytes)) (index : NeedleIndex) :
      (vs.foldl (fun m e => scanVolume e.1 e.2 m) index).get d = none ↔
        index.get d = none ∧ ∀ e ∈ vs, d ∉ (scanNeedles e.1 e.2.length 0 e.2).1.map Prod.fst := by
    induction vs generalizing index with
    | nil => simp
    | cons e vs ih =>
      rw [foldl_cons, ih, scanVolume, get_foldl_set_eq_none, forall_mem_cons, and_assoc]
  rw [rebuildFromVolumes, hfold]
  constructor
  · rintro ⟨_,h⟩ v file hv
    exact h (v,file) ((mem_insertionSort _).mpr (Dict.get_eq_some_iff.mp hv))
  · intro h
    refine ⟨rfl,fun e he => ?_⟩
    exact h e.1 e.2 (Dict.get_eq_some_iff.mpr ((mem_insertionSort _).mp he))

theorem slice_needle (before : Bytes) (d : Digest) (payload : Bytes) :
    slice (before ++ needleFrame d payload) (before.length+needleHeaderLen) payload.length =
      payload := by
  have hbytes : before ++ needleFrame d payload =
      before ++ (d.text.map Char.toNat ++ packSize payload.length) ++ payload := by
    simp [needleFrame]
  have hlen : before.length+needleHeaderLen =
      (before ++ (d.text.map Char.toNat ++ packSize payload.length)).length := by
    simp [d.length_text, packSize, length_packBytes, needleHeaderLen, digestLen]
  rw [slice, hbytes, hlen, drop_left, take_length]

def HasNeedle (volumes : Volumes) (x : Digest) : Prop :=
  ∃ v file, volumes.get v = some file ∧ x ∈ (scanNeedles v file.length 0 file).1.map Prod.fst

structure VolumesOk (volumes : Volumes) (active : Option (VolumeId × ℕ)) : Prop where
  framed : ∀ v file, volumes.get v = some file → ∃ needles, Framed file needles
  active : ∀ v n, active = some (v,n) →
    ∃ needles, volumes.get v = some (needlesBytes needles) ∧ (needlesBytes needles).length = n

section
variable (maxVolumeSize : ℕ) (active : Option (VolumeId × ℕ)) (volumes : Volumes) (d : Digest)
  (payload : Bytes) (fresh : VolumeId) (written : ℕ) (result : Volumes) (l : NeedleLocator)
  (hok : VolumesOk volumes active)
  (ha : appendNeedle maxVolumeSize active volumes d payload fresh written = some (result,l))
include hok ha

variable {maxVolumeSize active volumes d payload fresh written result l}

theorem appendNeedle_get : ∃ needles,
    (volumes.get l.volumeId = some (needlesBytes needles) ∨
      volumes.get l.volumeId = none ∧ needles = []) ∧
    result.get l.volumeId = some (needlesBytes needles ++ (needleFrame d payload).take written) ∧
    (∀ v, v ≠ l.volumeId → result.get v = volumes.get v) ∧
    l.payloadOffset = (needlesBytes needles).length+needleHeaderLen ∧
      l.size = payload.length := by
  have hwrite (file chunk : Bytes) : writeAt file file.length chunk = file ++ chunk := by
    simp [writeAt, drop_eq_nil_of_le]
  unfold appendNeedle at ha
  split at ha
  · simp at ha
  · rename_i v start opened he
    split_ifs at ha with hr
    cases ha
    unfold ensureActive at he
    split at he
    · rename_i v' next hf
      simp only [some.injEq, Prod.mk.injEq] at he
      obtain ⟨rfl,rfl,rfl⟩ := he
      have hact := (filter_eq_some_iff.mp hf).1
      obtain ⟨needles,hg,hlen⟩ := hok.active _ _ hact
      refine ⟨needles,Or.inl hg,?_,fun v hv => ?_,by rw [hlen],rfl⟩
      · simp [Dict.get_modify, hg, ← hlen, hwrite]
      · simp [Dict.get_modify, hv]
    · split_ifs at he with hfresh
      simp only [some.injEq, Prod.mk.injEq] at he
      obtain ⟨rfl,rfl,rfl⟩ := he
      have hnone := Dict.get_of_not_contains hfresh
      refine ⟨[],Or.inr ⟨hnone,rfl⟩,?_,fun w hw => ?_,rfl,rfl⟩
      · simp [Dict.get_modify, writeAt, needlesBytes]
      · simp [Dict.get_modify, hw, Dict.get_set_ne]

theorem appendNeedle_framed : ∃ needles,
    Framed (needlesBytes needles ++ (needleFrame d payload).take written)
      (if (needleFrame d payload).length ≤ written then needles ++ [(d,payload)] else needles) ∧
    result.get l.volumeId = some (needlesBytes needles ++ (needleFrame d payload).take written) ∧
    (∀ x ∈ needles.map Prod.fst, HasNeedle volumes x) := by
  obtain ⟨needles,hold,hnew,_,hoff,hsize⟩ :=
    appendNeedle_get hok ha
  have hr := l.inRange
  rw [hoff, hsize] at hr
  have hlen : (needlesBytes needles ++ (needleFrame d payload).take written).length <
      offsetLimit := by
    rw [length_append, length_take, length_needleFrame]
    omega
  refine ⟨needles,⟨hlen,?_⟩,hnew,?_⟩
  · split_ifs with hw
    · refine ⟨[],Or.inl rfl,?_⟩
      rw [take_of_length_le hw]
      simp [needlesBytes]
    · refine ⟨_,Or.inr ⟨d,payload,?_, take_prefix _ _,?_⟩,rfl⟩
      · simp only [offsetLimit] at hr
        omega
      · intro h
        have := congrArg length h
        rw [length_take] at this
        omega
  · intro x hx
    rcases hold with hold | ⟨_,rfl⟩
    · have hframed : Framed (needlesBytes needles) needles :=
        ⟨by omega,[],Or.inl rfl,by simp⟩
      exact ⟨l.volumeId,_,hold,by rwa [(scanNeedles_framed l.volumeId hframed).1]⟩
    · simp at hx

theorem volumesOk_append : VolumesOk result none := by
  obtain ⟨_,_,_,hother,_⟩ :=
    appendNeedle_get hok ha
  obtain ⟨needles,hframed,hnew,_⟩ :=
    appendNeedle_framed hok ha
  refine ⟨fun v file hv => ?_,by simp⟩
  by_cases hl : v = l.volumeId
  · rw [hl, hnew] at hv
    exact ⟨_,some.inj hv ▸ hframed⟩
  · rw [hother v hl] at hv
    exact hok.framed v file hv

theorem hasNeedle_append {x : Digest} (hx : HasNeedle result x) :
    HasNeedle volumes x ∨ x = d ∧ (needleFrame d payload).length ≤ written := by
  obtain ⟨_,_,_,hother,_⟩ :=
    appendNeedle_get hok ha
  obtain ⟨needles,hframed,hnew,hhas⟩ :=
    appendNeedle_framed hok ha
  obtain ⟨v,file,hv,hm⟩ := hx
  by_cases hl : v = l.volumeId
  · subst hl
    rw [hnew] at hv
    rw [← some.inj hv, (scanNeedles_framed l.volumeId hframed).1] at hm
    split_ifs at hm with hw
    · rw [map_append, mem_append] at hm
      rcases hm with hm | hm
      · exact Or.inl (hhas x hm)
      · exact Or.inr ⟨by simpa using hm,hw⟩
    · exact Or.inl (hhas x hm)
  · rw [hother v hl] at hv
    exact Or.inl ⟨v,file,hv,hm⟩

/-- What could be read before an append is read after it. -/
theorem readRegion_append (l' : NeedleLocator) (content : Bytes)
    (hc : readRegion volumes l' = some content) (hl : content.length = l'.size) :
    readRegion result l' = some content := by
  obtain ⟨needles,hold,hnew,hother,_⟩ :=
    appendNeedle_get hok ha
  unfold readRegion at hc ⊢
  obtain ⟨file,hf,hs⟩ := map_eq_some_iff.mp hc
  by_cases hv : l'.volumeId = l.volumeId
  · rw [hv] at hf ⊢
    rw [hnew, map_some]
    rcases hold with hold | ⟨hold,_⟩
    · have hfile : needlesBytes needles = file := some.inj (hold.symm.trans hf)
      have hfull : (slice file l'.payloadOffset l'.size).length = l'.size := by rw [hs, hl]
      rw [hfile, slice_append _ hfull, hs]
    · rw [hold] at hf
      simp at hf
  · rw [hother _ hv, hf, map_some, hs]

theorem readRegion_appended (hw : (needleFrame d payload).length ≤ written) :
    readRegion result l = some payload ∧ payload.length = l.size := by
  obtain ⟨needles,_,hnew,_,hoff,hsize⟩ :=
    appendNeedle_get hok ha
  refine ⟨?_,hsize.symm⟩
  rw [readRegion, hnew, map_some, take_of_length_le hw, hoff, hsize, slice_needle]

theorem volumesOk_appended (hw : (needleFrame d payload).length ≤ written) :
    VolumesOk result (some (l.volumeId,l.payloadOffset+l.size)) := by
  obtain ⟨needles,_,hnew,_,hoff,hsize⟩ :=
    appendNeedle_get hok ha
  refine ⟨(volumesOk_append hok ha).framed,?_⟩
  rintro v n ⟨⟩
  refine ⟨needles ++ [(d,payload)],?_,?_⟩
  · rw [hnew, take_of_length_le hw]
    simp [needlesBytes]
  · rw [hoff, hsize]
    simp [needlesBytes, length_needleFrame, Nat.add_assoc]

end

theorem appendNeedle_volume {maxVolumeSize : ℕ} {active : Option (VolumeId × ℕ)} {volumes : Volumes}
    {d : Digest} {payload : Bytes} {fresh : VolumeId} {written : ℕ} {result : Volumes}
    {l : NeedleLocator}
    (ha : appendNeedle maxVolumeSize active volumes d payload fresh written = some (result,l)) :
    (∃ n, active = some (l.volumeId,n)) ∨ l.volumeId = fresh := by
  unfold appendNeedle at ha
  split at ha
  · simp at ha
  · rename_i v start opened he
    split_ifs at ha
    cases ha
    unfold ensureActive at he
    split at he
    · rename_i v' next hf
      simp only [some.injEq, Prod.mk.injEq] at he
      obtain ⟨rfl,rfl,_⟩ := he
      exact Or.inl ⟨_,(filter_eq_some_iff.mp hf).1⟩
    · split_ifs at he
      simp only [some.injEq, Prod.mk.injEq] at he
      exact Or.inr he.1.symm

def volumeA : VolumeId := ⟨"11111111-1111-4111-8111-111111111111".toList,by decide⟩
def volumeB : VolumeId := ⟨"22222222-2222-4222-8222-222222222222".toList,by decide⟩

end BackendGauntlet.ObjectStore
