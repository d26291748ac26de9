import BackendGauntlet.ObjectStoreHaystackCompaction

/-! Needles by their number in a volume, and what a locator of one reads. -/
namespace BackendGauntlet.ObjectStore

open List

def NeedleAt (needles : List (Digest × Bytes)) (d : Digest) (l : NeedleLocator) (payload : Bytes) :
    Prop :=
  ∃ i, needles[i]? = some (d,payload) ∧
    l.payloadOffset = (needlesBytes (needles.take i)).length+needleHeaderLen ∧
    l.size = payload.length

theorem needlesBytes_append (front back : List (Digest × Bytes)) :
    needlesBytes (front ++ back) = needlesBytes front ++ needlesBytes back :=
  flatMap_append

theorem needlesBytes_cons (n : Digest × Bytes) (needles : List (Digest × Bytes)) :
    needlesBytes (n :: needles) = needleFrame n.1 n.2 ++ needlesBytes needles :=
  flatMap_cons

theorem needlesBytes_split {needles : List (Digest × Bytes)} {i : ℕ} {n : Digest × Bytes}
    (hi : needles[i]? = some n) :
    needlesBytes needles = needlesBytes (needles.take i) ++
      (needleFrame n.1 n.2 ++ needlesBytes (needles.drop (i+1))) := by
  obtain ⟨hlt,hn⟩ := List.getElem?_eq_some_iff.mp hi
  have hdrop : needles.drop i = n :: needles.drop (i+1) := by
    rw [← hn]
    exact drop_eq_getElem_cons hlt
  calc needlesBytes needles
      = needlesBytes (needles.take i ++ needles.drop i) := by rw [take_append_drop]
    _ = needlesBytes (needles.take i) ++ needlesBytes (n :: needles.drop (i+1)) := by
      rw [needlesBytes_append, hdrop]
    _ = _ := by rw [needlesBytes_cons]

section
variable (needles : List (Digest × Bytes)) (d : Digest) (l : NeedleLocator) (payload : Bytes)

theorem mem_of_needleAt (h : NeedleAt needles d l payload) : (d,payload) ∈ needles := by
  obtain ⟨i,hi,_⟩ := h
  exact mem_of_getElem? hi

/-- A locator of a needle reads its payload. -/
theorem slice_needleAt (h : NeedleAt needles d l payload) :
    slice (needlesBytes needles) l.payloadOffset l.size = payload := by
  obtain ⟨i,hi,hoff,hsize⟩ := h
  have hneedle := slice_needle (needlesBytes (needles.take i)) d payload
  have hgrown := slice_append (needlesBytes (needles.drop (i+1))) (congrArg length hneedle)
  rw [needlesBytes_split hi, ← append_assoc, hoff, hsize, hgrown, hneedle]

theorem needleAt_append {more : List (Digest × Bytes)} (h : NeedleAt needles d l payload) :
    NeedleAt (needles ++ more) d l payload := by
  obtain ⟨i,hi,hoff,hsize⟩ := h
  obtain ⟨hlt,_⟩ := List.getElem?_eq_some_iff.mp hi
  refine ⟨i,?_,?_,hsize⟩
  · rw [getElem?_append_left hlt, hi]
  · rw [take_append_of_le_length (Nat.le_of_lt hlt), hoff]

theorem needleAt_snoc
    (hoff : l.payloadOffset = (needlesBytes needles).length+needleHeaderLen)
    (hsize : l.size = payload.length) : NeedleAt (needles ++ [(d,payload)]) d l payload := by
  refine ⟨needles.length,?_,?_,hsize⟩
  · simp
  · rw [take_left, hoff]

end

theorem mem_placeNeedles (v : VolumeId) (needles : List (Digest × Bytes)) (position : ℕ)
    (hlim : position+(needlesBytes needles).length < offsetLimit) (d : Digest)
    (l : NeedleLocator) :
    (d,l) ∈ placeNeedles v position needles ↔ l.volumeId = v ∧ ∃ i payload,
      needles[i]? = some (d,payload) ∧
      l.payloadOffset = position+(needlesBytes (needles.take i)).length+needleHeaderLen ∧
      l.size = payload.length := by
  induction needles generalizing position with
  | nil => simp [placeNeedles]
  | cons n needles ih =>
    obtain ⟨hr,hplace⟩ := placeNeedles_cons v position n needles hlim
    have hlen := length_needlesBytes_cons n needles
    have hrest := ih (position+needleHeaderLen+n.2.length) (by omega)
    rw [hplace, mem_cons, hrest]
    constructor
    · rintro (heq | ⟨hv,i,payload,hi,hoff,hsize⟩)
      · cases heq
        exact ⟨rfl,0,n.2,rfl,rfl,rfl⟩
      · refine ⟨hv,i+1,payload,hi,?_,hsize⟩
        rw [take_succ_cons, length_needlesBytes_cons, hoff]
        omega
    · rintro ⟨hv,i,payload,hi,hoff,hsize⟩
      cases i with
      | zero =>
        obtain rfl : n = (d,payload) := Option.some.inj hi
        obtain ⟨volumeId,payloadOffset,size,inRange⟩ := l
        simp only at hv hoff hsize
        subst hv hsize
        have hzero : (needlesBytes (take 0 ((d,payload) :: needles))).length = 0 := rfl
        have hpos : payloadOffset = position+needleHeaderLen := by omega
        subst hpos
        exact Or.inl rfl
      | succ i =>
        rw [take_succ_cons, length_needlesBytes_cons] at hoff
        exact Or.inr ⟨hv,i,payload,hi,by omega,hsize⟩

/-- A scan finds the needles of a volume, with their locators. -/
theorem mem_scanNeedles (v : VolumeId) {needles : List (Digest × Bytes)}
    (hlim : (needlesBytes needles).length < offsetLimit) (d : Digest) (l : NeedleLocator) :
    (d,l) ∈ (scanNeedles v (needlesBytes needles).length 0 (needlesBytes needles)).1 ↔
      l.volumeId = v ∧ ∃ payload, NeedleAt needles d l payload := by
  have hscan := scanNeedles_needles v needles [] (Or.inl rfl) (needlesBytes needles).length 0
    (Nat.le_refl _) (by omega)
  rw [append_nil] at hscan
  rw [hscan, mem_placeNeedles v needles 0 (by omega)]
  simp only [Nat.zero_add]
  constructor
  · rintro ⟨hv,i,payload,h⟩
    exact ⟨hv,payload,i,h⟩
  · rintro ⟨hv,payload,i,h⟩
    exact ⟨hv,i,payload,h⟩

/-- A rebuilt row is live and was found in some volume. -/
theorem get_rebuild_eq_some {volumes : Volumes} {d : Digest} {r : NeedleRecord}
    (h : (rebuildFromVolumes volumes).get d = some r) :
    r = ⟨r.locator,false,false⟩ ∧ ∃ v file, volumes.get v = some file ∧
      (d,r.locator) ∈ (scanNeedles v file.length 0 file).1 := by
  have hscan (es : List (Digest × NeedleLocator)) (index : NeedleIndex)
      (hr : (es.foldl (fun m e => m.set e.1 ⟨e.2,false,false⟩) index).get d = some r) :
      index.get d = some r ∨ r = ⟨r.locator,false,false⟩ ∧ (d,r.locator) ∈ es := by
    induction es generalizing index with
    | nil => exact Or.inl hr
    | cons e es ih =>
      rcases ih _ hr with hset | ⟨hflags,hmem⟩
      · rcases Dict.eq_or_get_of_get_set hset with ⟨rfl,rfl⟩ | ⟨_,hold⟩
        · exact Or.inr ⟨rfl,mem_cons_self⟩
        · exact Or.inl hold
      · exact Or.inr ⟨hflags,mem_cons_of_mem e hmem⟩
  have hfold (vs : List (VolumeId × Bytes)) (index : NeedleIndex)
      (hr : (vs.foldl (fun m e => scanVolume e.1 e.2 m) index).get d = some r) :
      index.get d = some r ∨ r = ⟨r.locator,false,false⟩ ∧
        ∃ e ∈ vs, (d,r.locator) ∈ (scanNeedles e.1 e.2.length 0 e.2).1 := by
    induction vs generalizing index with
    | nil => exact Or.inl hr
    | cons e vs ih =>
      rcases ih _ hr with hset | ⟨hflags,e',he',hmem⟩
      · rcases hscan _ _ hset with hold | ⟨hflags,hmem⟩
        · exact Or.inl hold
        · exact Or.inr ⟨hflags,e,mem_cons_self,hmem⟩
      · exact Or.inr ⟨hflags,e',mem_cons_of_mem e he',hmem⟩
  rcases hfold _ _ h with hempty | ⟨hflags,e,he,hmem⟩
  · cases hempty
  · exact ⟨hflags,e.1,e.2,Dict.get_eq_some_iff.mpr ((mem_insertionSort _).mp he),hmem⟩

section
variable (needles : List (Digest × Bytes)) (i : ℕ) (x : Digest) (old bytes : Bytes)
  (hi : needles[i]? = some (x,old)) (hlen : bytes.length = old.length)
include hi hlen

theorem length_take_overwritten (k : ℕ) :
    (needlesBytes ((needles.set i (x,bytes)).take k)).length =
      (needlesBytes (needles.take k)).length := by
  induction needles generalizing i k with
  | nil => rfl
  | cons n needles ih =>
    cases k with
    | zero => rfl
    | succ k =>
      cases i with
      | zero =>
        obtain rfl : n = (x,old) := Option.some.inj hi
        rw [set_cons_zero, take_succ_cons, take_succ_cons,
          length_needlesBytes_cons, length_needlesBytes_cons, hlen]
      | succ i =>
        rw [set_cons_succ, take_succ_cons, take_succ_cons,
          length_needlesBytes_cons, length_needlesBytes_cons, ih i hi k]

/-- Overwriting the payload of one digest leaves the needles of the others. -/
theorem needleAt_overwritten {d : Digest} {l : NeedleLocator} {payload : Bytes} (hd : d ≠ x)
    (h : NeedleAt needles d l payload) : NeedleAt (needles.set i (x,bytes)) d l payload := by
  obtain ⟨k,hk,hoff,hsize⟩ := h
  have hne : i ≠ k := by
    rintro rfl
    rw [hi] at hk
    exact hd (congrArg Prod.fst (Option.some.inj hk)).symm
  refine ⟨k,?_,?_,hsize⟩
  · rw [getElem?_set_ne hne, hk]
  · rw [length_take_overwritten needles i x old bytes hi hlen, hoff]

theorem needleAt_overwritten_self {d : Digest} {l : NeedleLocator} {payload : Bytes}
    (h : NeedleAt needles d l payload) :
    ∃ payload', NeedleAt (needles.set i (x,bytes)) d l payload' := by
  obtain ⟨k,hk,hoff,hsize⟩ := h
  have hplace := length_take_overwritten needles i x old bytes hi hlen k
  by_cases hik : i = k
  · subst hik
    rw [hi] at hk
    cases hk
    obtain ⟨hlt,_⟩ := List.getElem?_eq_some_iff.mp hi
    exact ⟨bytes,i,getElem?_set_self hlt,by rw [hplace, hoff],by rw [hsize, hlen]⟩
  · exact ⟨payload,k,by rw [getElem?_set_ne hik, hk],by rw [hplace, hoff],hsize⟩

theorem writeAt_payload {position : ℕ}
    (hpos : position = (needlesBytes (needles.take i)).length+needleHeaderLen) :
    writeAt (needlesBytes needles) position bytes = needlesBytes (needles.set i (x,bytes)) := by
  obtain ⟨hlt,_⟩ := List.getElem?_eq_some_iff.mp hi
  have hnew : (needles.set i (x,bytes))[i]? = some (x,bytes) := getElem?_set_self hlt
  have htake : (needles.set i (x,bytes)).take i = needles.take i :=
    take_set_of_le (Nat.le_refl i)
  have hdrop : (needles.set i (x,bytes)).drop (i+1) = needles.drop (i+1) :=
    drop_set_of_lt (Nat.lt_succ_self i)
  have hold := needlesBytes_split hi
  have hset := needlesBytes_split hnew
  rw [htake, hdrop] at hset
  -- both volumes have the same header in front of the payload
  generalize needlesBytes (needles.take i) = before at hold hset hpos
  generalize needlesBytes (needles.drop (i+1)) = after at hold hset
  have hheader : position = (before ++ (x.text.map Char.toNat ++ packSize old.length)).length := by
    rw [hpos, length_append, length_append, length_map, x.length_text, packSize, length_packBytes]
    rfl
  have hfile : needlesBytes needles =
      (before ++ (x.text.map Char.toNat ++ packSize old.length)) ++ (old ++ after) := by
    rw [hold]
    simp [needleFrame]
  rw [writeAt, hset, hfile, hheader, take_left, hlen, ← drop_drop, drop_left, drop_left]
  simp [needleFrame, hlen]

end

def copies (src : Bytes) (live : List (Digest × NeedleLocator)) : List (Digest × Bytes) :=
  live.map (fun e => (e.1,slice src e.2.payloadOffset e.2.size))

/-- Compaction writes the live needles one after another and returns where. -/
theorem copyNeedles_eq (src : Bytes) (new : VolumeId) (live : List (Digest × NeedleLocator))
    (start : ℕ) (out : Bytes) (moved : List (Digest × NeedleLocator))
    (hstart : start < offsetLimit) (h : copyNeedles src new live start = .ok (out,moved)) :
    out = needlesBytes (copies src live) ∧ moved = placeNeedles new start (copies src live) ∧
      start+out.length < offsetLimit := by
  induction live generalizing start out moved with
  | nil =>
    obtain ⟨rfl,rfl⟩ := Prod.mk.inj (Except.ok.inj h)
    exact ⟨rfl,rfl,by simpa using hstart⟩
  | cons e rest ih =>
    obtain ⟨d,l⟩ := e
    simp only [copyNeedles] at h
    split_ifs at h with hshort hr
    have hfull : (slice src l.payloadOffset l.size).length = l.size :=
      Nat.le_antisymm (length_take_le _ _) (Nat.not_lt.mp hshort)
    cases hrec : copyNeedles src new rest (start+needleHeaderLen+l.size) with
    | error e => simp [hrec, bind, Except.bind] at h
    | ok p =>
      obtain ⟨out',moved'⟩ := p
      simp only [hrec, bind, Except.bind, pure, Except.pure, Except.ok.injEq, Prod.mk.injEq] at h
      obtain ⟨rfl,rfl⟩ := h
      obtain ⟨hout,hmoved,hlim⟩ := ih _ out' moved' hr hrec
      refine ⟨?_,?_,?_⟩
      · rw [hout]
        exact (needlesBytes_cons (d,slice src l.payloadOffset l.size) (copies src rest)).symm
      · simp only [copies, map_cons, placeNeedles, hfull]
        rw [dif_pos hr, hmoved]
        rfl
      · rw [length_append, length_needleFrame, hfull]
        omega

end BackendGauntlet.ObjectStore
