import BackendGauntlet.ObjectStoreHaystackVolumes
import BackendGauntlet.Transition

/-! The scan of a volume that was cut off anywhere finds the needles that are whole. -/
namespace BackendGauntlet.ObjectStore

open Transition List Option

def NeedleLocator.stop (l : NeedleLocator) : ℕ := l.payloadOffset+l.size

section
variable (v : VolumeId)

theorem stop_placeNeedles (position : ℕ) (needles : List (Digest × Bytes)) :
    ∀ e ∈ placeNeedles v position needles, position+needleHeaderLen ≤ e.2.stop := by
  induction needles generalizing position with
  | nil => simp [placeNeedles]
  | cons n needles ih =>
    intro e he
    unfold placeNeedles at he
    split_ifs at he with hr
    · rcases mem_cons.mp he with rfl | he
      · simp only [NeedleLocator.stop]
        omega
      · have hrest := ih _ e he
        omega
    · cases he

/-- A cut through a volume leaves whole needles and a torn one. -/
theorem take_needlesBytes (position n : ℕ) (needles : List (Digest × Bytes))
    (hlim : position+(needlesBytes needles).length < offsetLimit) :
    ∃ k tail, (needlesBytes needles).take n = needlesBytes (needles.take k) ++ tail ∧
      TornNeedle tail ∧
      (placeNeedles v position needles).filter (fun e => e.2.stop ≤ position+n) =
        placeNeedles v position (needles.take k) := by
  induction needles generalizing position n with
  | nil => exact ⟨0,[],by simp [needlesBytes],Or.inl rfl,rfl⟩
  | cons x needles ih =>
    have hlen := length_needlesBytes_cons x needles
    have hframe := length_needleFrame x.1 x.2
    have hcons (xs : List (Digest × Bytes)) :
        needlesBytes (x :: xs) = needleFrame x.1 x.2 ++ needlesBytes xs := flatMap_cons
    obtain ⟨hr,hplace⟩ := placeNeedles_cons v position x needles hlim
    by_cases hfit : needleHeaderLen+x.2.length ≤ n
    · -- the first needle is whole, and the cut is further on
      obtain ⟨k,tail,htake,htorn,hfilter⟩ := ih (position+needleHeaderLen+x.2.length)
        (n-(needleHeaderLen+x.2.length)) (by omega)
      refine ⟨k+1,tail,?_,htorn,?_⟩
      · rw [hcons, take_append, take_of_length_le (by omega), hframe, htake,
          take_succ_cons, hcons, append_assoc]
      · have hsum : position+needleHeaderLen+x.2.length+(n-(needleHeaderLen+x.2.length)) =
            position+n := by omega
        rw [hsum] at hfilter
        have hkept : (⟨v,position+needleHeaderLen,x.2.length,hr⟩ : NeedleLocator).stop ≤
            position+n := by
          simp only [NeedleLocator.stop]
          omega
        rw [hplace, filter_cons, if_pos (decide_eq_true hkept), hfilter, take_succ_cons,
          placeNeedles, dif_pos hr]
    · -- the cut is inside the first needle
      refine ⟨0,(needleFrame x.1 x.2).take n,?_,?_,?_⟩
      · rw [hcons, take_append_of_le_length (by omega)]
        rfl
      · refine Or.inr ⟨x.1,x.2,?_, take_prefix _ _,?_⟩
        · simp only [offsetLimit] at hr
          omega
        · intro hwhole
          have hshort := congrArg length hwhole
          rw [length_take, hframe] at hshort
          omega
      · apply filter_eq_nil_iff.mpr
        intro e he
        rw [hplace] at he
        simp only [decide_eq_true_eq, Nat.not_le]
        rcases mem_cons.mp he with rfl | he
        · simp only [NeedleLocator.stop]
          omega
        · have hlater := stop_placeNeedles v _ needles e he
          omega

theorem length_needlesBytes (position : ℕ) (needles : List (Digest × Bytes))
    (hlim : position+(needlesBytes needles).length < offsetLimit) :
    ((placeNeedles v position needles).getLast?.map (fun e => e.2.stop)).getD position =
      position+(needlesBytes needles).length := by
  induction needles generalizing position with
  | nil => rfl
  | cons x needles ih =>
    have hlen := length_needlesBytes_cons x needles
    obtain ⟨hr,hplace⟩ := placeNeedles_cons v position x needles hlim
    have hrest := ih (position+needleHeaderLen+x.2.length) (by omega)
    rw [hplace, getLast?_cons]
    cases hlast : (placeNeedles v (position+needleHeaderLen+x.2.length) needles).getLast? with
    | none =>
      rw [hlast] at hrest
      simp only [map_none, getD_none, map_some, getD_some, NeedleLocator.stop] at hrest ⊢
      omega
    | some e =>
      rw [hlast] at hrest
      simp only [map_some, getD_some] at hrest ⊢
      omega

theorem get_foldl_set (es : List (Digest × NeedleLocator)) (index : NeedleIndex) (d : Digest) :
    (es.foldl (fun m e => m.set e.1 ⟨e.2,false,false⟩) index).get d =
      ((es.reverse.find? (fun e => e.1 = d)).map
        (fun e => (⟨e.2,false,false⟩ : NeedleRecord))).or (index.get d) := by
  induction es generalizing index with
  | nil => rfl
  | cons e es ih =>
    rw [foldl_cons, ih, reverse_cons, find?_append, Dict.get_set]
    cases es.reverse.find? (fun e => e.1 = d) with
    | some found => rfl
    | none =>
      by_cases hd : d = e.1
      · simp [hd]
      · simp [hd, Ne.symm hd]

/-- The loop of the scan ends by itself: more rounds than bytes change nothing. -/
theorem scanNeedles_fuel (fuel fuel' position : ℕ) (rest : Bytes) (h : rest.length ≤ fuel)
    (h' : rest.length ≤ fuel') :
    scanNeedles v fuel position rest = scanNeedles v fuel' position rest := by
  induction fuel generalizing fuel' position rest with
  | zero =>
    have hnil : rest = [] := length_eq_zero_iff.mp (Nat.le_zero.mp h)
    cases fuel' with
    | zero => rfl
    | succ fuel' => simp [scanNeedles, hnil, needleHeaderLen, digestLen]
  | succ fuel ih =>
    by_cases hshort : rest.length < needleHeaderLen
    · cases fuel' with
      | zero | succ fuel' => simp [scanNeedles, hshort]
    · -- a round moves on by a header at least
      have hheader : 0 < needleHeaderLen := by decide
      obtain ⟨fuel',rfl⟩ : ∃ m, fuel' = m+1 := ⟨fuel'-1,by omega⟩
      simp only [scanNeedles, hshort, if_false]
      cases headerDigest (rest.take digestLen) with
      | none => rfl
      | some d =>
        simp only
        split_ifs with hfit hr
        · rfl
        · rw [ih fuel' _ _ (by rw [length_drop]; omega) (by rw [length_drop]; omega)]
        · rfl

end

structure CommitState where
  volumes : Volumes
  active : Option (VolumeId × ℕ)
  recorded : List (Digest × NeedleLocator)

structure Commit where
  digest : Digest
  payload : Bytes
  fresh : VolumeId

def commitStep (maxVolumeSize : ℕ) (s : CommitState) (c : Commit) : Option CommitState :=
  (appendNeedle maxVolumeSize s.active s.volumes c.digest c.payload c.fresh
    (needleFrame c.digest c.payload).length).map (fun p =>
      ⟨p.1,some (p.2.volumeId,p.2.stop),s.recorded ++ [(c.digest,p.2)]⟩)

def noCommits (s : CommitState) : Prop := s = ⟨Dict.empty,none,[]⟩

structure CommitInv (s : CommitState) : Prop where
  file : ∀ v file, s.volumes.get v = some file → ∃ needles,
    file = needlesBytes needles ∧ file.length < offsetLimit ∧
      s.recorded.filter (fun e => e.2.volumeId = v) = placeNeedles v 0 needles
  known : ∀ e ∈ s.recorded, ∃ file, s.volumes.get e.2.volumeId = some file
  active : ∀ v n, s.active = some (v,n) → ∃ file, s.volumes.get v = some file ∧ file.length = n

theorem volumesOk_commitInv {s : CommitState} (hI : CommitInv s) :
    VolumesOk s.volumes s.active where
  framed := by
    intro v file hv
    obtain ⟨needles,rfl,hlen,_⟩ := hI.file v file hv
    exact ⟨needles,hlen,[],Or.inl rfl,by simp⟩
  active := by
    intro v n hact
    obtain ⟨file,hv,hlen⟩ := hI.active v n hact
    obtain ⟨needles,rfl,_⟩ := hI.file v file hv
    exact ⟨needles,hv,hlen⟩

theorem placeNeedles_snoc (v : VolumeId) (position : ℕ) (needles : List (Digest × Bytes))
    (d : Digest) (payload : Bytes) (l : NeedleLocator) (hv : l.volumeId = v)
    (hoff : l.payloadOffset = position+(needlesBytes needles).length+needleHeaderLen)
    (hsize : l.size = payload.length) :
    placeNeedles v position (needles ++ [(d,payload)]) =
      placeNeedles v position needles ++ [(d,l)] := by
  have hrange := l.inRange
  induction needles generalizing position with
  | nil =>
    have hempty : (needlesBytes []).length = 0 := rfl
    obtain ⟨volumeId,payloadOffset,size,inRange⟩ := l
    simp only at hv hoff hsize hrange
    subst hv hsize
    have hpos : payloadOffset = position+needleHeaderLen := by omega
    subst hpos
    simp [placeNeedles, hrange]
  | cons x needles ih =>
    have hlen := length_needlesBytes_cons x needles
    have hr : position+needleHeaderLen+x.2.length < offsetLimit := by omega
    have hrest := ih (position+needleHeaderLen+x.2.length) (by omega)
    rw [cons_append, placeNeedles, dif_pos hr, hrest, placeNeedles, dif_pos hr]
    rfl

theorem commitInv_step {maxVolumeSize : ℕ} {s t : CommitState} {c : Commit} (hI : CommitInv s)
    (ht : commitStep maxVolumeSize s c = some t) : CommitInv t := by
  have hok := volumesOk_commitInv hI
  obtain ⟨⟨result,l⟩,ha,rfl⟩ := map_eq_some_iff.mp ht
  obtain ⟨needles,hold,hnew,hother,hoff,hsize⟩ := appendNeedle_get hok ha
  rw [take_length] at hnew
  have hfile : needlesBytes needles ++ needleFrame c.digest c.payload =
      needlesBytes (needles ++ [(c.digest,c.payload)]) := by simp [needlesBytes]
  have hstop : (needlesBytes (needles ++ [(c.digest,c.payload)])).length = l.stop := by
    rw [← hfile, length_append, length_needleFrame, NeedleLocator.stop, hoff, hsize]
    omega
  rw [hfile] at hnew
  refine ⟨?_,?_,?_⟩
  · intro v file hv
    by_cases hvl : v = l.volumeId
    · subst hvl
      cases hnew.symm.trans hv
      -- before the commit the volume held `needles`, or was not there
      have hplaced : s.recorded.filter (fun e => e.2.volumeId = l.volumeId) =
          placeNeedles l.volumeId 0 needles := by
        rcases hold with hold | ⟨hnone,rfl⟩
        · obtain ⟨needles',hsame,hlim,hplaced⟩ := hI.file _ _ hold
          have hscan := scanNeedles_needles l.volumeId needles [] (Or.inl rfl)
            (needlesBytes needles).length 0 (Nat.le_refl _) (by omega)
          have hscan' := scanNeedles_needles l.volumeId needles' [] (Or.inl rfl)
            (needlesBytes needles).length 0 (by rw [hsame]) (by rw [← hsame]; omega)
          rw [hplaced]
          rw [← hsame] at hscan'
          exact (Prod.mk.inj (hscan'.symm.trans hscan)).1
        · apply filter_eq_nil_iff.mpr
          intro e he
          obtain ⟨file,hfile⟩ := hI.known e he
          simp only [decide_eq_true_eq]
          intro heq
          rw [heq, hnone] at hfile
          cases hfile
      refine ⟨needles ++ [(c.digest,c.payload)],rfl,by rw [hstop]; exact l.inRange,?_⟩
      rw [filter_append, hplaced, placeNeedles_snoc l.volumeId 0 needles c.digest c.payload l
        rfl (by omega) hsize]
      simp
    · rw [hother v hvl] at hv
      obtain ⟨needles',hsame,hlim,hplaced⟩ := hI.file v file hv
      refine ⟨needles',hsame,hlim,?_⟩
      rw [filter_append, hplaced]
      simp [Ne.symm hvl]
  · intro e he
    by_cases hvl : e.2.volumeId = l.volumeId
    · exact ⟨_,by rw [hvl]; exact hnew⟩
    · rcases mem_append.mp he with he | he
      · obtain ⟨file,hfile⟩ := hI.known e he
        exact ⟨file,(hother _ hvl).trans hfile⟩
      · rw [mem_singleton.mp he] at hvl
        exact absurd rfl hvl
  · intro v n hact
    cases hact
    exact ⟨_,hnew,hstop⟩

theorem commitInv_reachable {maxVolumeSize : ℕ} {s : CommitState}
    (hs : Reachable noCommits (commitStep maxVolumeSize) anyStep s) : CommitInv s := by
  apply reachable_invariant CommitInv ?_ ?_ s hs
  · rintro s rfl
    refine ⟨?_,?_,?_⟩
    · intro v file hv
      cases hv
    · intro e he
      cases he
    · intro v n hact
      cases hact
  · intro s t c hI _ ht
    exact commitInv_step hI ht

/-- A volume cut off after any number of bytes: the scan indexes the needles before the cut and cuts
the file after the last of them; a second scan changes nothing. -/
theorem scan_recovers_whole_needles (maxVolumeSize : ℕ) (s : CommitState)
    (hs : Reachable noCommits (commitStep maxVolumeSize) anyStep s) (v : VolumeId) (file : Bytes)
    (hv : s.volumes.get v = some file) (n : ℕ) :
    let whole := s.recorded.filter (fun e => e.2.volumeId = v ∧ e.2.stop ≤ n)
    (∀ d, (scanVolume v (file.take n) Dict.empty).get d =
      (whole.reverse.find? (fun e => e.1 = d)).map (fun e => ⟨e.2,false,false⟩)) ∧
    truncateTorn v (file.take n) = file.take ((whole.getLast?.map (fun e => e.2.stop)).getD 0) ∧
    scanVolume v (truncateTorn v (file.take n)) Dict.empty = scanVolume v (file.take n) Dict.empty ∧
    truncateTorn v (truncateTorn v (file.take n)) = truncateTorn v (file.take n) ∧
    ∀ (content : Bytes) (fuel : ℕ), content.length ≤ fuel →
      scanNeedles v fuel 0 content = scanNeedles v content.length 0 content := by
  intro whole
  obtain ⟨needles,rfl,hlim,hplaced⟩ := (commitInv_reachable hs).file v file hv
  obtain ⟨k,tail,htake,htorn,hfilter⟩ := take_needlesBytes v 0 n needles (by omega)
  rw [Nat.zero_add] at hfilter
  have hwhole : whole = placeNeedles v 0 (needles.take k) := by
    rw [← hfilter, ← hplaced, List.filter_filter]
    apply filter_congr
    intro e _
    rw [Bool.decide_and, Bool.and_comm]
  have hsplit : needlesBytes needles =
      needlesBytes (needles.take k) ++ needlesBytes (needles.drop k) := by
    rw [needlesBytes, needlesBytes, needlesBytes, ← flatMap_append, take_append_drop]
  have hfront : 0+(needlesBytes (needles.take k)).length < offsetLimit := by
    rw [hsplit, length_append] at hlim
    omega
  -- both files are the needles before the cut, with a torn one or nothing after them
  have hscan (rest : Bytes) (hrest : TornNeedle rest) :
      scanNeedles v (needlesBytes (needles.take k) ++ rest).length 0
        (needlesBytes (needles.take k) ++ rest) =
        (whole,(needlesBytes (needles.take k)).length) := by
    rw [scanNeedles_needles v (needles.take k) rest hrest _ 0 (by simp) hfront, Nat.zero_add,
      hwhole]
  have hcut := hscan tail htorn
  have hagain := hscan [] (Or.inl rfl)
  have htruncate : truncateTorn v ((needlesBytes needles).take n) =
      needlesBytes (needles.take k) := by
    rw [truncateTorn, htake, hcut, take_left]
  rw [append_nil] at hagain
  refine ⟨?_,?_,?_,?_,?_⟩
  · intro d
    rw [scanVolume, htake, hcut, get_foldl_set, Dict.get_empty, or_none]
  · have hend := length_needlesBytes v 0 (needles.take k) hfront
    rw [Nat.zero_add] at hend
    rw [htruncate, hwhole, hend, hsplit, take_left]
  · rw [htruncate, scanVolume, hagain, scanVolume, htake, hcut]
  · rw [htruncate, truncateTorn, hagain, take_length]
  · intro content fuel hfuel
    exact scanNeedles_fuel v fuel content.length 0 content hfuel (Nat.le_refl _)

/-- Two needles of one digest, the file cut off a byte before the end of the second. -/
theorem scan_recovers_first_needle : ∃ s file,
    Reachable noCommits (commitStep 1000) anyStep s ∧ s.volumes.get volumeA = some file ∧
      (scanVolume volumeA (file.take 146) Dict.empty).get abcDigest =
        some ⟨⟨volumeA,72,1,by decide⟩,false,false⟩ ∧
      truncateTorn volumeA (file.take 146) = file.take 73 := by
  obtain ⟨s,hs,hfile,hrecorded⟩ := reachable_of_run noCommits (commitStep 1000)
    (P := fun s => (s.volumes.get volumeA).isSome = true ∧ s.recorded =
      [(abcDigest,⟨volumeA,72,1,by decide⟩), (abcDigest,⟨volumeA,145,2,by decide⟩)])
    [⟨abcDigest,[7],volumeA⟩, ⟨abcDigest,[8, 9],volumeB⟩] ⟨Dict.empty,none,[]⟩ rfl
    (by decide +kernel)
  obtain ⟨file,hv⟩ := isSome_iff_exists.mp hfile
  obtain ⟨hindex,htruncate,_⟩ := scan_recovers_whole_needles 1000 s hs volumeA file hv 146
  rw [hrecorded] at hindex htruncate
  exact ⟨s,file,hs,hv,(hindex abcDigest).trans (by decide +kernel),
    htruncate.trans (congrArg (fun stop => file.take stop) (by decide +kernel))⟩

end BackendGauntlet.ObjectStore
