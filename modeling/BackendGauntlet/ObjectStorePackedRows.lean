import BackendGauntlet.ObjectStoreNeedles

/-! The rows of a Haystack and the needles they stand for. -/
namespace BackendGauntlet.ObjectStore

open Option Dict

def Scanned (volumes : Volumes) (d : Digest) (l : NeedleLocator) : Prop :=
  ∃ file, volumes.get l.volumeId = some file ∧ (d,l) ∈ (scanNeedles l.volumeId file.length 0 file).1

def Packed (volumes : Volumes) (index : NeedleIndex) (d : Digest) (payload : Bytes) : Prop :=
  ∃ r, index.get d = some r ∧ r.isLive = true ∧ readRegion volumes r.locator = some payload ∧
    payload.length = r.locator.size

variable {d : Digest} {l : NeedleLocator}

theorem live_of_packed {volumes : Volumes} {index : NeedleIndex} {payload : Bytes}
    (h : Packed volumes index d payload) {r : NeedleRecord} (hr : index.get d = some r) :
    r.isLive = true := by
  obtain ⟨r',hr',hlive,_⟩ := h
  rw [some.inj (hr.symm.trans hr')]
  exact hlive

def Whole (good : Digest → Bytes → Prop) (file : Bytes) : Prop :=
  ∃ needles, file = needlesBytes needles ∧ file.length < offsetLimit ∧
    ∀ n ∈ needles, good n.1 n.2

structure PackedInv (good : Digest → Bytes → Prop) (volumes : Volumes) (index : NeedleIndex)
    (active : Option (VolumeId × ℕ)) : Prop where
  whole : ∀ v file, volumes.get v = some file → Whole good file
  rows : ∀ d r, index.get d = some r → Scanned volumes d r.locator
  active : ∀ v n, active = some (v,n) → ∃ file, volumes.get v = some file ∧ file.length = n

theorem scanned_iff {volumes : Volumes} (d : Digest)
    {needles : List (Digest × Bytes)} (hv : volumes.get l.volumeId = some (needlesBytes needles))
    (hlim : (needlesBytes needles).length < offsetLimit) :
    Scanned volumes d l ↔ ∃ payload, NeedleAt needles d l payload := by
  constructor
  · rintro ⟨file,hfile,hmem⟩
    cases hv.symm.trans hfile
    exact ((mem_scanNeedles l.volumeId hlim d l).mp hmem).2
  · intro h
    exact ⟨_,hv,(mem_scanNeedles l.volumeId hlim d l).mpr ⟨rfl,h⟩⟩

theorem scanned_congr (volumes result : Volumes) (d : Digest) (l : NeedleLocator)
    (h : result.get l.volumeId = volumes.get l.volumeId) :
    Scanned result d l ↔ Scanned volumes d l := by
  unfold Scanned
  rw [h]

section
variable (good : Digest → Bytes → Prop) (volumes : Volumes) (index : NeedleIndex)
  (active : Option (VolumeId × ℕ)) (hI : PackedInv good volumes index active)
include hI

variable {good volumes index active}

theorem region_scanned (h : Scanned volumes d l) :
    ∃ payload, readRegion volumes l = some payload ∧ payload.length = l.size ∧ good d payload := by
  obtain ⟨file,hfile,_⟩ := id h
  obtain ⟨needles,rfl,hlim,hgood⟩ := hI.whole _ file hfile
  obtain ⟨payload,hat⟩ := (scanned_iff d hfile hlim).mp h
  obtain ⟨_,_,_,hsize⟩ := id hat
  refine ⟨payload,?_,hsize.symm,hgood _ (mem_of_needleAt _ _ _ _ hat)⟩
  rw [readRegion, hfile, map_some, slice_needleAt needles d l payload hat]

theorem packed_of_live {r : NeedleRecord} (hr : index.get d = some r)
    (hlive : r.isLive = true) : ∃ payload, Packed volumes index d payload := by
  obtain ⟨payload,hregion,hlen,_⟩ :=
    region_scanned hI (hI.rows d r hr)
  exact ⟨payload,r,hr,hlive,hregion,hlen⟩

theorem good_packed {payload : Bytes} (h : Packed volumes index d payload) :
    good d payload := by
  obtain ⟨r,hr,_,hregion,_⟩ := h
  obtain ⟨payload',hregion',_,hgood⟩ :=
    region_scanned hI (hI.rows d r hr)
  rw [some.inj (hregion.symm.trans hregion')]
  exact hgood

theorem volumesOk_packedInv : VolumesOk volumes active where
  framed := by
    intro v file hv
    obtain ⟨needles,rfl,hlim,_⟩ := hI.whole v file hv
    exact ⟨needles,hlim,[],Or.inl rfl,by simp⟩
  active := by
    intro v n hact
    obtain ⟨file,hv,hlen⟩ := hI.active v n hact
    obtain ⟨needles,rfl,_⟩ := hI.whole v file hv
    exact ⟨needles,hv,hlen⟩

theorem packedInv_rows (index' : NeedleIndex)
    (h : ∀ d r, index'.get d = some r → ∃ r', index.get d = some r' ∧ r.locator = r'.locator) :
    PackedInv good volumes index' active := by
  refine ⟨hI.whole,?_,hI.active⟩
  intro d r hr
  obtain ⟨r',hr',hl⟩ := h d r hr
  rw [hl]
  exact hI.rows d r' hr'

theorem packedInv_seal (old : VolumeId) :
    PackedInv good volumes index (active.filter (fun a => a.1 ≠ old)) := by
  refine ⟨hI.whole,hI.rows,?_⟩
  intro v n hact
  exact hI.active v n (filter_eq_some_iff.mp hact).1

theorem packedInv_closed : PackedInv good volumes index none := by
  refine ⟨hI.whole,hI.rows,?_⟩
  intro v n hact
  cases hact

section
variable (maxVolumeSize : ℕ) (d : Digest) (payload : Bytes) (fresh : VolumeId) (result : Volumes)
  (l : NeedleLocator)
  (ha : appendNeedle maxVolumeSize active volumes d payload fresh (needleFrame d payload).length =
    some (result,l))
include ha

theorem appended_get : ∃ needles,
    (volumes.get l.volumeId = some (needlesBytes needles) ∨
      volumes.get l.volumeId = none ∧ needles = []) ∧
    (∀ n ∈ needles, good n.1 n.2) ∧
    result.get l.volumeId = some (needlesBytes (needles ++ [(d,payload)])) ∧
    (needlesBytes (needles ++ [(d,payload)])).length = l.payloadOffset+l.size ∧
    NeedleAt (needles ++ [(d,payload)]) d l payload ∧
    ∀ v, v ≠ l.volumeId → result.get v = volumes.get v := by
  obtain ⟨found,hold,hnew,hother,hoff,hsize⟩ := appendNeedle_get (volumesOk_packedInv hI) ha
  rw [List.take_length] at hnew
  -- the needles that were found there may be split otherwise than into the good ones
  obtain ⟨needles,hbytes,hold,hgood⟩ : ∃ needles, needlesBytes found = needlesBytes needles ∧
      (volumes.get l.volumeId = some (needlesBytes needles) ∨
        volumes.get l.volumeId = none ∧ needles = []) ∧ ∀ n ∈ needles, good n.1 n.2 := by
    rcases hold with hold | ⟨hnone,rfl⟩
    · obtain ⟨needles,hbytes,_,hgood⟩ := hI.whole _ _ hold
      exact ⟨needles,hbytes,Or.inl (hbytes ▸ hold),hgood⟩
    · exact ⟨[],rfl,Or.inr ⟨hnone,rfl⟩,by simp⟩
  rw [hbytes] at hnew hoff
  have hsnoc : needlesBytes (needles ++ [(d,payload)]) =
      needlesBytes needles ++ needleFrame d payload := by simp [needlesBytes]
  refine ⟨needles,hold,hgood,by rw [hsnoc, hnew],?_,
    needleAt_snoc needles d l payload hoff hsize,hother⟩
  rw [hsnoc, List.length_append, length_needleFrame, hoff, hsize]
  omega

theorem scanned_appended {x : Digest} {l' : NeedleLocator} (h : Scanned volumes x l') :
    Scanned result x l' := by
  obtain ⟨needles,hold,_,hnew,hlen,_,hother⟩ :=
    appended_get hI maxVolumeSize d payload fresh result l ha
  have hlim : (needlesBytes (needles ++ [(d,payload)])).length < offsetLimit := hlen ▸ l.inRange
  by_cases hv : l'.volumeId = l.volumeId
  · rw [scanned_iff x (by rw [hv, hnew]) hlim]
    rcases hold with hold | ⟨hnone,_⟩
    · have hshort : (needlesBytes needles).length < offsetLimit := by
        rw [needlesBytes_append, List.length_append] at hlim
        omega
      obtain ⟨q,hq⟩ := (scanned_iff x (by rw [hv, hold]) hshort).mp h
      exact ⟨q,needleAt_append needles x l' q hq⟩
    · obtain ⟨file,hfile,_⟩ := h
      rw [hv, hnone] at hfile
      cases hfile
  · exact (scanned_congr volumes result x l' (hother _ hv)).mpr h

/-- After a commit every row still stands for a needle. -/
theorem packedInv_append (hgood : good d payload) :
    PackedInv good result (index.set d ⟨l,false,false⟩)
      (some (l.volumeId,l.payloadOffset+l.size)) := by
  obtain ⟨needles,_,hgoods,hnew,hlen,hat,hother⟩ :=
    appended_get hI maxVolumeSize d payload fresh result l ha
  have hlim : (needlesBytes (needles ++ [(d,payload)])).length < offsetLimit := hlen ▸ l.inRange
  refine ⟨?_,?_,?_⟩
  · intro v file hv
    by_cases hvl : v = l.volumeId
    · rw [hvl, hnew] at hv
      refine ⟨needles ++ [(d,payload)],(some.inj hv).symm,some.inj hv ▸ hlim,?_⟩
      intro n hn
      rcases List.mem_append.mp hn with hn | hn
      · exact hgoods n hn
      · rw [List.mem_singleton.mp hn]
        exact hgood
    · rw [hother v hvl] at hv
      exact hI.whole v file hv
  · apply forall_get_set
    · intro x r hr
      exact scanned_appended hI maxVolumeSize d payload fresh result l ha (hI.rows x r hr)
    · exact (scanned_iff d hnew hlim).mpr ⟨payload,hat⟩
  · intro v n hact
    cases hact
    exact ⟨_,hnew,hlen⟩

theorem packed_appended :
    Packed result (index.set d ⟨l,false,false⟩) d payload ∧
      ∀ x q, x ≠ d → Packed volumes index x q →
        Packed result (index.set d ⟨l,false,false⟩) x q := by
  have hok := volumesOk_packedInv hI
  refine ⟨⟨_,get_set_self,rfl,?_⟩,?_⟩
  · exact readRegion_appended hok ha (Nat.le_refl _)
  · rintro x q hx ⟨r,hr,hlive,hregion,hlen⟩
    refine ⟨r,by rw [get_set_ne hx, hr],hlive,?_,hlen⟩
    exact readRegion_append hok ha r.locator q hregion hlen

end

theorem packedInv_publish {fresh : VolumeId} (hfresh : volumes.get fresh = none)
    {needles : List (Digest × Bytes)} (hlim : (needlesBytes needles).length < offsetLimit)
    (hgood : ∀ n ∈ needles, good n.1 n.2) :
    PackedInv good (volumes.set fresh (needlesBytes needles)) index active := by
  have hkeep (v : VolumeId) (file : Bytes) (hv : volumes.get v = some file) :
      (volumes.set fresh (needlesBytes needles)).get v = some file := by
    rw [get_set_ne, hv]
    rintro rfl
    cases hv.symm.trans hfresh
  refine ⟨?_,?_,?_⟩
  · apply forall_get_set
    · exact hI.whole
    · exact ⟨needles,rfl,hlim,hgood⟩
  · intro d r hr
    obtain ⟨file,hv,hmem⟩ := hI.rows d r hr
    exact ⟨file,hkeep _ _ hv,hmem⟩
  · intro v n hact
    obtain ⟨file,hv,hlen⟩ := hI.active v n hact
    exact ⟨file,hkeep _ _ hv,hlen⟩

theorem packedInv_retire {old : VolumeId} {moved : List (Digest × NeedleLocator)}
    (hmoved : ∀ d l, (d,l) ∈ moved → Scanned volumes d l) (hactive : ∀ n, active ≠ some (old,n)) :
    PackedInv good (volumes.erase old) (dropVolumeRows (remapRows index moved) old) active := by
  refine ⟨?_,?_,?_⟩
  · intro v file hv
    exact hI.whole v file (get_of_get_erase hv)
  · intro d r hr
    obtain ⟨hne,r',hr',_,_,hrow⟩ := get_sweep hr
    apply (scanned_congr volumes _ d r.locator (get_erase_ne hne)).mpr
    rcases hrow with rfl | ⟨_,hmem⟩
    · exact hI.rows d r hr'
    · exact hmoved d r.locator hmem
  · intro v n hact
    obtain ⟨file,hv,hlen⟩ := hI.active v n hact
    refine ⟨file,?_,hlen⟩
    rw [get_erase, if_neg, hv]
    rintro rfl
    exact hactive n hact

/-- And after decay within one payload. -/
theorem packedInv_overwrite {bytes file : Bytes}
    (hv : volumes.get l.volumeId = some file)
    (hmem : (d,l) ∈ (scanNeedles l.volumeId file.length 0 file).1)
    (hlen : bytes.length = l.size) (hgood : good d bytes) :
    PackedInv good (volumes.set l.volumeId (writeAt file l.payloadOffset bytes)) index active ∧
      ∀ x q, x ≠ d → Packed volumes index x q →
        Packed (volumes.set l.volumeId (writeAt file l.payloadOffset bytes)) index x q := by
  obtain ⟨needles,rfl,hlim,hgoods⟩ := hI.whole _ file hv
  obtain ⟨_,old,i,hi,hoff,hsize⟩ := (mem_scanNeedles l.volumeId hlim d l).mp hmem
  have hsame : bytes.length = old.length := hlen.trans hsize
  -- the file is the same needles with one payload replaced, so every frame is where it was
  rw [writeAt_payload needles i d old bytes hi hsame hoff]
  have hnew : (volumes.set l.volumeId (needlesBytes (needles.set i (d,bytes)))).get l.volumeId =
      some (needlesBytes (needles.set i (d,bytes))) := get_set_self
  have hlength : (needlesBytes (needles.set i (d,bytes))).length =
      (needlesBytes needles).length := by
    have hall := length_take_overwritten needles i d old bytes hi hsame needles.length
    rwa [List.take_of_length_le (by simp), List.take_length] at hall
  have hlim' : (needlesBytes (needles.set i (d,bytes))).length < offsetLimit := hlength ▸ hlim
  have hother (v : VolumeId) (hne : v ≠ l.volumeId) :
      (volumes.set l.volumeId (needlesBytes (needles.set i (d,bytes)))).get v = volumes.get v :=
    get_set_ne hne
  refine ⟨⟨?_,?_,?_⟩,?_⟩
  · apply forall_get_set
    · exact hI.whole
    · refine ⟨_,rfl,hlim',?_⟩
      intro n hn
      rcases List.mem_or_eq_of_mem_set hn with hn | rfl
      · exact hgoods n hn
      · exact hgood
  · intro x r hr
    by_cases hne : r.locator.volumeId = l.volumeId
    · obtain ⟨q,hq⟩ := (scanned_iff x (by rw [hne, hv]) hlim).mp (hI.rows x r hr)
      exact (scanned_iff x (by rw [hne, hnew]) hlim').mpr
        (needleAt_overwritten_self needles i d old bytes hi hsame hq)
    · exact (scanned_congr volumes _ x r.locator (hother _ hne)).mpr (hI.rows x r hr)
  · intro v n hact
    obtain ⟨file,hfile,hn⟩ := hI.active v n hact
    by_cases hne : v = l.volumeId
    · subst hne
      cases hv.symm.trans hfile
      exact ⟨_,hnew,hlength.trans hn⟩
    · exact ⟨file,by rw [hother v hne, hfile],hn⟩
  · rintro x q hx ⟨r,hr,hlive,hregion,hq⟩
    refine ⟨r,hr,hlive,?_,hq⟩
    by_cases hne : r.locator.volumeId = l.volumeId
    · obtain ⟨q',hat⟩ := (scanned_iff x (by rw [hne, hv]) hlim).mp (hI.rows x r hr)
      have hq' : q = q' := by
        rw [readRegion, hne, hv, map_some, slice_needleAt needles x r.locator q' hat] at hregion
        exact (some.inj hregion).symm
      have hkept := needleAt_overwritten needles i d old bytes hi hsame hx hat
      rw [readRegion, hne, hnew, map_some, slice_needleAt _ x r.locator q' hkept, hq']
    · rw [readRegion, hother _ hne]
      exact hregion

theorem packedInv_rebuild :
    PackedInv good (volumes.mapValues truncateTorn) (rebuildFromVolumes volumes) none := by
  -- a volume of whole needles has no torn end to cut
  have hsame (v : VolumeId) : (volumes.mapValues truncateTorn).get v = volumes.get v := by
    rw [get_mapValues]
    cases hv : volumes.get v with
    | none => rfl
    | some file =>
      obtain ⟨needles,rfl,hlim,_⟩ := hI.whole v file hv
      have hframed : Framed (needlesBytes needles) needles := ⟨hlim,[],Or.inl rfl,by simp⟩
      rw [map_some, (scanNeedles_framed v hframed).2]
  refine ⟨?_,?_,?_⟩
  · intro v file hv
    exact hI.whole v file ((hsame v).symm.trans hv)
  · intro d r hr
    obtain ⟨_,v,file,hv,hmem⟩ := get_rebuild_eq_some hr
    obtain ⟨needles,rfl,hlim,_⟩ := hI.whole v file hv
    obtain ⟨rfl,_⟩ := (mem_scanNeedles v hlim d r.locator).mp hmem
    exact ⟨_,(hsame _).trans hv,hmem⟩
  · intro v n hact
    cases hact

end

/-- A live row whose payload was copied, or that lies elsewhere, reads the same bytes after the
old volume is gone. -/
theorem packed_retire (volumes : Volumes) (index : NeedleIndex) (old : VolumeId)
    (moved : List (Digest × NeedleLocator)) (d : Digest) (payload : Bytes)
    (hp : Packed volumes index d payload)
    (hmoved : ∀ e ∈ moved, e.2.volumeId ≠ old)
    (hcopied : ∀ l, (d,l) ∈ moved → readRegion volumes l = some payload ∧ payload.length = l.size)
    (hcovered : ∀ r, index.get d = some r → r.locator.volumeId = old → d ∈ moved.map Prod.fst) :
    Packed (volumes.erase old) (dropVolumeRows (remapRows index moved) old) d payload := by
  obtain ⟨r,hr,hlive,hregion,hlen⟩ := hp
  obtain ⟨r',hr',hlive'⟩ := live_sweep index moved old d r hr hlive hmoved (hcovered r hr)
  obtain ⟨hne,r₀,hr₀,_,_,hrow⟩ := get_sweep hr'
  cases hr.symm.trans hr₀
  -- the row that is left is the old one, or one that the compaction has moved
  have hreads : readRegion volumes r'.locator = some payload ∧
      payload.length = r'.locator.size := by
    rcases hrow with rfl | ⟨_,hmem⟩
    · exact ⟨hregion,hlen⟩
    · exact hcopied _ hmem
  refine ⟨r',hr',hlive',?_,hreads.2⟩
  rw [readRegion, get_erase_ne hne]
  exact hreads.1

end BackendGauntlet.ObjectStore
