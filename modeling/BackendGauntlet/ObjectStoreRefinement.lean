import BackendGauntlet.ObjectStoreQuarantine

/-! The store with its volumes refines the store without. -/
namespace BackendGauntlet.ObjectStore

open Readers Transition Option

/-- The store without its volumes: the same files, routes and gate, and for each row the payload
it reads. -/
structure Abstracts (s : Store) (a : StoreState) : Prop where
  hot : ∀ d, (a.hot.get d).map HotFile.content = s.objects.get d
  needles : ∀ d, a.needles.get d = (s.index.get d).bind (fun r =>
    (readRegion s.disk.volumes r.locator).map (fun payload => ⟨payload,r.deleted,r.quarantined⟩))
  locations : a.locations = s.locations
  quarantined : a.quarantined = s.quarantined

def Store.withoutVolumes (s : Store) : StoreState where
  hot := s.objects.filterMap (fun _ content => some ⟨content,0⟩)
  needles := s.index.filterMap (fun _ r => (readRegion s.disk.volumes r.locator).map
    (fun payload => ⟨payload,r.deleted,r.quarantined⟩))
  locations := s.locations
  quarantined := s.quarantined
  cold := Dict.empty

theorem abstracts_withoutVolumes (s : Store) : Abstracts s s.withoutVolumes where
  hot := by
    intro d
    simp only [Store.withoutVolumes, Dict.get_filterMap]
    cases s.objects.get d with
    | none => rfl
    | some content => rfl
  needles := fun d => Dict.get_filterMap _ s.index d
  locations := rfl
  quarantined := rfl

def opened : Except OpError (Window ℕ) → Except OpError Bytes := Except.map Window.left

theorem range_check (start stop length : ℕ) :
    ((stop : ℤ) < start ∨ (length : ℤ) ≤ stop ↔ stop < start ∨ length ≤ stop) ∧
      ((stop : ℤ)-start+1).toNat = stop+1-start := by
  omega

section
variable (good : Digest → Bytes → Prop) (s : Store) (hI : StoreInv good s) (a : StoreState)
  (hA : Abstracts s a) (d : Digest)
include hI hA

theorem requireReadable_abstracts :
    (∃ l payload file, requireReadable s.index d = .ok l ∧ a.requireReadable d = .ok payload ∧
      s.disk.volumes.get l.volumeId = some file ∧ slice file l.payloadOffset l.size = payload ∧
      payload.length = l.size) ∨
    ∃ e, requireReadable s.index d = .error (.app e) ∧ a.requireReadable d = .error e := by
  have hneedle := hA.needles d
  unfold requireReadable StoreState.requireReadable
  cases hr : s.index.get d with
  | none =>
    rw [hr, bind_none] at hneedle
    rw [hneedle]
    exact Or.inr ⟨_,rfl,rfl⟩
  | some r =>
    obtain ⟨payload,hregion,hlen,_⟩ :=
      region_scanned hI.packed (hI.packed.rows d r hr)
    obtain ⟨file,hfile,hslice⟩ := map_eq_some_iff.mp hregion
    rw [hr, bind_some, hregion, map_some] at hneedle
    rw [hneedle]
    simp only
    split_ifs
    · exact Or.inr ⟨_,rfl,rfl⟩
    · exact Or.inr ⟨_,rfl,rfl⟩
    · exact Or.inl ⟨_,_,file,rfl,rfl,hfile,hslice,hlen⟩

/-- A range is opened on the bytes, or refused with the error, of the store without volumes. -/
theorem openBlobRange_abstracts (start stop : ℕ) :
    opened (s.openBlobRange d start stop) =
      (a.openBlobRange d start stop).mapError OpError.app := by
  unfold Store.openBlobRange StoreState.openBlobRange
  rw [hA.quarantined, hA.locations]
  split_ifs with hq
  · rfl
  · cases hl : s.locations.get d with
    | none => rfl
    | some l =>
      cases l with
      | haystack =>
        rcases requireReadable_abstracts good s hI a hA d with
          ⟨l,payload,file,hs,ha,hfile,hslice,hlen⟩ | ⟨e,hs,ha⟩
        · simp only [Store.openNeedleRange, hs, ha, hfile, bind, Except.bind]
          obtain ⟨hcheck,hcount⟩ := range_check start stop l.size
          rw [hlen]
          by_cases hrange : stop < start ∨ l.size ≤ stop
          · rw [if_pos (hcheck.mpr hrange), if_pos hrange]
            rfl
          · rw [if_neg (fun h => hrange (hcheck.mp h)), if_neg hrange]
            rw [hcount, ← hslice, slice_slice (by omega)]
            rfl
        · simp only [Store.openNeedleRange, hs, ha, bind, Except.bind]
          rfl
      | fileCas =>
        have hfile := hA.hot d
        cases ho : a.hot.get d with
        | none =>
          rw [ho, map_none] at hfile
          simp only [← hfile]
          rfl
        | some f =>
          rw [ho, map_some] at hfile
          simp only [← hfile]
          obtain ⟨hcheck,hcount⟩ := range_check start stop f.content.length
          by_cases hrange : stop < start ∨ f.content.length ≤ stop
          · rw [if_pos (hcheck.mpr hrange), if_pos hrange]
            rfl
          · rw [if_neg (fun h => hrange (hcheck.mp h)), if_neg hrange, hcount]
            rfl

theorem openBlob_abstracts :
    opened (s.openBlob d) = (a.openBlob d).mapError OpError.app := by
  unfold Store.openBlob StoreState.openBlob
  rw [hA.quarantined, hA.locations]
  split_ifs with hq
  · rfl
  · cases hl : s.locations.get d with
    | none => rfl
    | some l =>
      cases l with
      | haystack =>
        rcases requireReadable_abstracts good s hI a hA d with
          ⟨l,payload,file,hs,ha,hfile,hslice,hlen⟩ | ⟨e,hs,ha⟩
        · simp only [Store.openNeedle, Store.openNeedleRange, hs, ha, hfile, bind, Except.bind]
          -- both refuse the range from 0 to -1
          by_cases hempty : payload = []
          · have hsize : l.size = 0 := by rw [← hlen, hempty, List.length_nil]
            rw [if_pos hempty, if_pos (Or.inl (by omega)), hsize]
            rfl
          · have hpos := List.length_pos_iff.mpr hempty
            have hcount : ((l.size : ℤ)-1-((0 : ℕ) : ℤ)+1).toNat = l.size := by omega
            rw [if_neg hempty, if_neg (by omega), hcount, ← hslice]
            rfl
        · simp only [Store.openNeedle, hs, ha, bind, Except.bind]
          rfl
      | fileCas =>
        have hfile := hA.hot d
        cases ho : a.hot.get d with
        | none =>
          rw [ho, map_none] at hfile
          simp only [← hfile]
          rfl
        | some f =>
          rw [ho, map_some] at hfile
          simp only [← hfile]
          exact congrArg Except.ok List.take_length

theorem abstracts_remove : Abstracts (s.remove d) (a.remove d) := by
  unfold Store.remove StoreState.remove
  rw [hA.locations]
  cases hl : s.locations.get d with
  | none => exact hA
  | some l =>
    cases l with
    | fileCas =>
      refine ⟨?_,hA.needles,rfl,hA.quarantined⟩
      intro x
      simp only [Dict.get_erase]
      split_ifs
      · rfl
      · exact hA.hot x
    | haystack =>
      obtain ⟨disk,index,heq,hvol,_,hrows⟩ :=
        flag_removeOp { s with locations := s.locations.erase d } d hI.recovers
      simp only at heq ⊢
      rw [heq]
      refine ⟨hA.hot,?_,rfl,hA.quarantined⟩
      intro x
      simp only [Dict.get_modify, hvol, hrows x, hA.needles x]
      by_cases hx : x = d
      · simp only [hx, if_true]
        cases s.index.get d with
        | none => rfl
        | some r =>
          simp only [bind_some, map_some, Option.map_map]
          rfl
      · simp [hx]

end

/-- In every state a store can come to, rot included, it reads and removes as the store without
volumes does. -/
theorem store_refines_withoutVolumes (hash : Bytes → Digest) (s : Store)
    (hs : Reachable newStore (storeStep hash) anyStep s) (d : Digest) (start stop : ℕ) :
    opened (s.openBlob d) = (s.withoutVolumes.openBlob d).mapError OpError.app ∧
      opened (s.openBlobRange d start stop) =
        (s.withoutVolumes.openBlobRange d start stop).mapError OpError.app ∧
      Abstracts (s.remove d) (s.withoutVolumes.remove d) := by
  -- rot keeps the length of a payload, so each row still reads a whole one
  have hI := storeInv_reachable hash AnyBytes newStore _ (storeInv_new AnyBytes)
    (fun _ a _ => goodAction_any hash a) hs
  have hA := abstracts_withoutVolumes s
  exact ⟨openBlob_abstracts AnyBytes s hI _ hA d,
    openBlobRange_abstracts AnyBytes s hI _ hA d start stop,abstracts_remove AnyBytes s hI _ hA d⟩

theorem packed_abc_refines : ∃ s, Reachable newStore (storeStep sampleHash) anyStep s ∧
    opened (s.openBlobRange abcDigest 1 2) = .ok [98, 99] ∧
    (s.withoutVolumes.openBlobRange abcDigest 1 2).mapError OpError.app = .ok [98, 99] := by
  obtain ⟨s,hs,h⟩ := reachable_of_run newStore (storeStep sampleHash)
    (P := fun s => opened (s.openBlobRange abcDigest 1 2) = .ok [98, 99])
    [.commit abcBytes volumeA, .reopen .fileCas 0] (sampleStore .haystack) newStore_sampleStore
    (by decide +kernel)
  exact ⟨s,hs,h,(store_refines_withoutVolumes sampleHash s hs abcDigest 1 2).2.1 ▸ h⟩

end BackendGauntlet.ObjectStore
