import BackendGauntlet.ObjectStoreLifecycle

/-! What the gathered migrations do to the store, digest by digest. -/
namespace BackendGauntlet.ObjectStore

open List Option Dict

def tierView (codec : Codec) (v : BlobView) : BlobView :=
  match v.hot with
  | none => v
  | some f => { v with cold := some (v.cold.getD (codec.compress f.content)) }.remove

def BlobView.packed (v : BlobView) : Bool := v.location = some .haystack && v.hot.isNone

section
variable (codec : Codec)

theorem tierView_idem (v : BlobView) : tierView codec (tierView codec v) = tierView codec v := by
  obtain ⟨hot,needle,location,cold⟩ := v
  cases hot with
  | none => rfl
  | some f =>
    cases location with
    | none => rfl
    | some l => cases l <;> rfl

theorem packed_tierView (v : BlobView) : (tierView codec v).packed = v.packed := by
  obtain ⟨hot,needle,location,cold⟩ := v
  cases hot with
  | none => rfl
  | some f =>
    cases location with
    | none => rfl
    | some l => cases l <;> rfl

theorem view_tierBlob {s : StoreState} (d x : Digest) {f : HotFile} (hf : s.hot.get d = some f) :
    (tierBlob codec s d f).view x = if x = d then tierView codec (s.view d) else s.view x := by
  have htv : tierView codec (s.view d) =
      { s.view d with cold := some ((s.cold.get d).getD (codec.compress f.content)) }.remove := by
    simp only [tierView, StoreState.view, hf]
  unfold tierBlob
  cases hc : s.cold.get d with
  | some z =>
    have hsame : { s.view d with cold := some ((s.cold.get d).getD (codec.compress f.content)) } =
        s.view d := by
      simp [StoreState.view, hc]
    rw [if_pos (by simp [Dict.contains, hc]), htv, hsame]
    split_ifs with hl hx hx
    · rw [view_remove, if_pos hx]
    · rw [view_remove, if_neg hx]
    · have hn : s.locations.get d = none := by simpa [StoreState.contains, Dict.contains] using hl
      rw [hx]
      simp only [BlobView.remove, StoreState.view, hn]
    · rfl
  | none =>
    rw [if_neg (by simp [Dict.contains, hc]), view_remove, htv]
    split_ifs with hx
    · simp [StoreState.view, hc]
    · simp only [StoreState.view, get_set_ne hx]

/-- One migration: it fails exactly on packed blobs and changes no other digest. -/
theorem tierOne_spec (s : StoreState) (d : Digest) :
    (tierOne codec s d).1 = (s.view d).packed ∧
    (∀ x, (tierOne codec s d).2.view x =
      if x = d then tierView codec (s.view d) else s.view x) ∧
    (tierOne codec s d).2.quarantined = s.quarantined := by
  have hself (h : tierView codec (s.view d) = s.view d) (x : Digest) :
      s.view x = if x = d then tierView codec (s.view d) else s.view x := by
    split_ifs with hx
    · rw [hx, h]
    · rfl
  cases hf : s.hot.get d with
  | none =>
    have hid : tierView codec (s.view d) = s.view d := by simp only [tierView, StoreState.view, hf]
    have hp : (s.view d).packed = decide (s.locations.get d = some .haystack) := by
      simp [BlobView.packed, StoreState.view, hf]
    have hres : tierOne codec s d = (decide (s.locations.get d = some .haystack),s) := by
      unfold tierOne StoreState.locate
      by_cases hl : s.locations.get d = some .haystack
      · simp [hl, hf]
      · simp only [hl, Dict.contains, hf, isSome_none, Bool.false_eq_true, if_false, decide_false]
        by_cases hc : (s.cold.get d).isSome = true
        · simp [hc]
        · simp [hc]
    rw [hres]
    exact ⟨hp.symm,hself hid,rfl⟩
  | some f =>
    have hraw : s.locate d = .ok .raw := by
      unfold StoreState.locate
      split_ifs with h1 h2 h3
      · rfl
      · rfl
      · exact absurd (by simp [Dict.contains, hf]) h2
      · exact absurd (by simp [Dict.contains, hf]) h2
    have hp : (s.view d).packed = false := by simp [BlobView.packed, StoreState.view, hf]
    rw [hp]
    unfold tierOne
    rw [hraw]
    simp only [hf]
    refine ⟨trivial,fun x => view_tierBlob codec d x hf,?_⟩
    unfold tierBlob
    split_ifs
    · exact quarantined_remove s d
    · rfl
    · rw [quarantined_remove]

theorem tierAll_spec (s : StoreState) (ds : List Digest) :
    (tierAll codec s ds).1 = ds.any (fun d => (s.view d).packed) ∧
    (∀ x, (tierAll codec s ds).2.view x =
      if x ∈ ds then tierView codec (s.view x) else s.view x) ∧
    (tierAll codec s ds).2.quarantined = s.quarantined := by
  induction ds generalizing s with
  | nil => simp [tierAll]
  | cons d ds ih =>
    obtain ⟨h1,h2,h3⟩ := tierOne_spec codec s d
    obtain ⟨i1,i2,i3⟩ := ih (tierOne codec s d).2
    -- A digest that was migrated already looks the same to a second attempt.
    have hpk (x : Digest) : ((tierOne codec s d).2.view x).packed = (s.view x).packed := by
      rw [h2]
      split_ifs with hx
      · rw [packed_tierView, hx]
      · rfl
    refine ⟨?_,?_,?_⟩
    · simp [tierAll, h1, i1, hpk]
    · intro x
      simp only [tierAll, i2, h2, mem_cons]
      by_cases hx : x = d
      · subst hx
        simp [tierView_idem]
      · simp [hx]
    · rw [tierAll, i3, h3]

end

end BackendGauntlet.ObjectStore
