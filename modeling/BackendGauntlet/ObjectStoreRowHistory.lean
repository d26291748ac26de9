import BackendGauntlet.Transition
import BackendGauntlet.ObjectStoreIndex

/-! What holds of one row after any sequence of appended and removed versions. -/
namespace BackendGauntlet.ObjectStore

open PyText List Option

structure ObjectMeta.Ordered (m : ObjectMeta) : Prop where
  increasing : m.versions.Pairwise (fun e f => e.id < f.id)
  latest_mem : ∃ e ∈ m.versions, e.id = m.latest
  le_latest : ∀ e ∈ m.versions, e.id ≤ m.latest
  latest_lt : m.latest < m.nextId

namespace ObjectMeta

theorem ordered_newLive (v : NewVersion) (now : ℤ) : (newLive v now).Ordered where
  increasing := pairwise_singleton _ _
  latest_mem := ⟨⟨1,now,.live v⟩,mem_singleton.mpr rfl,rfl⟩
  le_latest := by
    intro e he
    rw [mem_singleton.mp he]
    exact Int.le_refl _
  latest_lt := Int.lt_succ 1

section
variable (m : ObjectMeta) (hm : m.Ordered)
include hm

theorem Ordered.id_lt (e : VersionEntry) (he : e ∈ m.versions) : e.id < m.nextId :=
  Int.lt_of_le_of_lt (hm.le_latest e he) hm.latest_lt

theorem Ordered.freshId_eq : m.freshId = m.nextId := by
  obtain ⟨e,he,_⟩ := hm.latest_mem
  obtain ⟨f,hf,hhigh⟩ := highest_mem (ne_nil_of_mem he)
  have hlt : highest m.versions < m.nextId := by
    rw [← hhigh]
    exact hm.id_lt m f hf
  exact Int.max_eq_left (Int.add_one_le_of_lt hlt)

theorem ordered_appendLive (v : NewVersion) (now : ℤ) : (m.appendLive v now).Ordered where
  increasing := by
    apply pairwise_append.mpr
    refine ⟨hm.increasing,pairwise_singleton _ _,?_⟩
    intro e he f hf
    rw [mem_singleton.mp hf]
    change e.id < m.freshId
    rw [hm.freshId_eq m]
    exact hm.id_lt m e he
  latest_mem := ⟨⟨m.freshId,now,.live v⟩,by simp [appendLive],rfl⟩
  le_latest := by
    intro e he
    change e.id ≤ m.freshId
    rcases mem_append.mp he with he | he
    · rw [hm.freshId_eq m]
      exact Int.le_of_lt (hm.id_lt m e he)
    · exact mem_singleton.mp he ▸ Int.le_refl _
  latest_lt := Int.lt_succ _

/-- The largest id that is left becomes `latest` where the removed one was. -/
theorem ordered_removeVersion {m' : ObjectMeta} {id : VersionId}
    (h : m.removeVersion id = some m') (hne : m'.versions ≠ []) : m'.Ordered := by
  obtain ⟨hv,hn,hl,_⟩ := removeVersion_eq_some m m' id h
  have hsub (e : VersionEntry) (he : e ∈ m'.versions) : e ∈ m.versions := by
    rw [hv] at he
    exact (mem_filter.mp he).1
  have hinc : m'.versions.Pairwise (fun e f => e.id < f.id) := by
    rw [hv]
    exact hm.increasing.sublist filter_sublist
  by_cases hlat : m.latest = id
  · rw [if_pos hlat] at hl
    obtain ⟨f,hf,hhigh⟩ := highest_mem hne
    refine ⟨hinc,⟨f,hf,hhigh.trans hl.symm⟩,?_,?_⟩
    · intro e he
      rw [hl]
      exact le_highest he
    · rw [hl, hn, ← hhigh]
      exact hm.id_lt m f (hsub f hf)
  · rw [if_neg hlat] at hl
    refine ⟨hinc,?_,?_,?_⟩
    · obtain ⟨e,he,hid⟩ := hm.latest_mem
      refine ⟨e,?_,hid.trans hl.symm⟩
      rw [hv]
      exact mem_filter.mpr ⟨he,by simpa [hid] using hlat⟩
    · intro e he
      rw [hl]
      exact hm.le_latest e (hsub e he)
    · rw [hl, hn]
      exact hm.latest_lt

end

theorem resolveLive_congr {m m' : ObjectMeta} {id : VersionId}
    (h : m'.versions.find? (fun e => e.id = id) = m.versions.find? (fun e => e.id = id)) :
    m'.resolveLive (some id) = m.resolveLive (some id) := by
  simp [resolveLive, resolve, h]

end ObjectMeta

structure RowHistory where
  row : ObjectMeta
  assigned : List VersionId

inductive RowOp
  | appendLive (v : NewVersion) (now : ℤ)
  | removeVersion (id : VersionId)

def RowOp.touched (m : ObjectMeta) : RowOp → VersionId
  | .appendLive _ _ => m.freshId
  | .removeVersion id => id

def rowStep (h : RowHistory) : RowOp → Option RowHistory
  | .appendLive v now =>
    some ⟨h.row.appendLive v now,h.assigned ++ [(h.row.appendLive v now).latest]⟩
  | .removeVersion id =>
    match h.row.removeVersion id with
    -- an id that is not there: `False`, and the row as it was
    | none => some h
    | some m => if m.versions = [] then none else some ⟨m,h.assigned⟩

def newRow (h : RowHistory) : Prop := ∃ v now, h = ⟨ObjectMeta.newLive v now,[1]⟩

structure HistoryInv (h : RowHistory) : Prop where
  ordered : h.row.Ordered
  live : ∀ e ∈ h.row.versions, e.asLive.isSome = true
  assigned : ∀ e ∈ h.row.versions, e.id ∈ h.assigned
  counted : ∀ id ∈ h.assigned, id < h.row.nextId

theorem historyInv_newRow (h : RowHistory) (hnew : newRow h) : HistoryInv h := by
  obtain ⟨v,now,rfl⟩ := hnew
  refine ⟨ObjectMeta.ordered_newLive v now,?_,?_,?_⟩
  · intro e he
    rw [mem_singleton.mp he]
    rfl
  · intro e he
    rw [mem_singleton.mp he]
    exact mem_singleton.mpr rfl
  · intro id hid
    rw [mem_singleton.mp hid]
    exact Int.lt_succ 1

theorem historyInv_step {h h' : RowHistory} {op : RowOp} (hI : HistoryInv h)
    (hstep : rowStep h op = some h') : HistoryInv h' := by
  cases op with
  | appendLive v now =>
    cases hstep
    have hfresh := hI.ordered.freshId_eq h.row
    refine ⟨ObjectMeta.ordered_appendLive h.row hI.ordered v now,?_,?_,?_⟩
    · intro e he
      rcases mem_append.mp he with he | he
      · exact hI.live e he
      · rw [mem_singleton.mp he]
        rfl
    · intro e he
      rcases mem_append.mp he with he | he
      · exact mem_append_left _ (hI.assigned e he)
      · rw [mem_singleton.mp he]
        exact mem_append_right _ (mem_singleton.mpr rfl)
    · intro id hid
      change id < h.row.freshId+1
      rcases mem_append.mp hid with hid | hid
      · rw [hfresh]
        exact Int.lt_add_one_of_le (Int.le_of_lt (hI.counted id hid))
      · rw [mem_singleton.mp hid]
        exact Int.lt_succ _
  | removeVersion id =>
    simp only [rowStep] at hstep
    cases hr : h.row.removeVersion id with
    | none =>
      rw [hr] at hstep
      cases hstep
      exact hI
    | some m =>
      simp only [hr] at hstep
      split_ifs at hstep with hne
      cases hstep
      obtain ⟨hv,hn,_,_⟩ := removeVersion_eq_some h.row m id hr
      have hsub (e : VersionEntry) (he : e ∈ m.versions) : e ∈ h.row.versions := by
        rw [hv] at he
        exact (mem_filter.mp he).1
      refine ⟨ObjectMeta.ordered_removeVersion h.row hI.ordered hr hne,
        fun e he => hI.live e (hsub e he),fun e he => hI.assigned e (hsub e he),?_⟩
      intro x hx
      rw [hn]
      exact hI.counted x hx

theorem versions_rowStep {h h' : RowHistory} {op : RowOp} (hstep : rowStep h op = some h')
    {id : VersionId} (hid : id ≠ op.touched h.row) :
    h'.row.versions.find? (fun e => e.id = id) = h.row.versions.find? (fun e => e.id = id) := by
  cases op with
  | appendLive v now =>
    cases hstep
    have hnew : ¬ h.row.freshId = id := Ne.symm hid
    simp [ObjectMeta.appendLive, find?_append, hnew]
  | removeVersion x =>
    simp only [rowStep] at hstep
    cases hr : h.row.removeVersion x with
    | none =>
      rw [hr] at hstep
      cases hstep
      rfl
    | some m =>
      simp only [hr] at hstep
      split_ifs at hstep
      cases hstep
      rw [(removeVersion_eq_some h.row m x hr).1, find?_filter]
      congr 1
      funext e
      by_cases he : e.id = id
      · simp [he, show id ≠ x from hid]
      · simp [he]

theorem touched_of_dropped {h : RowHistory} {op : RowOp} (hdrop : rowStep h op = none)
    (e : VersionEntry) (he : e ∈ h.row.versions) : e.id = op.touched h.row := by
  cases op with
  | appendLive v now => cases hdrop
  | removeVersion id =>
    simp only [rowStep] at hdrop
    cases hr : h.row.removeVersion id with
    | none => simp [hr] at hdrop
    | some m =>
      simp only [hr] at hdrop
      split_ifs at hdrop with hempty
      rw [(removeVersion_eq_some h.row m id hr).1] at hempty
      have hnot := filter_eq_nil_iff.mp hempty e he
      simp only [ne_eq, decide_not, Bool.not_eq_true', decide_eq_false_iff_not, not_not] at hnot
      exact hnot

/-- In every row's history the ids climb, `latest` is the largest and live, the counter is past
every id, and the next operation leaves every other id alone. -/
theorem row_history_invariant (h : RowHistory)
    (hh : Transition.Reachable newRow rowStep Transition.anyStep h) :
    (h.row.versions.map VersionEntry.id).Pairwise (fun a b => a < b) ∧
      h.row.latest ∈ h.row.versions.map VersionEntry.id ∧
      (∀ e ∈ h.row.versions, e.id ≤ h.row.latest) ∧
      (∃ r, h.row.resolveLive none = .ok r ∧ r.versionId = h.row.latest) ∧
      (∀ e ∈ h.row.versions, e.id ∈ h.assigned) ∧
      (∀ id ∈ h.assigned, id < h.row.nextId) ∧
      ∀ op, (∀ h', rowStep h op = some h' → ∀ id, id ≠ op.touched h.row →
          h'.row.versions.find? (fun e => e.id = id) =
              h.row.versions.find? (fun e => e.id = id) ∧
            h'.row.resolveLive (some id) = h.row.resolveLive (some id)) ∧
        (rowStep h op = none → ∀ e ∈ h.row.versions, e.id = op.touched h.row) := by
  have hI : HistoryInv h := Transition.reachable_invariant HistoryInv historyInv_newRow
    (fun h h' op hI _ hstep => historyInv_step hI hstep) h hh
  obtain ⟨e,he,hlat⟩ := hI.ordered.latest_mem
  refine ⟨pairwise_map.mpr hI.ordered.increasing,List.mem_map.mpr ⟨e,he,hlat⟩,
    hI.ordered.le_latest,?_,hI.assigned,hI.counted,?_⟩
  · have hsome : (h.row.versions.find? (fun f => f.id = h.row.latest)).isSome = true := by
      rw [find?_isSome]
      exact ⟨e,he,by simpa using hlat⟩
    obtain ⟨f,hf⟩ := isSome_iff_exists.mp hsome
    obtain ⟨v,hv⟩ := isSome_iff_exists.mp (hI.live f (mem_of_find?_eq_some hf))
    refine ⟨⟨f.id,v,f.lastModified⟩,?_,by simpa using find?_some hf⟩
    simp [ObjectMeta.resolveLive, ObjectMeta.resolve, hf, hv]
  · intro op
    refine ⟨?_,touched_of_dropped⟩
    intro h' hstep id hid
    have hfind := versions_rowStep hstep hid
    exact ⟨hfind,ObjectMeta.resolveLive_congr hfind⟩

/-- Three puts, and the newest and the oldest version removed again. -/
theorem row_history_of_abc : ∃ h, Transition.Reachable newRow rowStep Transition.anyStep h ∧
    (decide (h.row.versions.map VersionEntry.id = [2, 4]) &&
      decide (h.assigned = [1, 2, 3, 4])) = true ∧
    (∃ r, h.row.resolveLive none = .ok r ∧ r.versionId = h.row.latest) ∧
    ∀ id ∈ h.assigned, id < h.row.nextId := by
  refine Exists.imp (fun h (hh : _ ∧ _) => ?_) (Transition.reachable_of_run newRow rowStep
    (P := fun h => (decide (h.row.versions.map VersionEntry.id = [2, 4]) &&
      decide (h.assigned = [1, 2, 3, 4])) = true)
    [.appendLive xyzVersion 1, .appendLive abcVersion 2, .removeVersion 3,
      .appendLive xyzVersion 3, .removeVersion 1]
    ⟨ObjectMeta.newLive abcVersion 0,[1]⟩ ⟨abcVersion,0,rfl⟩ (by decide +kernel))
  obtain ⟨_,_,_,hlive,_,hcount,_⟩ := row_history_invariant h hh.1
  exact ⟨hh.1,hh.2,hlive,hcount⟩

end BackendGauntlet.ObjectStore
