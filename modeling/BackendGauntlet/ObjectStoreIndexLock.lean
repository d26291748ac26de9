import BackendGauntlet.LockedCell
import BackendGauntlet.ObjectStoreIndex

/-! Concurrent `Index.put` and `Index.delete` on one key, whose lock makes the row a locked cell. -/
namespace BackendGauntlet.ObjectStore

open PyText List

def keyOps : LockedCell.Ops (Option ObjectMeta) KeyCall AppError (Option ObjectMeta) where
  apply := KeyCall.apply
  -- the delete of a key unlinks its file without reading it
  blind := fun call =>
    match call with
    | .delete none => some (none,none)
    | _ => none
  blind_apply := by
    intro call r h c
    match call with
    | .delete none =>
      cases h
      rfl
    | .delete (some id) => cases h
    | .put v guard now => cases h

abbrev KeyState := LockedCell.State (Option ObjectMeta) KeyCall AppError (Option ObjectMeta)

variable (call : KeyCall)

theorem after_keyOps (row : Option ObjectMeta) :
    keyOps.after call row = call.rowAfter row := by
  have happly : keyOps.apply call row = call.apply row := rfl
  unfold LockedCell.Ops.after KeyCall.rowAfter
  rw [happly]
  cases call.apply row <;> rfl

theorem runAll_keyOps (row : Option ObjectMeta) (calls : List KeyCall) :
    keyOps.runAll row calls = runCalls row calls := by
  unfold LockedCell.Ops.runAll runCalls
  simp only [after_keyOps]

theorem result_keyOps (row : Option ObjectMeta) :
    keyOps.result call row = call.result row := rfl

theorem version_kept (m : ObjectMeta) (e : VersionEntry) (he : e ∈ m.versions)
    (hkey : call ≠ .delete none) (hversion : call ≠ .delete (some e.id)) :
    ∃ m', call.rowAfter (some m) = some m' ∧ e ∈ m'.versions := by
  unfold KeyCall.rowAfter
  rcases call.apply_cases (some m) with ⟨x,ha,_⟩ | ⟨v,guard,now,_,_,ha,_⟩ |
      ⟨ref,row,hcall,hd,ha,_⟩
  · rw [ha]
    exact ⟨m,rfl,he⟩
  · rw [ha]
    exact ⟨_,rfl,by simp [putRow, ObjectMeta.appendLive, he]⟩
  · rw [ha]
    cases ref with
    | none => exact absurd hcall hkey
    | some id =>
      obtain ⟨m0,m',hm0,hr,hrow⟩ := indexDelete_version (some m) row id hd
      cases hm0
      obtain ⟨hv,_,_,_⟩ := removeVersion_eq_some m m' id hr
      have hne : e.id ≠ id := by
        intro h
        exact hversion (h ▸ hcall)
      have he' : e ∈ m'.versions := by
        rw [hv]
        exact mem_filter.mpr ⟨he,by simpa using hne⟩
      refine ⟨m',?_,he'⟩
      rw [hrow, if_neg (ne_nil_of_mem he')]

variable (calls : List KeyCall)

/-- A version is there until a delete of it or of the key. -/
theorem version_kept_run (m : ObjectMeta) (e : VersionEntry)
    (he : e ∈ m.versions)
    (h : ∀ call ∈ calls, call ≠ .delete none ∧ call ≠ .delete (some e.id)) :
    ∃ m', runCalls (some m) calls = some m' ∧ e ∈ m'.versions := by
  induction calls generalizing m with
  | nil => exact ⟨m,rfl,he⟩
  | cons call calls ih =>
    obtain ⟨hk,hv⟩ := h call mem_cons_self
    obtain ⟨m1,hm1,he1⟩ := version_kept call m e he hk hv
    rw [runCalls_cons, hm1]
    exact ih m1 he1 (fun x hx => h x (mem_cons_of_mem call hx))

theorem latestLive_putRow (current : Option ObjectMeta) (v : NewVersion) (now : ℤ) :
    (putRow current v now).latestLive = some ⟨(putRow current v now).latest,v,now⟩ := by
  cases current with
  | none => rfl
  | some m =>
    have hfind : (m.appendLive v now).resolve none = some ⟨m.freshId,now,.live v⟩ := by
      simp only [ObjectMeta.resolve, ObjectMeta.appendLive, Option.getD_none]
      rw [find?_append, find?_eq_none.mpr]
      · simp
      · intro e he
        have hne : e.id ≠ m.freshId := by
          intro h
          exact m.freshId_not_mem (h ▸ List.mem_map_of_mem he)
        simp [hne]
    simp only [putRow, ObjectMeta.latestLive, ObjectMeta.resolveLive, hfind, VersionEntry.asLive]
    rfl

theorem mem_versions_putRow {current : Option ObjectMeta} (v : NewVersion) (now : ℤ) :
    ⟨(putRow current v now).latest,now,.live v⟩ ∈ (putRow current v now).versions := by
  cases current with
  | none => simp [putRow, ObjectMeta.newLive]
  | some m => simp [putRow, ObjectMeta.appendLive]

theorem latestLive_kept (row : Option ObjectMeta)
    (hrow : (row.bind ObjectMeta.latestLive).isSome = true)
    (h : ∀ before ref after, calls = before ++ .delete ref :: after →
      KeyCall.result (.delete ref) (runCalls row before) ≠ .ok none) :
    ((runCalls row calls).bind ObjectMeta.latestLive).isSome = true := by
  induction calls generalizing row with
  | nil => exact hrow
  | cons call calls ih =>
    rw [runCalls_cons]
    apply ih
    · unfold KeyCall.rowAfter
      rcases call.apply_cases row with ⟨x,ha,_⟩ | ⟨v,guard,now,_,_,ha,_⟩ |
          ⟨ref,row',hcall,hd,ha,_⟩
      · rw [ha]
        exact hrow
      · rw [ha]
        simp [latestLive_putRow]
      · -- a delete that succeeds is excluded
        exfalso
        apply h [] ref calls (by rw [hcall]; rfl)
        rw [KeyCall.result, runCalls_nil, ← hcall, ha]
        rfl
    · intro before ref after hsplit
      have := h (call :: before) ref after (by rw [hsplit]; rfl)
      rwa [runCalls_cons] at this

theorem put_result {v : NewVersion} {guard : Precondition} {now : ℤ} {row : Option ObjectMeta}
    {r : Option ObjectMeta} (h : KeyCall.result (.put v guard now) row = .ok r) :
    guard.check row = .ok () ∧ r = some (putRow row v now) ∧
      KeyCall.rowAfter (.put v guard now) row = some (putRow row v now) := by
  unfold KeyCall.result at h
  unfold KeyCall.rowAfter
  rcases KeyCall.apply_cases (.put v guard now) row with ⟨x,ha,_⟩ |
      ⟨v',guard',now',hcall,hc,ha,_⟩ | ⟨ref,row',hcall,_,_,_⟩
  · rw [ha] at h
    cases h
  · cases hcall
    rw [ha] at h ⊢
    exact ⟨hc,(Except.ok.inj h).symm,rfl⟩
  · cases hcall

/-- However the calls on one key interleave, one order of them explains the row and every result,
respects real time, and keeps every version that is not deleted later. -/
theorem index_writes_linearizable (row0 : Option ObjectMeta) (s : KeyState)
    (hs : Transition.Reachable (fun s => s = LockedCell.start row0) (LockedCell.step keyOps)
      Transition.anyStep s) :
    ∃ order : List (ℕ × KeyCall), LockedCell.Linearizes keyOps row0 s order ∧
      (∀ before i v guard now after c m,
        order = before ++ (i,.put v guard now) :: after → s.calls.get i = some c →
        c.stage.result = some (.ok (some m)) →
        (∀ a ∈ after, a.2 ≠ .delete none ∧ a.2 ≠ .delete (some m.latest)) →
        ∃ row, s.cell = some row ∧ ⟨m.latest,now,.live v⟩ ∈ row.versions) ∧
      (∀ before i v now between j w now' after ci cj mi mj,
        order = before ++ (i,.put v .ifNoneMatchStar now) ::
          (between ++ (j,.put w .ifNoneMatchStar now') :: after) →
        s.calls.get i = some ci → s.calls.get j = some cj →
        ci.stage.result = some (.ok (some mi)) → cj.stage.result = some (.ok (some mj)) →
        ∃ k ref ck, (k,.delete ref) ∈ between ∧ s.calls.get k = some ck ∧
          ck.stage.result = some (.ok none)) := by
  have hlin := LockedCell.linearizes_effects hs
  refine ⟨s.effects,hlin,?_,?_⟩
  · intro before i v guard now after c m hsplit hc hres hafter
    have hput := hlin.results before (i,.put v guard now) after hsplit c hc
    rw [hres, runAll_keyOps] at hput
    obtain ⟨_,hm,hrow⟩ := put_result (Option.some.inj hput).symm
    cases hm
    -- the row after the put, then the calls ordered after it
    have hcell : s.cell = runCalls (some (putRow (runCalls row0 (before.map Prod.snd)) v now))
        (after.map Prod.snd) := by
      rw [hlin.cell, runAll_keyOps, hsplit, map_append, map_cons, runCalls_append,
        runCalls_cons, hrow]
    rw [hcell]
    apply version_kept_run _ _ _ (mem_versions_putRow v now)
    intro call hcall
    obtain ⟨a,ha,rfl⟩ := List.mem_map.mp hcall
    exact hafter a ha
  · intro before i v now between j w now' after ci cj mi mj hsplit hci hcj hri hrj
    have hputi := hlin.results before _ _ hsplit ci hci
    have hputj := hlin.results (before ++ (i,.put v .ifNoneMatchStar now) :: between)
      (j,.put w .ifNoneMatchStar now') after (by rw [hsplit]; simp) cj hcj
    rw [hri, runAll_keyOps] at hputi
    rw [hrj, runAll_keyOps] at hputj
    obtain ⟨_,_,hrow⟩ := put_result (Option.some.inj hputi).symm
    obtain ⟨hcheck,_,_⟩ := put_result (Option.some.inj hputj).symm
    simp only [map_append, map_cons, runCalls_append, runCalls_cons, hrow] at hcheck
    by_contra hno
    -- without a delete in between the first object is still there
    have hlive := latestLive_kept (between.map Prod.snd)
      (some (putRow (runCalls row0 (before.map Prod.snd)) v now))
      (by simp [latestLive_putRow]) (by
        intro pre ref post hpost hok
        obtain ⟨pre',rest,hbetween,hpre,hrest⟩ := map_eq_append_iff.mp hpost
        obtain ⟨e,post',hcons,he,_⟩ := map_eq_cons_iff.mp hrest
        obtain ⟨k,callk⟩ := e
        simp only at he
        subst he
        have hkeff : s.effects = (before ++ (i,.put v .ifNoneMatchStar now) :: pre') ++
            (k,.delete ref) :: (post' ++ (j,.put w .ifNoneMatchStar now') :: after) := by
          rw [hsplit, hbetween, hcons]
          simp
        obtain ⟨ck,hck,_⟩ := hlin.known (k,.delete ref) (by rw [hkeff]; simp)
        have hrk := hlin.results _ _ _ hkeff ck hck
        simp only [runAll_keyOps, result_keyOps, map_append, map_cons, runCalls_append,
          runCalls_cons, hrow, hpre] at hrk
        rw [hok] at hrk
        apply hno
        refine ⟨k,ref,ck,?_,hck,hrk⟩
        rw [hbetween, hcons]
        simp)
    unfold Precondition.check at hcheck
    simp only [hlive, if_true] at hcheck
    cases hcheck

def racingCreates : List (LockedCell.Action KeyCall) :=
  [.invoke 0 (.put abcVersion .ifNoneMatchStar 0), .invoke 1 (.put xyzVersion .ifNoneMatchStar 1),
    .step 1, .step 1, .step 1, .step 1, .step 1, .step 0, .step 0, .step 0, .step 0]

theorem racing_creates_linearizable :
    ∃ s : KeyState, (decide (s.cell = some (ObjectMeta.newLive xyzVersion 1)) &&
        decide (s.effects.map Prod.fst = [1, 0]) && decide (s.holder = none)) = true ∧
      ∃ order, LockedCell.Linearizes keyOps none s order := by
  obtain ⟨s,hs,hP⟩ := Transition.reachable_of_run (fun s => s = LockedCell.start none)
    (LockedCell.step keyOps)
    (P := fun s => (decide (s.cell = some (ObjectMeta.newLive xyzVersion 1)) &&
      decide (s.effects.map Prod.fst = [1, 0]) && decide (s.holder = none)) = true)
    racingCreates (LockedCell.start none) rfl (by decide +kernel)
  obtain ⟨order,hlin,_⟩ := index_writes_linearizable none s hs
  exact ⟨s,hP,order,hlin⟩

end BackendGauntlet.ObjectStore
