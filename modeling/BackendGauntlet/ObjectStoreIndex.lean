import BackendGauntlet.ObjectStoreObjects

/-! The writes of the index on the row of one key, which is `none` while there is no file. -/
namespace BackendGauntlet.ObjectStore

open PyText List

def indexPut (current : Option ObjectMeta) (v : NewVersion) (guard : Precondition) (now : ℤ) :
    Except AppError ObjectMeta :=
  match guard.check current with
  | .error e => .error e
  | .ok _ => .ok (putRow current v now)

def indexDelete (current : Option ObjectMeta) (ref : ObjectRef) :
    Except AppError (Option ObjectMeta) :=
  match ref with
  -- a missing file is a success
  | none => .ok none
  | some id =>
    match current with
    | none => .error .noSuchKey
    | some m =>
      match m.removeVersion id with
      | none => .error .noSuchKey
      | some m' => .ok (if m'.versions = [] then none else some m')

def indexResolve (current : Option ObjectMeta) (ref : ObjectRef) : Except AppError ResolvedObject :=
  match current with
  | none => .error .noSuchKey
  | some m => m.resolveLive ref

/-- A write to one key. `now` is what a put reads from the clock. -/
inductive KeyCall
  | put (v : NewVersion) (guard : Precondition) (now : ℤ)
  | delete (ref : ObjectRef)
deriving DecidableEq

def KeyCall.apply (call : KeyCall) (current : Option ObjectMeta) :
    Except AppError (Option ObjectMeta × Option ObjectMeta) :=
  match call with
  | .put v guard now => (indexPut current v guard now).map (fun m => (some m,some m))
  | .delete ref => (indexDelete current ref).map (fun row => (row,none))

def KeyCall.rowAfter (call : KeyCall) (current : Option ObjectMeta) : Option ObjectMeta :=
  match call.apply current with
  | .ok r => r.1
  | .error _ => current

def KeyCall.result (call : KeyCall) (current : Option ObjectMeta) :
    Except AppError (Option ObjectMeta) :=
  (call.apply current).map Prod.snd

def runCalls (row : Option ObjectMeta) (calls : List KeyCall) : Option ObjectMeta :=
  calls.foldl (fun row call => call.rowAfter row) row

variable (row : Option ObjectMeta)

@[simp] theorem runCalls_nil : runCalls row [] = row := rfl

@[simp] theorem runCalls_cons (call : KeyCall) (calls : List KeyCall) :
    runCalls row (call :: calls) = runCalls (call.rowAfter row) calls := rfl

theorem runCalls_append (xs ys : List KeyCall) :
    runCalls row (xs ++ ys) = runCalls (runCalls row xs) ys := foldl_append

def KeyCall.assigns (call : KeyCall) (current : Option ObjectMeta) :
    Option (VersionId × NewVersion) :=
  match call with
  | .put v guard now => (indexPut current v guard now).toOption.map (fun m => (m.latest,v))
  | .delete _ => none

def assigned (row : Option ObjectMeta) : List KeyCall → List (VersionId × NewVersion)
  | [] => []
  | call :: calls => (call.assigns row).toList ++ assigned (call.rowAfter row) calls

def creations (row : Option ObjectMeta) : List KeyCall → ℕ
  | [] => 0
  | call :: calls =>
    (if row = none ∧ (call.assigns row).isSome then 1 else 0)+creations (call.rowAfter row) calls

variable (current : Option ObjectMeta)

theorem indexPut_eq_ok (v : NewVersion) (guard : Precondition)
    (now : ℤ) (m : ObjectMeta) :
    indexPut current v guard now = .ok m ↔
      guard.check current = .ok () ∧ m = putRow current v now := by
  unfold indexPut
  cases hc : guard.check current with
  | error e => simp
  | ok u => simp [eq_comm]

theorem removeVersion_eq_some (m m' : ObjectMeta) (id : VersionId)
    (h : m.removeVersion id = some m') :
    m'.versions = m.versions.filter (fun e => e.id ≠ id) ∧ m'.nextId = m.nextId ∧
      (m'.latest = if m.latest = id then ObjectMeta.highest m'.versions else m.latest) ∧
      ∃ e ∈ m.versions, e.id = id := by
  unfold ObjectMeta.removeVersion at h
  simp only at h
  by_cases hl : (m.versions.filter (fun e => e.id ≠ id)).length = m.versions.length
  · rw [if_pos hl] at h
    cases h
  · rw [if_neg hl] at h
    have hm := Option.some.inj h
    subst hm
    refine ⟨rfl,rfl,rfl,?_⟩
    -- otherwise the filter would have kept every version
    by_contra hn
    push Not at hn
    apply hl
    rw [filter_eq_self.mpr]
    intro e he
    simpa using hn e he

theorem indexDelete_version (current row : Option ObjectMeta) (id : VersionId)
    (h : indexDelete current (some id) = .ok row) :
    ∃ m m', current = some m ∧ m.removeVersion id = some m' ∧
      row = if m'.versions = [] then none else some m' := by
  unfold indexDelete at h
  cases current with
  | none => cases h
  | some m =>
    simp only at h
    cases hm : m.removeVersion id with
    | none =>
      rw [hm] at h
      cases h
    | some m' =>
      rw [hm] at h
      exact ⟨m,m',rfl,hm,(Except.ok.inj h).symm⟩

variable (call : KeyCall)

theorem KeyCall.apply_cases (current : Option ObjectMeta) :
    (∃ e, call.apply current = .error e ∧ call.assigns current = none) ∨
    (∃ v guard now, call = .put v guard now ∧ guard.check current = .ok () ∧
      call.apply current = .ok (some (putRow current v now),some (putRow current v now)) ∧
      call.assigns current = some ((putRow current v now).latest,v)) ∨
    (∃ ref row, call = .delete ref ∧ indexDelete current ref = .ok row ∧
      call.apply current = .ok (row,none) ∧ call.assigns current = none) := by
  cases call with
  | put v guard now =>
    cases hp : indexPut current v guard now with
    | error e =>
      left
      exact ⟨e,by simp [KeyCall.apply, hp, Except.map],
        by simp [KeyCall.assigns, hp, Except.toOption]⟩
    | ok m =>
      obtain ⟨hc,hm⟩ := (indexPut_eq_ok current v guard now m).mp hp
      subst hm
      right; left
      exact ⟨v,guard,now,rfl,hc,by simp [KeyCall.apply, hp, Except.map],
        by simp [KeyCall.assigns, hp, Except.toOption]⟩
  | delete ref =>
    cases hd : indexDelete current ref with
    | error e =>
      left
      exact ⟨e,by simp [KeyCall.apply, hd, Except.map],rfl⟩
    | ok row =>
      right; right
      exact ⟨ref,row,rfl,hd,by simp [KeyCall.apply, hd, Except.map],rfl⟩

def ObjectMeta.Counted (m : ObjectMeta) : Prop := ∀ e ∈ m.versions, e.id < m.nextId

theorem ObjectMeta.highest_mem {es : List VersionEntry} (h : es ≠ []) :
    ∃ e ∈ es, e.id = highest es := by
  have hfold (l : List VersionEntry) (a : VersionId) :
      l.foldl (fun m v => max m v.id) a = a ∨
        ∃ e ∈ l, e.id = l.foldl (fun m v => max m v.id) a := by
    induction l generalizing a with
    | nil => exact Or.inl rfl
    | cons y l ih =>
      simp only [foldl_cons, mem_cons]
      rcases ih (max a y.id) with hm | ⟨e,he,hm⟩
      · rw [hm]
        rcases Int.le_total a y.id with hle | hle
        · exact Or.inr ⟨y,Or.inl rfl,(Int.max_eq_right hle).symm⟩
        · exact Or.inl (Int.max_eq_left hle)
      · exact Or.inr ⟨e,Or.inr he,hm⟩
  cases es with
  | nil => exact absurd rfl h
  | cons y l =>
    rcases hfold l y.id with hm | ⟨e,he,hm⟩
    · exact ⟨y,mem_cons_self,hm.symm⟩
    · exact ⟨e,mem_cons_of_mem y he,hm⟩

theorem ObjectMeta.Counted.freshId_eq (m : ObjectMeta) (h : m.Counted) (hn : 0 < m.nextId) :
    m.freshId = m.nextId := by
  have hlt : ObjectMeta.highest m.versions < m.nextId := by
    by_cases hv : m.versions = []
    · rw [hv]
      exact hn
    · obtain ⟨e,he,hid⟩ := ObjectMeta.highest_mem hv
      rw [← hid]
      exact h e he
  unfold ObjectMeta.freshId
  exact Int.max_eq_left (Int.add_one_le_of_lt hlt)

def Counts (row : Option ObjectMeta) : Prop := ∀ m, row = some m → m.Counted ∧ 0 < m.nextId

theorem counts_none : Counts none := by
  intro m h
  cases h

theorem counted_putRow (v : NewVersion) (now : ℤ)
    (h : Counts current) :
    (putRow current v now).Counted ∧
      (putRow current v now).nextId = (putRow current v now).latest+1 ∧
      (putRow current v now).latest = (current.map ObjectMeta.nextId).getD 1 := by
  cases current with
  | none => simp [putRow, ObjectMeta.newLive, ObjectMeta.Counted]
  | some m =>
    obtain ⟨hc,hn⟩ := h m rfl
    have hf := ObjectMeta.Counted.freshId_eq m hc hn
    refine ⟨?_,rfl,by simpa [putRow, ObjectMeta.appendLive] using hf⟩
    intro e he
    simp only [putRow, ObjectMeta.appendLive, mem_append, mem_singleton] at he ⊢
    rcases he with he | rfl
    · rw [hf]
      exact Int.lt_add_one_of_le (Int.le_of_lt (hc e he))
    · exact Int.lt_succ _

theorem counts_rowAfter (current : Option ObjectMeta) (h : Counts current) :
    Counts (call.rowAfter current) := by
  unfold KeyCall.rowAfter
  rcases call.apply_cases current with ⟨e,ha,_⟩ | ⟨v,guard,now,_,_,ha,_⟩ |
      ⟨ref,row,_,hd,ha,_⟩
  · rw [ha]
    exact h
  · rw [ha]
    intro m hm
    cases hm
    obtain ⟨hc,hn,hl⟩ := counted_putRow current v now h
    refine ⟨hc,?_⟩
    have hpos : 0 < (current.map ObjectMeta.nextId).getD 1 := by
      cases current with
      | none => exact Int.one_pos
      | some m => exact (h m rfl).2
    rw [hn, hl]
    exact Int.lt_add_one_of_le (Int.le_of_lt hpos)
  · rw [ha]
    intro m hm
    cases ref with
    | none => exact absurd (hm.symm.trans (Except.ok.inj hd).symm) (by simp)
    | some id =>
      obtain ⟨m0,m',hcur,hr,hrow⟩ := indexDelete_version current row id hd
      obtain ⟨hv,hn,_,_⟩ := removeVersion_eq_some m0 m' id hr
      obtain ⟨hc0,hn0⟩ := h m0 hcur
      have hmm : m = m' := by
        have hm' : row = some m := hm
        rw [hrow] at hm'
        split at hm'
        · cases hm'
        · exact (Option.some.inj hm').symm
      subst hmm
      refine ⟨?_,hn ▸ hn0⟩
      intro e he
      rw [hv] at he
      rw [hn]
      exact hc0 e (mem_filter.mp he).1

theorem nextId_rowAfter (m m' : ObjectMeta) (hm : Counts (some m))
    (h : call.rowAfter (some m) = some m') : m.nextId ≤ m'.nextId := by
  unfold KeyCall.rowAfter at h
  rcases call.apply_cases (some m) with ⟨e,ha,_⟩ | ⟨v,guard,now,_,_,ha,_⟩ |
      ⟨ref,row,_,hd,ha,_⟩
  · rw [ha] at h
    cases h
    exact Int.le_refl _
  · rw [ha] at h
    cases h
    obtain ⟨_,hn,hl⟩ := counted_putRow (some m) v now hm
    simp only [Option.map_some, Option.getD_some] at hl
    rw [hn, hl]
    exact Int.le_add_one (Int.le_refl _)
  · rw [ha] at h
    have hrow : row = some m' := h
    cases ref with
    | none => exact absurd (hrow.symm.trans (Except.ok.inj hd).symm) (by simp)
    | some id =>
      obtain ⟨m0,m1,hcur,hr,hif⟩ := indexDelete_version (some m) row id hd
      cases hcur
      obtain ⟨_,hn,_,_⟩ := removeVersion_eq_some m m1 id hr
      rw [hif] at hrow
      split at hrow
      · cases hrow
      · cases hrow
        exact Int.le_of_eq hn.symm

variable (calls : List KeyCall)

/-- While no put creates a row, ids are handed out in increasing order from the counter on. -/
theorem assigned_increasing (row : Option ObjectMeta) (n : VersionId)
    (hrow : Counts row) (hn : ∀ m, row = some m → n ≤ m.nextId) (hc : creations row calls = 0) :
    (∀ a ∈ assigned row calls, n ≤ a.1) ∧
      ((assigned row calls).map Prod.fst).Pairwise (fun a b => a < b) := by
  induction calls generalizing row n with
  | nil => simp [assigned]
  | cons call calls ih =>
    obtain ⟨hc1,hc2⟩ := Nat.add_eq_zero_iff.mp hc
    have hstep : ∀ m', call.rowAfter row = some m' → n ≤ m'.nextId := by
      intro m' hm'
      cases row with
      | none =>
        -- a row appears only by a creation, and there is none
        exfalso
        rcases call.apply_cases none with ⟨e,ha,_⟩ | ⟨v,guard,now,_,_,_,hs⟩ |
            ⟨ref,row,_,hd,ha,_⟩
        · simp [KeyCall.rowAfter, ha] at hm'
        · simp [hs] at hc1
        · simp only [KeyCall.rowAfter, ha] at hm'
          cases ref with
          | none => simp [indexDelete] at hd; simp [← hd] at hm'
          | some id => simp [indexDelete] at hd
      | some m => exact Int.le_trans (hn m rfl) (nextId_rowAfter call m m' hrow hm')
    have hrow' := counts_rowAfter call row hrow
    cases hs : call.assigns row with
    | none =>
      simp only [assigned, hs, Option.toList_none, nil_append]
      exact ih _ n hrow' hstep hc2
    | some a =>
      -- the call is a put on a row that is there, and takes the counter's value
      rcases call.apply_cases row with ⟨e,_,ha⟩ | ⟨v,guard,now,_,_,ha,hs'⟩ |
          ⟨ref,row,_,_,_,ha⟩
      · rw [ha] at hs
        cases hs
      · obtain ⟨m,hm⟩ : ∃ m, row = some m := by
          cases row with
          | none => simp [hs] at hc1
          | some m => exact ⟨m,rfl⟩
        have hal : a = ((putRow row v now).latest,v) := Option.some.inj (hs.symm.trans hs')
        obtain ⟨_,hnext,hlat⟩ := counted_putRow row v now hrow
        have hid : a.1 = m.nextId := by
          rw [hal, hlat, hm]
          rfl
        have hrest := ih (call.rowAfter row) (a.1+1) hrow' (by
          intro m' hm'
          rw [KeyCall.rowAfter, ha] at hm'
          cases Option.some.inj hm'
          simp only [hnext, hal, Int.le_refl]) hc2
        have hge : n ≤ a.1 := hid ▸ hn m hm
        simp only [assigned, hs, Option.toList_some, singleton_append, map_cons,
          pairwise_cons, mem_cons, List.mem_map]
        refine ⟨?_,?_,hrest.2⟩
        · intro b hb
          rcases hb with rfl | hb
          · exact hge
          · exact Int.le_trans hge (Int.le_of_lt (Int.lt_of_add_one_le (hrest.1 b hb)))
        · intro x hx
          obtain ⟨b,hb,rfl⟩ := hx
          exact Int.lt_of_add_one_le (hrest.1 b hb)
      · rw [ha] at hs
        cases hs

theorem creations_le_count (row : Option ObjectMeta) :
    creations row calls ≤ ((assigned row calls).map Prod.fst).count 1 := by
  induction calls generalizing row with
  | nil => simp [creations]
  | cons call calls ih =>
    have hrest := ih (call.rowAfter row)
    simp only [creations, assigned, map_append, count_append]
    by_cases h : row = none ∧ (call.assigns row).isSome
    · rw [if_pos h]
      obtain ⟨a,ha⟩ := Option.isSome_iff_exists.mp h.2
      have hone : a.1 = 1 := by
        rcases call.apply_cases row with ⟨e,_,hs⟩ | ⟨v,guard,now,_,_,_,hs⟩ |
            ⟨ref,row,_,_,_,hs⟩
        · rw [hs] at ha
          cases ha
        · rw [hs, h.1] at ha
          cases ha
          rfl
        · rw [hs] at ha
          cases ha
      simp only [ha, Option.toList_some, map_cons, map_nil, hone]
      simp only [count_singleton_self]
      omega
    · rw [if_neg h]
      omega

theorem versions_assigned (row : Option ObjectMeta) (m : ObjectMeta)
    (h : runCalls row calls = some m) (e : VersionEntry) (he : e ∈ m.versions) :
    (∃ m0, row = some m0 ∧ e ∈ m0.versions) ∨
      ∃ v, e.asLive = some v ∧ (e.id,v) ∈ assigned row calls := by
  induction calls generalizing row with
  | nil => exact Or.inl ⟨m,h,he⟩
  | cons call calls ih =>
    rw [runCalls_cons] at h
    rcases ih _ h with ⟨m1,hm1,he1⟩ | ⟨v,hv,ha⟩
    · -- the entry was in the row after the first call
      unfold KeyCall.rowAfter at hm1
      rcases call.apply_cases row with ⟨x,ha,_⟩ | ⟨v,guard,now,_,_,ha,hs⟩ |
          ⟨ref,row',_,hd,ha,_⟩
      · rw [ha] at hm1
        exact Or.inl ⟨m1,hm1,he1⟩
      · rw [ha] at hm1
        cases hm1
        cases row with
        | none =>
          right
          simp only [putRow, ObjectMeta.newLive, mem_singleton] at he1
          subst he1
          exact ⟨v,rfl,by simp [assigned, hs, putRow, ObjectMeta.newLive]⟩
        | some m0 =>
          simp only [putRow, ObjectMeta.appendLive, mem_append, mem_singleton] at he1
          rcases he1 with he1 | he1
          · exact Or.inl ⟨m0,rfl,he1⟩
          · right
            subst he1
            exact ⟨v,rfl,by simp [assigned, hs, putRow, ObjectMeta.appendLive]⟩
      · rw [ha] at hm1
        have hrow' : row' = some m1 := hm1
        cases ref with
        | none => exact absurd (hrow'.symm.trans (Except.ok.inj hd).symm) (by simp)
        | some id =>
          obtain ⟨m0,m',hcur,hr,hif⟩ := indexDelete_version row row' id hd
          obtain ⟨hv,_,_,_⟩ := removeVersion_eq_some m0 m' id hr
          rw [hif] at hrow'
          split at hrow'
          · cases hrow'
          · cases Option.some.inj hrow'
            rw [hv] at he1
            exact Or.inl ⟨m0,hcur,(mem_filter.mp he1).1⟩
    · exact Or.inr ⟨v,hv,by simp [assigned, ha]⟩

theorem assigned_append (xs ys : List KeyCall) :
    assigned row (xs ++ ys) = assigned row xs ++ assigned (runCalls row xs) ys := by
  induction xs generalizing row with
  | nil => rfl
  | cons x xs ih => simp [assigned, ih]

theorem assigned_nodup {calls : List KeyCall} (h : creations none calls ≤ 1) :
    ((assigned none calls).map Prod.fst).Nodup := by
  induction calls with
  | nil => simp [assigned]
  | cons call calls ih =>
    rcases call.apply_cases none with ⟨e,ha,hs⟩ | ⟨v,guard,now,_,_,ha,hs⟩ |
        ⟨ref,row,_,hd,ha,hs⟩
    · simp only [creations, assigned, hs, KeyCall.rowAfter, ha] at h ⊢
      exact ih (by simpa using h)
    · -- the creation: the rest starts from the counter 2
      simp only [creations, assigned, hs, KeyCall.rowAfter, ha] at h ⊢
      have hrest : creations (some (putRow none v now)) calls = 0 := by
        have h' : 1+creations (some (putRow none v now)) calls ≤ 1 := by simpa using h
        omega
      have hcounts : Counts (some (putRow none v now)) := by
        have := counts_rowAfter call none counts_none
        rwa [KeyCall.rowAfter, ha] at this
      obtain ⟨hge,hpair⟩ := assigned_increasing calls (some (putRow none v now)) 2 hcounts (by
          intro m hm
          cases hm
          exact Int.le_refl _) hrest
      simp only [Option.toList_some, singleton_append, map_cons, nodup_cons]
      refine ⟨?_,hpair.imp (fun hlt => Int.ne_of_lt hlt)⟩
      intro hm
      obtain ⟨a,ha,hid⟩ := List.mem_map.mp hm
      have h1 : a.1 = 1 := hid
      exact absurd (h1 ▸ hge a ha) (by decide)
    · have hrow : row = none := by
        cases ref with
        | none => exact (Except.ok.inj hd).symm
        | some id => simp [indexDelete] at hd
      simp only [creations, assigned, hs, KeyCall.rowAfter, ha, hrow] at h ⊢
      exact ih (by simpa using h)

/-- The ids a sequence of calls hands out are distinct, and each resolves to its content or to
nothing, exactly when at most one put creates the row. -/
theorem version_ids_unique_iff (calls : List KeyCall) :
    (((assigned none calls).map Prod.fst).Nodup ∧
      ∀ earlier later, calls = earlier ++ later → ∀ id v, (id,v) ∈ assigned none earlier →
        ∀ r, indexResolve (runCalls none earlier) (some id) = .ok r → r.live = v) ↔
      creations none calls ≤ 1 := by
  constructor
  · intro h
    exact Nat.le_trans (creations_le_count calls none) (nodup_iff_count_le_one.mp h.1 1)
  · intro h
    have hnodup := assigned_nodup h
    refine ⟨hnodup,?_⟩
    intro earlier later hsplit id v hid r hr
    have hsub : ((assigned none earlier).map Prod.fst).Nodup := by
      rw [hsplit, assigned_append, map_append] at hnodup
      exact (nodup_append.mp hnodup).1
    -- the version found was assigned under the same id
    cases hrow : runCalls none earlier with
    | none =>
      rw [hrow] at hr
      cases hr
    | some m =>
      rw [hrow] at hr
      obtain ⟨e,he,hlive,hrid,hrv⟩ := resolveLive_mem hr
      have heid : e.id = id := hrid.trans hrv
      rcases versions_assigned earlier none m hrow e he with ⟨_,h0,_⟩ | ⟨w,hw,ha⟩
      · cases h0
      · have hwr : w = r.live := Option.some.inj (hw.symm.trans hlive)
        rw [heid] at ha
        have heq := inj_on_of_nodup_map hsub ha hid rfl
        rw [← hwr]
        exact congrArg Prod.snd heq

/-- Put, delete, put: both puts are version 1, which resolves to the second content. -/
theorem version_id_reused :
    assigned none [.put abcVersion .none 0, .delete none, .put xyzVersion .none 1] =
      [(1,abcVersion), (1,xyzVersion)] ∧
    indexResolve (runCalls none [.put abcVersion .none 0]) (some 1) = .ok ⟨1,abcVersion,0⟩ ∧
    indexResolve (runCalls none [.put abcVersion .none 0, .delete none, .put xyzVersion .none 1])
      (some 1) = .ok ⟨1,xyzVersion,1⟩ := by
  decide +kernel

end BackendGauntlet.ObjectStore
