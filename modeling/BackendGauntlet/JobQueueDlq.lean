import BackendGauntlet.JobQueue

/-! Walking the dead-letter list by offsets while jobs die and are requeued. -/
namespace BackendGauntlet.JobQueue

open Transition List

/-- `WHERE state = 'dead' ORDER BY id DESC`. -/
def deadJobs (jobs : Jobs) : List Job :=
  ((jobs.entries.filter (fun e => e.2.state = .dead)).insertionSort (fun e e' => e'.1 ≤ e.1)).map
    (fun e => toJob e.1 e.2)

def getDlq (limit offset : ℕ) (jobs : Jobs) : List Job := ((deadJobs jobs).drop offset).take limit

def deadIds (jobs : Jobs) : List JobId := (deadJobs jobs).map Job.id

/-- A walk and the table under it. `steady` is history: the jobs that have been dead since the
walk began. -/
structure DlqWalk where
  table : QueueState
  pages : List (List Job)
  steady : List JobId
  ended : Bool

def walkFrom (table : QueueState) : DlqWalk := ⟨table,[],deadIds table.jobs,false⟩

def DlqWalk.returned (w : DlqWalk) : List JobId := w.pages.flatten.map Job.id

inductive WalkAction
  | table (a : QueueAction)
  | page

def walkStep (cfg : QueueConfig) (limit : ℕ) (w : DlqWalk) (a : WalkAction) : Option DlqWalk :=
  if w.ended then none
  else match a with
    | .table a => (step cfg w.table a).map (fun t =>
        { w with table := t, steady := w.steady.filter (· ∈ deadIds t.jobs) })
    | .page =>
      let page := getDlq limit (limit*w.pages.length) w.table.jobs
      some { w with pages := w.pages ++ [page], ended := page.length < limit }

/-- The job that an action puts on the list or takes off it: a late `ack` or `nack` does so too. -/
def moves (s : QueueState) : QueueAction → Option JobId
  | .ack i => (settles s (.ack i)).filter (fun id => stateOf s id = some .dead)
  | .nack i _ _ => s.pending[i]?.bind (fun c =>
      if (stateOf s c.job.id = some .dead) = (nackState c.job = .dead) then none else some c.job.id)
  | .requeue id => if stateOf s id = some .dead then some id else none
  | _ => none

/-- A job that dies or is requeued is older than those returned so far. -/
def keepsReturned (limit : ℕ) (w : DlqWalk) : WalkAction → Bool
  | .table a => (moves w.table a).all (fun id =>
      ((deadIds w.table.jobs).take (limit*w.pages.length)).all (fun r => id < r))
  | .page => true

theorem deadIds_eq (jobs : Jobs) :
    deadIds jobs = ((jobs.entries.filter (fun e => e.2.state = .dead)).insertionSort
      (fun e e' => e'.1 ≤ e.1)).map Prod.fst := by
  simp [deadIds, deadJobs, toJob]

theorem deadIds_nodup {jobs : Jobs} : (deadIds jobs).Nodup := by
  rw [deadIds_eq, ((perm_insertionSort _ _).map Prod.fst).nodup_iff]
  exact (filter_sublist.map Prod.fst).nodup jobs.nodup

theorem mem_deadIds {s : QueueState} {id : JobId} :
    id ∈ deadIds s.jobs ↔ stateOf s id = some .dead := by
  simp only [deadIds_eq, mem_map, mem_insertionSort, mem_filter, decide_eq_true_eq, Prod.exists,
    exists_and_right, exists_eq_right, stateOf, Option.map_eq_some_iff, ← Dict.get_eq_some_iff]

theorem deadIds_sorted {jobs : Jobs} : (deadIds jobs).Pairwise (fun a b => b < a) := by
  have : Std.Total (fun e e' : JobId × JobRow => e'.1 ≤ e.1) := ⟨fun e e' => Nat.le_total e'.1 e.1⟩
  have : IsTrans (JobId × JobRow) (fun e e' => e'.1 ≤ e.1) := ⟨fun a b c h h' => Nat.le_trans h' h⟩
  have hle : (deadIds jobs).Pairwise (fun a b => b ≤ a) := by
    rw [deadIds_eq, pairwise_map]
    exact pairwise_insertionSort _ _
  exact hle.imp₂ (fun _ _ hle hne => Nat.lt_of_le_of_ne hle (Ne.symm hne)) deadIds_nodup

/-- Only the job that an action moves changes between dead and not dead. -/
theorem mem_deadIds_step {cfg : QueueConfig} {s t : QueueState} {a : QueueAction}
    (h : Step cfg s a t) {id : JobId} (hmove : moves s a ≠ some id) :
    id ∈ deadIds t.jobs ↔ id ∈ deadIds s.jobs := by
  rw [mem_deadIds, mem_deadIds]
  cases hs : s.jobs.get id with
  | none =>
    cases ht : t.jobs.get id with
    | none => simp [stateOf, hs, ht]
    | some row =>
      obtain ⟨new,_,rfl⟩ := step_new_row h hs ht
      simp [stateOf, hs, ht, enqueueRow]
  | some row =>
    obtain ⟨row',ht,hrow⟩ := step_row cfg s t a h id row hs
    have hstate : stateOf s id = some row.state := by simp [stateOf, hs]
    have hstate' : stateOf t id = some row'.state := by simp [stateOf, ht]
    rw [hstate, hstate']
    cases hrow with
    | same => rfl
    | claimed _ _ _ _ _ _ hready => simp [claimRow, hready]
    | acked i c hc hid =>
      have hopen : row.state ≠ .dead := by
        intro hdead
        simp [moves, settles, hc, hid, hstate, hdead] at hmove
      simp [ackRow, hopen]
    | nacked i error delay c hc hid =>
      have hkept : (row.state = .dead) = (nackState c.job = .dead) := by
        by_contra hchanged
        simp only [moves, hc, Option.bind_some, hid, hstate, Option.some.injEq] at hmove
        exact hmove (by rw [if_neg hchanged])
      simp [nackRow, hkept]
    | reaped _ hrunning => simp [hrunning]
    | requeued hdead => simp [moves, hstate, hdead] at hmove

/-- Two lists in falling order begin alike as far as they have the same elements from there up. -/
theorem take_eq_take {x y : List JobId} (hx : x.Pairwise (fun a b => b < a))
    (hy : y.Pairwise (fun a b => b < a)) {n : ℕ} (hn : n ≤ x.length)
    (h : ∀ b, (∃ a ∈ x.take n, a ≤ b) → (b ∈ x ↔ b ∈ y)) : y.take n = x.take n := by
  induction n generalizing x y with
  | zero => rfl
  | succ n ih =>
    cases x with
    | nil => simp at hn
    | cons a x =>
      rw [pairwise_cons] at hx
      have ha : a ∈ y := (h a ⟨a,by simp,Nat.le_refl a⟩).mp mem_cons_self
      cases y with
      | nil => cases ha
      | cons b y =>
        rw [pairwise_cons] at hy
        have hab : a ≤ b := by
          rcases mem_cons.mp ha with rfl | ha
          · exact Nat.le_refl a
          · exact (hy.1 a ha).le
        obtain rfl : b = a := by
          rcases mem_cons.mp ((h b ⟨a,by simp,hab⟩).mpr mem_cons_self) with hb | hb
          · exact hb
          · exact absurd (hx.1 b hb) (Nat.not_lt.mpr hab)
        rw [take_succ_cons, take_succ_cons, ih hx.2 hy.2 (by simpa using hn)]
        rintro c ⟨d,hd,hdc⟩
        have hc := h c ⟨d,by simp [hd],hdc⟩
        rw [mem_cons, mem_cons] at hc
        by_cases hcb : c = b
        · -- the first element does not come again in either list
          subst hcb
          exact ⟨fun hm => absurd (hx.1 c hm) (Nat.lt_irrefl c),
            fun hm => absurd (hy.1 c hm) (Nat.lt_irrefl c)⟩
        · simpa [hcb] using hc

theorem take_returned {cfg : QueueConfig} {limit : ℕ} {w : DlqWalk} {a : QueueAction}
    {t : QueueState} (hok : keepsReturned limit w (.table a) = true) (h : Step cfg w.table a t)
    (hfull : limit*w.pages.length ≤ (deadIds w.table.jobs).length) :
    (deadIds t.jobs).take (limit*w.pages.length) =
      (deadIds w.table.jobs).take (limit*w.pages.length) := by
  apply take_eq_take deadIds_sorted deadIds_sorted hfull
  rintro id ⟨r,hr,hle⟩
  refine (mem_deadIds_step h ?_).symm
  -- the job moved is older than `r`, and `id` is not
  intro hmove
  simp only [keepsReturned, hmove, Option.all_some, all_eq_true] at hok
  exact Nat.not_lt.mpr hle (of_decide_eq_true (hok r hr))

structure InStep (limit : ℕ) (w : DlqWalk) : Prop where
  returned : w.returned = (deadIds w.table.jobs).take (limit*w.pages.length)
  full : w.ended = false → limit*w.pages.length ≤ (deadIds w.table.jobs).length
  whole : w.ended = true → (deadIds w.table.jobs).length ≤ limit*w.pages.length
  steady : ∀ id ∈ w.steady, id ∈ deadIds w.table.jobs

theorem inStep_page {limit : ℕ} {w : DlqWalk} (hinv : InStep limit w) (hopen : w.ended = false) :
    let page := getDlq limit (limit*w.pages.length) w.table.jobs
    InStep limit { w with pages := w.pages ++ [page], ended := page.length < limit } := by
  intro page
  have hnext : limit*(w.pages ++ [page]).length = limit*w.pages.length+limit := by
    rw [length_append, length_singleton, Nat.mul_add, Nat.mul_one]
  have hlength : page.length = min limit ((deadIds w.table.jobs).length-limit*w.pages.length) := by
    simp [page, getDlq, deadIds]
  have hfull := hinv.full hopen
  refine ⟨?_,?_,?_,hinv.steady⟩
  · calc ((w.pages ++ [page]).flatten).map Job.id
        = w.returned ++ page.map Job.id := by simp [DlqWalk.returned]
      _ = (deadIds w.table.jobs).take (limit*w.pages.length) ++
            ((deadIds w.table.jobs).drop (limit*w.pages.length)).take limit := by
          rw [hinv.returned]
          simp [page, getDlq, deadIds, map_take, map_drop]
      _ = (deadIds w.table.jobs).take (limit*(w.pages ++ [page]).length) := by
          rw [hnext, take_add]
  · intro hfits
    have hfits : ¬ page.length < limit := of_decide_eq_false hfits
    simp only [hnext]
    omega
  · intro hshort
    have hshort : page.length < limit := of_decide_eq_true hshort
    simp only [hnext]
    omega

theorem inStep_step {cfg : QueueConfig} {limit : ℕ} {w v : DlqWalk} {a : WalkAction}
    (hinv : InStep limit w) (hok : keepsReturned limit w a = true)
    (h : walkStep cfg limit w a = some v) : InStep limit v := by
  unfold walkStep at h
  split_ifs at h with hended
  have hopen : w.ended = false := by simpa using hended
  cases a with
  | table a =>
    obtain ⟨t,ht,rfl⟩ := Option.map_eq_some_iff.mp h
    have hfull := hinv.full hopen
    have hkept := take_returned hok (step_cases ht) hfull
    -- the beginning that is kept is as long as before, so the new list is no shorter
    have hlength := congrArg length hkept
    rw [length_take, length_take] at hlength
    refine ⟨hinv.returned.trans hkept.symm,?_,?_,?_⟩
    · intro _
      change limit*w.pages.length ≤ (deadIds t.jobs).length
      omega
    · intro he
      rw [hopen] at he
      cases he
    · intro id hid
      simpa using (mem_filter.mp hid).2
  | page =>
    cases h
    exact inStep_page hinv hopen

/-- Such a walk returns no job twice, and in the end every job that was dead all along exactly once.
-/
theorem walk_returns_once (cfg : QueueConfig) (limit : ℕ) (w : DlqWalk)
    (hw : Reachable (fun w => ∃ table, w = walkFrom table) (walkStep cfg limit)
      (fun w a => keepsReturned limit w a = true) w) :
    w.returned.Nodup ∧ (w.ended = true → ∀ id ∈ w.steady, w.returned.count id = 1) := by
  have hinv : InStep limit w := by
    refine reachable_invariant (InStep limit) ?_ ?_ w hw
    · rintro _ ⟨table,rfl⟩
      exact ⟨rfl,fun _ => Nat.zero_le _,fun he => (Bool.false_ne_true he).elim,fun _ hid => hid⟩
    · intro u v a hu hok hstep
      exact inStep_step hu hok hstep
  have hnodup : w.returned.Nodup := by
    rw [hinv.returned]
    exact (take_sublist _ _).nodup (deadIds_nodup)
  refine ⟨hnodup,?_⟩
  intro hended id hid
  apply count_eq_one_of_mem hnodup
  rw [hinv.returned, take_of_length_le (hinv.whole hended)]
  exact hinv.steady id hid

def dies (id : JobId) : List QueueAction :=
  [.claim "emails".toList "w1".toList 1 30000000 [id], .nack 0 "refused".toList 0]

def walked (before : List QueueAction) (check : DlqWalk → WalkAction → Bool)
    (walk : List WalkAction) : Option DlqWalk :=
  (run (step defaultConfig) emptyQueue
    (.enqueue 1 singleAttempt :: .enqueue 2 singleAttempt :: before)).bind
      (fun table => checkedRun (walkStep defaultConfig 1) check (walkFrom table) walk)

/-- A job dies during the walk, older than the one returned before. -/
theorem walk_returns_once_older : ∃ w : DlqWalk, w.steady = [2] ∧ w.returned = [2, 1] ∧
    w.returned.Nodup ∧ w.returned.count 2 = 1 := by
  have hrun : (walked (dies 2) (keepsReturned 1)
      (.page :: (dies 1).map .table ++ [.page, .page])).map
      (fun w => decide (w.ended = true ∧ w.steady = [2] ∧ w.returned = [2, 1])) = some true := by
    decide +kernel
  obtain ⟨w,hw,hp⟩ := Option.map_eq_some_iff.mp hrun
  obtain ⟨table,_,hw⟩ := Option.bind_eq_some_iff.mp hw
  obtain ⟨hended,hsteady,hreturned⟩ := of_decide_eq_true hp
  have h := walk_returns_once defaultConfig 1 w (checkedRun_reachable _ _ _ _ _ w
    (Reachable.start _ ⟨table,rfl⟩) hw)
  exact ⟨w,hsteady,hreturned,h.1,h.2 hended 2 (by simp [hsteady])⟩

/-- Job 2 dies after the first page and pushes job 1 onto the second; or it is requeued then and
pulls job 1 up. -/
theorem walk_repeats_and_skips :
    (walked (dies 1) (fun _ _ => true)
      (.page :: (dies 2).map .table ++ [.page, .page])).any
        (fun w => w.ended && decide (w.returned = [1, 1])) = true ∧
    (walked (dies 1 ++ dies 2) (fun _ _ => true) [.page, .table (.requeue 2), .page]).any
      (fun w => w.ended && decide (w.steady = [1] ∧ w.returned = [2])) = true := by
  constructor
  · decide +kernel
  · decide +kernel

end BackendGauntlet.JobQueue
