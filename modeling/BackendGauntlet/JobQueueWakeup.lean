import BackendGauntlet.JobQueue

/-! Wakeups of idle workers: the commit of a row, its notification and the sleep, on one clock. -/
namespace BackendGauntlet.JobQueue

open PyText Transition Option Dict

def channelName (queue : Text) : Text := "jobs_".toList ++ queue

structure WorkerConfig where
  queueName : Text
  pollInterval : ℕ
  claimBatch : ℕ
deriving DecidableEq

/-- `SELECT run_at … WHERE queue = $1 AND state = 'ready' ORDER BY run_at LIMIT 1`. -/
def nextDue (queue : Text) (jobs : Jobs) : Option ℤ :=
  ((jobs.entries.filter (fun e => e.2.queue = queue && e.2.state = .ready)).map
    (fun e => e.2.runAt)).min?

def sleepFor (pollFallback : ℕ) (due : Option ℤ) (now : ℤ) : ℤ :=
  match due with
  | none => pollFallback
  | some d => min (pollFallback : ℤ) (max (d-now) 0)

def wakeDeadline (pollFallback : ℕ) (due : Option ℤ) (now : ℤ) : ℤ :=
  match due with
  | none => now+pollFallback
  | some d => min (now+pollFallback) d

theorem sleepFor_deadline (pollFallback : ℕ) (due : Option ℤ) (now : ℤ) :
    now+sleepFor pollFallback due now = max now (wakeDeadline pollFallback due now) := by
  cases due with
  | none | some d => simp only [sleepFor, wakeDeadline]; omega

/-- Where a worker is in its loop; `parked` keeps what the query returned and when the sleep began.
-/
inductive Phase
  | claiming
  | waiting
  | listening (woken : Bool)
  | queried (woken : Bool) (due : Option ℤ)
  | parked (woken : Bool) (due : Option ℤ) (since : ℤ)
  | leaving
deriving DecidableEq

structure Worker where
  cfg : WorkerConfig
  phase : Phase
deriving DecidableEq

def Phase.notified : Phase → Phase
  | .listening _ => .listening true
  | .queried _ due => .queried true due
  | .parked _ due since => .parked true due since
  | p => p

/-- An idle worker: an empty claim, `add_listener`, the query, the sleep, its end,
`remove_listener`. -/
def nextPhase (table : QueueState) (w : Worker) : Option Phase :=
  match w.phase with
  | .claiming =>
    if selects table.clock w.cfg.queueName w.cfg.claimBatch table.jobs [] then some .waiting
    else none
  | .waiting => some (.listening false)
  | .listening woken => some (.queried woken (nextDue w.cfg.queueName table.jobs))
  | .queried woken due => some (.parked woken due table.clock)
  | .parked woken due since =>
    if woken || since+sleepFor w.cfg.pollInterval due since ≤ table.clock then some .leaving
    else none
  | .leaving => some .claiming

inductive Call
  | committed (queue : Text)
  | returned
deriving DecidableEq

/-- `opened` is history: the call that made a job ready, until another statement touches
the row. -/
structure WakeState where
  table : QueueState
  calls : Dict ℕ Call
  opened : Dict JobId ℕ
  workers : Dict ℕ Worker

/-- A claim that returns jobs is a statement on the table and leaves its worker claiming. -/
inductive WakeAction
  | table (a : QueueAction)
  | enqueue (n : ℕ) (id : JobId) (new : NewJob)
  | requeue (n : ℕ) (id : JobId)
  | notify (n : ℕ)
  | worker (k : ℕ)

def consumes : QueueAction → Bool
  | .enqueue _ _ => false
  | .requeue _ => false
  | _ => true

def notifyReady (queue : Text) (workers : Dict ℕ Worker) : Dict ℕ Worker :=
  workers.mapValues (fun _ w =>
    if channelName w.cfg.queueName = channelName queue then { w with phase := w.phase.notified }
    else w)

def openJob (s : WakeState) (n : ℕ) (id : JobId) (queue : Text) (table : QueueState) :
    WakeState :=
  { s with table := table, calls := s.calls.set n (.committed queue), opened := s.opened.set id n }

def wakeStep (cfg : QueueConfig) (s : WakeState) : WakeAction → Option WakeState
  | .table a =>
    if consumes a then
      (step cfg s.table a).map (fun table =>
        { s with table := table, opened := s.opened.filter (fun id _ => !touches s.table id a) })
    else none
  | .enqueue n id new =>
    if s.calls.contains n then none
    else (step cfg s.table (.enqueue id new)).map (openJob s n id new.queue.text)
  | .requeue n id =>
    if s.calls.contains n then none
    else
      match (requeue s.table.clock id s.table.jobs).2 with
      | none => some { s with calls := s.calls.set n .returned }
      | some job => (step cfg s.table (.requeue id)).map (openJob s n id job.queue)
  | .notify n =>
    match s.calls.get n with
    -- the notification goes out once, and the call returns with it
    | some (.committed queue) =>
      some { s with calls := s.calls.set n .returned, workers := notifyReady queue s.workers }
    | _ => none
  | .worker k =>
    match s.workers.get k with
    | none => none
    | some w => (nextPhase s.table w).map (fun p =>
        { s with workers := s.workers.set k { w with phase := p } })

def wakeInitial (s : WakeState) : Prop :=
  initial s.table ∧ s.calls = Dict.empty ∧ s.opened = Dict.empty ∧
    ∀ k w, s.workers.get k = some w → w.phase = .claiming

def LeftReady (s : WakeState) (id : JobId) (row : JobRow) : Prop :=
  ∃ n, s.opened.get id = some n ∧ s.calls.get n = some .returned ∧
    s.table.jobs.get id = some row ∧ row.state = .ready

/-- A worker that is past its query is woken already, or sleeps no longer than to this instant. -/
def Worker.wakesBy (w : Worker) (runAt : ℤ) : Bool :=
  match w.phase with
  | .queried woken due => woken || due.any (· ≤ runAt)
  | .parked woken due since => woken || wakeDeadline w.cfg.pollInterval due since ≤ runAt
  | _ => true

structure Awake (s : WakeState) : Prop where
  opened_row : ∀ id n, s.opened.get id = some n →
    ∃ row, s.table.jobs.get id = some row ∧ row.state = .ready
  opened_queue : ∀ id n queue row, s.opened.get id = some n →
    s.calls.get n = some (.committed queue) → s.table.jobs.get id = some row → row.queue = queue
  opened_call : ∀ id n, s.opened.get id = some n → s.calls.get n ≠ none
  sees : ∀ k w id row, s.workers.get k = some w → LeftReady s id row →
    row.queue = w.cfg.queueName → w.wakesBy row.runAt = true

variable {queue : Text} {id : JobId} {row : JobRow} {table : QueueState} {cfg : QueueConfig}
  {s : WakeState} {n : ℕ}

theorem nextDue_le {jobs : Jobs}
    (hr : jobs.get id = some row) (hq : row.queue = queue) (hst : row.state = .ready) :
    ∃ d, nextDue queue jobs = some d ∧ d ≤ row.runAt := by
  have hmem : row.runAt ∈ (jobs.entries.filter
      (fun e => e.2.queue = queue && e.2.state = .ready)).map (fun e => e.2.runAt) := by
    apply List.mem_map.mpr
    refine ⟨(id,row),List.mem_filter.mpr ⟨get_eq_some_iff.mp hr,?_⟩,rfl⟩
    simp [hq, hst]
  cases hm : nextDue queue jobs with
  | none =>
    rw [List.min?_eq_none_iff.mp hm] at hmem
    cases hmem
  | some d => exact ⟨d,rfl,(List.min?_eq_some_iff.mp hm).2 _ hmem⟩

theorem wakesBy_notified (w : Worker) (runAt : ℤ) :
    ({ w with phase := w.phase.notified } : Worker).wakesBy runAt = true := by
  obtain ⟨cfg,phase⟩ := w
  cases phase <;> rfl

/-- A worker still wakes in time, and its query sees every ready job of its queue. -/
theorem wakesBy_nextPhase {w : Worker} {p : Phase}
    (h : nextPhase table w = some p)
    (hr : table.jobs.get id = some row) (hq : row.queue = w.cfg.queueName)
    (hst : row.state = .ready) (hwakes : w.wakesBy row.runAt = true) :
    ({ w with phase := p } : Worker).wakesBy row.runAt = true := by
  obtain ⟨wcfg,phase⟩ := w
  unfold nextPhase at h
  cases phase with
  | claiming | parked woken due since =>
    simp only at h
    split_ifs at h
    cases h
    rfl
  | waiting =>
    cases h
    rfl
  | listening woken =>
    -- the query comes after `add_listener`, so what it misses is notified
    cases h
    obtain ⟨d,hd,hle⟩ := nextDue_le hr hq hst
    simp only at hd
    simp [Worker.wakesBy, hd, hle]
  | queried woken due =>
    cases h
    cases due with
    | none => simpa [Worker.wakesBy] using Or.inl hwakes
    | some d =>
      simp only [Worker.wakesBy, any_some, Bool.or_eq_true, decide_eq_true_eq, wakeDeadline]
        at hwakes ⊢
      exact hwakes.imp_right (fun hd => decide_eq_true (Int.le_trans (Int.min_le_right _ _) hd))
  | leaving =>
    cases h
    rfl

/-- What a step can do; a call number is used once. -/
inductive WakeChange (cfg : QueueConfig) (s : WakeState) : WakeAction → WakeState → Prop
  | table (a : QueueAction) (table : QueueState) (ha : consumes a = true)
      (h : step cfg s.table a = some table) :
      WakeChange cfg s (.table a) { s with
        table := table
        opened := s.opened.filter (fun id _ => !touches s.table id a) }
  | enqueue (n : ℕ) (id : JobId) (new : NewJob) (table : QueueState) (hn : s.calls.get n = none)
      (h : step cfg s.table (.enqueue id new) = some table) :
      WakeChange cfg s (.enqueue n id new) (openJob s n id new.queue.text table)
  | requeue (n : ℕ) (id : JobId) (job : Job) (table : QueueState) (hn : s.calls.get n = none)
      (hjob : (requeue s.table.clock id s.table.jobs).2 = some job)
      (h : step cfg s.table (.requeue id) = some table) :
      WakeChange cfg s (.requeue n id) (openJob s n id job.queue table)
  | notDead (n : ℕ) (id : JobId) (hn : s.calls.get n = none) :
      WakeChange cfg s (.requeue n id) { s with calls := s.calls.set n .returned }
  | notify (n : ℕ) (queue : Text) (hn : s.calls.get n = some (.committed queue)) :
      WakeChange cfg s (.notify n)
        { s with calls := s.calls.set n .returned, workers := notifyReady queue s.workers }
  | worker (k : ℕ) (w : Worker) (p : Phase) (hw : s.workers.get k = some w)
      (hp : nextPhase s.table w = some p) :
      WakeChange cfg s (.worker k) { s with workers := s.workers.set k { w with phase := p } }

/-- What a step can do. -/
theorem wakeStep_cases {t : WakeState} {a : WakeAction} (h : wakeStep cfg s a = some t) :
    WakeChange cfg s a t := by
  have hfresh (n : ℕ) (hn : ¬ s.calls.contains n = true) : s.calls.get n = none := by
    simpa [Dict.contains] using hn
  cases a with
  | table a =>
    simp only [wakeStep] at h
    split_ifs at h with ha
    obtain ⟨table,hstep,rfl⟩ := map_eq_some_iff.mp h
    exact .table a table ha hstep
  | enqueue n id new =>
    simp only [wakeStep] at h
    split_ifs at h with hn
    obtain ⟨table,hstep,rfl⟩ := map_eq_some_iff.mp h
    exact .enqueue n id new table (hfresh n hn) hstep
  | requeue n id =>
    simp only [wakeStep] at h
    split_ifs at h with hn
    cases hjob : (requeue s.table.clock id s.table.jobs).2 with
    | none =>
      rw [hjob] at h
      cases h
      exact .notDead n id (hfresh n hn)
    | some job =>
      rw [hjob] at h
      obtain ⟨table,hstep,rfl⟩ := map_eq_some_iff.mp h
      exact .requeue n id job table (hfresh n hn) hjob hstep
  | notify n =>
    simp only [wakeStep] at h
    split at h
    · rename_i queue hn
      cases h
      exact .notify n queue hn
    · cases h
  | worker k =>
    simp only [wakeStep] at h
    split at h
    · cases h
    · rename_i w hw
      obtain ⟨p,hp,rfl⟩ := map_eq_some_iff.mp h
      exact .worker k w p hw hp

theorem awake_initial (s : WakeState) (h : wakeInitial s) : Awake s := by
  have hopened (id : JobId) : s.opened.get id = none := by rw [h.2.2.1]; rfl
  constructor
  · intro id n ho
    rw [hopened id] at ho
    cases ho
  · intro id n queue row ho
    rw [hopened id] at ho
    cases ho
  · intro id n ho
    rw [hopened id] at ho
    cases ho
  · intro k w id row hw _ _
    simp [Worker.wakesBy, h.2.2.2 k w hw]

theorem table_keeps_opened {a : QueueAction}
    (hinv : Awake s) (ha : consumes a = true)
    (h : step cfg s.table a = some table) (id : JobId) (n : ℕ)
    (ho : (s.opened.filter (fun id _ => !touches s.table id a)).get id = some n) :
    s.opened.get id = some n ∧ table.jobs.get id = s.table.jobs.get id := by
  rw [Dict.get_filter] at ho
  obtain ⟨ho,htouch⟩ := filter_eq_some_iff.mp ho
  obtain ⟨row,hr,hst⟩ := hinv.opened_row id n ho
  have htouch : touches s.table id a = false := by simpa using htouch
  obtain ⟨row',hr',hstep⟩ := step_row cfg s.table table a (step_cases h) id row hr
  refine ⟨ho,?_⟩
  cases hstep with
  | same => rw [hr', hr]
  | claimed _ _ _ _ _ hid => simp [touches, hid] at htouch
  | acked i c hc hid | nacked i error delay c hc hid => simp [touches, settles, hc, hid] at htouch
  -- an opened job is ready: the reaper and a requeue pass it by
  | reaped _ hrunning => simp [hst] at hrunning
  | requeued hdead => simp [hst] at hdead

theorem awake_table {a : QueueAction}
    (hinv : Awake s) (ha : consumes a = true) (h : step cfg s.table a = some table) :
    Awake { s with table := table,
                   opened := s.opened.filter (fun id _ => !touches s.table id a) } := by
  have hkeep := table_keeps_opened hinv ha h
  constructor
  · intro id n ho
    obtain ⟨ho',hrow⟩ := hkeep id n ho
    rw [hrow]
    exact hinv.opened_row id n ho'
  · intro id n queue row ho hc hr
    obtain ⟨ho',hrow⟩ := hkeep id n ho
    rw [hrow] at hr
    exact hinv.opened_queue id n queue row ho' hc hr
  · intro id n ho
    exact hinv.opened_call id n (hkeep id n ho).1
  · rintro k w id row hw ⟨n,ho,hc,hr,hst⟩ hq
    obtain ⟨ho',hrow⟩ := hkeep id n ho
    rw [hrow] at hr
    exact hinv.sees k w id row hw ⟨n,ho',hc,hr,hst⟩ hq

theorem awake_openJob
    (hinv : Awake s) (hn : s.calls.get n = none)
    (hrow : table.jobs.get id = some row) (hst : row.state = .ready) (hq : row.queue = queue)
    (hother : ∀ k m, k ≠ id → s.opened.get k = some m →
      table.jobs.get k = s.table.jobs.get k) :
    Awake (openJob s n id queue table) := by
  -- an opened job of the new state is the new one or an old one of another call
  have hcases (k : JobId) (m : ℕ) (ho : (s.opened.set id n).get k = some m) :
      (k = id ∧ m = n) ∨
      (k ≠ id ∧ m ≠ n ∧ s.opened.get k = some m ∧ table.jobs.get k = s.table.jobs.get k) := by
    rcases eq_or_get_of_get_set ho with hnew | ⟨hk,ho⟩
    · exact Or.inl hnew
    · have hm : m ≠ n := by
        intro he
        exact hinv.opened_call k m ho (he ▸ hn)
      exact Or.inr ⟨hk,hm,ho,hother k m hk ho⟩
  constructor
  · intro k m ho
    rcases hcases k m ho with ⟨rfl,_⟩ | ⟨_,_,ho',hsame⟩
    · exact ⟨row,hrow,hst⟩
    · obtain ⟨r,hr,hrst⟩ := hinv.opened_row k m ho'
      exact ⟨r,hsame.trans hr,hrst⟩
  · intro k m q r ho hc hr
    rcases hcases k m ho with ⟨rfl,rfl⟩ | ⟨_,hm,ho',hsame⟩
    · have hc : (s.calls.set m (.committed queue)).get m = some (.committed q) := hc
      rw [get_set_self] at hc
      cases hc
      cases hrow.symm.trans hr
      exact hq
    · have hc : (s.calls.set n (.committed queue)).get m = some (.committed q) := hc
      rw [get_set_ne hm] at hc
      exact hinv.opened_queue k m q r ho' hc (hsame.symm.trans hr)
  · intro k m ho hc
    rcases hcases k m ho with ⟨_,rfl⟩ | ⟨_,hm,ho',_⟩
    · have hc : (s.calls.set m (.committed queue)).get m = none := hc
      rw [get_set_self] at hc
      cases hc
    · have hc : (s.calls.set n (.committed queue)).get m = none := hc
      rw [get_set_ne hm] at hc
      exact hinv.opened_call k m ho' hc
  · rintro k w j r hw ⟨m,ho,hc,hr,hrst⟩ hrq
    have hc : (s.calls.set n (.committed queue)).get m = some .returned := hc
    rcases hcases j m ho with ⟨_,rfl⟩ | ⟨_,hm,ho',hsame⟩
    · rw [get_set_self] at hc
      cases hc
    · rw [get_set_ne hm] at hc
      exact hinv.sees k w j r hw ⟨m,ho',hc,hsame.symm.trans hr,hrst⟩ hrq

theorem awake_enqueue {new : NewJob}
    (hinv : Awake s) (hn : s.calls.get n = none)
    (h : step cfg s.table (.enqueue id new) = some table) :
    Awake (openJob s n id new.queue.text table) := by
  have hstep := step_cases h
  have hrow : table.jobs.get id = some (enqueueRow cfg s.table.clock new) := by
    cases hstep with
    | enqueue _ _ _ => exact get_set_self
  apply awake_openJob hinv hn hrow rfl rfl
  intro k m _ ho
  obtain ⟨r,hr,_⟩ := hinv.opened_row k m ho
  obtain ⟨r',hr',hkeep⟩ := step_row cfg s.table table _ hstep k r hr
  cases hkeep with
  | same => rw [hr', hr]

theorem requeue_some {now : ℤ} {jobs : Jobs} {job : Job}
    (h : (requeue now id jobs).2 = some job) :
    ∃ row, jobs.get id = some row ∧ row.state = .dead ∧ job.queue = row.queue := by
  cases hr : jobs.get id with
  | none => simp [requeue, hr] at h
  | some row =>
    have hg := get_modify_row id (requeueRow now) hr
    by_cases hd : row.state = .dead
    · simp only [requeue, hr, hd, if_true, hg, map_some, some.injEq] at h
      refine ⟨row,rfl,hd,?_⟩
      rw [← h]
      simp [toJob, requeueRow, hd]
    · simp [requeue, hr, hd] at h

theorem awake_requeue {job : Job}
    (hinv : Awake s) (hn : s.calls.get n = none)
    (hjob : (requeue s.table.clock id s.table.jobs).2 = some job)
    (h : step cfg s.table (.requeue id) = some table) :
    Awake (openJob s n id job.queue table) := by
  have hstep := step_cases h
  obtain ⟨row,hr,hdead,hq⟩ := requeue_some hjob
  obtain ⟨row',hrow,hopened⟩ := step_row cfg s.table table _ hstep id row hr
  have hready : row'.state = .ready ∧ row'.queue = row.queue := by
    cases hopened with
    | same _ _ hnot => simp [requeues, hdead] at hnot
    | requeued => exact ⟨rfl,rfl⟩
  apply awake_openJob hinv hn hrow hready.1 (hready.2.trans hq.symm)
  intro k m hk ho
  obtain ⟨r,hr',_⟩ := hinv.opened_row k m ho
  obtain ⟨r',hr'',hkeep⟩ := step_row cfg s.table table _ hstep k r hr'
  cases hkeep with
  | same => rw [hr'', hr']
  | requeued => exact absurd rfl hk

theorem awake_requeue_none (hinv : Awake s) (hn : s.calls.get n = none) :
    Awake { s with calls := s.calls.set n .returned } := by
  have hcalls (id : JobId) (m : ℕ) (ho : s.opened.get id = some m) :
      (s.calls.set n .returned).get m = s.calls.get m := by
    apply get_set_ne
    intro he
    exact hinv.opened_call id m ho (he ▸ hn)
  constructor
  · exact hinv.opened_row
  · intro id m queue row ho hc
    exact hinv.opened_queue id m queue row ho ((hcalls id m ho).symm.trans hc)
  · intro id m ho hc
    exact hinv.opened_call id m ho ((hcalls id m ho).symm.trans hc)
  · rintro k w id row hw ⟨m,ho,hc,hr⟩
    exact hinv.sees k w id row hw ⟨m,ho,(hcalls id m ho).symm.trans hc,hr⟩

theorem awake_notify (hinv : Awake s)
    (hn : s.calls.get n = some (.committed queue)) :
    Awake { s with calls := s.calls.set n .returned, workers := notifyReady queue s.workers } := by
  constructor
  · exact hinv.opened_row
  · intro id m q row ho hc hr
    have hc : (s.calls.set n .returned).get m = some (.committed q) := hc
    rcases eq_or_get_of_get_set hc with ⟨_,h⟩ | ⟨_,hc⟩
    · cases h
    · exact hinv.opened_queue id m q row ho hc hr
  · intro id m ho hc
    have hc : (s.calls.set n .returned).get m = none := hc
    by_cases hm : m = n
    · rw [hm, get_set_self] at hc
      cases hc
    · rw [get_set_ne hm] at hc
      exact hinv.opened_call id m ho hc
  · rintro k w id row hw ⟨m,ho,hc,hr,hst⟩ hq
    have hw : (s.workers.mapValues _).get k = some w := hw
    rw [get_mapValues] at hw
    obtain ⟨w',hw',rfl⟩ := map_eq_some_iff.mp hw
    split_ifs at hq ⊢ with hchan
    · exact wakesBy_notified w' row.runAt
    · -- the worker listens elsewhere, so the job is of another call
      have hm : m ≠ n := by
        intro he
        have hqueue := hinv.opened_queue id m queue row ho (he ▸ hn) hr
        exact hchan (by rw [← hq, hqueue])
      have hc : (s.calls.set n .returned).get m = some .returned := hc
      rw [get_set_ne hm] at hc
      exact hinv.sees k w' id row hw' ⟨m,ho,hc,hr,hst⟩ hq

theorem awake_worker {k : ℕ} {w : Worker} {p : Phase} (hinv : Awake s)
    (hw : s.workers.get k = some w) (hp : nextPhase s.table w = some p) :
    Awake { s with workers := s.workers.set k { w with phase := p } } := by
  refine ⟨hinv.opened_row,hinv.opened_queue,hinv.opened_call,?_⟩
  intro j v id row hv hleft hq
  have hleft : LeftReady s id row := hleft
  have hv : (s.workers.set k { w with phase := p }).get j = some v := hv
  rcases eq_or_get_of_get_set hv with ⟨_,rfl⟩ | ⟨_,hv⟩
  · obtain ⟨n,ho,hc,hr,hst⟩ := hleft
    exact wakesBy_nextPhase hp hr hq hst (hinv.sees k w id row hw ⟨n,ho,hc,hr,hst⟩ hq)
  · exact hinv.sees j v id row hv hleft hq

theorem awake_step {t : WakeState} {a : WakeAction} (hinv : Awake s)
    (h : WakeChange cfg s a t) : Awake t := by
  cases h with
  | table a table ha h => exact awake_table hinv ha h
  | enqueue n id new table hn h => exact awake_enqueue hinv hn h
  | requeue n id job table hn hjob h => exact awake_requeue hinv hn hjob h
  | notDead n id hn => exact awake_requeue_none hinv hn
  | notify n queue hn => exact awake_notify hinv hn
  | worker k w p hw hp => exact awake_worker hinv hw hp

theorem awake_reachable (hs : Reachable wakeInitial (wakeStep cfg) anyStep s) : Awake s :=
  reachable_invariant Awake awake_initial
    (fun _ _ _ hu _ hstep => awake_step hu (wakeStep_cases hstep)) s hs

/-- Once a call has left a job ready, a worker parked on its queue is woken or its timer rings when
the job is due; from then on it can leave. -/
theorem no_lost_wakeup (cfg : QueueConfig) (s : WakeState)
    (hs : Reachable wakeInitial (wakeStep cfg) anyStep s) (id : JobId) (row : JobRow)
    (hleft : LeftReady s id row) (k : ℕ) (w : WorkerConfig) (woken : Bool) (due : Option ℤ)
    (since : ℤ) (hw : s.workers.get k = some ⟨w,.parked woken due since⟩)
    (hq : w.queueName = row.queue) :
    (woken = true ∨ (wakeDeadline w.pollInterval due since ≤ row.runAt ∧
      since+sleepFor w.pollInterval due since ≤ max row.runAt since)) ∧
    (max row.runAt since ≤ s.table.clock → wakeStep cfg s (.worker k) =
        some { s with workers := s.workers.set k ⟨w,.leaving⟩ }) := by
  have hinv := awake_reachable hs
  have hsees := hinv.sees k _ id row hw hleft hq.symm
  have hdeadline : woken = true ∨ wakeDeadline w.pollInterval due since ≤ row.runAt := by
    simpa [Worker.wakesBy] using hsees
  have htimer : woken = true ∨ since+sleepFor w.pollInterval due since ≤ max row.runAt since := by
    rcases hdeadline with hwoken | hd
    · exact Or.inl hwoken
    · right
      rw [sleepFor_deadline]
      omega
  refine ⟨?_,?_⟩
  · rcases hdeadline with hwoken | hd
    · exact Or.inl hwoken
    · exact Or.imp_right (fun ht => ⟨hd,ht⟩) htimer
  · intro hclock
    have hleave : (woken || decide (since+sleepFor w.pollInterval due since ≤ s.table.clock)) =
        true := by
      rcases htimer with hwoken | ht
      · simp [hwoken]
      · simp [Int.le_trans ht hclock]
    simp [wakeStep, hw, nextPhase, hleave]

def reportWorker : WorkerConfig := ⟨"reports".toList,10000000,10⟩

def laterJob : NewJob :=
  { emailJob with
    queue := ⟨"reports".toList,by decide⟩
    delaySecs := some 5
    delaySecs_le := by simp [maxDelaySecs] }

def idleWorker : WakeState :=
  { table := emptyQueue, calls := Dict.empty, opened := Dict.empty,
    workers := Dict.empty.set 0 ⟨reportWorker,.claiming⟩ }

theorem idleWorker_initial : wakeInitial idleWorker := by
  refine ⟨emptyQueue_initial,rfl,rfl,?_⟩
  apply forall_get_set
  · intro k w hw
    cases hw
  · rfl

theorem delayed_parked : ∃ s, Reachable wakeInitial (wakeStep defaultConfig) anyStep s ∧
    LeftReady s 1 (enqueueRow defaultConfig 0 laterJob) ∧
    s.workers.get 0 = some ⟨reportWorker,.parked false (some 5000000) 0⟩ := by
  obtain ⟨s,hs,ho,hc,hr,hw⟩ := reachable_of_run wakeInitial (wakeStep defaultConfig)
    (P := fun s => s.opened.get 1 = some 0 ∧ s.calls.get 0 = some .returned ∧
      s.table.jobs.get 1 = some (enqueueRow defaultConfig 0 laterJob) ∧
      s.workers.get 0 = some ⟨reportWorker,.parked false (some 5000000) 0⟩)
    [.enqueue 0 1 laterJob, .notify 0, .worker 0, .worker 0, .worker 0, .worker 0] idleWorker
    idleWorker_initial (by decide +kernel)
  exact ⟨s,hs,⟨0,ho,hc,hr,rfl⟩,hw⟩

/-- A worker that parks after a delayed enqueue sleeps until the job is due. -/
theorem no_lost_wakeup_delayed : ∃ s row,
    Reachable wakeInitial (wakeStep defaultConfig) anyStep s ∧ LeftReady s 1 row ∧
    s.workers.get 0 = some ⟨reportWorker,.parked false (some 5000000) 0⟩ ∧
    wakeDeadline reportWorker.pollInterval (some 5000000) 0 ≤ row.runAt := by
  obtain ⟨s,hs,hleft,hw⟩ := delayed_parked
  refine ⟨s,_,hs,hleft,hw,?_⟩
  have hwake := (no_lost_wakeup defaultConfig s hs 1 _ hleft 0 reportWorker false _ 0 hw rfl).1
  rcases hwake with hwoken | hdeadline
  · cases hwoken
  · exact hdeadline.1

/-! ## Retries

`nack` and `reap_expired` make jobs ready as well, but neither of them notifies. -/

def ParkedBefore (now : ℤ) (w : Worker) : Prop :=
  ∀ woken due since, w.phase = .parked woken due since → since ≤ now

theorem parkedBefore_notified {now : ℤ} {w : Worker} (h : ParkedBefore now w) :
    ParkedBefore now { w with phase := w.phase.notified } := by
  intro woken due since hp
  cases hw : w.phase with
  | parked woken' due' since' =>
    simp only [hw, Phase.notified, Phase.parked.injEq] at hp
    exact hp.2.2 ▸ h woken' due' since' hw
  | _ => simp [hw, Phase.notified] at hp

/-- A worker parks at the present time. -/
theorem parkedBefore_nextPhase {w : Worker} {p : Phase} (h : nextPhase table w = some p) :
    ParkedBefore table.clock { w with phase := p } := by
  intro woken due since hp
  have hp : p = .parked woken due since := hp
  subst hp
  unfold nextPhase at h
  split at h
  · split_ifs at h
    cases h
  · cases h
  · cases h
  · cases h
    exact Int.le_refl _
  · split_ifs at h
    cases h
  · cases h

theorem parkedBefore_step {t : WakeState} {a : WakeAction}
    (hinv : ∀ k w, s.workers.get k = some w → ParkedBefore s.table.clock w)
    (h : WakeChange cfg s a t) :
    ∀ k w, t.workers.get k = some w → ParkedBefore t.table.clock w := by
  have hlater {a : QueueAction} {table : QueueState} (hstep : step cfg s.table a = some table) :
      ∀ k w, s.workers.get k = some w → ParkedBefore table.clock w :=
    fun k w hw woken due since hp =>
      Int.le_trans (hinv k w hw woken due since hp) (step_clock (step_cases hstep))
  cases h with
  | table a table ha h | enqueue n id new table hn h | requeue n id job table hn hjob h =>
    exact hlater h
  | notDead n id hn => exact hinv
  | notify n queue hn =>
    intro k w hw
    rw [notifyReady, get_mapValues] at hw
    obtain ⟨w',hw',rfl⟩ := map_eq_some_iff.mp hw
    split_ifs
    · exact parkedBefore_notified (hinv k w' hw')
    · exact hinv k w' hw'
  | worker k w p hw hp => exact forall_get_set hinv (parkedBefore_nextPhase hp)

def unnotified (s : WakeState) (id : JobId) : Bool :=
  (s.opened.get id).any (fun n => (s.calls.get n).any (fun call => call ≠ .returned))

def wakesFor (s : WakeState) (queue : Text) (runAt : ℤ) : Bool :=
  s.workers.entries.all (fun e => e.2.cfg.queueName ≠ queue || e.2.wakesBy runAt)

/-- No worker of the queue is past its query with a later deadline when `nack` or the reaper makes a
job ready, nor when a job that is not yet notified comes due. -/
def timely (s : WakeState) : WakeAction → Bool
  | .table (.nack i _ delay) =>
    s.table.pending[i]?.all (fun c => nackState c.job ≠ .ready ||
      (s.table.jobs.get c.job.id).all (fun row => wakesFor s row.queue (s.table.clock+delay)))
  | .table .reap => s.table.jobs.entries.all (fun e =>
      !reapable s.table.clock e.2 || wakesFor s e.2.queue e.2.runAt)
  | .table (.advance d) => s.table.jobs.entries.all (fun e =>
      !unnotified s e.1 || s.table.clock+d ≤ e.2.runAt || wakesFor s e.2.queue e.2.runAt)
  | _ => true

/-- Every worker wakes for every ready job of its queue, but for those not yet notified and not yet
due. -/
structure Timely (s : WakeState) : Prop where
  awake : Awake s
  wakes : ∀ k w id row, s.workers.get k = some w → s.table.jobs.get id = some row →
    row.state = .ready → row.queue = w.cfg.queueName →
    w.wakesBy row.runAt = true ∨ (unnotified s id = true ∧ s.table.clock ≤ row.runAt)

theorem wakesBy_of_wakesFor {runAt : ℤ} (h : wakesFor s queue runAt = true) {k : ℕ} {w : Worker}
    (hw : s.workers.get k = some w) (hq : queue = w.cfg.queueName) : w.wakesBy runAt = true := by
  have hw' := List.all_eq_true.mp h (k,w) (get_eq_some_iff.mp hw)
  simpa [hq] using hw'

/-- A timely statement leaves no sleeper behind. -/
theorem timely_table {a : QueueAction} (hinv : Timely s) (ha : consumes a = true)
    (hcheck : timely s (.table a) = true) (h : step cfg s.table a = some table) :
    Timely { s with table := table,
                    opened := s.opened.filter (fun id _ => !touches s.table id a) } := by
  refine ⟨awake_table hinv.awake ha h,?_⟩
  intro k w id row' hw hr' hst hq
  have hstep := step_cases h
  rcases step_row_cases hstep hr' with ⟨row,hr,hrow⟩ | ⟨_,new,rfl,_⟩
  · cases hrow with
    | same _ htouch =>
      rcases hinv.wakes k w id row' hw hr hst hq with hwakes | ⟨hun,hclock⟩
      · exact Or.inl hwakes
      · have hun' : unnotified { s with
            table := table
            opened := s.opened.filter (fun id _ => !touches s.table id a) } id = true := by
          simpa [unnotified, Dict.get_filter, htouch] using hun
        cases hstep with
        | advance d =>
          have hd := List.all_eq_true.mp hcheck (id,row') (get_eq_some_iff.mp hr)
          simp only [hun, Bool.not_true, Bool.false_or, Bool.or_eq_true, decide_eq_true_eq] at hd
          rcases hd with hd | hd
          · exact Or.inr ⟨hun',hd⟩
          · exact Or.inl (wakesBy_of_wakesFor hd hw hq)
        | _ => exact Or.inr ⟨hun',hclock⟩
    | claimed => cases hst
    | acked => cases hst
    | nacked i error delay c hc hid =>
      subst hid
      have hready : nackState c.job = .ready := hst
      have hwakes : wakesFor s row.queue (s.table.clock+delay) = true := by
        simpa [timely, hc, hready, hr] using hcheck
      exact Or.inl (wakesBy_of_wakesFor hwakes hw hq)
    | reaped u hrunning hu hlt =>
      have hwakes := List.all_eq_true.mp hcheck (id,row) (get_eq_some_iff.mp hr)
      have hreap : reapable s.table.clock row = true := by simp [reapable, hrunning, hu, hlt]
      rw [hreap] at hwakes
      exact Or.inl (wakesBy_of_wakesFor hwakes hw hq)
    | requeued => cases ha
  · cases ha

/-- A call that makes a job ready has yet to notify. -/
theorem timely_openJob (hinv : Timely s) (hawake : Awake (openJob s n id queue table))
    (hclock : table.clock = s.table.clock)
    (hrow : ∀ row, table.jobs.get id = some row → s.table.clock ≤ row.runAt)
    (hother : ∀ k row, k ≠ id → table.jobs.get k = some row → s.table.jobs.get k = some row) :
    Timely (openJob s n id queue table) := by
  refine ⟨hawake,?_⟩
  intro k w j row hw hr hst hq
  have hr : table.jobs.get j = some row := hr
  have hle (h : s.table.clock ≤ row.runAt) : (openJob s n id queue table).table.clock ≤ row.runAt :=
    hclock ▸ h
  by_cases hj : j = id
  · subst hj
    exact Or.inr ⟨by simp [unnotified, openJob],hle (hrow row hr)⟩
  · rcases hinv.wakes k w j row hw (hother j row hj hr) hst hq with hwakes | ⟨hun,hclock'⟩
    · exact Or.inl hwakes
    · refine Or.inr ⟨?_,hle hclock'⟩
      simp only [unnotified, openJob, get_set_ne hj] at hun ⊢
      cases ho : s.opened.get j with
      | none => simp [ho] at hun
      | some m =>
        by_cases hm : m = n
        · simp [hm]
        · simpa [ho, get_set_ne hm] using hun

theorem timely_enqueue {new : NewJob} (hinv : Timely s) (hn : s.calls.get n = none)
    (h : step cfg s.table (.enqueue id new) = some table) :
    Timely (openJob s n id new.queue.text table) := by
  have hstep := step_cases h
  refine timely_openJob hinv (awake_enqueue hinv.awake hn h) ?_ ?_ ?_
  · cases hstep with
    | enqueue _ _ _ => rfl
  · intro row hr
    rcases step_row_cases hstep hr with ⟨row',hr',_⟩ | ⟨_,new',hnew,rfl⟩
    · cases hstep with
      | enqueue _ _ hid => cases hid.symm.trans hr'
    · simp only [enqueueRow]
      omega
  · intro k row hk hr
    rcases step_row_cases hstep hr with ⟨row',hr',hrow⟩ | ⟨_,new',hnew,_⟩
    · cases hrow with
      | same => exact hr'
    · cases hnew
      exact absurd rfl hk

theorem timely_requeue {job : Job} (hinv : Timely s) (hn : s.calls.get n = none)
    (hjob : (requeue s.table.clock id s.table.jobs).2 = some job)
    (h : step cfg s.table (.requeue id) = some table) :
    Timely (openJob s n id job.queue table) := by
  have hstep := step_cases h
  obtain ⟨row,hr,hdead,_⟩ := requeue_some hjob
  refine timely_openJob hinv (awake_requeue hinv.awake hn hjob h) ?_ ?_ ?_
  · cases hstep with
    | requeue => rfl
  · intro row' hr'
    obtain ⟨row'',hr'',hrow⟩ := step_row cfg s.table table _ hstep id row hr
    cases hr'.symm.trans hr''
    cases hrow with
    | same _ _ hnot => simp [requeues, hdead] at hnot
    | requeued => exact Int.le_refl _
  · intro k row' hk hr'
    rcases step_row_cases hstep hr' with ⟨row'',hr'',hrow⟩ | ⟨_,new',hnew,_⟩
    · cases hrow with
      | same => exact hr''
      | requeued => exact absurd rfl hk
    · cases hnew

theorem timely_requeue_none (hinv : Timely s) (hn : s.calls.get n = none) :
    Timely { s with calls := s.calls.set n .returned } := by
  refine ⟨awake_requeue_none hinv.awake hn,?_⟩
  intro k w id row hw hr hst hq
  refine (hinv.wakes k w id row hw hr hst hq).imp_right (fun ⟨hun,hclock⟩ => ⟨?_,hclock⟩)
  simp only [unnotified] at hun ⊢
  cases ho : s.opened.get id with
  | none => simp [ho] at hun
  | some m =>
    have hm : m ≠ n := fun he => hinv.awake.opened_call id m ho (he ▸ hn)
    simpa [ho, get_set_ne hm] using hun

theorem timely_notify (hinv : Timely s) (hn : s.calls.get n = some (.committed queue)) :
    Timely { s with calls := s.calls.set n .returned, workers := notifyReady queue s.workers } := by
  refine ⟨awake_notify hinv.awake hn,?_⟩
  intro k w id row hw hr hst hq
  have hw : (notifyReady queue s.workers).get k = some w := hw
  rw [notifyReady, get_mapValues] at hw
  obtain ⟨w',hw',rfl⟩ := map_eq_some_iff.mp hw
  split_ifs at hq ⊢ with hchan
  · exact Or.inl (wakesBy_notified w' row.runAt)
  · refine (hinv.wakes k w' id row hw' hr hst hq).imp_right (fun ⟨hun,hclock⟩ => ⟨?_,hclock⟩)
    simp only [unnotified] at hun ⊢
    cases ho : s.opened.get id with
    | none => simp [ho] at hun
    | some m =>
      -- the worker listens elsewhere, so the job is of another call
      have hm : m ≠ n := by
        intro he
        have hqueue := hinv.awake.opened_queue id m queue row ho (he ▸ hn) hr
        exact hchan (by rw [← hq, hqueue])
      simpa [ho, get_set_ne hm] using hun

theorem timely_worker {k : ℕ} {w : Worker} {p : Phase} (hinv : Timely s)
    (hw : s.workers.get k = some w) (hp : nextPhase s.table w = some p) :
    Timely { s with workers := s.workers.set k { w with phase := p } } := by
  refine ⟨awake_worker hinv.awake hw hp,?_⟩
  intro j v id row hv hr hst hq
  have hv : (s.workers.set k { w with phase := p }).get j = some v := hv
  rcases eq_or_get_of_get_set hv with ⟨_,rfl⟩ | ⟨_,hv⟩
  · exact (hinv.wakes k w id row hw hr hst hq).imp_left (wakesBy_nextPhase hp hr hq hst)
  · exact hinv.wakes j v id row hv hr hst hq

theorem timely_step {t : WakeState} {a : WakeAction} (hinv : Timely s)
    (hcheck : timely s a = true) (h : WakeChange cfg s a t) : Timely t := by
  cases h with
  | table a table ha h => exact timely_table hinv ha hcheck h
  | enqueue n id new table hn h => exact timely_enqueue hinv hn h
  | requeue n id job table hn hjob h => exact timely_requeue hinv hn hjob h
  | notDead n id hn => exact timely_requeue_none hinv hn
  | notify n queue hn => exact timely_notify hinv hn
  | worker k w p hw hp => exact timely_worker hinv hw hp

/-- While a worker sleeps on, no ready job of its queue has a `run_at` in the past, whichever
operation made it ready. -/
theorem no_late_pickup (cfg : QueueConfig) (s : WakeState)
    (hs : Reachable wakeInitial (wakeStep cfg) (fun s a => timely s a = true) s) (k : ℕ)
    (w : WorkerConfig) (due : Option ℤ) (since : ℤ)
    (hw : s.workers.get k = some ⟨w,.parked false due since⟩)
    (hasleep : s.table.clock < since+sleepFor w.pollInterval due since) (id : JobId) (row : JobRow)
    (hr : s.table.jobs.get id = some row) (hst : row.state = .ready)
    (hq : row.queue = w.queueName) : s.table.clock ≤ row.runAt := by
  have hsince : since ≤ s.table.clock :=
    reachable_invariant (fun u => ∀ k w, u.workers.get k = some w →
        ParkedBefore u.table.clock w)
      (fun u hu k w hw woken due since hp => by rw [hu.2.2.2 k w hw] at hp; cases hp)
      (fun u v a hu _ hstep => parkedBefore_step hu (wakeStep_cases hstep)) s hs k _ hw false due
      since rfl
  have hinv : Timely s := reachable_invariant Timely
    (fun u hu => ⟨awake_initial u hu,fun k w id row _ hr => by
      rw [hu.1.1] at hr
      cases hr⟩)
    (fun u v a hu hcheck hstep => timely_step hu hcheck (wakeStep_cases hstep)) s hs
  rw [sleepFor_deadline] at hasleep
  rcases hinv.wakes k _ id row hw hr hst hq with hwakes | ⟨_,hclock⟩
  · have hdeadline : wakeDeadline w.pollInterval due since ≤ row.runAt := by
      simpa [Worker.wakesBy] using hwakes
    omega
  · exact hclock

def claimedReport : List WakeAction :=
  [.enqueue 0 1 laterJob, .notify 0, .table (.advance 5000000),
    .table (.claim "reports".toList "w1".toList 10 1000000 [1])]

def parks : List WakeAction := [.worker 0, .worker 0, .worker 0, .worker 0]

def retriedRow : JobRow :=
  { enqueueRow defaultConfig 0 laterJob with
    attempts := 1
    lastError := some "timeout".toList
    runAt := 6000000 }

/-- A worker that parks after a retry was scheduled sleeps until the retry is due. -/
theorem no_late_pickup_retried : ∃ s : WakeState,
    s.table.jobs.get 1 = some retriedRow ∧ s.table.clock ≤ retriedRow.runAt := by
  obtain ⟨s,hs,hr,hclock,hw⟩ := reachable_of_checkedRun wakeInitial (wakeStep defaultConfig) timely
    (P := fun s => s.table.jobs.get 1 = some retriedRow ∧ s.table.clock = 5500000 ∧
      s.workers.get 0 = some ⟨reportWorker,.parked false (some 6000000) 5000000⟩)
    (claimedReport ++ .table (.nack 0 "timeout".toList 1000000) :: parks ++
      [.table (.advance 500000)]) idleWorker idleWorker_initial (by decide +kernel)
  refine ⟨s,hr,no_late_pickup defaultConfig s hs 0 reportWorker _ _ hw ?_ 1 _ hr rfl rfl⟩
  rw [hclock]
  decide

def sleepsThrough (id : JobId) (s : WakeState) : Bool :=
  match s.workers.get 0 with
  | some ⟨w,.parked false due since⟩ =>
    s.table.clock < since+sleepFor w.pollInterval due since &&
    (s.table.jobs.get id).any (fun row => row.queue = w.queueName && row.state = .ready &&
      row.runAt < s.table.clock)
  | _ => false

/-- A job retried after a second, and one whose lease is reaped, wait for the poll of the sleeper.
-/
theorem retries_slept_through :
    wakeInitial idleWorker ∧
    (run (wakeStep defaultConfig) idleWorker (claimedReport ++ parks ++
      [.table (.nack 0 "timeout".toList 1000000), .table (.advance 2000000)])).any
        (sleepsThrough 1) = true ∧
    (run (wakeStep defaultConfig) idleWorker (claimedReport ++ parks ++
      [.table (.advance 2000000), .table .reap])).any (sleepsThrough 1) = true := by
  refine ⟨idleWorker_initial,?_,?_⟩
  · decide +kernel
  · decide +kernel

end BackendGauntlet.JobQueue
