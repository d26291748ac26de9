import Mathlib.Algebra.Group.Nat.Defs
import BackendGauntlet.Dict
import BackendGauntlet.PyText
import BackendGauntlet.Transition

/-! The job queue over its one table: every SQL statement is one step. -/
namespace BackendGauntlet.JobQueue

open PyText Option

abbrev JobId := ℕ

def maxNameLen : ℕ := 64

def maxAttemptsCeiling : ℕ := 25

def maxDelaySecs : ℤ := 30*24*60*60

def validName (s : Text) : Bool :=
  s ≠ [] && s.length ≤ maxNameLen &&
    s.all (fun c => c.isAlphanum || c == '_' || c == '-')

structure Name where
  text : Text
  valid : validName text = true

inductive JobState
  | ready
  | running
  | done
  | dead
deriving DecidableEq

structure JobRow where
  queue : Text
  kind : Text
  state : JobState
  attempts : ℕ
  maxAttempts : ℕ
  lastError : Option Text
  runAt : ℤ
  lockedAt : Option ℤ
  lockedUntil : Option ℤ
  lockedBy : Option Text
  createdAt : ℤ
deriving DecidableEq

structure Job where
  id : JobId
  queue : Text
  kind : Text
  state : JobState
  attempts : ℕ
  maxAttempts : ℕ
  runAt : ℤ
  lockedUntil : Option ℤ
  lastError : Option Text
  createdAt : ℤ
deriving DecidableEq

def toJob (id : JobId) (row : JobRow) : Job :=
  { id := id, queue := row.queue, kind := row.kind, state := row.state,
    attempts := row.attempts, maxAttempts := row.maxAttempts, runAt := row.runAt,
    lockedUntil := row.lockedUntil, lastError := row.lastError, createdAt := row.createdAt }

structure NewJob where
  queue : Name
  kind : Name
  maxAttempts : Option ℕ
  delaySecs : Option ℤ
  maxAttempts_bounds : ∀ n ∈ maxAttempts, 1 ≤ n ∧ n ≤ maxAttemptsCeiling
  delaySecs_le : ∀ d ∈ delaySecs, d ≤ maxDelaySecs

structure RetryPolicy where
  baseDelay : ℕ
  maxDelay : ℕ

def RetryPolicy.ceiling (p : RetryPolicy) (attempt : ℕ) : ℕ :=
  let exponent := attempt-1
  if 32 < exponent then p.maxDelay else min (p.baseDelay*2^exponent) p.maxDelay

inductive Disposition
  | retried
  | deadLettered
deriving DecidableEq

structure QueueConfig where
  defaultMaxAttempts : ℕ
  retry : RetryPolicy
  default_pos : 1 ≤ defaultMaxAttempts

def defaultConfig : QueueConfig := ⟨5,⟨1000000,300000000⟩,by decide⟩

abbrev Jobs := Dict JobId JobRow

def enqueueRow (cfg : QueueConfig) (now : ℤ) (new : NewJob) : JobRow :=
  { queue := new.queue.text, kind := new.kind.text, state := .ready, attempts := 0,
    maxAttempts := new.maxAttempts.getD cfg.defaultMaxAttempts, lastError := none,
    runAt := now+max (new.delaySecs.getD 0) 0*1000000,
    lockedAt := none, lockedUntil := none, lockedBy := none, createdAt := now }

def claimable (now : ℤ) (queue : Text) (row : JobRow) : Bool :=
  row.queue = queue && row.state = .ready && row.runAt ≤ now

/-- `ids` is a result of `ORDER BY run_at LIMIT limit`, ties left open. -/
def selects (now : ℤ) (queue : Text) (limit : ℕ) (jobs : Jobs) (ids : List JobId) : Bool :=
  decide ids.Nodup && ids.length ≤ limit &&
    ids.all (fun id => (jobs.get id).any (claimable now queue)) &&
    jobs.entries.all (fun e => e.1 ∈ ids || !claimable now queue e.2 ||
      (limit ≤ ids.length && ids.all (fun id => (jobs.get id).any (fun r => r.runAt ≤ e.2.runAt))))

def claimRow (now : ℤ) (worker : Text) (visibility : ℤ) (row : JobRow) : JobRow :=
  { row with state := .running, lockedBy := some worker, lockedAt := some now,
             lockedUntil := some (now+visibility) }

def claim (now : ℤ) (worker : Text) (visibility : ℤ) (ids : List JobId) (jobs : Jobs) :
    Jobs × List Job :=
  let claimed := jobs.mapValues (fun id row =>
    if id ∈ ids then claimRow now worker visibility row else row)
  (claimed,ids.filterMap (fun id => (claimed.get id).map (toJob id)))

def ackRow (row : JobRow) : JobRow :=
  { row with state := .done, lockedBy := none, lockedAt := none, lockedUntil := none }

def ack (id : JobId) (jobs : Jobs) : Jobs := jobs.modify id ackRow

def nackState (job : Job) : JobState :=
  if job.attempts+1 < job.maxAttempts then .ready else .dead

/-- The `SET` clause of `nack`: the count comes from the snapshot, not from the row. -/
def nackRow (now : ℤ) (job : Job) (error : Text) (delay : ℕ) (row : JobRow) : JobRow :=
  { row with attempts := job.attempts+1, lastError := some error, state := nackState job,
             runAt := now+delay, lockedBy := none, lockedAt := none, lockedUntil := none }

/-- `nack`, keyed by the id alone, with the delay that `backoff` drew. -/
def nack (now : ℤ) (job : Job) (error : Text) (delay : ℕ) (jobs : Jobs) : Jobs × Disposition :=
  (jobs.modify job.id (nackRow now job error delay),
    if nackState job = .ready then .retried else .deadLettered)

def reapable (now : ℤ) (row : JobRow) : Bool :=
  row.state = .running && row.lockedUntil.any (fun u => u < now)

def reapRow (now : ℤ) (row : JobRow) : JobRow :=
  if reapable now row then { row with state := .ready, lockedBy := none, lockedUntil := none }
  else row

def reapExpired (now : ℤ) (jobs : Jobs) : Jobs × ℕ :=
  (jobs.mapValues (fun _ row => reapRow now row),
    (jobs.entries.filter (fun e => reapable now e.2)).length)

def requeueRow (now : ℤ) (row : JobRow) : JobRow :=
  if row.state = .dead then { row with state := .ready, attempts := 0, runAt := now } else row

def requeue (now : ℤ) (id : JobId) (jobs : Jobs) : Jobs × Option Job :=
  let requeued := jobs.modify id (requeueRow now)
  (requeued,match jobs.get id with
    | some row => if row.state = .dead then (requeued.get id).map (toJob id) else none
    | none => none)

structure Claim where
  worker : Text
  job : Job
  claimedAt : ℤ
  visibility : ℤ
deriving DecidableEq

/-- `failures` is history: the nacks of each job since it was created or last requeued. -/
structure QueueState where
  clock : ℤ
  jobs : Jobs
  pending : List Claim
  failures : Dict JobId ℕ

inductive QueueAction
  | advance (d : ℕ)
  | enqueue (id : JobId) (new : NewJob)
  | claim (queue worker : Text) (limit : ℕ) (visibility : ℤ) (ids : List JobId)
  | ack (i : ℕ)
  | nack (i : ℕ) (error : Text) (delay : ℕ)
  | reap
  | requeue (id : JobId)

def initial (s : QueueState) : Prop :=
  s.jobs = Dict.empty ∧ s.pending = [] ∧ s.failures = Dict.empty

def emptyQueue : QueueState :=
  { clock := 0, jobs := Dict.empty, pending := [], failures := Dict.empty }

theorem emptyQueue_initial : initial emptyQueue := ⟨rfl,rfl,rfl⟩

def step (cfg : QueueConfig) (s : QueueState) : QueueAction → Option QueueState
  | .advance d => some { s with clock := s.clock+d }
  | .enqueue id new =>
    match s.jobs.get id with
    -- ids come from a sequence, so an INSERT finds its id unused
    | some _ => none
    | none => some { s with jobs := s.jobs.set id (enqueueRow cfg s.clock new),
                            failures := s.failures.set id 0 }
  | .claim queue worker limit visibility ids =>
    if selects s.clock queue limit s.jobs ids then
      let r := claim s.clock worker visibility ids s.jobs
      some { s with jobs := r.1, pending := s.pending ++
                      r.2.map (fun job => ⟨worker,job,s.clock,visibility⟩) }
    else none
  | .ack i =>
    match s.pending[i]? with
    | none => none
    | some c => some { s with jobs := ack c.job.id s.jobs, pending := s.pending.eraseIdx i }
  | .nack i error delay =>
    match s.pending[i]? with
    | none => none
    | some c =>
      -- full jitter: any delay up to the ceiling of the attempt
      if delay ≤ cfg.retry.ceiling (c.job.attempts+1) then
        some { s with jobs := (nack s.clock c.job error delay s.jobs).1,
                      pending := s.pending.eraseIdx i,
                      failures := s.failures.modify c.job.id (fun n => n+1) }
      else none
  | .reap => some { s with jobs := (reapExpired s.clock s.jobs).1 }
  | .requeue id =>
    let r := requeue s.clock id s.jobs
    some { s with jobs := r.1,
                  failures := if r.2.isSome then s.failures.set id 0 else s.failures }

def stateOf (s : QueueState) (id : JobId) : Option JobState := (s.jobs.get id).map JobRow.state

theorem claim_get (now : ℤ) (worker : Text) (visibility : ℤ) (ids : List JobId) (jobs : Jobs)
    (id : JobId) : (claim now worker visibility ids jobs).1.get id = (jobs.get id).map
      (fun row => if id ∈ ids then claimRow now worker visibility row else row) :=
  Dict.get_mapValues _ _ _

variable {jobs : Jobs} {id : JobId} {row : JobRow} {now : ℤ} {ids : List JobId} {cfg : QueueConfig}
  {s t : QueueState} {a : QueueAction} {queue : Text} {limit : ℕ}

theorem get_modify_row (k : JobId) (f : JobRow → JobRow)
    (hr : jobs.get id = some row) :
    (jobs.modify k f).get id = some (if k = id then f row else row) := by
  rw [Dict.get_modify, hr]
  by_cases hk : id = k
  · simp [hk]
  · simp [hk, Ne.symm hk]

theorem mem_claim {worker : Text} {visibility : ℤ}
    {job : Job} (h : job ∈ (claim now worker visibility ids jobs).2) :
    job.id ∈ ids ∧ ∃ row, jobs.get job.id = some row ∧
      job = toJob job.id (claimRow now worker visibility row) := by
  obtain ⟨id,hid,hj⟩ := List.mem_filterMap.mp h
  have hg := claim_get now worker visibility ids jobs id
  obtain ⟨row',hrow',hjob⟩ := map_eq_some_iff.mp hj
  have hg' := hg.symm.trans hrow'
  obtain ⟨row,hrow,hset⟩ := map_eq_some_iff.mp hg'
  rw [if_pos hid] at hset
  have hidj : job.id = id := by rw [← hjob]; rfl
  rw [hidj]
  refine ⟨hid,row,hrow,?_⟩
  rw [hset, hjob]

theorem requeue_isSome (now : ℤ)
    (hr : jobs.get id = some row) :
    (requeue now id jobs).2.isSome = decide (row.state = .dead) := by
  have hg := get_modify_row id (requeueRow now) hr
  by_cases hd : row.state = .dead
  · simp [requeue, hr, hd, hg]
  · simp [requeue, hr, hd]

def settles (s : QueueState) : QueueAction → Option JobId
  | .ack i => s.pending[i]?.map (fun c => c.job.id)
  | .nack i _ _ => s.pending[i]?.map (fun c => c.job.id)
  | _ => none

def touches (s : QueueState) (id : JobId) : QueueAction → Bool
  | .claim _ _ _ _ ids => id ∈ ids
  | a => settles s a = some id

def requeues (id : JobId) (row : JobRow) : QueueAction → Bool
  | .requeue k => k = id && row.state = .dead
  | _ => false

inductive RowStep (s : QueueState) (id : JobId) (row : JobRow) : QueueAction → JobRow → Prop
  | same (a : QueueAction) (ht : touches s id a = false) (hq : requeues id row a = false) :
      RowStep s id row a row
  | claimed (queue worker : Text) (limit : ℕ) (visibility : ℤ) (ids : List JobId) (hid : id ∈ ids)
      (hready : row.state = .ready) :
      RowStep s id row (.claim queue worker limit visibility ids)
        (claimRow s.clock worker visibility row)
  | acked (i : ℕ) (c : Claim) (hc : s.pending[i]? = some c) (hid : c.job.id = id) :
      RowStep s id row (.ack i) (ackRow row)
  | nacked (i : ℕ) (error : Text) (delay : ℕ) (c : Claim) (hc : s.pending[i]? = some c)
      (hid : c.job.id = id) :
      RowStep s id row (.nack i error delay) (nackRow s.clock c.job error delay row)
  | reaped (u : ℤ) (hrunning : row.state = .running) (hu : row.lockedUntil = some u)
      (hlt : u < s.clock) :
      RowStep s id row .reap { row with state := .ready, lockedBy := none, lockedUntil := none }
  | requeued (hdead : row.state = .dead) :
      RowStep s id row (.requeue id) { row with state := .ready, attempts := 0, runAt := s.clock }

inductive Step (cfg : QueueConfig) (s : QueueState) : QueueAction → QueueState → Prop
  | advance (d : ℕ) : Step cfg s (.advance d) { s with clock := s.clock+d }
  | enqueue (id : JobId) (new : NewJob) (hid : s.jobs.get id = none) :
      Step cfg s (.enqueue id new)
        { s with jobs := s.jobs.set id (enqueueRow cfg s.clock new),
                 failures := s.failures.set id 0 }
  | claim (queue worker : Text) (limit : ℕ) (visibility : ℤ) (ids : List JobId)
      (hsel : selects s.clock queue limit s.jobs ids = true) :
      Step cfg s (.claim queue worker limit visibility ids)
        { s with jobs := (claim s.clock worker visibility ids s.jobs).1,
                 pending := s.pending ++ (claim s.clock worker visibility ids s.jobs).2.map
                  (fun job => ⟨worker,job,s.clock,visibility⟩) }
  | ack (i : ℕ) (c : Claim) (hc : s.pending[i]? = some c) :
      Step cfg s (.ack i) { s with jobs := ack c.job.id s.jobs, pending := s.pending.eraseIdx i }
  | nack (i : ℕ) (error : Text) (delay : ℕ) (c : Claim) (hc : s.pending[i]? = some c)
      (hdelay : delay ≤ cfg.retry.ceiling (c.job.attempts+1)) :
      Step cfg s (.nack i error delay)
        { s with jobs := (nack s.clock c.job error delay s.jobs).1,
                 pending := s.pending.eraseIdx i,
                 failures := s.failures.modify c.job.id (fun n => n+1) }
  | reap : Step cfg s .reap { s with jobs := (reapExpired s.clock s.jobs).1 }
  | requeue (id : JobId) :
      Step cfg s (.requeue id)
        { s with jobs := (requeue s.clock id s.jobs).1,
                 failures := if (requeue s.clock id s.jobs).2.isSome then s.failures.set id 0
                  else s.failures }

/-- What each SQL statement can do. -/
theorem step_cases
    (h : step cfg s a = some t) : Step cfg s a t := by
  cases a with
  | advance d =>
    cases h
    exact Step.advance d
  | enqueue id new =>
    simp only [step] at h
    split at h
    · cases h
    · rename_i hid
      cases h
      exact Step.enqueue id new hid
  | claim queue worker limit visibility ids =>
    simp only [step] at h
    split at h
    · rename_i hsel
      cases h
      exact Step.claim queue worker limit visibility ids hsel
    · cases h
  | ack i =>
    simp only [step] at h
    split at h
    · cases h
    · rename_i c hc
      cases h
      exact Step.ack i c hc
  | nack i error delay =>
    simp only [step] at h
    split at h
    · cases h
    · rename_i c hc
      split at h
      · rename_i hdelay
        cases h
        exact Step.nack i error delay c hc hdelay
      · cases h
  | reap =>
    cases h
    exact Step.reap
  | requeue id =>
    cases h
    exact Step.requeue id

theorem step_clock (h : Step cfg s a t) : s.clock ≤ t.clock := by
  cases h with
  | advance d => exact Int.le_add_of_nonneg_right (Int.natCast_nonneg d)
  | _ => exact Int.le_refl _

theorem selects_claimable
    (h : selects now queue limit jobs ids = true) (hid : id ∈ ids) :
    ∃ row, jobs.get id = some row ∧ claimable now queue row = true := by
  simp only [selects, Bool.and_eq_true, List.all_eq_true] at h
  have hany := h.1.2 id hid
  cases hg : jobs.get id with
  | none => simp [hg] at hany
  | some row => exact ⟨row,rfl,by simpa [hg] using hany⟩

theorem selects_nodup
    (h : selects now queue limit jobs ids = true) : ids.Nodup := by
  simp only [selects, Bool.and_eq_true, decide_eq_true_eq] at h
  exact h.1.1.1

theorem claimable_state
    (h : claimable now queue row = true) : row.state = .ready := by
  simp only [claimable, Bool.and_eq_true, decide_eq_true_eq] at h
  exact h.1.2

theorem reapRow_cases (s : QueueState) (id : JobId) (row : JobRow) :
    RowStep s id row .reap (reapRow s.clock row) := by
  by_cases hreap : reapable s.clock row = true
  · have hr := hreap
    simp only [reapable, Bool.and_eq_true, decide_eq_true_eq] at hr
    rw [reapRow, if_pos hreap]
    cases hu : row.lockedUntil with
    | none => simp [hu] at hr
    | some u => exact RowStep.reaped u hr.1 hu (by simpa [hu] using hr.2)
  · rw [reapRow, if_neg hreap]
    exact RowStep.same .reap rfl rfl

theorem requeueRow_cases (s : QueueState) (id : JobId) (row : JobRow) :
    RowStep s id row (.requeue id) (requeueRow s.clock row) := by
  by_cases hdead : row.state = .dead
  · rw [requeueRow, if_pos hdead]
    exact RowStep.requeued hdead
  · rw [requeueRow, if_neg hdead]
    exact RowStep.same (.requeue id) rfl (by simp [requeues, hdead])

/-- No step removes a row, and each action changes it in its own way. -/
theorem step_row (cfg : QueueConfig) (s t : QueueState) (a : QueueAction) (h : Step cfg s a t)
    (id : JobId) (row : JobRow) (hr : s.jobs.get id = some row) :
    ∃ row', t.jobs.get id = some row' ∧ RowStep s id row a row' := by
  cases h with
  | advance d => exact ⟨row,hr,RowStep.same _ rfl rfl⟩
  | enqueue k new hk =>
    have hne : id ≠ k := by
      intro he
      rw [he, hk] at hr
      cases hr
    exact ⟨row,(Dict.get_set_ne hne).trans hr,RowStep.same _ rfl rfl⟩
  | claim queue worker limit visibility ids hsel =>
    have hget := claim_get s.clock worker visibility ids s.jobs id
    rw [hr, map_some] at hget
    refine ⟨_,hget,?_⟩
    by_cases hid : id ∈ ids
    · obtain ⟨row',hr',hc⟩ := selects_claimable hsel hid
      cases hr.symm.trans hr'
      rw [if_pos hid]
      exact RowStep.claimed queue worker limit visibility ids hid (claimable_state hc)
    · rw [if_neg hid]
      exact RowStep.same _ (by simp [touches, hid]) rfl
  | ack i c hc =>
    refine ⟨_,get_modify_row _ _ hr,?_⟩
    by_cases hid : c.job.id = id
    · rw [if_pos hid]
      exact RowStep.acked i c hc hid
    · rw [if_neg hid]
      exact RowStep.same _ (by simp [touches, settles, hc, hid]) rfl
  | nack i error delay c hc _ =>
    refine ⟨_,get_modify_row _ _ hr,?_⟩
    by_cases hid : c.job.id = id
    · rw [if_pos hid]
      exact RowStep.nacked i error delay c hc hid
    · rw [if_neg hid]
      exact RowStep.same _ (by simp [touches, settles, hc, hid]) rfl
  | reap =>
    exact ⟨_,(Dict.get_mapValues _ _ _).trans (by rw [hr]; rfl),reapRow_cases s id row⟩
  | requeue k =>
    refine ⟨_,get_modify_row _ _ hr,?_⟩
    by_cases hk : k = id
    · rw [if_pos hk, hk]
      exact requeueRow_cases s id row
    · rw [if_neg hk]
      exact RowStep.same _ rfl (by simp [requeues, hk])

/-- Only an enqueue makes a row. -/
theorem step_new_row
    (h : Step cfg s a t) (hs : s.jobs.get id = none)
    (ht : t.jobs.get id = some row) :
    ∃ new, a = .enqueue id new ∧ row = enqueueRow cfg s.clock new := by
  have hmod (k : JobId) (f : JobRow → JobRow) : (s.jobs.modify k f).get id = none := by
    rw [Dict.get_modify, hs]
    simp
  have hmap (f : JobId → JobRow → JobRow) : (s.jobs.mapValues f).get id = none := by
    rw [Dict.get_mapValues, hs]
    rfl
  cases h with
  | advance d => cases hs.symm.trans ht
  | enqueue k new hk =>
    rcases Dict.eq_or_get_of_get_set ht with ⟨rfl,rfl⟩ | ⟨_,ht⟩
    · exact ⟨new,rfl,rfl⟩
    · cases hs.symm.trans ht
  | claim queue worker limit visibility ids _ | reap =>
    exact absurd ((hmap _).symm.trans ht) (by simp)
  | ack i c hc | nack i error delay c hc _ | requeue k =>
    exact absurd ((hmod _ _).symm.trans ht) (by simp)

theorem step_row_cases
    (h : Step cfg s a t) {row' : JobRow} (ht : t.jobs.get id = some row') :
    (∃ row, s.jobs.get id = some row ∧ RowStep s id row a row') ∨
      (s.jobs.get id = none ∧ ∃ new, a = .enqueue id new ∧ row' = enqueueRow cfg s.clock new) := by
  cases hs : s.jobs.get id with
  | none => exact Or.inr ⟨rfl,step_new_row h hs ht⟩
  | some row =>
    obtain ⟨row₁,hr₁,hstep⟩ := step_row cfg s t a h id row hs
    cases ht.symm.trans hr₁
    exact Or.inl ⟨row,rfl,hstep⟩

theorem step_pending
    (h : Step cfg s a t) {c : Claim} (hc : c ∈ t.pending) :
    c ∈ s.pending ∨ ∃ queue limit ids row,
      a = .claim queue c.worker limit c.visibility ids ∧ c.claimedAt = s.clock ∧
      c.job.id ∈ ids ∧ s.jobs.get c.job.id = some row ∧
      c.job = toJob c.job.id (claimRow s.clock c.worker c.visibility row) := by
  cases h with
  | claim queue worker limit visibility ids _ =>
    rcases List.mem_append.mp hc with hc | hc
    · exact Or.inl hc
    · obtain ⟨job,hjob,rfl⟩ := List.mem_map.mp hc
      obtain ⟨hid,row,hrow,hj⟩ := mem_claim hjob
      exact Or.inr ⟨queue,limit,ids,row,rfl,rfl,hid,hrow,hj⟩
  | ack i c' hc' | nack i error delay c' hc' _ => exact Or.inl (List.mem_of_mem_eraseIdx hc)
  | advance d | enqueue id new _ | reap | requeue id => exact Or.inl hc

theorem not_claimed {worker : Text}
    {visibility : ℤ}
    (h : Step cfg s (.claim queue worker limit visibility ids) t)
    (hr : s.jobs.get id = some row) (hready : row.state ≠ .ready) : id ∉ ids := by
  intro hid
  obtain ⟨_,_,hstep⟩ := step_row cfg s t _ h id row hr
  cases hstep with
  | same _ ht _ => simp [touches, hid] at ht
  | claimed _ _ _ _ _ _ hst => exact hready hst

def emailJob : NewJob :=
  { queue := ⟨"emails".toList,by decide⟩, kind := ⟨"send".toList,by decide⟩,
    maxAttempts := none, delaySecs := none,
    maxAttempts_bounds := by simp, delaySecs_le := by simp }

def singleAttempt : NewJob :=
  { emailJob with
    kind := ⟨"exec".toList,by decide⟩
    maxAttempts := some 1
    maxAttempts_bounds := by simp [maxAttemptsCeiling] }

end BackendGauntlet.JobQueue
