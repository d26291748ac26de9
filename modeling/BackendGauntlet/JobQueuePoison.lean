import BackendGauntlet.JobQueueProcess
import BackendGauntlet.JobQueueWorkers

/-! A job whose every execution fails, with one worker. -/
namespace BackendGauntlet.JobQueue

open PyText Transition List Option Dict

def soleWorker (worker : Text) (s : Pool) : Prop :=
  s.jobs = Dict.empty ∧ s.workers = Dict.empty.set worker .idle ∧ s.executions = []

def Pool.executionsOf (s : Pool) (id : JobId) : ℕ :=
  s.executions.countP (fun e => decide (e.2 = id))

def WorkPhase.executes (p : WorkPhase) (id : JobId) : Bool :=
  p.current.any (fun job => decide (job.id = id))

def Pool.executes (s : Pool) (worker : Text) (id : JobId) : Bool :=
  (s.workers.get worker).any (fun p => p.executes id)

/-- Every execution of the job fails, the statements on it reach the database, and no operator
puts it back. -/
def alwaysFails (id : JobId) (s : Pool) : PoolAction → Bool
  | .finish worker raised => !s.executes worker id || raised.isSome
  | .lose worker => !s.executes worker id
  | .requeue k => k ≠ id
  | _ => true

def carriesText (id : JobId) (s : Pool) : PoolAction → Bool
  | .finish worker raised => !s.executes worker id || raised.all (fun e => acceptsText e.reason)
  | _ => true

structure Spending (row : JobRow) : Prop where
  states : (row.state = .ready ∨ row.state = .running) ∧ row.attempts < row.maxAttempts ∨
    row.state = .dead ∧ row.attempts = row.maxAttempts
  leased : row.state = .running → row.lockedUntil.isSome = true

structure Poisoned (id : JobId) (p : WorkPhase) (r : Option JobRow) (n : ℕ) : Prop where
  once : (p.held.map Job.id).Nodup
  failed : ∀ job reason todo, p = .settling job reason todo → job.id = id →
    ∃ text, reason = some text ∧ acceptsText text = true
  held : ∀ job ∈ p.held, job.id = id → ∃ row, r = some row ∧ row.state ≠ .dead ∧
    job.attempts = row.attempts ∧ job.maxAttempts = row.maxAttempts
  spending : ∀ row, r = some row → Spending row
  count : n = r.elim 0 JobRow.attempts+if p.executes id then 1 else 0

theorem spending_enqueueRow (qcfg : QueueConfig) (now : ℤ) (new : NewJob) :
    Spending (enqueueRow qcfg now new) := by
  have hpos : 0 < new.maxAttempts.getD qcfg.defaultMaxAttempts := by
    cases hmax : new.maxAttempts with
    | none => exact qcfg.default_pos
    | some k => exact (new.maxAttempts_bounds k hmax).1
  exact ⟨Or.inl ⟨Or.inl rfl,hpos⟩,fun h => absurd h (by simp [enqueueRow])⟩

theorem reapRow_attempts (now : ℤ) (row : JobRow) :
    (reapRow now row).attempts = row.attempts ∧
      (reapRow now row).maxAttempts = row.maxAttempts := by
  unfold reapRow
  split_ifs <;> exact ⟨rfl,rfl⟩

theorem reapRow_dead_iff (now : ℤ) (row : JobRow) :
    (reapRow now row).state = .dead ↔ row.state = .dead := by
  unfold reapRow
  split_ifs with h
  · simp only [reapable, Bool.and_eq_true, decide_eq_true_eq] at h
    simp [h.1]
  · rfl

theorem spending_reapRow (now : ℤ) (row : JobRow) (h : Spending row) :
    Spending (reapRow now row) := by
  by_cases hreap : reapable now row = true
  · rw [reapRow, if_pos hreap]
    simp only [reapable, Bool.and_eq_true, decide_eq_true_eq] at hreap
    rcases h.states with ⟨_,hlt⟩ | ⟨hdead,_⟩
    · exact ⟨Or.inl ⟨Or.inl rfl,hlt⟩,fun h => absurd h (by simp)⟩
    · exact absurd (hdead.symm.trans hreap.1) (by simp)
  · rw [reapRow, if_neg hreap]
    exact h

variable {row : JobRow} {n : ℕ} {r : Option JobRow}

theorem spending_claimRow (now : ℤ) (worker : Text) (visibility : ℤ)
    (hready : row.state = .ready) (h : Spending row) :
    Spending (claimRow now worker visibility row) := by
  rcases h.states with ⟨_,hlt⟩ | ⟨hdead,_⟩
  · exact ⟨Or.inl ⟨Or.inr rfl,hlt⟩,fun _ => rfl⟩
  · cases hdead.symm.trans hready

theorem spending_nackRow (now : ℤ) {job : Job} (error : Text) (delay : ℕ)
    (hattempts : job.attempts = row.attempts) (hmax : job.maxAttempts = row.maxAttempts)
    (hopen : row.state ≠ .dead) (h : Spending row) :
    Spending (nackRow now job error delay row) := by
  rcases h.states with ⟨_,hlt⟩ | ⟨hdead,_⟩
  · by_cases hleft : job.attempts+1 < job.maxAttempts
    · have hstate : nackState job = .ready := if_pos hleft
      refine ⟨Or.inl ⟨Or.inl hstate,?_⟩,fun h => absurd (hstate.symm.trans h) (by simp)⟩
      rw [hmax] at hleft
      exact hleft
    · have hstate : nackState job = .dead := if_neg hleft
      refine ⟨Or.inr ⟨hstate,?_⟩,fun h => absurd (hstate.symm.trans h) (by simp)⟩
      change job.attempts+1 = row.maxAttempts
      omega
  · exact absurd hdead hopen

section
variable (id : JobId)

theorem executes_of_held_ne {p : WorkPhase} (hne : ∀ job ∈ p.held, job.id ≠ id) :
    p.executes id = false := by
  cases p with
  | handling job started todo | settling job reason todo =>
    have h := hne job mem_cons_self
    simp [WorkPhase.executes, WorkPhase.current, h]
  | _ => rfl

section
variable (p : WorkPhase) (r : Option JobRow) (n : ℕ) (h : Poisoned id p r n)
include h

theorem poisoned_row (f : JobRow → JobRow)
    (hcounts : ∀ row, (f row).attempts = row.attempts ∧ (f row).maxAttempts = row.maxAttempts)
    (hdead : ∀ row, (f row).state = .dead ↔ row.state = .dead)
    (hspend : ∀ row, Spending row → Spending (f row)) : Poisoned id p (r.map f) n := by
  refine ⟨h.once,h.failed,?_,?_,?_⟩
  · intro job hjob hid
    obtain ⟨row,hr,hopen,hattempts,hmax⟩ := h.held job hjob hid
    refine ⟨f row,by rw [hr, map_some],mt (hdead row).mp hopen,?_,?_⟩
    · rw [(hcounts row).1, hattempts]
    · rw [(hcounts row).2, hmax]
  · intro row' hr'
    obtain ⟨row,hr,rfl⟩ := map_eq_some_iff.mp hr'
    exact hspend row (h.spending row hr)
  · rw [h.count]
    cases r with
    | none => rfl
    | some row => simp [(hcounts row).1]

theorem poisoned_leave (p' : WorkPhase) (hheld : p'.held.Sublist p.held)
    (hnew : p'.current = none) (hold : p.executes id = false) : Poisoned id p' r n := by
  have hfree : p'.executes id = false := by rw [WorkPhase.executes, hnew, any_none]
  refine ⟨h.once.sublist (hheld.map Job.id),?_,?_,h.spending,?_⟩
  · intro job reason todo hp _
    rw [hp] at hnew
    cases hnew
  · intro job hjob
    exact h.held job (hheld.subset hjob)
  · rw [h.count, hfree, hold]

end

theorem poisoned_enqueue (p : WorkPhase) (h : Poisoned id p none n)
    (hrow : row.attempts = 0) (hspend : Spending row) : Poisoned id p (some row) n := by
  refine ⟨h.once,h.failed,?_,?_,?_⟩
  · intro job hjob hid
    obtain ⟨_,hr,_⟩ := h.held job hjob hid
    cases hr
  · intro row' hr
    cases hr
    exact hspend
  · rw [h.count]
    simp [hrow]

theorem poisoned_start (job : Job) (started : ℤ) (todo : List Job)
    (h : Poisoned id (.batch (job :: todo)) r n) :
    Poisoned id (.handling job started todo) r (n+if job.id = id then 1 else 0) := by
  refine ⟨h.once,fun _ _ _ hp => absurd hp (by simp),h.held,h.spending,?_⟩
  rw [h.count]
  simp [WorkPhase.executes, WorkPhase.current]

theorem poisoned_finish (job : Job) (started : ℤ) {reason : Option Text} (todo : List Job)
    (h : Poisoned id (.handling job started todo) r n)
    (hreason : job.id = id → ∃ text, reason = some text ∧ acceptsText text = true) :
    Poisoned id (.settling job reason todo) r n := by
  refine ⟨h.once,?_,h.held,h.spending,h.count⟩
  intro job' reason' todo' hp hid
  cases hp
  exact hreason hid

theorem poisoned_next {job : Job} {reason : Option Text} {todo : List Job}
    {r' : Option JobRow} (h : Poisoned id (.settling job reason todo) r n)
    (hid : job.id = id) (hspend : ∀ row, r' = some row → Spending row)
    (hcount : r'.elim 0 JobRow.attempts = r.elim 0 JobRow.attempts+1) :
    Poisoned id (.next todo) r' n := by
  have honce := h.once
  simp only [WorkPhase.held, map_cons, nodup_cons] at honce
  have hother (j : Job) (hj : j ∈ (WorkPhase.next todo).held) : j.id ≠ id := by
    rw [WorkPhase.held_next] at hj
    intro he
    exact honce.1 (hid.trans he.symm ▸ List.mem_map_of_mem hj)
  refine ⟨?_,?_,fun j hj hjid => absurd hjid (hother j hj),hspend,?_⟩
  · rw [WorkPhase.held_next]
    exact honce.2
  · intro job' reason' todo' hp _
    have hnew := WorkPhase.current_next todo
    rw [hp] at hnew
    cases hnew
  · rw [h.count, executes_of_held_ne id hother, hcount]
    simp [WorkPhase.executes, WorkPhase.current, hid]

theorem poisoned_claim (now : ℤ) (worker : Text) (visibility : ℤ) (limit : ℕ) (queue : Text)
    (ids : List JobId) (jobs : Jobs) (h : Poisoned id .idle (jobs.get id) n)
    (hsel : selects now queue limit jobs ids = true) :
    Poisoned id (.next (claim now worker visibility ids jobs).2)
      ((claim now worker visibility ids jobs).1.get id) n := by
  have hget := claim_get now worker visibility ids jobs id
  refine ⟨?_,?_,?_,?_,?_⟩
  · rw [WorkPhase.held_next]
    exact pairwise_map.mpr (claim_distinct jobs (selects_nodup hsel))
  · intro job reason todo hp _
    have hnew := WorkPhase.current_next (claim now worker visibility ids jobs).2
    rw [hp] at hnew
    cases hnew
  · intro job hjob hid
    rw [WorkPhase.held_next] at hjob
    obtain ⟨hin,row,hrow,hjob⟩ := mem_claim hjob
    rw [hid] at hin hrow
    rw [hrow, map_some, if_pos hin] at hget
    exact ⟨_,hget,by simp [claimRow],by rw [hjob]; rfl,by rw [hjob]; rfl⟩
  · intro row' hr'
    rw [hget] at hr'
    obtain ⟨row,hrow,rfl⟩ := map_eq_some_iff.mp hr'
    split_ifs with hin
    · obtain ⟨row₁,hrow₁,hready⟩ := selects_claimable hsel hin
      cases hrow.symm.trans hrow₁
      exact spending_claimRow now worker visibility (claimable_state hready) (h.spending row hrow)
    · exact h.spending row hrow
  · have hfree : (WorkPhase.next (claim now worker visibility ids jobs).2).executes id = false := by
      rw [WorkPhase.executes, WorkPhase.current_next, any_none]
    have hidle : WorkPhase.idle.executes id = false := rfl
    rw [h.count, hget, hfree, hidle]
    cases jobs.get id with
    | none => rfl
    | some row =>
      simp only [map_some, elim_some]
      split_ifs <;> rfl

end

section
variable (qcfg : QueueConfig) (cfg : PoolConfig) (worker : Text) (id : JobId)

structure PoisonInv (s : Pool) : Prop where
  sole : ∀ w p, s.workers.get w = some p →
    w = worker ∧ Poisoned id p (s.jobs.get id) (s.executionsOf id)
  present : ∃ p, s.workers.get worker = some p

theorem poisonInv_soleWorker (s : Pool) (h : soleWorker worker s) : PoisonInv worker id s := by
  obtain ⟨hjobs,hworkers,hexec⟩ := h
  refine ⟨?_,.idle,by rw [hworkers, get_set_self]⟩
  intro w p hp
  rw [hworkers] at hp
  rcases eq_or_get_of_get_set hp with ⟨hw,rfl⟩ | ⟨_,hp⟩
  · refine ⟨hw,nodup_nil,fun _ _ _ hp => absurd hp (by simp),?_,?_,?_⟩
    · intro job hjob
      cases hjob
    · intro row hrow
      rw [hjobs] at hrow
      cases hrow
    · rw [Pool.executionsOf, hjobs, hexec]
      rfl
  · cases hp

section
variable (s : Pool) (h : PoisonInv worker id s)
include h

theorem poisonInv_statement (jobs : Jobs)
    (hP : ∀ p, Poisoned id p (s.jobs.get id) (s.executionsOf id) →
      Poisoned id p (jobs.get id) (s.executionsOf id)) :
    PoisonInv worker id (s.setJobs jobs) :=
  ⟨fun w p hp => ⟨(h.sole w p hp).1,hP p (h.sole w p hp).2⟩,h.present⟩

theorem poisonInv_moved (w : Text) (p p' : WorkPhase) (jobs : Jobs)
    (executions : List (Text × JobId)) (hp : s.workers.get w = some p)
    (hP : Poisoned id p' (jobs.get id) (executions.countP (fun e => decide (e.2 = id)))) :
    PoisonInv worker id { (s.setJobs jobs).setPhase w p' with executions := executions } := by
  have hw : w = worker := (h.sole w p hp).1
  refine ⟨?_,p',by rw [← hw]; exact get_set_self⟩
  intro w' q hq
  rcases eq_or_get_of_get_set hq with ⟨hw',rfl⟩ | ⟨hne,hq⟩
  · exact ⟨hw'.trans hw,hP⟩
  · exact absurd ((h.sole w' q hq).1.trans hw.symm) hne

theorem poisonInv_leave (w : Text) (job : Job) (reason : Option Text) (todo : List Job)
    (jobs : Jobs) (hp : s.workers.get w = some (.settling job reason todo)) (hne : job.id ≠ id)
    (hjobs : jobs.get id = s.jobs.get id) :
    PoisonInv worker id ((s.setJobs jobs).setPhase w (.next todo)) := by
  apply poisonInv_moved worker id s h w _ (.next todo) jobs s.executions hp
  rw [hjobs]
  apply poisoned_leave id _ _ _ (h.sole w _ hp).2 (.next todo) _ (WorkPhase.current_next todo)
  · simp [WorkPhase.executes, WorkPhase.current, hne]
  · rw [WorkPhase.held_next]
    exact sublist_cons_self job todo

theorem poisonInv_nack (w : Text) (job : Job) (reason : Text) (delay : ℕ) (todo : List Job)
    (hp : s.workers.get w = some (.settling job (some reason) todo)) :
    PoisonInv worker id
      ((s.setJobs (nack s.clock job reason delay s.jobs).1).setPhase w (.next todo)) := by
  have hget := get_modify s.jobs job.id id (nackRow s.clock job reason delay)
  have hP := (h.sole w _ hp).2
  by_cases hid : job.id = id
  · obtain ⟨row,hrow,hopen,hattempts,hmax⟩ := hP.held job mem_cons_self hid
    rw [if_pos hid.symm, hrow, map_some] at hget
    apply poisonInv_moved worker id s h w _ (.next todo)
      (nack s.clock job reason delay s.jobs).1 s.executions hp
    apply poisoned_next id hP hid
    · intro row' hr
      rw [← some.inj (hget.symm.trans hr)]
      exact spending_nackRow s.clock reason delay hattempts hmax hopen (hP.spending row hrow)
    · change ((s.jobs.modify job.id (nackRow s.clock job reason delay)).get id).elim 0 _ = _
      rw [hget, hrow]
      exact congrArg (· + 1) hattempts
  · rw [if_neg (Ne.symm hid)] at hget
    exact poisonInv_leave worker id s h w job _ todo _ hp hid hget

theorem poisonInv_step {t : Pool} {a : PoolAction}
    (hok : (alwaysFails id s a && carriesText id s a) = true) (ht : PoolStep qcfg cfg s a t) :
    PoisonInv worker id t := by
  rw [Bool.and_eq_true] at hok
  obtain ⟨hfails,hcarries⟩ := hok
  cases ht with
  | advance d _ => exact ⟨h.sole,h.present⟩
  | enqueue k new hk =>
    apply poisonInv_statement worker id s h
    intro p hP
    rw [get_set]
    split_ifs with hid
    · rw [hid, hk] at hP
      rw [hid]
      exact poisoned_enqueue k p hP rfl (spending_enqueueRow qcfg s.clock new)
    · exact hP
  | requeue k =>
    apply poisonInv_statement worker id s h
    intro p hP
    have hne : id ≠ k := Ne.symm (of_decide_eq_true hfails)
    have hget := get_modify s.jobs k id (requeueRow s.clock)
    rw [if_neg hne] at hget
    change Poisoned id p ((s.jobs.modify k (requeueRow s.clock)).get id) _
    rw [hget]
    exact hP
  | reap =>
    apply poisonInv_statement worker id s h
    intro p hP
    have hget := get_mapValues s.jobs (fun _ row => reapRow s.clock row) id
    change Poisoned id p ((s.jobs.mapValues (fun _ row => reapRow s.clock row)).get id) _
    rw [hget]
    exact poisoned_row id p _ _ hP (reapRow s.clock) (reapRow_attempts s.clock)
      (reapRow_dead_iff s.clock) (spending_reapRow s.clock)
  | claim w ids hidle hsel =>
    apply poisonInv_moved worker id s h w .idle
      (.next (claim s.clock w cfg.visibilityTimeout ids s.jobs).2)
      (claim s.clock w cfg.visibilityTimeout ids s.jobs).1 s.executions hidle
    exact poisoned_claim id s.clock w cfg.visibilityTimeout cfg.claimBatch cfg.queueName ids
      s.jobs (h.sole w _ hidle).2 hsel
  | start w job todo hp =>
    apply poisonInv_moved worker id s h w _ (.handling job s.clock todo) s.jobs _ hp
    have hP := poisoned_start id job s.clock todo (h.sole w _ hp).2
    rw [countP_append, countP_singleton]
    simpa only [Pool.executionsOf, decide_eq_true_eq] using hP
  | finish w raised job started todo hp =>
    apply poisonInv_moved worker id s h w _ (.settling job (raised.map Raised.reason) todo)
      s.jobs s.executions hp
    apply poisoned_finish id job started todo (h.sole w _ hp).2
    intro hid
    have hexec : s.executes w id = true := by
      simp [Pool.executes, WorkPhase.executes, WorkPhase.current, hp, hid]
    simp only [alwaysFails, carriesText, hexec, Bool.not_true, Bool.false_or] at hfails hcarries
    obtain ⟨e,rfl⟩ := isSome_iff_exists.mp hfails
    exact ⟨e.reason,rfl,hcarries⟩
  | acked w delay job todo hp =>
    have hne : job.id ≠ id := by
      intro hid
      obtain ⟨text,hnone,_⟩ := (h.sole w _ hp).2.failed job none todo rfl hid
      cases hnone
    have hget := get_modify s.jobs job.id id ackRow
    rw [if_neg (Ne.symm hne)] at hget
    exact poisonInv_leave worker id s h w job none todo _ hp hne hget
  | nacked w delay job reason todo hp _ _ =>
    exact poisonInv_nack worker id s h w job reason delay todo hp
  | refused w delay job reason todo hp hrefuse =>
    have hne : job.id ≠ id := by
      intro hid
      obtain ⟨text,htext,haccept⟩ := (h.sole w _ hp).2.failed job _ todo rfl hid
      rw [← some.inj htext, hrefuse] at haccept
      cases haccept
    exact poisonInv_leave worker id s h w job _ todo s.jobs hp hne rfl
  | lost w job reason todo hp =>
    have hne : job.id ≠ id := by
      intro hid
      simp [alwaysFails, Pool.executes, WorkPhase.executes, WorkPhase.current, hp, hid] at hfails
    exact poisonInv_leave worker id s h w job _ todo s.jobs hp hne rfl
  | stopped w p hp hfree =>
    apply poisonInv_moved worker id s h w p .stopped s.jobs s.executions hp
    apply poisoned_leave id p _ _ (h.sole w p hp).2 .stopped (nil_sublist _) rfl
    rw [WorkPhase.executes, hfree, any_none]

end

/-- A dead job is not among the held ones, so no step executes it or touches its row. -/
theorem dead_step {s t : Pool} {a : PoolAction} (h : PoisonInv worker id s)
    (hrequeue : alwaysFails id s a = true) (ht : PoolStep qcfg cfg s a t)
    (hrow : s.jobs.get id = some row) (hdead : row.state = .dead) :
    t.jobs.get id = some row ∧ t.executionsOf id = s.executionsOf id := by
  have hother (w : Text) (p : WorkPhase) (hp : s.workers.get w = some p) (job : Job)
      (hjob : job ∈ p.held) : job.id ≠ id := by
    intro hid
    obtain ⟨row',hrow',hopen,_⟩ := (h.sole w p hp).2.held job hjob hid
    rw [hrow] at hrow'
    exact hopen (some.inj hrow' ▸ hdead)
  cases ht with
  | enqueue k new hk =>
    have hne : id ≠ k := by
      intro he
      rw [he, hk] at hrow
      simp at hrow
    exact ⟨(get_set_ne hne).trans hrow,rfl⟩
  | requeue k =>
    have hget := get_modify_row k (requeueRow s.clock) hrow
    rw [if_neg (of_decide_eq_true hrequeue)] at hget
    exact ⟨hget,rfl⟩
  | reap =>
    have hget := get_mapValues s.jobs (fun _ row => reapRow s.clock row) id
    have hkeep : reapRow s.clock row = row := if_neg (by simp [reapable, hdead])
    rw [hrow, map_some, hkeep] at hget
    exact ⟨hget,rfl⟩
  | claim w ids _ hsel =>
    have hnot : id ∉ ids := by
      intro hin
      obtain ⟨row',hrow',hready⟩ := selects_claimable hsel hin
      rw [hrow] at hrow'
      rw [← some.inj hrow'] at hready
      exact absurd (hdead.symm.trans (claimable_state hready)) (by simp)
    have hget := claim_get s.clock w cfg.visibilityTimeout ids s.jobs id
    rw [hrow, map_some, if_neg hnot] at hget
    exact ⟨hget,rfl⟩
  | start w job todo hp =>
    have hne := hother w _ hp job mem_cons_self
    refine ⟨hrow,?_⟩
    simp [Pool.executionsOf, countP_append, hne]
  | acked w delay job todo hp =>
    have hget := get_modify_row job.id ackRow hrow
    rw [if_neg (hother w _ hp job mem_cons_self)] at hget
    exact ⟨hget,rfl⟩
  | nacked w delay job reason todo hp _ _ =>
    have hget := get_modify_row job.id (nackRow s.clock job reason delay) hrow
    rw [if_neg (hother w _ hp job mem_cons_self)] at hget
    exact ⟨hget,rfl⟩
  | advance d _ | finish w raised job started todo hp | refused w delay job reason todo hp _
  | lost w job reason todo hp | stopped w p hp _ => exact ⟨hrow,rfl⟩

/-- An open job of an idle worker's queue comes back: after some time and a run of the reaper it
can be claimed. -/
theorem open_comes_back {s : Pool} (hrow : s.jobs.get id = some row)
    (hspend : Spending row) (hopen : row.state ≠ .dead)
    (hidle : ∀ w p, s.workers.get w = some p → p = .idle) :
    ∃ d t row', run (poolStep qcfg cfg) s [.advance d, .reap] = some t ∧
      t.jobs.get id = some row' ∧ claimable t.clock row.queue row' = true := by
  obtain ⟨d,hd⟩ : ∃ d : ℕ, row.runAt ≤ s.clock+d ∧
      ∀ u, row.lockedUntil = some u → u < s.clock+d := by
    refine ⟨(max row.runAt (row.lockedUntil.getD 0)-s.clock).toNat+1,by omega,?_⟩
    intro u hu
    rw [hu, getD_some]
    omega
  have hmay : s.mayAdvance cfg d = true := by
    rw [Pool.mayAdvance, List.all_eq_true]
    rintro ⟨w,p⟩ hp
    rw [hidle w p (get_eq_some_iff.mpr hp)]
  refine ⟨d,{ s with clock := s.clock+d, jobs := (reapExpired (s.clock+d) s.jobs).1 },
    reapRow (s.clock+d) row,?_,?_,?_⟩
  · simp only [run, poolStep, hmay, if_true, bind_some]
    rfl
  · have hget := get_mapValues s.jobs (fun _ row => reapRow (s.clock+d) row) id
    rw [hrow, map_some] at hget
    exact hget
  · change claimable (s.clock+d) row.queue (reapRow (s.clock+d) row) = true
    rcases hspend.states with ⟨hready | hrunning,_⟩ | ⟨hdead,_⟩
    · rw [reapRow, if_neg (by simp [reapable, hready])]
      simp [claimable, hready, hd.1]
    · obtain ⟨u,hu⟩ := isSome_iff_exists.mp (hspend.leased hrunning)
      have hlapsed : reapable (s.clock+d) row = true := by
        simp [reapable, hrunning, hu, hd.2 u hu]
      rw [reapRow, if_pos hlapsed]
      simp [claimable, hd.1]
    · exact absurd hdead hopen

/-- With one worker and failures that can be stored, the job dies with its last attempt and not
before, is never executed again, and until then comes back. -/
theorem poison_message_dies (s : Pool)
    (hs : Reachable (soleWorker worker) (poolStep qcfg cfg)
      (fun s a => (alwaysFails id s a && carriesText id s a) = true) s)
    (row : JobRow) (hrow : s.jobs.get id = some row) :
    s.executionsOf id ≤ row.maxAttempts ∧
    (s.executes worker id = false →
      (row.state = .dead ↔ s.executionsOf id = row.maxAttempts)) ∧
    (row.state = .dead → s.executes worker id = false ∧
      ∀ t, Reachable (fun u => u = s) (poolStep qcfg cfg)
          (fun s a => (alwaysFails id s a && carriesText id s a) = true) t →
        t.jobs.get id = some row ∧ t.executionsOf id = row.maxAttempts) ∧
    (row.state ≠ .dead → s.workers.get worker = some .idle →
      ∃ d t row', run (poolStep qcfg cfg) s [.advance d, .reap] = some t ∧
        t.jobs.get id = some row' ∧ claimable t.clock row.queue row' = true) := by
  have hstep (s t : Pool) (a : PoolAction) (hI : PoisonInv worker id s)
      (hok : (alwaysFails id s a && carriesText id s a) = true)
      (ht : poolStep qcfg cfg s a = some t) : PoisonInv worker id t :=
    poisonInv_step qcfg cfg worker id s hI hok (poolStep_cases qcfg cfg ht)
  have hI := reachable_invariant _ (poisonInv_soleWorker worker id) hstep s hs
  obtain ⟨p,hp⟩ := hI.present
  have hP := (hI.sole worker p hp).2
  have hspend := hP.spending row hrow
  have hexec : s.executes worker id = p.executes id := by
    rw [Pool.executes, hp, any_some]
  have hcount := hP.count
  rw [hrow, elim_some] at hcount
  -- an execution under way is of an open row, which has attempts left
  have hfree (hdead : row.state = .dead) : p.executes id = false := by
    apply executes_of_held_ne
    intro job hjob hid
    obtain ⟨row',hrow',hopen,_⟩ := hP.held job hjob hid
    rw [hrow] at hrow'
    exact hopen (some.inj hrow' ▸ hdead)
  have hnotDead (hopen : row.state = .ready ∨ row.state = .running) : row.state ≠ .dead := by
    rcases hopen with h | h
    · simp [h]
    · simp [h]
  refine ⟨?_,?_,?_,?_⟩
  · rcases hspend.states with ⟨_,hlt⟩ | ⟨hdead,heq⟩
    · rw [hcount]
      split_ifs <;> omega
    · rw [hcount, hfree hdead]
      exact heq.le
  · intro hidle
    rw [hexec] at hidle
    rw [hidle] at hcount
    rcases hspend.states with ⟨hopen,hlt⟩ | ⟨hdead,heq⟩
    · have hne : s.executionsOf id ≠ row.maxAttempts := by
        rw [hcount]
        exact hlt.ne
      exact ⟨fun hdead => absurd hdead (hnotDead hopen),fun h => absurd h hne⟩
    · exact ⟨fun _ => hcount.trans heq,fun _ => hdead⟩
  · intro hdead
    refine ⟨hexec.trans (hfree hdead),?_⟩
    have hlast : s.executionsOf id = row.maxAttempts := by
      rw [hcount, hfree hdead]
      rcases hspend.states with ⟨hopen,_⟩ | ⟨_,heq⟩
      · exact absurd hdead (hnotDead hopen)
      · exact heq
    intro t ht
    have hkept := reachable_invariant
      (fun u => PoisonInv worker id u ∧ u.jobs.get id = some row ∧
        u.executionsOf id = row.maxAttempts)
      (by rintro u rfl; exact ⟨hI,hrow,hlast⟩)
      (by
        rintro u v a ⟨hu,hurow,hcount⟩ hok hv
        have hfails := (Bool.and_eq_true _ _ ▸ hok).1
        obtain ⟨hvrow,hvcount⟩ := dead_step qcfg cfg worker id hu hfails
          (poolStep_cases qcfg cfg hv) hurow hdead
        exact ⟨hstep u v a hu hok hv,hvrow,hvcount.trans hcount⟩) t ht
    exact hkept.2
  · intro hopen hidle
    apply open_comes_back qcfg cfg id hrow hspend hopen
    intro w q hq
    rw [(hI.sole w q hq).1, hidle] at hq
    exact (some.inj hq).symm

end

def oneWorker : Pool where
  clock := 0
  jobs := Dict.empty
  workers := Dict.empty.set "w1".toList .idle
  executions := []

def attemptOnce (e : Raised) : List PoolAction :=
  [.claim "w1".toList [1], .start "w1".toList, .finish "w1".toList (some e),
    .settle "w1".toList 0]

def commandFailed (line : Text) : Raised := ⟨exitMessage 1 [line],"JobFailed".toList⟩

/-- A null byte on stderr: the nack is refused, the reaper returns the job, and it runs again. -/
theorem null_byte_runs_again :
    ∃ s, Reachable (soleWorker "w1".toList) (poolStep defaultConfig emailWorkers)
        (fun s a => (alwaysFails 1 s a && worksOffInTime s a) = true) s ∧
      (decide (s.executionsOf 1 = 2) && !s.executes "w1".toList 1 &&
        (s.jobs.get 1).any (fun row : JobRow =>
          decide (row.maxAttempts = 1 ∧ row.attempts = 0 ∧ row.state = .running))) = true :=
  reachable_of_checkedRun _ _ _
    (.enqueue 1 singleAttempt :: attemptOnce (commandFailed [Char.ofNat 0]) ++
      [.advance 30000001, .reap] ++ attemptOnce (commandFailed [Char.ofNat 0])) oneWorker
    ⟨rfl,rfl,rfl⟩ (by decide +kernel)

/-- With a text that can be stored the same job is dead after its one execution. -/
theorem poison_message_dies_email :
    ∃ s row, Reachable (soleWorker "w1".toList) (poolStep defaultConfig emailWorkers)
        (fun s a => (alwaysFails 1 s a && carriesText 1 s a) = true) s ∧
      s.jobs.get 1 = some row ∧ row.maxAttempts = 1 ∧ row.state = .dead ∧
      s.executionsOf 1 ≤ row.maxAttempts := by
  obtain ⟨s,hs,row,hrow,hmax,hdead⟩ := reachable_of_checkedRun (soleWorker "w1".toList)
    (poolStep defaultConfig emailWorkers) (fun s a => alwaysFails 1 s a && carriesText 1 s a)
    (P := fun s => ∃ row, s.jobs.get 1 = some row ∧ row.maxAttempts = 1 ∧ row.state = .dead)
    (.enqueue 1 singleAttempt :: attemptOnce (commandFailed "no such host".toList)) oneWorker
    ⟨rfl,rfl,rfl⟩ (by decide +kernel)
  exact ⟨s,row,hs,hrow,hmax,hdead,
    (poison_message_dies defaultConfig emailWorkers "w1".toList 1 s hs row hrow).1⟩

end BackendGauntlet.JobQueue
