import BackendGauntlet.JobQueueSafety

/-! The worker pool over the table; time passes between any two steps of a worker. -/
namespace BackendGauntlet.JobQueue

open PyText Transition List Option Dict

structure PoolConfig where
  queueName : Text
  visibilityTimeout : ℕ
  claimBatch : ℕ
  claimBatch_pos : 1 ≤ claimBatch

structure Raised where
  message : Text
  typeName : Text

def Raised.reason (e : Raised) : Text := if e.message = [] then e.typeName else e.message

def acceptsText (t : Text) : Bool := t.all (fun c => c ≠ Char.ofNat 0)

inductive WorkPhase
  | idle
  | batch (todo : List Job)
  | handling (job : Job) (started : ℤ) (todo : List Job)
  | settling (job : Job) (reason : Option Text) (todo : List Job)
  | stopped
deriving DecidableEq

def WorkPhase.held : WorkPhase → List Job
  | .batch todo => todo
  | .handling job _ todo => job :: todo
  | .settling job _ todo => job :: todo
  | _ => []

def WorkPhase.current : WorkPhase → Option Job
  | .handling job _ _ => some job
  | .settling job _ _ => some job
  | _ => none

def WorkPhase.next (todo : List Job) : WorkPhase := if todo = [] then .idle else .batch todo

@[simp] theorem WorkPhase.held_next (todo : List Job) : (WorkPhase.next todo).held = todo := by
  unfold WorkPhase.next
  split_ifs with h
  · rw [h]
    rfl
  · rfl

@[simp] theorem WorkPhase.current_next (todo : List Job) :
    (WorkPhase.next todo).current = none := by
  unfold WorkPhase.next
  split_ifs <;> rfl

/-- `executions` is history: the handlers that were started. -/
structure Pool where
  clock : ℤ
  jobs : Jobs
  workers : Dict Text WorkPhase
  executions : List (Text × JobId)

def Pool.setPhase (s : Pool) (worker : Text) (p : WorkPhase) : Pool :=
  { s with workers := s.workers.set worker p }

def Pool.setJobs (s : Pool) (jobs : Jobs) : Pool := { s with jobs := jobs }

inductive PoolAction
  | advance (d : ℕ)
  | enqueue (id : JobId) (new : NewJob)
  | requeue (id : JobId)
  | reap
  | claim (worker : Text) (ids : List JobId)
  | start (worker : Text)
  | finish (worker : Text) (raised : Option Raised)
  | settle (worker : Text) (delay : ℕ)
  | lose (worker : Text)
  | shutdown (worker : Text)

variable {s t : Pool} {worker : Text} {job : Job} {reason : Option Text} {todo : List Job}

section
variable (qcfg : QueueConfig) (cfg : PoolConfig)

/-- Every handler takes less time than the visibility timeout. -/
def Pool.mayAdvance (s : Pool) (d : ℕ) : Bool :=
  s.workers.entries.all (fun e =>
    match e.2 with
    | .handling _ started _ => decide (s.clock+d < started+cfg.visibilityTimeout)
    | _ => true)

def Pool.record (s : Pool) (worker : Text) (job : Job) (reason : Option Text) (delay : ℕ)
    (todo : List Job) : Option Pool :=
  match reason with
  | none => some ((s.setJobs (ack job.id s.jobs)).setPhase worker (.next todo))
  | some reason =>
    if acceptsText reason then
      if delay ≤ qcfg.retry.ceiling (job.attempts+1) then
        some ((s.setJobs (nack s.clock job reason delay s.jobs).1).setPhase worker (.next todo))
      else none
    -- a nack that the database refuses is logged, and the row stays as it is
    else some (s.setPhase worker (.next todo))

def poolStep (s : Pool) : PoolAction → Option Pool
  | .advance d => if s.mayAdvance cfg d then some { s with clock := s.clock+d } else none
  | .enqueue id new =>
    match s.jobs.get id with
    | some _ => none
    | none => some (s.setJobs (s.jobs.set id (enqueueRow qcfg s.clock new)))
  | .requeue id => some (s.setJobs (requeue s.clock id s.jobs).1)
  | .reap => some (s.setJobs (reapExpired s.clock s.jobs).1)
  | .claim worker ids =>
    match s.workers.get worker with
    | some .idle =>
      if selects s.clock cfg.queueName cfg.claimBatch s.jobs ids then
        let r := claim s.clock worker cfg.visibilityTimeout ids s.jobs
        some ((s.setJobs r.1).setPhase worker (.next r.2))
      else none
    | _ => none
  | .start worker =>
    match s.workers.get worker with
    | some (.batch (job :: todo)) =>
      some { s.setPhase worker (.handling job s.clock todo) with
        executions := s.executions ++ [(worker,job.id)] }
    | _ => none
  | .finish worker raised =>
    match s.workers.get worker with
    | some (.handling job _ todo) =>
      some (s.setPhase worker (.settling job (raised.map Raised.reason) todo))
    | _ => none
  | .settle worker delay =>
    match s.workers.get worker with
    | some (.settling job reason todo) => s.record qcfg worker job reason delay todo
    | _ => none
  -- the connection fails under an ack or a nack
  | .lose worker =>
    match s.workers.get worker with
    | some (.settling _ _ todo) => some (s.setPhase worker (.next todo))
    | _ => none
  -- seen before a claim and between two jobs; the rest of the batch is dropped
  | .shutdown worker =>
    match s.workers.get worker with
    | some .idle => some (s.setPhase worker .stopped)
    | some (.batch _) => some (s.setPhase worker .stopped)
    | _ => none

inductive PoolStep (s : Pool) : PoolAction → Pool → Prop
  | advance (d : ℕ) (h : s.mayAdvance cfg d = true) :
      PoolStep s (.advance d) { s with clock := s.clock+d }
  | enqueue (id : JobId) (new : NewJob) (hid : s.jobs.get id = none) :
      PoolStep s (.enqueue id new) (s.setJobs (s.jobs.set id (enqueueRow qcfg s.clock new)))
  | requeue (id : JobId) : PoolStep s (.requeue id) (s.setJobs (requeue s.clock id s.jobs).1)
  | reap : PoolStep s .reap (s.setJobs (reapExpired s.clock s.jobs).1)
  | claim (worker : Text) (ids : List JobId) (hidle : s.workers.get worker = some .idle)
      (hsel : selects s.clock cfg.queueName cfg.claimBatch s.jobs ids = true) :
      PoolStep s (.claim worker ids)
        ((s.setJobs (claim s.clock worker cfg.visibilityTimeout ids s.jobs).1).setPhase worker
          (.next (claim s.clock worker cfg.visibilityTimeout ids s.jobs).2))
  | start (worker : Text) (job : Job) (todo : List Job)
      (hp : s.workers.get worker = some (.batch (job :: todo))) :
      PoolStep s (.start worker) { s.setPhase worker (.handling job s.clock todo) with
          executions := s.executions ++ [(worker,job.id)] }
  | finish (worker : Text) (raised : Option Raised) (job : Job) (started : ℤ) (todo : List Job)
      (hp : s.workers.get worker = some (.handling job started todo)) :
      PoolStep s (.finish worker raised)
        (s.setPhase worker (.settling job (raised.map Raised.reason) todo))
  | acked (worker : Text) (delay : ℕ) (job : Job) (todo : List Job)
      (hp : s.workers.get worker = some (.settling job none todo)) :
      PoolStep s (.settle worker delay)
        ((s.setJobs (ack job.id s.jobs)).setPhase worker (.next todo))
  | nacked (worker : Text) (delay : ℕ) (job : Job) (reason : Text) (todo : List Job)
      (hp : s.workers.get worker = some (.settling job (some reason) todo))
      (haccept : acceptsText reason = true)
      (hdelay : delay ≤ qcfg.retry.ceiling (job.attempts+1)) :
      PoolStep s (.settle worker delay)
        ((s.setJobs (nack s.clock job reason delay s.jobs).1).setPhase worker (.next todo))
  | refused (worker : Text) (delay : ℕ) (job : Job) (reason : Text) (todo : List Job)
      (hp : s.workers.get worker = some (.settling job (some reason) todo))
      (hrefuse : acceptsText reason = false) :
      PoolStep s (.settle worker delay) (s.setPhase worker (.next todo))
  | lost (worker : Text) (job : Job) (reason : Option Text) (todo : List Job)
      (hp : s.workers.get worker = some (.settling job reason todo)) :
      PoolStep s (.lose worker) (s.setPhase worker (.next todo))
  | stopped (worker : Text) (p : WorkPhase) (hp : s.workers.get worker = some p)
      (hfree : p.current = none) :
      PoolStep s (.shutdown worker) (s.setPhase worker .stopped)

theorem record_cases {delay : ℕ}
    (hp : s.workers.get worker = some (.settling job reason todo))
    (h : s.record qcfg worker job reason delay todo = some t) :
    PoolStep qcfg cfg s (.settle worker delay) t := by
  unfold Pool.record at h
  cases reason with
  | none =>
    cases h
    exact .acked worker delay job todo hp
  | some reason =>
    simp only at h
    split_ifs at h with haccept hdelay
    · cases h
      exact .nacked worker delay job reason todo hp haccept hdelay
    · cases h
      exact .refused worker delay job reason todo hp (Bool.eq_false_iff.mpr haccept)

/-- What a worker or a statement can do. -/
theorem poolStep_cases {a : PoolAction} (h : poolStep qcfg cfg s a = some t) :
    PoolStep qcfg cfg s a t := by
  cases a with
  | advance d =>
    simp only [poolStep] at h
    split_ifs at h with hmay
    cases h
    exact .advance d hmay
  | enqueue id new =>
    simp only [poolStep] at h
    split at h
    · cases h
    · rename_i hid
      cases h
      exact .enqueue id new hid
  | requeue id =>
    cases h
    exact .requeue id
  | reap =>
    cases h
    exact .reap
  | claim worker ids =>
    simp only [poolStep] at h
    split at h
    · rename_i hidle
      split_ifs at h with hsel
      cases h
      exact .claim worker ids hidle hsel
    · cases h
  | start worker =>
    simp only [poolStep] at h
    split at h
    · rename_i job todo hp
      cases h
      exact .start worker job todo hp
    · cases h
  | finish worker raised =>
    simp only [poolStep] at h
    split at h
    · rename_i job started todo hp
      cases h
      exact .finish worker raised job started todo hp
    · cases h
  | settle worker delay =>
    simp only [poolStep] at h
    split at h
    · rename_i job reason todo hp
      exact record_cases qcfg cfg hp h
    · cases h
  | lose worker =>
    simp only [poolStep] at h
    split at h
    · rename_i job reason todo hp
      cases h
      exact .lost worker job reason todo hp
    · cases h
  | shutdown worker =>
    simp only [poolStep] at h
    split at h
    · rename_i hp
      cases h
      exact .stopped worker _ hp rfl
    · rename_i todo hp
      cases h
      exact .stopped worker _ hp rfl
    · cases h

def LiveLease (s : Pool) (worker : Text) (job : Job) : Prop :=
  ∃ row u, s.jobs.get job.id = some row ∧ row.state = .running ∧ row.lockedBy = some worker ∧
    row.lockedUntil = some u ∧ s.clock ≤ u

/-- The workers are done with every job that they hold before its lease passes. -/
def worksOffInTime (s : Pool) : PoolAction → Bool
  | .advance d => s.workers.entries.all (fun e => e.2.held.all (fun job =>
      job.lockedUntil.all (fun u => s.clock+d ≤ u)))
  | _ => true

def freshPool (s : Pool) : Prop :=
  s.jobs = Dict.empty ∧ ∀ worker p, s.workers.get worker = some p → p = .idle

structure Leased (s : Pool) : Prop where
  rows : ∀ worker p, s.workers.get worker = some p → ∀ job ∈ p.held,
    ∃ row u, s.jobs.get job.id = some row ∧ row.state = .running ∧ row.lockedBy = some worker ∧
      row.lockedUntil = some u ∧ job.lockedUntil = some u ∧ s.clock ≤ u
  once : ∀ worker p, s.workers.get worker = some p → (p.held.map Job.id).Nodup

theorem leased_freshPool (s : Pool) (h : freshPool s) : Leased s := by
  refine ⟨?_,?_⟩
  · intro worker p hp job hjob
    rw [h.2 worker p hp] at hjob
    cases hjob
  · intro worker p hp
    rw [h.2 worker p hp]
    exact nodup_nil

def KeepsLive (s : Pool) (settled : Option JobId) (jobs : Jobs) : Prop :=
  ∀ id row u, settled ≠ some id → s.jobs.get id = some row → row.state = .running →
    row.lockedUntil = some u → s.clock ≤ u → jobs.get id = some row

theorem keepsLive_enqueue {k : JobId} {row' : JobRow} (hk : s.jobs.get k = none) :
    KeepsLive s none (s.jobs.set k row') := by
  intro id row u _ hrow _ _ _
  have hne : id ≠ k := by
    intro he
    rw [he, hk] at hrow
    cases hrow
  rw [get_set_ne hne]
  exact hrow

theorem keepsLive_requeue (s : Pool) (k : JobId) :
    KeepsLive s none (requeue s.clock k s.jobs).1 := by
  intro id row u _ hrow hrunning _ _
  have hget := get_modify_row k (requeueRow s.clock) hrow
  simp only [requeueRow, hrunning, reduceCtorEq, if_false, ite_self] at hget
  exact hget

theorem keepsLive_reap (s : Pool) : KeepsLive s none (reapExpired s.clock s.jobs).1 := by
  intro id row u _ hrow _ hu hlive
  have hkeep : reapRow s.clock row = row := by
    rw [reapRow, if_neg]
    simp only [reapable, hu, any_some, Bool.and_eq_true, decide_eq_true_eq, not_and]
    intro _
    omega
  have hget := get_mapValues s.jobs (fun _ row => reapRow s.clock row) id
  rw [hrow, map_some, hkeep] at hget
  exact hget

theorem keepsLive_modify (s : Pool) (k : JobId) (f : JobRow → JobRow) :
    KeepsLive s (some k) (s.jobs.modify k f) := by
  intro id row u hne hrow _ _ _
  have hget := get_modify_row k f hrow
  rw [if_neg (fun he => hne (congrArg some he))] at hget
  exact hget

section
variable (s : Pool) (hI : Leased s)
include hI

theorem holder_unique {w w' : Text} {p p' : WorkPhase} (hp : s.workers.get w = some p)
    (hp' : s.workers.get w' = some p') {job' : Job} (hjob : job ∈ p.held)
    (hjob' : job' ∈ p'.held) (hid : job.id = job'.id) : w = w' := by
  obtain ⟨row,_,hrow,_,hby,_⟩ := hI.rows w p hp job hjob
  obtain ⟨row',_,hrow',_,hby',_⟩ := hI.rows w' p' hp' job' hjob'
  rw [← hid, hrow] at hrow'
  rw [← some.inj hrow', hby] at hby'
  exact some.inj hby'

theorem leased_advance {d : ℕ} (hok : worksOffInTime s (.advance d) = true) :
    Leased { s with clock := s.clock+d } := by
  refine ⟨?_,hI.once⟩
  intro worker p hp job hjob
  obtain ⟨row,u,hrow,hrunning,hby,hu,hju,_⟩ := hI.rows worker p hp job hjob
  refine ⟨row,u,hrow,hrunning,hby,hu,hju,?_⟩
  simp only [worksOffInTime, List.all_eq_true] at hok
  have hin := hok (worker,p) (get_eq_some_iff.mp hp) job hjob
  simpa [hju] using hin

theorem leased_move {p p' : WorkPhase} (executions : List (Text × JobId))
    (hp : s.workers.get worker = some p) (hheld : p'.held.Sublist p.held) :
    Leased { s.setPhase worker p' with executions := executions } := by
  refine ⟨?_,?_⟩
  · intro w q hq job hjob
    rcases eq_or_get_of_get_set hq with ⟨rfl,rfl⟩ | ⟨_,hq⟩
    · exact hI.rows w p hp job (hheld.subset hjob)
    · exact hI.rows w q hq job hjob
  · intro w q hq
    rcases eq_or_get_of_get_set hq with ⟨rfl,rfl⟩ | ⟨_,hq⟩
    · exact (hI.once w p hp).sublist (hheld.map Job.id)
    · exact hI.once w q hq

theorem leased_statement {jobs : Jobs} (h : KeepsLive s none jobs) :
    Leased (s.setJobs jobs) := by
  refine ⟨?_,hI.once⟩
  intro worker p hp job hjob
  obtain ⟨row,u,hrow,hrunning,hby,hu,hju,hlive⟩ := hI.rows worker p hp job hjob
  have hkept := h job.id row u (by simp) hrow hrunning hu hlive
  exact ⟨row,u,hkept,hrunning,hby,hu,hju,hlive⟩

theorem leased_settled
    {jobs : Jobs} (hphase : s.workers.get worker = some (.settling job reason todo))
    (h : KeepsLive s (some job.id) jobs) :
    Leased ((s.setJobs jobs).setPhase worker (.next todo)) := by
  have hother (w : Text) (p : WorkPhase) (hp : s.workers.get w = some p) (j : Job) (hj : j ∈ p.held)
      (hne : j.id ≠ job.id) : ∃ row u, jobs.get j.id = some row ∧ row.state = .running ∧
        row.lockedBy = some w ∧ row.lockedUntil = some u ∧ j.lockedUntil = some u ∧
          s.clock ≤ u := by
    obtain ⟨row,u,hrow,hrunning,hby,hu,hju,hlive⟩ := hI.rows w p hp j hj
    have hkept := h j.id row u (fun he => hne (some.inj he).symm) hrow hrunning hu hlive
    exact ⟨row,u,hkept,hrunning,hby,hu,hju,hlive⟩
  have honce := hI.once worker _ hphase
  simp only [WorkPhase.held, map_cons, nodup_cons] at honce
  refine ⟨?_,?_⟩
  · intro w q hq j hj
    rcases eq_or_get_of_get_set hq with ⟨rfl,rfl⟩ | ⟨hw,hq⟩
    · rw [WorkPhase.held_next] at hj
      apply hother w _ hphase j (mem_cons_of_mem job hj)
      exact fun he => honce.1 (he ▸ List.mem_map_of_mem hj)
    · apply hother w q hq j hj
      intro he
      exact hw (holder_unique s hI hq hphase hj mem_cons_self he)
  · intro w q hq
    rcases eq_or_get_of_get_set hq with ⟨rfl,rfl⟩ | ⟨_,hq⟩
    · rw [WorkPhase.held_next]
      exact honce.2
    · exact hI.once w q hq

/-- A claim takes rows that nobody holds, and leases them from now on. -/
theorem leased_claim (worker : Text) {ids : List JobId}
    (hsel : selects s.clock cfg.queueName cfg.claimBatch s.jobs ids = true) :
    Leased ((s.setJobs (claim s.clock worker cfg.visibilityTimeout ids s.jobs).1).setPhase worker
      (.next (claim s.clock worker cfg.visibilityTimeout ids s.jobs).2)) := by
  refine ⟨?_,?_⟩
  · intro w q hq j hj
    rcases eq_or_get_of_get_set hq with ⟨rfl,rfl⟩ | ⟨_,hq⟩
    · rw [WorkPhase.held_next] at hj
      obtain ⟨hid,row,hrow,hjob⟩ := mem_claim hj
      refine ⟨claimRow s.clock w cfg.visibilityTimeout row,s.clock+cfg.visibilityTimeout,?_,
        rfl,rfl,rfl,by rw [hjob]; rfl,Int.le_add_of_nonneg_right (Int.natCast_nonneg _)⟩
      change (claim s.clock w cfg.visibilityTimeout ids s.jobs).1.get j.id = _
      rw [claim_get, hrow, map_some, if_pos hid]
    · obtain ⟨row,u,hrow,hrunning,hby,hu,hju,hlive⟩ := hI.rows w q hq j hj
      refine ⟨row,u,?_,hrunning,hby,hu,hju,hlive⟩
      have hnot : j.id ∉ ids := by
        intro hin
        obtain ⟨row',hrow',hready⟩ := selects_claimable hsel hin
        rw [hrow] at hrow'
        rw [← some.inj hrow'] at hready
        exact absurd (hrunning.symm.trans (claimable_state hready)) (by simp)
      change (claim s.clock worker cfg.visibilityTimeout ids s.jobs).1.get j.id = _
      rw [claim_get, hrow, map_some, if_neg hnot]
  · intro w q hq
    rcases eq_or_get_of_get_set hq with ⟨rfl,rfl⟩ | ⟨_,hq⟩
    · rw [WorkPhase.held_next]
      exact pairwise_map.mpr (claim_distinct s.jobs (selects_nodup hsel))
    · exact hI.once w q hq

theorem leased_dropped
    (hp : s.workers.get worker = some (.settling job reason todo)) :
    Leased (s.setPhase worker (.next todo)) := by
  apply leased_move s hI s.executions hp
  rw [WorkPhase.held_next]
  exact sublist_cons_self job todo

/-- A timely step keeps the leases. -/
theorem leased_step {a : PoolAction} (hok : worksOffInTime s a = true)
    (h : PoolStep qcfg cfg s a t) : Leased t := by
  cases h with
  | advance d _ => exact leased_advance s hI hok
  | enqueue id new hid => exact leased_statement s hI (keepsLive_enqueue hid)
  | requeue id => exact leased_statement s hI (keepsLive_requeue s id)
  | reap => exact leased_statement s hI (keepsLive_reap s)
  | claim worker ids _ hsel => exact leased_claim cfg s hI worker hsel
  | start worker job todo hp =>
    exact leased_move s hI _ hp (List.Sublist.refl _)
  | finish worker raised job started todo hp =>
    exact leased_move s hI s.executions hp (List.Sublist.refl _)
  | acked worker delay job todo hp =>
    exact leased_settled s hI hp (keepsLive_modify s job.id ackRow)
  | nacked worker delay job reason todo hp _ _ =>
    exact leased_settled s hI hp (keepsLive_modify s job.id _)
  | refused worker delay job reason todo hp _ =>
    exact leased_dropped s hI hp
  | lost worker job reason todo hp => exact leased_dropped s hI hp
  | stopped worker p hp _ =>
    exact leased_move s hI s.executions hp (nil_sublist _)

end

/-- If the workers are done before their leases pass, a handler starts only under a live lease of
its worker, and no job is in two handlers. -/
theorem handler_starts_leased (s : Pool)
    (hs : Reachable freshPool (poolStep qcfg cfg) (fun s a => worksOffInTime s a = true) s) :
    (∀ worker job todo, s.workers.get worker = some (.batch (job :: todo)) →
      LiveLease s worker job) ∧
    ∀ w w' job job' started started' todo todo',
      s.workers.get w = some (.handling job started todo) →
      s.workers.get w' = some (.handling job' started' todo') → job.id = job'.id → w = w' := by
  have hI : Leased s := reachable_invariant Leased leased_freshPool
    (fun s t a hI hok ht => leased_step qcfg cfg s hI hok (poolStep_cases qcfg cfg ht))
    s hs
  refine ⟨?_,?_⟩
  · intro worker job todo hp
    obtain ⟨row,u,hrow,hrunning,hby,hu,_,hlive⟩ :=
      hI.rows worker _ hp job mem_cons_self
    exact ⟨row,u,hrow,hrunning,hby,hu,hlive⟩
  · intro w w' job job' started started' todo todo' hp hp' hid
    exact holder_unique s hI hp hp' mem_cons_self mem_cons_self hid

end

def emailWorkers : PoolConfig := ⟨"emails".toList,30000000,3,by decide⟩

def twoWorkers : Pool where
  clock := 0
  jobs := Dict.empty
  workers := (Dict.empty.set "w1".toList .idle).set "w2".toList .idle
  executions := []

theorem freshPool_twoWorkers : freshPool twoWorkers := by
  refine ⟨rfl,?_⟩
  intro worker p hp
  rcases eq_or_get_of_get_set hp with ⟨_,rfl⟩ | ⟨_,hp⟩
  · rfl
  · rcases eq_or_get_of_get_set hp with ⟨_,rfl⟩ | ⟨_,hp⟩
    · rfl
    · cases hp

def slowBatch : List PoolAction :=
  [.enqueue 1 emailJob, .enqueue 2 emailJob, .enqueue 3 emailJob, .claim "w1".toList [1, 2, 3],
    .start "w1".toList, .advance 20000000, .finish "w1".toList none, .settle "w1".toList 0,
    .start "w1".toList, .advance 11000000, .reap, .claim "w2".toList [3, 2], .start "w2".toList,
    .advance 9000000, .finish "w1".toList none, .settle "w1".toList 0]

def bothHandle (s : Pool) : Bool :=
  ["w1".toList, "w2".toList].all (fun worker => (s.workers.get worker).any (fun p =>
    match p with
    | .handling job _ _ => decide (job.id = 3)
    | _ => false))

/-- The first worker starts its third job under the lease of the second, beside its handler. -/
theorem slow_batch_starts_unleased :
    ∃ s, Reachable freshPool (poolStep defaultConfig emailWorkers) anyStep s ∧
      ((s.workers.get "w1".toList).any (fun p =>
          match p with
          | .batch (job :: _) => decide (job.id = 3)
          | _ => false) &&
        (s.jobs.get 3).any (fun row => decide (row.lockedBy = some "w2".toList)) &&
        (poolStep defaultConfig emailWorkers s (.start "w1".toList)).any bothHandle) = true :=
  reachable_of_run _ _ slowBatch twoWorkers freshPool_twoWorkers (by decide +kernel)

def onThirdJob : WorkPhase → Bool
  | .batch [job] => decide (job.id = 3)
  | _ => false

/-- The same batch with ten seconds for each of its first two jobs. -/
theorem handler_starts_leased_email :
    ∃ s job, Reachable freshPool (poolStep defaultConfig emailWorkers)
        (fun s a => worksOffInTime s a = true) s ∧
      s.workers.get "w1".toList = some (.batch [job]) ∧ job.id = 3 ∧
      LiveLease s "w1".toList job := by
  obtain ⟨s,hs,p,hget,hp⟩ := reachable_of_checkedRun freshPool
    (poolStep defaultConfig emailWorkers) worksOffInTime
    (P := fun s => ∃ p, s.workers.get "w1".toList = some p ∧ onThirdJob p = true)
    [.enqueue 1 emailJob, .enqueue 2 emailJob, .enqueue 3 emailJob, .claim "w1".toList [1, 2, 3],
      .start "w1".toList, .advance 10000000, .finish "w1".toList none, .settle "w1".toList 0,
      .start "w1".toList, .advance 10000000, .reap, .claim "w2".toList [],
      .finish "w1".toList none, .settle "w1".toList 0] twoWorkers
    freshPool_twoWorkers (by decide +kernel)
  unfold onThirdJob at hp
  split at hp
  · rename_i job
    exact ⟨s,job,hs,hget,of_decide_eq_true hp,
      (handler_starts_leased defaultConfig emailWorkers s hs).1 _ job [] hget⟩
  · cases hp

end BackendGauntlet.JobQueue
