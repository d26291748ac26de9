import Mathlib.Data.List.Pairwise
import Mathlib.Data.List.Perm.Basic
import BackendGauntlet.JobQueue

/-! What holds along every run of the job queue whose late acks and nacks are harmless. -/
namespace BackendGauntlet.JobQueue

open PyText Transition Option

/-- A nack finds its job neither done nor dead, and an ack does not find it dead. -/
def settlesOpen (s : QueueState) : QueueAction → Bool
  | .ack i =>
    match s.pending[i]? with
    | some c => stateOf s c.job.id ≠ some .dead
    | none => true
  | .nack i _ _ =>
    match s.pending[i]? with
    | some c => stateOf s c.job.id ≠ some .done && stateOf s c.job.id ≠ some .dead
    | none => true
  | _ => true

variable {cfg : QueueConfig} {s t : QueueState} {a : QueueAction} {id : JobId} {c d : Claim}
  {row row' : JobRow} {now : ℤ} {i : ℕ}

theorem step_done (h : Step cfg s a t)
    (hok : settlesOpen s a = true) (hd : stateOf s id = some .done) :
    stateOf t id = some .done := by
  obtain ⟨row,hrow,hst⟩ := map_eq_some_iff.mp hd
  obtain ⟨row',hrow',hstep⟩ := step_row cfg s t a h id row hrow
  have hdone : row'.state = .done := by
    cases hstep with
    | same => exact hst
    | claimed _ _ _ _ _ _ hready => simp [hst] at hready
    | acked => rfl
    | nacked i error delay c hc hid => simp [settlesOpen, hc, hid, hd] at hok
    | reaped _ hrunning => simp [hst] at hrunning
    | requeued hdead => simp [hst] at hdead
  simp [stateOf, hrow', hdone]

theorem step_dead (h : Step cfg s a t)
    (hok : settlesOpen s a = true) (hq : a ≠ .requeue id)
    (hd : stateOf s id = some .dead) : stateOf t id = some .dead := by
  obtain ⟨row,hrow,hst⟩ := map_eq_some_iff.mp hd
  obtain ⟨row',hrow',hstep⟩ := step_row cfg s t a h id row hrow
  have hdead : row'.state = .dead := by
    cases hstep with
    | same => exact hst
    | claimed _ _ _ _ _ _ hready => simp [hst] at hready
    | acked i c hc hid | nacked i error delay c hc hid => simp [settlesOpen, hc, hid, hd] at hok
    | reaped _ hrunning => simp [hst] at hrunning
    | requeued => exact absurd rfl hq
  simp [stateOf, hrow', hdead]

theorem finished_not_claimed {queue worker : Text}
    {limit : ℕ} {visibility : ℤ} {ids : List JobId}
    (h : step cfg s (.claim queue worker limit visibility ids) = some t)
    (hf : stateOf s id = some .done ∨ stateOf s id = some .dead) : id ∉ ids := by
  have hrow : ∃ row, s.jobs.get id = some row ∧ row.state ≠ .ready := by
    rcases hf with hf | hf
    · obtain ⟨row,hrow,hst⟩ := map_eq_some_iff.mp hf
      exact ⟨row,hrow,by simp [hst]⟩
    · obtain ⟨row,hrow,hst⟩ := map_eq_some_iff.mp hf
      exact ⟨row,hrow,by simp [hst]⟩
  obtain ⟨row,hrow,hst⟩ := hrow
  exact not_claimed (step_cases h) hrow hst

/-- If late results reach no finished job, what is done stays done, what is dead stays dead until
requeued, and no claim returns either. -/
theorem finished_jobs_stay (cfg : QueueConfig) (s t : QueueState) (id : JobId)
    (ht : Reachable (fun u => u = s) (step cfg) (fun u a => settlesOpen u a = true) t) :
    (stateOf s id = some .done → stateOf t id = some .done) ∧
    (∀ a u, settlesOpen t a = true → step cfg t a = some u → stateOf t id = some .dead →
      a ≠ .requeue id → stateOf u id = some .dead) ∧
    (∀ queue worker limit visibility ids u,
      step cfg t (.claim queue worker limit visibility ids) = some u →
      stateOf t id = some .done ∨ stateOf t id = some .dead → id ∉ ids) := by
  refine ⟨?_,?_,?_⟩
  · intro hd
    apply reachable_invariant (fun u => stateOf u id = some .done) ?_ ?_ t ht
    · intro u hu
      rw [hu]
      exact hd
    · intro u v a hu hok hstep
      exact step_done (step_cases hstep) hok hu
  · intro a u hok hstep hd hq
    exact step_dead (step_cases hstep) hok hq hd
  · intro queue worker limit visibility ids u hstep hf
    exact finished_not_claimed hstep hf

def claimEmail (worker : String) : QueueAction :=
  .claim "emails".toList worker.toList 10 30000000 [1]

def reclaimed : List QueueAction :=
  [.enqueue 1 emailJob, claimEmail "w1", .advance 30000001, .reap, claimEmail "w2"]

/-- The second worker acks, and the first one, whose claim was reaped, acks after it. -/
theorem finished_jobs_stay_email : ∃ s t,
    Reachable initial (step defaultConfig) (fun u a => settlesOpen u a = true) s ∧
    stateOf s 1 = some .done ∧ step defaultConfig s (.ack 0) = some t ∧
    stateOf t 1 = some .done := by
  obtain ⟨s,hs,hdone,hopen,hlate⟩ := reachable_of_checkedRun initial (step defaultConfig)
    settlesOpen (P := fun s => stateOf s 1 = some .done ∧ settlesOpen s (.ack 0) = true ∧
      (step defaultConfig s (.ack 0)).isSome = true)
    (reclaimed ++ [.ack 1]) emptyQueue emptyQueue_initial (by decide +kernel)
  obtain ⟨t,hstep⟩ := isSome_iff_exists.mp hlate
  have ht : Reachable (fun u => u = s) (step defaultConfig) (fun u a => settlesOpen u a = true) t :=
    Reachable.next s t (.ack 0) (Reachable.start s rfl) hopen hstep
  exact ⟨s,t,hs,hdone,hstep,(finished_jobs_stay defaultConfig s t 1 ht).1 hdone⟩

/-- The second worker acks, the first one nacks after it, and a third one runs the job that
was done. -/
theorem late_nack_revives_done : ∃ s t,
    Reachable initial (step defaultConfig) anyStep s ∧ stateOf s 1 = some .done ∧
    Reachable (fun u => u = s) (step defaultConfig) anyStep t ∧
    stateOf t 1 = some .running := by
  obtain ⟨s,hs,hdone,hlater⟩ := reachable_of_run initial (step defaultConfig)
    (P := fun s => stateOf s 1 = some .done ∧
      (run (step defaultConfig) s [.nack 0 "late".toList 0, claimEmail "w3"]).any
        (fun t => stateOf t 1 = some .running) = true)
    (reclaimed ++ [.ack 1]) emptyQueue emptyQueue_initial (by decide +kernel)
  obtain ⟨t,ht,hrunning⟩ := reachable_of_run (fun u => u = s) (step defaultConfig) _ s rfl hlater
  exact ⟨s,t,hs,hdone,ht,hrunning⟩

def Claim.live (now : ℤ) (c : Claim) : Bool := now ≤ c.claimedAt+c.visibility

def Holds (s : QueueState) (worker : Text) (id : JobId) : Prop :=
  ∃ c ∈ s.pending, c.worker = worker ∧ c.job.id = id ∧ c.live s.clock = true

instance (s : QueueState) (worker : Text) (id : JobId) : Decidable (Holds s worker id) :=
  inferInstanceAs (Decidable (∃ c ∈ s.pending, _))

/-- No nack comes from an expired claim while another claim of its job is live. -/
def nackUncontended (s : QueueState) : QueueAction → Bool
  | .nack i _ _ =>
    match s.pending[i]? with
    | some c => c.live s.clock ||
        (s.pending.eraseIdx i).all (fun d => d.job.id ≠ c.job.id || !d.live s.clock)
    | none => true
  | _ => true

def Apart (now : ℤ) (c d : Claim) : Prop :=
  c.job.id = d.job.id → c.live now = true → d.live now = false

def Protected (c : Claim) (row : JobRow) : Prop :=
  (row.state = .running ∧ row.lockedUntil = some (c.claimedAt+c.visibility)) ∨
    row.state = .done

structure Exclusive (s : QueueState) : Prop where
  apart : s.pending.Pairwise (Apart s.clock)
  guarded : ∀ c ∈ s.pending, c.live s.clock = true →
    ∃ row, s.jobs.get c.job.id = some row ∧ Protected c row

theorem protected_not_ready (h : Protected c row) :
    row.state ≠ .ready := by
  rcases h with ⟨hst,_⟩ | hst <;> simp [hst]

theorem protected_not_dead (h : Protected c row) :
    row.state ≠ .dead := by
  rcases h with ⟨hst,_⟩ | hst <;> simp [hst]

theorem live_not_claimed (cfg : QueueConfig) (s t : QueueState) (queue worker : Text)
    (limit : ℕ) (visibility : ℤ) (ids : List JobId)
    (h : Step cfg s (.claim queue worker limit visibility ids) t) (hinv : Exclusive s)
    (c : Claim) (hc : c ∈ s.pending) (hlive : c.live s.clock = true) : c.job.id ∉ ids := by
  obtain ⟨row,hrow,hp⟩ := hinv.guarded c hc hlive
  exact not_claimed h hrow (protected_not_ready hp)

theorem live_mono {now' : ℤ} (hn : now ≤ now') (h : c.live now' = true) :
    c.live now = true := by
  simp only [Claim.live, decide_eq_true_eq] at h ⊢
  omega

theorem apart_mono {now' : ℤ} (hn : now ≤ now') (h : Apart now c d) :
    Apart now' c d := by
  intro hid hc
  have hd := h hid (live_mono hn hc)
  by_contra hne
  have hd' := live_mono hn (Bool.of_not_eq_false hne)
  rw [hd] at hd'
  cases hd'

theorem apart_symm (now : ℤ) (c d : Claim) (h : Apart now c d) : Apart now d c := by
  intro hid hd
  by_contra hc
  have hd' := h hid.symm (Bool.of_not_eq_false hc)
  rw [hd] at hd'
  cases hd'

instance (now : ℤ) : Std.Symm (Apart now) := ⟨apart_symm now⟩

theorem apart_of_mem_eraseIdx {cs : List Claim}
    (h : cs.Pairwise (Apart now)) (hc : cs[i]? = some c) (hd : d ∈ cs.eraseIdx i) :
    Apart now c d := by
  obtain ⟨hi,rfl⟩ := List.getElem?_eq_some_iff.mp hc
  have hperm := List.getElem_cons_eraseIdx_perm hi
  have hpair := (hperm.pairwise_iff (apart_symm now _ _)).mpr h
  exact (List.pairwise_cons.mp hpair).1 d hd

theorem claim_distinct {worker : Text} {visibility : ℤ} {ids : List JobId}
    (jobs : Jobs) (hn : ids.Nodup) :
    (claim now worker visibility ids jobs).2.Pairwise (fun j k => j.id ≠ k.id) := by
  apply List.pairwise_filterMap.mpr
  apply hn.imp
  intro id id' hne j hj k hk
  obtain ⟨row,_,rfl⟩ := map_eq_some_iff.mp hj
  obtain ⟨row',_,rfl⟩ := map_eq_some_iff.mp hk
  exact hne

/-- While a claim is live, only a nack of its job can end the protection of its row. -/
theorem protected_rowStep
    (hlive : c.live s.clock = true) (h : RowStep s c.job.id row a row')
    (hp : Protected c row)
    (hnack : ∀ i error delay, a = .nack i error delay → settles s a ≠ some c.job.id) :
    Protected c row' := by
  cases h with
  | same => exact hp
  | claimed _ _ _ _ _ _ hready => exact absurd hready (protected_not_ready hp)
  | acked => exact Or.inr rfl
  | nacked i error delay d hd hid =>
    exact absurd (by simp [settles, hd, hid]) (hnack i error delay rfl)
  | reaped u hrunning hu hlt =>
    -- the reaper compares strictly, so a live lease is not reaped
    rcases hp with ⟨_,huntil⟩ | hdone
    · rw [hu] at huntil
      have hle : s.clock ≤ c.claimedAt+c.visibility := of_decide_eq_true hlive
      have hueq : u = c.claimedAt+c.visibility := some.inj huntil
      omega
    · rw [hrunning] at hdone
      cases hdone
  | requeued hdead => exact absurd hdead (protected_not_dead hp)

theorem nack_leaves_none_live {error : Text} {delay : ℕ}
    (hinv : Exclusive s) (hok : nackUncontended s (.nack i error delay) = true)
    (hc : s.pending[i]? = some c) (hd : d ∈ s.pending.eraseIdx i)
    (hlive : d.live s.clock = true) : c.job.id ≠ d.job.id := by
  intro hid
  simp only [nackUncontended, hc, Bool.or_eq_true, List.all_eq_true] at hok
  rcases hok with hcl | hall
  · -- the nack is in time, so its own claim is the live one
    have hdead := apart_of_mem_eraseIdx hinv.apart hc hd hid hcl
    rw [hlive] at hdead
    cases hdead
  · have hd' := hall d hd
    simp [hid, hlive] at hd'

theorem exclusive_initial (s : QueueState) (h : initial s) : Exclusive s := by
  constructor
  · rw [h.2.1]
    exact List.Pairwise.nil
  · intro c hc
    rw [h.2.1] at hc
    cases hc

theorem exclusive_apart
    (h : Step cfg s a t) (hinv : Exclusive s) : t.pending.Pairwise (Apart t.clock) := by
  have hold : s.pending.Pairwise (Apart t.clock) :=
    hinv.apart.imp (fun hcd => apart_mono (step_clock h) hcd)
  cases h with
  | claim queue worker limit visibility ids hsel =>
    apply List.pairwise_append.mpr
    refine ⟨hold,?_,?_⟩
    · -- one claim returns a job at most once
      apply List.pairwise_map.mpr
      apply (claim_distinct _ (selects_nodup hsel)).imp
      intro j k hne hid
      exact absurd hid hne
    · -- and none that a live claim protects
      intro c hc d hd hid hlive
      obtain ⟨job,hjob,rfl⟩ := List.mem_map.mp hd
      have hmem := (mem_claim hjob).1
      have hout := live_not_claimed cfg s _ queue worker limit visibility ids
        (Step.claim queue worker limit visibility ids hsel) hinv c hc hlive
      rw [hid] at hout
      exact absurd hmem hout
  | ack i c hc | nack i error delay c hc _ => exact hold.sublist (List.eraseIdx_sublist _ _)
  | advance d | enqueue k new _ | reap | requeue k => exact hold

theorem exclusive_step
    (hinv : Exclusive s) (hok : nackUncontended s a = true) (hstep : step cfg s a = some t) :
    Exclusive t := by
  have h := step_cases hstep
  refine ⟨exclusive_apart h hinv,?_⟩
  intro c hc hlive
  have hlive' := live_mono (step_clock h) hlive
  rcases step_pending h hc with hold | hnew
  · -- an older claim: of the settlements only a nack could take its row away
    obtain ⟨row,hrow,hp⟩ := hinv.guarded c hold hlive'
    obtain ⟨row',hrow',hstep⟩ := step_row cfg s t a h c.job.id row hrow
    refine ⟨row',hrow',protected_rowStep hlive' hstep hp ?_⟩
    intro i error delay ha hset
    subst ha
    cases h with
    | nack _ _ _ d hd _ =>
      have hne := nack_leaves_none_live hinv hok hd hc hlive'
      simp [settles, hd, hne] at hset
  · -- a claim of this step: the row holds the lease that was just written
    obtain ⟨queue,limit,ids,row,rfl,hat,hid,hrow,_⟩ := hnew
    obtain ⟨row',hrow',hstep⟩ := step_row cfg s t _ h c.job.id row hrow
    refine ⟨row',hrow',?_⟩
    cases hstep with
    | same _ ht _ => simp [touches, hid] at ht
    | claimed => exact Or.inl ⟨rfl,by rw [hat]; rfl⟩

/-- In every run without contended nacks a job has at most one holder, and a claim returns
no job that is held. -/
theorem lease_exclusive (cfg : QueueConfig) (s : QueueState)
    (hs : Reachable initial (step cfg) (fun u a => nackUncontended u a = true) s) :
    (∀ id w w', Holds s w id → Holds s w' id → w = w') ∧
    (∀ queue worker limit visibility ids t,
      step cfg s (.claim queue worker limit visibility ids) = some t →
      ∀ id ∈ ids, ∀ w, ¬ Holds s w id) := by
  have hinv : Exclusive s := reachable_invariant Exclusive exclusive_initial
    (fun u v a hu hok hstep => exclusive_step hu hok hstep) s hs
  constructor
  · rintro id w w' ⟨c,hc,hw,hid,hlive⟩ ⟨d,hd,hw',hid',hlive'⟩
    by_cases hcd : c = d
    · rw [← hw, ← hw', hcd]
    · have hapart := hinv.apart.forall hc hd hcd
      have hdead := hapart (hid.trans hid'.symm) hlive
      rw [hlive'] at hdead
      cases hdead
  · rintro queue worker limit visibility ids t hstep id hid w ⟨c,hc,_,hcid,hlive⟩
    have hout := live_not_claimed cfg s t queue worker limit visibility ids
      (step_cases hstep) hinv c hc hlive
    rw [hcid] at hout
    exact hout hid

/-- The second worker holds the job of `reclaimed`. -/
theorem lease_exclusive_email : ∃ s,
    Reachable initial (step defaultConfig) (fun u a => nackUncontended u a = true) s ∧
    Holds s "w2".toList 1 ∧ ∀ w, Holds s w 1 → w = "w2".toList := by
  refine Exists.imp (fun s (h : _ ∧ _) => ⟨h.1,h.2,fun w hw =>
    (lease_exclusive defaultConfig s h.1).1 1 w "w2".toList hw h.2⟩) ?_
  exact reachable_of_checkedRun _ _ _ reclaimed emptyQueue emptyQueue_initial (by decide +kernel)

/-- The first worker nacks late, and a third one claims the job that the second holds. -/
theorem late_nack_breaks_lease : ∃ s, Reachable initial (step defaultConfig) anyStep s ∧
    Holds s "w2".toList 1 ∧ Holds s "w3".toList 1 :=
  reachable_of_run _ _ (reclaimed ++ [.nack 0 "late".toList 0, claimEmail "w3"]) emptyQueue
    emptyQueue_initial (by decide +kernel)

def nacks (s : QueueState) (id : JobId) : QueueAction → Bool
  | .nack i _ _ => s.pending[i]?.any (fun c => c.job.id = id)
  | _ => false

/-- A nack carries the count that its row has. -/
def snapshotCurrent (s : QueueState) : QueueAction → Bool
  | .nack i _ _ =>
    match s.pending[i]? with
    | some c => (s.jobs.get c.job.id).map JobRow.attempts = some c.job.attempts
    | none => true
  | _ => true

structure RowCounted (row : JobRow) : Prop where
  pos : 1 ≤ row.maxAttempts
  ready : row.state = .ready → row.attempts < row.maxAttempts
  running : row.state = .running → row.attempts < row.maxAttempts
  dead : row.state = .dead → row.attempts = row.maxAttempts

structure Counted (s : QueueState) : Prop where
  rows : ∀ id row, s.jobs.get id = some row → RowCounted row
  failures : ∀ id row, s.jobs.get id = some row → s.failures.get id = some row.attempts
  claims : ∀ c ∈ s.pending, c.job.attempts < c.job.maxAttempts ∧
    ∃ row, s.jobs.get c.job.id = some row ∧ row.maxAttempts = c.job.maxAttempts

theorem rowStep_maxAttempts
    (h : RowStep s id row a row') : row'.maxAttempts = row.maxAttempts := by
  cases h <;> rfl

theorem requeues_action
    (h : requeues id row a = true) : a = .requeue id ∧ row.state = .dead := by
  cases a with
  | requeue k => simpa [requeues] using h
  | _ => cases h

theorem nacks_claim (h : nacks s id a = true) :
    ∃ i error delay c, a = .nack i error delay ∧ s.pending[i]? = some c ∧ c.job.id = id := by
  cases a with
  | nack i error delay =>
    cases hc : s.pending[i]? with
    | none => simp [nacks, hc] at h
    | some c => exact ⟨i,error,delay,c,rfl,hc,by simpa [nacks, hc] using h⟩
  | _ => cases h

theorem rowStep_nack {error : Text} {delay : ℕ}
    (hc : s.pending[i]? = some c)
    (h : RowStep s c.job.id row (.nack i error delay) row') :
    row' = nackRow s.clock c.job error delay row := by
  cases h with
  | same _ ht _ => simp [touches, settles, hc] at ht
  | nacked _ _ _ d hd _ =>
    cases hc.symm.trans hd
    rfl

theorem rowStep_attempts
    (h : RowStep s id row a row') (hn : nacks s id a = false) :
    row'.attempts = if requeues id row a then 0 else row.attempts := by
  cases h with
  | same _ _ hq => simp [hq]
  | claimed => rfl
  | acked => rfl
  | nacked i error delay c hc hid => simp [nacks, hc, hid] at hn
  | reaped => rfl
  | requeued hdead => simp [requeues, hdead]

theorem step_failures
    (h : Step cfg s a t) {n : ℕ} (hr : s.jobs.get id = some row)
    (hf : s.failures.get id = some n) :
    t.failures.get id =
      some (if nacks s id a then n+1 else if requeues id row a then 0 else n) := by
  cases h with
  | advance d | claim queue worker limit visibility ids _ | ack i c hc | reap => exact hf
  | enqueue k new hk =>
    -- the INSERT allocates an id that no row has
    have hne : id ≠ k := by
      intro he
      rw [he, hk] at hr
      cases hr
    exact (Dict.get_set_ne hne).trans hf
  | nack i error delay c hc _ =>
    have hmod := Dict.get_modify s.failures c.job.id id (fun n => n+1)
    rw [hf] at hmod
    by_cases hid : c.job.id = id
    · simpa [nacks, hc, hid] using hmod
    · simpa [nacks, hc, hid, Ne.symm hid, requeues] using hmod
  | requeue k =>
    by_cases hk : k = id
    · subst hk
      have hsome := requeue_isSome s.clock hr
      by_cases hd : row.state = .dead
      · simp [hsome, hd, nacks, requeues]
      · simp [hsome, hd, nacks, requeues, hf]
    · have hkeep : (s.failures.set k 0).get id = some n :=
        (Dict.get_set_ne (Ne.symm hk)).trans hf
      simp only [nacks, requeues, hk, decide_false, Bool.false_and, if_false, Bool.false_eq_true]
      split_ifs
      · exact hkeep
      · exact hf

theorem enqueueRow_counted (cfg : QueueConfig) (now : ℤ) (new : NewJob) :
    RowCounted (enqueueRow cfg now new) := by
  have hpos : 1 ≤ new.maxAttempts.getD cfg.defaultMaxAttempts := by
    cases hm : new.maxAttempts with
    | none => exact cfg.default_pos
    | some n => exact (new.maxAttempts_bounds n hm).1
  constructor
  · exact hpos
  · intro _
    exact hpos
  · intro h
    cases h
  · intro h
    cases h

theorem nackRow_counted (now : ℤ) {job : Job} (error : Text) (delay : ℕ)
    (hcur : row.attempts = job.attempts) (hmax : row.maxAttempts = job.maxAttempts)
    (hlt : job.attempts < job.maxAttempts) :
    RowCounted (nackRow now job error delay row) ∧
      ((nackRow now job error delay row).state = .dead ↔ row.attempts+1 = row.maxAttempts) := by
  by_cases hlast : job.attempts+1 < job.maxAttempts
  · have hst : nackState job = .ready := by simp [nackState, hlast]
    refine ⟨⟨?_,?_,?_,?_⟩,?_⟩ <;> simp only [nackRow, hst] <;> grind
  · have hst : nackState job = .dead := by simp [nackState, hlast]
    refine ⟨⟨?_,?_,?_,?_⟩,?_⟩ <;> simp only [nackRow, hst] <;> grind

theorem rowStep_counted
    (h : RowStep s id row a row') (hrow : RowCounted row) (hn : nacks s id a = false) :
    RowCounted row' := by
  cases h with
  | same => exact hrow
  | claimed _ _ _ _ _ _ hready =>
    refine ⟨hrow.pos,?_,?_,?_⟩
    · intro h
      cases h
    · intro _
      exact hrow.ready hready
    · intro h
      cases h
  | acked =>
    refine ⟨hrow.pos,?_,?_,?_⟩ <;> (intro h; cases h)
  | nacked i error delay c hc hid => simp [nacks, hc, hid] at hn
  | reaped _ hrunning =>
    refine ⟨hrow.pos,?_,?_,?_⟩
    · intro _
      exact hrow.running hrunning
    · intro h
      cases h
    · intro h
      cases h
  | requeued =>
    refine ⟨hrow.pos,?_,?_,?_⟩
    · intro _
      exact hrow.pos
    · intro h
      cases h
    · intro h
      cases h

theorem rowStep_not_dead
    (h : RowStep s id row a row') (hn : nacks s id a = false) (hd : row'.state = .dead) :
    row.state = .dead := by
  cases h with
  | same => exact hd
  | claimed | acked | reaped | requeued => cases hd
  | nacked i error delay c hc hid => simp [nacks, hc, hid] at hn

theorem nack_current (error : Text) (delay : ℕ)
    (hinv : Counted s) (hc : s.pending[i]? = some c)
    (hr : s.jobs.get c.job.id = some row) :
    c.job.attempts < c.job.maxAttempts ∧ row.maxAttempts = c.job.maxAttempts ∧
      (snapshotCurrent s (.nack i error delay) = true ↔ row.attempts = c.job.attempts) := by
  obtain ⟨hlt,row',hr',hmax⟩ := hinv.claims c (List.mem_of_getElem? hc)
  cases hr.symm.trans hr'
  refine ⟨hlt,hmax,?_⟩
  simp [snapshotCurrent, hc, hr]

theorem counted_initial (s : QueueState) (h : initial s) : Counted s := by
  have hjobs (id : JobId) : s.jobs.get id = none := by rw [h.1]; rfl
  constructor
  · intro id row hr
    rw [hjobs id] at hr
    cases hr
  · intro id row hr
    rw [hjobs id] at hr
    cases hr
  · intro c hc
    rw [h.2.1] at hc
    cases hc

theorem counted_rows
    (hinv : Counted s) (hok : snapshotCurrent s a = true) (h : Step cfg s a t)
    (hr' : t.jobs.get id = some row') :
    RowCounted row' ∧ t.failures.get id = some row'.attempts := by
  rcases step_row_cases h hr' with ⟨row,hr,hstep⟩ | ⟨hnone,new,rfl,rfl⟩
  · have hf := step_failures h hr (hinv.failures id row hr)
    by_cases hn : nacks s id a = true
    · obtain ⟨i,error,delay,c,rfl,hc,rfl⟩ := nacks_claim hn
      obtain ⟨hlt,hmax,hcur⟩ := nack_current error delay hinv hc hr
      have hcur := hcur.mp hok
      rw [hf, rowStep_nack hc hstep]
      refine ⟨(nackRow_counted s.clock error delay hcur hmax hlt).1,?_⟩
      simp [hn, nackRow, hcur]
    · have hn : nacks s id a = false := Bool.of_not_eq_true hn
      rw [hf, rowStep_attempts hstep hn]
      refine ⟨rowStep_counted hstep (hinv.rows id row hr) hn,?_⟩
      simp [hn]
  · refine ⟨enqueueRow_counted cfg s.clock new,?_⟩
    cases h with
    | enqueue _ _ _ => exact Dict.get_set_self

theorem counted_step
    (hinv : Counted s) (hok : snapshotCurrent s a = true) (hstep : step cfg s a = some t) :
    Counted t := by
  have h := step_cases hstep
  constructor
  · intro id row hr
    exact (counted_rows hinv hok h hr).1
  · intro id row hr
    exact (counted_rows hinv hok h hr).2
  · intro c hc
    rcases step_pending h hc with hold | hnew
    · obtain ⟨hlt,row,hr,hmax⟩ := hinv.claims c hold
      obtain ⟨row',hr',hstep⟩ := step_row cfg s t a h c.job.id row hr
      refine ⟨hlt,row',hr',?_⟩
      rw [rowStep_maxAttempts hstep, hmax]
    · -- the snapshot is the row as it was claimed, and a ready row has attempts left
      obtain ⟨queue,limit,ids,row,rfl,_,hid,hr,hjob⟩ := hnew
      have hready : row.state = .ready := by
        by_contra hne
        exact not_claimed h hr hne hid
      have hatt : c.job.attempts = row.attempts := by rw [hjob]; rfl
      have hmax : c.job.maxAttempts = row.maxAttempts := by rw [hjob]; rfl
      obtain ⟨row',hr',hstep⟩ := step_row cfg s t _ h c.job.id row hr
      refine ⟨?_,row',hr',?_⟩
      · rw [hatt, hmax]
        exact (hinv.rows c.job.id row hr).ready hready
      · rw [rowStep_maxAttempts hstep, hmax]

/-- In runs whose nacks carry the count of their row, the stored count is the number of nacks since
the last requeue, and the job dies at the nack that uses up its attempts. -/
theorem failures_counted (cfg : QueueConfig) (s : QueueState)
    (hs : Reachable initial (step cfg) (fun u a => snapshotCurrent u a = true) s) (id : JobId)
    (row : JobRow) (hr : s.jobs.get id = some row) :
    s.failures.get id = some row.attempts ∧
    ∀ a t row', step cfg s a = some t → t.jobs.get id = some row' →
      (snapshotCurrent s a = true →
        (row'.attempts < row.attempts → a = .requeue id) ∧
        (row.state ≠ .dead ∧ row'.state = .dead ↔
          nacks s id a = true ∧ t.failures.get id = some row.maxAttempts)) ∧
      (nacks s id a = true →
        (t.failures.get id = some row'.attempts ↔ snapshotCurrent s a = true)) := by
  have hinv : Counted s := reachable_invariant Counted counted_initial
    (fun u v a hu hok hstep => counted_step hu hok hstep) s hs
  have hcount := hinv.failures id row hr
  refine ⟨hcount,?_⟩
  intro a t row' hstep hr'
  have h := step_cases hstep
  obtain ⟨row₁,hr₁,hstep₁⟩ := step_row cfg s t a h id row hr
  cases hr'.symm.trans hr₁
  have hf := step_failures h hr hcount
  by_cases hn : nacks s id a = true
  · obtain ⟨i,error,delay,c,rfl,hc,rfl⟩ := nacks_claim hn
    obtain ⟨hlt,hmax,hcur⟩ := nack_current error delay hinv hc hr
    simp only [hn, if_true] at hf
    rw [hf, rowStep_nack hc hstep₁]
    refine ⟨?_,?_⟩
    · intro hok
      have heq := hcur.mp hok
      obtain ⟨_,hdead⟩ := nackRow_counted s.clock error delay heq hmax hlt
      refine ⟨?_,?_⟩
      · intro hless
        have hatt : (nackRow s.clock c.job error delay row).attempts = c.job.attempts+1 := rfl
        omega
      · -- a dead row has used up its attempts, so a current nack does not find it
        have hopen : row.state ≠ .dead := by
          intro hd
          have := (hinv.rows c.job.id row hr).dead hd
          omega
        simp only [hopen, ne_eq, not_false_eq_true, true_and, hn, some.injEq]
        exact hdead
    · -- the row gets the snapshot's count plus one, the history its own plus one
      intro _
      rw [hcur, some.injEq]
      exact Nat.add_right_cancel_iff
  · have hn' : nacks s id a = false := Bool.of_not_eq_true hn
    refine ⟨?_,fun h => absurd h hn⟩
    intro _
    refine ⟨?_,?_⟩
    · intro hless
      rw [rowStep_attempts hstep₁ hn'] at hless
      split_ifs at hless with hq
      · exact (requeues_action hq).1
      · omega
    · constructor
      · rintro ⟨hopen,hd⟩
        exact absurd (rowStep_not_dead hstep₁ hn' hd) hopen
      · rintro ⟨h,_⟩
        exact absurd h hn

/-- A retry after its first failure. -/
theorem failures_counted_email : ∃ s,
    Reachable initial (step defaultConfig) (fun u a => snapshotCurrent u a = true) s ∧
    s.failures.get 1 = some 1 ∧ (s.jobs.get 1).map JobRow.attempts = some 1 := by
  obtain ⟨s,hs,hp⟩ := reachable_of_checkedRun initial (step defaultConfig) snapshotCurrent
    (P := fun s => (s.jobs.get 1).map JobRow.attempts = some 1)
    [.enqueue 1 emailJob, claimEmail "w1", .nack 0 "timeout".toList 0] emptyQueue
    emptyQueue_initial (by decide +kernel)
  obtain ⟨row,hr,hatt⟩ := map_eq_some_iff.mp hp
  have hcount := (failures_counted defaultConfig s hs 1 row hr).1
  exact ⟨s,hs,by rw [hcount, hatt],hp⟩

/-- Both workers of `reclaimed` nack, and the row counts one failure. -/
theorem late_nack_loses_failure : ∃ s, Reachable initial (step defaultConfig) anyStep s ∧
    s.failures.get 1 = some 2 ∧ (s.jobs.get 1).map JobRow.attempts = some 1 :=
  reachable_of_run _ _ (reclaimed ++ [.nack 1 "timeout".toList 0, .nack 0 "late".toList 0])
    emptyQueue emptyQueue_initial (by decide +kernel)

end BackendGauntlet.JobQueue
