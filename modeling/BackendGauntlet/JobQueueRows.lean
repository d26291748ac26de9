import BackendGauntlet.JobQueueSafety

/-! What holds of every row of the `jobs` table, however old the snapshots of the workers are. -/
namespace BackendGauntlet.JobQueue

open PyText Transition Option

/-- A statement with its instant. A worker may ack or nack from a snapshot any number of times. -/
def statement (cfg : QueueConfig) (s : QueueState) (a : ℤ × QueueAction) : Option QueueState :=
  (step cfg { s with clock := a.1 } a.2).map (fun t =>
    match a.2 with
    | .ack _ => { t with pending := s.pending }
    | .nack _ _ _ => { t with pending := s.pending }
    | _ => t)

structure RowSound (row : JobRow) : Prop extends RowCounted row where
  spent : row.attempts ≤ row.maxAttempts
  leased : row.state = .running ↔ row.lockedBy.isSome = true ∧ row.lockedUntil.isSome = true

structure TableSound (s : QueueState) : Prop where
  rows : ∀ id row, s.jobs.get id = some row → RowSound row
  claims : ∀ c ∈ s.pending, c.job.attempts < c.job.maxAttempts ∧
    ∃ row, s.jobs.get c.job.id = some row ∧ row.maxAttempts = c.job.maxAttempts

variable (cfg : QueueConfig)

theorem rowSound_enqueueRow {now : ℤ} (new : NewJob) :
    RowSound (enqueueRow cfg now new) where
  toRowCounted := enqueueRow_counted cfg now new
  spent := Nat.zero_le _
  leased := by simp [enqueueRow]

theorem rowSound_nackRow (now : ℤ) {job : Job} (error : Text) (delay : ℕ) {row : JobRow}
    (hmax : row.maxAttempts = job.maxAttempts) (hlt : job.attempts < job.maxAttempts) :
    RowSound (nackRow now job error delay row) := by
  by_cases hlast : job.attempts+1 < job.maxAttempts
  · have hst : nackState job = .ready := by simp [nackState, hlast]
    refine ⟨⟨?_,?_,?_,?_⟩,?_,?_⟩ <;> simp only [nackRow, hst] <;> grind
  · have hst : nackState job = .dead := by simp [nackState, hlast]
    refine ⟨⟨?_,?_,?_,?_⟩,?_,?_⟩ <;> simp only [nackRow, hst] <;> grind

/-- Every change of a row keeps its columns in agreement; a nack needs a snapshot that was
taken of an unspent row. -/
theorem rowSound_rowStep {s : QueueState} {id : JobId} {row row' : JobRow} {a : QueueAction}
    (h : RowStep s id row a row') (hrow : RowSound row)
    (hclaims : ∀ c ∈ s.pending, c.job.id = id →
      c.job.attempts < c.job.maxAttempts ∧ row.maxAttempts = c.job.maxAttempts) :
    RowSound row' := by
  have hcounted (hn : nacks s id a = false) : RowCounted row' :=
    rowStep_counted h hrow.toRowCounted hn
  cases h with
  | same => exact hrow
  | claimed queue worker limit visibility ids _ hready =>
    exact ⟨hcounted rfl,hrow.spent,by simp [claimRow]⟩
  | acked i c hc hid => exact ⟨hcounted rfl,hrow.spent,by simp [ackRow]⟩
  | nacked i error delay c hc hid =>
    obtain ⟨hlt,hmax⟩ := hclaims c (List.mem_of_getElem? hc) hid
    exact rowSound_nackRow s.clock error delay hmax hlt
  | reaped u hrunning => exact ⟨hcounted rfl,hrow.spent,by simp⟩
  | requeued hdead =>
    -- the lease columns stay as they are, and a dead row has none
    have hfree := hrow.leased
    rw [hdead] at hfree
    refine ⟨hcounted rfl,Nat.zero_le _,?_⟩
    simpa using hfree

theorem statement_eq_some (s u : QueueState) (a : ℤ × QueueAction)
    (h : statement cfg s a = some u) :
    ∃ t, Step cfg { s with clock := a.1 } a.2 t ∧ u.jobs = t.jobs ∧
      ∀ c ∈ u.pending, c ∈ s.pending ∨ c ∈ t.pending := by
  obtain ⟨t,ht,hu⟩ := map_eq_some_iff.mp h
  have hstep := step_cases ht
  refine ⟨t,hstep,?_,?_⟩
  · rw [← hu]
    split
    · rfl
    · rfl
    · rfl
  · intro c hc
    rw [← hu] at hc
    split at hc
    · exact Or.inl hc
    · exact Or.inl hc
    · exact Or.inr hc

theorem tableSound_initial (s : QueueState) (h : initial s) : TableSound s := by
  obtain ⟨hjobs,hpending,_⟩ := h
  refine ⟨?_,?_⟩
  · intro id row hr
    rw [hjobs] at hr
    cases hr
  · rw [hpending]
    simp

theorem tableSound_statement {cfg : QueueConfig} {s u : QueueState} {a : ℤ × QueueAction}
    (hI : TableSound s) (h : statement cfg s a = some u) : TableSound u := by
  obtain ⟨t,hstep,hjobs,hpending⟩ := statement_eq_some cfg s u a h
  have hkept (c : Claim) (hc : c ∈ s.pending) : ∃ row, t.jobs.get c.job.id = some row ∧
      row.maxAttempts = c.job.maxAttempts := by
    obtain ⟨_,row,hrow,hmax⟩ := hI.claims c hc
    obtain ⟨row',hrow',hrs⟩ := step_row cfg _ t a.2 hstep c.job.id row hrow
    exact ⟨row',hrow',(rowStep_maxAttempts hrs).trans hmax⟩
  refine ⟨?_,?_⟩
  · intro id row' hr'
    rw [hjobs] at hr'
    rcases step_row_cases hstep hr' with ⟨row,hr,hrs⟩ | ⟨_,new,_,rfl⟩
    · apply rowSound_rowStep hrs (hI.rows id row hr)
      intro c hc hid
      obtain ⟨hlt,row₀,hr₀,hmax⟩ := hI.claims c hc
      rw [hid] at hr₀
      cases hr.symm.trans hr₀
      exact ⟨hlt,hmax⟩
    · exact rowSound_enqueueRow cfg new
  · intro c hc
    rw [hjobs]
    rcases hpending c hc with hold | hnew
    · exact ⟨(hI.claims c hold).1,hkept c hold⟩
    · rcases step_pending hstep hnew with hold | ⟨queue,limit,ids,row,ha,_,hid,hrow,hjob⟩
      · exact ⟨(hI.claims c hold).1,hkept c hold⟩
      · -- a new snapshot is of a row that was ready
        obtain ⟨row',hrow',hrs⟩ := step_row cfg _ t a.2 hstep c.job.id row hrow
        have hlt : row.attempts < row.maxAttempts := by
          rw [ha] at hrs
          cases hrs with
          | same _ ht _ => simp [touches, hid] at ht
          | claimed _ _ _ _ _ _ hready => exact (hI.rows _ row hrow).ready hready
        have hmax := rowStep_maxAttempts hrs
        rw [hjob]
        exact ⟨hlt,row',hrow',hmax⟩

theorem row_stays (acts : List (ℤ × QueueAction)) (s u : QueueState)
    (id : JobId) (h : (s.jobs.get id).isSome = true) (hrun : run (statement cfg) s acts = some u) :
    (u.jobs.get id).isSome = true := by
  induction acts generalizing s with
  | nil =>
    cases hrun
    exact h
  | cons a acts ih =>
    obtain ⟨t,ht,hrun⟩ := bind_eq_some_iff.mp hrun
    obtain ⟨t',hstep,hjobs,_⟩ := statement_eq_some cfg s t a ht
    obtain ⟨row,hrow⟩ := isSome_iff_exists.mp h
    obtain ⟨row',hrow',_⟩ := step_row cfg _ t' a.2 hstep id row hrow
    exact ih t (by rw [hjobs, hrow']; rfl) hrun

theorem one_row (jobs : Jobs) (id : JobId) (h : (jobs.get id).isSome = true) :
    (jobs.entries.filter (fun e => e.1 = id)).length = 1 := by
  obtain ⟨row,hrow⟩ := isSome_iff_exists.mp h
  have hmem : (id,row) ∈ jobs.entries.filter (fun e => e.1 = id) :=
    List.mem_filter.mpr ⟨Dict.get_eq_some_iff.mp hrow,by simp⟩
  have hone : (jobs.entries.filter (fun e => e.1 = id)).length ≤ 1 := by
    rw [← List.countP_eq_length_filter]
    apply Dict.countP_le_one
    intro x _ y _ hx hy
    exact (of_decide_eq_true hx).trans (of_decide_eq_true hy).symm
  have hpos := List.length_pos_of_mem hmem
  omega

theorem reaped_leases {jobs : Jobs} {now : ℤ} {id : JobId} {row : JobRow}
    (hrow : (reapExpired now jobs).1.get id = some row) (hrunning : row.state = .running) (u : ℤ)
    (hu : row.lockedUntil = some u) : now ≤ u := by
  have hget := Dict.get_mapValues jobs (fun _ row => reapRow now row) id
  obtain ⟨row₀,_,hreap⟩ := map_eq_some_iff.mp (hget.symm.trans hrow)
  by_cases hr : reapable now row₀ = true
  · rw [reapRow, if_pos hr] at hreap
    rw [← hreap] at hrunning
    cases hrunning
  · rw [reapRow, if_neg hr] at hreap
    rw [hreap] at hr
    simp only [reapable, hrunning, decide_true, hu, any_some, Bool.true_and,
      decide_eq_true_eq] at hr
    omega

/-- In every run of the statements: a row runs exactly while it has both lease columns, its count
stays within its attempts, an enqueued job keeps one row, and a sweep leaves no expired lease. -/
theorem job_rows_invariant (cfg : QueueConfig) (s : QueueState)
    (hs : Reachable initial (statement cfg) anyStep s) :
    (∀ id row, s.jobs.get id = some row →
      (row.state = .running ↔ row.lockedBy.isSome = true ∧ row.lockedUntil.isSome = true) ∧
      row.attempts ≤ row.maxAttempts ∧
      (row.state = .ready ∨ row.state = .running → row.attempts < row.maxAttempts) ∧
      (row.state = .dead → row.attempts = row.maxAttempts)) ∧
    (∀ now id new t, statement cfg s (now,.enqueue id new) = some t →
      ∀ acts u, run (statement cfg) t acts = some u →
        (u.jobs.entries.filter (fun e => e.1 = id)).length = 1) ∧
    ∀ now t, statement cfg s (now,.reap) = some t → ∀ id row, t.jobs.get id = some row →
      row.state = .running → ∀ u, row.lockedUntil = some u → now ≤ u := by
  have hI : TableSound s := reachable_invariant TableSound tableSound_initial
    (fun s t a hI _ ht => tableSound_statement hI ht) s hs
  refine ⟨?_,?_,?_⟩
  · intro id row hrow
    have hsound := hI.rows id row hrow
    refine ⟨hsound.leased,hsound.spent,?_,hsound.dead⟩
    intro hopen
    rcases hopen with hready | hrunning
    · exact hsound.ready hready
    · exact hsound.running hrunning
  · intro now id new t ht acts u hrun
    apply one_row
    apply row_stays cfg acts t u id ?_ hrun
    obtain ⟨t',hstep,hjobs,_⟩ := statement_eq_some cfg s t _ ht
    rw [hjobs]
    cases hstep with
    | enqueue _ _ _ => simp
  · intro now t ht id row hrow
    cases ht
    exact reaped_leases hrow

/-- A run whose clock goes back, with a nack from a snapshot that was acked before. -/
theorem job_rows_invariant_email : ∃ s, Reachable initial (statement defaultConfig) anyStep s ∧
    (s.jobs.get 1).any (fun row => decide (row.state = .ready) && decide (row.attempts = 1)) =
      true ∧
    ∀ id row, s.jobs.get id = some row → row.attempts ≤ row.maxAttempts := by
  refine Exists.imp (fun s (h : _ ∧ _) => ⟨h.1,h.2,fun id row hrow =>
    ((job_rows_invariant defaultConfig s h.1).1 id row hrow).2.1⟩) ?_
  exact reachable_of_run _ _
    [(10,.enqueue 1 emailJob), (10,claimEmail "w1"), (50000000,.reap),
      (50000000,claimEmail "w2"), (20,.ack 1), (5,.nack 0 "late".toList 0),
      (60000000,claimEmail "w3"), (60000001,.nack 1 "later".toList 0)]
    emptyQueue emptyQueue_initial (by decide +kernel)

end BackendGauntlet.JobQueue
