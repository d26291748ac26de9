import BackendGauntlet.PyText
import BackendGauntlet.Transition

/-! The click ingestor: a bounded queue, one task that drains it, and a sentinel to stop it. -/
namespace BackendGauntlet.UrlShortener

open PyText Transition List Option

structure ClickEvent where
  linkId : ℕ
  referer : Option Text
  userAgent : Option Text
  ipHash : Option Text
deriving DecidableEq

structure IngestConfig where
  capacity : ℕ
  maxBatch : ℕ
  maxBatch_pos : 1 ≤ maxBatch

/-- Where `run` is: in `queue.get`, or in the INSERT of a flush (`last` after the sentinel), or
ended, by its return or by an exception that `flush` does not catch. -/
inductive RunPhase
  | waiting
  | flushing (last : Bool)
  | returned
  | raised (last : Bool)
deriving DecidableEq

/-- Where `stop` is: not called, in `queue.put` on a full queue, or past it. -/
inductive StopPhase
  | idle
  | putting
  | posted
deriving DecidableEq

/-- `accepted` and `inserts` are history: the accepted events, and the batches with whether their
INSERT succeeded. -/
structure IngestState where
  closed : Bool
  queue : List (Option ClickEvent)
  batch : List ClickEvent
  phase : RunPhase
  stop : StopPhase
  accepted : List ClickEvent
  inserts : List (List ClickEvent × Bool)
deriving DecidableEq

def IngestState.new : IngestState := ⟨false,[],[],.waiting,.idle,[],[]⟩

inductive IngestAction
  | accept (event : ClickEvent)
  | take
  | timeout
  | inserted
  | insertFails
  | insertRaises
  | stop
  | putResumes

section
variable (cfg : IngestConfig)

/-- `Queue.full`: a queue of size 0 has no bound. -/
def queueFull (queue : List (Option ClickEvent)) : Bool :=
  0 < cfg.capacity && cfg.capacity ≤ queue.length

def accept (s : IngestState) (event : ClickEvent) : Bool × IngestState :=
  if s.closed then (false,s)
  else if queueFull cfg s.queue then (false,s)
  else (true,{ s with queue := s.queue ++ [some event], accepted := s.accepted ++ [event] })

def RunPhase.afterFlush (last : Bool) : RunPhase := if last then .returned else .waiting

def IngestState.flush (s : IngestState) (last : Bool) : IngestState :=
  if s.batch.isEmpty then { s with phase := .afterFlush last }
  else { s with phase := .flushing last }

def IngestState.flushed (s : IngestState) (last ok : Bool) : IngestState :=
  { s with inserts := s.inserts ++ [(s.batch,ok)], batch := [], phase := .afterFlush last }

def IngestState.taken (s : IngestState) : Option ClickEvent → IngestState
  | none => s.flush true
  | some event =>
    let s := { s with batch := s.batch ++ [event] }
    if cfg.maxBatch ≤ s.batch.length then s.flush false else s

/-- The timer of `run` may go off at any time while it waits: an item that has arrived by then
stays in the queue. -/
def ingestStep (s : IngestState) : IngestAction → Option IngestState
  | .accept event => some (accept cfg s event).2
  | .take =>
    match s.phase, s.queue with
    | .waiting, item :: queue => some (IngestState.taken cfg { s with queue := queue } item)
    | _, _ => none
  | .timeout =>
    match s.phase with
    | .waiting => some (s.flush false)
    | _ => none
  | .inserted =>
    match s.phase with
    | .flushing last => some (s.flushed last true)
    | _ => none
  | .insertFails =>
    match s.phase with
    | .flushing last => some (s.flushed last false)
    | _ => none
  | .insertRaises =>
    match s.phase with
    -- the batch is cleared on the way out
    | .flushing last => some { s.flushed last false with phase := .raised last }
    | _ => none
  | .stop =>
    match s.stop with
    | .idle =>
      if queueFull cfg s.queue then some { s with closed := true, stop := .putting }
      else some { s with closed := true, stop := .posted, queue := s.queue ++ [none] }
    | _ => none
  | .putResumes =>
    match s.stop with
    | .putting =>
      if queueFull cfg s.queue then none
      else some { s with stop := .posted, queue := s.queue ++ [none] }
    | _ => none

end

def IngestState.batches (s : IngestState) : List (List ClickEvent) := s.inserts.map Prod.fst

def IngestState.written (s : IngestState) : List (List ClickEvent) :=
  (s.inserts.filter Prod.snd).map Prod.fst

def RunPhase.ending : RunPhase → Bool
  | .waiting => false
  | .flushing last => last
  | .returned => true
  | .raised last => last

def queuedEvents (queue : List (Option ClickEvent)) : List ClickEvent := queue.filterMap id

theorem queuedEvents_event (queue : List (Option ClickEvent)) (event : ClickEvent) :
    queuedEvents (queue ++ [some event]) = queuedEvents queue ++ [event] := by
  simp [queuedEvents]

theorem queuedEvents_sentinel (queue : List (Option ClickEvent)) :
    queuedEvents (queue ++ [none]) = queuedEvents queue := by
  simp [queuedEvents]

structure Conserved (cfg : IngestConfig) (s : IngestState) : Prop where
  events : s.accepted = s.batches.flatten ++ s.batch ++ queuedEvents s.queue
  batches : ∀ b ∈ s.batches, b.length ≤ cfg.maxBatch
  batch : s.batch.length ≤ cfg.maxBatch
  room : s.phase = .waiting → s.batch.length < cfg.maxBatch
  queue : 0 < cfg.capacity → s.queue.length ≤ cfg.capacity
  closed : s.stop ≠ .idle → s.closed = true
  unposted : s.stop ≠ .posted → none ∉ s.queue ∧ s.phase.ending = false
  posted : s.stop = .posted → s.phase.ending = false → ∃ es, s.queue = es ++ [none] ∧ none ∉ es
  drained : s.phase.ending = true → s.queue = []
  returned : s.phase = .returned → s.batch = []

theorem ending_afterFlush (last : Bool) : (RunPhase.afterFlush last).ending = last := by
  cases last <;> rfl

variable {queue : List (Option ClickEvent)} {s : IngestState}

section
variable (cfg : IngestConfig)

theorem conserved_new : Conserved cfg .new where
  events := rfl
  batches := by intro b hb; cases hb
  batch := Nat.zero_le _
  room := fun _ => cfg.maxBatch_pos
  queue := fun _ => Nat.zero_le _
  closed := fun h => absurd rfl h
  unposted := fun _ => ⟨by simp [IngestState.new],rfl⟩
  posted := by intro h; cases h
  drained := by intro h; cases h
  returned := by intro h; cases h

theorem length_lt_of_not_full (h : queueFull cfg queue = false)
    (hpos : 0 < cfg.capacity) : queue.length < cfg.capacity := by
  simpa [queueFull, hpos] using h

theorem conserved_accept (event : ClickEvent) (hinv : Conserved cfg s) :
    Conserved cfg (accept cfg s event).2 := by
  unfold accept
  split_ifs with hclosed hfull
  · exact hinv
  · exact hinv
  · have hidle : s.stop = .idle := by
      by_contra h
      exact hclosed (hinv.closed h)
    have hnotposted : s.stop ≠ .posted := by
      rw [hidle]
      decide
    obtain ⟨hno,hphase⟩ := hinv.unposted hnotposted
    have hending (h : s.phase.ending = true) : False := by
      rw [hphase] at h
      cases h
    refine { hinv with
      events := ?_
      queue := ?_
      unposted := fun _ => ⟨by simpa using hno,hphase⟩
      posted := fun h => absurd h hnotposted
      drained := fun h => (hending h).elim }
    · change s.accepted ++ [event] =
        s.batches.flatten ++ s.batch ++ queuedEvents (s.queue ++ [some event])
      rw [queuedEvents_event, hinv.events, append_assoc]
    · intro hpos
      have := length_lt_of_not_full cfg (Bool.not_eq_true _ ▸ hfull) hpos
      simpa using Nat.succ_le_of_lt this

theorem conserved_flush (s : IngestState) (last : Bool)
    (hinv : Conserved cfg { s with phase := .flushing last }) : Conserved cfg (s.flush last) := by
  unfold IngestState.flush
  split_ifs with hempty
  · have hnil : s.batch = [] := List.isEmpty_iff.mp hempty
    have hending := ending_afterFlush last
    refine { hinv with
      room := ?_
      unposted := fun h => ⟨(hinv.unposted h).1,hending.trans (hinv.unposted h).2⟩
      posted := fun h hl => hinv.posted h (hending.symm.trans hl)
      drained := fun hl => hinv.drained (hending.symm.trans hl)
      returned := fun _ => hnil }
    intro _
    change s.batch.length < _
    rw [hnil]
    exact cfg.maxBatch_pos
  · exact hinv

theorem conserved_flushed {last : Bool} (ok : Bool) (hinv : Conserved cfg s)
    (hphase : s.phase = .flushing last) {p : RunPhase} (hp : p.ending = last) :
    Conserved cfg { s.flushed last ok with phase := p } := by
  have hending : p.ending = s.phase.ending := by
    rw [hphase]
    exact hp
  have hbatches : (s.flushed last ok).batches = s.batches ++ [s.batch] := by
    simp [IngestState.batches, IngestState.flushed]
  refine { hinv with
    events := ?_
    batches := ?_
    batch := Nat.zero_le _
    room := fun _ => cfg.maxBatch_pos
    unposted := fun h => ⟨(hinv.unposted h).1,hending.trans (hinv.unposted h).2⟩
    posted := fun h hl => hinv.posted h (hending.symm.trans hl)
    drained := fun hl => hinv.drained (hending.symm.trans hl)
    returned := fun _ => rfl }
  · change s.accepted = (s.flushed last ok).batches.flatten ++ [] ++ queuedEvents s.queue
    rw [hbatches, hinv.events]
    simp
  · intro b hb
    change b ∈ (s.flushed last ok).batches at hb
    rw [hbatches] at hb
    rcases mem_append.mp hb with hb | hb
    · exact hinv.batches b hb
    · rw [mem_singleton.mp hb]
      exact hinv.batch

/-- Behind the sentinel the queue is empty, since `accept` refuses and `stop` posts once. -/
theorem conserved_taken_sentinel
    (hinv : Conserved cfg s) (hphase : s.phase = .waiting) (hqueue : s.queue = none :: queue) :
    Conserved cfg (IngestState.taken cfg { s with queue := queue } none) := by
  have hnone : none ∈ s.queue := by
    rw [hqueue]
    exact mem_cons_self
  have hposted : s.stop = .posted := by
    by_contra h
    exact (hinv.unposted h).1 hnone
  have hnil : queue = [] := by
    obtain ⟨es,hes,hno⟩ := hinv.posted hposted (by rw [hphase]; rfl)
    cases es with
    | nil =>
      rw [hqueue] at hes
      exact (cons.inj hes).2
    | cons e es =>
      rw [hqueue] at hes
      exact absurd ((cons.inj hes).1 ▸ mem_cons_self) hno
  apply conserved_flush
  refine { hinv with
    events := ?_
    room := fun h => nomatch h
    queue := fun _ => by simp [hnil]
    unposted := fun h => absurd hposted h
    posted := fun _ h => nomatch h
    drained := fun _ => hnil
    returned := fun h => nomatch h }
  have hevents := hinv.events
  rw [hqueue] at hevents
  exact hevents

theorem conserved_taken_event {event : ClickEvent}
    (hinv : Conserved cfg s) (hphase : s.phase = .waiting)
    (hqueue : s.queue = some event :: queue) :
    Conserved cfg (IngestState.taken cfg { s with queue := queue } (some event)) := by
  have hroom := hinv.room hphase
  have hending : s.phase.ending = false := by
    rw [hphase]
    rfl
  have hevents : s.accepted = s.batches.flatten ++ (s.batch ++ [event]) ++ queuedEvents queue := by
    rw [hinv.events, hqueue]
    simp [queuedEvents]
  have hlength : (s.batch ++ [event]).length ≤ cfg.maxBatch := by
    simpa using Nat.succ_le_of_lt hroom
  have hbound (hpos : 0 < cfg.capacity) : queue.length ≤ cfg.capacity := by
    have := hinv.queue hpos
    rw [hqueue] at this
    exact Nat.le_of_succ_le this
  have hposted (h : s.stop = .posted) : ∃ es, queue = es ++ [none] ∧ none ∉ es := by
    obtain ⟨es,hes,hno⟩ := hinv.posted h hending
    rw [hqueue] at hes
    cases es with
    | nil => cases hes
    | cons e es => exact ⟨es,(cons.inj hes).2,fun hm => hno (mem_cons_of_mem _ hm)⟩
  have hunposted (h : s.stop ≠ .posted) : none ∉ queue := by
    intro hm
    apply (hinv.unposted h).1
    rw [hqueue]
    exact mem_cons_of_mem _ hm
  unfold IngestState.taken
  simp only
  split_ifs with hfull
  · apply conserved_flush
    exact { hinv with
      events := hevents
      batch := hlength
      room := fun h => nomatch h
      queue := hbound
      unposted := fun h => ⟨hunposted h,rfl⟩
      posted := fun h _ => hposted h
      drained := fun h => nomatch h
      returned := fun h => nomatch h }
  · refine { hinv with
      events := hevents
      batch := hlength
      room := fun _ => Nat.lt_of_not_le hfull
      queue := hbound
      unposted := fun h => ⟨hunposted h,hending⟩
      posted := fun h _ => hposted h
      drained := fun h => ?_
      returned := fun h => ?_ }
    · rw [hending] at h
      cases h
    · rw [hphase] at h
      cases h

theorem conserved_posted (hinv : Conserved cfg s) (hstop : s.stop ≠ .posted)
    (hfull : queueFull cfg s.queue = false) :
    Conserved cfg { s with closed := true, stop := .posted, queue := s.queue ++ [none] } := by
  obtain ⟨hno,hending⟩ := hinv.unposted hstop
  refine { hinv with
    events := ?_
    queue := ?_
    closed := fun _ => rfl
    unposted := fun h => absurd rfl h
    posted := fun _ _ => ⟨s.queue,rfl,hno⟩
    drained := fun h => ?_ }
  · change s.accepted = s.batches.flatten ++ s.batch ++ queuedEvents (s.queue ++ [none])
    rw [queuedEvents_sentinel]
    exact hinv.events
  · intro hpos
    simpa using Nat.succ_le_of_lt (length_lt_of_not_full cfg hfull hpos)
  · change s.phase.ending = true at h
    rw [hending] at h
    cases h

theorem conserved_step {t : IngestState} {a : IngestAction} (hinv : Conserved cfg s)
    (h : ingestStep cfg s a = some t) : Conserved cfg t := by
  cases a with
  | accept event =>
    cases h
    exact conserved_accept cfg event hinv
  | take =>
    simp only [ingestStep] at h
    split at h
    · rename_i item queue hphase hqueue
      cases h
      cases item with
      | none => exact conserved_taken_sentinel cfg hinv hphase hqueue
      | some event => exact conserved_taken_event cfg hinv hphase hqueue
    · cases h
  | timeout =>
    simp only [ingestStep] at h
    split at h
    · rename_i hphase
      cases h
      apply conserved_flush
      have hending : s.phase.ending = false := by
        rw [hphase]
        rfl
      exact { hinv with
        room := fun h => nomatch h
        unposted := fun h => ⟨(hinv.unposted h).1,rfl⟩
        posted := fun h _ => hinv.posted h hending
        drained := fun h => nomatch h
        returned := fun h => nomatch h }
    · cases h
  | inserted =>
    simp only [ingestStep] at h
    split at h
    · rename_i last hphase
      cases h
      exact conserved_flushed cfg true hinv hphase (ending_afterFlush last)
    · cases h
  | insertFails =>
    simp only [ingestStep] at h
    split at h
    · rename_i last hphase
      cases h
      exact conserved_flushed cfg false hinv hphase (ending_afterFlush last)
    · cases h
  | insertRaises =>
    simp only [ingestStep] at h
    split at h
    · rename_i last hphase
      cases h
      exact conserved_flushed cfg false hinv hphase rfl
    · cases h
  | stop =>
    simp only [ingestStep] at h
    split at h
    · rename_i hstop
      have hidle : s.stop ≠ .posted := by
        rw [hstop]
        decide
      split_ifs at h with hfull
      · cases h
        exact { hinv with
          closed := fun _ => rfl
          unposted := fun _ => hinv.unposted hidle
          posted := fun h => nomatch h }
      · cases h
        exact conserved_posted cfg hinv hidle (Bool.not_eq_true _ ▸ hfull)
    · cases h
  | putResumes =>
    simp only [ingestStep] at h
    split at h
    · rename_i hstop
      have hputting : s.stop ≠ .posted := by
        rw [hstop]
        decide
      have hclosed : s.closed = true := hinv.closed (by rw [hstop]; decide)
      split_ifs at h with hfull
      cases h
      have hposted := conserved_posted cfg hinv hputting (Bool.not_eq_true _ ▸ hfull)
      rw [← hclosed] at hposted
      exact hposted
    · cases h

theorem conserved_reachable {P : IngestState → IngestAction → Prop}
    (hs : Reachable (fun s => s = .new) (ingestStep cfg) P s) : Conserved cfg s :=
  reachable_invariant (Conserved cfg) (by rintro _ rfl; exact conserved_new cfg)
    (fun u v a hu _ hstep => conserved_step cfg hu hstep) s hs

theorem written_eq_batches (h : ∀ i ∈ s.inserts, i.2 = true) :
    s.written = s.batches := by
  rw [IngestState.written, filter_eq_self.mpr h]
  rfl

theorem written_of_one_failure {before after : List (List ClickEvent × Bool)}
    {batch : List ClickEvent} (hs : s.inserts = before ++ (batch,false) :: after)
    (h : ∀ i ∈ before ++ after, i.2 = true) :
    s.batches = before.map Prod.fst ++ batch :: after.map Prod.fst ∧
      s.written = before.map Prod.fst ++ after.map Prod.fst := by
  constructor
  · rw [IngestState.batches, hs, map_append, map_cons]
  · have hbefore : before.filter Prod.snd = before :=
      filter_eq_self.mpr (fun i hi => h i (mem_append_left _ hi))
    have hafter : after.filter Prod.snd = after :=
      filter_eq_self.mpr (fun i hi => h i (mem_append_right _ hi))
    rw [IngestState.written, hs, filter_append, hbefore,
      filter_cons_of_neg Bool.false_ne_true, hafter, map_append]

/-- Once `run` has returned, the batches are the accepted events in order, all written but those of
a failed INSERT; batches and queue are bounded, and `accept` refuses after `stop`. -/
theorem clicks_conserved (s : IngestState)
    (hs : Reachable (fun s => s = .new) (ingestStep cfg) anyStep s) :
    (s.phase = .returned → s.batches.flatten = s.accepted) ∧
    (s.phase = .returned → (∀ i ∈ s.inserts, i.2 = true) → s.written.flatten = s.accepted) ∧
    (s.phase = .returned → ∀ before batch after, s.inserts = before ++ (batch,false) :: after →
      (∀ i ∈ before ++ after, i.2 = true) →
      s.accepted = (before.map Prod.fst).flatten ++ batch ++ (after.map Prod.fst).flatten ∧
        s.written.flatten = (before.map Prod.fst).flatten ++ (after.map Prod.fst).flatten) ∧
    (∀ b ∈ s.batches, b.length ≤ cfg.maxBatch) ∧
    (1 ≤ cfg.capacity → s.queue.length ≤ cfg.capacity) ∧
    (s.stop ≠ .idle → ∀ event, (accept cfg s event).1 = false) := by
  have hinv := conserved_reachable cfg hs
  have hdone (h : s.phase = .returned) : s.batches.flatten = s.accepted := by
    rw [hinv.events, hinv.returned h, hinv.drained (by rw [h]; rfl)]
    simp [queuedEvents]
  refine ⟨hdone,?_,?_,hinv.batches,hinv.queue,?_⟩
  · intro h hok
    rw [written_eq_batches hok]
    exact hdone h
  · intro h before batch after hinserts hok
    obtain ⟨hbatches,hwritten⟩ := written_of_one_failure hinserts hok
    rw [← hdone h, hbatches, hwritten]
    simp
  · intro hstop event
    simp [accept, hinv.closed hstop]

def RunPhase.work : RunPhase → ℕ
  | .waiting => 1
  | .flushing _ => 2
  | .returned => 0
  | .raised _ => 0

def IngestState.work (s : IngestState) : ℕ :=
  2*s.queue.length+(if s.stop = .posted then 0 else 3)+s.phase.work

theorem work_le_two (p : RunPhase) : p.work ≤ 2 := by
  cases p <;> decide +revert

theorem flush_frame (s : IngestState) (last : Bool) :
    (s.flush last).stop = s.stop ∧ (s.flush last).queue = s.queue := by
  unfold IngestState.flush
  split_ifs
  · exact ⟨rfl,rfl⟩
  · exact ⟨rfl,rfl⟩

theorem taken_frame (s : IngestState) (item : Option ClickEvent) :
    (IngestState.taken cfg s item).stop = s.stop ∧
      (IngestState.taken cfg s item).queue = s.queue := by
  cases item with
  | none => exact flush_frame s true
  | some event =>
    unfold IngestState.taken
    simp only
    split_ifs
    · exact flush_frame { s with batch := s.batch ++ [event] } false
    · exact ⟨rfl,rfl⟩

/-- The INSERT succeeds or fails with an error that `flush` catches. -/
def caught (_ : IngestState) : IngestAction → Bool
  | .insertRaises => false
  | _ => true

theorem flush_not_raised (s : IngestState) (last b : Bool) : (s.flush b).phase ≠ .raised last := by
  unfold IngestState.flush RunPhase.afterFlush
  split_ifs <;> exact nofun

theorem not_raised
    (hs : Reachable (fun s => s = .new) (ingestStep cfg) (fun s a => caught s a = true) s)
    (last : Bool) : s.phase ≠ .raised last := by
  refine reachable_invariant (fun s => s.phase ≠ .raised last) ?_ ?_ s hs
  · rintro _ rfl
    exact nofun
  · intro u v a hu ha hstep
    cases a with
    | insertRaises => cases ha
    | accept event =>
      cases hstep
      unfold accept
      split_ifs <;> exact hu
    | take =>
      simp only [ingestStep] at hstep
      split at hstep
      · rename_i item queue hphase hqueue
        cases hstep
        cases item with
        | none => exact flush_not_raised _ last true
        | some event =>
          unfold IngestState.taken
          simp only
          split_ifs
          · exact flush_not_raised _ last false
          · exact hu
      · cases hstep
    | timeout =>
      simp only [ingestStep] at hstep
      split at hstep
      · cases hstep
        exact flush_not_raised u last false
      · cases hstep
    | stop =>
      simp only [ingestStep] at hstep
      split at hstep
      · split_ifs at hstep <;> cases hstep <;> exact hu
      · cases hstep
    | putResumes =>
      simp only [ingestStep] at hstep
      split at hstep
      · split_ifs at hstep
        cases hstep
        exact hu
      · cases hstep
    | inserted | insertFails =>
      simp only [ingestStep] at hstep
      split at hstep
      · cases hstep
        simp only [IngestState.flushed, RunPhase.afterFlush]
        split_ifs <;> exact nofun
      · cases hstep

/-- Once `stop` is called there is always a step that leaves less to do. -/
theorem work_decreases (hinv : Conserved cfg s) (hstop : s.stop ≠ .idle)
    (hphase : s.phase ≠ .returned) (hraised : ∀ last, s.phase ≠ .raised last) :
    ∃ a t, caught s a = true ∧ ingestStep cfg s a = some t ∧ t.stop ≠ .idle ∧
      t.work < s.work := by
  cases hp : s.phase with
  | returned => exact absurd hp hphase
  | raised last => exact absurd hp (hraised last)
  | flushing last =>
    refine ⟨.inserted,s.flushed last true,rfl,by simp [ingestStep, hp],hstop,?_⟩
    have hwork : (RunPhase.afterFlush last).work < s.phase.work := by
      rw [hp]
      cases last <;> decide
    exact Nat.add_lt_add_left hwork _
  | waiting =>
    cases hq : s.queue with
    | cons item queue =>
      obtain ⟨hstop',hqueue⟩ := taken_frame cfg { s with queue := queue } item
      have hwork := work_le_two (IngestState.taken cfg { s with queue := queue } item).phase
      have hwaiting : s.phase.work = 1 := by
        rw [hp]
        rfl
      refine ⟨.take,_,rfl,by simp only [ingestStep, hp, hq],hstop' ▸ hstop,?_⟩
      simp only [IngestState.work, hstop', hqueue, hq, length_cons]
      omega
    | nil =>
      -- an empty queue has no sentinel yet, and it has room for it
      have hputting : s.stop = .putting := by
        cases hs : s.stop with
        | idle => exact absurd hs hstop
        | putting => rfl
        | posted =>
          obtain ⟨es,hes,_⟩ := hinv.posted hs (by rw [hp]; rfl)
          rw [hq] at hes
          exact absurd hes.symm (by simp)
      have hfull : queueFull cfg s.queue = false := by
        rw [hq]
        simp only [queueFull, length_nil, Bool.and_eq_false_imp, decide_eq_true_eq,
          decide_eq_false_iff_not]
        omega
      refine ⟨.putResumes,{ s with stop := .posted, queue := s.queue ++ [none] },rfl,?_,?_,?_⟩
      · simp [ingestStep, hputting, hfull]
      · exact fun h => nomatch h
      · simp [IngestState.work, hputting, hq]

/-- Whenever `stop` has been called and no INSERT has raised past `flush`, `run` can still come to
its return. -/
theorem ingestor_can_return (s : IngestState)
    (hs : Reachable (fun s => s = .new) (ingestStep cfg) (fun s a => caught s a = true) s)
    (hstop : s.stop ≠ .idle) :
    ∃ actions t, run (ingestStep cfg) s actions = some t ∧ t.phase = .returned := by
  induction hw : s.work using Nat.strongRecOn generalizing s with
  | _ w ih =>
    by_cases hphase : s.phase = .returned
    · exact ⟨[],s,rfl,hphase⟩
    · obtain ⟨a,u,ha,hstep,hstop',hless⟩ :=
        work_decreases cfg (conserved_reachable cfg hs) hstop hphase (not_raised cfg hs)
      obtain ⟨actions,t,hrun,ht⟩ := ih u.work (hw ▸ hless) u (.next s u a hs ha hstep) hstop' rfl
      refine ⟨a :: actions,t,?_,ht⟩
      rw [run, hstep]
      exact hrun

end

def smallIngestor : IngestConfig := ⟨1,2,by decide⟩

def clickOn (linkId : ℕ) : ClickEvent := ⟨linkId,none,none,none⟩

/-- `stop` finds the queue full; the click behind it is refused and the others are written. -/
theorem clicks_conserved_small : ∃ s,
    Reachable (fun s => s = .new) (ingestStep smallIngestor) anyStep s ∧
    s.phase = .returned ∧ s.accepted = [clickOn 1, clickOn 2, clickOn 3] ∧
    s.written.flatten = [clickOn 1, clickOn 2, clickOn 3] := by
  obtain ⟨s,hs,hphase,haccepted,hok⟩ := reachable_of_run (fun s => s = .new)
    (ingestStep smallIngestor)
    (P := fun s => s.phase = .returned ∧ s.accepted = [clickOn 1, clickOn 2, clickOn 3] ∧
      ∀ i ∈ s.inserts, i.2 = true)
    [.accept (clickOn 1), .take, .timeout, .accept (clickOn 2), .inserted, .take,
      .accept (clickOn 3), .stop, .accept (clickOn 4), .take, .inserted, .putResumes, .take]
    .new rfl (by decide +kernel)
  have h := clicks_conserved smallIngestor s hs
  exact ⟨s,hs,hphase,haccepted,(h.2.1 hphase hok).trans haccepted⟩

/-- `stop` waits at a full queue. -/
theorem ingestor_can_return_small : ∃ s,
    (Reachable (fun s => s = .new) (ingestStep smallIngestor) (fun s a => caught s a = true) s ∧
      s.stop = .putting) ∧
    ∃ actions t, run (ingestStep smallIngestor) s actions = some t ∧ t.phase = .returned := by
  refine Exists.imp (fun s hs =>
    ⟨hs,ingestor_can_return smallIngestor s hs.1 (by rw [hs.2]; decide)⟩) ?_
  exact reachable_of_checkedRun _ _ caught [.accept (clickOn 1), .stop] .new rfl
    (by decide +kernel)

end BackendGauntlet.UrlShortener
