import BackendGauntlet.Transition
import Mathlib.Data.Int.Notation
import Mathlib.Data.List.Perm.Basic

/-! The bounded outbound mailbox of a connection, with one reader. -/
namespace BackendGauntlet.Pubsub

open Transition List Option
open scoped List

inductive OverflowPolicy
  | dropNewest
  | dropOldest
  | disconnect
deriving DecidableEq

inductive DeliverOutcome
  | delivered
  | dropped
  | disconnect
deriving DecidableEq

/-- `arrival` is the flag of the event; `counted` what was added to the drop counter. -/
structure Mailbox (μ : Type*) where
  capacity : ℕ
  capacity_pos : 1 ≤ capacity
  policy : OverflowPolicy
  queue : List μ
  bounded : queue.length ≤ capacity
  closed : Bool
  arrival : Bool
  counted : ℕ
deriving DecidableEq

namespace Mailbox

variable {μ : Type*}

theorem capacity_new (capacity : ℤ) : 1 ≤ (max 1 capacity).toNat := by omega

def new (capacity : ℤ) (policy : OverflowPolicy) : Mailbox μ :=
  { capacity := (max 1 capacity).toNat
    capacity_pos := capacity_new capacity
    policy := policy
    queue := []
    bounded := Nat.zero_le _
    closed := false
    arrival := false
    counted := 0 }

theorem put_bounded {m : Mailbox μ} (msg : μ) (h : ¬ m.capacity ≤ m.queue.length) :
    (m.queue ++ [msg]).length ≤ m.capacity := by
  rw [length_append, length_singleton]
  omega

variable (m : Mailbox μ)

theorem evict_bounded (msg : μ) : (m.queue.tail ++ [msg]).length ≤ m.capacity := by
  have h := m.bounded
  have hpos := m.capacity_pos
  rw [length_append, length_singleton, length_tail]
  omega

theorem tail_bounded : m.queue.tail.length ≤ m.capacity := by
  have h := m.bounded
  rw [length_tail]
  omega

def deliver (m : Mailbox μ) (msg : μ) : DeliverOutcome × Mailbox μ :=
  if m.closed then (.disconnect,m)
  else if h : m.capacity ≤ m.queue.length then
    match m.policy with
    | .dropNewest => (.dropped,{ m with counted := m.counted+1 })
    | .disconnect => (.disconnect,m)
    | .dropOldest =>
      (.delivered,{ m with
        queue := m.queue.tail ++ [msg]
        bounded := evict_bounded m msg
        counted := m.counted+1
        arrival := true })
  else
    (.delivered,{ m with
      queue := m.queue ++ [msg]
      bounded := put_bounded msg h
      arrival := true })

inductive Delivery (m : Mailbox μ) (msg : μ) : DeliverOutcome → Mailbox μ → Prop
  | refused (h : m.closed = true ∨ m.policy = .disconnect ∧ m.capacity ≤ m.queue.length) :
      Delivery m msg .disconnect m
  | droppedNew (hclosed : m.closed = false) (hpolicy : m.policy = .dropNewest)
      (hfull : m.capacity ≤ m.queue.length) :
      Delivery m msg .dropped { m with counted := m.counted+1 }
  | evicted (hclosed : m.closed = false) (hpolicy : m.policy = .dropOldest) (old : μ)
      (queue : List μ) (hqueue : m.queue = old :: queue) (hfull : m.capacity ≤ m.queue.length)
      (m' : Mailbox μ) (hcapacity : m'.capacity = m.capacity) (hpolicy' : m'.policy = m.policy)
      (hqueue' : m'.queue = queue ++ [msg]) (hcounted : m'.counted = m.counted+1)
      (hclosed' : m'.closed = false) : Delivery m msg .delivered m'
  | queued (hclosed : m.closed = false) (hroom : ¬ m.capacity ≤ m.queue.length) (m' : Mailbox μ)
      (hcapacity : m'.capacity = m.capacity) (hpolicy' : m'.policy = m.policy)
      (hqueue' : m'.queue = m.queue ++ [msg]) (hcounted : m'.counted = m.counted)
      (hclosed' : m'.closed = false) : Delivery m msg .delivered m'

theorem deliver_delivery (msg : μ) :
    Delivery m msg (m.deliver msg).1 (m.deliver msg).2 := by
  unfold deliver
  split_ifs with hclosed hfull
  · exact .refused (Or.inl hclosed)
  · have hopen : m.closed = false := Bool.not_eq_true _ ▸ hclosed
    split
    · rename_i hpolicy
      exact .droppedNew hopen hpolicy hfull
    · rename_i hpolicy
      exact .refused (Or.inr ⟨hpolicy,hfull⟩)
    · rename_i hpolicy
      have hne : m.queue ≠ [] := by
        intro hnil
        have hpos := m.capacity_pos
        rw [hnil, length_nil] at hfull
        omega
      obtain ⟨old,queue,hqueue⟩ := exists_cons_of_ne_nil hne
      exact .evicted hopen hpolicy old queue hqueue hfull _ rfl rfl (by simp [hqueue]) rfl hopen
  · have hopen : m.closed = false := Bool.not_eq_true _ ▸ hclosed
    exact .queued hopen hfull _ rfl rfl rfl rfl hopen

def close (m : Mailbox μ) : Mailbox μ := { m with closed := true, arrival := true }

def pop (m : Mailbox μ) : Mailbox μ :=
  { m with queue := m.queue.tail, bounded := tail_bounded m }

def tryRecv (m : Mailbox μ) : Option μ × Mailbox μ :=
  match m.queue with
  | [] => (none,m)
  | msg :: _ => (some msg,m.pop)

end Mailbox

inductive Reader
  | idle
  | looping
  | waiting (woken : Bool)
deriving DecidableEq

def Reader.wake : Reader → Reader
  | .waiting _ => .waiting true
  | r => r

structure MailboxState (μ : Type*) where
  box : Mailbox μ
  reader : Reader
  delivered : List μ
  offered : List μ
  received : List μ
  ended : Bool

variable {μ : Type*}

def MailboxState.new (capacity : ℤ) (policy : OverflowPolicy) : MailboxState μ :=
  ⟨.new capacity policy,.idle,[],[],[],false⟩

inductive MailboxAction (μ : Type*)
  | deliver (msg : μ)
  | close
  | tryRecv
  | recv

inductive RecvResult (μ : Type*)
  | returned (msg : Option μ)
  | again
  | parked

/-- The event is cleared before the second look at the queue, and nothing can come between. -/
def recvPass (m : Mailbox μ) : RecvResult μ × Mailbox μ :=
  match m.queue with
  | msg :: _ => (.returned (some msg),m.pop)
  | [] =>
    if m.closed then (.returned none,m)
    else
      let cleared := { m with arrival := false }
      if !cleared.queue.isEmpty || cleared.closed then (.again,cleared) else (.parked,cleared)

def MailboxState.recv (s : MailboxState μ) : MailboxState μ :=
  match recvPass s.box with
  | (.returned (some msg),box) =>
    { s with box := box, reader := .idle, received := s.received ++ [msg] }
  | (.returned none,box) => { s with box := box, reader := .idle, ended := true }
  | (.again,box) => { s with box := box, reader := .looping }
  | (.parked,box) => { s with box := box, reader := .waiting box.arrival }

def MailboxState.deliver (s : MailboxState μ) (msg : μ) : MailboxState μ :=
  match s.box.deliver msg with
  | (.delivered,box) =>
    { s with box := box, reader := s.reader.wake, delivered := s.delivered ++ [msg],
             offered := s.offered ++ [msg] }
  | (.dropped,box) => { s with box := box, offered := s.offered ++ [msg] }
  | (.disconnect,box) => { s with box := box }

/-- `recv` runs from its call, or from the moment its future is resolved, to its return or to
its next suspension. -/
def mailboxStep (s : MailboxState μ) : MailboxAction μ → Option (MailboxState μ)
  | .deliver msg => some (s.deliver msg)
  | .close => some { s with box := s.box.close, reader := s.reader.wake }
  | .tryRecv =>
    match s.box.tryRecv with
    | (none,_) => some s
    | (some msg,box) => some { s with box := box, received := s.received ++ [msg] }
  | .recv =>
    match s.reader with
    | .waiting false => none
    | _ => some s.recv

def LatestSince (capacity : ℕ) (delivered received queue : List μ) : Prop :=
  ∃ earlier since, delivered = earlier ++ since ∧ received.Sublist earlier ∧
    received.getLast? = earlier.getLast? ∧ queue = since.drop (since.length-capacity)

structure Accounted (s : MailboxState μ) : Prop where
  order : (s.received ++ s.box.queue).Sublist s.delivered
  kept : s.box.policy ≠ .dropOldest → s.delivered = s.received ++ s.box.queue
  latest : s.box.policy = .dropOldest →
    LatestSince s.box.capacity s.delivered s.received s.box.queue
  shed : ∃ shed, s.offered.Perm (s.received ++ s.box.queue ++ shed) ∧ s.box.counted = shed.length
  parked : s.reader = .waiting false → s.box.queue = [] ∧ s.box.closed = false
  looping : s.reader ≠ .looping
  ended : s.ended = true → s.box.closed = true ∧ s.box.queue = []

theorem accounted_new (capacity : ℤ) (policy : OverflowPolicy) :
    Accounted (MailboxState.new capacity policy : MailboxState μ) where
  order := List.Sublist.refl _
  kept := fun _ => rfl
  latest := fun _ => ⟨[],[],rfl,List.Sublist.refl _,rfl,drop_nil.symm⟩
  shed := ⟨[],List.Perm.refl _,rfl⟩
  parked := fun h => nomatch h
  looping := fun h => nomatch h
  ended := fun h => nomatch h

theorem wake_ne_parked (r : Reader) : r.wake ≠ .waiting false := by
  cases r <;> simp [Reader.wake]

theorem wake_ne_looping {r : Reader} (h : r ≠ .looping) : r.wake ≠ .looping := by
  cases r with
  | idle => exact h
  | looping => exact h
  | waiting woken => simp [Reader.wake]

variable {queue : List μ} {s : MailboxState μ}

theorem latestSince_deliver {capacity : ℕ} (hpos : 1 ≤ capacity) {delivered received : List μ}
    (msg : μ) (h : LatestSince capacity delivered received queue) :
    LatestSince capacity (delivered ++ [msg]) received
      ((if capacity ≤ queue.length then queue.tail else queue) ++ [msg]) := by
  obtain ⟨earlier,since,hdelivered,hsub,hlast,rfl⟩ := h
  refine ⟨earlier,since ++ [msg],by rw [hdelivered, append_assoc],hsub,hlast,?_⟩
  rw [length_drop, length_append, length_singleton]
  split_ifs with hfull
  · rw [tail_drop, drop_append_of_le_length (by omega)]
    congr 2
    omega
  · have hzero : since.length+1-capacity = 0 := by omega
    have hzero' : since.length-capacity = 0 := by omega
    rw [hzero, hzero', drop_zero, drop_zero]

theorem latestSince_receive {capacity : ℕ} {delivered received : List μ} {msg : μ}
    (hbound : (msg :: queue).length ≤ capacity)
    (h : LatestSince capacity delivered received (msg :: queue)) :
    LatestSince capacity delivered (received ++ [msg]) queue := by
  obtain ⟨earlier,since,hdelivered,hsub,hlast,hqueue⟩ := h
  refine ⟨earlier ++ since.take (since.length-capacity) ++ [msg],queue,?_,?_,?_,?_⟩
  · rw [hdelivered]
    conv_lhs => rw [← take_append_drop (since.length-capacity) since, ← hqueue]
    simp
  · exact (hsub.trans (sublist_append_left _ _)).append (List.Sublist.refl _)
  · simp
  · have hzero : queue.length-capacity = 0 := by
      rw [length_cons] at hbound
      omega
    rw [hzero, drop_zero]

theorem perm_evict (received queue shed : List μ) (old msg : μ) :
    (received ++ old :: queue ++ shed ++ [msg]).Perm
      (received ++ (queue ++ [msg]) ++ old :: shed) := by
  have hshed : shed ++ [msg] ~ msg :: shed := perm_append_comm
  have hold : queue ++ [msg] ++ old :: shed ~ old :: (queue ++ [msg] ++ shed) := perm_middle
  calc (received ++ old :: queue ++ shed ++ [msg])
      = received ++ (old :: (queue ++ (shed ++ [msg]))) := by simp
    _ ~ received ++ (old :: (queue ++ (msg :: shed))) :=
        ((hshed.append_left queue).cons old).append_left received
    _ = received ++ (old :: (queue ++ [msg] ++ shed)) := by simp
    _ ~ received ++ (queue ++ [msg] ++ old :: shed) := hold.symm.append_left received
    _ = received ++ (queue ++ [msg]) ++ old :: shed := by simp

theorem perm_put (received queue shed : List μ) (msg : μ) :
    (received ++ queue ++ shed ++ [msg]).Perm (received ++ (queue ++ [msg]) ++ shed) := by
  calc (received ++ queue ++ shed ++ [msg]) = received ++ queue ++ (shed ++ [msg]) := by simp
    _ ~ received ++ queue ++ ([msg] ++ shed) := perm_append_comm.append_left _
    _ = received ++ (queue ++ [msg]) ++ shed := by simp

theorem accounted_deliver (msg : μ) (hinv : Accounted s) :
    Accounted (s.deliver msg) := by
  have hdelivery := s.box.deliver_delivery msg
  unfold MailboxState.deliver
  obtain ⟨shed,hperm,hcount⟩ := hinv.shed
  have hparked (p : Prop) (h : s.reader.wake = .waiting false) : p :=
    absurd h (wake_ne_parked s.reader)
  -- nobody can have seen the end of an open mailbox
  have hended (p : Prop) (hopen : s.box.closed = false) (h : s.ended = true) : p := by
    rw [(hinv.ended h).1] at hopen
    cases hopen
  generalize s.box.deliver msg = result at hdelivery ⊢
  obtain ⟨outcome,box⟩ := result
  cases hdelivery with
  | refused h => exact hinv
  | droppedNew hopen hpolicy hfull =>
    refine { hinv with shed := ⟨shed ++ [msg],?_,?_⟩ }
    · simpa using hperm.append_right [msg]
    · simpa using hcount
  | evicted hopen hpolicy old queue hqueue hfull box hcapacity hpolicy' hqueue' hcounted hclosed' =>
    dsimp only at hcapacity hpolicy' hqueue' hcounted
    have horder := hinv.order
    have hlatest := latestSince_deliver s.box.capacity_pos msg (hinv.latest hpolicy)
    rw [if_pos hfull] at hlatest
    rw [hqueue] at horder hperm hlatest
    refine {
      order := ?_
      kept := fun h => absurd (hpolicy'.trans hpolicy) h
      latest := fun _ => ?_
      shed := ⟨old :: shed,?_,?_⟩
      parked := fun h => hparked _ h
      looping := wake_ne_looping hinv.looping
      ended := fun h => hended _ hopen h }
    · have hdrop : (s.received ++ queue).Sublist s.delivered :=
        ((List.Sublist.refl _).append (sublist_cons_self old queue)).trans horder
      simpa [hqueue'] using hdrop.append (List.Sublist.refl [msg])
    · dsimp only
      rw [hcapacity, hqueue']
      exact hlatest
    · dsimp only
      rw [hqueue']
      exact (hperm.append_right [msg]).trans (perm_evict s.received queue shed old msg)
    · simp [hcounted, hcount]
  | queued hopen hroom box hcapacity hpolicy' hqueue' hcounted hclosed' =>
    dsimp only at hcapacity hpolicy' hqueue' hcounted
    refine {
      order := ?_
      kept := fun h => ?_
      latest := fun h => ?_
      shed := ⟨shed,?_,hcounted.trans hcount⟩
      parked := fun h => hparked _ h
      looping := wake_ne_looping hinv.looping
      ended := fun h => hended _ hopen h }
    · simpa [hqueue'] using hinv.order.append (List.Sublist.refl [msg])
    · simp [hqueue', hinv.kept (hpolicy' ▸ h)]
    · have hlatest := latestSince_deliver s.box.capacity_pos msg
        (hinv.latest (hpolicy'.symm.trans h))
      rw [if_neg hroom] at hlatest
      dsimp only
      rw [hcapacity, hqueue']
      exact hlatest
    · dsimp only
      rw [hqueue']
      exact (hperm.append_right [msg]).trans (perm_put s.received s.box.queue shed msg)

theorem accounted_pop {msg : μ} {reader : Reader}
    (hinv : Accounted s) (hqueue : s.box.queue = msg :: queue)
    (hparked : reader = .waiting false → s.reader = .waiting false) (hlooping : reader ≠ .looping) :
    Accounted { s with box := s.box.pop, reader := reader, received := s.received ++ [msg] } := by
  have hpop : s.box.pop.queue = queue := by simp [Mailbox.pop, hqueue]
  have hmoved : s.received ++ [msg] ++ s.box.pop.queue = s.received ++ s.box.queue := by
    rw [hpop, hqueue]
    simp
  obtain ⟨shed,hperm,hcount⟩ := hinv.shed
  refine {
    order := ?_
    kept := fun h => ?_
    latest := fun h => ?_
    shed := ⟨shed,?_,hcount⟩
    parked := fun h => ?_
    looping := hlooping
    ended := fun h => ?_ }
  · exact hmoved ▸ hinv.order
  · exact (hinv.kept h).trans hmoved.symm
  · have hlatest := hinv.latest h
    have hbound := s.box.bounded
    rw [hqueue] at hlatest hbound
    change LatestSince _ _ _ s.box.pop.queue
    rw [hpop]
    exact latestSince_receive hbound hlatest
  · change s.offered.Perm (s.received ++ [msg] ++ s.box.pop.queue ++ shed)
    rw [hmoved]
    exact hperm
  · have hempty := (hinv.parked (hparked h)).1
    rw [hqueue] at hempty
    cases hempty
  · have hempty := (hinv.ended h).2
    rw [hqueue] at hempty
    cases hempty

theorem recvPass_message {m : Mailbox μ} {msg : μ} (h : m.queue = msg :: queue) :
    recvPass m = (.returned (some msg),m.pop) := by
  unfold recvPass
  split
  · rename_i msg' queue' h'
    cases h.symm.trans h'
    rfl
  · rename_i h'
    cases h.symm.trans h'

theorem recvPass_closed {m : Mailbox μ} (h : m.queue = []) (hclosed : m.closed = true) :
    recvPass m = (.returned none,m) := by
  unfold recvPass
  split
  · rename_i h'
    cases h.symm.trans h'
  · rw [if_pos hclosed]

/-- The second look finds what the first has found, so that no pass ends in `continue`. -/
theorem recvPass_parked {m : Mailbox μ} (h : m.queue = []) (hclosed : m.closed = false) :
    recvPass m = (.parked,{ m with arrival := false }) := by
  unfold recvPass
  split
  · rename_i h'
    cases h.symm.trans h'
  · simp [hclosed, h]

theorem accounted_recv (hinv : Accounted s) : Accounted s.recv := by
  unfold MailboxState.recv
  cases hqueue : s.box.queue with
  | cons msg queue =>
    rw [recvPass_message hqueue]
    exact accounted_pop hinv hqueue (fun h => nomatch h) (fun h => nomatch h)
  | nil =>
    cases hclosed : s.box.closed with
    | true =>
      rw [recvPass_closed hqueue hclosed]
      exact { hinv with
        parked := fun h => nomatch h
        looping := fun h => nomatch h
        ended := fun _ => ⟨hclosed,hqueue⟩ }
    | false =>
      rw [recvPass_parked hqueue hclosed]
      refine { hinv with
        parked := fun _ => ⟨hqueue,hclosed⟩
        looping := fun h => nomatch h
        ended := fun h => ?_ }
      have hopen := (hinv.ended h).1
      rw [hclosed] at hopen
      cases hopen

theorem accounted_step {t : MailboxState μ} {a : MailboxAction μ} (hinv : Accounted s)
    (h : mailboxStep s a = some t) : Accounted t := by
  cases a with
  | deliver msg =>
    cases h
    exact accounted_deliver msg hinv
  | close =>
    cases h
    exact { hinv with
      parked := fun h => absurd h (wake_ne_parked s.reader)
      looping := wake_ne_looping hinv.looping
      ended := fun h => ⟨rfl,(hinv.ended h).2⟩ }
  | tryRecv =>
    simp only [mailboxStep, Mailbox.tryRecv] at h
    cases hqueue : s.box.queue with
    | nil =>
      rw [hqueue] at h
      cases h
      exact hinv
    | cons msg queue =>
      rw [hqueue] at h
      cases h
      exact accounted_pop hinv hqueue id hinv.looping
  | recv =>
    simp only [mailboxStep] at h
    split at h
    · cases h
    · cases h
      exact accounted_recv hinv

theorem mailboxStep_config {t : MailboxState μ} {a : MailboxAction μ}
    (h : mailboxStep s a = some t) :
    t.box.capacity = s.box.capacity ∧ t.box.policy = s.box.policy := by
  cases a with
  | deliver msg =>
    cases h
    have hdelivery := s.box.deliver_delivery msg
    unfold MailboxState.deliver
    generalize s.box.deliver msg = result at hdelivery ⊢
    obtain ⟨outcome,box⟩ := result
    cases hdelivery with
    | refused _ => exact ⟨rfl,rfl⟩
    | droppedNew _ _ _ => exact ⟨rfl,rfl⟩
    | evicted _ _ _ _ _ _ _ hcapacity hpolicy' _ _ _ | queued _ _ _ hcapacity hpolicy' _ _ _ =>
      exact ⟨hcapacity,hpolicy'⟩
  | close =>
    cases h
    exact ⟨rfl,rfl⟩
  | tryRecv =>
    simp only [mailboxStep, Mailbox.tryRecv] at h
    cases hqueue : s.box.queue with
    | nil | cons msg queue =>
      rw [hqueue] at h
      cases h
      exact ⟨rfl,rfl⟩
  | recv =>
    simp only [mailboxStep] at h
    split at h
    · cases h
    · cases h
      unfold MailboxState.recv
      cases hqueue : s.box.queue with
      | cons msg queue =>
        rw [recvPass_message hqueue]
        exact ⟨rfl,rfl⟩
      | nil =>
        cases hclosed : s.box.closed with
        | true =>
          rw [recvPass_closed hqueue hclosed]
          exact ⟨rfl,rfl⟩
        | false =>
          rw [recvPass_parked hqueue hclosed]
          exact ⟨rfl,rfl⟩

/-- In every run: the queue is bounded, what was received was delivered in that order, each policy
keeps what it promises, the counter counts what was shed, and the reader is parked only on an open
and empty mailbox. -/
theorem mailbox_semantics (capacity : ℤ) (policy : OverflowPolicy) (s : MailboxState μ)
    (hs : Reachable (fun s => s = .new capacity policy) mailboxStep anyStep s) :
    (s.box.queue.length : ℤ) ≤ max 1 capacity ∧
    s.received.Sublist s.delivered ∧
    (policy = .dropNewest → s.delivered = s.received ++ s.box.queue) ∧
    (policy = .dropOldest →
      LatestSince (max 1 capacity).toNat s.delivered s.received s.box.queue) ∧
    (∃ shed, s.offered ~ s.received ++ s.box.queue ++ shed ∧ s.box.counted = shed.length) ∧
    (s.reader = .waiting false → s.box.queue = [] ∧ s.box.closed = false) ∧
    (s.ended = true → s.box.closed = true ∧ s.box.queue = []) := by
  have hinv : Accounted s ∧ s.box.capacity = (max 1 capacity).toNat ∧ s.box.policy = policy := by
    apply reachable_invariant _ ?_ ?_ s hs
    · rintro u rfl
      exact ⟨accounted_new capacity policy,rfl,rfl⟩
    · rintro u v a ⟨hu,hcapacity,hpolicy⟩ _ hstep
      obtain ⟨hcapacity',hpolicy'⟩ := mailboxStep_config hstep
      exact ⟨accounted_step hu hstep,hcapacity'.trans hcapacity,hpolicy'.trans hpolicy⟩
  obtain ⟨hinv,hcapacity,hpolicy⟩ := hinv
  refine ⟨?_,?_,?_,?_,hinv.shed,hinv.parked,hinv.ended⟩
  · have hbound := s.box.bounded
    rw [hcapacity] at hbound
    omega
  · exact (sublist_append_left _ _).trans hinv.order
  · intro h
    apply hinv.kept
    rw [hpolicy, h]
    decide
  · intro h
    rw [← hcapacity]
    exact hinv.latest (hpolicy.trans h)

/-- One message is evicted, another one received, and then the reader waits. -/
theorem mailbox_semantics_pair : ∃ s : MailboxState ℕ,
    Reachable (fun s => s = .new 2 .dropOldest) mailboxStep anyStep s ∧
    s.delivered = [1, 2, 3] ∧ s.received = [2, 3] ∧ s.box.counted = 1 ∧
    s.reader = .waiting false ∧ s.box.queue = [] ∧ s.box.closed = false := by
  obtain ⟨s,hs,hdelivered,hreceived,hcounted,hreader⟩ := reachable_of_run
    (fun s => s = .new 2 .dropOldest) mailboxStep
    (P := fun s => s.delivered = [1, 2, 3] ∧ s.received = [2, 3] ∧ s.box.counted = 1 ∧
      s.reader = .waiting false)
    [.deliver 1, .deliver 2, .deliver 3, .recv, .tryRecv, .recv] (.new 2 .dropOldest) rfl
    (by decide +kernel)
  obtain ⟨_,_,_,_,_,hparked,_⟩ := mailbox_semantics 2 .dropOldest s hs
  exact ⟨s,hs,hdelivered,hreceived,hcounted,hreader,hparked hreader⟩

def unreceived (delivered received : List ℕ) : List ℕ :=
  delivered.filter (fun msg => !received.contains msg)

/-- After an eviction and a receipt one message of two is held, though two would fit. -/
theorem mailbox_not_latest_unreceived : ∃ s : MailboxState ℕ,
    Reachable (fun s => s = .new 2 .dropOldest) mailboxStep anyStep s ∧
    unreceived s.delivered s.received = [1, 3] ∧ s.box.queue = [3] :=
  reachable_of_run _ _ [.deliver 1, .deliver 2, .deliver 3, .recv] (.new 2 .dropOldest) rfl
    (by decide +kernel)

end BackendGauntlet.Pubsub
