import Mathlib.Data.List.Basic
import Mathlib.Logic.Function.Iterate

/-! `RespServer.close`, tick by tick, over the connections that are open when it is called. -/
namespace BackendGauntlet.LsmRedis

open List

/-- A connection with its task. A busy one may have lost its transport to a reset by the peer, while
the task is still in `_connections`. -/
inductive Connection
  | idle
  | busy (left : ℕ) (reset : Bool)
  | closed
deriving DecidableEq

/-- A handler leaves its loop after the batch it is in, since `_closing` is set. -/
def Connection.tick : Connection → Connection
  | .idle => .idle
  | .busy 0 _ => .closed
  | .busy (left+1) reset => .busy left reset
  | .closed => .closed

def Connection.transportOpen : Connection → Bool
  | .idle => true
  | .busy _ reset => !reset
  | .closed => false

inductive ClosePhase
  | waitClosed
  | drain (deadline : ℕ)
  | returned
deriving DecidableEq

structure Closing where
  phase : ClosePhase
  now : ℕ
  connections : List Connection
  cancelled : List Connection
deriving DecidableEq

def allClosed (connections : List Connection) : Bool :=
  connections.all (fun c => c = .closed)

def Closing.cancel (s : Closing) (p : Connection → Bool) : Closing :=
  { s with
    connections := s.connections.map (fun c => if p c then .closed else c)
    cancelled := s.cancelled ++ s.connections.filter p }

/-- `asyncio.wait` with the budget, and what comes after it. -/
def Closing.drained (s : Closing) (deadline : ℕ) : Closing :=
  if allClosed s.connections || decide (deadline ≤ s.now) then
    { s.cancel (fun c => c ≠ .closed) with phase := .returned }
  else { s with phase := .drain deadline }

/-- `close` as far as it gets at this instant. -/
def Closing.resume (drainTimeout : ℕ) (s : Closing) : Closing :=
  match s.phase with
  | .waitClosed =>
    if s.connections.any Connection.transportOpen then s
    else if allClosed s.connections then { s with phase := .returned }
    else (s.cancel (fun c => c = .idle)).drained (s.now+drainTimeout)
  | .drain deadline => s.drained deadline
  | .returned => s

def closeAfter (drainTimeout : ℕ) (connections : List Connection) : ℕ → Closing
  | 0 => Closing.resume drainTimeout ⟨.waitClosed,0,connections,[]⟩
  | n+1 =>
    let s := closeAfter drainTimeout connections n
    Closing.resume drainTimeout
      { s with now := s.now+1, connections := s.connections.map Connection.tick }

/-- What `close` promises: it returns within the budget, cancels idle connections at once, and busy
ones only when the budget is used up. -/
structure ClosesGracefully (drainTimeout : ℕ) (connections : List Connection) : Prop where
  returns : (closeAfter drainTimeout connections drainTimeout).phase = .returned
  idle : .idle ∉ (closeAfter drainTimeout connections 0).connections
  busy : ∀ n < drainTimeout, ∀ c ∈ (closeAfter drainTimeout connections n).cancelled, c = .idle

def Connection.endsWithin (n : ℕ) : Connection → Bool
  | .idle => false
  | .busy left _ => left < n
  | .closed => true

theorem tick_iterate_eq_closed_iff (n : ℕ) (c : Connection) :
    Connection.tick^[n] c = .closed ↔ c.endsWithin n = true := by
  induction n generalizing c with
  | zero => cases c <;> simp [Connection.endsWithin]
  | succ n ih =>
    rw [Function.iterate_succ_apply, ih]
    cases c with
    | idle | closed => simp [Connection.tick, Connection.endsWithin]
    | busy left reset => cases left <;> simp [Connection.tick, Connection.endsWithin]

section
variable {connections : List Connection}

theorem allClosed_iff : allClosed connections = true ↔ ∀ c ∈ connections, c = .closed := by
  simp [allClosed]

theorem allClosed_tick (h : allClosed connections = true) :
    allClosed (connections.map Connection.tick) = true := by
  rw [allClosed_iff] at h ⊢
  intro c hc
  obtain ⟨x,hx,rfl⟩ := List.mem_map.mp hc
  rw [h x hx]
  rfl

theorem not_open_tick (h : connections.any Connection.transportOpen = false) :
    (connections.map Connection.tick).any Connection.transportOpen = false := by
  rw [any_eq_false] at h ⊢
  intro c hc
  obtain ⟨x,hx,rfl⟩ := List.mem_map.mp hc
  have hclosed := h x hx
  cases x with
  | idle => exact hclosed
  | busy left reset =>
    cases left with
    | zero => simp [Connection.tick, Connection.transportOpen]
    | succ left => exact hclosed
  | closed => simp [Connection.tick, Connection.transportOpen]

theorem not_open_iterate (n : ℕ) (h : connections.any Connection.transportOpen = false) :
    (connections.map Connection.tick^[n]).any Connection.transportOpen = false := by
  induction n with
  | zero => simpa using h
  | succ n ih =>
    rw [Function.iterate_succ', ← map_map]
    exact not_open_tick ih

theorem cancel_none {s : Closing} {p : Connection → Bool} (h : ∀ c ∈ s.connections, p c = false) :
    s.cancel p = s := by
  have hnone : s.connections.filter p = [] := filter_eq_nil_iff.mpr (by simpa using h)
  have hsame : s.connections.map (fun c => if p c then .closed else c) = s.connections := by
    conv_rhs => rw [← map_id s.connections]
    apply map_congr_left
    intro c hc
    simp [h c hc]
  unfold Closing.cancel
  rw [hnone, hsame, append_nil]

/-- Without an open transport no connection is idle, so there is none to cancel at once. -/
theorem cancel_idle {s : Closing} (h : s.connections.any Connection.transportOpen = false) :
    s.cancel (fun c => c = .idle) = s := by
  apply cancel_none
  intro c hc
  rw [decide_eq_false_iff_not]
  rintro rfl
  exact any_eq_false.mp h .idle hc rfl

end

/-- Where `close` is after `n` ticks, while the budget is not used up. The listener is waited for
first, so the budget starts late if a transport was open. -/
structure Progress (drainTimeout : ℕ) (connections : List Connection) (n : ℕ) (s : Closing) :
    Prop where
  now : s.now = n
  ticked : s.connections = connections.map Connection.tick^[n]
  cancelled : s.cancelled = []
  waiting : s.phase = .waitClosed → s.connections.any Connection.transportOpen = true
  draining : ∀ deadline, s.phase = .drain deadline →
    s.connections.any Connection.transportOpen = false ∧ allClosed s.connections = false ∧
      if connections.any Connection.transportOpen then drainTimeout < deadline
      else deadline = drainTimeout
  returned : s.phase = .returned → allClosed s.connections = true

section
variable {drainTimeout : ℕ} {connections : List Connection}

theorem progress_resume {n : ℕ} {s : Closing} (hnow : s.now = n)
    (hticked : s.connections = connections.map Connection.tick^[n]) (hcancelled : s.cancelled = [])
    (hwaiting : s.phase = .waitClosed → n = 0 ∨ connections.any Connection.transportOpen = true)
    (hdraining : ∀ deadline, s.phase = .drain deadline →
      s.connections.any Connection.transportOpen = false ∧
        if connections.any Connection.transportOpen then drainTimeout < deadline
        else deadline = drainTimeout)
    (hreturned : s.phase = .returned → allClosed s.connections = true)
    (hn : n < drainTimeout ∨ n ≤ drainTimeout ∧ connections.any Connection.transportOpen = true) :
    Progress drainTimeout connections n (s.resume drainTimeout) := by
  obtain ⟨phase,now,conns,cancelled⟩ := s
  simp only at hnow hcancelled hticked hwaiting hdraining hreturned
  subst hnow hcancelled
  cases phase with
  | returned => exact ⟨rfl,hticked,rfl,nofun,nofun,fun _ => hreturned rfl⟩
  | waitClosed =>
    cases hopen : conns.any Connection.transportOpen with
    | true =>
      simp only [Closing.resume, hopen, if_true]
      exact ⟨rfl,hticked,rfl,fun _ => hopen,nofun,nofun⟩
    | false =>
      cases hall : allClosed conns with
      | true =>
        simp only [Closing.resume, hopen, hall, if_true, Bool.false_eq_true, if_false]
        exact ⟨rfl,hticked,rfl,nofun,nofun,fun _ => hall⟩
      | false =>
        -- at the start no transport is open only if none was
        have hstart : now = 0 → connections.any Connection.transportOpen = false := by
          rintro rfl
          simpa [hticked] using hopen
        have hlate : ¬ now+drainTimeout ≤ now := by
          rcases hn with hn | ⟨hn,hwas⟩
          · omega
          · have hpos : now ≠ 0 := fun h => by simp [hstart h] at hwas
            omega
        have hkeep : (⟨.waitClosed,now,conns,[]⟩ : Closing).cancel (fun c => c = .idle) =
            ⟨.waitClosed,now,conns,[]⟩ := cancel_idle hopen
        simp only [Closing.resume, hopen, hall, Bool.false_eq_true, if_false,
          hkeep, Closing.drained, hlate, decide_false, Bool.or_self]
        refine ⟨rfl,hticked,rfl,nofun,?_,nofun⟩
        intro deadline hd
        cases hd
        refine ⟨hopen,hall,?_⟩
        split_ifs with hwas
        · have hpos : now ≠ 0 := fun h => by simp [hstart h] at hwas
          omega
        · have hzero := (hwaiting rfl).resolve_right hwas
          omega
  | drain deadline =>
    obtain ⟨hopen,hdeadline⟩ := hdraining deadline rfl
    have hlate : ¬ deadline ≤ now := by
      split_ifs at hdeadline with hwas
      · rcases hn with hn | ⟨hn,_⟩ <;> omega
      · rcases hn with hn | ⟨_,hn⟩
        · omega
        · exact absurd hn hwas
    cases hall : allClosed conns with
    | true =>
      have hnone : (⟨.drain deadline,now,conns,[]⟩ : Closing).cancel (fun c => c ≠ .closed) =
          ⟨.drain deadline,now,conns,[]⟩ := by
        apply cancel_none
        intro c hc
        simpa using allClosed_iff.mp hall c hc
      simp only [Closing.resume, Closing.drained, hall, Bool.true_or, if_true, hnone]
      exact ⟨rfl,hticked,rfl,nofun,nofun,fun _ => hall⟩
    | false =>
      simp only [Closing.resume, Closing.drained, hall, hlate, decide_false, Bool.or_self,
        Bool.false_eq_true, if_false]
      refine ⟨rfl,hticked,rfl,nofun,?_,nofun⟩
      intro d hd
      cases hd
      exact ⟨hopen,hall,hdeadline⟩

theorem progress_closeAfter (n : ℕ)
    (hn : n < drainTimeout ∨ n ≤ drainTimeout ∧ connections.any Connection.transportOpen = true) :
    Progress drainTimeout connections n (closeAfter drainTimeout connections n) := by
  induction n with
  | zero =>
    unfold closeAfter
    apply progress_resume
    · rfl
    · simp
    · rfl
    · exact fun _ => Or.inl rfl
    · nofun
    · nofun
    · exact hn
  | succ n ih =>
    have h := ih (by omega)
    unfold closeAfter
    apply progress_resume
    · exact congrArg (·+1) h.now
    · simp only [h.ticked, map_map, ← Function.iterate_succ']
    · exact h.cancelled
    · intro hp
      refine Or.inr ?_
      by_contra hwas
      have hopen := h.waiting hp
      rw [h.ticked, not_open_iterate n (Bool.eq_false_iff.mpr hwas)] at hopen
      cases hopen
    · intro deadline hp
      obtain ⟨hopen,_,hdeadline⟩ := h.draining deadline hp
      exact ⟨not_open_tick hopen,hdeadline⟩
    · exact fun hp => allClosed_tick (h.returned hp)
    · exact hn

/-- Once every transport is gone, the budget is all that `close` still waits for. -/
theorem returned_of_not_open (h : connections.any Connection.transportOpen = false) :
    (closeAfter drainTimeout connections drainTimeout).phase = .returned := by
  cases drainTimeout with
  | zero =>
    cases hall : allClosed connections <;>
      simp [closeAfter, Closing.resume, h, hall, Closing.drained, Closing.cancel]
  | succ m =>
    have hp : Progress (m+1) connections m (closeAfter (m+1) connections m) :=
      progress_closeAfter m (Or.inl m.lt_succ_self)
    rw [closeAfter]
    cases hphase : (closeAfter (m+1) connections m).phase with
    | waitClosed =>
      have hopen := hp.waiting hphase
      rw [hp.ticked, not_open_iterate m h] at hopen
      cases hopen
    | returned => simp only [Closing.resume]
    | drain deadline =>
      obtain ⟨-,-,hdeadline⟩ := hp.draining deadline hphase
      simp only [h, Bool.false_eq_true, if_false] at hdeadline
      simp [Closing.resume, Closing.drained, hdeadline, hp.now]

theorem idle_not_mem_cancel {s : Closing} {p : Connection → Bool} (h : .idle ∉ s.connections) :
    .idle ∉ (s.cancel p).connections := by
  intro hc
  obtain ⟨x,hx,hxe⟩ := List.mem_map.mp hc
  split_ifs at hxe
  exact h (hxe ▸ hx)

theorem idle_not_mem_resume {s : Closing} (h : .idle ∉ s.connections) :
    .idle ∉ (s.resume drainTimeout).connections := by
  have hdrained {s' : Closing} (h' : .idle ∉ s'.connections) (deadline : ℕ) :
      .idle ∉ (s'.drained deadline).connections := by
    unfold Closing.drained
    split_ifs
    · exact idle_not_mem_cancel h'
    · exact h'
  unfold Closing.resume
  split
  · split_ifs
    · exact h
    · exact h
    · exact hdrained (idle_not_mem_cancel h) _
  · exact hdrained h _
  · exact h

theorem allClosed_iterate_iff (n : ℕ) :
    allClosed (connections.map Connection.tick^[n]) = true ↔
      ∀ c ∈ connections, c.endsWithin n = true := by
  simp [allClosed_iff, tick_iterate_eq_closed_iff]

/-- `close` keeps its promise exactly if no connection is idle and each busy one ends within the
budget, or has lost its transport with all the others: `wait_closed` waits for every transport
before the idle ones are cancelled and the budget starts. -/
theorem closes_gracefully_iff (drainTimeout : ℕ) (connections : List Connection) :
    ClosesGracefully drainTimeout connections ↔
      .idle ∉ connections ∧
        ((∀ left reset, .busy left reset ∈ connections → left < drainTimeout) ∨
          ∀ left, .busy left false ∉ connections) := by
  cases hopen : connections.any Connection.transportOpen with
  | true =>
    have hlast := progress_closeAfter drainTimeout (Or.inr ⟨Nat.le_refl _,hopen⟩)
    constructor
    · intro h
      have hall := hlast.returned h.returns
      rw [hlast.ticked, allClosed_iterate_iff] at hall
      exact ⟨fun hi => by simpa [Connection.endsWithin] using hall _ hi,
        Or.inl (fun left reset hb => by simpa [Connection.endsWithin] using hall _ hb)⟩
    · rintro ⟨hidle,hbusy⟩
      -- some transport is open, and not that of an idle connection
      have hends : ∀ left reset, .busy left reset ∈ connections → left < drainTimeout := by
        refine hbusy.resolve_right (fun hreset => ?_)
        obtain ⟨c,hc,hco⟩ := any_eq_true.mp hopen
        cases c with
        | idle => exact hidle hc
        | busy left reset => cases reset <;> simp_all [Connection.transportOpen]
        | closed => cases hco
      have hall : allClosed (closeAfter drainTimeout connections drainTimeout).connections =
          true := by
        rw [hlast.ticked, allClosed_iterate_iff]
        intro c hc
        cases c with
        | idle => exact absurd hc hidle
        | busy left reset => simpa [Connection.endsWithin] using hends left reset hc
        | closed => rfl
      refine ⟨?_,idle_not_mem_resume hidle,?_⟩
      · cases hphase : (closeAfter drainTimeout connections drainTimeout).phase with
        | waitClosed =>
          obtain ⟨c,hc,hco⟩ := any_eq_true.mp (hlast.waiting hphase)
          rw [allClosed_iff.mp hall c hc] at hco
          cases hco
        | drain deadline =>
          rw [(hlast.draining deadline hphase).2.1] at hall
          cases hall
        | returned => rfl
      · intro n hn c hc
        rw [(progress_closeAfter n (Or.inl hn)).cancelled] at hc
        cases hc
  | false =>
    have hidle : .idle ∉ connections := fun h => any_eq_false.mp hopen _ h rfl
    refine iff_of_true ⟨returned_of_not_open hopen,idle_not_mem_resume hidle,?_⟩ ⟨hidle,Or.inr ?_⟩
    · intro n hn c hc
      rw [(progress_closeAfter n (Or.inl hn)).cancelled] at hc
      cases hc
    · exact fun left h => any_eq_false.mp hopen _ h rfl

end

/-- An idle client keeps `close` waiting for as long as it is silent, and nobody cancels it; with a
busy one the budget of 5 is long over. -/
theorem close_waits_for_silent_client :
    ¬ ClosesGracefully 5 [.idle] ∧
    (∀ n, closeAfter 5 [.idle] n = ⟨.waitClosed,n,[.idle],[]⟩) ∧
    ¬ ClosesGracefully 5 [.busy 60 false] ∧
    closeAfter 5 [.busy 60 false] 50 = ⟨.waitClosed,50,[.busy 10 false],[]⟩ := by
  refine ⟨fun h => absurd h.returns (by decide),fun n => ?_,
    fun h => absurd h.returns (by decide),by decide +kernel⟩
  induction n with
  | zero => rfl
  | succ n ih => simp [closeAfter, ih, Connection.tick, Closing.resume, Connection.transportOpen]

end BackendGauntlet.LsmRedis
