import BackendGauntlet.Dict
import BackendGauntlet.Transition

/-! A shared cell behind one lock: the calls look as if they had run one after another. -/
namespace BackendGauntlet.LockedCell

open List Option Dict

variable {σ α ε ρ : Type*}

structure Ops (σ α ε ρ : Type*) where
  apply : α → σ → Except ε (σ × ρ)
  blind : α → Option (σ × ρ)
  blind_apply : ∀ a r, blind a = some r → ∀ c, apply a c = .ok r

def Ops.after (ops : Ops σ α ε ρ) (a : α) (c : σ) : σ :=
  match ops.apply a c with
  | .ok r => r.1
  | .error _ => c

def Ops.result (ops : Ops σ α ε ρ) (a : α) (c : σ) : Except ε ρ := (ops.apply a c).map Prod.snd

def Ops.runAll (ops : Ops σ α ε ρ) (c : σ) (calls : List α) : σ :=
  calls.foldl (fun c a => ops.after a c) c

theorem Ops.runAll_concat (ops : Ops σ α ε ρ) (c : σ) (calls : List α) (a : α) :
    ops.runAll c (calls ++ [a]) = ops.after a (ops.runAll c calls) := by
  simp [Ops.runAll]

inductive Stage (σ ε ρ : Type*)
  | invoked
  | locked
  | read (current : σ)
  | checked (next : σ) (value : ρ)
  | finished (result : Except ε ρ)
  | returned (result : Except ε ρ)

def Stage.holds : Stage σ ε ρ → Bool
  | .invoked => false
  | .returned _ => false
  | _ => true

def Stage.result : Stage σ ε ρ → Option (Except ε ρ)
  | .finished r => some r
  | .returned r => some r
  | _ => none

structure Call (σ α ε ρ : Type*) where
  call : α
  stage : Stage σ ε ρ
  invokedAt : ℕ
  returnedAt : Option ℕ

/-- The cell, its lock and the calls so far; `effects` lists the calls in the order in
which they took effect. -/
structure State (σ α ε ρ : Type*) where
  cell : σ
  holder : Option ℕ
  calls : Dict ℕ (Call σ α ε ρ)
  clock : ℕ
  effects : List (ℕ × α)

inductive Action (α : Type*)
  | invoke (i : ℕ) (a : α)
  | step (i : ℕ)

def State.advance (s : State σ α ε ρ) (i : ℕ) (c : Call σ α ε ρ) (stage : Stage σ ε ρ) :
    State σ α ε ρ :=
  { s with calls := s.calls.set i { c with stage := stage }, clock := s.clock+1 }

def State.effect (s : State σ α ε ρ) (i : ℕ) (c : Call σ α ε ρ) (cell : σ)
    (result : Except ε ρ) : State σ α ε ρ :=
  { s.advance i c (.finished result) with
    cell := cell
    effects := s.effects ++ [(i,c.call)] }

def callStep (ops : Ops σ α ε ρ) (s : State σ α ε ρ) (i : ℕ) (c : Call σ α ε ρ) :
    Option (State σ α ε ρ) :=
  match c.stage with
  | .invoked =>
    if s.holder = none then some { s.advance i c .locked with holder := some i } else none
  | .locked =>
    match ops.blind c.call with
    | some r => some (s.advance i c (.checked r.1 r.2))
    | none => some (s.advance i c (.read s.cell))
  | .read current =>
    match ops.apply c.call current with
    | .error e => some (s.effect i c s.cell (.error e))
    | .ok r => some (s.advance i c (.checked r.1 r.2))
  | .checked next value => some (s.effect i c next (.ok value))
  | .finished result =>
    some { s with
      holder := none
      calls := s.calls.set i { c with stage := .returned result, returnedAt := some s.clock }
      clock := s.clock+1 }
  | .returned _ => none

def step (ops : Ops σ α ε ρ) (s : State σ α ε ρ) : Action α → Option (State σ α ε ρ)
  | .invoke i a =>
    if s.calls.contains i then none
    else some { s with
      calls := s.calls.set i ⟨a,.invoked,s.clock,none⟩
      clock := s.clock+1 }
  | .step i => (s.calls.get i).bind (callStep ops s i)

def start (cell : σ) : State σ α ε ρ := ⟨cell,none,Dict.empty,0,[]⟩

/-- The calls that have taken effect, in one order that respects real time, run one at a time from
`cell0` to the present cell with the results they have. -/
structure Linearizes (ops : Ops σ α ε ρ) (cell0 : σ) (s : State σ α ε ρ) (order : List (ℕ × α)) :
    Prop where
  nodup : (order.map Prod.fst).Nodup
  complete : ∀ i c, s.calls.get i = some c → (c.stage.result.isSome = true ↔ (i,c.call) ∈ order)
  known : ∀ e ∈ order, ∃ c, s.calls.get e.1 = some c ∧ c.call = e.2
  cell : s.cell = ops.runAll cell0 (order.map Prod.snd)
  results : ∀ before e after, order = before ++ e :: after → ∀ c, s.calls.get e.1 = some c →
    c.stage.result = some (ops.result e.2 (ops.runAll cell0 (before.map Prod.snd)))
  realTime : ∀ i j ci cj t, s.calls.get i = some ci → s.calls.get j = some cj →
    ci.returnedAt = some t → t < cj.invokedAt → (j,cj.call) ∈ order →
    [(i,ci.call), (j,cj.call)].Sublist order

def Remembers (ops : Ops σ α ε ρ) (a : α) (cell : σ) : Stage σ ε ρ → Prop
  | .read current => current = cell
  | .checked next value => ops.apply a cell = .ok (next,value)
  | _ => True

structure Inv (ops : Ops σ α ε ρ) (cell0 : σ) (s : State σ α ε ρ) : Prop where
  lin : Linearizes ops cell0 s s.effects
  lock : ∀ i c, s.calls.get i = some c → c.stage.holds = true → s.holder = some i
  remembers : ∀ i c, s.calls.get i = some c → Remembers ops c.call s.cell c.stage
  invoked : ∀ i c, s.calls.get i = some c → c.invokedAt < s.clock
  returned : ∀ i c, s.calls.get i = some c → ∀ t, c.returnedAt = some t →
    c.stage.result.isSome = true

variable {i : ℕ} {c : Call σ α ε ρ}

section
variable (ops : Ops σ α ε ρ) (cell0 : σ) (s : State σ α ε ρ) (hI : Inv ops cell0 s)

include hI

theorem not_mem_effects (hc : s.calls.get i = some c)
    (h0 : c.stage.result = none) (a : α) : (i,a) ∉ s.effects := by
  intro ha
  obtain ⟨y,hy,hcall⟩ := hI.lin.known _ ha
  cases hc.symm.trans hy
  have hsome := (hI.lin.complete i c hc).mpr (by rw [hcall]; exact ha)
  rw [h0] at hsome
  cases hsome

theorem invoked_set (hc : c.invokedAt ≤ s.clock) :
    ∀ j x, (s.calls.set i c).get j = some x → x.invokedAt < s.clock+1 := by
  apply forall_get_set
  · intro j x hx
    exact Nat.lt_succ_of_lt (hI.invoked j x hx)
  · exact Nat.lt_succ_of_le hc

section
variable (i : ℕ) (c c' : Call σ α ε ρ) (hc : s.calls.get i = some c) (hcall : c'.call = c.call)
include hc hcall

theorem known_set (e : ℕ × α) (he : e ∈ s.effects) :
    ∃ x, (s.calls.set i c').get e.1 = some x ∧ x.call = e.2 := by
  obtain ⟨x,hx,hxcall⟩ := hI.lin.known e he
  by_cases hei : e.1 = i
  · rw [hei] at hx ⊢
    cases hc.symm.trans hx
    exact ⟨c',get_set_self,hcall.trans hxcall⟩
  · exact ⟨x,(get_set_ne hei).trans hx,hxcall⟩

variable (hinvoked : c'.invokedAt = c.invokedAt)
  (hreturned : c'.returnedAt = c.returnedAt ∨ c'.returnedAt = some s.clock)
include hinvoked hreturned

omit hI in
theorem get_set_call : ∀ j x, (s.calls.set i c').get j = some x →
    ∃ y, s.calls.get j = some y ∧ y.call = x.call ∧ y.invokedAt = x.invokedAt ∧
      (y.returnedAt = x.returnedAt ∨ x.returnedAt = some s.clock) := by
  apply forall_get_set
  · intro j x hx
    exact ⟨x,hx,rfl,rfl,Or.inl rfl⟩
  · exact ⟨c,hc,hcall.symm,hinvoked.symm,hreturned.imp_left Eq.symm⟩

theorem realTime_set (a b : ℕ) (ca cb : Call σ α ε ρ) (t : ℕ)
    (ha : (s.calls.set i c').get a = some ca) (hb : (s.calls.set i c').get b = some cb)
    (ht : ca.returnedAt = some t) (hlt : t < cb.invokedAt) (hmem : (b,cb.call) ∈ s.effects) :
    [(a,ca.call), (b,cb.call)].Sublist s.effects := by
  have hback := get_set_call s i c c' hc hcall hinvoked hreturned
  obtain ⟨ya,hya,hca,_,hra⟩ := hback a ca ha
  obtain ⟨yb,hyb,hcb,hib,_⟩ := hback b cb hb
  rw [← hca, ← hcb]
  rw [← hcb] at hmem
  rcases hra with hra | hra
  · exact hI.lin.realTime a b ya yb t hya hyb (hra.trans ht) (hib ▸ hlt) hmem
  · -- nothing was invoked after the present moment
    exfalso
    have hnow : t = s.clock := some.inj (ht.symm.trans hra)
    have hpast := hI.invoked b yb hyb
    omega

end

theorem inv_advance (stage : Stage σ ε ρ) (holder : Option ℕ)
    (hc : s.calls.get i = some c) (h0 : c.stage.result = none) (h1 : stage.result = none)
    (hr : Remembers ops c.call s.cell stage) (hi : stage.holds = true → holder = some i)
    (hother : ∀ j, j ≠ i → s.holder = some j → holder = some j) :
    Inv ops cell0 { s.advance i c stage with holder := holder } where
  lin := {
    nodup := hI.lin.nodup
    complete := by
      apply forall_get_set hI.lin.complete
      have hno := hI.lin.complete i c hc
      rw [h0] at hno
      simpa [h1] using hno
    known := known_set ops cell0 s hI i c _ hc rfl
    cell := hI.lin.cell
    results := by
      intro before e after he x hx
      change s.effects = before ++ e :: after at he
      -- the stepping call has no result, so it is not among the effects
      have hei : e.1 ≠ i := by
        intro hei
        apply not_mem_effects ops cell0 s hI hc h0 e.2
        rw [← hei, he]
        simp
      exact hI.lin.results before e after he x ((get_set_ne hei).symm.trans hx)
    realTime := realTime_set ops cell0 s hI i c _ hc rfl rfl (Or.inl rfl) }
  lock := by
    apply forall_get_set_ne
    · intro j x hj hx hh
      exact hother j hj (hI.lock j x hx hh)
    · exact hi
  remembers := forall_get_set hI.remembers hr
  invoked := invoked_set ops cell0 s hI (Nat.le_of_lt (hI.invoked i c hc))
  returned := by
    apply forall_get_set hI.returned
    intro t ht
    have := hI.returned i c hc t ht
    rw [h0] at this
    cases this

theorem inv_effect {cell : σ} {result : Except ε ρ}
    (hc : s.calls.get i = some c) (hh : c.stage.holds = true) (h0 : c.stage.result = none)
    (hcell : cell = ops.after c.call s.cell) (hres : result = ops.result c.call s.cell) :
    Inv ops cell0 (s.effect i c cell result) := by
  have hnew := not_mem_effects ops cell0 s hI hc h0
  have hother : ∀ j x, j ≠ i → s.calls.get j = some x → x.stage.holds = false := by
    intro j x hj hx
    by_contra hn
    have h1 := hI.lock j x hx (by simpa using hn)
    have h2 := hI.lock i c hc hh
    exact hj (some.inj (h1.symm.trans h2))
  refine
    { lin := { nodup := ?_, complete := ?_, known := ?_, cell := ?_, results := ?_, realTime := ?_ }
      lock := ?_, remembers := ?_, invoked := ?_, returned := ?_ }
  · -- nodup
    simp only [State.effect, map_append, map_cons, map_nil]
    apply hI.lin.nodup.append (nodup_singleton _)
    rw [disjoint_singleton]
    intro hm
    obtain ⟨e,he,hei⟩ := List.mem_map.mp hm
    exact hnew e.2 (hei ▸ he)
  · -- complete
    apply forall_get_set_ne
    · intro j x hj hx
      rw [hI.lin.complete j x hx]
      simp [State.effect, hj]
    · simp [State.effect, Stage.result]
  · -- known
    intro e he
    simp only [State.effect, mem_append, mem_singleton] at he
    rcases he with he | rfl
    · exact known_set ops cell0 s hI i c { c with stage := .finished result } hc rfl e he
    · exact ⟨_,get_set_self,rfl⟩
  · -- cell
    simp only [State.effect, map_append, map_cons, map_nil]
    rw [ops.runAll_concat, ← hI.lin.cell]
    exact hcell
  · -- results
    intro before e after he x hx
    simp only [State.effect] at he
    rcases eq_nil_or_concat after with rfl | ⟨after',z,rfl⟩
    · obtain ⟨hb,hei⟩ := append_inj' he rfl
      cases singleton_inj.mp hei
      cases some.inj (get_set_self.symm.trans hx)
      rw [← hb, ← hI.lin.cell]
      exact congrArg some hres
    · rw [concat_eq_append, ← cons_append, ← append_assoc] at he
      obtain ⟨hb,_⟩ := append_inj' he rfl
      have hei : e.1 ≠ i := by
        intro hei
        apply hnew e.2
        rw [hb, ← hei]
        simp
      exact hI.lin.results before e after' hb x ((get_set_ne hei).symm.trans hx)
  · -- realTime
    intro a b ca cb t ha hb ht hlt hmem
    simp only [State.effect, mem_append, mem_singleton] at hmem ⊢
    rcases hmem with hmem | hmem
    · have hsub := realTime_set ops cell0 s hI i c { c with stage := .finished result } hc rfl rfl
        (Or.inl rfl) a b ca cb t ha hb ht hlt hmem
      exact hsub.trans (sublist_append_left _ _)
    · -- the call that takes effect now comes after all that have returned
      have hain : (a,ca.call) ∈ s.effects := by
        by_cases hai : a = i
        · rw [hai] at ha
          cases some.inj (get_set_self.symm.trans ha)
          have hsome := hI.returned i c hc t ht
          rw [h0] at hsome
          cases hsome
        · have hold := (get_set_ne hai).symm.trans ha
          exact (hI.lin.complete a ca hold).mp (hI.returned a ca hold t ht)
      rw [hmem]
      exact (singleton_sublist.mpr hain).append (List.Sublist.refl _)
  · -- lock
    apply forall_get_set_ne
    · intro j x hj hx
      exact hI.lock j x hx
    · intro _
      exact hI.lock i c hc hh
  · -- remembers: a call that does not hold the lock remembers nothing
    apply forall_get_set_ne
    · intro j x hj hx
      have hf := hother j x hj hx
      cases hst : x.stage <;> simp_all [Remembers, Stage.holds]
    · trivial
  · exact invoked_set ops cell0 s hI (Nat.le_of_lt (hI.invoked i c hc))
  · -- returned
    apply forall_get_set hI.returned
    intro t _
    rfl

theorem inv_release {result : Except ε ρ}
    (hc : s.calls.get i = some c) (hst : c.stage = .finished result) :
    Inv ops cell0 { s with
      holder := none
      calls := s.calls.set i { c with stage := .returned result, returnedAt := some s.clock }
      clock := s.clock+1 } := by
  have hres : c.stage.result = some result := by rw [hst]; rfl
  have hhold := hI.lock i c hc (by rw [hst]; rfl)
  refine
    { lin := { nodup := hI.lin.nodup, complete := ?_
               known := known_set ops cell0 s hI i c _ hc rfl, cell := hI.lin.cell
               results := ?_
               realTime := realTime_set ops cell0 s hI i c _ hc rfl rfl (Or.inr rfl) }
      lock := ?_, remembers := ?_, invoked := ?_, returned := ?_ }
  · -- complete
    apply forall_get_set hI.lin.complete
    have := hI.lin.complete i c hc
    rw [hres] at this
    simpa [Stage.result] using this
  · -- results
    intro before e after he x hx
    by_cases hei : e.1 = i
    · rw [hei] at hx
      cases some.inj (get_set_self.symm.trans hx)
      have := hI.lin.results before e after he c (hei ▸ hc)
      rw [hres] at this
      exact this
    · exact hI.lin.results before e after he x ((get_set_ne hei).symm.trans hx)
  · -- lock
    apply forall_get_set_ne
    · intro j x hj hx hh
      exact absurd (some.inj ((hI.lock j x hx hh).symm.trans hhold)) hj
    · intro hh
      cases hh
  · exact forall_get_set hI.remembers trivial
  · exact invoked_set ops cell0 s hI (Nat.le_of_lt (hI.invoked i c hc))
  · -- returned
    apply forall_get_set hI.returned
    intro t _
    rfl

theorem inv_invoke (a : α) (hnew : s.calls.get i = none) :
    Inv ops cell0 { s with
      calls := s.calls.set i ⟨a,.invoked,s.clock,none⟩
      clock := s.clock+1 } := by
  have hne : ∀ e ∈ s.effects, e.1 ≠ i := by
    intro e he hei
    obtain ⟨x,hx,_⟩ := hI.lin.known e he
    rw [hei, hnew] at hx
    cases hx
  refine
    { lin := { nodup := hI.lin.nodup, complete := ?_, known := ?_, cell := hI.lin.cell
               results := ?_, realTime := ?_ }
      lock := ?_, remembers := ?_, invoked := ?_, returned := ?_ }
  · -- complete
    apply forall_get_set hI.lin.complete
    have hn : (i,a) ∉ s.effects := fun h => hne _ h rfl
    simpa [Stage.result] using hn
  · -- known
    intro e he
    obtain ⟨x,hx,hcall⟩ := hI.lin.known e he
    exact ⟨x,(get_set_ne (hne e he)).trans hx,hcall⟩
  · -- results
    intro before e after he x hx
    have hei := hne e (by rw [he]; simp)
    exact hI.lin.results before e after he x ((get_set_ne hei).symm.trans hx)
  · -- realTime
    intro x y cx cy t hx hy ht hlt hmem
    have hyi : y ≠ i := hne _ hmem
    have hy' := (get_set_ne hyi).symm.trans hy
    by_cases hxi : x = i
    · rw [hxi] at hx
      cases some.inj (get_set_self.symm.trans hx)
      cases ht
    · exact hI.lin.realTime x y cx cy t ((get_set_ne hxi).symm.trans hx) hy' ht hlt hmem
  · -- lock
    apply forall_get_set hI.lock
    intro hh
    cases hh
  · exact forall_get_set hI.remembers trivial
  · exact invoked_set ops cell0 s hI (Nat.le_refl _)
  · -- returned
    apply forall_get_set hI.returned
    intro t ht
    cases ht

/-- Every step of a call keeps the invariant. -/
theorem inv_callStep {t : State σ α ε ρ}
    (hc : s.calls.get i = some c) (ht : callStep ops s i c = some t) : Inv ops cell0 t := by
  have hrem := hI.remembers i c hc
  cases hst : c.stage with
  | invoked =>
    simp only [callStep, hst] at ht
    split_ifs at ht with hfree
    cases ht
    apply inv_advance ops cell0 s hI .locked (some i) hc (by rw [hst]; rfl) rfl trivial
      (fun _ => rfl)
    intro j _ hj
    rw [hfree] at hj
    cases hj
  | locked =>
    have hhold := hI.lock i c hc (by rw [hst]; rfl)
    simp only [callStep, hst] at ht
    cases hb : ops.blind c.call with
    | some r =>
      simp only [hb] at ht
      cases ht
      exact inv_advance ops cell0 s hI (.checked r.1 r.2) s.holder hc (by rw [hst]; rfl) rfl
        (ops.blind_apply c.call r hb s.cell) (fun _ => hhold) (fun _ _ hj => hj)
    | none =>
      simp only [hb] at ht
      cases ht
      exact inv_advance ops cell0 s hI (.read s.cell) s.holder hc (by rw [hst]; rfl) rfl rfl
        (fun _ => hhold) (fun _ _ hj => hj)
  | read current =>
    have hhold := hI.lock i c hc (by rw [hst]; rfl)
    rw [hst] at hrem
    have hcur : current = s.cell := hrem
    simp only [callStep, hst] at ht
    cases ha : ops.apply c.call current with
    | error e =>
      simp only [ha] at ht
      cases ht
      rw [hcur] at ha
      apply inv_effect ops cell0 s hI hc (by rw [hst]; rfl) (by rw [hst]; rfl)
      · rw [Ops.after, ha]
      · rw [Ops.result, ha]
        rfl
    | ok r =>
      simp only [ha] at ht
      cases ht
      rw [hcur] at ha
      exact inv_advance ops cell0 s hI (.checked r.1 r.2) s.holder hc (by rw [hst]; rfl) rfl ha
        (fun _ => hhold) (fun _ _ hj => hj)
  | checked next value =>
    rw [hst] at hrem
    have ha : ops.apply c.call s.cell = .ok (next,value) := hrem
    simp only [callStep, hst] at ht
    cases ht
    apply inv_effect ops cell0 s hI hc (by rw [hst]; rfl) (by rw [hst]; rfl)
    · rw [Ops.after, ha]
    · rw [Ops.result, ha]
      rfl
  | finished result =>
    simp only [callStep, hst] at ht
    cases ht
    exact inv_release ops cell0 s hI hc hst
  | returned result => simp [callStep, hst] at ht

end

theorem inv_start (ops : Ops σ α ε ρ) (cell0 : σ) : Inv ops cell0 (start cell0) where
  lin := {
    nodup := by simp [start]
    complete := fun i c h => absurd h (by simp [start])
    known := fun e he => absurd he (by simp [start])
    cell := rfl
    results := fun before e after he => absurd he (by simp [start])
    realTime := fun i j ci cj t h => absurd h (by simp [start]) }
  lock := fun i c h => absurd h (by simp [start])
  remembers := fun i c h => absurd h (by simp [start])
  invoked := fun i c h => absurd h (by simp [start])
  returned := fun i c h => absurd h (by simp [start])

/-- In every interleaving the calls are linearized by the order in which they took effect. -/
theorem linearizes_effects {ops : Ops σ α ε ρ} {cell0 : σ} {s : State σ α ε ρ}
    (hs : Transition.Reachable (fun s => s = start cell0) (step ops) Transition.anyStep s) :
    Linearizes ops cell0 s s.effects := by
  have hI : Inv ops cell0 s := by
    apply Transition.reachable_invariant (Inv ops cell0) ?_ ?_ s hs
    · intro s h
      rw [h]
      exact inv_start ops cell0
    · intro s t a hI _ ht
      cases a with
      | invoke i a =>
        simp only [step] at ht
        split_ifs at ht with hn
        cases ht
        apply inv_invoke ops cell0 s hI a
        simpa [Dict.contains] using hn
      | step i =>
        obtain ⟨c,hc,hstep⟩ := bind_eq_some_iff.mp ht
        exact inv_callStep ops cell0 s hI hc hstep
  exact hI.lin

end BackendGauntlet.LockedCell
