import BackendGauntlet.UrlShortenerResolve

/-! A herd of redirects on one cold slug. -/
namespace BackendGauntlet.UrlShortener

open PyText Transition Option Dict

def ResolvePhase.selectInFlight : ResolvePhase → Bool
  | .selecting _ => true
  | _ => false

def ResolvePhase.rebuilding : ResolvePhase → Bool
  | .selecting _ => true
  | .filling _ => true
  | _ => false

def ResolvePhase.selected : ResolvePhase → Bool
  | .reading => false
  | .selecting _ => true
  | .filling _ => true
  | .returned r => r.outcome = .miss || r.outcome = .degraded

def ResolvePhase.isReturned : ResolvePhase → Bool
  | .returned _ => true
  | _ => false

def callsIn (kind : ResolvePhase → Bool) (slug : Text) (s : ResolveState) : ℕ :=
  s.calls.entries.countP (fun e => e.2.slug = slug && kind e.2.phase)

def selectsInFlight : Text → ResolveState → ℕ := callsIn ResolvePhase.selectInFlight

def selectsSent : Text → ResolveState → ℕ := callsIn ResolvePhase.selected

def coldSlug (scope slug : Text) (s : ResolveState) : Prop :=
  s.calls = Dict.empty ∧ s.cache.get (cacheKey scope slug) = none

def herdStep (slug : Text) : ResolveAction → Bool
  | .start _ slug' => slug' = slug
  | .resolve _ => true
  | _ => false

/-- A call reads the cache only while no call on its slug is rebuilding the entry. -/
def readsAlone (s : ResolveState) : ResolveAction → Bool
  | .resolve n =>
    match s.calls.get n with
    | some ⟨slug,.reading,_⟩ =>
      s.calls.entries.all (fun e => e.2.slug ≠ slug || !e.2.phase.rebuilding)
    | _ => true
  | _ => true

variable {p : ResolvePhase} {s : ResolveState} {n : ℕ}

theorem rebuilding_selected (h : p.rebuilding = true) : p.selected = true := by
  cases p with
  | reading => cases h
  | selecting _ => rfl
  | filling _ => rfl
  | returned _ => cases h

theorem selectInFlight_rebuilding (h : p.selectInFlight = true) :
    p.rebuilding = true := by
  cases p with
  | reading => cases h
  | selecting _ => rfl
  | filling _ => cases h
  | returned _ => cases h

theorem callsIn_le_one (kind : ResolvePhase → Bool) (slug : Text)
    (h : ∀ n m c d, s.calls.get n = some c → s.calls.get m = some d →
      kind c.phase = true → kind d.phase = true → n = m) : callsIn kind slug s ≤ 1 := by
  apply countP_le_one
  intro e he e' he' hk hk'
  rw [Bool.and_eq_true] at hk hk'
  exact h e.1 e'.1 e.2 e'.2 (get_eq_some_iff.mpr he)
    (get_eq_some_iff.mpr he') hk.2 hk'.2

structure Herd (scope slug : Text) (s : ResolveState) : Prop where
  onSlug : ∀ n c, s.calls.get n = some c → c.slug = slug
  healthy : ∀ n c, s.calls.get n = some c → c.phase ≠ .selecting true
  single : ∀ n m c d, s.calls.get n = some c → s.calls.get m = some d →
    c.phase.selected = true → d.phase.selected = true → n = m
  cold : s.cache.get (cacheKey scope slug) = none →
    ∀ n c, s.calls.get n = some c → c.phase.isReturned = false
  warm : s.cache.get (cacheKey scope slug) ≠ none →
    (∃ n c, s.calls.get n = some c ∧ c.phase.selected = true) ∧
      ∀ n c, s.calls.get n = some c → c.phase.rebuilding = false

section
variable (scope slug : Text)

theorem herd_initial (s : ResolveState) (h : coldSlug scope slug s) : Herd scope slug s := by
  obtain ⟨hcalls,hcache⟩ := h
  have hno (n : ℕ) (c : ResolveCall) : s.calls.get n ≠ some c := by
    rw [hcalls, get_empty]
    exact some_ne_none c |>.symm
  refine ⟨?_,?_,?_,?_,?_⟩
  · exact fun n c hc => absurd hc (hno n c)
  · exact fun n c hc => absurd hc (hno n c)
  · exact fun n _ c _ hc => absurd hc (hno n c)
  · exact fun _ n c hc => absurd hc (hno n c)
  · exact fun hwarm => absurd hcache hwarm

theorem herd_unselected (s : ResolveState) (n : ℕ) (c : ResolveCall) (hinv : Herd scope slug s)
    (hslug : c.slug = slug) (hnew : c.phase.selected = false)
    (hold : ∀ d, s.calls.get n = some d → d.phase.selected = false)
    (hcold : s.cache.get (cacheKey scope slug) = none → c.phase.isReturned = false) :
    Herd scope slug { s with calls := s.calls.set n c } where
  onSlug := forall_get_set hinv.onSlug hslug
  healthy := by
    apply forall_get_set hinv.healthy
    intro h
    rw [h] at hnew
    cases hnew
  single := by
    intro k m d e hk hm hd he
    rcases eq_or_get_of_get_set hk with ⟨_,rfl⟩ | ⟨_,hk⟩
    · rw [hnew] at hd
      cases hd
    rcases eq_or_get_of_get_set hm with ⟨_,rfl⟩ | ⟨_,hm⟩
    · rw [hnew] at he
      cases he
    exact hinv.single k m d e hk hm hd he
  cold := fun hc => forall_get_set (hinv.cold hc) (hcold hc)
  warm := by
    intro hw
    obtain ⟨⟨k,d,hk,hd⟩,hidle⟩ := hinv.warm hw
    constructor
    · -- the call that has selected is another one
      have hne : k ≠ n := by
        intro he
        rw [he] at hk
        rw [hold d hk] at hd
        cases hd
      exact ⟨k,d,(get_set_ne hne).trans hk,hd⟩
    · apply forall_get_set hidle
      cases hr : c.phase.rebuilding with
      | false => rfl
      | true =>
        rw [rebuilding_selected hr] at hnew
        cases hnew

/-- The step of the one call that selects: from its miss to the row, and from there to the
filled cache. -/
theorem herd_selected (c : ResolveCall) (cache : Dict Text Cached)
    (hinv : Herd scope slug s) (hslug : c.slug = slug) (hphase : c.phase ≠ .selecting true)
    (hnew : c.phase.selected = true)
    (halone : ∀ k d, s.calls.get k = some d → d.phase.selected = true → k = n)
    (hcold : cache.get (cacheKey scope slug) = none →
      s.cache.get (cacheKey scope slug) = none ∧ c.phase.isReturned = false)
    (hwarm : cache.get (cacheKey scope slug) ≠ none → c.phase.rebuilding = false) :
    Herd scope slug { s with calls := s.calls.set n c, cache := cache } where
  onSlug := forall_get_set hinv.onSlug hslug
  healthy := forall_get_set hinv.healthy hphase
  single := by
    have hn (k : ℕ) (d : ResolveCall) (hk : (s.calls.set n c).get k = some d)
        (hd : d.phase.selected = true) : k = n := by
      rcases eq_or_get_of_get_set hk with ⟨rfl,_⟩ | ⟨_,hk⟩
      · rfl
      · exact halone k d hk hd
    intro k m d e hk hm hd he
    rw [hn k d hk hd, hn m e hm he]
  cold := fun hc =>
    forall_get_set (hinv.cold (hcold hc).1) (hcold hc).2
  warm := by
    intro hw
    refine ⟨⟨n,c,get_set_self,hnew⟩,?_⟩
    refine forall_get_set_ne c (fun _ d => d.phase.rebuilding = false) ?_ (hwarm hw)
    intro k d hk hd
    cases hr : d.phase.rebuilding with
    | false => rfl
    | true => exact absurd (halone k d hd (rebuilding_selected hr)) hk

theorem readsAlone_resolve {c : ResolveCall}
    (h : readsAlone s (.resolve n) = true) (hn : s.calls.get n = some c)
    (hphase : c.phase = .reading) {k : ℕ} {d : ResolveCall} (hk : s.calls.get k = some d)
    (hslug : d.slug = c.slug) : d.phase.rebuilding = false := by
  obtain ⟨slug,phase,promised⟩ := c
  cases hphase
  simp only [readsAlone, hn, List.all_eq_true] at h
  have hd := h (k,d) (get_eq_some_iff.mp hk)
  simpa [hslug] using hd

theorem selected_cases (h : p.selected = true) :
    p.rebuilding = true ∨ p.isReturned = true := by
  cases p with
  | reading => cases h
  | selecting _ => exact Or.inl rfl
  | filling _ => exact Or.inl rfl
  | returned _ => exact Or.inr rfl

theorem herd_resolve {c : ResolveCall}
    {cache : Dict Text Cached} (hinv : Herd scope slug s)
    (halone : readsAlone s (.resolve n) = true) (hc : s.calls.get n = some c)
    (h : resolveNext scope s c = some (p,cache)) :
    Herd scope slug { s with calls := s.calls.set n { c with phase := p }, cache := cache } := by
  have hslug := hinv.onSlug n c hc
  have hsingle (hsel : c.phase.selected = true) (k : ℕ) (d : ResolveCall)
      (hk : s.calls.get k = some d) (hd : d.phase.selected = true) : k = n :=
    hinv.single k n d c hk hc hd hsel
  have hreading (hphase : c.phase = .reading) (d : ResolveCall) (hd : s.calls.get n = some d) :
      d.phase.selected = false := by
    rw [← some.inj (hc.symm.trans hd), hphase]
    rfl
  have hanswered (hphase : c.phase = .reading) (entry : Cached)
      (hcached : s.cache.get (cacheKey scope slug) = some entry) (result : Resolved)
      (hsel : (ResolvePhase.returned result).selected = false) :
      Herd scope slug { s with calls := s.calls.set n { c with phase := .returned result } } := by
    apply herd_unselected scope slug s n { c with phase := .returned result } hinv
      hslug hsel (hreading hphase)
    intro hnone
    rw [hcached] at hnone
    cases hnone
  unfold resolveNext at h
  rw [hslug] at h
  split at h
  · rename_i hphase
    split at h
    · rename_i target hcached
      cases h
      exact hanswered hphase _ hcached ⟨.hit,some target⟩ rfl
    · rename_i hcached
      cases h
      exact hanswered hphase _ hcached ⟨.negative,none⟩ rfl
    · -- a miss: nobody is rebuilding, and in a cold herd nobody has returned
      rename_i hcached
      cases h
      apply herd_selected scope slug { c with phase := .selecting false } s.cache hinv hslug
        (by simp) rfl
      · intro k d hk hd
        rcases selected_cases hd with hr | hr
        · rw [readsAlone_resolve halone hc hphase hk ((hinv.onSlug k d hk).trans hslug.symm)] at hr
          cases hr
        · rw [hinv.cold hcached k d hk] at hr
          cases hr
      · exact fun _ => ⟨hcached,rfl⟩
      · exact fun hw => absurd hcached hw
  · rename_i hphase
    cases h
    have hsel : c.phase.selected = true := by rw [hphase]; rfl
    apply herd_selected scope slug { c with phase := .filling (s.links.get slug) } s.cache
      hinv hslug (by simp) rfl (hsingle hsel)
    · exact fun hnone => ⟨hnone,rfl⟩
    · -- a warm herd has nobody who still selects
      intro hw
      have hidle := (hinv.warm hw).2 n c hc
      rw [hphase] at hidle
      cases hidle
  · rename_i hphase
    exact absurd hphase (hinv.healthy n c hc)
  · rename_i row hphase
    cases h
    have hsel : c.phase.selected = true := by rw [hphase]; rfl
    apply herd_selected scope slug { c with phase := .returned ⟨.miss,row⟩ } _ hinv hslug
      (by simp) rfl (hsingle hsel)
    · intro hnone
      rw [get_set_self] at hnone
      cases hnone
    · exact fun _ => rfl
  · cases h

theorem herd_step {t : ResolveState} {a : ResolveAction} (hinv : Herd scope slug s)
    (hok : (herdStep slug a && readsAlone s a) = true) (h : resolveStep scope s a = some t) :
    Herd scope slug t := by
  rw [Bool.and_eq_true] at hok
  obtain ⟨hherd,halone⟩ := hok
  cases a with
  | start n slug' =>
    simp only [resolveStep] at h
    split_ifs at h with hfree
    cases h
    have hslug : slug' = slug := of_decide_eq_true hherd
    apply herd_unselected scope slug s n ⟨slug',.reading,s.created.get slug'⟩ hinv hslug rfl
    · intro d hd
      simp [Dict.contains, hd] at hfree
    · exact fun _ => rfl
  | resolve n =>
    simp only [resolveStep] at h
    split at h
    · cases h
    · rename_i c hc
      obtain ⟨⟨p,cache⟩,hnext,rfl⟩ := map_eq_some_iff.mp h
      exact herd_resolve scope slug hinv halone hc hnext
  | readFails n | fillFails n | insert n slug' target | delete n | expire key => cases hherd

/-- If the cache is read only while nobody rebuilds, one SELECT is in flight at most and one is
sent. -/
theorem herd_selects_once (s : ResolveState)
    (hs : Reachable (coldSlug scope slug) (resolveStep scope)
      (fun u a => (herdStep slug a && readsAlone u a) = true) s) :
    selectsInFlight slug s ≤ 1 ∧
      ((∃ n c, s.calls.get n = some c) →
        (∀ n c, s.calls.get n = some c → c.phase.isReturned = true) → selectsSent slug s = 1) := by
  have hinv : Herd scope slug s := reachable_invariant (Herd scope slug)
    (herd_initial scope slug)
    (fun u v a hu hok hstep => herd_step scope slug hu hok hstep) s hs
  constructor
  · apply callsIn_le_one
    intro n m c d hn hm hc hd
    exact hinv.single n m c d hn hm (rebuilding_selected (selectInFlight_rebuilding hc))
      (rebuilding_selected (selectInFlight_rebuilding hd))
  · rintro ⟨n,c,hn⟩ hreturned
    have hwarm : s.cache.get (cacheKey scope slug) ≠ none := by
      intro hcold
      have hopen := hinv.cold hcold n c hn
      rw [hreturned n c hn] at hopen
      cases hopen
    obtain ⟨⟨m,d,hm,hd⟩,_⟩ := hinv.warm hwarm
    apply Nat.le_antisymm (callsIn_le_one _ slug hinv.single)
    apply List.countP_pos_iff.mpr
    exact ⟨(m,d),get_eq_some_iff.mp hm,by simp [hinv.onSlug m d hm, hd]⟩

end

def coldBrand : ResolveState :=
  { emptyCache with links := Dict.empty.set brand brandTarget }

theorem coldBrand_cold : coldSlug [] brand coldBrand := ⟨rfl,rfl⟩

/-- Three calls start together, and two of them read once the first has filled the cache. -/
theorem herd_selects_once_brand : ∃ s,
    Reachable (coldSlug [] brand) (resolveStep [])
      (fun u a => (herdStep brand a && readsAlone u a) = true) s ∧
    s.calls.keys = [0, 1, 2] ∧ selectsInFlight brand s ≤ 1 ∧ selectsSent brand s = 1 := by
  obtain ⟨s,hs,hkeys,hzero,hreturned⟩ := reachable_of_checkedRun (coldSlug [] brand)
    (resolveStep []) (fun u a => herdStep brand a && readsAlone u a)
    (P := fun s => s.calls.keys = [0, 1, 2] ∧ s.calls.contains 0 = true ∧
      ∀ e ∈ s.calls.entries, e.2.phase.isReturned = true)
    [.start 0 brand, .start 1 brand, .start 2 brand, .resolve 0, .resolve 0, .resolve 0,
      .resolve 1, .resolve 2] coldBrand coldBrand_cold (by decide +kernel)
  obtain ⟨hflight,hsent⟩ := herd_selects_once [] brand s hs
  refine ⟨s,hs,hkeys,hflight,hsent ⟨0,isSome_iff_exists.mp hzero⟩ ?_⟩
  intro n c hc
  exact hreturned (n,c) (get_eq_some_iff.mp hc)

/-- Two calls that both read the cold cache both select. -/
theorem herd_selects_twice :
    (∃ s, Reachable (coldSlug [] brand) (resolveStep []) (fun _ a => herdStep brand a = true) s ∧
      selectsInFlight brand s = 2) ∧
    ∃ s, Reachable (coldSlug [] brand) (resolveStep []) (fun _ a => herdStep brand a = true) s ∧
      s.calls.get 0 = some ⟨brand,.returned ⟨.miss,some brandTarget⟩,none⟩ ∧
      s.calls.get 1 = some ⟨brand,.returned ⟨.miss,some brandTarget⟩,none⟩ ∧
      s.calls.keys = [0, 1] ∧ selectsSent brand s = 2 := by
  constructor
  · exact reachable_of_checkedRun _ _ (fun _ a => herdStep brand a)
      [.start 0 brand, .start 1 brand, .resolve 0, .resolve 1] coldBrand coldBrand_cold
      (by decide +kernel)
  · exact reachable_of_checkedRun _ _ (fun _ a => herdStep brand a)
      [.start 0 brand, .start 1 brand, .resolve 0, .resolve 1, .resolve 0, .resolve 1,
        .resolve 0, .resolve 1] coldBrand coldBrand_cold (by decide +kernel)

/-- `missed` and `stored` come with an answer of Redis, before the call runs on. The future that a
call parks on is the one of its leader. -/
inductive RebuildPhase
  | reading
  | missed
  | parked (leader : ℕ)
  | rebuilding
  | putting (value : Cached)
  | stored (value : Cached)
  | returned (value : Cached)
  | raised
deriving DecidableEq

structure RebuildCall where
  slug : Text
  phase : RebuildPhase
deriving DecidableEq

def RebuildCall.lead (c : RebuildCall) : Option Text :=
  match c.phase with
  | .rebuilding => some c.slug
  | .putting _ => some c.slug
  | .stored _ => some c.slug
  | _ => none

/-- `inflight` names, for a slug, the call whose future is awaited. -/
structure RebuildState where
  cache : Dict Text Cached
  inflight : Dict Text ℕ
  calls : Dict ℕ RebuildCall

/-- `rebuilt` is the return of a leader's rebuild; `fails` an exception or a cancellation. -/
inductive RebuildAction
  | start (n : ℕ) (slug : Text)
  | advance (n : ℕ)
  | rebuilt (n : ℕ) (value : Cached)
  | fails (n : ℕ)
  | expire (key : Text)

section
variable (scope : Text)

def RebuildState.moves (s : RebuildState) (n : ℕ) (c : RebuildCall) (p : RebuildPhase) :
    RebuildState :=
  { s with calls := s.calls.set n { c with phase := p } }

def rebuildNext (s : RebuildState) (n : ℕ) (c : RebuildCall) : Option RebuildState :=
  match c.phase with
  | .reading =>
    match s.cache.get (cacheKey scope c.slug) with
    | some value => some (s.moves n c (.returned value))
    | none => some (s.moves n c .missed)
  | .missed =>
    match s.inflight.get c.slug with
    | some leader => some (s.moves n c (.parked leader))
    | none => some { s.moves n c .rebuilding with inflight := s.inflight.set c.slug n }
  | .parked leader =>
    match (s.calls.get leader).map RebuildCall.phase with
    | some (.returned value) => some (s.moves n c (.returned value))
    | some .raised => some (s.moves n c .raised)
    | _ => none
  | .putting value =>
    some { s.moves n c (.stored value) with cache := s.cache.set (cacheKey scope c.slug) value }
  | .stored value =>
    some { s.moves n c (.returned value) with inflight := s.inflight.erase c.slug }
  | _ => none

def rebuildStep (s : RebuildState) : RebuildAction → Option RebuildState
  | .start n slug =>
    if s.calls.contains n then none else some { s with calls := s.calls.set n ⟨slug,.reading⟩ }
  | .advance n => (s.calls.get n).bind (rebuildNext scope s n)
  | .rebuilt n value =>
    match s.calls.get n with
    | some ⟨slug,.rebuilding⟩ => some (s.moves n ⟨slug,.rebuilding⟩ (.putting value))
    | _ => none
  | .fails n =>
    match s.calls.get n with
    | none => none
    | some c =>
      match c.phase with
      | .returned _ => none
      | .raised => none
      | _ =>
        if c.lead.isSome then some { s.moves n c .raised with inflight := s.inflight.erase c.slug }
        else some (s.moves n c .raised)
  | .expire key => some { s with cache := s.cache.erase key }

end

def rebuildInitial (s : RebuildState) : Prop := s.inflight = Dict.empty ∧ s.calls = Dict.empty

/-- The table names the one call that leads on a slug. -/
def Led (s : RebuildState) : Prop :=
  ∀ slug n, s.inflight.get slug = some n ↔ (s.calls.get n).bind RebuildCall.lead = some slug

section
variable {s : RebuildState} {c d : RebuildCall} {slug : Text} (hinv : Led s)
include hinv

theorem led_keeps (hd : (s.calls.get n).bind RebuildCall.lead = d.lead) :
    Led { s with calls := s.calls.set n d } := by
  intro slug m
  have hm := hinv slug m
  grind [get_set]

theorem led_joins (hc : (s.calls.get n).bind RebuildCall.lead = none)
    (hfree : s.inflight.get slug = none) (hd : d.lead = some slug) :
    Led { s with calls := s.calls.set n d, inflight := s.inflight.set slug n } := by
  intro x m
  -- no call leads on the slug yet, or the table would name it
  have hx := hinv x m
  grind [get_set]

theorem led_leaves (hc : (s.calls.get n).bind RebuildCall.lead = some slug) (hd : d.lead = none) :
    Led { s with calls := s.calls.set n d, inflight := s.inflight.erase slug } := by
  intro x m
  -- the table names `n` for its slug, and no second call can lead on it
  have hx := hinv x m
  have hn := hinv slug n
  have hm := hinv slug m
  grind [get_set, get_erase]

variable (scope : Text) {t : RebuildState}

theorem led_next (hc : s.calls.get n = some c) (h : rebuildNext scope s n c = some t) : Led t := by
  have hlead : (s.calls.get n).bind RebuildCall.lead = c.lead := by rw [hc, bind_some]
  obtain ⟨slug,phase⟩ := c
  cases phase with
  | reading =>
    simp only [rebuildNext] at h
    split at h <;> exact some.inj h ▸ led_keeps hinv hlead
  | missed =>
    simp only [rebuildNext] at h
    split at h
    · exact some.inj h ▸ led_keeps hinv hlead
    · -- the slug is free, so the new leader pushes no other out
      rename_i hfree
      exact some.inj h ▸ led_joins hinv hlead hfree rfl
  | parked leader =>
    simp only [rebuildNext] at h
    split at h
    · exact some.inj h ▸ led_keeps hinv hlead
    · exact some.inj h ▸ led_keeps hinv hlead
    · cases h
  | putting value => exact some.inj h ▸ led_keeps hinv hlead
  | stored value => exact some.inj h ▸ led_leaves hinv hlead rfl
  | rebuilding => cases h
  | returned value => cases h
  | raised => cases h

theorem led_fails (hc : s.calls.get n = some c) (h : rebuildStep scope s (.fails n) = some t) :
    Led t := by
  have hlead : (s.calls.get n).bind RebuildCall.lead = c.lead := by rw [hc, bind_some]
  obtain ⟨slug,phase⟩ := c
  cases phase <;> simp [rebuildStep, hc, RebuildCall.lead] at h <;> subst h
  all_goals first | exact led_keeps hinv hlead | exact led_leaves hinv hlead rfl

theorem led_step {a : RebuildAction} (h : rebuildStep scope s a = some t) : Led t := by
  cases a with
  | start n slug =>
    simp only [rebuildStep] at h
    split_ifs at h with hnew
    exact some.inj h ▸ led_keeps hinv (by rw [get_of_not_contains hnew]; rfl)
  | advance n =>
    obtain ⟨c,hc,hnext⟩ := bind_eq_some_iff.mp h
    exact led_next hinv scope hc hnext
  | rebuilt n value =>
    simp only [rebuildStep] at h
    split at h
    · rename_i slug hc
      exact some.inj h ▸ led_keeps hinv (by rw [hc]; rfl)
    · cases h
  | fails n =>
    cases hc : s.calls.get n with
    | none =>
      rw [rebuildStep, hc] at h
      cases h
    | some c => exact led_fails hinv scope hc h
  | expire key =>
    cases h
    exact hinv

end

/-- Through `get_or_rebuild` a slug has one rebuild in flight at most, whatever fails and whenever
entries expire, and the table of futures is empty when no call leads. -/
theorem rebuild_single_flight (scope slug : Text) (s : RebuildState)
    (hs : Reachable rebuildInitial (rebuildStep scope) anyStep s) :
    s.calls.entries.countP (fun e => e.2.lead = some slug) ≤ 1 ∧
      ((∀ n c, s.calls.get n = some c → c.lead = none) → s.inflight.get slug = none) := by
  have hinv : Led s := reachable_invariant Led
    (fun u hu x n => by rw [hu.1, hu.2]; simp)
    (fun u v a hu _ hstep => led_step hu scope hstep) s hs
  have hnamed (e : ℕ × RebuildCall) (he : e ∈ s.calls.entries) (hl : e.2.lead = some slug) :
      s.inflight.get slug = some e.1 :=
    (hinv slug e.1).mpr (bind_eq_some_iff.mpr ⟨e.2,get_eq_some_iff.mpr he,hl⟩)
  constructor
  · apply countP_le_one
    intro e he e' he' hl hl'
    have hn := hnamed e he (of_decide_eq_true hl)
    have hn' := hnamed e' he' (of_decide_eq_true hl')
    exact some.inj (hn.symm.trans hn')
  · intro hnone
    cases hn : s.inflight.get slug with
    | none => rfl
    | some n =>
      obtain ⟨c,hc,hl⟩ := bind_eq_some_iff.mp ((hinv slug n).mp hn)
      rw [hnone n c hc] at hl
      cases hl

/-- Two calls miss, one leads, and the other is parked when the rebuild fails. -/
theorem rebuild_single_flight_brand : ∃ s,
    Reachable rebuildInitial (rebuildStep []) anyStep s ∧
    s.calls.get 1 = some ⟨brand,.raised⟩ ∧ s.inflight.get brand = none := by
  obtain ⟨s,hs,hc,hnone⟩ := reachable_of_run rebuildInitial (rebuildStep [])
    (P := fun s => s.calls.get 1 = some ⟨brand,.raised⟩ ∧
      ∀ e ∈ s.calls.entries, e.2.lead = none)
    [.start 0 brand, .start 1 brand, .advance 0, .advance 1, .advance 0, .advance 1, .fails 0,
      .advance 1] ⟨Dict.empty,Dict.empty,Dict.empty⟩ ⟨rfl,rfl⟩ (by decide +kernel)
  exact ⟨s,hs,hc,(rebuild_single_flight [] brand s hs).2
    (fun n c h => hnone (n,c) (get_eq_some_iff.mp h))⟩

end BackendGauntlet.UrlShortener
