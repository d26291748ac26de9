import BackendGauntlet.Dict
import BackendGauntlet.PyText
import BackendGauntlet.Transition

/-! Cache-aside resolution of slugs beside the creation of links. -/
namespace BackendGauntlet.UrlShortener

open PyText Transition Option Dict

abbrev Target := ℕ × Text

inductive Cached
  | found (target : Target)
  | missing
deriving DecidableEq

inductive CacheOutcome
  | hit
  | negative
  | miss
  | degraded
deriving DecidableEq

structure Resolved where
  outcome : CacheOutcome
  link : Option Target
deriving DecidableEq

def cacheKey (scope slug : Text) : Text := scope ++ "link:".toList ++ slug

/-- Before the read of the cache, before the SELECT, before the back-fill, or returned. -/
inductive ResolvePhase
  | reading
  | selecting (degraded : Bool)
  | filling (row : Option Target)
  | returned (result : Resolved)
deriving DecidableEq

/-- `promised` is history: the link of the slug whose `create_link` had returned when the
call started. -/
structure ResolveCall where
  slug : Text
  phase : ResolvePhase
  promised : Option Target
deriving DecidableEq

/-- `creating` are between INSERT and delete; `created` is history. -/
structure ResolveState where
  cache : Dict Text Cached
  links : Dict Text Target
  calls : Dict ℕ ResolveCall
  creating : Dict ℕ Text
  created : Dict Text Target

inductive ResolveAction
  | start (n : ℕ) (slug : Text)
  | resolve (n : ℕ)
  | readFails (n : ℕ)
  | fillFails (n : ℕ)
  | insert (n : ℕ) (slug : Text) (target : Target)
  | delete (n : ℕ)
  | expire (key : Text)

def cachedOf : Option Target → Cached
  | some target => .found target
  | none => .missing

section
variable (scope : Text)

def resolveNext (s : ResolveState) (c : ResolveCall) : Option (ResolvePhase × Dict Text Cached) :=
  match c.phase with
  | .reading =>
    match s.cache.get (cacheKey scope c.slug) with
    | some (.found target) => some (.returned ⟨.hit,some target⟩,s.cache)
    | some .missing => some (.returned ⟨.negative,none⟩,s.cache)
    | none => some (.selecting false,s.cache)
  | .selecting false => some (.filling (s.links.get c.slug),s.cache)
  | .selecting true => some (.returned ⟨.degraded,s.links.get c.slug⟩,s.cache)
  | .filling row =>
    some (.returned ⟨.miss,row⟩,s.cache.set (cacheKey scope c.slug) (cachedOf row))
  | .returned _ => none

def insertable (links : Dict Text Target) (slug : Text) (target : Target) : Bool :=
  links.get slug = none && links.entries.all (fun e => e.2.1 ≠ target.1)

/-- A failed read goes on to Postgres without a back-fill, a failed back-fill is dropped, and a
cache entry may expire at any time. -/
def resolveStep (s : ResolveState) : ResolveAction → Option ResolveState
  | .start n slug =>
    if s.calls.contains n then none
    else some { s with calls := s.calls.set n ⟨slug,.reading,s.created.get slug⟩ }
  | .resolve n =>
    match s.calls.get n with
    | none => none
    | some c => (resolveNext scope s c).map (fun r =>
        { s with calls := s.calls.set n { c with phase := r.1 }, cache := r.2 })
  | .readFails n =>
    match s.calls.get n with
    | some ⟨slug,.reading,promised⟩ =>
      some { s with calls := s.calls.set n ⟨slug,.selecting true,promised⟩ }
    | _ => none
  | .fillFails n =>
    match s.calls.get n with
    | some ⟨slug,.filling row,promised⟩ =>
      some { s with calls := s.calls.set n ⟨slug,.returned ⟨.miss,row⟩,promised⟩ }
    | _ => none
  | .insert n slug target =>
    if s.creating.contains n || !insertable s.links slug target then none
    else some { s with links := s.links.set slug target, creating := s.creating.set n slug }
  | .delete n =>
    match s.creating.get n with
    | none => none
    | some slug =>
      match s.links.get slug with
      | none => none
      | some target => some { s with cache := s.cache.erase (cacheKey scope slug),
                                     creating := s.creating.erase n,
                                     created := s.created.set slug target }
  | .expire key => some { s with cache := s.cache.erase key }

end

def resolveInitial (s : ResolveState) : Prop :=
  s.cache = Dict.empty ∧ s.links = Dict.empty ∧ s.calls = Dict.empty ∧
    s.creating = Dict.empty ∧ s.created = Dict.empty

/-- When `create_link` deletes the cache entry, no call still has to back-fill an absence of
its slug. -/
def absencesFilled (s : ResolveState) : ResolveAction → Bool
  | .delete n =>
    match s.creating.get n with
    | none => true
    | some slug => s.calls.entries.all (fun e => e.2.slug ≠ slug || e.2.phase ≠ .filling none)
  | _ => true

variable {slug : Text} {s : ResolveState} {c : ResolveCall} {n : ℕ}

theorem cacheKey_injective {scope slug' : Text}
    (h : cacheKey scope slug = cacheKey scope slug') : slug = slug' :=
  List.append_cancel_left h

structure CallSound (links created : Dict Text Target) (c : ResolveCall) : Prop where
  promised : ∀ target, c.promised = some target → created.get c.slug = some target
  filling : ∀ target, c.phase = .filling (some target) → links.get c.slug = some target
  absent : c.phase = .filling none → created.get c.slug = none
  returned : ∀ r target, c.phase = .returned r → c.promised = some target → r.link = some target

structure Visible (scope : Text) (s : ResolveState) : Prop where
  stored : ∀ slug target, s.created.get slug = some target → s.links.get slug = some target
  creating : ∀ n slug, s.creating.get n = some slug → ∃ target, s.links.get slug = some target
  found : ∀ slug target, s.cache.get (cacheKey scope slug) = some (.found target) →
    s.links.get slug = some target
  missing : ∀ slug, s.cache.get (cacheKey scope slug) = some .missing →
    s.created.get slug = none
  calls : ∀ n c, s.calls.get n = some c → CallSound s.links s.created c

theorem visible_initial (scope : Text) (s : ResolveState) (h : resolveInitial s) :
    Visible scope s := by
  obtain ⟨hcache,hlinks,hcalls,hcreating,hcreated⟩ := h
  constructor
  · intro slug target hc
    rw [hcreated] at hc
    cases hc
  · intro n slug hc
    rw [hcreating] at hc
    cases hc
  · intro slug target hc
    rw [hcache] at hc
    cases hc
  · intro slug hc
    rw [hcache] at hc
    cases hc
  · intro n c hc
    rw [hcalls] at hc
    cases hc

section
variable (scope : Text)

variable {scope}

theorem visible_call (n : ℕ) (hinv : Visible scope s)
    (hc : CallSound s.links s.created c) : Visible scope { s with calls := s.calls.set n c } := by
  refine ⟨hinv.stored,hinv.creating,hinv.found,hinv.missing,?_⟩
  exact forall_get_set hinv.calls hc

theorem visible_erase (key : Text) (hinv : Visible scope s) :
    Visible scope { s with cache := s.cache.erase key } := by
  refine ⟨hinv.stored,hinv.creating,?_,?_,hinv.calls⟩
  · intro slug target hf
    exact hinv.found slug target (get_of_get_erase hf)
  · intro slug hm
    exact hinv.missing slug (get_of_get_erase hm)

theorem visible_fill {row : Option Target}
    (hinv : Visible scope s) (hfound : ∀ target, row = some target → s.links.get slug = some target)
    (hmissing : row = none → s.created.get slug = none) :
    Visible scope { s with cache := s.cache.set (cacheKey scope slug) (cachedOf row) } := by
  have hget (slug' : Text) (v : Cached)
      (h : (s.cache.set (cacheKey scope slug) (cachedOf row)).get (cacheKey scope slug') = some v) :
      (slug' = slug ∧ v = cachedOf row) ∨ s.cache.get (cacheKey scope slug') = some v := by
    rcases eq_or_get_of_get_set h with ⟨hk,hv⟩ | ⟨_,hold⟩
    · exact Or.inl ⟨cacheKey_injective hk,hv⟩
    · exact Or.inr hold
  refine ⟨hinv.stored,hinv.creating,?_,?_,hinv.calls⟩
  · intro slug' target hf
    rcases hget slug' _ hf with ⟨rfl,hv⟩ | hold
    · cases row with
      | none => cases hv
      | some target' =>
        cases hv
        exact hfound target rfl
    · exact hinv.found slug' target hold
  · intro slug' hm
    rcases hget slug' _ hm with ⟨rfl,hv⟩ | hold
    · cases row with
      | none => exact hmissing rfl
      | some target' => cases hv
    · exact hinv.missing slug' hold

theorem promised_stored {target : Target}
    (hinv : Visible scope s) (hc : CallSound s.links s.created c) (hp : c.promised = some target) :
    s.links.get c.slug = some target :=
  hinv.stored c.slug target (hc.promised target hp)

theorem callSound_returned (outcome : CacheOutcome)
    {row : Option Target} (hinv : Visible scope s) (hc : CallSound s.links s.created c)
    (hrow : ∀ target, c.promised = some target → s.links.get c.slug = some target →
      row = some target) :
    CallSound s.links s.created { c with phase := .returned ⟨outcome,row⟩ } := by
  constructor
  · exact hc.promised
  · intro target h
    cases h
  · intro h
    cases h
  · intro r target hr hp
    cases hr
    exact hrow target hp (promised_stored hinv hc hp)

theorem callSound_selecting (degraded : Bool)
    (hc : CallSound s.links s.created c) :
    CallSound s.links s.created { c with phase := .selecting degraded } := by
  refine ⟨hc.promised,?_,?_,?_⟩
  · intro target h
    cases h
  · intro h
    cases h
  · intro r target h
    cases h

theorem filling_row (s : ResolveState) (c : ResolveCall) (row : Option Target)
    (hinv : Visible scope s) (hc : CallSound s.links s.created c) (hphase : c.phase = .filling row)
    (target : Target) (hp : c.promised = some target) : row = some target := by
  cases row with
  | none =>
    have hnone := hc.absent hphase
    rw [hc.promised target hp] at hnone
    cases hnone
  | some row =>
    have hrow := hc.filling row hphase
    rw [promised_stored hinv hc hp] at hrow
    exact hrow.symm

theorem visible_resolve {p : ResolvePhase}
    {cache : Dict Text Cached} (hinv : Visible scope s) (hc : s.calls.get n = some c)
    (h : resolveNext scope s c = some (p,cache)) :
    Visible scope { s with calls := s.calls.set n { c with phase := p }, cache := cache } := by
  have hsound := hinv.calls n c hc
  unfold resolveNext at h
  split at h
  · -- the cache answers, or it does not know the slug
    split at h
    · rename_i target hcached
      cases h
      apply visible_call n hinv
      apply callSound_returned .hit hinv hsound
      intro target' _ hstored
      rw [← hstored, hinv.found c.slug target hcached]
    · -- a negative entry is about a slug that no returned `create_link` has created
      rename_i hcached
      cases h
      apply visible_call n hinv
      apply callSound_returned .negative hinv hsound
      intro target hp _
      have hnone := hinv.missing c.slug hcached
      rw [hsound.promised target hp] at hnone
      cases hnone
    · cases h
      exact visible_call n hinv (callSound_selecting false hsound)
  · -- the SELECT: an absence it finds is one of a slug not yet created
    cases h
    apply visible_call n hinv
    refine ⟨hsound.promised,?_,?_,?_⟩
    · intro target hf
      exact ResolvePhase.filling.inj hf
    · intro hf
      cases hcreated : s.created.get c.slug with
      | none => rfl
      | some target =>
        have hstored := hinv.stored c.slug target hcreated
        rw [ResolvePhase.filling.inj hf] at hstored
        cases hstored
    · intro r target hr
      cases hr
  · cases h
    apply visible_call n hinv
    apply callSound_returned .degraded hinv hsound
    intro target _ hstored
    exact hstored
  · -- the back-fill, sound because the delete has waited for absences
    rename_i row hphase
    cases h
    have hfill := visible_fill hinv (fun target hr => hsound.filling target (hr ▸ hphase))
      (fun hr => hsound.absent (hr ▸ hphase))
    apply visible_call n hfill
    apply callSound_returned .miss hinv hsound
    intro target hp _
    exact filling_row s c row hinv hsound hphase target hp
  · cases h

theorem visible_insert (n : ℕ) (target : Target)
    (hinv : Visible scope s) (hnew : s.links.get slug = none) :
    Visible scope { s with links := s.links.set slug target,
                           creating := s.creating.set n slug } := by
  -- links are never changed, so a new one keeps what was known of the others
  have hgrow (slug' : Text) (target' : Target) (h : s.links.get slug' = some target') :
      (s.links.set slug target).get slug' = some target' := by
    rw [get_set_ne ?_, h]
    intro he
    rw [he, hnew] at h
    cases h
  refine ⟨?_,?_,?_,hinv.missing,?_⟩
  · intro slug' target' hc
    exact hgrow slug' target' (hinv.stored slug' target' hc)
  · apply forall_get_set
    · intro k slug' hk
      obtain ⟨target',ht⟩ := hinv.creating k slug' hk
      exact ⟨target',hgrow slug' target' ht⟩
    · exact ⟨target,get_set_self⟩
  · intro slug' target' hf
    exact hgrow slug' target' (hinv.found slug' target' hf)
  · intro k c hc
    have hsound := hinv.calls k c hc
    refine ⟨hsound.promised,?_,hsound.absent,hsound.returned⟩
    intro target' hf
    exact hgrow c.slug target' (hsound.filling target' hf)

theorem absencesFilled_delete
    (h : absencesFilled s (.delete n) = true) (hn : s.creating.get n = some slug) {k : ℕ}
    (hc : s.calls.get k = some c) (hslug : c.slug = slug) :
    c.phase ≠ .filling none := by
  simp only [absencesFilled, hn, List.all_eq_true] at h
  have hk := h (k,c) (get_eq_some_iff.mp hc)
  simpa [hslug] using hk

theorem visible_delete {target : Target}
    (hinv : Visible scope s) (hok : absencesFilled s (.delete n) = true)
    (hn : s.creating.get n = some slug) (ht : s.links.get slug = some target) :
    Visible scope { s with cache := s.cache.erase (cacheKey scope slug),
                           creating := s.creating.erase n,
                           created := s.created.set slug target } := by
  have hbase := visible_erase (cacheKey scope slug) hinv
  refine ⟨?_,?_,hbase.found,?_,?_⟩
  · intro slug' target' hc
    rcases eq_or_get_of_get_set hc with
      ⟨rfl,rfl⟩ | ⟨_,hc⟩
    · exact ht
    · exact hinv.stored slug' target' hc
  · intro k slug' hk
    exact hinv.creating k slug' (get_of_get_erase hk)
  · -- a negative entry of this slug has just been deleted
    intro slug' hm
    have hne : slug' ≠ slug := by
      intro he
      have hm : (s.cache.erase (cacheKey scope slug)).get (cacheKey scope slug') = _ := hm
      rw [he, get_erase_self] at hm
      cases hm
    exact (get_set_ne hne).trans (hbase.missing slug' hm)
  · intro k c hc
    have hsound := hinv.calls k c hc
    refine ⟨?_,hsound.filling,?_,hsound.returned⟩
    · intro target' hp
      have hold := hsound.promised target' hp
      by_cases he : c.slug = slug
      · have hstored := hinv.stored c.slug target' hold
        rw [he, ht] at hstored
        rw [he, get_set_self]
        exact hstored
      · exact (get_set_ne he).trans hold
    · -- where the condition of the run is needed
      intro hf
      have hne : c.slug ≠ slug := fun he => absencesFilled_delete hok hn hc he hf
      exact (get_set_ne hne).trans (hsound.absent hf)

theorem visible_step {t : ResolveState} {a : ResolveAction} (hinv : Visible scope s)
    (hok : absencesFilled s a = true) (h : resolveStep scope s a = some t) :
    Visible scope t := by
  cases a with
  | start n slug =>
    simp only [resolveStep] at h
    split_ifs at h
    cases h
    apply visible_call n hinv
    refine ⟨fun target hp => hp,?_,?_,?_⟩
    · intro target hf
      cases hf
    · intro hf
      cases hf
    · intro r target hr
      cases hr
  | resolve n =>
    simp only [resolveStep] at h
    split at h
    · cases h
    · rename_i c hc
      obtain ⟨⟨p,cache⟩,hnext,rfl⟩ := map_eq_some_iff.mp h
      exact visible_resolve hinv hc hnext
  | readFails n =>
    simp only [resolveStep] at h
    split at h
    · rename_i slug promised hc
      cases h
      exact visible_call n hinv (callSound_selecting true (hinv.calls n _ hc))
    · cases h
  | fillFails n =>
    simp only [resolveStep] at h
    split at h
    · rename_i slug row promised hc
      cases h
      have hsound := hinv.calls n _ hc
      apply visible_call n hinv
      apply callSound_returned .miss hinv hsound
      intro target hp _
      exact filling_row s _ row hinv hsound rfl target hp
    · cases h
  | insert n slug target =>
    simp only [resolveStep] at h
    split_ifs at h with hfree
    cases h
    apply visible_insert n target hinv
    simp only [Bool.or_eq_true, not_or, insertable, Bool.not_eq_true', Bool.not_eq_false,
      Bool.and_eq_true, decide_eq_true_eq] at hfree
    exact hfree.2.1
  | delete n =>
    simp only [resolveStep] at h
    split at h
    · cases h
    · rename_i slug hn
      split at h
      · cases h
      · rename_i target ht
        cases h
        exact visible_delete hinv hok hn ht
  | expire key =>
    cases h
    exact visible_erase key hinv

variable (scope)

/-- If no call has an absence to back-fill at the delete, a call that starts after `create_link`
yields the link. -/
theorem created_link_visible (s : ResolveState)
    (hs : Reachable resolveInitial (resolveStep scope) (fun u a => absencesFilled u a = true) s)
    (n : ℕ) (slug : Text) (r : Resolved) (target : Target)
    (hn : s.calls.get n = some ⟨slug,.returned r,some target⟩) : r.link = some target := by
  have hinv : Visible scope s := reachable_invariant (Visible scope) (visible_initial scope)
    (fun u v a hu hok hstep => visible_step hu hok hstep) s hs
  exact (hinv.calls n _ hn).returned r target rfl rfl

end

def emptyCache : ResolveState :=
  { cache := Dict.empty, links := Dict.empty, calls := Dict.empty, creating := Dict.empty,
    created := Dict.empty }

theorem emptyCache_initial : resolveInitial emptyCache := ⟨rfl,rfl,rfl,rfl,rfl⟩

def brand : Text := "my-brand".toList

def brandTarget : Target := (1,"https://example.com/".toList)

/-- Somebody probed for the slug before it was created, and a call after that finds it. -/
theorem created_link_visible_brand : ∃ s r,
    Reachable resolveInitial (resolveStep []) (fun u a => absencesFilled u a = true) s ∧
    s.calls.get 1 = some ⟨brand,.returned r,some brandTarget⟩ ∧ r.link = some brandTarget := by
  obtain ⟨s,hs,hn⟩ := reachable_of_checkedRun resolveInitial (resolveStep []) absencesFilled
    (P := fun s => s.calls.get 1 =
      some ⟨brand,.returned ⟨.miss,some brandTarget⟩,some brandTarget⟩)
    [.start 0 brand, .resolve 0, .resolve 0, .resolve 0, .insert 0 brand brandTarget, .delete 0,
      .start 1 brand, .resolve 1, .resolve 1, .resolve 1] emptyCache
    emptyCache_initial (by decide +kernel)
  exact ⟨s,_,hs,hn,created_link_visible [] s hs 1 brand _ brandTarget hn⟩

/-- A call that selected before the INSERT fills in the absence after the delete. -/
theorem created_link_hidden : ∃ s, Reachable resolveInitial (resolveStep []) anyStep s ∧
    s.calls.get 1 = some ⟨brand,.returned ⟨.negative,none⟩,some brandTarget⟩ :=
  reachable_of_run _ _
    [.start 0 brand, .resolve 0, .resolve 0, .insert 0 brand brandTarget, .delete 0,
      .resolve 0, .start 1 brand, .resolve 1] emptyCache emptyCache_initial (by decide +kernel)

end BackendGauntlet.UrlShortener
