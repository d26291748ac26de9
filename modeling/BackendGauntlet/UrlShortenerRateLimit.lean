import BackendGauntlet.Dict
import BackendGauntlet.Gcra
import BackendGauntlet.PyText

/-! The rate limiter of the write path: one arrival time for each API key. -/
namespace BackendGauntlet.UrlShortener

open PyText Gcra List

structure RateLimiter where
  periodNs : ℤ
  burst : ℤ
  period_pos : 0 < periodNs
  burst_pos : 1 ≤ burst

def RateLimiter.toleranceNs (l : RateLimiter) : ℤ := (l.burst-1)*l.periodNs

structure RateState where
  tatNs : Dict Text ℤ
  pruneAt : ℕ

/-- `retryAfterNs` is the value that `retry_after` gives in seconds. -/
structure Decision where
  allowed : Bool
  remaining : ℤ
  limit : ℤ
  retryAfterNs : ℤ
deriving DecidableEq

def pruneThreshold : ℕ := 10000

def RateState.new : RateState := ⟨Dict.empty,pruneThreshold⟩

def RateState.prune (s : RateState) (nowNs : ℤ) : RateState :=
  let kept := s.tatNs.filter (fun _ tat => tat > nowNs)
  ⟨kept,max pruneThreshold (2*kept.entries.length)⟩

def RateLimiter.check (l : RateLimiter) (s : RateState) (key : Text) (nowNs : ℤ) :
    Decision × RateState :=
  let tat := max ((s.tatNs.get key).getD nowNs) nowNs
  if tat-nowNs > l.toleranceNs then
    (⟨false,0,l.burst,tat-l.toleranceNs-nowNs⟩,s)
  else
    let newTat := tat+l.periodNs
    let charged : RateState := { s with tatNs := s.tatNs.set key newTat }
    (⟨true,max 0 ((nowNs+l.toleranceNs-newTat)/l.periodNs+1),l.burst,0⟩,
      if charged.tatNs.entries.length > charged.pruneAt then charged.prune nowNs else charged)

def RateLimiter.checkKeeping (l : RateLimiter) (tats : Dict Text ℤ) (key : Text) (nowNs : ℤ) :
    Decision × Dict Text ℤ :=
  let tat := max ((tats.get key).getD nowNs) nowNs
  if tat-nowNs > l.toleranceNs then
    (⟨false,0,l.burst,tat-l.toleranceNs-nowNs⟩,tats)
  else
    let newTat := tat+l.periodNs
    (⟨true,max 0 ((nowNs+l.toleranceNs-newTat)/l.periodNs+1),l.burst,0⟩,
      tats.set key newTat)

inductive RateEvent
  | check (key : Text) (nowNs : ℤ)
  | prune (nowNs : ℤ)

def RateEvent.nowNs : RateEvent → ℤ
  | .check _ nowNs => nowNs
  | .prune nowNs => nowNs

def InOrder (events : List RateEvent) : Prop :=
  events.Pairwise (fun a b => a.nowNs ≤ b.nowNs)

structure Checked where
  key : Text
  nowNs : ℤ
  decision : Decision
deriving DecidableEq

section
variable (l : RateLimiter)

def RateLimiter.after (s : RateState) (events : List RateEvent) : RateState :=
  events.foldl (fun s e =>
    match e with
    | .check key nowNs => (l.check s key nowNs).2
    | .prune nowNs => s.prune nowNs) s

def RateLimiter.decisions : RateState → List RateEvent → List Checked
  | _, [] => []
  | s, .check key nowNs :: events =>
    ⟨key,nowNs,(l.check s key nowNs).1⟩ :: decisions (l.check s key nowNs).2 events
  | s, .prune nowNs :: events => decisions (s.prune nowNs) events

def RateLimiter.keptAfter (tats : Dict Text ℤ) (events : List RateEvent) : Dict Text ℤ :=
  events.foldl (fun tats e =>
    match e with
    | .check key nowNs => (l.checkKeeping tats key nowNs).2
    | .prune _ => tats) tats

def RateLimiter.keptDecisions : Dict Text ℤ → List RateEvent → List Checked
  | _, [] => []
  | tats, .check key nowNs :: events =>
    ⟨key,nowNs,(l.checkKeeping tats key nowNs).1⟩ ::
      keptDecisions (l.checkKeeping tats key nowNs).2 events
  | tats, .prune _ :: events => keptDecisions tats events

def RateLimiter.decisionAfter (events : List RateEvent) (key : Text) (nowNs : ℤ) : Decision :=
  (l.check (l.after .new events) key nowNs).1

end

def arrivals (key : Text) (events : List RateEvent) : List ℤ :=
  events.filterMap (fun e =>
    match e with
    | .check key' nowNs => if key' = key then some nowNs else none
    | .prune _ => none)

def allowedTimes (key : Text) (log : List Checked) : List ℤ :=
  (log.filter (fun c => c.decision.allowed && c.key = key)).map Checked.nowNs

/-! ## One key of the limiter that never prunes -/

theorem arrivals_check (key : Text) (nowNs : ℤ) (events : List RateEvent) :
    arrivals key (.check key nowNs :: events) = nowNs :: arrivals key events := by
  simp [arrivals]

theorem arrivals_check_ne {key' key : Text} (nowNs : ℤ) (events : List RateEvent)
    (hk : key' ≠ key) : arrivals key (.check key' nowNs :: events) = arrivals key events := by
  simp [arrivals, hk]

theorem arrivals_append (key : Text) (events events' : List RateEvent) :
    arrivals key (events ++ events') = arrivals key events ++ arrivals key events' :=
  filterMap_append

theorem arrivals_checks (key : Text) (times : List ℤ) :
    arrivals key (times.map (.check key)) = times := by
  induction times with
  | nil => rfl
  | cons t times ih => rw [map_cons, arrivals_check, ih]

variable {events : List RateEvent} {nowNs : ℤ} {tats : Dict Text ℤ}

theorem exists_of_mem_arrivals {key : Text} {t : ℤ}
    (h : t ∈ arrivals key events) : ∃ e ∈ events, e.nowNs = t := by
  obtain ⟨e,he,hte⟩ := mem_filterMap.mp h
  refine ⟨e,he,?_⟩
  cases e with
  | prune _ => cases hte
  | check key' eNs =>
    simp only [Option.ite_none_right_eq_some, Option.some.injEq] at hte
    exact hte.2

theorem arrivals_sorted (key : Text) (h : InOrder events) :
    (arrivals key events).Pairwise (· ≤ ·) := by
  induction events with
  | nil => exact List.Pairwise.nil
  | cons e events ih =>
    obtain ⟨hnext,hrest⟩ := pairwise_cons.mp h
    cases e with
    | prune _ => exact ih hrest
    | check key' eNs =>
      by_cases hk : key' = key
      · subst hk
        rw [arrivals_check]
        refine pairwise_cons.mpr ⟨?_,ih hrest⟩
        intro t ht
        obtain ⟨e,he,rfl⟩ := exists_of_mem_arrivals ht
        exact hnext e he
      · rw [arrivals_check_ne eNs events hk]
        exact ih hrest

section
variable (l : RateLimiter)

def RateLimiter.decisionAt (tat : Option ℤ) (nowNs : ℤ) : Decision :=
  if admits l.toleranceNs tat nowNs then
    ⟨true,room l.periodNs l.toleranceNs (charge l.periodNs l.toleranceNs tat nowNs) nowNs,
      l.burst,0⟩
  else ⟨false,0,l.burst,due tat nowNs-l.toleranceNs-nowNs⟩

theorem toleranceNs_nonneg : 0 ≤ l.toleranceNs :=
  mul_nonneg (by have := l.burst_pos; omega) l.period_pos.le

theorem decisionAt_allowed {tat : Option ℤ} :
    (l.decisionAt tat nowNs).allowed = admits l.toleranceNs tat nowNs := by
  unfold RateLimiter.decisionAt
  split_ifs with h
  · exact h.symm
  · exact (Bool.not_eq_true _ ▸ h).symm

theorem decisionAt_congr {tat tat' : Option ℤ} (h : due tat nowNs = due tat' nowNs) :
    l.decisionAt tat nowNs = l.decisionAt tat' nowNs := by
  have hadmits : admits l.toleranceNs tat nowNs = admits l.toleranceNs tat' nowNs := by
    simp only [admits, h]
  cases ha : admits l.toleranceNs tat' nowNs with
  | true =>
    rw [ha] at hadmits
    simp [RateLimiter.decisionAt, charge, hadmits, ha, h]
  | false =>
    rw [ha] at hadmits
    simp [RateLimiter.decisionAt, hadmits, ha, h]

theorem checkKeeping_eq (tats : Dict Text ℤ) (key : Text) (nowNs : ℤ) :
    l.checkKeeping tats key nowNs =
      (l.decisionAt (tats.get key) nowNs,
        if admits l.toleranceNs (tats.get key) nowNs then
          tats.set key (due (tats.get key) nowNs+l.periodNs)
        else tats) := by
  have hdue : max ((tats.get key).getD nowNs) nowNs = due (tats.get key) nowNs := rfl
  unfold RateLimiter.checkKeeping RateLimiter.decisionAt
  simp only [hdue]
  cases ha : admits l.toleranceNs (tats.get key) nowNs with
  | true =>
    have hle : due (tats.get key) nowNs-nowNs ≤ l.toleranceNs := of_decide_eq_true ha
    have hnew : due (some (due (tats.get key) nowNs+l.periodNs)) nowNs =
        due (tats.get key) nowNs+l.periodNs := by
      have h1 := le_due (tats.get key) nowNs
      have h2 := l.period_pos
      exact max_eq_left (by simp only [Option.getD_some]; omega)
    simp [hle.not_gt, room, charge, ha, hnew]
  | false =>
    have hgt : l.toleranceNs < due (tats.get key) nowNs-nowNs :=
      not_le.mp (of_decide_eq_false ha)
    simp [hgt]

theorem checkKeeping_get (tats : Dict Text ℤ) (key key' : Text) (nowNs : ℤ) :
    (l.checkKeeping tats key' nowNs).2.get key =
      if key' = key then charge l.periodNs l.toleranceNs (tats.get key) nowNs
      else tats.get key := by
  rw [checkKeeping_eq]
  by_cases hk : key' = key
  · subst hk
    simp only [if_true, charge]
    split_ifs with ha
    · exact Dict.get_set_self
    · rfl
  · simp only [hk, if_false]
    split_ifs with ha
    · exact Dict.get_set_ne (Ne.symm hk)
    · rfl

theorem keptAfter_get (tats : Dict Text ℤ) (events : List RateEvent) (key : Text) :
    (l.keptAfter tats events).get key =
      Gcra.after l.periodNs l.toleranceNs (tats.get key) (arrivals key events) := by
  induction events generalizing tats with
  | nil => rfl
  | cons e events ih =>
    cases e with
    | check key' nowNs =>
      have hrest := ih (l.checkKeeping tats key' nowNs).2
      rw [checkKeeping_get] at hrest
      by_cases hk : key' = key
      · subst hk
        rw [if_pos rfl] at hrest
        rw [arrivals_check]
        exact hrest
      · rw [if_neg hk] at hrest
        rw [arrivals_check_ne nowNs events hk]
        exact hrest
    | prune nowNs => exact ih tats

theorem allowedTimes_kept (tats : Dict Text ℤ) (events : List RateEvent) (key : Text) :
    allowedTimes key (l.keptDecisions tats events) =
      admitted l.periodNs l.toleranceNs (tats.get key) (arrivals key events) := by
  induction events generalizing tats with
  | nil => rfl
  | cons e events ih =>
    cases e with
    | prune nowNs => exact ih tats
    | check key' nowNs =>
      have hrest := ih (l.checkKeeping tats key' nowNs).2
      rw [checkKeeping_get] at hrest
      have hdecision : (l.checkKeeping tats key' nowNs).1.allowed =
          admits l.toleranceNs (tats.get key') nowNs := by
        rw [checkKeeping_eq]
        exact decisionAt_allowed l
      by_cases hk : key' = key
      · subst hk
        rw [if_pos rfl] at hrest
        rw [arrivals_check]
        cases ha : admits l.toleranceNs (tats.get key') nowNs with
        | true =>
          rw [admitted, if_pos ha, ← hrest]
          simp [allowedTimes, RateLimiter.keptDecisions, hdecision, ha]
        | false =>
          rw [charge_denied _ _ ha] at hrest
          rw [admitted, if_neg (by simp [ha]), ← hrest]
          simp [allowedTimes, RateLimiter.keptDecisions, hdecision, ha]
      · rw [if_neg hk] at hrest
        rw [arrivals_check_ne nowNs events hk, ← hrest]
        simp [allowedTimes, RateLimiter.keptDecisions, hk]

/-! ## Pruning -/

def SameDue (nowNs : ℤ) (tats tats' : Dict Text ℤ) : Prop :=
  ∀ key, due (tats.get key) nowNs = due (tats'.get key) nowNs

theorem sameDue_later {laterNs : ℤ} {tats' : Dict Text ℤ}
    (h : SameDue nowNs tats tats') (hle : nowNs ≤ laterNs) : SameDue laterNs tats tats' :=
  fun key => due_congr (h key) hle

theorem sameDue_prune {s : RateState}
    (h : SameDue nowNs s.tatNs tats) : SameDue nowNs (s.prune nowNs).tatNs tats := by
  intro key
  rw [← h key]
  change due ((s.tatNs.filter _).get key) nowNs = _
  rw [Dict.get_filter]
  cases s.tatNs.get key with
  | none => rfl
  | some tat =>
    -- a time that is not ahead of now is no different from none
    by_cases hgt : nowNs < tat
    · rw [Option.filter_some_pos (by simpa using hgt)]
    · rw [Option.filter_some_neg (by simpa using hgt)]
      simp [due, not_lt.mp hgt]

theorem check_eq (s : RateState) (key : Text) (nowNs : ℤ) :
    (l.check s key nowNs).1 = (l.checkKeeping s.tatNs key nowNs).1 ∧
      ((l.check s key nowNs).2.tatNs = (l.checkKeeping s.tatNs key nowNs).2 ∨
        (l.check s key nowNs).2 =
          ({ s with tatNs := (l.checkKeeping s.tatNs key nowNs).2 } : RateState).prune nowNs) := by
  simp only [RateLimiter.check, RateLimiter.checkKeeping]
  split_ifs
  · exact ⟨rfl,Or.inl rfl⟩
  · exact ⟨rfl,Or.inr rfl⟩
  · exact ⟨rfl,Or.inl rfl⟩

theorem sameDue_checkKeeping {tats' : Dict Text ℤ} (key : Text)
    (h : SameDue nowNs tats tats') :
    (l.checkKeeping tats key nowNs).1 = (l.checkKeeping tats' key nowNs).1 ∧
      SameDue nowNs (l.checkKeeping tats key nowNs).2 (l.checkKeeping tats' key nowNs).2 := by
  constructor
  · rw [checkKeeping_eq, checkKeeping_eq]
    exact decisionAt_congr l (h key)
  · intro key'
    rw [checkKeeping_get, checkKeeping_get]
    split_ifs with hk
    · have hadmits : admits l.toleranceNs (tats.get key') nowNs =
          admits l.toleranceNs (tats'.get key') nowNs := by
        simp only [admits, h key']
      unfold charge
      rw [hadmits]
      split_ifs
      · rw [h key']
      · exact h key'
    · exact h key'

theorem sameDue_check (nowNs : ℤ) (s : RateState) (tats : Dict Text ℤ) (key : Text)
    (h : SameDue nowNs s.tatNs tats) :
    (l.check s key nowNs).1 = (l.checkKeeping tats key nowNs).1 ∧
      SameDue nowNs (l.check s key nowNs).2.tatNs (l.checkKeeping tats key nowNs).2 := by
  obtain ⟨hdecision,hstate⟩ := check_eq l s key nowNs
  obtain ⟨hsame,hnext⟩ := sameDue_checkKeeping l key h
  refine ⟨hdecision.trans hsame,?_⟩
  rcases hstate with hstate | hstate
  · rw [hstate]
    exact hnext
  · rw [hstate]
    exact sameDue_prune hnext

/-- Pruning changes no decision. -/
theorem decisions_kept (nowNs : ℤ) (s : RateState) (tats : Dict Text ℤ) (events : List RateEvent)
    (h : SameDue nowNs s.tatNs tats) (horder : InOrder events)
    (hfrom : ∀ e ∈ events, nowNs ≤ e.nowNs) :
    l.decisions s events = l.keptDecisions tats events ∧
      ∀ laterNs, nowNs ≤ laterNs → (∀ e ∈ events, e.nowNs ≤ laterNs) →
        SameDue laterNs (l.after s events).tatNs (l.keptAfter tats events) := by
  induction events generalizing nowNs s tats with
  | nil =>
    refine ⟨rfl,fun laterNs hle _ => ?_⟩
    exact sameDue_later h hle
  | cons e events ih =>
    obtain ⟨hnext,hrest⟩ := pairwise_cons.mp horder
    have hnow := sameDue_later h (hfrom e mem_cons_self)
    cases e with
    | check key eNs =>
      obtain ⟨hdecision,hsame⟩ := sameDue_check l eNs s tats key hnow
      obtain ⟨hlog,hstate⟩ := ih eNs _ _ hsame hrest hnext
      constructor
      · rw [RateLimiter.decisions, RateLimiter.keptDecisions, hdecision, hlog]
      · intro laterNs _ hall
        exact hstate laterNs (hall _ mem_cons_self) (fun e he => hall e (mem_cons_of_mem _ he))
    | prune eNs =>
      obtain ⟨hlog,hstate⟩ := ih eNs _ _ (sameDue_prune hnow) hrest hnext
      refine ⟨hlog,fun laterNs _ hall => ?_⟩
      exact hstate laterNs (hall _ mem_cons_self) (fun e he => hall e (mem_cons_of_mem _ he))

/-! ## The limiter -/

theorem decisions_new (horder : InOrder events) :
    l.decisions .new events = l.keptDecisions Dict.empty events := by
  cases events with
  | nil => rfl
  | cons e events =>
    refine (decisions_kept l e.nowNs .new Dict.empty (e :: events) (fun _ => rfl) horder ?_).1
    intro e' he'
    rcases mem_cons.mp he' with rfl | he'
    · exact le_refl _
    · exact (pairwise_cons.mp horder).1 e' he'

theorem sameDue_new (horder : InOrder events)
    (hall : ∀ e ∈ events, e.nowNs ≤ nowNs) :
    SameDue nowNs (l.after .new events).tatNs (l.keptAfter Dict.empty events) := by
  cases events with
  | nil => exact fun _ => rfl
  | cons e events =>
    refine (decisions_kept l e.nowNs .new Dict.empty (e :: events) (fun _ => rfl) horder ?_).2
      nowNs (hall e mem_cons_self) hall
    intro e' he'
    rcases mem_cons.mp he' with rfl | he'
    · exact le_refl _
    · exact (pairwise_cons.mp horder).1 e' he'

def RateLimiter.tatAfter (events : List RateEvent) (key : Text) : Option ℤ :=
  Gcra.after l.periodNs l.toleranceNs none (arrivals key events)

theorem decisionAfter_eq (key : Text) (nowNs : ℤ)
    (horder : InOrder events) (hall : ∀ e ∈ events, e.nowNs ≤ nowNs) :
    l.decisionAfter events key nowNs = l.decisionAt (l.tatAfter events key) nowNs := by
  have hsame := sameDue_new l horder hall
  rw [RateLimiter.decisionAfter, (sameDue_check l nowNs _ _ key hsame).1, checkKeeping_eq,
    keptAfter_get]
  rfl

theorem tatAfter_append (events events' : List RateEvent) (key : Text) :
    l.tatAfter (events ++ events') key =
      Gcra.after l.periodNs l.toleranceNs (l.tatAfter events key) (arrivals key events') := by
  rw [RateLimiter.tatAfter, arrivals_append]
  exact foldl_append

theorem inOrder_append {e : RateEvent}
    (h : InOrder (events ++ [e])) : InOrder events ∧ ∀ e' ∈ events, e'.nowNs ≤ e.nowNs := by
  obtain ⟨hev,_,hle⟩ := pairwise_append.mp h
  exact ⟨hev,fun e' he' => hle e' he' e (mem_singleton.mpr rfl)⟩

theorem allowedTimes_new (key : Text) (horder : InOrder events) :
    allowedTimes key (l.decisions .new events) =
      admitted l.periodNs l.toleranceNs none (arrivals key events) := by
  rw [decisions_new l horder, allowedTimes_kept]
  rfl

/-- With only other keys' requests and prunings in between, the wait that was told is exact. -/
theorem decisionAfter_denied (events others : List RateEvent) (key : Text) (nowNs laterNs : ℤ)
    (horder : InOrder (events ++ .check key nowNs :: others ++ [.check key laterNs]))
    (hothers : arrivals key others = [])
    (hdenied : (l.decisionAfter events key nowNs).allowed = false) :
    (l.decisionAfter (events ++ .check key nowNs :: others) key laterNs).allowed = true ↔
      nowNs+(l.decisionAfter events key nowNs).retryAfterNs ≤ laterNs := by
  obtain ⟨horder',hlater⟩ := inOrder_append horder
  obtain ⟨hevents,_,hcross⟩ := pairwise_append.mp horder'
  have hbefore : ∀ e ∈ events, e.nowNs ≤ nowNs := fun e he => hcross e he _ mem_cons_self
  have hle : nowNs ≤ laterNs := hlater (.check key nowNs) (by simp)
  rw [decisionAfter_eq l key laterNs horder' hlater, decisionAfter_eq l key nowNs hevents hbefore]
  rw [decisionAfter_eq l key nowNs hevents hbefore, decisionAt_allowed] at hdenied
  -- the refused request and the others have left the key's state alone
  have hstate : l.tatAfter (events ++ .check key nowNs :: others) key = l.tatAfter events key := by
    rw [tatAfter_append, arrivals_check, hothers]
    exact charge_denied _ _ hdenied
  rw [hstate, decisionAt_allowed, admits_after_denial _ (toleranceNs_nonneg l) hle]
  have hwait : (l.decisionAt (l.tatAfter events key) nowNs).retryAfterNs =
      due (l.tatAfter events key) nowNs-l.toleranceNs-nowNs := by
    simp [RateLimiter.decisionAt, hdenied]
  rw [hwait]
  omega

/-- The requests of the key that come in the same instant after an allowed one. -/
theorem decisionAfter_remaining (events more : List RateEvent) (key : Text) (nowNs : ℤ)
    (horder : InOrder (events ++ [.check key nowNs])) (hmore : ∀ e ∈ more, e.nowNs = nowNs)
    (hallowed : (l.decisionAfter events key nowNs).allowed = true) :
    ((allowedTimes key (l.decisions (l.after .new (events ++ [.check key nowNs])) more)).length : ℤ)
      = min ((arrivals key more).length : ℤ) (l.decisionAfter events key nowNs).remaining := by
  obtain ⟨hevents,hbefore⟩ := inOrder_append horder
  have hall : ∀ e ∈ events ++ [RateEvent.check key nowNs], e.nowNs ≤ nowNs := by
    intro e he
    rcases mem_append.mp he with he | he
    · exact hbefore e he
    · exact (congrArg RateEvent.nowNs (mem_singleton.mp he)).le
  have hmoreOrder : InOrder more := by
    apply pairwise_of_forall_mem_list
    intro a ha b hb
    rw [hmore a ha, hmore b hb]
  have hnow : ∀ t ∈ arrivals key more, t = nowNs := by
    intro t ht
    obtain ⟨e,he,rfl⟩ := exists_of_mem_arrivals ht
    exact hmore e he
  have hsame := sameDue_new l horder hall
  rw [(decisions_kept l nowNs _ _ more hsame hmoreOrder (fun e he => (hmore e he).ge)).1,
    allowedTimes_kept, keptAfter_get,
    admitted_together _ _ l.period_pos _ nowNs _ hnow]
  rw [decisionAfter_eq l key nowNs hevents hbefore, decisionAt_allowed] at hallowed
  rw [decisionAfter_eq l key nowNs hevents hbefore]
  have hstate : Gcra.after l.periodNs l.toleranceNs none
      (arrivals key (events ++ [.check key nowNs])) =
      charge l.periodNs l.toleranceNs (l.tatAfter events key) nowNs := by
    change l.tatAfter _ key = _
    rw [tatAfter_append, arrivals_check]
    rfl
  rw [Dict.get_empty, hstate]
  simp [RateLimiter.decisionAt, hallowed]

/-- The limiter is an exact GCRA: its bound per window, its waits and what it says remains; refused
requests, other keys and pruning make no difference. -/
theorem rate_limiter_exact :
    (∀ events, InOrder events → ∀ (key : Text) (start : ℤ) (width : ℕ),
      ((allowedTimes key (l.decisions .new events)).countP (inWindow start width) : ℤ) ≤
        l.burst+width/l.periodNs) ∧
    (∀ events others key nowNs laterNs,
      InOrder (events ++ .check key nowNs :: others ++ [.check key laterNs]) →
      arrivals key others = [] → (l.decisionAfter events key nowNs).allowed = false →
      ((l.decisionAfter (events ++ .check key nowNs :: others) key laterNs).allowed = true ↔
        nowNs+(l.decisionAfter events key nowNs).retryAfterNs ≤ laterNs)) ∧
    (∀ events more key nowNs, InOrder (events ++ [.check key nowNs]) →
      (∀ e ∈ more, e.nowNs = nowNs) → (l.decisionAfter events key nowNs).allowed = true →
      ((allowedTimes key
          (l.decisions (l.after .new (events ++ [.check key nowNs])) more)).length : ℤ) =
        min ((arrivals key more).length : ℤ) (l.decisionAfter events key nowNs).remaining) ∧
    (∀ events, InOrder events → l.decisions .new events = l.keptDecisions Dict.empty events ∧
      ∀ key nowNs, (∀ e ∈ events, e.nowNs ≤ nowNs) →
        l.decisionAfter events key nowNs =
          l.decisionAfter ((allowedTimes key (l.decisions .new events)).map (.check key)) key
            nowNs) := by
  refine ⟨?_,decisionAfter_denied l,decisionAfter_remaining l,?_⟩
  · intro events horder key start width
    rw [allowedTimes_new l key horder]
    exact admitted_window _ l.period_pos l.burst_pos start width none
  · intro events horder
    refine ⟨decisions_new l horder,?_⟩
    intro key nowNs hall
    rw [allowedTimes_new l key horder]
    have hsub := admitted_sublist l.periodNs l.toleranceNs none (arrivals key events)
    have hsorted := (arrivals_sorted key horder).sublist hsub
    rw [decisionAfter_eq l key nowNs horder hall, decisionAfter_eq l key nowNs]
    · rw [RateLimiter.tatAfter, RateLimiter.tatAfter, arrivals_checks, after_admitted]
    · exact pairwise_map.mpr hsorted
    · intro e he
      obtain ⟨t,ht,rfl⟩ := List.mem_map.mp he
      obtain ⟨e',he',rfl⟩ := exists_of_mem_arrivals (hsub.subset ht)
      exact hall e' he'

end

def pairLimiter : RateLimiter := ⟨200,2,by decide,by decide⟩

def noisyKey : Text := "noisy".toList

def quietKey : Text := "quiet".toList

/-- A third request at once is refused for 200 ns, whatever other keys do meanwhile. -/
theorem rate_limiter_exact_pair :
    InOrder ([.check noisyKey 0, .check noisyKey 0] ++ .check noisyKey 0 ::
      [.check quietKey 50, .prune 60] ++ [.check noisyKey 200]) ∧
    (pairLimiter.decisionAfter [.check noisyKey 0, .check noisyKey 0] noisyKey 0).allowed = false ∧
    (pairLimiter.decisionAfter ([.check noisyKey 0, .check noisyKey 0] ++ .check noisyKey 0 ::
      [.check quietKey 50, .prune 60]) noisyKey 200).allowed = true := by
  have horder : InOrder ([.check noisyKey 0, .check noisyKey 0] ++ .check noisyKey 0 ::
      [.check quietKey 50, .prune 60] ++ [.check noisyKey 200]) := by
    simp [InOrder, RateEvent.nowNs]
  have hdenied : (pairLimiter.decisionAfter [.check noisyKey 0, .check noisyKey 0]
      noisyKey 0).allowed = false := by decide +kernel
  refine ⟨horder,hdenied,?_⟩
  apply ((rate_limiter_exact pairLimiter).2.1 _ _ noisyKey 0 200 horder (by decide +kernel)
    hdenied).mpr
  decide +kernel

end BackendGauntlet.UrlShortener
