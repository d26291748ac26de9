import BackendGauntlet.ObjectStoreLocator

/-! The locator map agrees with the backends while calls on one digest keep apart. -/
namespace BackendGauntlet.ObjectStore

open Transition Option Dict

variable {d : Digest} {s : HaystackThreads} {t : ℕ} {fresh : VolumeId} {s' : LocatorState}

theorem live_apply {op : LogOp} {index : NeedleIndex}
    (hop : op.isPut = true ∨ op.digest ≠ d)
    (h : ∃ r, index.get d = some r ∧ r.isLive = true) :
    ∃ r, (op.apply index).get d = some r ∧ r.isLive = true := by
  rw [get_apply]
  by_cases hd : op.digest = d
  · cases op with
    | put x l => exact ⟨⟨l,false,false⟩,by rw [← hd]; exact row_put x l _,rfl⟩
    | delete x | quarantine x => exact absurd hd (hop.resolve_left (by simp [LogOp.isPut]))
  · rwa [row_ne _ hd]

theorem live_compactorStep (payload : Digest → Bytes) {s t : ThreadState} {k k' : Compactor}
    (hs : StageInv payload s k.stage)
    (hp : ∀ new, k.stage.pending = some new → new ∉ k.volumes)
    (ht : compactorStep s k fresh = some (t,k'))
    (h : ∃ r, s.index.get d = some r ∧ r.isLive = true) :
    ∃ r, t.index.get d = some r ∧ r.isLive = true := by
  obtain ⟨r,hr,hlive⟩ := h
  obtain ⟨todo,stage,dropped⟩ := k
  cases stage with
  | ready =>
    cases todo with
    | nil => cases ht
    | cons old todo =>
      cases ht
      exact ⟨r,hr,hlive⟩
  | sealed old | swept old | saved old =>
    cases ht
    exact ⟨r,hr,hlive⟩
  | captured old live =>
    cases live with
    | nil =>
      -- no live row leads to the volume whose rows go
      cases ht
      exact live_sweep s.index [] old d r hr hlive (by simp) (hs.1.rows d r hr hlive)
    | cons e live =>
      simp only [compactorStep] at ht
      split at ht
      · cases ht
        exact ⟨r,hr,hlive⟩
      · cases ht
        exact ⟨r,hr,hlive⟩
  | opened old live src =>
    simp only [compactorStep] at ht
    split_ifs at ht
    split at ht
    · cases ht
      exact ⟨r,hr,hlive⟩
    · cases ht
      exact ⟨r,hr,hlive⟩
  | published old new moved =>
    cases ht
    have hne : new ≠ old := fun h => hp new rfl (h ▸ List.mem_cons_self)
    exact live_sweep s.index moved old d r hr hlive (fun e he => (hs.2 e he).1 ▸ hne)
      (hs.1.rows d r hr hlive)
  | failed e => cases ht

section
variable (cfg : RaceConfig) (payload : Digest → Bytes)

variable {payload}

theorem commit_begins {s' : HaystackThreads}
    (h : haystackThreadsStep payload cfg.maxVolumeSize s (.mutate (.commit t d fresh)) = some s') :
    s'.core.index = s.core.index ∧ (∀ i, i ≠ t → s'.core.ops.get i = s.core.ops.get i) ∧
      ∃ a l, s'.core.ops.get t = some a ∧ a.op = .put d l := by
  obtain ⟨core,hcore,rfl⟩ := map_eq_some_iff.mp h
  simp only [mutatorStep] at hcore
  split at hcore
  · cases hcore
  · obtain ⟨⟨result,l⟩,_,rfl⟩ := map_eq_some_iff.mp hcore
    refine ⟨rfl,?_,_,l,get_set_self,rfl⟩
    intro i hi
    exact get_set_ne hi

theorem remove_begins {s' : HaystackThreads}
    (h : haystackThreadsStep payload cfg.maxVolumeSize s (.mutate (.remove t d)) = some s') :
    s'.core.index = s.core.index ∧ (∀ i, i ≠ t → s'.core.ops.get i = s.core.ops.get i) ∧
      ∀ a, s'.core.ops.get t = some a → a.op = .delete d := by
  obtain ⟨core,hcore,rfl⟩ := map_eq_some_iff.mp h
  simp only [mutatorStep, flagBegin] at hcore
  split_ifs at hcore with hnew
  have hnone := get_of_not_contains hnew
  cases hop : removeOp s.core.index d with
  | none =>
    rw [hop] at hcore
    cases hcore
    refine ⟨rfl,fun _ _ => rfl,?_⟩
    intro a ha
    cases hnone.symm.trans ha
  | some op =>
    rw [hop] at hcore
    cases hcore
    refine ⟨rfl,fun i hi => get_set_ne hi,?_⟩
    intro a ha
    rw [beginOp, get_set_self] at ha
    cases ha
    unfold removeOp at hop
    split at hop
    · cases hop
    · split_ifs at hop
      exact (some.inj hop).symm

theorem workerStep_spec {s' : HaystackThreads} {done : Bool}
    (hI : CompactionInv payload s) (h : workerStep cfg payload s t = some (s',done)) :
    CompactionInv payload s' ∧ (∀ i, i ≠ t → s'.core.ops.get i = s.core.ops.get i) ∧
      ∃ a a', s.core.ops.get t = some a ∧ s'.core.ops.get t = some a' ∧ a'.op = a.op ∧
        s'.core.index = if done then a.op.apply s.core.index else s.core.index := by
  unfold workerStep at h
  split at h
  · cases h
  rename_i a ha
  split_ifs at h with hdecided
  · obtain ⟨next,hnext,heq⟩ := map_eq_some_iff.mp h
    cases heq
    refine ⟨compactionInv_step payload hI rfl hnext,?_⟩
    obtain ⟨core,hcore,rfl⟩ := map_eq_some_iff.mp hnext
    simp only [mutatorStep, logStep, ha, hdecided, if_true] at hcore
    cases hcore
    exact ⟨fun i hi => get_set_ne hi,a,_,ha,get_set_self,rfl,rfl⟩
  · obtain ⟨next,hnext,heq⟩ := map_eq_some_iff.mp h
    cases heq
    refine ⟨compactionInv_step payload hI rfl hnext,?_⟩
    obtain ⟨core,hcore,rfl⟩ := map_eq_some_iff.mp hnext
    simp only [mutatorStep, updateStep, ha] at hcore
    split_ifs at hcore
    cases hcore
    exact ⟨fun i hi => get_set_ne hi,a,_,ha,get_set_self,rfl,rfl⟩

theorem live_congr {s' : HaystackThreads} (hindex : s'.core.index = s.core.index)
    (h : Live s d) : Live s' d := by
  rwa [Live, hindex]

section
variable (s : LocatorState) (hI : LocatorInv payload s) (t : ℕ)
include hI

variable {t}

theorem locatorInv_deduped (ht : s.tasks.get t = some (.deduped d)) :
    LocatorInv payload (finish s t d .commit) := by
  refine locatorInv_continue payload hI ht none (Or.inl rfl) (Or.inl rfl)
    ⟨fun _ _ => rfl,fun _ _ _ h => h,fun _ _ h => h,fun _ _ h => h⟩ hI.threads
    (fun x l hx => Or.inl ⟨hx,by simp⟩) (fun t' h => get_erase_ne h) ?_ ?_
  · intro y hy
    simp [finish, get_erase] at hy
  · intro x hx
    by_cases hxd : x = d
    · exact Or.inl (hxd ▸ hI.task t _ ht)
    · simp only [finish, get_set_ne hxd] at hx
      exact Or.inr ⟨hx,by simp [StoreTask.removes]⟩

/-- The thread of a coroutine works on a backend and takes nothing away from it. -/
theorem locatorInv_worker (x y : StoreTask) (ht : s.tasks.get t = some x)
    (hsame : y.commits = x.commits ∧ y.removes = x.removes)
    (hlocs : s'.locations = s.locations) (hlast : s'.last = s.last)
    (hthreads : CompactionInv payload s'.threads)
    (hops : ∀ i, i ≠ t → s'.threads.core.ops.get i = s.threads.core.ops.get i)
    (hbacked : ∀ d l, Backed payload s d l → Backed payload s' d l)
    (htasks : ∀ t', t' ≠ t → s'.tasks.get t' = s.tasks.get t')
    (hty : s'.tasks.get t = some y) (hy : TaskInv payload s' t y) :
    LocatorInv payload s' := by
  refine locatorInv_continue payload hI ht none (Or.inl rfl) (Or.inl rfl)
    ⟨hops,fun d l _ h => hbacked d l h,fun _ _ h => by rwa [hlocs],
      fun _ _ h => by rwa [hlocs]⟩ hthreads
    (fun d l hd => Or.inl ⟨by rwa [hlocs] at hd,by simp⟩) htasks ?_ ?_
  · intro z hz
    cases hty.symm.trans hz
    exact ⟨hy,hsame⟩
  · intro d hd
    rw [hlast] at hd
    exact Or.inr ⟨hd,fun _ => ⟨y,hty⟩⟩

theorem locatorInv_published {l : BlobLocation}
    (ht : s.tasks.get t = some (.published d l)) :
    LocatorInv payload { finish s t d .commit with locations := s.locations.set d l } := by
  have hbacked := hI.task t _ ht
  refine locatorInv_continue payload hI ht (some d) (Or.inl rfl) (Or.inr rfl)
    ⟨fun _ _ => rfl,fun _ _ _ h => h,?_,?_⟩ hI.threads ?_ (fun t' h => get_erase_ne h)
    ?_ ?_
  · intro x _ hx
    obtain ⟨v,hv⟩ := (Dict.contains_iff).mp hx
    apply (Dict.contains_iff).mpr
    by_cases hxd : x = d
    · exact ⟨l,by rw [hxd]; exact get_set_self⟩
    · exact ⟨v,by rw [get_set_ne hxd]; exact hv⟩
  · intro x hxd hx
    have hne : x ≠ d := fun h => hxd (by rw [h])
    exact (get_set_ne hne).trans hx
  · intro x l' hx
    rcases eq_or_get_of_get_set hx with ⟨rfl,rfl⟩ | ⟨_,hx⟩
    · exact Or.inr hbacked
    · exact Or.inl ⟨hx,by simp⟩
  · intro y hy
    simp [finish, get_erase] at hy
  · intro x hx
    by_cases hxd : x = d
    · exact Or.inl ((Dict.contains_iff).mpr ⟨l,by rw [hxd]; exact get_set_self⟩)
    · simp only [finish, get_set_ne hxd] at hx
      exact Or.inr ⟨hx,by simp [StoreTask.removes]⟩

/-- A backend loses a digest that is no longer in the map, and the removal may go on. -/
theorem locatorInv_remover {x : StoreTask} (ht : s.tasks.get t = some x)
    (hx : x.removes = some d) (hnone : s.locations.get d = none) (s' : LocatorState)
    (hlocs : s'.locations = s.locations) (hthreads : CompactionInv payload s'.threads)
    (hops : ∀ i, i ≠ t → s'.threads.core.ops.get i = s.threads.core.ops.get i)
    (hbacked : ∀ e l, e ≠ d → Backed payload s e l → Backed payload s' e l)
    (htasks : ∀ t', t' ≠ t → s'.tasks.get t' = s.tasks.get t')
    (hrest : (s'.tasks.get t = none ∧ s'.last = s.last.set d .remove) ∨
      (∃ y, s'.tasks.get t = some y ∧ s'.last = s.last ∧ TaskInv payload s' t y ∧
        y.commits = none ∧ y.removes = some d)) :
    LocatorInv payload s' := by
  have hxc : x.commits = none := by
    cases x <;> simp [StoreTask.removes] at hx <;> rfl
  refine locatorInv_continue payload hI ht none (Or.inr hx.symm) (Or.inl rfl)
    ⟨hops,?_,?_,?_⟩ hthreads ?_ htasks ?_ ?_
  · intro e l he h
    exact hbacked e l (fun h' => he (by rw [h'])) h
  · intro e _ h
    rwa [hlocs]
  · intro e _ h
    rwa [hlocs]
  · intro e l he
    rw [hlocs] at he
    refine Or.inl ⟨he,fun h => ?_⟩
    rw [some.inj h] at hnone
    cases hnone.symm.trans he
  · intro z hz
    rcases hrest with ⟨hgone,_⟩ | ⟨y,hy,_,hinv,hc,hr⟩
    · cases hgone.symm.trans hz
    · cases hy.symm.trans hz
      exact ⟨hinv,hc.trans hxc.symm,hr.trans hx.symm⟩
  · intro e he
    rcases hrest with ⟨_,hlast⟩ | ⟨y,hy,hlast,_⟩
    · by_cases hed : e = d
      · rw [hlast, hed, get_set_self] at he
        cases he
      · rw [hlast, get_set_ne hed] at he
        exact Or.inr ⟨he,fun h => absurd (some.inj (hx.symm.trans h)).symm hed⟩
    · rw [hlast] at he
      exact Or.inr ⟨he,fun _ => ⟨y,hy⟩⟩

variable (payload)

omit hI in
theorem backed_threads (threads : HaystackThreads) (d : Digest)
    (hlive : Live s.threads d → Live threads d) (l : BlobLocation) (h : Backed payload s d l) :
    Backed payload { s with threads := threads } d l := by
  cases l with
  | fileCas => exact h
  | haystack => exact hlive h

variable {payload}

theorem locatorInv_checked (ht : s.tasks.get t = some (.checked d))
    (hs : taskStep cfg payload s t fresh (.checked d) = some s') :
    LocatorInv payload s' := by
  simp only [taskStep] at hs
  split at hs
  · -- the file is renamed into the tree
    cases hs
    have hfile : (s.hot.set d (payload d)).get d = some (payload d) := get_set_self
    refine locatorInv_worker s hI _ (.published d .fileCas) ht ⟨rfl,rfl⟩ rfl rfl
      hI.threads (fun _ _ => rfl) ?_ (fun t' h => get_set_ne h)
      (get_set_self) hfile
    intro e l h
    cases l with
    | fileCas =>
      by_cases hed : e = d
      · rw [hed]
        exact hfile
      · exact (get_set_ne hed).trans h
    | haystack => exact h
  · obtain ⟨threads,hstep,rfl⟩ := map_eq_some_iff.mp hs
    obtain ⟨hindex,hops,hop⟩ := commit_begins cfg hstep
    exact locatorInv_worker s hI _ (.publishing d) ht ⟨rfl,rfl⟩ rfl rfl
      (compactionInv_step payload hI.threads rfl hstep) hops
      (fun e => backed_threads payload s threads e (live_congr hindex))
      (fun t' h => get_set_ne h) (get_set_self) hop

theorem locatorInv_publishing
    (ht : s.tasks.get t = some (.publishing d))
    (hs : taskStep cfg payload s t fresh (.publishing d) = some s') : LocatorInv payload s' := by
  obtain ⟨⟨threads,done⟩,hstep,rfl⟩ := map_eq_some_iff.mp hs
  obtain ⟨hthreads,hops,a,a',ha,ha',hop,hindex⟩ :=
    workerStep_spec cfg hI.threads hstep
  obtain ⟨b,l,hb,hput⟩ := hI.task t _ ht
  cases ha.symm.trans hb
  have hlive : ∀ e, Live s.threads e → Live threads e := by
    intro e he
    rw [Live, hindex]
    cases done with
    | false => exact he
    | true => exact live_apply (Or.inl (by rw [hput]; rfl)) he
  cases done with
  | false =>
    exact locatorInv_worker s hI _ (.publishing d) ht ⟨rfl,rfl⟩ rfl rfl hthreads hops
      (fun e => backed_threads payload s threads e (hlive e)) (fun t' h => rfl) ht
      ⟨a',l,ha',hop.trans hput⟩
  | true =>
    -- the row of the commit is in the index
    have hrow : Live threads d := by
      refine ⟨⟨l,false,false⟩,?_,rfl⟩
      rw [hindex, if_pos rfl, get_apply, hput]
      exact row_put d l _
    exact locatorInv_worker s hI _ (.published d .haystack) ht ⟨rfl,rfl⟩ rfl rfl
      hthreads hops (fun e => backed_threads payload s threads e (hlive e))
      (fun t' h => get_set_ne h) (get_set_self) hrow

theorem locatorInv_popped {l : BlobLocation}
    (ht : s.tasks.get t = some (.popped d l))
    (hs : taskStep cfg payload s t fresh (.popped d l) = some s') : LocatorInv payload s' := by
  have hnone : s.locations.get d = none := hI.task t _ ht
  have hgone : (s.tasks.erase t).get t = none := get_erase_self
  cases l with
  | fileCas =>
    cases hs
    refine locatorInv_remover s hI ht rfl hnone _ rfl hI.threads (fun _ _ => rfl) ?_
      (fun t' h => get_erase_ne h) (Or.inl ⟨hgone,rfl⟩)
    intro e l hed h
    cases l with
    | fileCas =>
      exact (get_erase_ne hed).trans h
    | haystack => exact h
  | haystack =>
    obtain ⟨threads,hstep,rfl⟩ := map_eq_some_iff.mp hs
    obtain ⟨hindex,hops,hop⟩ := remove_begins cfg hstep
    have hthreads := compactionInv_step payload hI.threads rfl hstep
    split_ifs with hbegun
    · obtain ⟨a,ha⟩ := (Dict.contains_iff).mp hbegun
      refine locatorInv_remover s hI ht rfl hnone _ rfl hthreads hops
        (fun e l _ => backed_threads payload s threads e (live_congr hindex) l)
        (fun t' h => get_set_ne h) (Or.inr ⟨.removing d,get_set_self,rfl,
          ⟨hnone,a,ha,hop a ha⟩,rfl,rfl⟩)
    · exact locatorInv_remover s hI ht rfl hnone _ rfl hthreads hops
        (fun e l _ => backed_threads payload s threads e (live_congr hindex) l)
        (fun t' h => get_erase_ne h) (Or.inl ⟨hgone,rfl⟩)

theorem locatorInv_removing
    (ht : s.tasks.get t = some (.removing d))
    (hs : taskStep cfg payload s t fresh (.removing d) = some s') : LocatorInv payload s' := by
  obtain ⟨⟨threads,done⟩,hstep,rfl⟩ := map_eq_some_iff.mp hs
  obtain ⟨hthreads,hops,a,a',ha,ha',hop,hindex⟩ :=
    workerStep_spec cfg hI.threads hstep
  obtain ⟨hnone,b,hb,hdelete⟩ := hI.task t _ ht
  cases ha.symm.trans hb
  have hlive : ∀ e, e ≠ d → Live s.threads e → Live threads e := by
    intro e hed he
    rw [Live, hindex]
    cases done with
    | false => exact he
    | true =>
      apply live_apply (Or.inr ?_) he
      rw [hdelete]
      exact Ne.symm hed
  have hbacked : ∀ e l, e ≠ d → Backed payload s e l →
      Backed payload { s with threads := threads } e l :=
    fun e l hed => backed_threads payload s threads e (hlive e hed) l
  cases done with
  | false =>
    exact locatorInv_remover s hI ht rfl hnone _ rfl hthreads hops hbacked (fun t' h => rfl)
      (Or.inr ⟨.removing d,ht,rfl,⟨hnone,a',ha',hop.trans hdelete⟩,rfl,rfl⟩)
  | true =>
    exact locatorInv_remover s hI ht rfl hnone _ rfl hthreads hops
      hbacked (fun t' h => get_erase_ne h)
      (Or.inl ⟨by simp [finish, get_erase],rfl⟩)

theorem locatorInv_compacted (ht : s.tasks.get t = some .compacting)
    {locations : Dict Digest BlobLocation} (hlocs : ∀ d, locations.get d = s.locations.get d) :
    LocatorInv payload { s with locations := locations, tasks := s.tasks.erase t } := by
  refine locatorInv_continue payload hI ht none (Or.inl rfl) (Or.inl rfl)
    ⟨fun _ _ => rfl,fun _ _ _ h => h,?_,?_⟩ hI.threads ?_ (fun t' h => get_erase_ne h)
    ?_ ?_
  · intro d _ h
    rw [Dict.contains, hlocs d]
    exact h
  · intro d _ h
    exact (hlocs d).trans h
  · intro d l h
    exact Or.inl ⟨(hlocs d).symm.trans h,by simp⟩
  · intro y hy
    simp [get_erase] at hy
  · intro d hd
    exact Or.inr ⟨hd,by simp [StoreTask.removes]⟩

theorem locatorInv_compacting (ht : s.tasks.get t = some .compacting)
    (hapart : apart s (.step t fresh) = true)
    (hs : taskStep cfg payload s t fresh .compacting = some s') : LocatorInv payload s' := by
  simp only [apart, ht] at hapart
  simp only [taskStep] at hs
  split at hs
  · cases hs
  · next dropped hk =>
    cases hs
    simp only [hk, List.all_eq_true, Bool.not_eq_true', Dict.contains,
      isSome_eq_false_iff, isNone_iff_eq_none] at hapart
    apply locatorInv_compacted s hI ht
    intro e
    rw [get_foldl_erase]
    split_ifs with he
    · exact (hapart e he).symm
    · rfl
  · cases hs
    exact locatorInv_compacted s hI ht (fun _ => rfl)
  · next k hready hfailed hk =>
    obtain ⟨threads,hstep,rfl⟩ := map_eq_some_iff.mp hs
    have hsettled : settledCapture s.threads (.advance t fresh) = true := by
      simp only [settledCapture, hk]
      simp only [hk] at hapart
      obtain ⟨todo,stage,dropped⟩ := k
      cases stage with
      | sealed old => cases todo <;> exact hapart
      | _ => rfl
    have hthreads := compactionInv_step payload hI.threads hsettled hstep
    simp only [haystackThreadsStep, hk] at hstep
    obtain ⟨⟨core,k'⟩,hcore,rfl⟩ := map_eq_some_iff.mp hstep
    have hlive : ∀ d, Live s.threads d →
        Live { s.threads with core := core, compactors := s.threads.compactors.set t k' } d :=
      fun d => live_compactorStep payload (hI.threads.stage t k hk)
        (fun new hn => ((hI.threads.pending t k hk new hn).own t k hk).1) hcore
    have hops := (compactorStep_effect hcore).1
    exact locatorInv_worker s hI _ .compacting ht ⟨rfl,rfl⟩ rfl rfl hthreads
      (fun i _ => by rw [hops]) (fun e => backed_threads payload s _ e (hlive e))
      (fun t' h => rfl) ht trivial

theorem locatorInv_taskStep (hapart : apart s (.step t fresh) = true)
    {x : StoreTask} (ht : s.tasks.get t = some x)
    (hs : taskStep cfg payload s t fresh x = some s') : LocatorInv payload s' := by
  cases x with
  | deduped d =>
    cases hs
    exact locatorInv_deduped s hI ht
  | checked d => exact locatorInv_checked cfg s hI ht hs
  | publishing d => exact locatorInv_publishing cfg s hI ht hs
  | published d l =>
    cases hs
    exact locatorInv_published s hI ht
  | popped d l => exact locatorInv_popped cfg s hI ht hs
  | removing d => exact locatorInv_removing cfg s hI ht hs
  | compacting => exact locatorInv_compacting cfg s hI ht hapart hs

theorem locatorInv_start (x : StoreTask) (hnew : s.tasks.get t = none)
    (hx : TaskInv payload s t x) (hremoves : x.removes = none)
    (hcommits : ∀ d, x.commits = some d → ∀ t' y, s.tasks.get t' = some y → y.removes ≠ some d)
    (threads : HaystackThreads) (hthreads : CompactionInv payload threads)
    (hcore : threads.core = s.threads.core) :
    LocatorInv payload { s with threads := threads, tasks := s.tasks.set t x } := by
  have hbacked : ∀ d l, Backed payload s d l → Backed payload { s with threads := threads } d l :=
    fun d => backed_threads payload s threads d (live_congr (by rw [hcore]))
  refine locatorInv_of_frame payload s _ hI t none none
    ⟨fun i _ => by rw [hcore],fun d l _ h => hbacked d l h,fun _ _ h => h,fun _ _ h => h⟩
    hthreads (fun d l hd => Or.inl ⟨hd,by simp⟩) (fun t' h => get_set_ne h)
    ?_ nofun nofun ?_
  · intro y hy
    rw [get_set_self] at hy
    cases hy
    refine ⟨?_,fun d hd t' z _ hz => hcommits d hd t' z hz,?_⟩
    · cases x with
      | publishing d =>
        simp only [TaskInv, hcore]
        exact hx
      | published d l => exact hbacked d l hx
      | removing d => cases hremoves
      | _ => exact hx
    · intro d hd
      cases hremoves.symm.trans hd
  · intro d hd
    rcases hI.last d hd with h | ⟨t',y,hy,hr⟩
    · exact Or.inl h
    · refine Or.inr ⟨t',y,?_,hr⟩
      have hne : t' ≠ t := fun h => absurd (hnew.symm.trans (h ▸ hy)) (by simp)
      exact (get_set_ne hne).trans hy

theorem locatorInv_pop (l : BlobLocation) (hnew : s.tasks.get t = none)
    (hapart : ∀ t' y, s.tasks.get t' = some y → y.commits ≠ some d) :
    LocatorInv payload { s with
      locations := s.locations.erase d, tasks := s.tasks.set t (.popped d l) } := by
  have hgone : (s.locations.erase d).get d = none := get_erase_self
  refine locatorInv_of_frame payload s _ hI t (some d) none
    ⟨fun _ _ => rfl,fun _ _ _ h => h,?_,?_⟩ hI.threads ?_
    (fun t' h => get_set_ne h) ?_ ?_ nofun ?_
  · intro e he h
    rw [Dict.contains, get_erase_ne (fun h' => he (by rw [h']))]
    exact h
  · intro e _ h
    by_cases hed : e = d
    · rw [hed]
      exact hgone
    · exact (get_erase_ne hed).trans h
  · intro e l' he
    have hed : e ≠ d := fun h => absurd (hgone.symm.trans (h ▸ he)) (by simp)
    refine Or.inl ⟨(get_erase_ne hed).symm.trans he,fun h => hed (some.inj h).symm⟩
  · intro y hy
    rw [get_set_self] at hy
    cases hy
    refine ⟨hgone,?_,?_⟩
    · intro e he
      cases he
    · intro e he t' z _ hz
      cases he
      exact hapart t' z hz
  · intro e he t' y _ hy
    cases he
    exact hapart t' y hy
  · intro e he
    by_cases hed : e = d
    · exact Or.inr ⟨t,.popped d l,get_set_self,by rw [hed]; rfl⟩
    · rcases hI.last e he with h | ⟨t',y,hy,hr⟩
      · left
        rw [Dict.contains, get_erase_ne hed]
        exact h
      · refine Or.inr ⟨t',y,?_,hr⟩
        have hne : t' ≠ t := fun h => absurd (hnew.symm.trans (h ▸ hy)) (by simp)
        exact (get_set_ne hne).trans hy

end

theorem locatorInv_step {s : LocatorState} {a : LocatorAction} (hI : LocatorInv payload s)
    (hapart : apart s a = true) (hs : locatorStep cfg payload s a = some s') :
    LocatorInv payload s' := by
  have hentries : ∀ t y, s.tasks.get t = some y → (t,y) ∈ s.tasks.entries :=
    fun t y hy => get_eq_some_iff.mp hy
  cases a with
  | commit t d =>
    have hno : ∀ t' y, s.tasks.get t' = some y → y.removes ≠ some d := by
      intro t' y hy
      simpa using List.all_eq_true.mp hapart (t',y) (hentries t' y hy)
    simp only [locatorStep] at hs
    split_ifs at hs with hnew hloc
    · have hnone := get_of_not_contains hnew
      rw [← some.inj hs]
      refine locatorInv_start s hI (.deduped d) hnone hloc rfl ?_ s.threads hI.threads rfl
      intro e he
      rw [← some.inj he]
      exact hno
    · have hnone := get_of_not_contains hnew
      rw [← some.inj hs]
      refine locatorInv_start s hI (.checked d) hnone trivial rfl ?_ s.threads hI.threads
        rfl
      intro e he
      rw [← some.inj he]
      exact hno
  | remove t d =>
    simp only [locatorStep] at hs
    split_ifs at hs with hnew
    have hnone := get_of_not_contains hnew
    split at hs
    · rw [← some.inj hs]
      refine ⟨hI.threads,hI.located,hI.task,hI.apart,?_⟩
      intro e he
      by_cases hed : e = d
      · rw [hed, get_set_self] at he
        exact absurd he (by simp)
      · rw [get_set_ne hed] at he
        exact hI.last e he
    · next l hl =>
      rw [← some.inj hs]
      refine locatorInv_pop s hI l hnone ?_
      intro t' y hy
      simp only [apart, Dict.contains, hl, isSome_some, Bool.not_true, Bool.false_or] at hapart
      simpa using List.all_eq_true.mp hapart (t',y) (hentries t' y hy)
  | compact t todo =>
    simp only [locatorStep] at hs
    split_ifs at hs with hnew
    have hnone := get_of_not_contains hnew
    obtain ⟨threads,hstep,rfl⟩ := map_eq_some_iff.mp hs
    have hthreads := compactionInv_step payload hI.threads rfl hstep
    have hcore : threads.core = s.threads.core := by
      simp only [haystackThreadsStep] at hstep
      split_ifs at hstep
      rw [← some.inj hstep]
    refine locatorInv_start s hI .compacting hnone trivial rfl ?_ threads hthreads hcore
    intro e he
    cases he
  | step t fresh =>
    simp only [locatorStep] at hs
    split at hs
    · cases hs
    · next x hx => exact locatorInv_taskStep cfg s hI hapart hx hs

theorem locatorInv_idle (s : LocatorState) (h : IdleStore payload s) : LocatorInv payload s := by
  refine ⟨compactionInv_idle payload s.threads h.threads,?_,?_,?_,?_⟩
  · intro d l hd
    exact backed_of_inBackend payload (h.located d l hd)
  · intro t x hx
    rw [h.tasks] at hx
    cases hx
  · intro t x t' y d hx
    rw [h.tasks] at hx
    cases hx
  · intro d hd
    rw [h.last] at hd
    cases hd

variable (payload)

/-- In every interleaving in which commits and removals of one digest keep apart, the map
agrees with the backends. -/
theorem locator_consistent (s : LocatorState)
    (hs : Reachable (IdleStore payload) (locatorStep cfg payload) (fun s a => apart s a = true) s) :
    LocatorConsistent payload s := by
  have hI : LocatorInv payload s := by
    apply reachable_invariant (LocatorInv payload) (locatorInv_idle) ?_ s hs
    intro s t a hI hapart hstep
    exact locatorInv_step cfg hI hapart hstep
  have hin : ∀ d l, s.locations.get d = some l → InBackend payload s d l :=
    fun d l hd => inBackend_of_backed payload hI.threads (hI.located d l hd)
  refine ⟨hin,?_⟩
  intro hidle d hd
  rcases hI.last d hd with h | ⟨t,x,hx,_⟩
  · obtain ⟨l,hl⟩ := (Dict.contains_iff).mp h
    exact ⟨l,hl,hin d l hl⟩
  · exact absurd ((hidle t).symm.trans hx) (by simp)

end

def emptyLocator : LocatorState := ⟨Dict.empty,freshHaystack,Dict.empty,Dict.empty,Dict.empty⟩

theorem emptyLocator_idle (payload : Digest → Bytes) : IdleStore payload emptyLocator :=
  ⟨idle_freshHaystack payload,rfl,rfl,fun d l h => absurd h (by simp [emptyLocator])⟩

/-- `abc` is packed and removed, and a compaction sweeps its volume up to the pops. -/
def sweptVolume : List LocatorAction :=
  [.commit 0 abcDigest, .step 0 volumeA, .step 0 volumeA, .step 0 volumeA, .step 0 volumeA,
    .remove 1 abcDigest, .step 1 volumeA, .step 1 volumeA, .step 1 volumeA,
    .compact 2 [volumeA], .step 2 volumeB, .step 2 volumeB, .step 2 volumeB, .step 2 volumeB,
    .step 2 volumeB]

/-- `abc` is packed, removed and packed again after a compaction. -/
theorem repacked_abc_located :
    ∃ s, (Reachable (IdleStore abcPayload) (locatorStep ⟨true,1000,0⟩ abcPayload)
        (fun s a => apart s a = true) s ∧
        (s.tasks.isEmpty && decide (s.last.get abcDigest = some .commit)) = true) ∧
      LocatorConsistent abcPayload s := by
  refine Exists.imp (fun s hs => ⟨hs,locator_consistent ⟨true,1000,0⟩ abcPayload s hs.1⟩) ?_
  exact reachable_of_checkedRun _ _ _
    (sweptVolume ++ [.step 2 volumeB, .commit 3 abcDigest, .step 3 volumeC, .step 3 volumeC,
      .step 3 volumeC, .step 3 volumeC])
    emptyLocator (emptyLocator_idle _) (by decide +kernel)

/-- A commit between the pop and the unlink of a removal leaves the map on a file that is gone; one
between the sweep and the pops of a compaction is lost to the map. -/
theorem map_disagrees_with_backends :
    (∃ s, Reachable (IdleStore abcPayload) (locatorStep ⟨false,1000,0⟩ abcPayload) anyStep s ∧
      ¬ LocatorConsistent abcPayload s) ∧
    ∃ s, Reachable (IdleStore abcPayload) (locatorStep ⟨true,1000,0⟩ abcPayload) anyStep s ∧
      ¬ LocatorConsistent abcPayload s := by
  constructor
  · obtain ⟨t,ht,hloc,hgone⟩ := reachable_of_run (IdleStore abcPayload)
      (locatorStep ⟨false,1000,0⟩ abcPayload)
      (P := fun s => s.locations.get abcDigest = some .fileCas ∧ s.hot.get abcDigest = none)
      [.commit 0 abcDigest, .step 0 volumeA, .step 0 volumeA, .remove 1 abcDigest,
        .commit 2 abcDigest, .step 2 volumeA, .step 2 volumeA, .step 1 volumeA]
      emptyLocator (emptyLocator_idle _) (by decide +kernel)
    refine ⟨t,ht,fun h => ?_⟩
    have hfile := h.1 abcDigest .fileCas hloc
    rw [InBackend, hgone] at hfile
    cases hfile
  · obtain ⟨t,ht,hidle,hlast,hlost⟩ := reachable_of_run (IdleStore abcPayload)
      (locatorStep ⟨true,1000,0⟩ abcPayload)
      (P := fun s => s.tasks.isEmpty = true ∧ s.last.get abcDigest = some .commit ∧
        s.locations.get abcDigest = none)
      (sweptVolume ++ [.commit 3 abcDigest, .step 3 volumeC, .step 3 volumeC, .step 3 volumeC,
        .step 3 volumeC, .step 2 volumeB])
      emptyLocator (emptyLocator_idle _) (by decide +kernel)
    refine ⟨t,ht,fun h => ?_⟩
    obtain ⟨l,hl,_⟩ := h.2 ((Dict.isEmpty_iff _).mp hidle) abcDigest hlast
    cases hlost.symm.trans hl

end BackendGauntlet.ObjectStore
