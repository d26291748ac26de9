import BackendGauntlet.ObjectStoreGcRace
import BackendGauntlet.ObjectStoreHaystackCompactionSafety

/-! The locator map of the store over its two backends, as coroutines of one event loop. -/
namespace BackendGauntlet.ObjectStore

open Transition

inductive StoreTask
  | deduped (d : Digest)
  | checked (d : Digest)
  | publishing (d : Digest)
  | published (d : Digest) (l : BlobLocation)
  | popped (d : Digest) (l : BlobLocation)
  | removing (d : Digest)
  | compacting
deriving DecidableEq

def StoreTask.commits : StoreTask → Option Digest
  | .deduped d => some d
  | .checked d => some d
  | .publishing d => some d
  | .published d _ => some d
  | _ => none

def StoreTask.removes : StoreTask → Option Digest
  | .popped d _ => some d
  | .removing d => some d
  | _ => none

inductive StoreOp
  | commit
  | remove
deriving DecidableEq

/-- `hot` is the blob tree of FileCas; `last` the last operation completed on each digest. -/
structure LocatorState where
  hot : Dict Digest Bytes
  threads : HaystackThreads
  locations : Dict Digest BlobLocation
  tasks : Dict ℕ StoreTask
  last : Dict Digest StoreOp

inductive LocatorAction
  | commit (t : ℕ) (d : Digest)
  | remove (t : ℕ) (d : Digest)
  | compact (t : ℕ) (todo : List VolumeId)
  | step (t : ℕ) (fresh : VolumeId)

def finish (s : LocatorState) (t : ℕ) (d : Digest) (op : StoreOp) : LocatorState :=
  { s with tasks := s.tasks.erase t, last := s.last.set d op }

section
variable (cfg : RaceConfig) (payload : Digest → Bytes)

def workerStep (threads : HaystackThreads) (t : ℕ) : Option (HaystackThreads × Bool) :=
  match threads.core.ops.get t with
  | none => none
  | some a =>
    if a.stage = .decided then
      (haystackThreadsStep payload cfg.maxVolumeSize threads (.mutate (.log t))).map
        (fun next => (next,false))
    else
      (haystackThreadsStep payload cfg.maxVolumeSize threads (.mutate (.update t))).map
        (fun next => (next,true))

/-- After its thread, a removal only corrects the gauges. -/
def taskStep (s : LocatorState) (t : ℕ) (fresh : VolumeId) : StoreTask → Option LocatorState
  | .deduped d => some (finish s t d .commit)
  | .checked d =>
    match chooseLocation cfg (payload d).length with
    | .fileCas =>
      some { s with
        hot := s.hot.set d (payload d)
        tasks := s.tasks.set t (.published d .fileCas) }
    | .haystack =>
      (haystackThreadsStep payload cfg.maxVolumeSize s.threads (.mutate (.commit t d fresh))).map
        (fun threads => { s with threads := threads, tasks := s.tasks.set t (.publishing d) })
  | .publishing d =>
    (workerStep cfg payload s.threads t).map (fun p =>
      { s with
        threads := p.1
        tasks := if p.2 then s.tasks.set t (.published d .haystack) else s.tasks })
  | .published d l => some { finish s t d .commit with locations := s.locations.set d l }
  | .popped d .fileCas => some { finish s t d .remove with hot := s.hot.erase d }
  | .popped d .haystack =>
    (haystackThreadsStep payload cfg.maxVolumeSize s.threads (.mutate (.remove t d))).map
      (fun threads =>
        if threads.core.ops.contains t then
          { s with threads := threads, tasks := s.tasks.set t (.removing d) }
        else { finish s t d .remove with threads := threads })
  | .removing d =>
    (workerStep cfg payload s.threads t).map (fun p =>
      if p.2 then { finish s t d .remove with threads := p.1 } else { s with threads := p.1 })
  | .compacting =>
    match s.threads.compactors.get t with
    | none => none
    | some ⟨[],.ready,dropped⟩ =>
      some { s with
        locations := dropped.foldl (fun m d => m.erase d) s.locations
        tasks := s.tasks.erase t }
    | some ⟨_,.failed _,_⟩ => some { s with tasks := s.tasks.erase t }
    | some _ =>
      (haystackThreadsStep payload cfg.maxVolumeSize s.threads (.advance t fresh)).map
        (fun threads => { s with threads := threads })

/-- `commit_temp` looks into the map and `remove` pops before they first wait. -/
def locatorStep (s : LocatorState) : LocatorAction → Option LocatorState
  | .commit t d =>
    if s.tasks.contains t then none
    else if s.locations.contains d then some { s with tasks := s.tasks.set t (.deduped d) }
    else some { s with tasks := s.tasks.set t (.checked d) }
  | .remove t d =>
    if s.tasks.contains t then none
    else
      match s.locations.get d with
      | none => some { s with last := s.last.set d .remove }
      | some l =>
        some { s with
          locations := s.locations.erase d
          tasks := s.tasks.set t (.popped d l) }
  | .compact t todo =>
    if s.tasks.contains t then none
    else
      (haystackThreadsStep payload cfg.maxVolumeSize s.threads (.compaction t todo)).map
        (fun threads => { s with threads := threads, tasks := s.tasks.set t .compacting })
  | .step t fresh =>
    match s.tasks.get t with
    | none => none
    | some x => taskStep cfg payload s t fresh x

def InBackend (s : LocatorState) (d : Digest) : BlobLocation → Prop
  | .fileCas => s.hot.get d = some (payload d)
  | .haystack => ∃ r, s.threads.core.index.get d = some r ∧ r.isLive = true ∧
      HoldsPayload payload s.threads.core.disk.volumes d r.locator

/-- The map names only backends with the digest, and at rest has every committed digest. -/
def LocatorConsistent (s : LocatorState) : Prop :=
  (∀ d l, s.locations.get d = some l → InBackend payload s d l) ∧
  ((∀ t, s.tasks.get t = none) → ∀ d, s.last.get d = some .commit →
    ∃ l, s.locations.get d = some l ∧ InBackend payload s d l)

structure IdleStore (s : LocatorState) : Prop where
  threads : IdleThreads payload s.threads
  tasks : s.tasks = Dict.empty
  last : s.last = Dict.empty
  located : ∀ d l, s.locations.get d = some l → InBackend payload s d l

end

/-- Commits and removals of one digest do not overlap, and a compaction meets no commit on its way
into its volume nor a digest it dropped. -/
def apart (s : LocatorState) : LocatorAction → Bool
  | .commit _ d => s.tasks.entries.all (fun e => e.2.removes ≠ some d)
  | .remove _ d =>
    !s.locations.contains d || s.tasks.entries.all (fun e => e.2.commits ≠ some d)
  | .compact _ _ => true
  | .step t _ =>
    match s.tasks.get t with
    | some .compacting =>
      match s.threads.compactors.get t with
      | some ⟨[],.ready,dropped⟩ => dropped.all (fun d => !s.locations.contains d)
      | some ⟨_,.sealed old,_⟩ => noFlight s.threads.core old
      | _ => true
    | _ => true

def Live (s : HaystackThreads) (d : Digest) : Prop :=
  ∃ r, s.core.index.get d = some r ∧ r.isLive = true

section
variable (payload : Digest → Bytes)

def Backed (s : LocatorState) (d : Digest) : BlobLocation → Prop
  | .fileCas => s.hot.get d = some (payload d)
  | .haystack => Live s.threads d

theorem inBackend_of_backed {s : LocatorState} (hI : CompactionInv payload s.threads) {d : Digest}
    {l : BlobLocation} (h : Backed payload s d l) : InBackend payload s d l := by
  cases l with
  | fileCas => exact h
  | haystack =>
    obtain ⟨r,hr,hlive⟩ := h
    exact ⟨r,hr,hlive,hI.core.live d r hr hlive⟩

theorem backed_of_inBackend {s : LocatorState} {d : Digest} {l : BlobLocation}
    (h : InBackend payload s d l) : Backed payload s d l := by
  cases l with
  | fileCas => exact h
  | haystack =>
    obtain ⟨r,hr,hlive,_⟩ := h
    exact ⟨r,hr,hlive⟩

def TaskInv (s : LocatorState) (t : ℕ) : StoreTask → Prop
  | .deduped d => s.locations.contains d = true
  | .checked _ => True
  | .publishing d => ∃ a l, s.threads.core.ops.get t = some a ∧ a.op = .put d l
  | .published d l => Backed payload s d l
  | .popped d _ => s.locations.get d = none
  | .removing d => s.locations.get d = none ∧
      ∃ a, s.threads.core.ops.get t = some a ∧ a.op = .delete d
  | .compacting => True

structure LocatorInv (s : LocatorState) : Prop where
  threads : CompactionInv payload s.threads
  located : ∀ d l, s.locations.get d = some l → Backed payload s d l
  task : ∀ t x, s.tasks.get t = some x → TaskInv payload s t x
  apart : ∀ t x t' y d, s.tasks.get t = some x → s.tasks.get t' = some y →
    x.commits = some d → y.removes ≠ some d
  last : ∀ d, s.last.get d = some .commit →
    s.locations.contains d = true ∨ ∃ t x, s.tasks.get t = some x ∧ x.removes = some d

structure Frame (s s' : LocatorState) (t : ℕ) (removed inserted : Option Digest) : Prop where
  ops : ∀ i, i ≠ t → s'.threads.core.ops.get i = s.threads.core.ops.get i
  backed : ∀ d l, removed ≠ some d → Backed payload s d l → Backed payload s' d l
  kept : ∀ d, removed ≠ some d → s.locations.contains d = true → s'.locations.contains d = true
  fresh : ∀ d, inserted ≠ some d → s.locations.get d = none → s'.locations.get d = none

theorem taskInv_frame {s s' : LocatorState} {t t' : ℕ} {removed inserted : Option Digest}
    (hf : Frame payload s s' t removed inserted) (ht : t' ≠ t) {x : StoreTask}
    (hc : ∀ d, x.commits = some d → removed ≠ some d)
    (hr : ∀ d, x.removes = some d → inserted ≠ some d) (h : TaskInv payload s t' x) :
    TaskInv payload s' t' x := by
  cases x with
  | deduped d => exact hf.kept d (hc d rfl) h
  | checked d => trivial
  | publishing d =>
    simp only [TaskInv, hf.ops t' ht]
    exact h
  | published d l => exact hf.backed d l (hc d rfl) h
  | popped d l => exact hf.fresh d (hr d rfl) h
  | removing d =>
    refine ⟨hf.fresh d (hr d rfl) h.1,?_⟩
    rw [hf.ops t' ht]
    exact h.2
  | compacting => trivial

/-- A step of one coroutine keeps the invariant when it keeps its own part of it. -/
theorem locatorInv_of_frame (s s' : LocatorState) (hI : LocatorInv payload s) (t : ℕ)
    (removed inserted : Option Digest) (hf : Frame payload s s' t removed inserted)
    (hthreads : CompactionInv payload s'.threads)
    (hlocated : ∀ d l, s'.locations.get d = some l →
      (s.locations.get d = some l ∧ removed ≠ some d) ∨ Backed payload s' d l)
    (htasks : ∀ t', t' ≠ t → s'.tasks.get t' = s.tasks.get t')
    (hown : ∀ x, s'.tasks.get t = some x → TaskInv payload s' t x ∧
      (∀ d, x.commits = some d → ∀ t' y, t' ≠ t → s.tasks.get t' = some y → y.removes ≠ some d) ∧
      (∀ d, x.removes = some d → ∀ t' y, t' ≠ t → s.tasks.get t' = some y → y.commits ≠ some d))
    (hremoved : ∀ d, removed = some d → ∀ t' y, t' ≠ t → s.tasks.get t' = some y →
      y.commits ≠ some d)
    (hinserted : ∀ d, inserted = some d → ∀ t' y, t' ≠ t → s.tasks.get t' = some y →
      y.removes ≠ some d)
    (hlast : ∀ d, s'.last.get d = some .commit →
      s'.locations.contains d = true ∨ ∃ t x, s'.tasks.get t = some x ∧ x.removes = some d) :
    LocatorInv payload s' := by
  refine ⟨hthreads,?_,?_,?_,hlast⟩
  · intro d l hd
    rcases hlocated d l hd with ⟨hold,hne⟩ | hnew
    · exact hf.backed d l hne (hI.located d l hold)
    · exact hnew
  · intro t' x hx
    by_cases ht : t' = t
    · subst ht
      exact (hown x hx).1
    · rw [htasks t' ht] at hx
      apply taskInv_frame payload hf ht ?_ ?_ (hI.task t' x hx)
      · intro d hd hr
        exact hremoved d hr t' x ht hx hd
      · intro d hd hi
        exact hinserted d hi t' x ht hx hd
  · intro t₁ x t₂ y d hx hy hc hr
    by_cases h1 : t₁ = t
    · subst h1
      by_cases h2 : t₂ = t₁
      · -- one coroutine does not both commit and remove
        subst h2
        cases hx.symm.trans hy
        cases x <;> simp [StoreTask.commits, StoreTask.removes] at hc hr
      · rw [htasks t₂ h2] at hy
        exact (hown x hx).2.1 d hc t₂ y h2 hy hr
    · rw [htasks t₁ h1] at hx
      by_cases h2 : t₂ = t
      · subst h2
        exact (hown y hy).2.2 d hr t₁ x h1 hx hc
      · rw [htasks t₂ h2] at hy
        exact hI.apart t₁ x t₂ y d hx hy hc hr

theorem locatorInv_continue {s s' : LocatorState} (hI : LocatorInv payload s) {t : ℕ}
    {x : StoreTask} (hx : s.tasks.get t = some x) {removed : Option Digest}
    (inserted : Option Digest)
    (hr : removed = none ∨ removed = x.removes) (hi : inserted = none ∨ inserted = x.commits)
    (hf : Frame payload s s' t removed inserted) (hthreads : CompactionInv payload s'.threads)
    (hlocated : ∀ d l, s'.locations.get d = some l →
      (s.locations.get d = some l ∧ removed ≠ some d) ∨ Backed payload s' d l)
    (htasks : ∀ t', t' ≠ t → s'.tasks.get t' = s.tasks.get t')
    (hown : ∀ y, s'.tasks.get t = some y →
      TaskInv payload s' t y ∧ y.commits = x.commits ∧ y.removes = x.removes)
    (hlast : ∀ d, s'.last.get d = some .commit → s'.locations.contains d = true ∨
      s.last.get d = some .commit ∧ (x.removes = some d → ∃ y, s'.tasks.get t = some y)) :
    LocatorInv payload s' := by
  have hcommits : ∀ d, x.commits = some d → ∀ t' y, t' ≠ t → s.tasks.get t' = some y →
      y.removes ≠ some d := fun d hd t' y _ hy => hI.apart t x t' y d hx hy hd
  have hremoves : ∀ d, x.removes = some d → ∀ t' y, t' ≠ t → s.tasks.get t' = some y →
      y.commits ≠ some d := fun d hd t' y _ hy hc => hI.apart t' y t x d hy hx hc hd
  refine locatorInv_of_frame payload s s' hI t removed inserted hf hthreads hlocated htasks
    ?_ ?_ ?_ ?_
  · intro y hy
    obtain ⟨hinv,hc,hrem⟩ := hown y hy
    rw [hc, hrem]
    exact ⟨hinv,hcommits,hremoves⟩
  · intro d hd
    rcases hr with h | h
    · cases h.symm.trans hd
    · exact hremoves d (h.symm.trans hd)
  · intro d hd
    rcases hi with h | h
    · cases h.symm.trans hd
    · exact hcommits d (h.symm.trans hd)
  · intro d hd
    rcases hlast d hd with h | ⟨hold,hgoes⟩
    · exact Or.inl h
    · -- the coroutine itself is the one that removes, if it still runs
      have hstays : x.removes = some d → ∃ t' y, s'.tasks.get t' = some y ∧ y.removes = some d := by
        intro hxd
        obtain ⟨y,hy⟩ := hgoes hxd
        exact ⟨t,y,hy,(hown y hy).2.2.trans hxd⟩
      rcases hI.last d hold with h | ⟨t',y,hy,hyd⟩
      · by_cases hrem : removed = some d
        · rcases hr with h0 | h0
          · cases h0.symm.trans hrem
          · exact Or.inr (hstays (h0.symm.trans hrem))
        · exact Or.inl (hf.kept d hrem h)
      · by_cases ht : t' = t
        · subst ht
          cases hx.symm.trans hy
          exact Or.inr (hstays hyd)
        · exact Or.inr ⟨t',y,(htasks t' ht).trans hy,hyd⟩

end

end BackendGauntlet.ObjectStore
