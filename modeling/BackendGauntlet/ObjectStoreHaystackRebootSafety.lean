import BackendGauntlet.ObjectStoreHaystackReboot

/-! Which removals outlive crashes and boots: each is followed through log, snapshot and index. -/
namespace BackendGauntlet.ObjectStore

open PyText Transition List Option Dict

variable {disk : Disk} {op : LogOp} {s : RebootState} {a : OpRecord} {threads : HaystackThreads}
  {i : ℕ} {core : ThreadState} {log : List LogOp} {index : NeedleIndex}

theorem durable_congr {disk' : Disk} (hs : disk'.snapshot = disk.snapshot)
    (hl : disk'.log = disk.log) : disk'.durable = disk.durable := by
  simp only [Disk.durable, hs, hl]

theorem shows_of_flags (hop : op.isPut = false) {row row' : Option NeedleRecord}
    (hrow : ∀ r, row' = some r → ∃ r', row = some r' ∧ r.deleted = r'.deleted ∧
      r.quarantined = r'.quarantined) (h : Shows op row) : Shows op row' := by
  cases op with
  | put d l => cases hop
  | delete d =>
    intro r hr
    obtain ⟨r',hr',hd,_⟩ := hrow r hr
    rw [hd]
    exact h r' hr'
  | quarantine d =>
    intro r hr
    obtain ⟨r',hr',_,hq⟩ := hrow r hr
    rw [hq]
    exact h r' hr'

theorem shows_none (hop : op.isPut = false) : Shows op none := by
  cases op with
  | put d l => cases hop
  | delete d => simp [Shows]
  | quarantine d => simp [Shows]

theorem not_live_of_shows (hop : op.isPut = false) {r : NeedleRecord}
    (h : Shows op (some r)) : r.isLive = false := by
  cases op with
  | put d l => cases hop
  | delete d =>
    have hd := h r rfl
    simp [NeedleRecord.isLive, hd]
  | quarantine d =>
    have hq := h r rfl
    simp [NeedleRecord.isLive, hq]

structure InFiles (log : List LogOp) (index : NeedleIndex) (a : OpRecord) : Prop where
  shown : Shows a.op (index.get a.op.digest)
  kept : ∀ row, Shows a.op row → Shows a.op (rowAfter log a.op.digest row)

def Logged (s : RebootState) (a : OpRecord) : Prop :=
  a.op.isPut = false ∧
    ((∃ i, s.threads.core.ops.get i = some a ∧ a.stage ≠ .decided) ∨
      (a ∈ s.lost ∧ a.stage = .logged))

structure RebootInv (s : RebootState) : Prop where
  started : ∀ a, ((∃ i, s.threads.core.ops.get i = some a) ∨ a ∈ s.lost) →
    a.start ≤ s.threads.core.clock
  files : ∃ log index, s.threads.core.disk.log = logText log ∧
    s.threads.core.disk.durable = .ok index ∧
    ∀ a, Logged s a → Recommitted s a ∨ InFiles log index a
  ram : s.up = true → ∀ a, Flagged s a →
    Recommitted s a ∨ Shows a.op (s.threads.core.index.get a.op.digest)
  down : s.up = false → ∀ i a, s.threads.core.ops.get i = some a → a.stage = .returned

theorem logged_of_flagged (h : Flagged s a) : Logged s a := by
  obtain ⟨hp,⟨i,hi,hr⟩ | hlost⟩ := h
  · exact ⟨hp,Or.inl ⟨i,hi,by simp [hr]⟩⟩
  · exact ⟨hp,Or.inr hlost⟩

theorem known_of_logged (h : Logged s a) :
    (∃ i, s.threads.core.ops.get i = some a) ∨ a ∈ s.lost :=
  h.2.imp (fun ⟨i,hi,_⟩ => ⟨i,hi⟩) And.left

/-- After one record is written, what is logged is that one or was before. -/
theorem logged_set {t : RebootState} {b x : OpRecord} (h : Logged t x)
    (hops : t.threads.core.ops = s.threads.core.ops.set i b) (hlost : t.lost = s.lost) :
    (x = b ∧ x.stage ≠ .decided) ∨ Logged s x := by
  unfold Logged at h ⊢
  rw [hops, hlost] at h
  obtain ⟨hp,⟨j,hj,hstage⟩ | hlost⟩ := h
  · rcases eq_or_get_of_get_set hj with ⟨_,hb⟩ | ⟨_,hj⟩
    · exact Or.inl ⟨hb,hstage⟩
    · exact Or.inr ⟨hp,Or.inl ⟨j,hj,hstage⟩⟩
  · exact Or.inr ⟨hp,Or.inr hlost⟩

theorem flagged_set {t : RebootState} {b x : OpRecord} (h : Flagged t x)
    (hops : t.threads.core.ops = s.threads.core.ops.set i b) (hlost : t.lost = s.lost) :
    (x = b ∧ x.stage = .returned) ∨ Flagged s x := by
  unfold Flagged at h ⊢
  rw [hops, hlost] at h
  obtain ⟨hp,⟨j,hj,hstage⟩ | hlost⟩ := h
  · rcases eq_or_get_of_get_set hj with ⟨_,hb⟩ | ⟨_,hj⟩
    · exact Or.inl ⟨hb,hstage⟩
    · exact Or.inr ⟨hp,Or.inl ⟨j,hj,hstage⟩⟩
  · exact Or.inr ⟨hp,Or.inr hlost⟩

theorem rebootInv_first (payload : Digest → Bytes) (s : RebootState) (h : FirstProcess payload s) :
    RebootInv s := by
  obtain ⟨⟨hidle,_,_⟩,hup,hlost⟩ := h
  have hno (a : OpRecord) : ¬ ((∃ i, s.threads.core.ops.get i = some a) ∨ a ∈ s.lost) := by
    simp [hidle.noOps, hlost]
  obtain ⟨log,hlog⟩ := hidle.log
  obtain ⟨index,hd,_⟩ := hidle.durable
  refine ⟨?_,⟨log,index,hlog,hd,?_⟩,?_,?_⟩
  · intro a ha
    exact absurd ha (hno a)
  · intro a ha
    exact absurd (known_of_logged ha) (hno a)
  · intro _ a ha
    exact absurd (known_of_logged (logged_of_flagged ha)) (hno a)
  · intro hdown
    rw [hup] at hdown
    cases hdown

theorem recommitted_threads
    (hops : Excused s.threads.core.ops a → Excused threads.core.ops a) (h : Recommitted s a) :
    Recommitted { s with threads := threads } a :=
  h.imp_left hops

theorem recommitted_of_ops_eq
    (hops : threads.core.ops = s.threads.core.ops) (h : Recommitted s a) :
    Recommitted { s with threads := threads } a :=
  recommitted_threads (fun hexcused => hops ▸ hexcused) h

theorem rebootInv_quiet (hI : RebootInv s)
    (hops : threads.core.ops = s.threads.core.ops)
    (hclock : s.threads.core.clock ≤ threads.core.clock)
    (hsame : threads.core.disk.snapshot = s.threads.core.disk.snapshot ∧
      threads.core.disk.log = s.threads.core.disk.log)
    (hrows : ∀ d r, threads.core.index.get d = some r → ∃ r', s.threads.core.index.get d = some r' ∧
      r.deleted = r'.deleted ∧ r.quarantined = r'.quarantined) :
    RebootInv { s with threads := threads } := by
  obtain ⟨log,index,hlog,hd,hfiles⟩ := hI.files
  refine ⟨?_,⟨log,index,hsame.2.trans hlog,?_,?_⟩,?_,?_⟩
  · intro a ha
    simp only [hops] at ha
    exact Nat.le_trans (hI.started a ha) hclock
  · exact (durable_congr hsame.1 hsame.2).trans hd
  · intro a ha
    simp only [Logged, hops] at ha
    exact (hfiles a ha).imp_left (recommitted_of_ops_eq hops)
  · intro hup a ha
    simp only [Flagged, hops] at ha
    rcases hI.ram hup a ha with h | h
    · exact Or.inl (recommitted_of_ops_eq hops h)
    · exact Or.inr (shows_of_flags ha.1 (hrows a.op.digest) h)
  · intro hdown
    simp only [hops]
    exact hI.down hdown

theorem logged_shown (hI : RebootInv s) (hup : s.up = true)
    (hsettled : settledFlags s.threads.core = true) (ha : Logged s a) :
    Recommitted s a ∨ Shows a.op (s.threads.core.index.get a.op.digest) := by
  apply hI.ram hup a
  obtain ⟨hp,⟨i,hi,hstage⟩ | hlost⟩ := ha
  · refine ⟨hp,Or.inl ⟨i,hi,?_⟩⟩
    have hs := List.all_eq_true.mp hsettled (i,a) (get_eq_some_iff.mp hi)
    cases h : a.stage with
    | decided => exact absurd h hstage
    | logged => simp [h, hp] at hs
    | returned => rfl
  · exact ⟨hp,Or.inr hlost⟩

theorem rebootInv_checkpoint (hI : RebootInv s) (hup : s.up = true)
    (hsettled : settledFlags s.threads.core = true)
    (hops : threads.core.ops = s.threads.core.ops)
    (hclock : s.threads.core.clock ≤ threads.core.clock)
    (hdisk : threads.core.disk = checkpoint s.threads.core.disk s.threads.core.index)
    (hindex : threads.core.index = s.threads.core.index) :
    RebootInv { s with threads := threads } := by
  refine ⟨?_,⟨[],s.threads.core.index,?_,?_,?_⟩,?_,?_⟩
  · intro a ha
    simp only [hops] at ha
    exact Nat.le_trans (hI.started a ha) hclock
  · rw [hdisk]
    rfl
  · rw [hdisk]
    exact durable_checkpoint _ _
  · intro a ha
    simp only [Logged, hops] at ha
    rcases logged_shown hI hup hsettled ha with h | h
    · exact Or.inl (recommitted_of_ops_eq hops h)
    · exact Or.inr ⟨h,fun row hrow => hrow⟩
  · intro _ a ha
    simp only [Flagged, hops] at ha
    simp only [hindex]
    exact (hI.ram hup a ha).imp_left (recommitted_of_ops_eq hops)
  · intro hdown
    cases hup.symm.trans hdown

theorem started_set (hI : RebootInv s) {b x : OpRecord} (hb : b.start ≤ s.threads.core.clock)
    (hx : (∃ j, (s.threads.core.ops.set i b).get j = some x) ∨ x ∈ s.lost) :
    x.start ≤ s.threads.core.clock+1 := by
  apply Nat.le_succ_of_le
  rcases hx with ⟨j,hj⟩ | hx
  · rcases eq_or_get_of_get_set hj with ⟨_,rfl⟩ | ⟨_,hj⟩
    · exact hb
    · exact hI.started x (Or.inl ⟨j,hj⟩)
  · exact hI.started x (Or.inr hx)

theorem rebootInv_begin (hI : RebootInv s) (op : LogOp)
    (hup : s.up = true) (hnew : s.threads.core.ops.get i = none)
    (hops : core.ops = s.threads.core.ops) (hclock : core.clock = s.threads.core.clock)
    (hsame : core.disk.snapshot = s.threads.core.disk.snapshot ∧
      core.disk.log = s.threads.core.disk.log)
    (hindex : core.index = s.threads.core.index) :
    RebootInv { s with threads := { s.threads with core := beginOp core i op } } := by
  obtain ⟨log,index,hlog,hd,hfiles⟩ := hI.files
  have hexcused : ∀ a, Recommitted s a →
      Recommitted { s with threads := { s.threads with core := beginOp core i op } } a := by
    intro a
    apply recommitted_threads
    simp only [beginOp, hops]
    exact excused_set _ _ _ _ (by simp [hnew]) (by simp)
  refine ⟨?_,⟨log,index,hsame.2.trans hlog,?_,?_⟩,?_,?_⟩
  · intro a ha
    simp only [beginOp, hops, hclock] at ha ⊢
    exact started_set hI (Nat.le_refl _) ha
  · exact (durable_congr hsame.1 hsame.2).trans hd
  · intro a ha
    -- the new mutation is in no log yet
    rcases logged_set ha (congrArg (Dict.set · i _) hops) rfl with ⟨rfl,hstage⟩ | h
    · exact absurd rfl hstage
    · exact (hfiles a h).imp_left (hexcused a)
  · intro _ a ha
    rcases flagged_set ha (congrArg (Dict.set · i _) hops) rfl with ⟨rfl,hstage⟩ | h
    · cases hstage
    · simp only [beginOp, hindex]
      exact (hI.ram hup a h).imp_left (hexcused a)
  · intro hdown
    cases hup.symm.trans hdown

theorem rowAfter_append (log : List LogOp) (op : LogOp) (d : Digest) (row : Option NeedleRecord) :
    rowAfter (log ++ [op]) d row = op.row d (rowAfter log d row) := by
  simp [rowAfter]

/-- An effect survives every mutation that is not an opposite one of its digest. -/
theorem shows_unopposed {x : LogOp} {row : Option NeedleRecord}
    (hno : ¬ (x.digest = op.digest ∧ x.isPut ≠ op.isPut)) (h : Shows op row) :
    Shows op (x.row op.digest row) := by
  by_cases hd : x.digest = op.digest
  · by_cases hp : x.isPut = op.isPut
    · exact shows_row hd hp h
    · exact absurd ⟨hd,hp⟩ hno
  · rwa [row_ne row hd]

theorem recommitted_congr {b : OpRecord} (hop : a.op = b.op)
    (hstart : a.start = b.start) (h : Recommitted s a) : Recommitted s b := by
  unfold Recommitted Excused at h ⊢
  rwa [hop, hstart] at h

theorem inFiles_congr {b : OpRecord} (hop : a.op = b.op)
    (h : InFiles log index a) : InFiles log index b := by
  obtain ⟨hshown,hkept⟩ := h
  rw [hop] at hshown hkept
  exact ⟨hshown,hkept⟩

theorem rebootInv_log (hI : RebootInv s) (hup : s.up = true)
    (hstep : logStep s.threads.core i = some core) :
    RebootInv { s with threads := { s.threads with core := core } } := by
  unfold logStep at hstep
  split at hstep
  · cases hstep
  rename_i a ha
  split_ifs at hstep with hdecided
  cases hstep
  obtain ⟨log,index,hlog,hd,hfiles⟩ := hI.files
  have happ := (durable_appendLog s.threads.core.disk a.op (a.op.line.length+1) index
    (hlog ▸ logShape_logText log) (hlog ▸ cleanEnd_logText log) hd).2
  rw [if_pos (Nat.le_succ _)] at happ
  have hexcused : ∀ x, Excused s.threads.core.ops x →
      Excused (s.threads.core.ops.set i { a with stage := .logged }) x := by
    intro x
    exact excused_set _ _ _ _ (fun c hc => by rw [← some.inj (ha.symm.trans hc)]) (by simp)
  refine ⟨?_,⟨log ++ [a.op],a.op.apply index,?_,happ,?_⟩,?_,?_⟩
  · intro x hx
    exact started_set hI (b := { a with stage := .logged }) (hI.started a (Or.inl ⟨i,ha⟩)) hx
  · simp [appendLog, hlog, logText_append, take_of_length_le]
  · intro x hx
    -- the mutation itself, or one that was logged before
    rcases logged_set hx rfl rfl with ⟨rfl,_⟩ | h
    · refine Or.inr ⟨?_,?_⟩
      · rw [get_apply]
        exact shows_self a.op
      · intro row _
        rw [rowAfter_append]
        exact shows_self a.op
    · rcases hfiles x h with h | h
      · exact Or.inl (recommitted_threads (hexcused x) h)
      · by_cases hopp : a.op.digest = x.op.digest ∧ a.op.isPut ≠ x.op.isPut
        · exact Or.inl (Or.inl ⟨i,_,get_set_self,hopp.1,hopp.2,by simp⟩)
        · refine Or.inr ⟨?_,?_⟩
          · rw [get_apply]
            exact shows_unopposed hopp h.shown
          · intro row hrow
            rw [rowAfter_append]
            exact shows_unopposed hopp (h.kept row hrow)
  · intro _ x hx
    rcases flagged_set hx rfl rfl with ⟨rfl,hstage⟩ | h
    · cases hstage
    · exact (hI.ram hup x h).imp_left (recommitted_threads (hexcused x))
  · intro hdown
    cases hup.symm.trans hdown

theorem rebootInv_update (hI : RebootInv s) (hup : s.up = true)
    (hstep : updateStep s.threads.core i = some core) :
    RebootInv { s with threads := { s.threads with core := core } } := by
  unfold updateStep at hstep
  split at hstep
  · cases hstep
  rename_i a ha
  split_ifs at hstep with hlogged
  cases hstep
  obtain ⟨log,index,hlog,hd,hfiles⟩ := hI.files
  have hexcused : ∀ x, x.start ≤ s.threads.core.clock → Excused s.threads.core.ops x →
      Excused (s.threads.core.ops.set i ⟨a.op,.returned,a.start,s.threads.core.clock⟩) x := by
    intro x hstart
    apply excused_set _ _ _ _ (fun c hc => by rw [← some.inj (ha.symm.trans hc)])
    rintro ⟨_,hlt⟩
    exact absurd hstart (Nat.not_le.mpr hlt)
  refine ⟨?_,⟨log,index,hlog,hd,?_⟩,?_,?_⟩
  · intro x hx
    exact started_set hI (b := ⟨a.op,.returned,a.start,_⟩) (hI.started a (Or.inl ⟨i,ha⟩)) hx
  · intro x hx
    -- what returns was in the log before
    have hcases : ∃ y, Logged s y ∧ y.op = x.op ∧ y.start = x.start := by
      rcases logged_set hx rfl rfl with ⟨rfl,_⟩ | h
      · exact ⟨a,⟨hx.1,Or.inl ⟨i,ha,by simp [hlogged]⟩⟩,rfl,rfl⟩
      · exact ⟨x,h,rfl,rfl⟩
    obtain ⟨y,hy,hop,hstart⟩ := hcases
    rcases hfiles y hy with h | h
    · apply Or.inl
      apply recommitted_congr hop hstart
      exact recommitted_threads (hexcused y (hI.started y (known_of_logged hy))) h
    · exact Or.inr (inFiles_congr hop h)
  · intro _ x hx
    simp only [get_apply]
    rcases flagged_set hx rfl rfl with ⟨rfl,_⟩ | hx
    · exact Or.inr (shows_self a.op)
    · have hstart := hI.started x (known_of_logged (logged_of_flagged hx))
      rcases hI.ram hup x hx with h | h
      · exact Or.inl (recommitted_threads (hexcused x hstart) h)
      · by_cases hopp : a.op.digest = x.op.digest ∧ a.op.isPut ≠ x.op.isPut
        · refine Or.inl (Or.inl ⟨i,_,get_set_self,hopp.1,hopp.2,?_⟩)
          rintro ⟨_,hlt⟩
          exact absurd hstart (Nat.not_le.mpr hlt)
        · exact Or.inr (shows_unopposed hopp h)
  · intro hdown
    cases hup.symm.trans hdown

theorem rebootInv_crashed (hI : RebootInv s)
    (hlog : disk.log = logText log) (hd : disk.durable = .ok index)
    (hfiles : ∀ a, Logged s a → Recommitted s a ∨ InFiles log index a) :
    RebootInv (crashed s disk) := by
  have hfilter : ∀ i a, (crashed s disk).threads.core.ops.get i = some a ↔
      s.threads.core.ops.get i = some a ∧ a.stage = .returned := by
    intro i a
    simp only [crashed, Dict.get_filter, filter_eq_some_iff, decide_eq_true_eq]
  have hlost : ∀ a, a ∈ (crashed s disk).lost ↔ a ∈ s.lost ∨ ∃ i b,
      s.threads.core.ops.get i = some b ∧ b.stage ≠ .returned ∧
        { b with stop := s.threads.core.clock } = a := by
    intro a
    simp [crashed, get_eq_some_iff, and_assoc]
  have hexcused : ∀ a, a.start ≤ s.threads.core.clock → Recommitted s a →
      Recommitted (crashed s disk) a := by
    intro a hstart h
    rcases h with ⟨i,b,hb,hdig,hput,hopen⟩ | ⟨b,hb,hdig,hput,hle⟩
    · by_cases hr : b.stage = .returned
      · exact Or.inl ⟨i,b,(hfilter i b).mpr ⟨hb,hr⟩,hdig,hput,hopen⟩
      · exact Or.inr ⟨{ b with stop := s.threads.core.clock },
          (hlost _).mpr (Or.inr ⟨i,b,hb,hr,rfl⟩),hdig,hput,hstart⟩
    · exact Or.inr ⟨b,(hlost b).mpr (Or.inl hb),hdig,hput,hle⟩
  have hstarted : ∀ a, ((∃ i, (crashed s disk).threads.core.ops.get i = some a) ∨
      a ∈ (crashed s disk).lost) → a.start ≤ s.threads.core.clock := by
    intro a ha
    rcases ha with ⟨i,hi⟩ | ha
    · exact hI.started a (Or.inl ⟨i,((hfilter i a).mp hi).1⟩)
    · rcases (hlost a).mp ha with ha | ⟨i,b,hb,_,rfl⟩
      · exact hI.started a (Or.inr ha)
      · exact hI.started b (Or.inl ⟨i,hb⟩)
  refine ⟨fun a ha => Nat.le_succ_of_le (hstarted a ha),⟨log,index,hlog,hd,?_⟩,?_,?_⟩
  · intro a ha
    have hstart := hstarted a (known_of_logged ha)
    have hcases : ∃ b, Logged s b ∧ b.op = a.op ∧ b.start = a.start := by
      rcases ha.2 with ⟨i,hi,hstage⟩ | ⟨hl,hstage⟩
      · exact ⟨a,⟨ha.1,Or.inl ⟨i,((hfilter i a).mp hi).1,hstage⟩⟩,rfl,rfl⟩
      · rcases (hlost a).mp hl with hl | ⟨i,b,hb,_,rfl⟩
        · exact ⟨a,⟨ha.1,Or.inr ⟨hl,hstage⟩⟩,rfl,rfl⟩
        · have hb' : b.stage = .logged := hstage
          exact ⟨b,⟨ha.1,Or.inl ⟨i,hb,by simp [hb']⟩⟩,rfl,rfl⟩
    obtain ⟨b,hb,hop,hst⟩ := hcases
    rcases hfiles b hb with h | h
    · exact Or.inl (hexcused a hstart (recommitted_congr hop hst h))
    · exact Or.inr (inFiles_congr hop h)
  · intro hup
    cases hup
  · intro _ i a ha
    exact ((hfilter i a).mp ha).2

theorem durable_underLog (saved : NeedleIndex)
    (hlog : disk.log = logText log) :
    (writeSnapshot disk saved).durable = .ok (log.foldl LogOp.apply saved) := by
  have hr := replayLog_append log [] saved
  rw [append_nil] at hr
  simp only [Disk.durable, writeSnapshot, loadSnapshot_snapshotText, bind, Except.bind, hlog, hr]
  rfl

theorem inFiles_underLog {saved : NeedleIndex}
    (hsaved : Shows a.op (saved.get a.op.digest))
    (hkept : ∀ row, Shows a.op row → Shows a.op (rowAfter log a.op.digest row)) :
    InFiles log (log.foldl LogOp.apply saved) a := by
  refine ⟨?_,hkept⟩
  rw [get_applyAll]
  exact hkept _ hsaved

theorem rebootInv_crash (hI : RebootInv s) :
    RebootInv (crashed s s.threads.core.disk) := by
  obtain ⟨log,index,hlog,hd,hfiles⟩ := hI.files
  exact rebootInv_crashed hI hlog hd hfiles

theorem rebootInv_crashRenamed (hI : RebootInv s) (hup : s.up = true)
    (hsettled : settledFlags s.threads.core = true) :
    RebootInv (crashed s (writeSnapshot s.threads.core.disk s.threads.core.index)) := by
  obtain ⟨log,index,hlog,_,hfiles⟩ := hI.files
  have hd := durable_underLog s.threads.core.index hlog
  refine rebootInv_crashed hI hlog hd ?_
  intro a ha
  rcases hfiles a ha with h | h
  · exact Or.inl h
  · rcases logged_shown hI hup hsettled ha with h' | h'
    · exact Or.inl h'
    · exact Or.inr (inFiles_underLog h' h.kept)

section
variable (s : RebootState) (hI : RebootInv s) (hdown : s.up = false)
include hI hdown

theorem rebootInv_withDisk
    (hlog : disk.log = logText log) (hd : disk.durable = .ok index)
    (hfiles : ∀ a, Logged s a → Recommitted s a ∨ InFiles log index a) :
    RebootInv (withDisk s disk) := by
  refine ⟨hI.started,⟨log,index,hlog,hd,hfiles⟩,?_,hI.down⟩
  intro hup
  cases hdown.symm.trans hup

omit hdown in
theorem rebootInv_booted (disk : Disk) (log : List LogOp) (durable index : NeedleIndex)
    (hlog : disk.log = logText log) (hd : disk.durable = .ok durable)
    (hfiles : ∀ a, Logged s a → Recommitted s a ∨ InFiles log durable a)
    (hshown : ∀ a, Logged s a → Recommitted s a ∨ Shows a.op (index.get a.op.digest)) :
    RebootInv (booted s disk index) := by
  refine ⟨hI.started,⟨log,durable,hlog,hd,hfiles⟩,?_,?_⟩
  · intro _ a ha
    exact hshown a (logged_of_flagged ha)
  · intro h
    cases h

omit hI hdown in
theorem rebuild_unflagged (hd : s.threads.core.disk.durable = .ok index)
    (hempty : index.isEmpty = true) (hclean : scanClean s = true) (ha : Logged s a) :
    (rebuildFromVolumes s.threads.core.disk.volumes).get a.op.digest = none := by
  simp only [scanClean, hd, hempty, Bool.not_true, Bool.false_or, List.all_eq_true] at hclean
  have hmem : a ∈ s.threads.core.ops.entries.map Prod.snd ++ s.lost := by
    rcases known_of_logged ha with ⟨i,hi⟩ | hl
    · apply mem_append_left
      exact List.mem_map.mpr ⟨(i,a),get_eq_some_iff.mp hi,rfl⟩
    · exact mem_append_right _ hl
  have h := hclean a hmem
  rw [ha.1, Bool.false_or, isNone_iff_eq_none] at h
  exact h

omit hdown in
theorem rebootInv_boot (hclean : scanClean s = true)
    (hboot : bootstrapWith checkpoint s.threads.core.disk = .ok (disk,index)) :
    RebootInv (booted s disk index) := by
  obtain ⟨log,durable,hlog,hd,hfiles⟩ := hI.files
  have hloaded : ∀ a, Logged s a → Recommitted s a ∨ Shows a.op (durable.get a.op.digest) :=
    fun a ha => (hfiles a ha).imp_right InFiles.shown
  rcases bootstrapWith_cases _ hd hboot with ⟨hempty,rfl,rfl⟩ | ⟨rfl,rfl | rfl⟩
  · -- the scan: no row of what was removed
    have hscan : ∀ a, Logged s a →
        Shows a.op ((rebuildFromVolumes s.threads.core.disk.volumes).get a.op.digest) := by
      intro a ha
      rw [rebuild_unflagged s hd hempty hclean ha]
      exact shows_none ha.1
    exact rebootInv_booted s hI _ [] _ _ rfl (durable_checkpoint _ _)
      (fun a ha => Or.inr ⟨hscan a ha,fun row hrow => hrow⟩) (fun a ha => Or.inr (hscan a ha))
  · apply rebootInv_booted s hI _ [] _ _ rfl (durable_checkpoint _ _) _ hloaded
    intro a ha
    exact (hloaded a ha).imp_right (fun h => ⟨h,fun row hrow => hrow⟩)
  · exact rebootInv_booted s hI _ log _ _ hlog hd hfiles hloaded

theorem rebootInv_bootRenamed (hclean : scanClean s = true)
    (hboot : bootstrapWith writeSnapshot s.threads.core.disk = .ok (disk,index)) :
    RebootInv (withDisk s disk) := by
  obtain ⟨log,durable,hlog,hd,hfiles⟩ := hI.files
  rcases bootstrapWith_cases _ hd hboot with ⟨hempty,rfl,rfl⟩ | ⟨rfl,rfl | rfl⟩
  · refine rebootInv_withDisk s hI hdown hlog (durable_underLog _ hlog) ?_
    intro a ha
    refine (hfiles a ha).imp_right (fun h => inFiles_underLog ?_ h.kept)
    rw [rebuild_unflagged s hd hempty hclean ha]
    exact shows_none ha.1
  · refine rebootInv_withDisk s hI hdown hlog (durable_underLog _ hlog) ?_
    intro a ha
    exact (hfiles a ha).imp_right (fun h => inFiles_underLog h.shown h.kept)
  · exact rebootInv_withDisk s hI hdown hlog hd hfiles

end

theorem flags_same (index : NeedleIndex) (d : Digest) (r : NeedleRecord)
    (hr : index.get d = some r) : ∃ r', index.get d = some r' ∧ r.deleted = r'.deleted ∧
      r.quarantined = r'.quarantined :=
  ⟨r,hr,rfl,rfl⟩

section
variable (payload : Digest → Bytes) (maxVolumeSize : ℕ) (s : RebootState) (hI : RebootInv s)
  (hup : s.up = true)
include hI hup

theorem rebootInv_mutate {a : MutatorAction}
    (hkept : deletionsKept s (.run (.mutate a)) = true)
    (hstep : mutatorStep payload maxVolumeSize s.threads.core a = some core) :
    RebootInv { s with threads := { s.threads with core := core } } := by
  have hflag (i : ℕ) (op : Option LogOp) (h : flagBegin s.threads.core i op = some core) :
      RebootInv { s with threads := { s.threads with core := core } } := by
    unfold flagBegin at h
    split_ifs at h with hnew
    have hnone := get_of_not_contains hnew
    cases op with
    | none =>
      cases h
      exact rebootInv_quiet hI rfl (Nat.le_succ _) ⟨rfl,rfl⟩ (flags_same _)
    | some op =>
      cases h
      exact rebootInv_begin hI op hup hnone rfl rfl ⟨rfl,rfl⟩ rfl
  cases a with
  | commit i d fresh =>
    simp only [mutatorStep] at hstep
    split at hstep
    · cases hstep
    · rename_i hnew
      obtain ⟨⟨result,l⟩,_,rfl⟩ := map_eq_some_iff.mp hstep
      have hnone : s.threads.core.ops.get i = none := by
        simp only [Bool.or_eq_true, not_or] at hnew
        simpa [Dict.contains] using hnew.1
      exact rebootInv_begin hI _ hup hnone rfl rfl ⟨rfl,rfl⟩ rfl
  | remove i d => exact hflag i _ hstep
  | quarantine i d => exact hflag i _ hstep
  | log i => exact rebootInv_log hI hup hstep
  | update i => exact rebootInv_update hI hup hstep
  | checkpoint =>
    cases hstep
    exact rebootInv_checkpoint hI hup hkept rfl (Nat.le_succ _) rfl rfl

theorem rebootInv_run {a : HaystackThreadsAction}
    (hkept : deletionsKept s (.run a) = true)
    (hstep : haystackThreadsStep payload maxVolumeSize s.threads a = some threads) :
    RebootInv { s with threads := threads } := by
  cases a with
  | mutate a =>
    obtain ⟨core,hcore,rfl⟩ := map_eq_some_iff.mp hstep
    exact rebootInv_mutate payload maxVolumeSize s hI hup hkept hcore
  | compaction c todo | locate j d start stop =>
    simp only [haystackThreadsStep] at hstep
    split_ifs at hstep
    cases hstep
    exact rebootInv_quiet hI rfl (Nat.le_refl _) ⟨rfl,rfl⟩ (flags_same _)
  | advance c fresh =>
    simp only [haystackThreadsStep] at hstep
    split at hstep
    · cases hstep
    · rename_i k hk
      obtain ⟨⟨core,k'⟩,hcore,rfl⟩ := map_eq_some_iff.mp hstep
      obtain ⟨hops,hclock,hfiles | ⟨hfiles,hkeep⟩⟩ := compactorStep_effect hcore
      · obtain ⟨⟨old,hstage⟩,hdisk,hindex⟩ := hfiles
        have hsettled : settledFlags s.threads.core = true := by
          obtain ⟨todo,stage,dropped⟩ := k
          simp only at hstage
          simpa only [deletionsKept, hk, hstage] using hkept
        exact rebootInv_checkpoint hI hup hsettled hops (Nat.le_of_eq hclock.symm) hdisk hindex
      · exact rebootInv_quiet hI hops (Nat.le_of_eq hclock.symm) hfiles hkeep
  | openRange j =>
    simp only [haystackThreadsStep] at hstep
    split at hstep
    · cases hstep
    · obtain ⟨r,_,rfl⟩ := map_eq_some_iff.mp hstep
      exact rebootInv_quiet hI rfl (Nat.le_refl _) ⟨rfl,rfl⟩ (flags_same _)

end

theorem rebootInv_step (payload : Digest → Bytes) {maxVolumeSize : ℕ} {t : RebootState}
    {a : RebootAction} (hI : RebootInv s) (hkept : deletionsKept s a = true)
    (hstep : rebootStep payload maxVolumeSize s a = some t) : RebootInv t := by
  cases hup : s.up with
  | true =>
    cases a with
    | run a =>
      rw [rebootStep, if_pos hup] at hstep
      obtain ⟨threads,hthreads,rfl⟩ := map_eq_some_iff.mp hstep
      exact rebootInv_run payload maxVolumeSize s hI hup hkept hthreads
    | crash =>
      simp only [rebootStep, hup, if_true] at hstep
      cases hstep
      exact rebootInv_crash hI
    | crashRenamed =>
      simp only [rebootStep, hup, if_true] at hstep
      cases hstep
      exact rebootInv_crashRenamed hI hup hkept
    | boot | bootTruncated v | bootRenamed => simp [rebootStep, hup] at hstep
  | false =>
    cases a with
    | run a | crash | crashRenamed => simp [rebootStep, hup] at hstep
    | boot =>
      simp only [rebootStep, hup, Bool.false_eq_true, if_false] at hstep
      split at hstep
      · next disk index hboot =>
        cases hstep
        exact rebootInv_boot s hI hkept hboot
      · cases hstep
    | bootTruncated v =>
      simp only [rebootStep, hup, Bool.false_eq_true, if_false] at hstep
      split at hstep
      · split_ifs at hstep
        cases hstep
        obtain ⟨log,durable,hlog,hd,hfiles⟩ := hI.files
        exact rebootInv_withDisk s hI hup hlog hd hfiles
      · cases hstep
    | bootRenamed =>
      simp only [rebootStep, hup, Bool.false_eq_true, if_false] at hstep
      split at hstep
      · next disk index hboot =>
        cases hstep
        exact rebootInv_bootRenamed s hI hup hkept hboot
      · cases hstep

/-- If checkpoints find no flag on its way and scans no removed needle, nothing removed is live
again. -/
theorem deleted_needles_stay (payload : Digest → Bytes) (maxVolumeSize : ℕ) (s : RebootState)
    (hs : Reachable (FirstProcess payload) (rebootStep payload maxVolumeSize)
      (fun s a => deletionsKept s a = true) s) : DeletedStay s := by
  have hI : RebootInv s := by
    apply reachable_invariant RebootInv (rebootInv_first payload) ?_ s hs
    intro s t a hI hkept hstep
    exact rebootInv_step payload hI hkept hstep
  intro hup a ha hno r hr
  have hshown := (hI.ram hup a ha).resolve_left hno
  rw [hr] at hshown
  exact not_live_of_shows ha.1 hshown

def firstProcess : RebootState := ⟨freshHaystack,true,[]⟩

theorem firstProcess_first (payload : Digest → Bytes) : FirstProcess payload firstProcess :=
  ⟨idle_freshHaystack payload,rfl,rfl⟩

/-- The removal of `abc` outlives a crash while its volume also holds a live needle. -/
theorem removed_abc_stays :
    ∃ s, (Reachable (FirstProcess abcPayload) (rebootStep abcPayload 1000)
        (fun s a => deletionsKept s a = true) s ∧
        (s.up && s.threads.core.ops.entries.any (fun e => e.2.op = .delete abcDigest)) = true) ∧
      DeletedStay s := by
  refine Exists.imp (fun s hs => ⟨hs,deleted_needles_stay abcPayload 1000 s hs.1⟩) ?_
  exact reachable_of_checkedRun _ _ _
    (commitAndRemove.map .run ++
      [.run (.mutate (.commit 2 abcManifestDigest volumeB)), .run (.mutate (.log 2)),
        .run (.mutate (.update 2)), .crash, .boot])
    firstProcess (firstProcess_first _) (by decide +kernel)

/-- A compaction saves an empty index and is cut short: the next boot scans the old volume. -/
theorem crash_revives_removed_needle :
    ∃ s, Reachable (FirstProcess abcPayload) (rebootStep abcPayload 1000) anyStep s ∧
      ¬ DeletedStay s := by
  obtain ⟨t,ht,hup,hlost,hop,hputs,r,hr,hlive⟩ := reachable_of_run (FirstProcess abcPayload)
    (rebootStep abcPayload 1000)
    (P := fun s => s.up = true ∧ s.lost = [] ∧
      s.threads.core.ops.get 1 = some ⟨.delete abcDigest,.returned,3,5⟩ ∧
      (∀ e ∈ s.threads.core.ops.entries, e.2.op.isPut ≠ false →
        e.2.stage = .returned ∧ e.2.stop < 3) ∧
      ∃ r, s.threads.core.index.get abcDigest = some r ∧ r.isLive = true)
    (commitAndRemove.map .run ++
      [.run (.compaction 0 [volumeA]), .run (.advance 0 volumeC), .run (.advance 0 volumeC),
        .run (.advance 0 volumeC), .run (.advance 0 volumeC), .crash, .boot])
    firstProcess (firstProcess_first _) (by decide +kernel)
  refine ⟨t,ht,fun h => ?_⟩
  have hdead := h hup ⟨.delete abcDigest,.returned,3,5⟩ ⟨rfl,Or.inl ⟨1,hop,rfl⟩⟩ ?_ r hr
  · rw [hlive] at hdead
    cases hdead
  · rintro (⟨i,b,hb,_,hput,hopen⟩ | ⟨b,hb,_⟩)
    · exact hopen (hputs (i,b) (get_eq_some_iff.mp hb) hput)
    · rw [hlost] at hb
      cases hb

end BackendGauntlet.ObjectStore
