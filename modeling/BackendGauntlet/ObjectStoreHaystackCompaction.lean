import BackendGauntlet.ObjectStoreHaystackThreads
import BackendGauntlet.ObjectStoreStore

/-! Compaction of one Haystack beside its mutators and readers, by the sections of its lock. -/
namespace BackendGauntlet.ObjectStore

open PyText List Option

inductive CompactStage
  | ready
  | sealed (old : VolumeId)
  | captured (old : VolumeId) (live : List (Digest × NeedleLocator))
  | opened (old : VolumeId) (live : List (Digest × NeedleLocator)) (src : Bytes)
  | published (old new : VolumeId) (moved : List (Digest × NeedleLocator))
  | swept (old : VolumeId)
  | saved (old : VolumeId)
  | failed (e : OpError)

structure Compactor where
  todo : List VolumeId
  stage : CompactStage
  dropped : List Digest

def dirtyVolumes (index : NeedleIndex) : List VolumeId :=
  (index.entries.filter (fun e => !e.2.isLive)).map (fun e => e.2.locator.volumeId)

/-- The order in which a `set` of the dirty volumes is iterated is any. -/
def isDirtyOrder (todo : List VolumeId) (index : NeedleIndex) : Bool :=
  decide todo.Nodup && todo.all (fun v => v ∈ dirtyVolumes index) &&
    (dirtyVolumes index).all (fun v => v ∈ todo)

def liveIn (index : NeedleIndex) (v : VolumeId) : List (Digest × NeedleLocator) :=
  (index.entries.filter (fun e => e.2.locator.volumeId = v ∧ e.2.isLive)).map
    (fun e => (e.1,e.2.locator))

def shortCopy (read length : ℕ) : OpError :=
  .app (.invalidRequest ("unexpected end of input: " ++ toString (length-read) ++
    " bytes short of " ++ toString length))

def copyNeedles (src : Bytes) (new : VolumeId) :
    List (Digest × NeedleLocator) → ℕ → Except OpError (Bytes × List (Digest × NeedleLocator))
  | [], _ => .ok ([],[])
  | (d,l) :: rest, start =>
    let payload := slice src l.payloadOffset l.size
    if payload.length < l.size then .error (shortCopy payload.length l.size)
    else if hr : start+needleHeaderLen+l.size < offsetLimit then do
      let (out,moved) ← copyNeedles src new rest (start+needleHeaderLen+l.size)
      pure (needleFrame d payload ++ out,(d,⟨new,start+needleHeaderLen,l.size,hr⟩) :: moved)
    -- A file cannot grow beyond the largest offset.
    else .error .osError

def remapRows (index : NeedleIndex) (moved : List (Digest × NeedleLocator)) : NeedleIndex :=
  moved.foldl (fun index m =>
    index.modify m.1 (fun r => if r.isLive then { r with locator := m.2 } else r)) index

def dropVolumeRows (index : NeedleIndex) (v : VolumeId) : NeedleIndex :=
  index.filter (fun _ r => r.locator.volumeId ≠ v)

def volumeDigests (index : NeedleIndex) (v : VolumeId) : List Digest :=
  (index.entries.filter (fun e => e.2.locator.volumeId = v)).map Prod.fst

def sweep (s : ThreadState) (k : Compactor) (old : VolumeId)
    (moved : List (Digest × NeedleLocator)) : ThreadState × Compactor :=
  ({ s with index := dropVolumeRows (remapRows s.index moved) old },
    { k with
      stage := .swept old
      dropped := k.dropped ++ volumeDigests (remapRows s.index moved) old })

/-- `fresh` is the id it mints. A handle on the old volume reads it even after an unlink. -/
def compactorStep (s : ThreadState) (k : Compactor) (fresh : VolumeId) :
    Option (ThreadState × Compactor) :=
  match k.stage with
  | .ready =>
    match k.todo with
    | [] => none
    | old :: todo =>
      some ({ s with active := s.active.filter (fun a => a.1 ≠ old) },
        { k with todo := todo, stage := .sealed old })
  | .sealed old => some (s,{ k with stage := .captured old (liveIn s.index old) })
  | .captured old [] => some (sweep s k old [])
  | .captured old live =>
    match s.disk.volumes.get old with
    | none => some (s,{ k with stage := .failed .osError })
    | some src => some (s,{ k with stage := .opened old live src })
  | .opened old live src =>
    if fresh ∈ s.used then none
    else
      match copyNeedles src fresh live 0 with
      | .error e => some (s,{ k with stage := .failed e })
      | .ok (out,moved) =>
        some ({ s with
            disk := { s.disk with volumes := s.disk.volumes.set fresh out }
            used := fresh :: s.used },
          { k with stage := .published old fresh moved })
  | .published old _ moved => some (sweep s k old moved)
  | .swept old => some ({ s with disk := checkpoint s.disk s.index },
    { k with stage := .saved old })
  | .saved old =>
    some ({ s with disk := { s.disk with volumes := s.disk.volumes.erase old } },
      { k with stage := .ready })
  | .failed _ => none

inductive RangeRead
  | located (d : Digest) (l : NeedleLocator) (start stop : ℕ)
  | opened (d : Digest) (start stop : ℕ) (bytes : Bytes)
  | refused (e : OpError)

def locateRange (index : NeedleIndex) (d : Digest) (start stop : ℕ) : RangeRead :=
  match index.get d with
  | none => .refused (.app .noSuchKey)
  | some r =>
    if r.deleted then .refused (.app .noSuchKey)
    else if r.quarantined then .refused (.app .integrityError)
    else if start > stop ∨ stop ≥ r.locator.size then
      .refused (.app (StoreState.rangeError start stop r.locator.size "needle_size"))
    else .located d r.locator start stop

def openRange (volumes : Volumes) : RangeRead → Option RangeRead
  | .located d l start stop =>
    match volumes.get l.volumeId with
    | none => some (.refused .osError)
    | some file => some (.opened d start stop
      (slice file (l.payloadOffset+start) (stop-start+1)))
  | _ => none

structure HaystackThreads where
  core : ThreadState
  compactors : Dict ℕ Compactor
  readers : Dict ℕ RangeRead

inductive HaystackThreadsAction
  | mutate (a : MutatorAction)
  | compaction (c : ℕ) (todo : List VolumeId)
  | advance (c : ℕ) (fresh : VolumeId)
  | locate (j : ℕ) (d : Digest) (start stop : ℕ)
  | openRange (j : ℕ)

def haystackThreadsStep (payload : Digest → Bytes) (maxVolumeSize : ℕ) (s : HaystackThreads) :
    HaystackThreadsAction → Option HaystackThreads
  | .mutate a => (mutatorStep payload maxVolumeSize s.core a).map
    (fun core => { s with core := core })
  | .compaction c todo =>
    if s.compactors.contains c || !isDirtyOrder todo s.core.index then none
    else some { s with compactors := s.compactors.set c ⟨todo,.ready,[]⟩ }
  | .advance c fresh =>
    match s.compactors.get c with
    | none => none
    | some k => (compactorStep s.core k fresh).map (fun p =>
        { s with core := p.1, compactors := s.compactors.set c p.2 })
  | .locate j d start stop =>
    if s.readers.contains j then none
    else some { s with readers := s.readers.set j (locateRange s.core.index d start stop) }
  | .openRange j =>
    match s.readers.get j with
    | none => none
    | some r => (openRange s.core.disk.volumes r).map (fun r =>
        { s with readers := s.readers.set j r })

theorem mem_liveIn {index : NeedleIndex} {v : VolumeId} {d : Digest} {l : NeedleLocator} :
    (d,l) ∈ liveIn index v ↔
      ∃ r, index.get d = some r ∧ r.isLive = true ∧ r.locator = l ∧ l.volumeId = v := by
  simp only [liveIn, List.mem_map, mem_filter, decide_eq_true_eq, Prod.mk.injEq, Prod.exists]
  constructor
  · rintro ⟨x,r,⟨hm,hv,hlive⟩,rfl,rfl⟩
    exact ⟨r,Dict.get_eq_some_iff.mpr hm,hlive,rfl,hv⟩
  · rintro ⟨r,hr,hlive,rfl,hv⟩
    exact ⟨d,r,⟨Dict.get_eq_some_iff.mp hr,hv,hlive⟩,rfl,rfl⟩

theorem copyNeedles_spec (payload : Digest → Bytes) {src : Bytes} {new : VolumeId}
    {live : List (Digest × NeedleLocator)} (before out : Bytes)
    (moved : List (Digest × NeedleLocator))
    (hsrc : ∀ e ∈ live, slice src e.2.payloadOffset e.2.size = payload e.1)
    (h : copyNeedles src new live before.length = .ok (out,moved)) :
    moved.map Prod.fst = live.map Prod.fst ∧
      out = needlesBytes (live.map (fun e => (e.1,payload e.1))) ∧
      (before.length < offsetLimit → before.length+out.length < offsetLimit) ∧
      ∀ e ∈ moved, e.2.volumeId = new ∧ (payload e.1).length = e.2.size ∧
        ∀ after, slice (before ++ (out ++ after)) e.2.payloadOffset e.2.size = payload e.1 := by
  induction live generalizing before out moved with
  | nil =>
    simp only [copyNeedles, Except.ok.injEq, Prod.mk.injEq] at h
    obtain ⟨rfl,rfl⟩ := h
    simp [needlesBytes]
  | cons e rest ih =>
    obtain ⟨d,l⟩ := e
    have hd : slice src l.payloadOffset l.size = payload d := hsrc (d,l) mem_cons_self
    simp only [copyNeedles, hd] at h
    split at h
    · simp at h
    · rename_i hshort
      have hsize : (payload d).length = l.size :=
        Nat.le_antisymm (hd ▸ length_take_le _ _) (Nat.not_lt.mp hshort)
      split at h
      · rename_i hr
        have hlen : (before ++ needleFrame d (payload d)).length =
            before.length+needleHeaderLen+l.size := by
          rw [length_append, length_needleFrame, hsize, Nat.add_assoc]
        cases hrec : copyNeedles src new rest (before.length+needleHeaderLen+l.size) with
        | error e => simp [hrec, bind, Except.bind] at h
        | ok p =>
          obtain ⟨out',moved'⟩ := p
          simp only [hrec, bind, Except.bind, pure, Except.pure, Except.ok.injEq,
            Prod.mk.injEq] at h
          obtain ⟨rfl,rfl⟩ := h
          obtain ⟨hkeys,hout,hlim,hmoved⟩ := ih (before ++ needleFrame d (payload d)) out' moved'
            (fun e he => hsrc e (mem_cons_of_mem _ he)) (by rw [hlen]; exact hrec)
          refine ⟨by simp [hkeys],by simp [hout, needlesBytes],fun _ => ?_,?_⟩
          · rw [length_append, ← Nat.add_assoc, ← length_append]
            exact hlim (hlen ▸ hr)
          · intro e he
            rcases mem_cons.mp he with rfl | he
            · refine ⟨rfl,hsize,fun after => ?_⟩
              have hneedle := slice_needle before d (payload d)
              rw [hsize] at hneedle
              have hfull : (slice (before ++ needleFrame d (payload d))
                  (before.length+needleHeaderLen) l.size).length =
                    l.size := by rw [hneedle, hsize]
              have happ := slice_append (out' ++ after) hfull
              rw [hneedle] at happ
              simpa using happ
            · obtain ⟨hv,hs,hslice⟩ := hmoved e he
              exact ⟨hv,hs,fun after => by simpa using hslice after⟩
      · simp at h

def remapRow (moved : List (Digest × NeedleLocator)) (d : Digest) (r : NeedleRecord) :
    NeedleRecord :=
  moved.foldl (fun r m => if d = m.1 ∧ r.isLive = true then { r with locator := m.2 } else r) r

variable (index : NeedleIndex)

theorem get_remapRows (moved : List (Digest × NeedleLocator)) (d : Digest) :
    (remapRows index moved).get d = (index.get d).map (remapRow moved d) := by
  unfold remapRows remapRow
  induction moved generalizing index with
  | nil => simp
  | cons m moved ih =>
    rw [foldl_cons, ih, Dict.get_modify]
    by_cases hd : d = m.1
    · simp only [hd, if_true, Option.map_map, foldl_cons, true_and]
      rfl
    · simp [hd]

theorem remapRow_spec (moved : List (Digest × NeedleLocator)) (d : Digest) (r : NeedleRecord) :
    (remapRow moved d r).deleted = r.deleted ∧ (remapRow moved d r).quarantined = r.quarantined ∧
      (remapRow moved d r = r ∧ (r.isLive = true → d ∉ moved.map Prod.fst) ∨
        r.isLive = true ∧ (d,(remapRow moved d r).locator) ∈ moved) := by
  unfold remapRow
  induction moved generalizing r with
  | nil => simp
  | cons m moved ih =>
    rw [foldl_cons]
    by_cases hm : d = m.1 ∧ r.isLive = true
    · rw [if_pos hm]
      obtain ⟨hdel,hq,hmoved⟩ := ih { r with locator := m.2 }
      refine ⟨hdel,hq,Or.inr ⟨hm.2,?_⟩⟩
      rcases hmoved with ⟨hsame,_⟩ | ⟨_,hmem⟩
      · rw [hsame, hm.1]
        exact mem_cons_self
      · exact mem_cons_of_mem _ hmem
    · rw [if_neg hm]
      obtain ⟨hdel,hq,hmoved⟩ := ih r
      refine ⟨hdel,hq,?_⟩
      rcases hmoved with ⟨hsame,hnot⟩ | ⟨hlive,hmem⟩
      · refine Or.inl ⟨hsame,fun hlive => ?_⟩
        rw [map_cons, mem_cons, not_or]
        exact ⟨fun hd => hm ⟨hd,hlive⟩,hnot hlive⟩
      · exact Or.inr ⟨hlive,mem_cons_of_mem _ hmem⟩

theorem get_sweep {index : NeedleIndex} {moved : List (Digest × NeedleLocator)} {old : VolumeId}
    {d : Digest} {r : NeedleRecord}
    (h : (dropVolumeRows (remapRows index moved) old).get d = some r) :
    r.locator.volumeId ≠ old ∧ ∃ r', index.get d = some r' ∧ r.deleted = r'.deleted ∧
      r.quarantined = r'.quarantined ∧ (r = r' ∨ r'.isLive = true ∧ (d,r.locator) ∈ moved) := by
  rw [dropVolumeRows, Dict.get_filter, get_remapRows] at h
  obtain ⟨hr,hv⟩ := filter_eq_some_iff.mp h
  obtain ⟨r',hr',rfl⟩ := map_eq_some_iff.mp hr
  obtain ⟨hdel,hq,hmoved⟩ := remapRow_spec moved d r'
  exact ⟨by simpa using hv,r',hr',hdel,hq,hmoved.imp_left And.left⟩

theorem live_sweep (moved : List (Digest × NeedleLocator)) (old : VolumeId)
    (d : Digest) (r : NeedleRecord) (hr : index.get d = some r) (hlive : r.isLive = true)
    (hmoved : ∀ e ∈ moved, e.2.volumeId ≠ old)
    (hcovered : r.locator.volumeId = old → d ∈ moved.map Prod.fst) :
    ∃ r', (dropVolumeRows (remapRows index moved) old).get d = some r' ∧ r'.isLive = true := by
  obtain ⟨hdel,hq,hrow⟩ := remapRow_spec moved d r
  have hvol : (remapRow moved d r).locator.volumeId ≠ old := by
    rcases hrow with ⟨hsame,hnot⟩ | ⟨_,hmem⟩
    · rw [hsame]
      exact fun hv => hnot hlive (hcovered hv)
    · exact hmoved _ hmem
  refine ⟨remapRow moved d r,?_,by simpa [NeedleRecord.isLive, hdel, hq] using hlive⟩
  rw [dropVolumeRows, Dict.get_filter, get_remapRows, hr, map_some]
  exact filter_some_pos (by simpa using hvol)

/-- What one step of a compaction does to history, files and rows. -/
theorem compactorStep_effect {s t : ThreadState} {k k' : Compactor} {fresh : VolumeId}
    (h : compactorStep s k fresh = some (t,k')) :
    t.ops = s.ops ∧ t.clock = s.clock ∧
      ((∃ old, k.stage = .swept old) ∧ t.disk = checkpoint s.disk s.index ∧ t.index = s.index ∨
        (t.disk.snapshot = s.disk.snapshot ∧ t.disk.log = s.disk.log) ∧
          ∀ d r, t.index.get d = some r → ∃ r', s.index.get d = some r' ∧
            r.deleted = r'.deleted ∧ r.quarantined = r'.quarantined) := by
  have hsame : ∀ d r, s.index.get d = some r → ∃ r', s.index.get d = some r' ∧
      r.deleted = r'.deleted ∧ r.quarantined = r'.quarantined :=
    fun d r hr => ⟨r,hr,rfl,rfl⟩
  have hsweep (moved : List (Digest × NeedleLocator)) (old : VolumeId)
      (hs : sweep s k old moved = (t,k')) :
      t.ops = s.ops ∧ t.clock = s.clock ∧ t.disk = s.disk ∧
        ∀ d r, t.index.get d = some r → ∃ r', s.index.get d = some r' ∧
          r.deleted = r'.deleted ∧ r.quarantined = r'.quarantined := by
    cases hs
    refine ⟨rfl,rfl,rfl,?_⟩
    intro d r hr
    obtain ⟨_,r',hr',hdel,hq,_⟩ := get_sweep hr
    exact ⟨r',hr',hdel,hq⟩
  unfold compactorStep at h
  split at h
  · split at h
    · cases h
    · cases h
      exact ⟨rfl,rfl,Or.inr ⟨⟨rfl,rfl⟩,hsame⟩⟩
  · cases h
    exact ⟨rfl,rfl,Or.inr ⟨⟨rfl,rfl⟩,hsame⟩⟩
  · obtain ⟨hops,hclock,hdisk,hrows⟩ := hsweep _ _ (some.inj h)
    exact ⟨hops,hclock,Or.inr ⟨⟨by rw [hdisk],by rw [hdisk]⟩,hrows⟩⟩
  · split at h
    · cases h
      exact ⟨rfl,rfl,Or.inr ⟨⟨rfl,rfl⟩,hsame⟩⟩
    · cases h
      exact ⟨rfl,rfl,Or.inr ⟨⟨rfl,rfl⟩,hsame⟩⟩
  · split_ifs at h
    split at h
    · cases h
      exact ⟨rfl,rfl,Or.inr ⟨⟨rfl,rfl⟩,hsame⟩⟩
    · cases h
      exact ⟨rfl,rfl,Or.inr ⟨⟨rfl,rfl⟩,hsame⟩⟩
  · obtain ⟨hops,hclock,hdisk,hrows⟩ := hsweep _ _ (some.inj h)
    exact ⟨hops,hclock,Or.inr ⟨⟨by rw [hdisk],by rw [hdisk]⟩,hrows⟩⟩
  · next old hstage =>
    cases h
    exact ⟨rfl,rfl,Or.inl ⟨⟨old,hstage⟩,rfl,rfl⟩⟩
  · cases h
    exact ⟨rfl,rfl,Or.inr ⟨⟨rfl,rfl⟩,hsame⟩⟩
  · cases h

end BackendGauntlet.ObjectStore
