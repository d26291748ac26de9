import Mathlib.Data.List.Perm.Basic
import BackendGauntlet.SearchAnalyzer
import BackendGauntlet.Transition

/-! One shard of the search engine: a buffer, a list of segments, refreshes and merges. -/
namespace BackendGauntlet.Search

open BackendGauntlet.PyText BackendGauntlet.Transition List Option
open scoped List

structure NewDocument where
  id : Option Text
  text : Text
deriving DecidableEq

structure StoredDoc where
  id : Option Text
  text : Text
deriving DecidableEq

structure BufferedDoc where
  docId : ℕ
  analyzed : AnalyzedDoc
  stored : StoredDoc
deriving DecidableEq

structure Segment where
  segId : ℕ
  docs : List BufferedDoc
deriving DecidableEq

structure Analyzer where
  unicode : Unicode
  config : AnalyzerConfig := {}

structure Index where
  buffer : List BufferedDoc := []
  segments : List Segment := []
  nextDocId : ℕ := 0
  nextSegId : ℕ := 0
deriving DecidableEq

def Index.buffered (analyzer : Analyzer) (index : Index) (new : NewDocument) : BufferedDoc where
  docId := index.nextDocId
  analyzed := analyzeDoc analyzer.unicode analyzer.config new.text
  stored := ⟨new.id,new.text⟩

def Index.addDocument (analyzer : Analyzer) (index : Index) (new : NewDocument) : Index × ℕ :=
  ({ index with
      buffer := index.buffer ++ [index.buffered analyzer new]
      nextDocId := index.nextDocId+1 },index.nextDocId)

/-- In `writer.flush`, or, once that is `written`, in `SegmentReader`. -/
structure Refresh where
  segId : ℕ
  drained : List BufferedDoc
  written : Bool := false
deriving DecidableEq

/-- `stale` is history: a refresh has extended the list since the snapshot. -/
structure Merge where
  segId : ℕ
  inputs : List Segment
  written : Bool := false
  stale : Bool := false
deriving DecidableEq

/-- `retired` are closed and unlinked; `refreshed` is history. -/
structure ShardState where
  index : Index := {}
  refreshes : List Refresh := []
  merges : List Merge := []
  retired : List ℕ := []
  refreshed : List BufferedDoc := []
deriving DecidableEq

def docsOf (segments : List Segment) : List BufferedDoc := segments.flatMap Segment.docs

namespace ShardState

/-- `refresh` up to its first await: the buffer is drained and a segment id taken. -/
def drain (s : ShardState) : ShardState :=
  { s with
    index := { s.index with buffer := [], nextSegId := s.index.nextSegId+1 }
    refreshes := { segId := s.index.nextSegId, drained := s.index.buffer } :: s.refreshes }

def install (s : ShardState) (r : Refresh) : ShardState :=
  { s with
    index := { s.index with segments := s.index.segments ++ [⟨r.segId,r.drained⟩] }
    refreshes := s.refreshes.erase r
    merges := s.merges.map (fun m => { m with stale := true })
    refreshed := s.refreshed ++ r.drained }

/-- `force_merge` up to its first await: the list is snapshot and a segment id taken. -/
def snapshot (s : ShardState) : ShardState :=
  { s with
    index := { s.index with nextSegId := s.index.nextSegId+1 }
    merges := { segId := s.index.nextSegId, inputs := s.index.segments } :: s.merges }

/-- The end of `force_merge`: `self._segments = [reader]`, then every input is retired. -/
def swap (s : ShardState) (m : Merge) : ShardState :=
  { s with
    index := { s.index with segments := [⟨m.segId,docsOf m.inputs⟩] }
    merges := s.merges.erase m
    retired := s.retired ++ m.inputs.map Segment.segId }

end ShardState

inductive ShardAction
  | addDocument (new : NewDocument)
  | refresh
  | refreshWritten (segId : ℕ)
  | refreshOpened (segId : ℕ)
  | forceMerge
  | mergeWritten (segId : ℕ)
  | mergeOpened (segId : ℕ)

def refreshIn (s : ShardState) (written : Bool) (segId : ℕ) : Option Refresh :=
  s.refreshes.find? (fun r => r.segId == segId && r.written == written)

def mergeIn (s : ShardState) (written : Bool) (segId : ℕ) : Option Merge :=
  s.merges.find? (fun m => m.segId == segId && m.written == written)

/-- One uninterrupted stretch of one call. -/
def shardStep (analyzer : Analyzer) (s : ShardState) : ShardAction → Option ShardState
  | .addDocument new => some { s with index := (s.index.addDocument analyzer new).1 }
  | .refresh => if s.index.buffer.isEmpty then some s else some s.drain
  | .refreshWritten segId => (refreshIn s false segId).map (fun r =>
      { s with refreshes := { r with written := true } :: s.refreshes.erase r })
  | .refreshOpened segId => (refreshIn s true segId).map s.install
  | .forceMerge => if s.index.segments.length ≤ 1 then some s else some s.snapshot
  | .mergeWritten segId => (mergeIn s false segId).map (fun m =>
      { s with merges := { m with written := true } :: s.merges.erase m })
  | .mergeOpened segId => (mergeIn s true segId).map s.swap

/-- A merge swaps only if no refresh has listed a segment since its snapshot. -/
def swapsFresh (s : ShardState) : ShardAction → Bool
  | .mergeOpened segId => (mergeIn s true segId).all (fun m => !m.stale)
  | _ => true

inductive ShardChange (analyzer : Analyzer) (fresh : Prop) (s : ShardState) : ShardState → Prop
  | idle : ShardChange analyzer fresh s s
  | added (new : NewDocument) :
      ShardChange analyzer fresh s { s with index := (s.index.addDocument analyzer new).1 }
  | drained : ShardChange analyzer fresh s s.drain
  | refreshWritten (r : Refresh) (hr : r ∈ s.refreshes) : ShardChange analyzer fresh s
      { s with refreshes := { r with written := true } :: s.refreshes.erase r }
  | installed (r : Refresh) (hr : r ∈ s.refreshes) :
      ShardChange analyzer fresh s (s.install r)
  | snapshot : ShardChange analyzer fresh s s.snapshot
  | mergeWritten (m : Merge) (hm : m ∈ s.merges) : ShardChange analyzer fresh s
      { s with merges := { m with written := true } :: s.merges.erase m }
  | swapped (m : Merge) (hm : m ∈ s.merges) (hfresh : fresh → m.stale = false) :
      ShardChange analyzer fresh s (s.swap m)

variable {analyzer : Analyzer} {s t : ShardState} {r : Refresh} {fresh : Prop} {m : Merge}

/-- What a step can do. -/
theorem shardStep_change {a : ShardAction}
    (h : shardStep analyzer s a = some t) :
    ShardChange analyzer (swapsFresh s a = true) s t := by
  cases a with
  | addDocument new =>
    cases h
    exact .added new
  | refresh =>
    rw [shardStep] at h
    split at h
    · cases h
      exact .idle
    · cases h
      exact .drained
  | refreshWritten segId =>
    obtain ⟨r,hr,rfl⟩ := map_eq_some_iff.mp h
    exact .refreshWritten r (mem_of_find?_eq_some hr)
  | refreshOpened segId =>
    obtain ⟨r,hr,rfl⟩ := map_eq_some_iff.mp h
    exact .installed r (mem_of_find?_eq_some hr)
  | forceMerge =>
    rw [shardStep] at h
    split at h
    · cases h
      exact .idle
    · cases h
      exact .snapshot
  | mergeWritten segId =>
    obtain ⟨m,hm,rfl⟩ := map_eq_some_iff.mp h
    exact .mergeWritten m (mem_of_find?_eq_some hm)
  | mergeOpened segId =>
    obtain ⟨m,hm,rfl⟩ := map_eq_some_iff.mp h
    refine .swapped m (mem_of_find?_eq_some hm) ?_
    intro hfresh
    rw [swapsFresh, hm] at hfresh
    simpa using hfresh

/-! ### Where the documents are -/

def flightDocs (refreshes : List Refresh) : List BufferedDoc := refreshes.flatMap Refresh.drained

def ShardState.places (s : ShardState) : List BufferedDoc :=
  s.index.buffer ++ flightDocs s.refreshes ++ s.refreshed

def Placed (s : ShardState) : Prop :=
  s.places.map BufferedDoc.docId ~ List.range s.index.nextDocId

theorem Placed.nodup (s : ShardState) (h : Placed s) : s.places.Nodup :=
  List.Nodup.of_map _ (h.nodup_iff.mpr nodup_range)

theorem flightDocs_erase {refreshes : List Refresh} (hr : r ∈ refreshes) :
    flightDocs refreshes ~ r.drained ++ flightDocs (refreshes.erase r) :=
  (perm_cons_erase hr).flatMap_right Refresh.drained

theorem Placed.of_perm (s t : ShardState) (hp : t.places ~ s.places)
    (hid : t.index.nextDocId = s.index.nextDocId) (h : Placed s) : Placed t := by
  rw [Placed, hid]
  exact (hp.map BufferedDoc.docId).trans h

theorem placed_added (analyzer : Analyzer) (new : NewDocument) (h : Placed s) :
    Placed { s with index := (s.index.addDocument analyzer new).1 } := by
  have hp : ({ s with index := (s.index.addDocument analyzer new).1 } : ShardState).places ~
      s.index.buffered analyzer new :: s.places := by
    simp only [ShardState.places, Index.addDocument, append_assoc]
    exact perm_middle
  calc _ ~ s.index.nextDocId :: s.places.map BufferedDoc.docId := hp.map BufferedDoc.docId
    _ ~ s.index.nextDocId :: range s.index.nextDocId := h.cons _
    _ ~ range (s.index.nextDocId+1) := by
        rw [range_succ]
        exact (perm_append_singleton _ _).symm

theorem places_install (hr : r ∈ s.refreshes) :
    (s.install r).places ~ s.places := by
  simp only [ShardState.places, ShardState.install, append_assoc]
  refine List.Perm.append_left _ ?_
  calc flightDocs (s.refreshes.erase r) ++ (s.refreshed ++ r.drained)
      ~ flightDocs (s.refreshes.erase r) ++ (r.drained ++ s.refreshed) :=
        perm_append_comm.append_left _
    _ ~ r.drained ++ flightDocs (s.refreshes.erase r) ++ s.refreshed := by
        rw [← append_assoc]
        exact perm_append_comm.append_right _
    _ ~ flightDocs s.refreshes ++ s.refreshed :=
        (flightDocs_erase hr).symm.append_right _

/-- No step loses or doubles a document. -/
theorem placed_change
    (hc : ShardChange analyzer fresh s t) (h : Placed s) : Placed t := by
  cases hc with
  | idle => exact h
  | added new => exact placed_added analyzer new h
  | drained =>
    refine h.of_perm s _ ?_ rfl
    simp [ShardState.places, ShardState.drain, flightDocs]
  | refreshWritten r hr =>
    refine h.of_perm s _ ?_ rfl
    simp only [ShardState.places, append_assoc]
    exact ((flightDocs_erase hr).symm.append_right _).append_left _
  | installed r hr => exact h.of_perm s _ (places_install hr) rfl
  | snapshot | mergeWritten m hm | swapped m hm hfresh =>
    exact h.of_perm s _ (List.Perm.refl _) rfl

/-! ### Which segments are listed -/

structure Separate (next : ℕ) (flight settled : List ℕ) : Prop where
  nodup : flight.Nodup
  flight_lt : ∀ id ∈ flight, id < next
  settled_lt : ∀ id ∈ settled, id < next
  disjoint : ∀ id ∈ flight, id ∉ settled

namespace Separate

variable {next id : ℕ} {flight flight' settled settled' : List ℕ}

theorem mono (h : Separate next flight settled) (hf : flight' ~ flight)
    (hs : settled' ⊆ settled) : Separate next flight' settled' where
  nodup := hf.nodup_iff.mpr h.nodup
  flight_lt x hx := h.flight_lt x (hf.subset hx)
  settled_lt x hx := h.settled_lt x (hs hx)
  disjoint x hx hsx := h.disjoint x (hf.subset hx) (hs hsx)

theorem start (h : Separate next flight settled) :
    Separate (next+1) (next :: flight) settled where
  nodup := nodup_cons.mpr ⟨fun hmem => Nat.lt_irrefl _ (h.flight_lt next hmem),h.nodup⟩
  flight_lt x hx := by
    cases mem_cons.mp hx with
    | inl heq => omega
    | inr hmem => exact Nat.lt_succ_of_lt (h.flight_lt x hmem)
  settled_lt x hx := Nat.lt_succ_of_lt (h.settled_lt x hx)
  disjoint x hx hsx := by
    cases mem_cons.mp hx with
    | inl heq => exact Nat.lt_irrefl next (heq ▸ h.settled_lt x hsx)
    | inr hmem => exact h.disjoint x hmem hsx

theorem settle (h : Separate next (id :: flight) settled) :
    Separate next flight (id :: settled) where
  nodup := (nodup_cons.mp h.nodup).2
  flight_lt x hx := h.flight_lt x (mem_cons_of_mem id hx)
  settled_lt x hx := by
    cases mem_cons.mp hx with
    | inl heq => exact heq ▸ h.flight_lt id mem_cons_self
    | inr hmem => exact h.settled_lt x hmem
  disjoint x hx hsx := by
    cases mem_cons.mp hsx with
    | inl heq => exact (nodup_cons.mp h.nodup).1 (heq ▸ hx)
    | inr hmem => exact h.disjoint x (mem_cons_of_mem id hx) hmem

end Separate

def segIds (segments : List Segment) : List ℕ := segments.map Segment.segId

namespace ShardState

def flightIds (s : ShardState) : List ℕ :=
  s.refreshes.map Refresh.segId ++ s.merges.map Merge.segId

def inputIds (s : ShardState) : List ℕ := s.merges.flatMap (fun m => segIds m.inputs)

def settledIds (s : ShardState) : List ℕ := segIds s.index.segments ++ s.inputIds ++ s.retired

end ShardState

structure Numbered (s : ShardState) : Prop where
  separate : Separate s.index.nextSegId s.flightIds s.settledIds
  unretired : ∀ id ∈ segIds s.index.segments, id ∉ s.retired

theorem flightIds_refresh (hr : r ∈ s.refreshes) :
    r.segId :: ((s.refreshes.erase r).map Refresh.segId ++ s.merges.map Merge.segId) ~
      s.flightIds :=
  (((perm_cons_erase hr).map Refresh.segId).append_right _).symm

theorem flightIds_merge (hm : m ∈ s.merges) :
    m.segId :: (s.refreshes.map Refresh.segId ++ (s.merges.erase m).map Merge.segId) ~
      s.flightIds :=
  perm_middle.symm.trans ((((perm_cons_erase hm).map Merge.segId).append_left _).symm)

theorem inputIds_erase (s : ShardState) (m : Merge) :
    (s.merges.erase m).flatMap (fun m => segIds m.inputs) ⊆ s.inputIds := by
  intro id hid
  obtain ⟨k,hk,hid⟩ := mem_flatMap.mp hid
  exact mem_flatMap.mpr ⟨k,mem_of_mem_erase hk,hid⟩

theorem segIds_subset_inputIds (hm : m ∈ s.merges) :
    segIds m.inputs ⊆ s.inputIds := by
  intro id hid
  exact mem_flatMap.mpr ⟨m,hm,hid⟩

theorem numbered_install (hr : r ∈ s.refreshes)
    (h : Numbered s) : Numbered (s.install r) := by
  have hr' : r.segId ∈ s.flightIds := (flightIds_refresh hr).subset mem_cons_self
  have hstale : (s.merges.map (fun m => { m with stale := true })).map Merge.segId =
      s.merges.map Merge.segId := by rw [List.map_map]; rfl
  have hinputs : (s.install r).inputIds = s.inputIds := by
    simp only [ShardState.inputIds, ShardState.install, flatMap_map]
  constructor
  · refine (h.separate.mono (flightIds_refresh hr) (List.Subset.refl _)).settle.mono ?_ ?_
    · rw [ShardState.flightIds, ShardState.install, hstale]
    · rw [ShardState.settledIds, hinputs]
      intro id hid
      simp only [ShardState.settledIds, ShardState.install, segIds, map_append, map_cons,
        map_nil, mem_append, mem_cons, not_mem_nil, or_false] at hid ⊢
      tauto
  · intro id hid
    simp only [ShardState.install, segIds, map_append, map_cons, map_nil,
      mem_append, mem_singleton] at hid
    cases hid with
    | inl hold => exact h.unretired id hold
    | inr hnew =>
      -- the new segment was in flight until now, so it cannot have been retired
      intro hret
      exact h.separate.disjoint r.segId hr' (mem_append_right _ (hnew ▸ hret))

theorem numbered_swap (hm : m ∈ s.merges) (h : Numbered s) :
    Numbered (s.swap m) := by
  have hm' : m.segId ∈ s.flightIds := (flightIds_merge hm).subset mem_cons_self
  have hin := segIds_subset_inputIds hm
  constructor
  · refine (h.separate.mono (flightIds_merge hm) (List.Subset.refl _)).settle.mono
      (List.Perm.refl _) ?_
    intro id hid
    simp only [ShardState.settledIds, ShardState.inputIds, ShardState.swap, segIds, map_cons,
      map_nil, mem_append, mem_cons, not_mem_nil, or_false] at hid
    rcases hid with ((heq | hid) | hid | hid)
    · exact heq ▸ mem_cons_self
    · refine mem_cons_of_mem _ (mem_append_left _ (mem_append_right _ ?_))
      exact inputIds_erase s m hid
    · exact mem_cons_of_mem _ (mem_append_right _ hid)
    · exact mem_cons_of_mem _ (mem_append_left _ (mem_append_right _ (hin hid)))
  · intro id hid hret
    cases mem_singleton.mp hid
    apply h.separate.disjoint m.segId hm'
    cases mem_append.mp hret with
    | inl hold => exact mem_append_right _ hold
    | inr hnew => exact mem_append_left _ (mem_append_right _ (hin hnew))

theorem numbered_change
    (hc : ShardChange analyzer fresh s t) (h : Numbered s) : Numbered t := by
  cases hc with
  | idle => exact h
  | added new => exact ⟨h.separate,h.unretired⟩
  | drained => exact ⟨h.separate.start,h.unretired⟩
  | refreshWritten r hr =>
    exact ⟨h.separate.mono (flightIds_refresh hr) (List.Subset.refl _),h.unretired⟩
  | installed r hr => exact numbered_install hr h
  | snapshot =>
    refine ⟨h.separate.start.mono perm_middle ?_,h.unretired⟩
    intro id hid
    simp only [ShardState.settledIds, ShardState.inputIds, ShardState.snapshot, flatMap_cons,
      mem_append] at hid ⊢
    tauto
  | mergeWritten m hm =>
    refine ⟨h.separate.mono (perm_middle.trans (flightIds_merge hm)) ?_,h.unretired⟩
    have hin := segIds_subset_inputIds hm
    have hrest := inputIds_erase s m
    intro id hid
    simp only [ShardState.settledIds, ShardState.inputIds, flatMap_cons, mem_append] at hid ⊢
    rcases hid with ((hid | hid | hid) | hid)
    · exact Or.inl (Or.inl hid)
    · exact Or.inl (Or.inr (hin hid))
    · exact Or.inl (Or.inr (hrest hid))
    · exact Or.inr hid
  | swapped m hm hfresh => exact numbered_swap hm h

/-! ### Which documents are listed -/

structure Distinct (refreshed : List BufferedDoc) (segments : List Segment) : Prop where
  nodup : (docsOf segments).Nodup
  subset : docsOf segments ⊆ refreshed

structure Listed (s : ShardState) : Prop where
  segments : Distinct s.refreshed s.index.segments
  inputs : ∀ m ∈ s.merges, Distinct s.refreshed m.inputs

theorem docsOf_append (segments : List Segment) (segId : ℕ) (docs : List BufferedDoc) :
    docsOf (segments ++ [⟨segId,docs⟩]) = docsOf segments ++ docs := by
  simp [docsOf]

theorem docsOf_singleton (segId : ℕ) (docs : List BufferedDoc) :
    docsOf [⟨segId,docs⟩] = docs := by
  simp [docsOf]

theorem Distinct.append_refreshed {refreshed : List BufferedDoc} {segments : List Segment}
    (docs : List BufferedDoc) (h : Distinct refreshed segments) :
    Distinct (refreshed ++ docs) segments :=
  ⟨h.nodup,fun _ hd => mem_append_left _ (h.subset hd)⟩

theorem listed_install (hr : r ∈ s.refreshes) (hp : Placed s)
    (h : Listed s) : Listed (s.install r) := by
  have hflight : (r.drained ++ (flightDocs (s.refreshes.erase r) ++ s.refreshed)).Nodup := by
    rw [← append_assoc]
    refine ((flightDocs_erase hr).append_right _).nodup_iff.mp ?_
    have hn := hp.nodup
    rw [ShardState.places, append_assoc] at hn
    exact (nodup_append'.mp hn).2.1
  obtain ⟨hdrained,-,hdisj⟩ := nodup_append'.mp hflight
  constructor
  · constructor
    · change (docsOf (s.index.segments ++ [_])).Nodup
      rw [docsOf_append]
      -- what is listed has been refreshed, and what was drained has not
      refine nodup_append'.mpr ⟨h.segments.nodup,hdrained,?_⟩
      intro d hd hdr
      exact hdisj hdr (mem_append_right _ (h.segments.subset hd))
    · change docsOf (s.index.segments ++ [_]) ⊆ _
      rw [docsOf_append]
      exact append_subset.mpr
        ⟨fun d hd => mem_append_left _ (h.segments.subset hd),subset_append_right _ _⟩
  · intro m hm
    obtain ⟨k,hk,rfl⟩ := List.mem_map.mp hm
    exact (h.inputs k hk).append_refreshed r.drained

theorem listed_change
    (hc : ShardChange analyzer fresh s t) (hp : Placed s) (h : Listed s) : Listed t := by
  cases hc with
  | idle => exact h
  | added new | drained | refreshWritten r hr => exact ⟨h.segments,h.inputs⟩
  | installed r hr => exact listed_install hr hp h
  | snapshot => exact ⟨h.segments,forall_mem_cons.mpr ⟨h.segments,h.inputs⟩⟩
  | mergeWritten m hm =>
    refine ⟨h.segments,forall_mem_cons.mpr ⟨h.inputs m hm,?_⟩⟩
    exact fun k hk => h.inputs k (mem_of_mem_erase hk)
  | swapped m hm hfresh =>
    have hin := h.inputs m hm
    refine ⟨⟨?_,?_⟩,fun k hk => h.inputs k (mem_of_mem_erase hk)⟩
    · change (docsOf [_]).Nodup
      rw [docsOf_singleton]
      exact hin.nodup
    · change docsOf [_] ⊆ s.refreshed
      rw [docsOf_singleton]
      exact hin.subset

structure Kept (s : ShardState) : Prop where
  listed : s.refreshed ⊆ docsOf s.index.segments
  covered : ∀ m ∈ s.merges, m.stale = false → s.refreshed ⊆ docsOf m.inputs

theorem kept_change
    (hc : ShardChange analyzer True s t) (h : Kept s) : Kept t := by
  cases hc with
  | idle => exact h
  | added new | drained | refreshWritten r hr => exact ⟨h.listed,h.covered⟩
  | installed r hr =>
    constructor
    · change s.refreshed ++ r.drained ⊆ docsOf (s.index.segments ++ [_])
      rw [docsOf_append]
      exact append_subset.mpr ⟨fun d hd => mem_append_left _ (h.listed hd),subset_append_right _ _⟩
    · -- every merge in flight is stale from here on
      intro m hm hstale
      obtain ⟨k,-,rfl⟩ := List.mem_map.mp hm
      exact absurd hstale Bool.true_eq_false.mp
  | snapshot => exact ⟨h.listed,forall_mem_cons.mpr ⟨fun _ => h.listed,h.covered⟩⟩
  | mergeWritten m hm =>
    refine ⟨h.listed,forall_mem_cons.mpr ⟨h.covered m hm,?_⟩⟩
    exact fun k hk => h.covered k (mem_of_mem_erase hk)
  | swapped m hm hfresh =>
    refine ⟨?_,fun k hk => h.covered k (mem_of_mem_erase hk)⟩
    -- where the condition of the run is needed
    change s.refreshed ⊆ docsOf [_]
    rw [docsOf_singleton]
    exact h.covered m hm (hfresh trivial)

def ShardState.holders (s : ShardState) (d : BufferedDoc) : ℕ :=
  s.index.segments.countP (fun segment => d ∈ segment.docs)

theorem countP_le_one_of_nodup {segments : List Segment} (d : BufferedDoc)
    (h : (docsOf segments).Nodup) : segments.countP (fun segment => d ∈ segment.docs) ≤ 1 := by
  induction segments with
  | nil => exact Nat.zero_le 1
  | cons segment segments ih =>
    rw [docsOf, flatMap_cons] at h
    obtain ⟨-,hrest,hdisj⟩ := nodup_append'.mp h
    by_cases hd : d ∈ segment.docs
    · have hzero : segments.countP (fun segment => d ∈ segment.docs) = 0 := by
        rw [countP_eq_zero]
        intro other hother hmem
        exact hdisj hd (mem_flatMap.mpr ⟨other,hother,of_decide_eq_true hmem⟩)
      rw [countP_cons, hzero, if_pos (decide_eq_true hd)]
    · rw [countP_cons, if_neg (by simpa using hd)]
      exact ih hrest

structure Shelved (s : ShardState) : Prop where
  placed : Placed s
  numbered : Numbered s
  listed : Listed s

theorem shelved_new : Shelved {} where
  placed := List.Perm.refl _
  numbered := ⟨⟨nodup_nil,forall_mem_nil _,forall_mem_nil _,forall_mem_nil _⟩,forall_mem_nil _⟩
  listed := ⟨⟨nodup_nil,nil_subset _⟩,forall_mem_nil _⟩

theorem shelved_change
    (hc : ShardChange analyzer fresh s t) (h : Shelved s) : Shelved t where
  placed := placed_change hc h.placed
  numbered := numbered_change hc h.numbered
  listed := listed_change hc h.placed h.listed

theorem reachable_shelved (ok : ShardState → ShardAction → Prop)
    (h : Reachable (fun s => s = {}) (shardStep analyzer) ok s) : Shelved s := by
  refine reachable_invariant Shelved ?_ ?_ s h
  · rintro s rfl
    exact shelved_new
  · intro s t a hs _ ht
    exact shelved_change (shardStep_change ht) hs

theorem reachable_kept
    (h : Reachable (fun s => s = {}) (shardStep analyzer) (fun s a => swapsFresh s a = true) s) :
    Kept s := by
  refine reachable_invariant Kept ?_ ?_ s h
  · rintro s rfl
    exact ⟨nil_subset _,forall_mem_nil _⟩
  · intro s t a hs ha ht
    have hc := shardStep_change ht
    rw [eq_true ha] at hc
    exact kept_change hc hs

theorem holders_le_one (h : Shelved s) (d : BufferedDoc) : s.holders d ≤ 1 :=
  countP_le_one_of_nodup d h.listed.segments.nodup

theorem holders_pos (h : Kept s) {d : BufferedDoc} (hd : d ∈ s.refreshed) :
    0 < s.holders d := by
  obtain ⟨segment,hsegment,hmem⟩ := mem_flatMap.mp (h.listed hd)
  exact countP_pos_iff.mpr ⟨segment,hsegment,decide_eq_true hmem⟩

/-- No listed segment is retired, no document is listed twice, and a refreshed one stays listed
unless a merge swaps in a stale snapshot. -/
theorem refreshed_documents_listed (analyzer : Analyzer) :
    (∀ s, Reachable (fun s => s = {}) (shardStep analyzer) anyStep s →
      (∀ segment ∈ s.index.segments, segment.segId ∉ s.retired) ∧ ∀ d, s.holders d ≤ 1) ∧
    (∀ s, Reachable (fun s => s = {}) (shardStep analyzer) (fun s a => swapsFresh s a = true) s →
      ∀ d ∈ s.refreshed, s.holders d = 1) := by
  constructor
  · intro s hs
    have hshelved := reachable_shelved _ hs
    refine ⟨?_,holders_le_one hshelved⟩
    intro segment hsegment
    exact hshelved.numbered.unretired _ (List.mem_map_of_mem hsegment)
  · intro s hs d hd
    have hle := holders_le_one (reachable_shelved _ hs) d
    have hpos := holders_pos (reachable_kept hs) hd
    omega

def indexOne (text : String) (segId : ℕ) : List ShardAction :=
  [.addDocument ⟨none,text.toList⟩, .refresh, .refreshWritten segId, .refreshOpened segId]

theorem refreshed_documents_listed_merge :
    ∃ s, Reachable (fun s => s = {}) (shardStep ⟨latin,{}⟩) (fun s a => swapsFresh s a = true) s ∧
      s.retired = [0, 1] ∧ s.refreshed.length = 3 ∧ ∀ d ∈ s.refreshed, s.holders d = 1 := by
  refine Exists.imp (fun s (h : _ ∧ _ ∧ _) =>
    ⟨h.1,h.2.1,h.2.2,(refreshed_documents_listed ⟨latin,{}⟩).2 s h.1⟩) ?_
  exact reachable_of_checkedRun _ _ _
    (indexOne "Rust" 0 ++ indexOne "Go" 1 ++ [.forceMerge, .mergeWritten 2, .mergeOpened 2] ++
      indexOne "Lean" 3) {} rfl (by decide +kernel)

/-- The merge replaces the list that a refresh has extended meanwhile. -/
theorem refreshed_document_unlisted :
    ∃ s, Reachable (fun s => s = {}) (shardStep ⟨latin,{}⟩) anyStep s ∧
      ∃ d ∈ s.refreshed, s.holders d = 0 :=
  reachable_of_run _ _
    (indexOne "Rust" 0 ++ indexOne "Go" 1 ++ [.forceMerge] ++ indexOne "Lean" 3 ++
      [.mergeWritten 2, .mergeOpened 2]) {} rfl (by decide +kernel)

end BackendGauntlet.Search
