import BackendGauntlet.PyText
import Mathlib.Data.Rat.Init

/-! The window of one live stream: a bounded ring of numbered segments. -/
namespace BackendGauntlet.LiveIngest

open PyText List

abbrev Bytes := List ℕ

structure LiveEdge where
  msn : ℕ
  part : ℕ
deriving DecidableEq

structure Part where
  data : Bytes
  duration : ℚ
  independent : Bool
deriving DecidableEq

structure Segment where
  msn : ℕ
  programDateTime : ℤ
  parts : List Part
  complete : Bool
  data : Option Bytes
  duration : ℚ
deriving DecidableEq

structure LiveStream where
  key : Text
  window : { n : ℕ // 0 < n }
  segments : List Segment
  nextMsn : ℕ
  ended : Bool
  edge : Option LiveEdge
  /-- The generation of the event that the waiters park on. -/
  edgeChanged : ℕ
  fits : segments.length ≤ window
  numbered : ∀ i segment, segments[i]? = some segment → segment.msn+segments.length = nextMsn+i

def LiveStream.new (key : Text) (window : { n : ℕ // 0 < n }) : LiveStream where
  key := key
  window := window
  segments := []
  nextMsn := 0
  ended := false
  edge := none
  edgeChanged := 0
  fits := Nat.zero_le _
  numbered := by simp

variable {x : Segment} {msn : ℤ} {data : Bytes}

section
variable (s : LiveStream)

theorem length_openSegment :
    ((s.segments ++ [x]).drop (s.segments.length+1-s.window)).length ≤ s.window := by
  rw [length_drop, length_append, length_singleton]
  omega

theorem numbered_openSegment (hx : x.msn = s.nextMsn) (i : ℕ) (segment : Segment)
    (h : ((s.segments ++ [x]).drop (s.segments.length+1-s.window))[i]? = some segment) :
    segment.msn+((s.segments ++ [x]).drop (s.segments.length+1-s.window)).length =
      s.nextMsn+1+i := by
  have hpos := s.window.2
  have hfits := s.fits
  rw [getElem?_drop] at h
  rw [length_drop, length_append, length_singleton]
  rcases Nat.lt_or_ge (s.segments.length+1-s.window+i) s.segments.length with hold | hnew
  · rw [getElem?_append_left hold] at h
    have hnum := s.numbered _ segment h
    omega
  · rw [getElem?_append_right hnew, getElem?_singleton] at h
    split_ifs at h with hlast
    cases h
    omega

variable (f : Segment → Segment)

theorem numbered_modifyLast (hf : ∀ x, (f x).msn = x.msn) (i : ℕ)
    (segment : Segment)
    (h : (s.segments.modify (s.segments.length-1) f)[i]? = some segment) :
    segment.msn+(s.segments.modify (s.segments.length-1) f).length = s.nextMsn+i := by
  rw [length_modify]
  rw [getElem?_modify] at h
  obtain ⟨old,hold,rfl⟩ := Option.map_eq_some_iff.mp h
  have hnum := s.numbered i old hold
  split_ifs
  · rw [hf]
    exact hnum
  · exact hnum

def Segment.new (msn : ℕ) (now : ℤ) : Segment := ⟨msn,now,[],false,none,0⟩

def LiveStream.openSegment (now : ℤ) : LiveStream where
  key := s.key
  window := s.window
  segments := (s.segments ++ [Segment.new s.nextMsn now]).drop (s.segments.length+1-s.window)
  nextMsn := s.nextMsn+1
  ended := s.ended
  edge := s.edge
  edgeChanged := s.edgeChanged
  fits := length_openSegment s
  numbered := numbered_openSegment s rfl

def LiveStream.modifyLast (f : Segment → Segment) (hf : ∀ x, (f x).msn = x.msn) : LiveStream where
  key := s.key
  window := s.window
  segments := s.segments.modify (s.segments.length-1) f
  nextMsn := s.nextMsn
  ended := s.ended
  edge := s.edge
  edgeChanged := s.edgeChanged
  fits := by rw [List.length_modify]; exact s.fits
  numbered := numbered_modifyLast s f hf

def LiveStream.wake : LiveStream := { s with edgeChanged := s.edgeChanged+1 }

def Segment.addPart (part : Part) (x : Segment) : Segment :=
  { x with parts := x.parts ++ [part], duration := x.duration+part.duration }

def Segment.finish (data : Bytes) (x : Segment) : Segment :=
  { x with complete := true, data := some data }

def LiveStream.pushPart (part : Part) (startSegment : Bool) (now : ℤ) : LiveStream :=
  let opened := if startSegment || s.segments.isEmpty then s.openSegment now else s
  let pushed := opened.modifyLast (Segment.addPart part) (fun _ => rfl)
  { pushed with
    edge := pushed.segments.getLast?.map (fun x : Segment => ⟨x.msn,x.parts.length-1⟩) }.wake

def LiveStream.finishSegment (data : Bytes) : LiveStream :=
  s.modifyLast (Segment.finish data) (fun _ => rfl)

def LiveStream.markEnded : LiveStream := { s with ended := true }.wake

def LiveStream.find (msn : ℤ) : Option Segment :=
  match s.segments with
  | [] => none
  | first :: _ =>
    let index := msn-first.msn
    if 0 ≤ index ∧ index < s.segments.length then s.segments[index.toNat]? else none

def LiveStream.segmentBytes (msn : ℤ) : Option Bytes :=
  match s.find msn with
  | none => none
  | some x => if x.complete then x.data else none

/-- Segments are found by their numbers. -/
theorem find_eq_some_iff (msn : ℤ) (x : Segment) :
    s.find msn = some x ↔ x ∈ s.segments ∧ (x.msn : ℤ) = msn := by
  unfold LiveStream.find
  cases hs : s.segments with
  | nil => simp
  | cons first rest =>
    have hfirst := s.numbered 0 first (by rw [hs]; rfl)
    simp only
    rw [← hs]
    constructor
    · intro h
      split_ifs at h with hindex
      have hx := s.numbered _ x h
      exact ⟨mem_of_getElem? h,by omega⟩
    · rintro ⟨hmem,hmsn⟩
      obtain ⟨i,hi⟩ := getElem?_of_mem hmem
      have hx := s.numbered i x hi
      have hlt := (List.getElem?_eq_some_iff.mp hi).1
      have hindex : msn-first.msn = i := by omega
      rw [hindex, if_pos (by omega)]
      exact hi

theorem eq_of_msn_eq {y : Segment} (hx : x ∈ s.segments) (hy : y ∈ s.segments)
    (h : x.msn = y.msn) : x = y := by
  have hfx := (find_eq_some_iff s x.msn x).mpr ⟨hx,rfl⟩
  have hfy := (find_eq_some_iff s x.msn y).mpr ⟨hy,by rw [h]⟩
  exact Option.some.inj (hfx.symm.trans hfy)

theorem msn_lt_nextMsn (hx : x ∈ s.segments) : x.msn < s.nextMsn := by
  obtain ⟨i,hi⟩ := getElem?_of_mem hx
  have hnum := s.numbered i x hi
  have hlt := (List.getElem?_eq_some_iff.mp hi).1
  omega

theorem segmentBytes_eq_some_iff (msn : ℤ) (data : Bytes) :
    s.segmentBytes msn = some data ↔
      ∃ x ∈ s.segments, (x.msn : ℤ) = msn ∧ x.complete = true ∧ x.data = some data := by
  unfold LiveStream.segmentBytes
  constructor
  · intro h
    cases hfind : s.find msn with
    | none =>
      rw [hfind] at h
      cases h
    | some x =>
      rw [hfind] at h
      simp only at h
      split_ifs at h with hcomplete
      obtain ⟨hmem,hmsn⟩ := (find_eq_some_iff s msn x).mp hfind
      exact ⟨x,hmem,hmsn,hcomplete,h⟩
  · rintro ⟨x,hmem,hmsn,hcomplete,hdata⟩
    rw [(find_eq_some_iff s msn x).mpr ⟨hmem,hmsn⟩]
    simp [hcomplete, hdata]

theorem mem_openSegment {now : ℤ} (hx : x ∈ (s.openSegment now).segments) :
    x ∈ s.segments ∨ x = Segment.new s.nextMsn now := by
  have hmem := mem_of_mem_drop hx
  rwa [mem_append, mem_singleton] at hmem

theorem mem_modifyLast (hf : ∀ x, (f x).msn = x.msn)
    (hx : x ∈ (s.modifyLast f hf).segments) :
    x ∈ s.segments ∨ ∃ y, s.segments.getLast? = some y ∧ x = f y := by
  obtain ⟨i,hi⟩ := getElem?_of_mem hx
  rw [LiveStream.modifyLast, getElem?_modify] at hi
  obtain ⟨y,hy,rfl⟩ := Option.map_eq_some_iff.mp hi
  split_ifs with hlast
  · refine Or.inr ⟨y,?_,rfl⟩
    rw [getLast?_eq_getElem?, hlast]
    exact hy
  · exact Or.inl (mem_of_getElem? hy)

/-- A segment after a push was there with its number and bytes, or is new and not complete. -/
theorem mem_pushPart {part : Part} {startSegment : Bool} {now : ℤ}
    (hx : x ∈ (s.pushPart part startSegment now).segments) :
    (∃ y ∈ s.segments, y.msn = x.msn ∧ y.complete = x.complete ∧ y.data = x.data) ∨
      (x.msn = s.nextMsn ∧ x.complete = false) := by
  -- the part goes to a segment that was there, or to the one just opened
  have hopened (y : Segment)
      (hy : y ∈ (if startSegment || s.segments.isEmpty then s.openSegment now else s).segments) :
      y ∈ s.segments ∨ y = Segment.new s.nextMsn now := by
    split_ifs at hy
    · exact mem_openSegment s hy
    · exact Or.inl hy
  rcases mem_modifyLast _ (Segment.addPart part) (fun _ => rfl) hx with hx | ⟨y,hy,rfl⟩
  · rcases hopened x hx with hx | rfl
    · exact Or.inl ⟨x,hx,rfl,rfl,rfl⟩
    · exact Or.inr ⟨rfl,rfl⟩
  · rcases hopened y (mem_of_getLast? hy) with hy | rfl
    · exact Or.inl ⟨y,hy,rfl,rfl,rfl⟩
    · exact Or.inr ⟨rfl,rfl⟩

theorem key_pushPart (part : Part) (startSegment : Bool) (now : ℤ) :
    (s.pushPart part startSegment now).key = s.key := by
  simp only [LiveStream.pushPart, LiveStream.wake, LiveStream.modifyLast]
  split_ifs
  · rfl
  · rfl

theorem nextMsn_le_pushPart (part : Part) (startSegment : Bool) (now : ℤ) :
    s.nextMsn ≤ (s.pushPart part startSegment now).nextMsn := by
  simp only [LiveStream.pushPart, LiveStream.wake, LiveStream.modifyLast]
  split_ifs
  · exact Nat.le_succ _
  · exact Nat.le_refl _

def LiveStream.Holds (msn : ℤ) (data : Bytes) : Prop :=
  msn < s.nextMsn ∧ ∀ x ∈ s.segments, (x.msn : ℤ) = msn → x.complete = true ∧ x.data = some data

theorem holds_of_segmentBytes (h : s.segmentBytes msn = some data) :
    s.Holds msn data := by
  obtain ⟨x,hx,hmsn,hcomplete,hdata⟩ := (segmentBytes_eq_some_iff s msn data).mp h
  have hlt := msn_lt_nextMsn s hx
  refine ⟨by omega,?_⟩
  intro y hy hymsn
  rw [eq_of_msn_eq s hy hx (by omega)]
  exact ⟨hcomplete,hdata⟩

theorem segmentBytes_of_holds {data' : Bytes} (h : s.Holds msn data)
    (h' : s.segmentBytes msn = some data') : data' = data := by
  obtain ⟨x,hx,hmsn,_,hdata⟩ := (segmentBytes_eq_some_iff s msn data').mp h'
  exact Option.some.inj (hdata.symm.trans (h.2 x hx hmsn).2)

theorem holds_pushPart (h : s.Holds msn data) (part : Part)
    (startSegment : Bool) (now : ℤ) : (s.pushPart part startSegment now).Holds msn data := by
  have hnext := nextMsn_le_pushPart s part startSegment now
  have hlt := h.1
  refine ⟨by omega,?_⟩
  intro x hx hmsn
  rcases mem_pushPart s hx with ⟨y,hy,hymsn,hyc,hyd⟩ | ⟨hnew,_⟩
  · rw [← hyc, ← hyd]
    exact h.2 y hy (by omega)
  · omega

theorem holds_finishSegment {bytes : Bytes} (h : s.Holds msn data)
    (hagain : ∀ x, s.segments.getLast? = some x → x.complete = true → x.data = some bytes) :
    (s.finishSegment bytes).Holds msn data := by
  refine ⟨h.1,?_⟩
  intro x hx hmsn
  rcases mem_modifyLast s _ _ hx with hx | ⟨y,hy,rfl⟩
  · exact h.2 x hx hmsn
  · obtain ⟨hcomplete,hdata⟩ := h.2 y (mem_of_getLast? hy) hmsn
    exact ⟨rfl,(hagain y hy hcomplete).symm.trans hdata⟩

end

end BackendGauntlet.LiveIngest
