import Mathlib.Data.Int.Notation
import Mathlib.Data.Nat.Notation
import Mathlib.Tactic.SplitIfs

/-! The log of a Raft node: the entries behind a snapshot, by their distance from it. -/
namespace BackendGauntlet.RaftKv

open List

variable {κ : Type}

structure LogEntry (κ : Type) where
  term : ℤ
  index : ℤ
  command : κ

structure RaftLog (κ : Type) where
  entries : List (LogEntry κ)
  snapshotLastIndex : ℤ
  snapshotLastTerm : ℤ

/-- Where a subscript or the end of a slice points; a slice is cut at the ends of the list. -/
def pyPos (xs : List (LogEntry κ)) (pos : ℤ) : ℕ :=
  (if pos < 0 then pos+xs.length else pos).toNat

inductive LogOp (κ : Type)
  | append (entries : List (LogEntry κ))
  | truncateFrom (start : ℤ)
  | compactTo (lastIndex lastTerm : ℤ)
  | resetToSnapshot (lastIndex lastTerm : ℤ)

namespace RaftLog

def lastIndex (l : RaftLog κ) : ℤ :=
  match l.entries.getLast? with
  | some e => e.index
  | none => l.snapshotLastIndex

def lastTerm (l : RaftLog κ) : ℤ :=
  match l.entries.getLast? with
  | some e => e.term
  | none => l.snapshotLastTerm

def get (l : RaftLog κ) (index : ℤ) : Option (LogEntry κ) :=
  let pos := index-l.snapshotLastIndex-1
  if pos < 0 ∨ l.entries.length ≤ pos then none else l.entries[pyPos l.entries pos]?

def termAt (l : RaftLog κ) (index : ℤ) : Option ℤ :=
  if index = l.snapshotLastIndex ∧ index ≠ 0 then some l.snapshotLastTerm
  else (l.get index).map LogEntry.term

def entriesFrom (l : RaftLog κ) (start : ℤ) : List (LogEntry κ) :=
  let clamped := max start (l.snapshotLastIndex+1)
  l.entries.drop (pyPos l.entries (clamped-l.snapshotLastIndex-1))

def snapshotPoint (l : RaftLog κ) : ℤ × ℤ := (l.snapshotLastIndex,l.snapshotLastTerm)

def apply (l : RaftLog κ) : LogOp κ → RaftLog κ
  | .append entries => { l with entries := l.entries ++ entries }
  | .truncateFrom start =>
    let pos := start-l.snapshotLastIndex-1
    if pos ≤ 0 then { l with entries := [] }
    else { l with entries := l.entries.take (pyPos l.entries pos) }
  | .compactTo lastIndex lastTerm =>
    let pos := lastIndex-l.snapshotLastIndex
    ⟨if 0 < pos then l.entries.drop (pyPos l.entries pos) else l.entries,lastIndex,lastTerm⟩
  | .resetToSnapshot lastIndex lastTerm => ⟨[],lastIndex,lastTerm⟩

end RaftLog

def Contiguous (base : ℤ) (es : List (LogEntry κ)) : Prop :=
  ∀ (k : ℕ) e, es[k]? = some e → e.index = base+1+k

structure CompactedLog (κ : Type) where
  base : ℤ
  baseTerm : ℤ
  entries : List (LogEntry κ)

namespace CompactedLog

def last (a : CompactedLog κ) : ℤ := a.base+a.entries.length

def entry (a : CompactedLog κ) (i : ℤ) : Option (LogEntry κ) :=
  if i ≤ a.base then none else a.entries[(i-a.base-1).toNat]?

def term (a : CompactedLog κ) (i : ℤ) : Option ℤ :=
  if i = a.base then some a.baseTerm else (a.entry i).map LogEntry.term

def since (a : CompactedLog κ) (i : ℤ) : List (LogEntry κ) :=
  a.entries.drop (i-a.base-1).toNat

/-- Entries are appended in order, and a log is compacted at an index whose term it knows. -/
def Allows (a : CompactedLog κ) : LogOp κ → Prop
  | .append entries => Contiguous a.last entries
  | .truncateFrom _ => True
  | .compactTo lastIndex lastTerm => a.term lastIndex = some lastTerm
  | .resetToSnapshot lastIndex _ => 0 ≤ lastIndex

def apply (a : CompactedLog κ) : LogOp κ → CompactedLog κ
  | .append entries => { a with entries := a.entries ++ entries }
  | .truncateFrom start => { a with entries := a.entries.take (start-a.base-1).toNat }
  | .compactTo lastIndex lastTerm => ⟨lastIndex,lastTerm,a.since (lastIndex+1)⟩
  | .resetToSnapshot lastIndex lastTerm => ⟨lastIndex,lastTerm,[]⟩

def AllowsAll : CompactedLog κ → List (LogOp κ) → Prop
  | _, [] => True
  | a, op :: ops => a.Allows op ∧ (a.apply op).AllowsAll ops

end CompactedLog

/-- Every observation agrees. At index 0 there is no entry, and a snapshot there has no term. -/
structure Refines (l : RaftLog κ) (a : CompactedLog κ) : Prop where
  contiguous : Contiguous a.base a.entries
  lastIndex : l.lastIndex = a.last
  lastTerm : some l.lastTerm = a.term a.last
  snapshotPoint : l.snapshotPoint = (a.base,a.baseTerm)
  len : l.entries.length = a.entries.length
  get : ∀ i, l.get i = a.entry i
  termAt : ∀ i, l.termAt i = if i = 0 ∧ a.base = 0 then none else a.term i
  entriesFrom : ∀ i, l.entriesFrom i = a.since i

theorem contiguous_append {b : ℤ} {es xs : List (LogEntry κ)} (h : Contiguous b es)
    (hxs : Contiguous (b+es.length) xs) : Contiguous b (es ++ xs) := by
  intro k e he
  rw [getElem?_append] at he
  split_ifs at he with hk
  · exact h k e he
  · have := hxs _ e he
    omega

/-- The code and the abstract log do the same to a contiguous log, and it stays contiguous. -/
theorem apply_refines {a : CompactedLog κ} (h : Contiguous a.base a.entries) {op : LogOp κ}
    (hop : a.Allows op) :
    RaftLog.apply ⟨a.entries,a.base,a.baseTerm⟩ op =
        ⟨(a.apply op).entries,(a.apply op).base,(a.apply op).baseTerm⟩ ∧
      Contiguous (a.apply op).base (a.apply op).entries := by
  cases op with
  | append entries => exact ⟨rfl,contiguous_append h hop⟩
  | truncateFrom start =>
    refine ⟨?_,?_⟩
    · simp only [RaftLog.apply, CompactedLog.apply, pyPos]
      split_ifs with hpos hneg
      · rw [Int.toNat_of_nonpos hpos, take_zero]
      · omega
      · rfl
    · intro k e he
      rw [CompactedLog.apply, getElem?_take] at he
      split_ifs at he
      exact h k e he
  | compactTo i t =>
    -- an index whose term is known is not below the base
    have hbase : a.base ≤ i := by
      simp only [CompactedLog.Allows, CompactedLog.term, CompactedLog.entry] at hop
      split_ifs at hop
      · omega
      · cases hop
      · omega
    have hpos : i+1-a.base-1 = i-a.base := by omega
    refine ⟨?_,?_⟩
    · simp only [RaftLog.apply, CompactedLog.apply, CompactedLog.since, pyPos, hpos]
      split_ifs
      · omega
      · rfl
      · rw [Int.toNat_of_nonpos (by omega), drop_zero]
    · intro k e he
      simp only [CompactedLog.apply, CompactedLog.since, hpos, getElem?_drop] at he ⊢
      have := h _ e he
      omega
  | resetToSnapshot i t => exact ⟨rfl,fun k e he => by cases he⟩

/-- The observations of a contiguous log, whatever its history. -/
theorem refines_of_contiguous {a : CompactedLog κ} (h : Contiguous a.base a.entries) :
    Refines ⟨a.entries,a.base,a.baseTerm⟩ a := by
  have hget (i : ℤ) : RaftLog.get ⟨a.entries,a.base,a.baseTerm⟩ i = a.entry i := by
    simp only [RaftLog.get, CompactedLog.entry, pyPos]
    by_cases hi : i ≤ a.base
    · rw [if_pos (by omega), if_pos hi]
    · rw [if_neg hi, if_neg (show ¬ i-a.base-1 < 0 by omega)]
      split_ifs with hlen
      · rw [getElem?_eq_none (by omega)]
      · rfl
  have hlast : a.entries = [] ∨ a.entries.getLast? = a.entry a.last ∧ a.last ≠ a.base := by
    cases hes : a.entries with
    | nil => exact .inl rfl
    | cons e es =>
      right
      have hlen : a.last = a.base+es.length+1 := by
        rw [CompactedLog.last, hes, length_cons]
        omega
      rw [CompactedLog.entry, if_neg (by omega), hes, getLast?_eq_getElem?, length_cons,
        show (a.last-a.base-1).toNat = es.length by omega]
      exact ⟨rfl,by omega⟩
  refine ⟨h,?_,?_,rfl,rfl,hget,?_,?_⟩
  · cases hl : a.entries.getLast? with
    | none => simp [RaftLog.lastIndex, CompactedLog.last, getLast?_eq_none_iff.mp hl]
    | some e =>
      have hindex := h _ e (getLast?_eq_getElem?.symm.trans hl)
      have hlen : 0 < a.entries.length := length_pos_of_mem (mem_of_getLast? hl)
      simp only [RaftLog.lastIndex, CompactedLog.last, hl]
      omega
  · rcases hlast with hes | ⟨hes,hne⟩
    · simp [RaftLog.lastTerm, CompactedLog.last, CompactedLog.term, hes]
    · rw [CompactedLog.term, if_neg hne, ← hes, RaftLog.lastTerm]
      cases hl : a.entries.getLast? with
      | none => simp [CompactedLog.last, getLast?_eq_none_iff.mp hl] at hne
      | some e => rfl
  · intro i
    simp only [RaftLog.termAt, CompactedLog.term, hget]
    by_cases hb : i = a.base
    · by_cases h0 : i = 0
      · simp [CompactedLog.entry, ← hb, h0]
      · simp [hb, hb ▸ h0]
    · have hne : ¬ (i = 0 ∧ a.base = 0) := by omega
      simp [hb, hne]
  · intro i
    simp only [RaftLog.entriesFrom, CompactedLog.since, pyPos]
    rw [if_neg (by omega)]
    congr 1
    omega

/-- Whatever sequence of allowed operations an empty log has seen, it is the abstract log of the
same operations. -/
theorem log_refines_compacted (ops : List (LogOp κ))
    (h : CompactedLog.AllowsAll ⟨0,0,[]⟩ ops) :
    Refines (ops.foldl RaftLog.apply ⟨[],0,0⟩) (ops.foldl CompactedLog.apply ⟨0,0,[]⟩) := by
  suffices hrun : ∀ (ops : List (LogOp κ)) (a : CompactedLog κ), Contiguous a.base a.entries →
      a.AllowsAll ops → Refines (ops.foldl RaftLog.apply ⟨a.entries,a.base,a.baseTerm⟩)
        (ops.foldl CompactedLog.apply a) from hrun ops ⟨0,0,[]⟩ (fun k e he => by cases he) h
  intro ops
  induction ops with
  | nil => exact fun a ha _ => refines_of_contiguous ha
  | cons op ops ih =>
    intro a ha hall
    obtain ⟨heq,hstep⟩ := apply_refines ha hall.1
    rw [foldl_cons, foldl_cons, heq]
    exact ih _ hstep hall.2

/-- Two entries, a snapshot of the first, and a truncation that reaches below it. -/
theorem log_refines_two_entries :
    Refines ([LogOp.append [⟨1,1,'a'⟩,⟨1,2,'b'⟩],.compactTo 1 1,.truncateFrom (-1)].foldl
      RaftLog.apply ⟨[],0,0⟩) ⟨1,1,[]⟩ :=
  log_refines_compacted [LogOp.append [⟨1,1,'a'⟩,⟨1,2,'b'⟩],.compactTo 1 1,.truncateFrom (-1)]
    ⟨by rintro (_ | _ | k) e ⟨⟩ <;> rfl,rfl,trivial,trivial⟩

end BackendGauntlet.RaftKv
