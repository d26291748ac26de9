import BackendGauntlet.Dict
import BackendGauntlet.PyText

/-! A tree of directories and files. Path texts are joined as `pathlib` does it. -/
namespace BackendGauntlet.Posix

open PyText List Option

abbrev Place := List Text

inductive Node
  | dir
  | file (content : List ℕ)
deriving DecidableEq

abbrev Tree := Dict Place Node

def dotdot : Text := ['.', '.']

/-- Empty and `.` components vanish when a path is parsed; `..` stays. -/
def components (s : Text) : List Text :=
  (splitChar '/' s).filter (fun c => c ≠ [] ∧ c ≠ ['.'])

/-- `base / s`: an absolute `s` replaces the base. -/
def join (base : List Text) (s : Text) : List Text :=
  if s.head? = some '/' then components s else base ++ components s

def walk (t : Tree) : Place → List Text → Option Place
  | p, [] => if t.contains p then some p else none
  | p, c :: cs =>
    if t.get p ≠ some .dir then none
    else if c = dotdot then walk t p.dropLast cs
    else walk t (p ++ [c]) cs

def locate (t : Tree) (path : List Text) : Option Place := walk t [] path

def locateDir (t : Tree) (path : List Text) : Option Place :=
  (locate t path).filter (fun p => t.get p = some .dir)

def lexical : Place → List Text → Place
  | p, [] => p
  | p, c :: cs => if c = dotdot then lexical p.dropLast cs else lexical (p ++ [c]) cs

inductive Access
  | read (p : Place)
  | create (p : Place)
  | delete (p : Place)
deriving DecidableEq

def Access.place : Access → Place
  | .read p => p
  | .create p => p
  | .delete p => p

def readFile (t : Tree) (path : List Text) : Option (Place × List ℕ) :=
  match locate t path with
  | none => none
  | some p =>
    match t.get p with
    | some (.file content) => some (p,content)
    | _ => none

/-- Whether `rmdir` on the path itself can succeed: not on the root, not on `..`. -/
def removable (path : List Text) : Bool :=
  match path.getLast? with
  | none => false
  | some c => c != dotdot

def rmtree (t : Tree) (path : List Text) : Tree × List Access :=
  match locateDir t path with
  | none => (t,[])
  | some p =>
    let gone := fun q : Place => decide (p <+: q) && (q != p || removable path)
    (t.filter (fun q _ => !gone q),.read p :: (t.keys.filter gone).map Access.delete)

variable {t : Tree} {path : List Text} {p : Place}

theorem walk_eq_lexical (p q : Place) (cs : List Text) (h : walk t p cs = some q) :
    q = lexical p cs := by
  induction cs generalizing p with
  | nil =>
    unfold walk at h
    split_ifs at h
    exact (some.inj h).symm
  | cons c cs ih =>
    unfold walk at h
    unfold lexical
    split_ifs at h with hd hc
    · rw [if_pos hc]
      exact ih _ h
    · rw [if_neg hc]
      exact ih _ h

/-- Without symbolic links the kernel resolves a path as its text says. -/
theorem locate_eq_lexical (h : locate t path = some p) :
    p = lexical [] path :=
  walk_eq_lexical [] p path h

theorem locateDir_eq_lexical
    (h : locateDir t path = some p) : p = lexical [] path :=
  locate_eq_lexical (filter_eq_some_iff.mp h).1

theorem lexical_snoc (p : Place) (cs : List Text) {name : Text} (hn : name ≠ dotdot) :
    lexical p (cs ++ [name]) = lexical p cs ++ [name] := by
  induction cs generalizing p with
  | nil => simp [lexical, hn]
  | cons c cs ih =>
    simp only [cons_append, lexical]
    split_ifs
    · exact ih _
    · exact ih _

theorem locate_snoc (t : Tree) (path : List Text) (name : Text) (hn : name ≠ dotdot) :
    locate t (path ++ [name]) = (locateDir t path).bind (fun p =>
      if t.contains (p ++ [name]) then some (p ++ [name]) else none) := by
  suffices h : ∀ p, walk t p (path ++ [name]) =
      ((walk t p path).filter (fun q => t.get q = some .dir)).bind (fun q =>
        if t.contains (q ++ [name]) then some (q ++ [name]) else none) from h []
  induction path with
  | nil =>
    intro p
    by_cases hd : t.get p = some .dir
    · simp [walk, hd, hn, Dict.contains, filter_some]
    · simp only [nil_append, walk, ne_eq, hd, not_false_eq_true, if_true]
      split_ifs with hp
      · simp [hd, filter_some]
      · rfl
  | cons c path ih =>
    intro p
    simp only [cons_append, walk]
    split_ifs with hd hc
    · rfl
    · exact ih _
    · exact ih _

theorem readFile_eq_some_iff (t : Tree) (p : Place) (content : List ℕ) :
    readFile t path = some (p,content) ↔
      locate t path = some p ∧ t.get p = some (.file content) := by
  unfold readFile
  cases locate t path with
  | none => simp
  | some q =>
    simp only [some.injEq]
    split
    · rename_i bytes hget
      simp only [some.injEq, Prod.mk.injEq]
      constructor
      · rintro ⟨rfl,rfl⟩
        exact ⟨rfl,hget⟩
      · rintro ⟨rfl,hfile⟩
        exact ⟨rfl,Node.file.inj (some.inj (hget.symm.trans hfile))⟩
    · rename_i hnofile
      constructor
      · intro h
        cases h
      · rintro ⟨rfl,hfile⟩
        exact absurd hfile (hnofile content)

theorem readFile_place {name : Text} (hn : name ≠ dotdot)
    {content : List ℕ} (h : readFile t (path ++ [name]) = some (p,content)) :
    lexical [] path <+: p := by
  have hp := locate_eq_lexical ((readFile_eq_some_iff t p content).mp h).1
  rw [hp, lexical_snoc _ _ hn]
  exact prefix_append _ _

/-- Removing a tree touches nothing outside it. -/
theorem rmtree_log {a : Access} (ha : a ∈ (rmtree t path).2) :
    lexical [] path <+: a.place := by
  unfold rmtree at ha
  cases hl : locateDir t path with
  | none =>
    rw [hl] at ha
    cases ha
  | some p =>
    have hp := locateDir_eq_lexical hl
    rw [hl] at ha
    simp only [mem_cons, List.mem_map, mem_filter, Bool.and_eq_true, decide_eq_true_eq] at ha
    rcases ha with rfl | ⟨q,⟨_,hq,_⟩,rfl⟩
    · exact hp ▸ prefix_refl _
    · exact hp ▸ hq

theorem rmtree_reads (h : locateDir t path = some p) :
    Access.read p ∈ (rmtree t path).2 := by
  simp [rmtree, h]

end BackendGauntlet.Posix
