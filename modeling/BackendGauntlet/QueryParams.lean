import BackendGauntlet.Dict
import BackendGauntlet.PyText

/-! `parse_query_params`: the tree of dotted names, and its maps of indices made lists. -/
namespace BackendGauntlet.CommonAws

open PyText List Option

inductive Doc
  | leaf (value : Text)
  | map (entries : List (Text × Doc))
  | list (items : List Doc)

/-- The digits that are not decimal: superscripts, circled digits and the like. -/
def otherDigits : List (ℕ × ℕ) :=
  [(0xB2,0xB3), (0xB9,0xB9), (0x1369,0x1371), (0x19DA,0x19DA), (0x2070,0x2070), (0x2074,0x2079),
   (0x2080,0x2089), (0x2460,0x2468), (0x2474,0x247C), (0x2488,0x2490), (0x24EA,0x24EA),
   (0x24F5,0x24FD), (0x24FF,0x24FF), (0x2776,0x277E), (0x2780,0x2788), (0x278A,0x2792),
   (0x10A40,0x10A43), (0x10E60,0x10E68), (0x11052,0x1105A), (0x1F100,0x1F10A)]

def isdigit (s : Text) : Bool :=
  !s.isEmpty && s.all (fun c => digitZeros.any (fun z => z ≤ c.toNat && c.toNat < z+10) ||
    otherDigits.any (fun r => r.1 ≤ c.toNat && c.toNat ≤ r.2))

def listInfix : Text := "member".toList

def segments (key : Text) : List Text :=
  (splitChar '.' key).filter (fun s => s ≠ [] && s ≠ listInfix)

def existingMap : Option Doc → List (Text × Doc)
  | some (.map sub) => sub
  | _ => []

/-- The walk of the cursor down to the last segment; what is no map on the way is replaced. -/
def insertAt : List Text → Text → List (Text × Doc) → List (Text × Doc)
  | [], _, node => node
  | [last], value, node => Dict.setList last (.leaf value) node
  | segment :: next :: rest, value, node =>
    Dict.setList segment
      (.map (insertAt (next :: rest) value (existingMap (Dict.getList segment node)))) node

def indexOf (key : Text) : ℤ := (parseInt key).getD 0

def isIndexed (node : List (Text × Doc)) : Bool := node ≠ [] && node.all (fun e => isdigit e.1)

def isConvertible (node : List (Text × Doc)) : Bool := node.all (fun e => (parseInt e.1).isSome)

inductive QueryError
  | valueError
  | recursionError
deriving DecidableEq

mutual
/-- `_collapse_value` with so many frames below the recursion limit. -/
def collapseValue : ℕ → Doc → Except QueryError Doc
  | 0, _ => .error .recursionError
  | _+1, .leaf value => .ok (.leaf value)
  | _+1, .list items => .ok (.list items)
  -- the call of `cast`
  | 1, .map _ => .error .recursionError
  | frames+2, .map node =>
    if isIndexed node then
      -- `sorted(node, key=int)` comes before any of the values
      if isConvertible node then
        ((node.insertionSort (fun a b => indexOf a.1 ≤ indexOf b.1)).mapM
          (fun e => collapseValue (frames+1) e.2)).map .list
      else .error .valueError
    else (collapseIndices (frames+1) node).map .map

def collapseIndices : ℕ → List (Text × Doc) → Except QueryError (List (Text × Doc))
  | 0, _ => .error .recursionError
  | frames+1, node => node.mapM (fun e => (collapseValue frames e.2).map (fun d => (e.1,d)))
end

def insertParam (tree : List (Text × Doc)) (pair : Text × Text) : List (Text × Doc) :=
  insertAt (segments pair.1) pair.2 tree

def paramTree (pairs : List (Text × Text)) : List (Text × Doc) := pairs.foldl insertParam []

def parseQueryParams (frames : ℕ) (pairs : List (Text × Text)) :
    Except QueryError (List (Text × Doc)) :=
  collapseIndices frames (paramTree pairs)

mutual
def Doc.maps : Doc → List (List (Text × Doc))
  | .leaf _ => []
  | .list _ => []
  | .map node => node :: mapsBelow node

def mapsBelow : List (Text × Doc) → List (List (Text × Doc))
  | [] => []
  | e :: node => e.2.maps ++ mapsBelow node
end

mutual
/-- The frames that the second pass takes: one for each value on the way down to a leaf, and one
more for each map that does not become a list. -/
def Doc.frames : Doc → ℕ
  | .leaf _ => 1
  | .list _ => 1
  | .map node => if isIndexed node then 1+framesBelow node else 2+framesBelow node

def framesBelow : List (Text × Doc) → ℕ
  | [] => 0
  | e :: node => max e.2.frames (framesBelow node)
end

inductive Doc.LeavesIn (Q : Text → Prop) : Doc → Prop
  | leaf (value : Text) (h : Q value) : LeavesIn Q (.leaf value)
  | map (node : List (Text × Doc)) (h : ∀ e ∈ node, LeavesIn Q e.2) : LeavesIn Q (.map node)
  | list (items : List Doc) (h : ∀ d ∈ items, LeavesIn Q d) : LeavesIn Q (.list items)

section
variable {node : List (Text × Doc)}

theorem mem_mapsBelow {sub : List (Text × Doc)} :
    sub ∈ mapsBelow node ↔ ∃ e ∈ node, sub ∈ e.2.maps := by
  induction node with
  | nil => simp [mapsBelow]
  | cons e node ih => simp [mapsBelow, ih]

theorem framesBelow_le_iff {n : ℕ} : framesBelow node ≤ n ↔ ∀ e ∈ node, e.2.frames ≤ n := by
  induction node with
  | nil => simp [framesBelow]
  | cons e node ih => simp [framesBelow, ih]

theorem Doc.frames_pos (d : Doc) : 0 < d.frames := by
  cases d with
  | leaf value => simp [Doc.frames]
  | list items => simp [Doc.frames]
  | map node =>
    rw [Doc.frames]
    split_ifs <;> omega

theorem framesBelow_pos (h : isIndexed node = true) : 0 < framesBelow node := by
  cases node with
  | nil => simp [isIndexed] at h
  | cons e node =>
    rw [framesBelow]
    exact Nat.lt_of_lt_of_le e.2.frames_pos (Nat.le_max_left _ _)

end

theorem mapM_ok_iff {α β ε : Type} {g : α → Except ε β} {as : List α} :
    (∃ bs, as.mapM g = .ok bs) ↔ ∀ a ∈ as, ∃ b, g a = .ok b := by
  induction as with
  | nil => simp [pure, Except.pure]
  | cons a as ih =>
    rw [forall_mem_cons, ← ih, mapM_cons]
    cases hg : g a with
    | error e => simp [bind, Except.bind]
    | ok b => cases hgs : as.mapM g <;> simp [bind, Except.bind, pure, Except.pure]

theorem map_ok_iff {α β ε : Type} {f : α → β} {x : Except ε α} :
    (∃ b, x.map f = .ok b) ↔ ∃ a, x = .ok a := by
  cases x <;> simp [Except.map]

/-- Every map of these whose keys are all digits is one of which `int` accepts the keys. -/
def Convertible (maps : List (List (Text × Doc))) : Prop :=
  ∀ node ∈ maps, isIndexed node = true → isConvertible node = true

theorem convertible_below_iff {node : List (Text × Doc)} :
    Convertible (mapsBelow node) ↔ ∀ e ∈ node, Convertible e.2.maps := by
  simp only [Convertible, mem_mapsBelow]
  constructor
  · exact fun h e he sub hs => h sub ⟨e,he,hs⟩
  · rintro h sub ⟨e,he,hs⟩
    exact h e he sub hs

theorem collapseIndices_ok_iff_of_forall {frames : ℕ} {node : List (Text × Doc)}
    (h : ∀ d, (∃ d', collapseValue frames d = .ok d') ↔ Convertible d.maps ∧ d.frames ≤ frames) :
    (∃ out, collapseIndices (frames+1) node = .ok out) ↔
      Convertible (mapsBelow node) ∧ 1+framesBelow node ≤ frames+1 := by
  simp only [collapseIndices, mapM_ok_iff, map_ok_iff, h, forall_and, ← convertible_below_iff,
    Nat.add_comm 1, Nat.add_le_add_iff_right, framesBelow_le_iff]

/-- The second pass of a value returns exactly if `int` accepts the keys of each map of digits in it
and it is not too deep. -/
theorem collapseValue_ok_iff (frames : ℕ) (d : Doc) :
    (∃ d', collapseValue frames d = .ok d') ↔ Convertible d.maps ∧ d.frames ≤ frames := by
  -- a map needs the pass of its values with one frame less, or with two
  induction frames using Nat.strongRecOn generalizing d with
  | ind frames ih =>
    match frames, d with
    | 0, d =>
      have hpos := d.frames_pos
      simp only [collapseValue, reduceCtorEq, exists_false, false_iff]
      omega
    | _+1, .leaf value => simp [collapseValue, Convertible, Doc.maps, Doc.frames]
    | _+1, .list items => simp [collapseValue, Convertible, Doc.maps, Doc.frames]
    | 1, .map node =>
      simp only [collapseValue, reduceCtorEq, exists_false, false_iff, Doc.frames]
      split_ifs with hi
      · have hpos := framesBelow_pos hi
        omega
      · omega
    | frames+2, .map node =>
      have hmaps : Convertible (Doc.map node).maps ↔
          (isIndexed node = true → isConvertible node = true) ∧ Convertible (mapsBelow node) := by
        simp [Convertible, Doc.maps]
      rw [hmaps, collapseValue, Doc.frames]
      by_cases hi : isIndexed node = true
      · by_cases hc : isConvertible node = true
        · have hsorted : (∀ e ∈ node.insertionSort (fun a b => indexOf a.1 ≤ indexOf b.1),
              Convertible e.2.maps ∧ e.2.frames ≤ frames+1) ↔
              Convertible (mapsBelow node) ∧ 1+framesBelow node ≤ frames+2 := by
            simp only [mem_insertionSort, forall_and, ← convertible_below_iff,
              ← framesBelow_le_iff]
            exact and_congr_right (fun _ => by omega)
          simp only [hi, hc, if_true, map_ok_iff, mapM_ok_iff, ih (frames+1) (by omega), hsorted,
            true_and, forall_const]
        · simp [hi, hc]
      · rw [if_neg hi, if_neg hi, map_ok_iff,
          collapseIndices_ok_iff_of_forall (ih frames (by omega))]
        simp only [hi, Bool.false_eq_true, false_implies, true_and]
        exact and_congr_right (fun _ => by omega)

theorem collapseIndices_ok_iff (frames : ℕ) (node : List (Text × Doc)) :
    (∃ out, collapseIndices frames node = .ok out) ↔
      Convertible (mapsBelow node) ∧ 1+framesBelow node ≤ frames := by
  cases frames with
  | zero => simp [collapseIndices]
  | succ frames => exact collapseIndices_ok_iff_of_forall (collapseValue_ok_iff frames)

section
variable {Q : Text → Prop}

theorem leavesIn_insertAt {path : List Text} {value : Text} {node : List (Text × Doc)}
    (hvalue : Q value) (h : ∀ e ∈ node, Doc.LeavesIn Q e.2) :
    ∀ e ∈ insertAt path value node, Doc.LeavesIn Q e.2 := by
  induction path generalizing node with
  | nil => exact h
  | cons segment path ih =>
    -- One entry of the node is set, to a leaf or to a map that the walk goes on in.
    have hset (d : Doc) (hd : Doc.LeavesIn Q d) :
        ∀ e ∈ Dict.setList segment d node, Doc.LeavesIn Q e.2 := by
      intro e he
      rcases Dict.mem_setList he with rfl | he
      · exact hd
      · exact h e he
    cases path with
    | nil => exact hset _ (.leaf value hvalue)
    | cons next rest =>
      refine hset _ (.map _ (ih ?_))
      cases hg : Dict.getList segment node with
      | none => simp [existingMap]
      | some d =>
        cases h (segment,d) (Dict.mem_of_getList hg) with
        | map sub hsub => exact hsub
        | leaf value => simp [existingMap]
        | list items => simp [existingMap]

theorem leavesIn_foldl {pairs : List (Text × Text)} {tree : List (Text × Doc)}
    (hpairs : ∀ pair ∈ pairs, Q pair.2) (h : ∀ e ∈ tree, Doc.LeavesIn Q e.2) :
    ∀ e ∈ pairs.foldl insertParam tree, Doc.LeavesIn Q e.2 := by
  induction pairs generalizing tree with
  | nil => exact h
  | cons pair pairs ih =>
    rw [forall_mem_cons] at hpairs
    exact ih hpairs.2 (leavesIn_insertAt hpairs.1 h)

theorem forall_mem_of_mapM {α β ε : Type} {R : α → Prop} {S : β → Prop} {g : α → Except ε β}
    (hg : ∀ a b, R a → g a = .ok b → S b) {as : List α} {bs : List β} (h : ∀ a ∈ as, R a)
    (hm : as.mapM g = .ok bs) : ∀ b ∈ bs, S b := by
  induction as generalizing bs with
  | nil =>
    cases hm
    simp
  | cons a as ih =>
    rw [forall_mem_cons] at h
    rw [mapM_cons] at hm
    cases hb : g a with
    | error e => simp [hb, bind, Except.bind] at hm
    | ok b =>
      cases hbs : as.mapM g with
      | error e => simp [hb, hbs, bind, Except.bind] at hm
      | ok bs' =>
        simp only [hb, hbs, bind, Except.bind, pure, Except.pure, Except.ok.injEq] at hm
        subst hm
        exact forall_mem_cons.mpr ⟨hg a b h.1 hb,ih h.2 hbs⟩

theorem exists_of_map_ok {α β ε : Type} {f : α → β} {x : Except ε α} {b : β}
    (h : x.map f = .ok b) : ∃ a, x = .ok a ∧ f a = b := by
  cases x with
  | error e => cases h
  | ok a => exact ⟨a,rfl,Except.ok.inj h⟩

theorem leavesIn_collapseIndices_of_forall {frames : ℕ} {node out : List (Text × Doc)}
    (hv : ∀ d d', Doc.LeavesIn Q d → collapseValue frames d = .ok d' → Doc.LeavesIn Q d')
    (h : ∀ e ∈ node, Doc.LeavesIn Q e.2) (ho : collapseIndices (frames+1) node = .ok out) :
    ∀ e ∈ out, Doc.LeavesIn Q e.2 := by
  rw [collapseIndices] at ho
  refine forall_mem_of_mapM (fun e e' he hm => ?_) h ho
  obtain ⟨d,hd,rfl⟩ := exists_of_map_ok hm
  exact hv e.2 d he hd

theorem leavesIn_collapseValue {frames : ℕ} {d d' : Doc} (h : Doc.LeavesIn Q d)
    (hd : collapseValue frames d = .ok d') : Doc.LeavesIn Q d' := by
  induction frames using Nat.strongRecOn generalizing d d' with
  | ind frames ih =>
    match frames, d with
    | 0, d => simp [collapseValue] at hd
    | _+1, .leaf value =>
      rw [collapseValue] at hd
      exact Except.ok.inj hd ▸ h
    | _+1, .list items =>
      rw [collapseValue] at hd
      exact Except.ok.inj hd ▸ h
    | 1, .map node => simp [collapseValue] at hd
    | frames+2, .map node =>
      have hnode : ∀ e ∈ node, Doc.LeavesIn Q e.2 := by
        cases h with
        | map _ hnode => exact hnode
      rw [collapseValue] at hd
      split_ifs at hd
      · obtain ⟨items,hi,rfl⟩ := exists_of_map_ok hd
        have hsorted : ∀ e ∈ node.insertionSort (fun a b => indexOf a.1 ≤ indexOf b.1),
            Doc.LeavesIn Q e.2 := fun e he => hnode e ((mem_insertionSort _).mp he)
        exact .list items (forall_mem_of_mapM (fun e d he hd => ih (frames+1) (by omega) he hd)
          hsorted hi)
      · obtain ⟨out,ho,rfl⟩ := exists_of_map_ok hd
        exact .map out (leavesIn_collapseIndices_of_forall
          (fun d d' hd => ih frames (by omega) hd) hnode ho)

end

/-- The parse raises nothing, and its leaves are among the values, exactly if `int` accepts the keys
of each map below the top that has only digits for keys, and the recursion limit leaves frames
enough for the depth of the tree. -/
theorem query_params_parse_iff (frames : ℕ) (pairs : List (Text × Text)) :
    (∃ out, parseQueryParams frames pairs = .ok out ∧
      Doc.LeavesIn (fun v => v ∈ pairs.map Prod.snd) (.map out)) ↔
    (∀ node ∈ mapsBelow (paramTree pairs), isIndexed node = true →
      ∀ e ∈ node, (parseInt e.1).isSome = true) ∧ 1+framesBelow (paramTree pairs) ≤ frames := by
  have hleaves : ∀ e ∈ paramTree pairs, Doc.LeavesIn (fun v => v ∈ pairs.map Prod.snd) e.2 :=
    leavesIn_foldl (fun pair hp => mem_map_of_mem hp) (by simp)
  have hok := collapseIndices_ok_iff frames (paramTree pairs)
  simp only [Convertible, isConvertible, List.all_eq_true] at hok
  rw [← hok]
  constructor
  · rintro ⟨out,ho,-⟩
    exact ⟨out,ho⟩
  · rintro ⟨out,ho⟩
    refine ⟨out,ho,.map out ?_⟩
    cases frames with
    | zero => simp [collapseIndices] at ho
    | succ frames =>
      exact leavesIn_collapseIndices_of_forall (fun _ _ => leavesIn_collapseValue) hleaves ho

/-- `"²".isdigit()` holds, but `int("²")` raises, however many frames there are; and a name of many
segments is too deep. -/
theorem superscript_index_raises :
    isdigit "²".toList = true ∧
    (∀ n, parseQueryParams (n+3) [("Tags.²".toList,"x".toList)] = .error .valueError) ∧
    parseQueryParams 7 [("a.b.c.d".toList,"x".toList)] = .error .recursionError := by
  have htree : paramTree [("Tags.²".toList,"x".toList)] =
      [("Tags".toList,.map [(['²'],.leaf "x".toList)])] := by rfl
  have hdeep : paramTree [("a.b.c.d".toList,"x".toList)] =
      [(['a'],.map [(['b'],.map [(['c'],.map [(['d'],.leaf "x".toList)])])])] := by rfl
  have hletters : isdigit ['b'] = false ∧ isdigit ['c'] = false ∧ isdigit ['d'] = false := by
    decide +kernel
  have hdigit : isdigit ['²'] = true ∧ parseInt ['²'] = none := by decide +kernel
  refine ⟨hdigit.1,fun n => ?_,?_⟩
  · rw [parseQueryParams, htree]
    simp [collapseIndices, collapseValue, isIndexed, isConvertible, hdigit, bind, Except.bind,
      Except.map]
  · rw [parseQueryParams, hdeep]
    simp [collapseIndices, collapseValue, isIndexed, hletters, bind, Except.bind, Except.map]

end BackendGauntlet.CommonAws
