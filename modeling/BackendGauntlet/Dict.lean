import Mathlib.Data.List.Nodup

/-! Insertion-ordered dictionaries with distinct keys, kept as a list of entries. -/
namespace BackendGauntlet

@[ext]
structure Dict (κ β : Type*) where
  entries : List (κ × β)
  nodup : (entries.map Prod.fst).Nodup
deriving DecidableEq

namespace Dict

variable {κ β : Type*}

def empty : Dict κ β := ⟨[],List.nodup_nil⟩

def isEmpty (m : Dict κ β) : Bool := m.entries.isEmpty

def keys (m : Dict κ β) : List κ := m.entries.map Prod.fst

def filter (p : κ → β → Bool) (m : Dict κ β) : Dict κ β :=
  ⟨m.entries.filter (fun e => p e.1 e.2),
    m.nodup.sublist (List.filter_sublist.map Prod.fst)⟩

def mapValues (f : κ → β → β) (m : Dict κ β) : Dict κ β :=
  ⟨m.entries.map (fun e => (e.1,f e.1 e.2)),by
    simpa only [List.map_map, Function.comp_def] using m.nodup⟩

theorem keys_filterMap_sublist {γ : Type*} (f : κ → β → Option γ) (es : List (κ × β)) :
    List.Sublist ((es.filterMap (fun e => (f e.1 e.2).map (fun v => (e.1,v)))).map Prod.fst)
      (es.map Prod.fst) := by
  induction es with
  | nil => exact List.Sublist.refl _
  | cons e es ih =>
    cases hf : f e.1 e.2 with
    | none =>
      rw [List.filterMap_cons_none (by rw [hf]; rfl)]
      exact ih.cons e.1
    | some v =>
      rw [List.filterMap_cons_some (by rw [hf]; rfl)]
      exact ih.cons_cons e.1

def filterMap {γ : Type*} (f : κ → β → Option γ) (m : Dict κ β) : Dict κ γ :=
  ⟨m.entries.filterMap (fun e => (f e.1 e.2).map (fun v => (e.1,v))),
    m.nodup.sublist (keys_filterMap_sublist f m.entries)⟩

theorem countP_le_one (m : Dict κ β) (p : κ × β → Bool)
    (h : ∀ e ∈ m.entries, ∀ e' ∈ m.entries, p e = true → p e' = true → e.1 = e'.1) :
    m.entries.countP p ≤ 1 := by
  have hn : ((m.entries.filter p).map Prod.fst).Nodup :=
    m.nodup.sublist (List.filter_sublist.map Prod.fst)
  rw [List.countP_eq_length_filter]
  match hl : m.entries.filter p with
  | [] => exact Nat.zero_le 1
  | [_] => exact Nat.le_refl 1
  | e :: e' :: es =>
    have he : e ∈ m.entries.filter p := hl ▸ List.mem_cons_self
    have he' : e' ∈ m.entries.filter p := hl ▸ List.mem_cons_of_mem _ List.mem_cons_self
    rw [List.mem_filter] at he he'
    rw [hl, List.map_cons, List.map_cons] at hn
    have heq := h e he.1 e' he'.1 he.2 he'.2
    exact absurd (heq ▸ List.mem_cons_self) (List.nodup_cons.mp hn).1

variable [DecidableEq κ]

def getList (k : κ) : List (κ × β) → Option β
  | [] => none
  | e :: es => if e.1 = k then some e.2 else getList k es

def setList (k : κ) (v : β) : List (κ × β) → List (κ × β)
  | [] => [(k,v)]
  | e :: es => if e.1 = k then (k,v) :: es else e :: setList k v es

theorem mem_setList_keys (k x : κ) (v : β) (es : List (κ × β)) :
    x ∈ (setList k v es).map Prod.fst ↔ x = k ∨ x ∈ es.map Prod.fst := by
  induction es with
  | nil => simp [setList]
  | cons e es ih =>
    by_cases he : e.1 = k
    · simp [setList, he]
    · simp only [setList, he, if_false, List.map_cons, List.mem_cons, ih]
      tauto

variable {es : List (κ × β)} {m : Dict κ β}

theorem setList_nodup (k : κ) (v : β) (hn : (es.map Prod.fst).Nodup) :
    ((setList k v es).map Prod.fst).Nodup := by
  induction es with
  | nil => simp [setList]
  | cons e es ih =>
    obtain ⟨hne,hn⟩ := List.nodup_cons.mp hn
    by_cases he : e.1 = k
    · simp only [setList, he, if_true, List.map_cons, List.nodup_cons]
      exact ⟨he ▸ hne,hn⟩
    · simp only [setList, he, if_false, List.map_cons, List.nodup_cons]
      refine ⟨?_,ih hn⟩
      intro hm
      rcases (mem_setList_keys k e.1 v es).mp hm with hk | hk
      · exact he hk
      · exact hne hk

def get (m : Dict κ β) (k : κ) : Option β := getList k m.entries

def set (m : Dict κ β) (k : κ) (v : β) : Dict κ β :=
  ⟨setList k v m.entries,setList_nodup k v m.nodup⟩

def erase (m : Dict κ β) (k : κ) : Dict κ β := m.filter (fun x _ => x ≠ k)

def modify (m : Dict κ β) (k : κ) (f : β → β) : Dict κ β :=
  match m.get k with
  | none => m
  | some v => m.set k (f v)

def contains (m : Dict κ β) (k : κ) : Bool := (m.get k).isSome

theorem mem_of_getList {k : κ} {v : β} (h : getList k es = some v) : (k,v) ∈ es := by
  induction es with
  | nil => cases h
  | cons e es ih =>
    by_cases he : e.1 = k
    · simp only [getList, he, if_true, Option.some.injEq] at h
      rw [← he, ← h]
      exact List.mem_cons_self
    · simp only [getList, he, if_false] at h
      exact List.mem_cons_of_mem e (ih h)

theorem mem_setList {k : κ} {v : β} {x : κ × β} (h : x ∈ setList k v es) : x = (k,v) ∨ x ∈ es := by
  induction es with
  | nil => exact Or.inl (List.mem_singleton.mp h)
  | cons e es ih =>
    by_cases he : e.1 = k
    · simp only [setList, he, if_true, List.mem_cons] at h
      exact h.imp_right (List.mem_cons_of_mem e)
    · simp only [setList, he, if_false, List.mem_cons] at h
      rcases h with rfl | h
      · exact Or.inr List.mem_cons_self
      · exact (ih h).imp_right (List.mem_cons_of_mem e)

theorem getList_eq_some_iff (k : κ) (v : β)
    (hn : (es.map Prod.fst).Nodup) : getList k es = some v ↔ (k,v) ∈ es := by
  induction es with
  | nil => simp [getList]
  | cons e es ih =>
    obtain ⟨hne,hn⟩ := List.nodup_cons.mp hn
    by_cases he : e.1 = k
    · have hk : (k,v) ∉ es := fun hm => hne (he ▸ List.mem_map_of_mem (f := Prod.fst) hm)
      simp only [getList, he, if_true, Option.some.injEq, List.mem_cons, hk, or_false]
      constructor
      · intro hv
        exact Prod.ext he.symm hv.symm
      · intro hv
        exact (congrArg Prod.snd hv).symm
    · simp only [getList, he, if_false, ih hn, List.mem_cons]
      constructor
      · exact Or.inr
      · rintro (hv | hv)
        · exact False.elim (he (congrArg Prod.fst hv).symm)
        · exact hv

/-- Keys are distinct, so looking a key up is finding its entry. -/
theorem get_eq_some_iff {k : κ} {v : β} :
    m.get k = some v ↔ (k,v) ∈ m.entries :=
  getList_eq_some_iff k v m.nodup

theorem getList_eq_none_iff (k : κ) (es : List (κ × β)) :
    getList k es = none ↔ ∀ v, (k,v) ∉ es := by
  induction es with
  | nil => simp [getList]
  | cons e es ih =>
    by_cases he : e.1 = k
    · simp only [getList, he, if_true, reduceCtorEq, false_iff, not_forall, not_not]
      exact ⟨e.2,List.mem_cons.mpr (Or.inl (Prod.ext he.symm rfl))⟩
    · simp only [getList, he, if_false, ih, List.mem_cons, not_or]
      constructor
      · intro h v
        exact ⟨fun hv => he (congrArg Prod.fst hv).symm,h v⟩
      · intro h v
        exact (h v).2

theorem get_eq_none_iff {k : κ} : m.get k = none ↔ ∀ v, (k,v) ∉ m.entries :=
  getList_eq_none_iff k m.entries

@[simp] theorem get_empty (k : κ) : (empty : Dict κ β).get k = none := rfl

theorem isEmpty_iff (m : Dict κ β) : m.isEmpty = true ↔ ∀ k, m.get k = none := by
  simp only [isEmpty, List.isEmpty_iff, get_eq_none_iff]
  constructor
  · intro h
    simp [h]
  · intro h
    apply List.eq_nil_iff_forall_not_mem.mpr
    intro e
    exact h e.1 e.2

theorem getList_setList (k x : κ) (v : β) (es : List (κ × β)) :
    getList x (setList k v es) = if x = k then some v else getList x es := by
  induction es with
  | nil =>
    by_cases hx : x = k
    · simp [setList, getList, hx]
    · simp [setList, getList, hx, Ne.symm hx]
  | cons e es ih =>
    by_cases he : e.1 = k
    · by_cases hx : x = k
      · simp [setList, getList, he, hx]
      · simp [setList, getList, he, hx, Ne.symm hx]
    · simp only [setList, he, if_false, getList, ih]
      by_cases hx : x = k
      · simp [hx, he]
      · simp [hx]

/-- All that writing a key does. -/
theorem get_set (m : Dict κ β) (k x : κ) (v : β) :
    (m.set k v).get x = if x = k then some v else m.get x :=
  getList_setList k x v m.entries

@[simp] theorem get_set_self {k : κ} {v : β} : (m.set k v).get k = some v := by
  simp [get_set]

theorem get_set_ne {k x : κ} {v : β} (hx : x ≠ k) :
    (m.set k v).get x = m.get x := by
  simp [get_set, hx]

theorem get_filter (m : Dict κ β) (p : κ → β → Bool) (x : κ) :
    (m.filter p).get x = (m.get x).filter (p x) := by
  cases h : m.get x with
  | none =>
    have hx := get_eq_none_iff.mp h
    apply get_eq_none_iff.mpr
    intro v hv
    exact hx v (List.mem_filter.mp hv).1
  | some v =>
    have hv := get_eq_some_iff.mp h
    by_cases hp : p x v = true
    · rw [Option.filter_some_pos hp]
      exact get_eq_some_iff.mpr (List.mem_filter.mpr ⟨hv,hp⟩)
    · rw [Option.filter_some_neg (Bool.not_eq_true _ ▸ hp)]
      apply get_eq_none_iff.mpr
      intro w hw
      obtain ⟨hw,hpw⟩ := List.mem_filter.mp hw
      have hwv : w = v := Option.some.inj ((get_eq_some_iff.mpr hw).symm.trans h)
      exact hp (hwv ▸ hpw)

theorem get_erase (m : Dict κ β) (k x : κ) :
    (m.erase k).get x = if x = k then none else m.get x := by
  rw [erase, get_filter]
  by_cases hx : x = k
  · simp only [hx, ne_eq, not_true_eq_false, decide_false, if_true]
    cases m.get k <;> rfl
  · simp only [hx, ne_eq, not_false_eq_true, decide_true, if_false]
    cases m.get x <;> rfl

theorem get_erase_self {k : κ} : (m.erase k).get k = none := by
  rw [get_erase, if_pos rfl]

theorem get_erase_ne {k x : κ} (hx : x ≠ k) : (m.erase k).get x = m.get x := by
  rw [get_erase, if_neg hx]

theorem filter_ne_self {k : κ} (hk : ∀ v, (k,v) ∉ es) :
    es.filter (fun e => decide (e.1 ≠ k)) = es := by
  apply List.filter_eq_self.mpr
  intro e he
  have hne : e.1 ≠ k := fun hek => hk e.2 (hek ▸ he)
  simp [hne]

theorem erase_eq_self {k : κ} (h : m.get k = none) : m.erase k = m := by
  have hk := get_eq_none_iff.mp h
  obtain ⟨es,hn⟩ := m
  simp only [erase, filter, filter_ne_self hk]

theorem get_modify (m : Dict κ β) (k x : κ) (f : β → β) :
    (m.modify k f).get x = if x = k then (m.get x).map f else m.get x := by
  unfold modify
  cases h : m.get k with
  | none =>
    by_cases hx : x = k
    · simp [hx, h]
    · simp [hx]
  | some v =>
    by_cases hx : x = k
    · simp [hx, h]
    · simp [hx, get_set_ne]

theorem get_mapValues (m : Dict κ β) (f : κ → β → β) (x : κ) :
    (m.mapValues f).get x = (m.get x).map (f x) := by
  have hl (es : List (κ × β)) :
      getList x (es.map (fun e => (e.1,f e.1 e.2))) = (getList x es).map (f x) := by
    induction es with
    | nil => rfl
    | cons e es ih =>
      by_cases he : e.1 = x
      · simp [getList, he]
      · simp [getList, he, ih]
  exact hl m.entries

theorem get_filterMap {γ : Type*} (f : κ → β → Option γ) (m : Dict κ β) (x : κ) :
    (m.filterMap f).get x = (m.get x).bind (f x) := by
  apply Option.ext
  intro v
  rw [get_eq_some_iff, Option.bind_eq_some_iff]
  simp only [filterMap, List.mem_filterMap, Option.map_eq_some_iff, Prod.mk.injEq, Prod.exists,
    get_eq_some_iff]
  constructor
  · rintro ⟨k,b,hmem,v',hv,rfl,rfl⟩
    exact ⟨b,hmem,hv⟩
  · rintro ⟨b,hmem,hv⟩
    exact ⟨x,b,hmem,v,hv,rfl,rfl⟩

theorem setList_new {k : κ} (v : β) (hk : k ∉ es.map Prod.fst) :
    setList k v es = es ++ [(k,v)] := by
  induction es with
  | nil => rfl
  | cons e es ih =>
    simp only [List.map_cons, List.mem_cons, not_or] at hk
    simp [setList, Ne.symm hk.1, ih hk.2]

theorem erase_set_new (m : Dict κ β) (k : κ) (v : β) (h : m.get k = none) :
    (m.set k v).erase k = m := by
  have hk := get_eq_none_iff.mp h
  have hset : (m.set k v).entries = m.entries ++ [(k,v)] := by
    apply setList_new
    intro hmem
    obtain ⟨e,he,rfl⟩ := List.mem_map.mp hmem
    exact hk e.2 he
  apply Dict.ext
  change (m.set k v).entries.filter (fun e => decide (e.1 ≠ k)) = m.entries
  rw [hset, List.filter_append, filter_ne_self hk]
  simp

/-- Writing the entries in their order rebuilds the dictionary. -/
theorem foldl_set_entries (m : Dict κ β) :
    m.entries.foldl (fun d e => d.set e.1 e.2) empty = m := by
  have hfold (es : List (κ × β)) (d : Dict κ β) (hn : ((d.entries ++ es).map Prod.fst).Nodup) :
      (es.foldl (fun d e => d.set e.1 e.2) d).entries = d.entries ++ es := by
    induction es generalizing d with
    | nil => simp
    | cons e es ih =>
      have hnew : e.1 ∉ d.entries.map Prod.fst := by
        rw [List.map_append, List.map_cons] at hn
        exact fun hm => (List.nodup_append.mp hn).2.2 _ hm _ List.mem_cons_self rfl
      have hset : (d.set e.1 e.2).entries = d.entries ++ [e] := setList_new e.2 hnew
      rw [List.foldl_cons, ih _ (by rw [hset]; simpa using hn), hset]
      simp
  have he := hfold m.entries empty (by simpa [empty] using m.nodup)
  exact Dict.ext (by simpa [empty] using he)

theorem contains_iff {k : κ} : m.contains k = true ↔ ∃ v, m.get k = some v := by
  rw [contains, Option.isSome_iff_exists]

theorem get_of_not_contains {k : κ} (h : ¬ m.contains k = true) : m.get k = none := by
  simpa [contains] using h

theorem mem_keys {k : κ} : k ∈ m.keys ↔ ∃ v, m.get k = some v := by
  simp only [keys, List.mem_map, get_eq_some_iff, Prod.exists]
  constructor
  · rintro ⟨x,v,hm,rfl⟩
    exact ⟨v,hm⟩
  · rintro ⟨v,hm⟩
    exact ⟨k,v,hm,rfl⟩

theorem get_foldl_erase (ks : List κ) (m : Dict κ β) (x : κ) :
    (ks.foldl (fun m k => m.erase k) m).get x = if x ∈ ks then none else m.get x := by
  induction ks generalizing m with
  | nil => simp
  | cons k ks ih =>
    rw [List.foldl_cons, ih, get_erase]
    by_cases hx : x = k
    · simp [hx]
    · simp [hx]

theorem get_foldl_set_const (ks : List κ) (v : β) (m : Dict κ β) (x : κ) :
    (ks.foldl (fun m k => m.set k v) m).get x = if x ∈ ks then some v else m.get x := by
  induction ks generalizing m with
  | nil => simp
  | cons k ks ih =>
    rw [List.foldl_cons, ih, get_set]
    by_cases hx : x = k
    · simp [hx]
    · simp [hx]

theorem forall_get_set_ne {k : κ} (v : β) (P : κ → β → Prop)
    (hm : ∀ x w, x ≠ k → m.get x = some w → P x w) (hv : P k v) :
    ∀ x w, (m.set k v).get x = some w → P x w := by
  intro x w h
  rw [get_set] at h
  split_ifs at h with hx
  · exact hx ▸ Option.some.inj h ▸ hv
  · exact hm x w hx h

/-- To keep a property of all entries, write one that has it. -/
theorem forall_get_set {k : κ} {v : β} {P : κ → β → Prop}
    (hm : ∀ x w, m.get x = some w → P x w) (hv : P k v) :
    ∀ x w, (m.set k v).get x = some w → P x w :=
  forall_get_set_ne v P (fun x w _ => hm x w) hv

/-- An entry after a write is the new one or an old one of another key. -/
theorem eq_or_get_of_get_set {k x : κ} {v w : β} (h : (m.set k v).get x = some w) :
    (x = k ∧ w = v) ∨ (x ≠ k ∧ m.get x = some w) := by
  by_cases hx : x = k
  · rw [hx, get_set_self] at h
    exact Or.inl ⟨hx,(Option.some.inj h).symm⟩
  · rw [get_set_ne hx] at h
    exact Or.inr ⟨hx,h⟩

theorem get_of_get_erase {k x : κ} {w : β} (h : (m.erase k).get x = some w) :
    m.get x = some w := by
  rw [get_erase] at h
  split_ifs at h
  exact h

end Dict

end BackendGauntlet
