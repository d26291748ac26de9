import Mathlib.Data.List.Dedup
import BackendGauntlet.Dict
import BackendGauntlet.KeysetPaging
import BackendGauntlet.ObjectStoreObjects

/-! `Index.list`: a page with rolled-up prefixes, and the walk along its tokens. -/
namespace BackendGauntlet.ObjectStore

open PyText List Option

/-- The common prefix a key is rolled up into, if any. An empty delimiter is none. -/
def rollup (keyPrefix : Text) (delimiter : Option Text) (key : Text) : Option Text :=
  match delimiter with
  | none => none
  | some d =>
    if d = [] then none
    else (findText d (key.drop keyPrefix.length)).map (fun position =>
      keyPrefix ++ (key.drop keyPrefix.length).take (position+d.length))

inductive ListItem
  | object (key : Key) (row : ObjectMeta)
  | folder (name : Text)

def ListItem.name : ListItem → Text
  | .object key _ => key.text
  | .folder name => name

def ListItem.asObject : ListItem → Option (Key × ObjectMeta)
  | .object key row => some (key,row)
  | .folder _ => none

def ListItem.asFolder : ListItem → Option Text
  | .object _ _ => none
  | .folder name => some name

structure Listing where
  objects : List (Key × ObjectMeta)
  commonPrefixes : List Text
  nextContinuationToken : Option Text
deriving DecidableEq

def listed (keyPrefix : Text) (key : Key) (row : ObjectMeta) : Bool :=
  keyPrefix.isPrefixOf key.text && row.latestLive.isSome

def listItems (rows : Dict Key ObjectMeta) (keyPrefix : Text) (delimiter : Option Text) :
    List ListItem :=
  let objects := rows.entries.filter (fun e => listed keyPrefix e.1 e.2)
  let leaves := objects.filter (fun e => (rollup keyPrefix delimiter e.1.text).isNone)
  let commonPrefixes := (objects.filterMap (fun e => rollup keyPrefix delimiter e.1.text)).dedup
  (leaves.map (fun e => ListItem.object e.1 e.2) ++
    commonPrefixes.map ListItem.folder).insertionSort
    (fun a b => leText a.name b.name = true)

def sliceTo {α : Type*} (n : ℤ) (items : List α) : List α :=
  if 0 ≤ n then items.take n.toNat else items.take (items.length-n.natAbs)

def listPage (rows : Dict Key ObjectMeta) (keyPrefix : Text) (delimiter continuation : Option Text)
    (maxKeys : ℤ) : Listing :=
  let items :=
    match continuation with
    | none => listItems rows keyPrefix delimiter
    | some token => (listItems rows keyPrefix delimiter).filter (fun x => ltText token x.name)
  let next :=
    if maxKeys < items.length ∧ 0 < maxKeys then items[(maxKeys-1).toNat]?.map ListItem.name
    else none
  ⟨(sliceTo maxKeys items).filterMap ListItem.asObject,
    (sliceTo maxKeys items).filterMap ListItem.asFolder,next⟩

def Listing.names (l : Listing) : List Text :=
  (l.objects.map (fun e => e.1.text) ++ l.commonPrefixes).insertionSort
    (fun a b => leText a b = true)

inductive ListWalk (keyPrefix : Text) (delimiter : Option Text) (maxKeys : ℤ) :
    Option Text → List (Dict Key ObjectMeta × Listing) → Prop
  | last (continuation : Option Text) (rows : Dict Key ObjectMeta)
      (h : (listPage rows keyPrefix delimiter continuation maxKeys).nextContinuationToken = none) :
      ListWalk keyPrefix delimiter maxKeys continuation
        [(rows,listPage rows keyPrefix delimiter continuation maxKeys)]
  | next (continuation : Option Text) (rows : Dict Key ObjectMeta) (token : Text)
      (walk : List (Dict Key ObjectMeta × Listing))
      (h : (listPage rows keyPrefix delimiter continuation maxKeys).nextContinuationToken =
        some token)
      (hw : ListWalk keyPrefix delimiter maxKeys (some token) walk) :
      ListWalk keyPrefix delimiter maxKeys continuation
        ((rows,listPage rows keyPrefix delimiter continuation maxKeys) :: walk)

section
variable (rows : Dict Key ObjectMeta) (keyPrefix : Text) (delimiter : Option Text)

variable {keyPrefix delimiter}

theorem rollup_of_startsWith {key : Text} (other q : Text)
    (hroll : rollup keyPrefix delimiter key = some q) (hq : q <+: other) :
    rollup keyPrefix delimiter other = some q := by
  unfold rollup at hroll ⊢
  cases delimiter with
  | none => cases hroll
  | some d =>
    simp only at hroll ⊢
    split at hroll
    · cases hroll
    · rename_i hd
      rw [if_neg hd]
      obtain ⟨p,hp,rfl⟩ := map_eq_some_iff.mp hroll
      obtain ⟨t,rfl⟩ := hq
      obtain ⟨hfind,hlen⟩ := findText_take_append d (key.drop keyPrefix.length) t p hp
      have hrest : (keyPrefix ++ (key.drop keyPrefix.length).take (p+d.length) ++ t).drop
          keyPrefix.length = (key.drop keyPrefix.length).take (p+d.length) ++ t := by
        rw [append_assoc, drop_left]
      have htake : ((key.drop keyPrefix.length).take (p+d.length) ++ t).take (p+d.length) =
          (key.drop keyPrefix.length).take (p+d.length) := by
        rw [take_append_of_le_length (by rw [length_take]; omega), take_take, Nat.min_self]
      rw [hrest, hfind, map_some, htake]

theorem mem_listItems_object (key : Key) (row : ObjectMeta) :
    ListItem.object key row ∈ listItems rows keyPrefix delimiter ↔
      rows.get key = some row ∧ listed keyPrefix key row = true ∧
        rollup keyPrefix delimiter key.text = none := by
  simp only [listItems, mem_insertionSort, mem_append, List.mem_map, mem_filter,
    ListItem.object.injEq, reduceCtorEq, and_false, exists_false, or_false,
    isNone_iff_eq_none, Dict.get_eq_some_iff]
  constructor
  · intro h
    obtain ⟨e,⟨⟨he,hl⟩,hn⟩,rfl,rfl⟩ := h
    exact ⟨he,hl,hn⟩
  · intro h
    exact ⟨(key,row),⟨⟨h.1,h.2.1⟩,h.2.2⟩,rfl,rfl⟩

theorem mem_listItems_folder (q : Text) :
    ListItem.folder q ∈ listItems rows keyPrefix delimiter ↔
      ∃ key row, rows.get key = some row ∧ listed keyPrefix key row = true ∧
        rollup keyPrefix delimiter key.text = some q := by
  simp only [listItems, mem_insertionSort, mem_append, List.mem_map, mem_filter,
    ListItem.folder.injEq, reduceCtorEq, and_false, exists_false, false_or, mem_dedup,
    mem_filterMap, exists_eq_right, Dict.get_eq_some_iff]
  constructor
  · intro h
    obtain ⟨e,⟨he,hl⟩,hr⟩ := h
    exact ⟨e.1,e.2,he,hl,hr⟩
  · intro h
    obtain ⟨key,row,he,hl,hr⟩ := h
    exact ⟨(key,row),⟨he,hl⟩,hr⟩

theorem startsWith_of_listed {key : Key} {row : ObjectMeta} (h : listed keyPrefix key row = true) :
    keyPrefix <+: key.text := by
  unfold listed at h
  exact isPrefixOf_iff_prefix.mp (Bool.and_eq_true_iff.mp h).1

theorem key_text_injective (a b : Key) (h : a.text = b.text) : a = b := by
  cases a
  cases b
  simpa using h

variable (keyPrefix delimiter)

theorem listItems_nodup : ((listItems rows keyPrefix delimiter).map ListItem.name).Nodup := by
  have hperm : ((listItems rows keyPrefix delimiter).map ListItem.name).Perm
      ((((rows.entries.filter (fun e => listed keyPrefix e.1 e.2)).filter
        (fun e => (rollup keyPrefix delimiter e.1.text).isNone)).map (fun e => e.1.text)) ++
      ((rows.entries.filter (fun e => listed keyPrefix e.1 e.2)).filterMap
        (fun e => rollup keyPrefix delimiter e.1.text)).dedup) := by
    unfold listItems
    refine ((perm_insertionSort _ _).map ListItem.name).trans ?_
    rw [map_append, List.map_map, List.map_map]
    exact List.Perm.of_eq (by simp [Function.comp_def, ListItem.name])
  rw [hperm.nodup_iff]
  apply List.Nodup.append
  · have hkeys : (((rows.entries.filter (fun e => listed keyPrefix e.1 e.2)).filter
        (fun e => (rollup keyPrefix delimiter e.1.text).isNone)).map Prod.fst).Nodup :=
      rows.nodup.sublist ((filter_sublist.trans filter_sublist).map Prod.fst)
    have := hkeys.map (f := Key.text) key_text_injective
    rwa [List.map_map] at this
  · exact nodup_dedup _
  · intro a ha hb
    obtain ⟨e,he,rfl⟩ := List.mem_map.mp ha
    obtain ⟨_,hnone⟩ := mem_filter.mp he
    obtain ⟨f,_,hroll⟩ := mem_filterMap.mp (mem_dedup.mp hb)
    have := rollup_of_startsWith e.1.text e.1.text hroll (prefix_refl _)
    rw [this] at hnone
    cases hnone

/-- The listing is in the order of its names. -/
theorem listItems_sorted :
    KeysetPaging.Sorted ltText ListItem.name (listItems rows keyPrefix delimiter) := by
  have hle := pairwise_sortByName ListItem.name
    (((rows.entries.filter (fun e => listed keyPrefix e.1 e.2)).filter
      (fun e => (rollup keyPrefix delimiter e.1.text).isNone)).map
        (fun e => ListItem.object e.1 e.2) ++
    ((rows.entries.filter (fun e => listed keyPrefix e.1 e.2)).filterMap
      (fun e => rollup keyPrefix delimiter e.1.text)).dedup.map ListItem.folder)
  have hnodup := listItems_nodup rows keyPrefix delimiter
  unfold KeysetPaging.Sorted
  have hle' : ((listItems rows keyPrefix delimiter).map ListItem.name).Pairwise
      (fun a b => leText a b = true) := pairwise_map.mpr hle
  refine (hle'.and hnodup).imp ?_
  intro a b h
  exact ((leText_iff a b).mp h.1).resolve_right h.2

/-- The page is cut from the sorted items by the last name of the page before. -/
theorem listPage_eq (continuation : Option Text) {maxKeys : ℤ} (hmax : 1 ≤ maxKeys) :
    listPage rows keyPrefix delimiter continuation maxKeys =
      ⟨(KeysetPaging.page ltText ListItem.name maxKeys.toNat continuation
          (listItems rows keyPrefix delimiter)).filterMap ListItem.asObject,
        (KeysetPaging.page ltText ListItem.name maxKeys.toNat continuation
          (listItems rows keyPrefix delimiter)).filterMap ListItem.asFolder,
        KeysetPaging.token ltText ListItem.name maxKeys.toNat continuation
          (listItems rows keyPrefix delimiter)⟩ := by
  have hsub : (maxKeys-1).toNat = maxKeys.toNat-1 := by omega
  have hcond (len : ℕ) : (maxKeys < (len : ℤ) ∧ 0 < maxKeys) ↔ maxKeys.toNat < len := by omega
  have hnonneg : (0 : ℤ) ≤ maxKeys := by omega
  unfold listPage KeysetPaging.page KeysetPaging.token KeysetPaging.remaining sliceTo
  cases continuation <;> simp only [hsub, hcond, if_pos hnonneg]

end

theorem names_split {items : List ListItem} (hs : KeysetPaging.Sorted ltText ListItem.name items)
    {token : Option Text} :
    (Listing.mk (items.filterMap ListItem.asObject) (items.filterMap ListItem.asFolder)
      token).names = items.map ListItem.name := by
  have hperm (items : List ListItem) :
      ((items.filterMap ListItem.asObject).map (fun e => e.1.text) ++
        items.filterMap ListItem.asFolder).Perm (items.map ListItem.name) := by
    induction items with
    | nil => simp
    | cons x items ih =>
      cases x with
      | object key row =>
        simp only [filterMap_cons, ListItem.asObject, ListItem.asFolder, map_cons,
          ListItem.name, cons_append]
        exact List.Perm.cons _ ih
      | folder q =>
        simp only [filterMap_cons, ListItem.asObject, ListItem.asFolder, map_cons, ListItem.name]
        exact perm_middle.trans (List.Perm.cons q ih)
  unfold Listing.names
  have hsorted := pairwise_sortByName (fun a : Text => a)
    ((items.filterMap ListItem.asObject).map (fun e => e.1.text) ++
      items.filterMap ListItem.asFolder)
  have hle : (items.map ListItem.name).Pairwise (fun a b => leText a b = true) := by
    refine hs.imp ?_
    intro a b h
    exact (leText_iff a b).mpr (Or.inl h)
  apply List.Perm.eq_of_pairwise (fun a b _ _ => leText_antisymm) hsorted hle
  exact (perm_insertionSort _ _).trans (hperm items)

structure Splits (keyPrefix : Text) (delimiter : Option Text)
    (p : Dict Key ObjectMeta × Listing) (page : List ListItem) : Prop where
  objects : p.2.objects = page.filterMap ListItem.asObject
  commonPrefixes : p.2.commonPrefixes = page.filterMap ListItem.asFolder
  names : p.2.names = page.map ListItem.name
  sublist : page.Sublist (listItems p.1 keyPrefix delimiter)

variable {rows : Dict Key ObjectMeta}

section
variable (keyPrefix : Text) (delimiter : Option Text) (maxKeys : ℤ) (hmax : 1 ≤ maxKeys)

include hmax

theorem walk_of_listWalk {continuation : Option Text} {walk : List (Dict Key ObjectMeta × Listing)}
    (hw : ListWalk keyPrefix delimiter maxKeys continuation walk) :
    ∃ pages, KeysetPaging.Walk ltText ListItem.name maxKeys.toNat continuation
        (walk.map (fun p => listItems p.1 keyPrefix delimiter)) pages ∧
      List.Forall₂ (Splits keyPrefix delimiter) walk pages := by
  have hstep (continuation : Option Text) (rows : Dict Key ObjectMeta) : Splits keyPrefix delimiter
        (rows,listPage rows keyPrefix delimiter continuation maxKeys)
        (KeysetPaging.page ltText ListItem.name maxKeys.toNat continuation
          (listItems rows keyPrefix delimiter)) := by
    have hsub := KeysetPaging.page_sublist ltText ListItem.name maxKeys.toNat continuation
      (listItems rows keyPrefix delimiter)
    have hsorted := (listItems_sorted rows keyPrefix delimiter).sublist (hsub.map ListItem.name)
    rw [listPage_eq rows keyPrefix delimiter continuation hmax]
    exact ⟨rfl,rfl,names_split hsorted,hsub⟩
  have htoken (continuation : Option Text) (rows : Dict Key ObjectMeta) :=
    congrArg Listing.nextContinuationToken (listPage_eq rows keyPrefix delimiter continuation hmax)
  induction hw with
  | last continuation rows h =>
    refine ⟨_,KeysetPaging.Walk.last continuation _ ((htoken continuation rows).symm.trans h),?_⟩
    exact List.Forall₂.cons (hstep continuation rows) List.Forall₂.nil
  | next continuation rows token walk h _ ih =>
    obtain ⟨pages,hwalk,hsplit⟩ := ih
    refine ⟨_,KeysetPaging.Walk.next continuation _ token _ pages
      ((htoken continuation rows).symm.trans h) hwalk,?_⟩
    exact List.Forall₂.cons (hstep continuation rows) hsplit

theorem listWalk_of_walk {continuation : Option Text}
    {listings pages : List (List ListItem)}
    (hw : KeysetPaging.Walk ltText ListItem.name maxKeys.toNat continuation listings pages)
    (hsame : ∀ l ∈ listings, l = listItems rows keyPrefix delimiter) :
    ∃ walk, ListWalk keyPrefix delimiter maxKeys continuation walk ∧ ∀ p ∈ walk, p.1 = rows := by
  induction hw with
  | last continuation l h =>
    have heq := listPage_eq rows keyPrefix delimiter continuation hmax
    rw [hsame l mem_cons_self] at h
    refine ⟨_,ListWalk.last continuation rows (by rw [heq]; exact h),?_⟩
    intro p hp
    rw [mem_singleton.mp hp]
  | next continuation l token listings pages h _ ih =>
    have heq := listPage_eq rows keyPrefix delimiter continuation hmax
    rw [hsame l mem_cons_self] at h
    obtain ⟨walk,hwalk,hrows⟩ := ih (fun l hl => hsame l (mem_cons_of_mem _ hl))
    refine ⟨_,ListWalk.next continuation rows token walk (by rw [heq]; exact h) hwalk,?_⟩
    intro p hp
    rcases mem_cons.mp hp with rfl | hp
    · rfl
    · exact hrows p hp

end

theorem forall₂_mem_left {α β : Type*} {R : α → β → Prop} {xs : List α} {ys : List β}
    (h : List.Forall₂ R xs ys) (x : α) (hx : x ∈ xs) : ∃ y ∈ ys, R x y := by
  induction h with
  | nil => cases hx
  | cons hab _ ih =>
    rcases List.mem_cons.mp hx with rfl | hx
    · exact ⟨_,List.mem_cons_self,hab⟩
    · obtain ⟨y,hy,hxy⟩ := ih hx
      exact ⟨y,List.mem_cons_of_mem _ hy,hxy⟩

theorem forall₂_mem_right {α β : Type*} {R : α → β → Prop} {xs : List α} {ys : List β}
    (h : List.Forall₂ R xs ys) {y : β} (hy : y ∈ ys) : ∃ x ∈ xs, R x y :=
  forall₂_mem_left (R := fun b a => R a b) (List.Forall₂.flip h) y hy

theorem flatMap_pages {α β γ : Type*} (f : α → List γ) (g : β → Option γ) {walk : List α}
    {pages : List (List β)} (h : List.Forall₂ (fun p page => f p = page.filterMap g) walk pages) :
    walk.flatMap f = pages.flatten.filterMap g := by
  induction h with
  | nil => rfl
  | cons hp _ ih => rw [flatMap_cons, flatten_cons, filterMap_append, hp, ih]

theorem mem_asObject (items : List ListItem) (key : Key) (row : ObjectMeta) :
    (key,row) ∈ items.filterMap ListItem.asObject ↔ ListItem.object key row ∈ items := by
  rw [mem_filterMap]
  constructor
  · intro h
    obtain ⟨x,hx,heq⟩ := h
    cases x with
    | object k r =>
      cases heq
      exact hx
    | folder q => cases heq
  · intro h
    exact ⟨_,h,rfl⟩

theorem mem_asFolder (items : List ListItem) (q : Text) :
    q ∈ items.filterMap ListItem.asFolder ↔ ListItem.folder q ∈ items := by
  rw [mem_filterMap]
  constructor
  · intro h
    obtain ⟨x,hx,heq⟩ := h
    cases x with
    | object k r => cases heq
    | folder q' =>
      cases heq
      exact hx
  · intro h
    exact ⟨_,h,rfl⟩

theorem nodup_split {items : List ListItem} (h : (items.map ListItem.name).Nodup) :
    ((items.filterMap ListItem.asObject).map Prod.fst).Nodup ∧
      (items.filterMap ListItem.asFolder).Nodup := by
  induction items with
  | nil => simp
  | cons x items ih =>
    rw [map_cons, nodup_cons] at h
    obtain ⟨hx,hrest⟩ := h
    obtain ⟨ho,hf⟩ := ih hrest
    cases x with
    | object key row =>
      simp only [filterMap_cons, ListItem.asObject, ListItem.asFolder, map_cons, nodup_cons]
      refine ⟨⟨?_,ho⟩,hf⟩
      intro hm
      obtain ⟨e,he,hek⟩ := List.mem_map.mp hm
      apply hx
      have hmem := (mem_asObject items e.1 e.2).mp he
      exact List.mem_map.mpr ⟨_,hmem,congrArg Key.text hek⟩
    | folder q =>
      simp only [filterMap_cons, ListItem.asObject, ListItem.asFolder, nodup_cons]
      refine ⟨ho,?_,hf⟩
      intro hm
      apply hx
      exact List.mem_map.mpr ⟨_,(mem_asFolder items q).mp hm,rfl⟩

section
variable (keyPrefix : Text) (delimiter : Option Text)

theorem name_mem_listItems {key : Key} {row : ObjectMeta}
    (hrow : rows.get key = some row) (hl : listed keyPrefix key row = true) :
    (rollup keyPrefix delimiter key.text).getD key.text ∈
      (listItems rows keyPrefix delimiter).map ListItem.name := by
  cases hr : rollup keyPrefix delimiter key.text with
  | none =>
    have hmem := (mem_listItems_object rows key row).mpr ⟨hrow,hl,hr⟩
    exact List.mem_map.mpr ⟨_,hmem,rfl⟩
  | some q =>
    have hmem := (mem_listItems_folder rows q).mpr ⟨key,row,hrow,hl,hr⟩
    exact List.mem_map.mpr ⟨_,hmem,rfl⟩

def FromListing (x : ListItem) : Prop :=
  match x with
  | .object key _ => rollup keyPrefix delimiter key.text = none
  | .folder q => ∃ key : Key, keyPrefix <+: key.text ∧ rollup keyPrefix delimiter key.text = some q

variable {keyPrefix delimiter}

theorem fromListing {x : ListItem}
    (hx : x ∈ listItems rows keyPrefix delimiter) : FromListing keyPrefix delimiter x := by
  cases x with
  | object key row => exact ((mem_listItems_object rows key row).mp hx).2.2
  | folder q =>
    obtain ⟨key,row,_,hl,hr⟩ := (mem_listItems_folder rows q).mp hx
    exact ⟨key,startsWith_of_listed hl,hr⟩

theorem flatMap_splits {walk : List (Dict Key ObjectMeta × Listing)} {pages : List (List ListItem)}
    (h : List.Forall₂ (Splits keyPrefix delimiter) walk pages) :
    walk.flatMap (fun p => p.2.objects) = pages.flatten.filterMap ListItem.asObject ∧
      walk.flatMap (fun p => p.2.commonPrefixes) = pages.flatten.filterMap ListItem.asFolder ∧
      walk.flatMap (fun p => p.2.names) = pages.flatten.map ListItem.name := by
  refine ⟨flatMap_pages _ _ (h.imp (fun _ _ hp => hp.objects)),
    flatMap_pages _ _ (h.imp (fun _ _ hp => hp.commonPrefixes)),?_⟩
  have hnames := flatMap_pages (fun p : Dict Key ObjectMeta × Listing => p.2.names)
    (fun x => some (ListItem.name x))
    (h.imp (fun _ _ hp => by rw [hp.names, filterMap_eq_map']))
  rwa [filterMap_eq_map'] at hnames

theorem splits_present {p : Dict Key ObjectMeta × Listing} {page : List ListItem}
    (h : Splits keyPrefix delimiter p page) :
    (∀ o ∈ p.2.objects, p.1.get o.1 = some o.2 ∧ listed keyPrefix o.1 o.2 = true ∧
      rollup keyPrefix delimiter o.1.text = none) ∧
    (∀ q ∈ p.2.commonPrefixes, ∃ key row, p.1.get key = some row ∧
      listed keyPrefix key row = true ∧ rollup keyPrefix delimiter key.text = some q) := by
  constructor
  · intro o ho
    rw [h.objects] at ho
    have hmem := h.sublist.subset ((mem_asObject page o.1 o.2).mp ho)
    exact (mem_listItems_object p.1 o.1 o.2).mp hmem
  · intro q hq
    rw [h.commonPrefixes] at hq
    have hmem := h.sublist.subset ((mem_asFolder page q).mp hq)
    exact (mem_listItems_folder p.1 q).mp hmem

variable (items : List ListItem) (hfrom : ∀ x ∈ items, FromListing keyPrefix delimiter x)
  (key : Key)
include hfrom

theorem rollup_of_folder {q : Text} (hq : ListItem.folder q ∈ items) (hqk : q <+: key.text) :
    rollup keyPrefix delimiter key.text = some q := by
  obtain ⟨k,_,hr⟩ := hfrom _ hq
  exact rollup_of_startsWith key.text q hr hqk

theorem leaf_of_name (hnone : rollup keyPrefix delimiter key.text = none)
    (hname : key.text ∈ items.map ListItem.name) :
    key ∈ (items.filterMap ListItem.asObject).map Prod.fst := by
  obtain ⟨x,hx,hxname⟩ := List.mem_map.mp hname
  cases x with
  | object k row =>
    have hk : k = key := key_text_injective k key hxname
    subst hk
    exact List.mem_map.mpr ⟨_,(mem_asObject _ k row).mpr hx,rfl⟩
  | folder q =>
    have hq : q = key.text := hxname
    have hsome := rollup_of_folder items hfrom key hx (hq ▸ prefix_refl _)
    cases hnone.symm.trans hsome

section
variable (q : Text) (hq : rollup keyPrefix delimiter key.text = some q)
include hq

theorem folder_of_name (hname : q ∈ items.map ListItem.name) :
    q ∈ items.filterMap ListItem.asFolder := by
  obtain ⟨x,hx,hxname⟩ := List.mem_map.mp hname
  cases x with
  | object k row =>
    have hk : k.text = q := hxname
    have hsome := rollup_of_startsWith k.text q hq (hk ▸ prefix_refl _)
    have hnone : rollup keyPrefix delimiter k.text = none := hfrom _ hx
    cases hnone.symm.trans hsome
  | folder q' =>
    have hqq : q' = q := hxname
    subst hqq
    exact (mem_asFolder _ q').mpr hx

theorem not_leaf_of_rollup : key ∉ (items.filterMap ListItem.asObject).map Prod.fst := by
  intro hm
  obtain ⟨e,he,hek⟩ := List.mem_map.mp hm
  have hnone : rollup keyPrefix delimiter e.1.text = none :=
    hfrom _ ((mem_asObject _ e.1 e.2).mp he)
  rw [hek, hq] at hnone
  cases hnone

end

end

/-- Over a whole walk the names increase and a key listed at every page is represented exactly once,
whatever is written in between. Without writes the pages are the uncut page. -/
theorem pagination_exactly_once (keyPrefix : Text) (delimiter : Option Text) (maxKeys : ℤ)
    (hmax : 1 ≤ maxKeys) :
    (∀ walk, ListWalk keyPrefix delimiter maxKeys none walk →
      (walk.flatMap (fun p => p.2.names)).Pairwise (fun a b => ltText a b = true) ∧
      (∀ p ∈ walk,
        (∀ o ∈ p.2.objects, p.1.get o.1 = some o.2 ∧ listed keyPrefix o.1 o.2 = true ∧
          rollup keyPrefix delimiter o.1.text = none) ∧
        (∀ q ∈ p.2.commonPrefixes, ∃ key row, p.1.get key = some row ∧
          listed keyPrefix key row = true ∧ rollup keyPrefix delimiter key.text = some q)) ∧
      (∀ key : Key,
        (∀ p ∈ walk, ∃ row, p.1.get key = some row ∧ listed keyPrefix key row = true) →
        (rollup keyPrefix delimiter key.text = none →
          (walk.flatMap (fun p => p.2.objects.map Prod.fst)).count key = 1) ∧
        (∀ q, rollup keyPrefix delimiter key.text = some q →
          (walk.flatMap (fun p => p.2.commonPrefixes)).count q = 1 ∧
          key ∉ walk.flatMap (fun p => p.2.objects.map Prod.fst)) ∧
        (∀ q ∈ walk.flatMap (fun p => p.2.commonPrefixes), q <+: key.text →
          rollup keyPrefix delimiter key.text = some q))) ∧
    (∀ rows : Dict Key ObjectMeta,
      (∃ walk, ListWalk keyPrefix delimiter maxKeys none walk ∧ ∀ p ∈ walk, p.1 = rows) ∧
      (∀ walk, ListWalk keyPrefix delimiter maxKeys none walk → (∀ p ∈ walk, p.1 = rows) →
        ∀ bound : ℤ, 1 ≤ bound → (listItems rows keyPrefix delimiter).length ≤ bound →
        listPage rows keyPrefix delimiter none bound =
          ⟨walk.flatMap (fun p => p.2.objects),walk.flatMap (fun p => p.2.commonPrefixes),
            none⟩)) := by
  have hn : 1 ≤ maxKeys.toNat := by omega
  constructor
  · intro walk hw
    obtain ⟨pages,hwalk,hsplit⟩ := walk_of_listWalk keyPrefix delimiter maxKeys hmax hw
    have hsorted : ∀ items ∈ walk.map (fun p => listItems p.1 keyPrefix delimiter),
        KeysetPaging.Sorted ltText ListItem.name items := by
      intro items hitems
      obtain ⟨p,_,rfl⟩ := List.mem_map.mp hitems
      exact listItems_sorted p.1 keyPrefix delimiter
    obtain ⟨hinc,_⟩ := KeysetPaging.walk_increasing ltText_trans hn hwalk hsorted
    obtain ⟨hobjects,hfolders,hnames⟩ := flatMap_splits hsplit
    have hfrom : ∀ x ∈ pages.flatten, FromListing keyPrefix delimiter x := by
      intro x hx
      obtain ⟨page,hpage,hx⟩ := mem_flatten.mp hx
      obtain ⟨p,_,hp⟩ := forall₂_mem_right hsplit hpage
      exact fromListing (hp.sublist.subset hx)
    have hnodup : (pages.flatten.map ListItem.name).Nodup := by
      refine hinc.imp ?_
      intro a b hab heq
      rw [heq, ltText_irrefl] at hab
      cases hab
    obtain ⟨hkeysNodup,hfoldersNodup⟩ := nodup_split hnodup
    refine ⟨hnames ▸ hinc,?_,?_⟩
    · intro p hp
      obtain ⟨page,_,hsp⟩ := forall₂_mem_left hsplit p hp
      exact splits_present hsp
    · intro key hkey
      -- the name that stands for the key is among those visited
      have hvisit := KeysetPaging.walk_covers hn hwalk hsorted (by
          intro items hitems
          obtain ⟨p,hp,rfl⟩ := List.mem_map.mp hitems
          obtain ⟨row,hrow,hl⟩ := hkey p hp
          exact name_mem_listItems keyPrefix delimiter hrow hl)
        (by intro t ht; cases ht)
      simp only [← map_flatMap, hobjects, hfolders]
      refine ⟨?_,?_,?_⟩
      · intro hnone
        rw [hnone, getD_none] at hvisit
        apply count_eq_one_of_mem hkeysNodup
        exact leaf_of_name _ hfrom key hnone hvisit
      · intro q hq
        rw [hq, getD_some] at hvisit
        constructor
        · apply count_eq_one_of_mem hfoldersNodup
          exact folder_of_name _ hfrom key q hq hvisit
        · exact not_leaf_of_rollup _ hfrom key q hq
      · intro q hq hqk
        exact rollup_of_folder _ hfrom key ((mem_asFolder _ q).mp hq) hqk
  · intro rows
    have hsorted := listItems_sorted rows keyPrefix delimiter
    constructor
    · obtain ⟨k,pages,hwalk⟩ := KeysetPaging.walk_exists ltText_trans hn ltText_irrefl hsorted none
      apply listWalk_of_walk keyPrefix delimiter maxKeys hmax hwalk
      intro l hl
      exact eq_of_mem_replicate hl
    · intro walk hw hrows bound hbound hlen
      obtain ⟨pages,hwalk,hsplit⟩ :=
        walk_of_listWalk keyPrefix delimiter maxKeys hmax hw
      have hall := KeysetPaging.walk_unchanged ltText_trans hn
        ltText_irrefl none _ pages hwalk (listItems rows keyPrefix delimiter) hsorted (by
          intro l hl
          obtain ⟨p,hp,rfl⟩ := List.mem_map.mp hl
          rw [hrows p hp])
      obtain ⟨hobjects,hfolders,_⟩ := flatMap_splits hsplit
      rw [hobjects, hfolders, hall, listPage_eq rows keyPrefix delimiter none hbound]
      have hle : (listItems rows keyPrefix delimiter).length ≤ bound.toNat := by omega
      obtain ⟨hpage,htoken⟩ := KeysetPaging.page_uncut none (listItems rows keyPrefix delimiter) hle
      rw [hpage, htoken]

def nestedRows : Dict Key ObjectMeta :=
  (Dict.empty.set keyA (ObjectMeta.newLive abcVersion 0)).set ⟨"b/c".toList,rfl⟩
    (ObjectMeta.newLive xyzVersion 0)

theorem nested_pagination :
    ∃ walk, ListWalk [] (some "/".toList) 1 none walk ∧ (∀ p ∈ walk, p.1 = nestedRows) ∧
      walk.flatMap (fun p => p.2.objects) = [(keyA,ObjectMeta.newLive abcVersion 0)] ∧
      walk.flatMap (fun p => p.2.commonPrefixes) = ["b/".toList] := by
  obtain ⟨_,hrows⟩ := pagination_exactly_once [] (some "/".toList) 1 (by decide)
  obtain ⟨⟨walk,hw,hsame⟩,hall⟩ := hrows nestedRows
  have hpage := hall walk hw hsame 2 (by decide) (by decide +kernel)
  have hvalue : listPage nestedRows [] (some "/".toList) none 2 =
      ⟨[(keyA,ObjectMeta.newLive abcVersion 0)],["b/".toList],none⟩ := by decide +kernel
  rw [hvalue] at hpage
  injection hpage with ho hf _
  exact ⟨walk,hw,hsame,ho.symm,hf.symm⟩

end BackendGauntlet.ObjectStore
