import Mathlib.Data.List.Basic

/-! Paging by the last name of each page through a listing that may change in between. -/
namespace BackendGauntlet.KeysetPaging

open List

variable {α κ : Type*} (lt : κ → κ → Bool) (name : α → κ)

def remaining (after : Option κ) (items : List α) : List α :=
  match after with
  | none => items
  | some t => items.filter (fun x => lt t (name x))

def page (n : ℕ) (after : Option κ) (items : List α) : List α :=
  (remaining lt name after items).take n

def token (n : ℕ) (after : Option κ) (items : List α) : Option κ :=
  if n < (remaining lt name after items).length then
    (remaining lt name after items)[n-1]?.map name
  else none

inductive Walk (n : ℕ) : Option κ → List (List α) → List (List α) → Prop
  | last (after : Option κ) (items : List α) (h : token lt name n after items = none) :
      Walk n after [items] [page lt name n after items]
  | next (after : Option κ) (items : List α) (t : κ) (listings pages : List (List α))
      (h : token lt name n after items = some t) (hw : Walk n (some t) listings pages) :
      Walk n after (items :: listings) (page lt name n after items :: pages)

def Sorted (items : List α) : Prop := (items.map name).Pairwise (fun a b => lt a b = true)

def Past (after : Option κ) (a : κ) : Prop := ∀ t, after = some t → lt t a = true

theorem mem_remaining (after : Option κ) (items : List α) (x : α) :
    x ∈ remaining lt name after items ↔ x ∈ items ∧ Past lt after (name x) := by
  cases after with
  | none => simp [remaining, Past]
  | some t => simp [remaining, Past]

variable {items : List α} {n : ℕ} {after : Option κ}

theorem sorted_remaining (after : Option κ) (h : Sorted lt name items) :
    Sorted lt name (remaining lt name after items) := by
  cases after with
  | none => exact h
  | some t => exact h.sublist (filter_sublist.map name)

theorem page_sublist (n : ℕ) (after : Option κ) (items : List α) :
    (page lt name n after items).Sublist items := by
  apply (take_sublist _ _).trans
  cases after with
  | none => exact List.Sublist.refl _
  | some t => exact filter_sublist

variable {lt name}

theorem page_uncut (after : Option κ) (items : List α)
    (h : (remaining lt name after items).length ≤ n) :
    page lt name n after items = remaining lt name after items ∧
      token lt name n after items = none := by
  constructor
  · exact take_of_length_le h
  · unfold token
    rw [if_neg (Nat.not_lt.mpr h)]

theorem page_of_no_token
    (h : token lt name n after items = none) (hn : 1 ≤ n) :
    page lt name n after items = remaining lt name after items := by
  unfold token at h
  split at h
  · rename_i hlt
    have hsome : (remaining lt name after items)[n-1]? ≠ none := by
      rw [ne_eq, List.getElem?_eq_none_iff]
      omega
    exact absurd (Option.map_eq_none_iff.mp h) hsome
  · exact take_of_length_le (by omega)

/-- A page with a token ends at the item that the token names. -/
theorem page_of_token {t : κ}
    (h : token lt name n after items = some t) (hn : 1 ≤ n) :
    ∃ front x back, remaining lt name after items = front ++ x :: back ∧
      page lt name n after items = front ++ [x] ∧ name x = t := by
  unfold token at h
  split at h
  · obtain ⟨x,hx,hname⟩ := Option.map_eq_some_iff.mp h
    obtain ⟨hlt,hget⟩ := List.getElem?_eq_some_iff.mp hx
    refine ⟨(remaining lt name after items).take (n-1),x,
      (remaining lt name after items).drop n,?_,?_,hname⟩
    · have hdrop := drop_eq_getElem_cons hlt
      rw [hget, Nat.sub_add_cancel hn] at hdrop
      rw [← hdrop, take_append_drop]
    · have htake := take_append_getElem hlt
      rw [hget, Nat.sub_add_cancel hn] at htake
      exact htake.symm
  · cases h

theorem sorted_cut (hs : Sorted lt name items) {front : List α} {x : α}
    {back : List α} (h : items = front ++ x :: back) :
    (∀ y ∈ front, lt (name y) (name x) = true) ∧ (∀ y ∈ back, lt (name x) (name y) = true) ∧
      Sorted lt name (front ++ [x]) := by
  subst h
  unfold Sorted at hs ⊢
  rw [map_append, map_cons, pairwise_append] at hs
  obtain ⟨hfront,hxback,hcross⟩ := hs
  obtain ⟨hx,_⟩ := pairwise_cons.mp hxback
  refine ⟨?_,?_,?_⟩
  · intro y hy
    exact hcross _ (List.mem_map_of_mem hy) _ mem_cons_self
  · intro y hy
    exact hx _ (List.mem_map_of_mem hy)
  · rw [map_append, map_singleton, pairwise_append]
    refine ⟨hfront,pairwise_singleton _ _,?_⟩
    intro a ha b hb
    rw [mem_singleton.mp hb]
    exact hcross a ha _ mem_cons_self

section
variable (htrans : ∀ a b c, lt a b = true → lt b c = true → lt a c = true) (n : ℕ) (hn : 1 ≤ n)

include htrans hn

variable {n}

/-- Names only grow along a walk, whatever happens to the listing. -/
theorem walk_increasing {after : Option κ} {listings pages : List (List α)}
    (hw : Walk lt name n after listings pages) (hs : ∀ items ∈ listings, Sorted lt name items) :
    Sorted lt name pages.flatten ∧ ∀ x ∈ pages.flatten, Past lt after (name x) := by
  induction hw with
  | last after items h =>
    have hrem := sorted_remaining lt name after (hs items mem_cons_self)
    rw [page_of_no_token h hn]
    simp only [flatten_cons, flatten_nil, append_nil]
    exact ⟨hrem,fun x hx => ((mem_remaining lt name after items x).mp hx).2⟩
  | next after items t listings pages h _ ih =>
    have hrem := sorted_remaining lt name after (hs items mem_cons_self)
    obtain ⟨hsorted,hpast⟩ := ih (fun l hl => hs l (mem_cons_of_mem items hl))
    obtain ⟨front,x,back,hcut,hpage,hname⟩ := page_of_token h hn
    obtain ⟨hfront,_,hsx⟩ := sorted_cut hrem hcut
    have hxpast : Past lt after (name x) :=
      ((mem_remaining lt name after items x).mp (by rw [hcut]; simp)).2
    -- every name of the page is at most the token, every later name past it
    have hle : ∀ y ∈ front ++ [x], name y = t ∨ lt (name y) t = true := by
      intro y hy
      rcases mem_append.mp hy with hy | hy
      · exact Or.inr (hname ▸ hfront y hy)
      · exact Or.inl (mem_singleton.mp hy ▸ hname)
    rw [flatten_cons, hpage]
    constructor
    · unfold Sorted at hsorted hsx ⊢
      rw [map_append, pairwise_append]
      refine ⟨hsx,hsorted,?_⟩
      intro a ha b hb
      obtain ⟨y,hy,rfl⟩ := List.mem_map.mp ha
      obtain ⟨z,hz,rfl⟩ := List.mem_map.mp hb
      have htz := hpast z hz t rfl
      rcases hle y hy with heq | hlt
      · rw [heq]
        exact htz
      · exact htrans _ _ _ hlt htz
    · intro y hy
      rcases mem_append.mp hy with hy | hy
      · have hmem : y ∈ remaining lt name after items := by
          rw [hcut]
          rcases mem_append.mp hy with hy | hy
          · exact mem_append_left _ hy
          · rw [mem_singleton.mp hy]
            simp
        exact ((mem_remaining lt name after items y).mp hmem).2
      · intro u hu
        have hxt := hxpast u hu
        rw [hname] at hxt
        exact htrans _ _ _ hxt (hpast y hy t rfl)

omit htrans in
theorem walk_covers {listings pages : List (List α)}
    (hw : Walk lt name n after listings pages) (hs : ∀ items ∈ listings, Sorted lt name items)
    {a : κ} (ha : ∀ items ∈ listings, a ∈ items.map name) (hpast : Past lt after a) :
    a ∈ pages.flatten.map name := by
  induction hw with
  | last after items h =>
    obtain ⟨x,hx,hxa⟩ := List.mem_map.mp (ha items mem_cons_self)
    rw [page_of_no_token h hn]
    simp only [flatten_cons, flatten_nil, append_nil]
    have hmem := (mem_remaining lt name after items x).mpr ⟨hx,hxa ▸ hpast⟩
    exact List.mem_map.mpr ⟨x,hmem,hxa⟩
  | next after items t listings pages h _ ih =>
    have hrem := sorted_remaining lt name after (hs items mem_cons_self)
    obtain ⟨front,x,back,hcut,hpage,hname⟩ := page_of_token h hn
    obtain ⟨_,hback,_⟩ := sorted_cut hrem hcut
    obtain ⟨y,hy,hya⟩ := List.mem_map.mp (ha items mem_cons_self)
    have hmem := (mem_remaining lt name after items y).mpr ⟨hy,hya ▸ hpast⟩
    rw [hcut, append_cons, mem_append] at hmem
    rw [flatten_cons, map_append, mem_append]
    rcases hmem with hmem | hmem
    · left
      rw [hpage]
      exact List.mem_map.mpr ⟨y,hmem,hya⟩
    · right
      -- left out of this page, so it is past the token
      apply ih (fun l hl => hs l (mem_cons_of_mem items hl))
        (fun l hl => ha l (mem_cons_of_mem items hl))
      intro u hu
      rw [← Option.some.inj hu, ← hname, ← hya]
      exact hback y hmem

variable (hirr : ∀ a, lt a a = false)

include hirr

omit hn in
theorem remaining_token (hs : Sorted lt name items)
    {front : List α} {x : α} {back : List α}
    (hcut : remaining lt name after items = front ++ x :: back) :
    remaining lt name (some (name x)) items = back := by
  have hrem := sorted_remaining lt name after hs
  obtain ⟨hfront,hback,_⟩ := sorted_cut hrem hcut
  have hxpast : Past lt after (name x) :=
    ((mem_remaining lt name after items x).mp (by rw [hcut]; simp)).2
  have htwice : remaining lt name (some (name x)) items =
      (remaining lt name after items).filter (fun y => lt (name x) (name y)) := by
    cases after with
    | none => rfl
    | some u =>
      have hux := hxpast u rfl
      simp only [remaining, List.filter_filter]
      apply filter_congr
      intro y _
      cases hxy : lt (name x) (name y) with
      | false => rfl
      | true => rw [htrans u (name x) (name y) hux hxy]; rfl
  have hnone : front.filter (fun y => lt (name x) (name y)) = [] := by
    rw [filter_eq_nil_iff]
    intro y hy hxy
    have hxx := htrans _ _ _ hxy (hfront y hy)
    rw [hirr] at hxx
    cases hxx
  have hall : back.filter (fun y => lt (name x) (name y)) = back :=
    filter_eq_self.mpr hback
  rw [htwice, hcut, filter_append, hnone, filter_cons, hirr]
  simpa using hall

/-- A walk through an unchanged listing returns it. -/
theorem walk_unchanged (after : Option κ) (listings pages : List (List α))
    (hw : Walk lt name n after listings pages) (items : List α) (hs : Sorted lt name items)
    (hsame : ∀ l ∈ listings, l = items) : pages.flatten = remaining lt name after items := by
  induction hw with
  | last after l h =>
    rw [hsame l mem_cons_self] at h ⊢
    rw [page_of_no_token h hn]
    simp
  | next after l t listings pages h _ ih =>
    rw [hsame l mem_cons_self] at h ⊢
    obtain ⟨front,x,back,hcut,hpage,hname⟩ := page_of_token h hn
    rw [flatten_cons, ih (fun l hl => hsame l (mem_cons_of_mem _ hl)), hpage, ← hname,
      remaining_token htrans hirr hs hcut, hcut]
    simp

/-- A walk through an unchanged listing comes to its end. -/
theorem walk_exists {items : List α} (hs : Sorted lt name items) (after : Option κ) :
    ∃ k pages, Walk lt name n after (replicate k items) pages := by
  -- each page makes the remaining listing shorter
  induction hlen : (remaining lt name after items).length using Nat.strongRecOn
    generalizing after with
  | _ len ih =>
    cases h : token lt name n after items with
    | none => exact ⟨1,_,Walk.last after items h⟩
    | some t =>
      obtain ⟨front,x,back,hcut,_,hname⟩ := page_of_token h hn
      have hrest := remaining_token htrans hirr hs hcut
      rw [hname] at hrest
      have hshort : (remaining lt name (some t) items).length < len := by
        rw [hrest, ← hlen, hcut, length_append, length_cons]
        omega
      obtain ⟨k,pages,hw⟩ := ih _ hshort (some t) rfl
      exact ⟨k+1,_,Walk.next after items t _ pages h hw⟩

end

end BackendGauntlet.KeysetPaging
