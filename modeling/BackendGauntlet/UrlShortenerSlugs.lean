import Mathlib.Data.List.Perm.Basic
import Mathlib.Data.List.Pairwise
import Mathlib.Data.Nat.Digits.Defs
import BackendGauntlet.Transition
import BackendGauntlet.UrlShortenerIdGen

/-! Slugs of the URL shortener, generated and custom. -/
namespace BackendGauntlet.UrlShortener

open PyText Transition List Option

def base62Alphabet : Text :=
  "0123456789ABCDEFGHIJKLMNOPQRSTUVWXYZabcdefghijklmnopqrstuvwxyz".toList

def base62Char (digit : ℕ) : Char := base62Alphabet.getD digit '0'

def base62Index (c : Char) : Option ℕ := base62Alphabet.idxOf? c

/-- The loop of `divmod` yields the digits from the last one on. -/
def base62Encode (value : ℕ) : Text :=
  if value = 0 then [base62Char 0] else ((Nat.digits 62 value).map base62Char).reverse

/-- A character outside the alphabet is a `ValueError`. -/
def base62Decode (slug : Text) : Option ℕ :=
  slug.foldlM (fun value c => (base62Index c).map (fun digit => value*62+digit)) 0

theorem base62Index_char {digit : ℕ} (h : digit < 62) : base62Index (base62Char digit) =
    some digit := by
  have hall : ∀ d : Fin 62, base62Index (base62Char d.val) = some d.val := by decide +kernel
  exact hall ⟨digit,h⟩

theorem base62Decode_digits {digits : List ℕ} (h : ∀ d ∈ digits, d < 62) :
    base62Decode (digits.map base62Char).reverse = some (Nat.ofDigits 62 digits) := by
  induction digits with
  | nil => rfl
  | cons d digits ih =>
    have hd : d < 62 := h d mem_cons_self
    have ih := ih (fun x hx => h x (mem_cons_of_mem d hx))
    rw [base62Decode] at ih ⊢
    rw [map_cons, reverse_cons, foldlM_append, ih]
    simp only [bind_eq_bind, bind_some, foldlM_cons, foldlM_nil,
      base62Index_char hd, map_some, Nat.ofDigits_cons]
    exact congrArg some (by rw [Nat.mul_comm, Nat.add_comm])

theorem base62Decode_encode (value : ℕ) : base62Decode (base62Encode value) = some value := by
  by_cases hv : value = 0
  · subst hv
    decide +kernel
  · rw [base62Encode, if_neg hv,
      base62Decode_digits (fun d hd => Nat.digits_lt_base (by decide) hd), Nat.ofDigits_digits]

theorem base62Encode_injective {m n : ℕ} (h : base62Encode m = base62Encode n) : m = n := by
  have hm := base62Decode_encode m
  rw [h, base62Decode_encode n] at hm
  exact (some.inj hm).symm

def minCustomSlugLen : ℕ := 1

def maxCustomSlugLen : ℕ := 64

def reservedSlugs : List Text :=
  ["healthz".toList, "api".toList, "assets".toList, "metrics".toList]

def validateCustomSlug (raw : Text) : Except Text Text :=
  let slug := strip raw
  if ¬ (minCustomSlugLen ≤ slug.length ∧ slug.length ≤ maxCustomSlugLen) then
    .error "slug length must be 1-64 characters".toList
  else if ¬ slug.all (fun c => c.isAlphanum || c == '-' || c == '_') then
    .error "slug may only contain letters, numbers, hyphens, and underscores".toList
  else if reservedSlugs.contains (slug.map Char.toLower) then .error "slug is reserved".toList
  else .ok slug

structure CreateLink where
  url : Text
  customSlug : Option Text

structure CreatedLink where
  slug : Text
  shortUrl : Text
  longUrl : Text
deriving DecidableEq

/-- A row of `links`. `custom` is history: whether the caller chose the slug. -/
structure Link where
  id : ℕ
  slug : Text
  longUrl : Text
  custom : Bool
deriving DecidableEq

/-- `create_link` up to its INSERT; `none` while the generator waits for its clock. -/
def mintLink (validateLongUrl : Text → Except Text Text) (ids : IdGenerator) (body : CreateLink)
    (readings : List ℕ) : Option (Except Text Link × IdGenerator) :=
  match validateLongUrl body.url with
  | .error e => some (.error e,ids)
  | .ok longUrl =>
    match ids.nextId readings with
    | none => none
    | some (id,ids,_) =>
      -- the id is drawn for a custom slug too, and is lost if that is refused
      match body.customSlug with
      | none => some (.ok ⟨id,base62Encode id,longUrl,false⟩,ids)
      | some raw =>
        match validateCustomSlug raw with
        | .error e => some (.error e,ids)
        | .ok slug => some (.ok ⟨id,slug,longUrl,true⟩,ids)

def insertLink (link : Link) (links : List Link) : Except Text (List Link) :=
  if links.any (fun r => r.id = link.id || r.slug = link.slug) then
    .error "slug already in use".toList
  else .ok (link :: links)

def createdLink (baseUrl : Text) (link : Link) : CreatedLink :=
  { slug := link.slug, shortUrl := baseUrl ++ "/".toList ++ link.slug, longUrl := link.longUrl }

def finishLink (baseUrl : Text) (link : Link) (links : List Link) :
    Except Text CreatedLink × List Link :=
  match insertLink link links with
  | .error e => (.error e,links)
  | .ok links => (.ok (createdLink baseUrl link),links)

/-- `pending` are the requests between their id and their INSERT. -/
structure Shortener where
  ids : IdGenerator
  links : List Link
  pending : List Link

inductive CreateAction
  | mint (body : CreateLink) (readings : List ℕ)
  | insert (i : ℕ)

variable {ids : IdGenerator} {body : CreateLink} {readings : List ℕ} {link : Link} {s : Shortener}

section
variable (validateLongUrl : Text → Except Text Text) (baseUrl : Text)

def createStep (s : Shortener) : CreateAction → Option Shortener
  | .mint body readings =>
    match mintLink validateLongUrl s.ids body readings with
    | none => none
    | some (.error _,ids) => some { s with ids := ids }
    | some (.ok link,ids) => some { s with ids := ids, pending := s.pending ++ [link] }
  | .insert i =>
    match s.pending[i]? with
    | none => none
    | some link => some { s with links := (finishLink baseUrl link s.links).2,
                                 pending := s.pending.eraseIdx i }

def createInitial (s : Shortener) : Prop :=
  s.links = [] ∧ s.pending = [] ∧ ∃ nodeId, IdGenerator.new nodeId = .ok s.ids

def spellsUpcoming (ids : IdGenerator) (slug : Text) : Bool :=
  match base62Decode slug with
  | none => false
  | some m => base62Encode m = slug && ids.lastId < m && (decode m).nodeId = ids.nodeId

/-- A custom slug is neither that of an id to come nor of a link to be inserted. -/
def slugUnclaimed (s : Shortener) : CreateAction → Bool
  | .mint body _ =>
    match body.customSlug with
    | none => true
    | some raw =>
      match validateCustomSlug raw with
      | .error _ => true
      | .ok slug => !spellsUpcoming s.ids slug &&
          s.pending.all (fun p => p.custom || p.slug ≠ slug)
  | .insert _ => true

theorem mintLink_some {ids' : IdGenerator}
    (h : mintLink validateLongUrl ids body readings = some (.ok link,ids')) :
    Later ids ids' ∧ link.id = ids'.lastId ∧
      ((body.customSlug = none ∧ link.custom = false ∧ link.slug = base62Encode link.id) ∨
        ∃ raw, body.customSlug = some raw ∧ link.custom = true ∧
          validateCustomSlug raw = .ok link.slug) := by
  unfold mintLink at h
  split at h
  · cases h
  · split at h
    · cases h
    · rename_i id ids₁ rest hnext
      obtain ⟨hid,hlater⟩ := nextId_some ids ids₁ readings rest id hnext
      split at h
      · rename_i hcustom
        cases h
        exact ⟨hlater,hid,Or.inl ⟨hcustom,rfl,rfl⟩⟩
      · rename_i raw hcustom
        split at h
        · cases h
        · rename_i slug hslug
          cases h
          exact ⟨hlater,hid,Or.inr ⟨raw,hcustom,rfl,hslug⟩⟩

theorem mintLink_error {ids' : IdGenerator}
    {e : Text} (h : mintLink validateLongUrl ids body readings = some (.error e,ids')) :
    ids' = ids ∨ Later ids ids' := by
  unfold mintLink at h
  split at h
  · cases h
    exact Or.inl rfl
  · split at h
    · cases h
    · rename_i id ids₁ rest hnext
      obtain ⟨_,hlater⟩ := nextId_some ids ids₁ readings rest id hnext
      split at h
      · cases h
      · split at h
        · cases h
          exact Or.inr hlater
        · cases h

def Shortener.drawn (s : Shortener) : List Link := s.pending ++ s.links

structure Apart (s : Shortener) : Prop where
  ids_ne : s.drawn.Pairwise (fun l r => l.id ≠ r.id)
  ids_le : ∀ l ∈ s.drawn, l.id ≤ s.ids.lastId
  generated : ∀ l ∈ s.drawn, l.custom = false → l.slug = base62Encode l.id
  ahead : ∀ l ∈ s.drawn, l.custom = true → ∀ m, s.ids.lastId < m →
    (decode m).nodeId = s.ids.nodeId → l.slug ≠ base62Encode m
  custom_ne : ∀ l ∈ s.drawn, l.custom = true → ∀ p ∈ s.pending, p.custom = false →
    l.slug ≠ p.slug

theorem apart_initial (s : Shortener) (h : createInitial s) : Apart s := by
  have hnil : s.drawn = [] := by rw [Shortener.drawn, h.1, h.2.1]; rfl
  constructor <;> rw [hnil]
  · exact List.Pairwise.nil
  · simp
  · simp
  · simp
  · simp

theorem apart_ids (hinv : Apart s)
    (h : ids = s.ids ∨ Later s.ids ids) : Apart { s with ids := ids } := by
  have hle : s.ids.lastId ≤ ids.lastId ∧ ids.nodeId = s.ids.nodeId := by
    rcases h with rfl | hlater
    · exact ⟨Nat.le_refl _,rfl⟩
    · exact ⟨(lastId_lt hlater).le,hlater.1⟩
  refine ⟨hinv.ids_ne,?_,hinv.generated,?_,hinv.custom_ne⟩
  · intro l hl
    exact (hinv.ids_le l hl).trans hle.1
  · intro l hl hcustom m hm hnode
    exact hinv.ahead l hl hcustom m (Nat.lt_of_le_of_lt hle.1 hm) (hnode.trans hle.2)

/-- A generated slug is that of an upcoming id, so no custom slug so far equals it. -/
theorem custom_ne_generated {l : Link} (hinv : Apart s)
    (hlater : Later s.ids ids) (hl : l ∈ s.drawn) (hcustom : l.custom = true) :
    l.slug ≠ base62Encode ids.lastId := by
  apply hinv.ahead l hl hcustom ids.lastId (lastId_lt hlater)
  rw [decode_lastId]
  exact hlater.1

theorem spellsUpcoming_false {slug : Text}
    (h : spellsUpcoming ids slug = false) {m : ℕ} (hm : ids.lastId < m)
    (hnode : (decode m).nodeId = ids.nodeId) : slug ≠ base62Encode m := by
  intro heq
  rw [spellsUpcoming, heq, base62Decode_encode] at h
  simp [hm, hnode] at h

theorem mem_drawn_append {l : Link}
    (h : l ∈ Shortener.drawn { s with ids := ids, pending := s.pending ++ [link] }) :
    l = link ∨ l ∈ s.drawn := by
  simp only [Shortener.drawn, mem_append, mem_singleton] at h ⊢
  tauto

theorem apart_mint
    (hinv : Apart s) (hok : slugUnclaimed s (.mint body readings) = true)
    (h : mintLink validateLongUrl s.ids body readings = some (.ok link,ids)) :
    Apart { s with ids := ids, pending := s.pending ++ [link] } := by
  obtain ⟨hlater,hid,hkind⟩ := mintLink_some validateLongUrl h
  have hlt := lastId_lt hlater
  have hbase := apart_ids hinv (Or.inr hlater)
  have hnew (l : Link) (hl : l ∈ s.drawn) : l.id ≠ link.id := by
    have := hinv.ids_le l hl
    omega
  -- the conditions on the custom slug of this request, if it has one
  have hunclaimed (hcustom : link.custom = true) : spellsUpcoming s.ids link.slug = false ∧
      ∀ p ∈ s.pending, p.custom = false → link.slug ≠ p.slug := by
    rcases hkind with ⟨_,hfalse,_⟩ | ⟨raw,hraw,_,hslug⟩
    · rw [hcustom] at hfalse
      cases hfalse
    · simp only [slugUnclaimed, hraw, hslug, Bool.and_eq_true, Bool.not_eq_true',
        List.all_eq_true] at hok
      refine ⟨hok.1,?_⟩
      intro p hp hgen heq
      simpa [hgen, heq] using hok.2 p hp
  refine ⟨?_,?_,?_,?_,?_⟩
  · -- the new id is above those drawn before
    have hperm : (link :: s.drawn).Perm (s.pending ++ [link] ++ s.links) := by
      rw [Shortener.drawn, append_assoc, singleton_append]
      exact perm_middle.symm
    apply (hperm.pairwise_iff (fun h => Ne.symm h)).mp
    exact pairwise_cons.mpr ⟨fun l hl => Ne.symm (hnew l hl),hinv.ids_ne⟩
  · intro l hl
    rcases mem_drawn_append hl with rfl | hl
    · exact hid.le
    · exact hbase.ids_le l hl
  · intro l hl hgen
    rcases mem_drawn_append hl with rfl | hl
    · rcases hkind with ⟨_,_,hslug⟩ | ⟨_,_,htrue,_⟩
      · exact hslug
      · rw [hgen] at htrue
        cases htrue
    · exact hinv.generated l hl hgen
  · intro l hl hcustom m hm hnode
    rcases mem_drawn_append hl with rfl | hl
    · exact spellsUpcoming_false (hunclaimed hcustom).1 (hlt.trans hm) (hnode.trans hlater.1)
    · exact hbase.ahead l hl hcustom m hm hnode
  · intro l hl hcustom p hp hgen
    rcases mem_append.mp hp with hold | hnewp
    · rcases mem_drawn_append hl with rfl | hl
      · exact (hunclaimed hcustom).2 p hold hgen
      · exact hinv.custom_ne l hl hcustom p hold hgen
    · -- the new link is a generated one: earlier custom slugs were kept off its id
      have hplink : p = link := mem_singleton.mp hnewp
      subst hplink
      rcases mem_drawn_append hl with rfl | hl
      · rw [hgen] at hcustom
        cases hcustom
      · rcases hkind with ⟨_,_,hslug⟩ | ⟨_,_,htrue,_⟩
        · rw [hslug, hid]
          exact custom_ne_generated hinv hlater hl hcustom
        · rw [hgen] at htrue
          cases htrue

theorem apart_shrink {links pending : List Link} {drawn : List Link}
    (hinv : Apart s) (hperm : (pending ++ links).Perm drawn) (hsub : drawn.Sublist s.drawn)
    (hpending : ∀ p ∈ pending, p ∈ s.pending) :
    Apart { s with links := links, pending := pending } := by
  have hmem (l : Link) (hl : l ∈ pending ++ links) : l ∈ s.drawn := hsub.mem (hperm.mem_iff.mp hl)
  refine ⟨?_,?_,?_,?_,?_⟩
  · exact (hperm.pairwise_iff (fun h => Ne.symm h)).mpr (hinv.ids_ne.sublist hsub)
  · intro l hl
    exact hinv.ids_le l (hmem l hl)
  · intro l hl
    exact hinv.generated l (hmem l hl)
  · intro l hl
    exact hinv.ahead l (hmem l hl)
  · intro l hl hcustom p hp
    exact hinv.custom_ne l (hmem l hl) hcustom p (hpending p hp)

theorem finishLink_links (link : Link) (links : List Link) :
    (finishLink baseUrl link links).2 = links ∨
      (finishLink baseUrl link links).2 = link :: links := by
  unfold finishLink insertLink
  split_ifs
  · exact Or.inl rfl
  · exact Or.inr rfl

theorem apart_step {t : Shortener} {a : CreateAction} (hinv : Apart s)
    (hok : slugUnclaimed s a = true) (h : createStep validateLongUrl baseUrl s a = some t) :
    Apart t := by
  cases a with
  | mint body readings =>
    simp only [createStep] at h
    split at h
    · cases h
    · rename_i e ids hmint
      cases h
      exact apart_ids hinv (mintLink_error validateLongUrl hmint)
    · rename_i link ids hmint
      cases h
      exact apart_mint validateLongUrl hinv hok hmint
  | insert i =>
    simp only [createStep] at h
    split at h
    · cases h
    · rename_i link hlink
      have hpending (p : Link) (hp : p ∈ s.pending.eraseIdx i) : p ∈ s.pending :=
        mem_of_mem_eraseIdx hp
      cases h
      -- a refused link is gone, an accepted one moves to the table
      rcases finishLink_links baseUrl link s.links with hlinks | hlinks
      · rw [hlinks]
        apply apart_shrink hinv (List.Perm.refl _) _ hpending
        exact (eraseIdx_sublist _ _).append (List.Sublist.refl _)
      · rw [hlinks]
        obtain ⟨hi,rfl⟩ := List.getElem?_eq_some_iff.mp hlink
        apply apart_shrink hinv _ (List.Sublist.refl _) hpending
        have hmove : (s.pending.eraseIdx i ++ s.pending[i] :: s.links).Perm
            (s.pending[i] :: s.pending.eraseIdx i ++ s.links) := perm_middle
        exact hmove.trans ((getElem_cons_eraseIdx_perm hi).append_right s.links)

theorem generated_fits (hinv : Apart s) {p r : Link} (hp : p ∈ s.pending)
    (hr : r ∈ s.links) (hgen : p.custom = false) : r.id ≠ p.id ∧ r.slug ≠ p.slug := by
  have hpd : p ∈ s.drawn := mem_append_left _ hp
  have hrd : r ∈ s.drawn := mem_append_right _ hr
  have hid : r.id ≠ p.id := Ne.symm ((pairwise_append.mp hinv.ids_ne).2.2 p hp r hr)
  refine ⟨hid,?_⟩
  by_cases hcustom : r.custom = true
  · -- the stored slug was chosen while `p` was upcoming or pending
    exact hinv.custom_ne r hrd hcustom p hp hgen
  · rw [hinv.generated r hrd (Bool.of_not_eq_true hcustom), hinv.generated p hpd hgen]
    exact fun heq => hid (base62Encode_injective heq)

/-- In every history whose custom slugs are unclaimed, a request without one and with an acceptable
URL is given a link. -/
theorem generated_slug_accepted (s : Shortener)
    (hs : Reachable createInitial (createStep validateLongUrl baseUrl)
      (fun u a => slugUnclaimed u a = true) s) :
    (∀ body longUrl readings id ids rest, body.customSlug = none →
      validateLongUrl body.url = .ok longUrl → s.ids.nextId readings = some (id,ids,rest) →
      createStep validateLongUrl baseUrl s (.mint body readings) =
        some ⟨ids,s.links,s.pending ++ [⟨id,base62Encode id,longUrl,false⟩]⟩) ∧
    (∀ link ∈ s.pending, link.custom = false →
      finishLink baseUrl link s.links = (.ok (createdLink baseUrl link),link :: s.links)) := by
  have hinv : Apart s := reachable_invariant Apart apart_initial
    (fun u v a hu hok hstep => apart_step validateLongUrl baseUrl hu hok hstep) s hs
  constructor
  · intro body longUrl readings id ids rest hcustom hurl hnext
    simp [createStep, mintLink, hurl, hnext, hcustom]
  · intro link hlink hgen
    have hfits : insertLink link s.links = .ok (link :: s.links) := by
      rw [insertLink, if_neg]
      simp only [List.any_eq_true, not_exists, not_and, Bool.or_eq_true, decide_eq_true_eq, not_or]
      intro r hr
      exact generated_fits hinv hlink hr hgen
    simp only [finishLink, hfits]

end

def anyUrl : Text → Except Text Text := fun url => .ok url

def emptyShortener : Shortener := ⟨⟨7,0,0,by decide,maxSequence_pos⟩,[],[]⟩

theorem emptyShortener_initial : createInitial emptyShortener := ⟨rfl,rfl,7,rfl⟩

def vanityRequest (slug : String) : CreateAction :=
  .mint ⟨"https://example.com/".toList,some slug.toList⟩ [1000]

def plainRequest : CreateAction := .mint ⟨"https://example.com/".toList,none⟩ [1001]

def shortBase : Text := "https://sho.rt".toList

theorem generated_slug_accepted_plain : ∃ s,
    Reachable createInitial (createStep anyUrl shortBase) (fun u a => slugUnclaimed u a = true) s ∧
    s.links.length = 1 ∧ ∃ link ∈ s.pending, (finishLink shortBase link s.links).1 =
      .ok ⟨"4a8af2".toList,"https://sho.rt/4a8af2".toList,"https://example.com/".toList⟩ := by
  obtain ⟨s,hs,hlinks,hpending⟩ := reachable_of_checkedRun createInitial
    (createStep anyUrl shortBase) slugUnclaimed
    (P := fun s => s.links.length = 1 ∧ s.pending = [⟨4198526976,"4a8af2".toList,
      "https://example.com/".toList,false⟩])
    [vanityRequest "my-brand", .insert 0, plainRequest] emptyShortener emptyShortener_initial
    (by decide +kernel)
  have hmem := mem_singleton_self (⟨4198526976,"4a8af2".toList,
    "https://example.com/".toList,false⟩ : Link)
  rw [← hpending] at hmem
  refine ⟨s,hs,hlinks,_,hmem,?_⟩
  rw [(generated_slug_accepted anyUrl shortBase s hs).2 _ hmem rfl]
  rfl

/-- The custom slug is that of the id that node 7 issues at time 1001. -/
theorem generated_slug_refused : ∃ s,
    Reachable createInitial (createStep anyUrl shortBase) anyStep s ∧
    ∃ link ∈ s.pending, link.custom = false ∧
      (finishLink shortBase link s.links).1 = .error "slug already in use".toList :=
  reachable_of_run _ _ [vanityRequest "4a8af2", .insert 0, plainRequest] emptyShortener
    emptyShortener_initial (by decide +kernel)

end BackendGauntlet.UrlShortener
