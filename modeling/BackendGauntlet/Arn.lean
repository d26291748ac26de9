import BackendGauntlet.PyText

/-! Resource names: six fields between colons, and a resource that the two properties of `Arn`
split into a type and an id. -/
namespace BackendGauntlet.CommonAws

open PyText List Option

structure Arn where
  partition : Text
  service : Text
  region : Text
  accountId : Text
  resource : Text
deriving DecidableEq

/-- The message is the `repr` of the value, then the text. -/
structure InvalidParameterValue where
  value : Text
  text : String
deriving DecidableEq

/-- `s.split(sep, maxsplit)`. -/
def splitMax (sep : Char) : ℕ → Text → List Text
  | 0, s => [s]
  | n+1, s =>
    match cut sep s with
    | none => [s]
    | some (a,b) => a :: splitMax sep n b

def arnFields : ℕ := 6

def arnScheme : Text := "arn".toList

def Arn.parse (value : Text) : Except InvalidParameterValue Arn :=
  match splitMax ':' (arnFields-1) value with
  | [scheme, partition, service, region, accountId, resource] =>
    if scheme ≠ arnScheme then .error ⟨value," is not a valid ARN"⟩
    else if partition = [] ∨ service = [] ∨ resource = [] then
      .error ⟨value," is missing a required ARN field"⟩
    else .ok ⟨partition,service,region,accountId,resource⟩
  | _ => .error ⟨value," is not a valid ARN"⟩

/-- `Arn.__str__`. -/
def Arn.str (a : Arn) : Text :=
  [':'].intercalate [arnScheme, a.partition, a.service, a.region, a.accountId, a.resource]

/-- The separators in the order in which both loops try them. -/
def separators : List Char := ['/', ':']

def Arn.resourceType (a : Arn) : Option Text :=
  (separators.findSome? (fun separator => cut separator a.resource)).map Prod.fst

def Arn.resourceId (a : Arn) : Text :=
  ((separators.findSome? (fun separator => cut separator a.resource)).map Prod.snd).getD a.resource

theorem intercalate_splitMax (sep : Char) (n : ℕ) (s : Text) :
    splitMax sep n s ≠ [] ∧ [sep].intercalate (splitMax sep n s) = s := by
  induction n generalizing s with
  | zero => exact ⟨cons_ne_nil s [],intercalate_singleton⟩
  | succ n ih =>
    rw [splitMax]
    cases hc : cut sep s with
    | none => exact ⟨cons_ne_nil s [],intercalate_singleton⟩
    | some p =>
      obtain ⟨hs,_⟩ := (cut_eq_some_iff sep s p.1 p.2).mp hc
      obtain ⟨hne,hrest⟩ := ih p.2
      refine ⟨cons_ne_nil _ _,?_⟩
      rw [intercalate_cons_of_ne_nil hne, hrest, append_assoc, singleton_append, ← hs]

theorem str_of_parse {s : Text} {a : Arn} (h : Arn.parse s = .ok a) : a.str = s := by
  have hs := (intercalate_splitMax ':' (arnFields-1) s).2
  unfold Arn.parse at h
  split at h
  · rename_i hfields
    split_ifs at h with hscheme
    cases h
    rw [hfields, not_not.mp hscheme] at hs
    exact hs
  · cases h

theorem cut_order (a : Arn) :
    separators.findSome? (fun separator => cut separator a.resource) =
      (cut '/' a.resource).or (cut ':' a.resource) := by
  rw [separators, findSome?_cons, findSome?_cons, findSome?_nil]
  cases cut '/' a.resource with
  | none => cases cut ':' a.resource <;> rfl
  | some p => rfl

/-- The split at the earliest separator, whichever of the two it is. -/
def Arn.SplitsAtFirst (a : Arn) : Prop :=
  ('/' ∉ a.resource ∧ ':' ∉ a.resource ∧ a.resourceType = none ∧ a.resourceId = a.resource) ∨
  ∃ type, ∃ separator ∈ separators, a.resourceType = some type ∧
    a.resource = type ++ separator :: a.resourceId ∧ '/' ∉ type ∧ ':' ∉ type

/-- A colon ahead of the first slash: there the slash is tried first, though it comes later. -/
def Arn.colonAhead (a : Arn) : Bool :=
  match cut '/' a.resource with
  | none => false
  | some p => p.1.contains ':'

theorem splitsAtFirst_iff (a : Arn) : a.SplitsAtFirst ↔ a.colonAhead = false := by
  unfold Arn.SplitsAtFirst Arn.colonAhead Arn.resourceType Arn.resourceId
  rw [cut_order]
  cases hslash : cut '/' a.resource with
  | some p =>
    obtain ⟨hr,hno⟩ := (cut_eq_some_iff '/' a.resource p.1 p.2).mp hslash
    have hmem : '/' ∈ a.resource := by
      rw [hr]
      exact mem_append_right _ mem_cons_self
    simp only [some_or, map_some, getD_some, contains_eq_mem, decide_eq_false_iff_not]
    constructor
    · rintro (⟨hn,_⟩ | ⟨type,_,_,htype,_,_,hcolon⟩)
      · exact absurd hmem hn
      · exact some.inj htype ▸ hcolon
    · intro hcolon
      exact Or.inr ⟨p.1,'/',mem_cons_self,rfl,hr,hno,hcolon⟩
  | none =>
    have hno := (cut_eq_none_iff '/' a.resource).mp hslash
    refine iff_of_true ?_ rfl
    cases hcolon : cut ':' a.resource with
    | none => exact Or.inl ⟨hno,(cut_eq_none_iff ':' a.resource).mp hcolon,rfl,rfl⟩
    | some p =>
      obtain ⟨hr,hc⟩ := (cut_eq_some_iff ':' a.resource p.1 p.2).mp hcolon
      refine Or.inr ⟨p.1,':',mem_cons_of_mem _ mem_cons_self,rfl,hr,?_,hc⟩
      intro hp
      exact hno (hr ▸ mem_append_left _ hp)

/-- What `parse` accepts is printed back unchanged. The resource is split at its earliest
separator exactly when no colon stands ahead of its first slash. -/
theorem arn_lossless_and_split (a : Arn) :
    (∀ s, Arn.parse s = .ok a → a.str = s) ∧ (a.SplitsAtFirst ↔ a.colonAhead = false) :=
  ⟨fun _ h => str_of_parse h,splitsAtFirst_iff a⟩

/-- The name of a log group starts with a slash, and its type comes out with the colon. -/
theorem colon_ahead_of_slash :
    ∃ a, Arn.parse "arn:aws:logs:us-east-1:1:log-group:/aws/fn".toList = .ok a ∧
      a.resource = "log-group:/aws/fn".toList ∧ a.resourceType = some "log-group:".toList ∧
      ¬ a.SplitsAtFirst := by
  refine ⟨⟨"aws".toList,"logs".toList,"us-east-1".toList,"1".toList,
    "log-group:/aws/fn".toList⟩,by decide +kernel,rfl,by decide +kernel,?_⟩
  rw [splitsAtFirst_iff]
  decide +kernel

end BackendGauntlet.CommonAws
