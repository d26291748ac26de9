import BackendGauntlet.PyText
import BackendGauntlet.Utf8

/-! Bucket and key names of the object store, checked where they enter. -/
namespace BackendGauntlet.ObjectStore

open PyText

inductive AppError
  | noSuchBucket
  | noSuchKey
  | noSuchUpload
  | bucketAlreadyExists
  | preconditionFailed
  | entityTooLarge
  | accessDenied
  | integrityError
  | invalidRequest (message : String)
deriving DecidableEq

/-- What an operation raises: an application error, or one of Python's or the
framework's own. -/
inductive OpError
  | app (e : AppError)
  | osError
  | validationError
  | clientDisconnect
deriving DecidableEq

def maxKeyLen : ℕ := 1024
def minBucketLen : ℕ := 3
def maxBucketLen : ℕ := 63

def isBucketChar (c : Char) : Bool :=
  (97 ≤ c.toNat && c.toNat ≤ 122) || (48 ≤ c.toNat && c.toNat ≤ 57) || c == '-'

def Bucket.validate (value : Text) : Except AppError Unit :=
  if ¬ (minBucketLen ≤ value.length ∧ value.length ≤ maxBucketLen) then
    .error (.invalidRequest "bucket name must be 3–63 characters")
  else if ¬ value.all isBucketChar then
    .error (.invalidRequest "bucket name may only contain lowercase letters, digits, and hyphens")
  else if value.head? = some '-' ∨ value.getLast? = some '-' then
    .error (.invalidRequest "bucket name may not start or end with a hyphen")
  else .ok ()

structure Bucket where
  text : Text
  valid : Bucket.validate text = .ok ()
deriving DecidableEq

def Key.validate (value : Text) : Except AppError Unit :=
  if value = [] then .error (.invalidRequest "object key must not be empty")
  -- The cap counts UTF-8 bytes, not characters.
  else if maxKeyLen < (Utf8.encode value).length then
    .error (.invalidRequest ("object key must be at most 1024 bytes, got " ++
      toString (Utf8.encode value).length))
  else .ok ()

structure Key where
  text : Text
  valid : Key.validate text = .ok ()
deriving DecidableEq

/-- What the checks of a bucket name come to. -/
theorem bucket_validate_ok_iff (value : Text) :
    Bucket.validate value = .ok () ↔
      (minBucketLen ≤ value.length ∧ value.length ≤ maxBucketLen) ∧
      (∀ c ∈ value, isBucketChar c = true) ∧
      value.head? ≠ some '-' ∧ value.getLast? ≠ some '-' := by
  unfold Bucket.validate
  by_cases h1 : minBucketLen ≤ value.length ∧ value.length ≤ maxBucketLen
  · by_cases h2 : value.all isBucketChar = true
    · by_cases h3 : value.head? = some '-' ∨ value.getLast? = some '-'
      · rw [if_neg (not_not.mpr h1), if_neg (not_not.mpr h2), if_pos h3]
        simp only [reduceCtorEq, false_iff]
        rintro ⟨_,_,hh,hl⟩
        exact h3.elim hh hl
      · rw [if_neg (not_not.mpr h1), if_neg (not_not.mpr h2), if_neg h3]
        simp only [true_iff]
        exact ⟨h1,List.all_eq_true.mp h2,not_or.mp h3⟩
    · rw [if_neg (not_not.mpr h1), if_pos h2]
      simp only [reduceCtorEq, false_iff]
      exact fun h => h2 (List.all_eq_true.mpr h.2.1)
  · rw [if_pos h1]
    simp only [reduceCtorEq, false_iff]
    exact fun h => h1 h.1

theorem bucket_chars (b : Bucket) (c : Char) (hc : c ∈ b.text) : isBucketChar c = true :=
  ((bucket_validate_ok_iff b.text).mp b.valid).2.1 c hc

theorem bucket_ne_nil (b : Bucket) : b.text ≠ [] := by
  have h := ((bucket_validate_ok_iff b.text).mp b.valid).1.1
  intro he
  rw [he] at h
  exact absurd h (by decide)

theorem bucket_plain (b : Bucket) : '/' ∉ b.text ∧ '\n' ∉ b.text ∧ '%' ∉ b.text ∧ '?' ∉ b.text := by
  have hne (x : Char) (hx : isBucketChar x = false) : x ∉ b.text := by
    intro h
    rw [bucket_chars b x h] at hx
    exact absurd hx (by decide)
  exact ⟨hne '/' (by decide),hne '\n' (by decide),hne '%' (by decide),hne '?' (by decide)⟩

theorem key_ne_nil (k : Key) : k.text ≠ [] := by
  intro h
  have hv := k.valid
  unfold Key.validate at hv
  rw [if_pos h] at hv
  cases hv

/-! A bucket and two keys for runs on fixed inputs. -/

def photosBucket : Bucket := ⟨"photos".toList,rfl⟩
def videosBucket : Bucket := ⟨"videos".toList,rfl⟩
def keyA : Key := ⟨"a".toList,rfl⟩
def keyB : Key := ⟨"b".toList,rfl⟩

end BackendGauntlet.ObjectStore
