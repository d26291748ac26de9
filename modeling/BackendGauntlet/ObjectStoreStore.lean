import BackendGauntlet.Dict
import BackendGauntlet.ObjectStoreObjects

/-! Committed blobs at rest, and the locator map and read gate that route to them. -/
namespace BackendGauntlet.ObjectStore

inductive BlobLocation
  | fileCas
  | haystack
deriving DecidableEq

inductive Encoding
  | raw
  | zstd
deriving DecidableEq

structure HotFile where
  content : Bytes
  mtime : ℤ
deriving DecidableEq

structure Needle where
  content : Bytes
  deleted : Bool
  quarantined : Bool
deriving DecidableEq

structure StoreState where
  hot : Dict Digest HotFile
  needles : Dict Digest Needle
  locations : Dict Digest BlobLocation
  quarantined : List Digest
  cold : Dict Digest Bytes

/-- The compressor of the cold tier; what it writes it reads back. -/
structure Codec where
  compress : Bytes → Bytes
  decompress : Bytes → Option Bytes
  lossless : ∀ b, decompress (compress b) = some b

namespace StoreState

def contains (s : StoreState) (d : Digest) : Bool := s.locations.contains d

def rangeError (start stop length : ℕ) (what : String) : AppError :=
  .invalidRequest ("invalid range: start=" ++ toString start ++ " end=" ++ toString stop ++
    " " ++ what ++ "=" ++ toString length)

def requireReadable (s : StoreState) (d : Digest) : Except AppError Bytes :=
  match s.needles.get d with
  | none => .error .noSuchKey
  | some n =>
    if n.deleted then .error .noSuchKey
    else if n.quarantined then .error .integrityError
    else .ok n.content

def openBlob (s : StoreState) (d : Digest) : Except AppError Bytes :=
  if d ∈ s.quarantined then .error .integrityError
  else
    match s.locations.get d with
    | none => .error .noSuchKey
    | some .haystack => do
      let content ← s.requireReadable d
      -- An empty needle is opened on the range `[0, -1]`, which is refused.
      if content = [] then .error (.invalidRequest "invalid range: start=0 end=-1 needle_size=0")
      else .ok content
    | some .fileCas =>
      match s.hot.get d with
      | none => .error .noSuchKey
      | some f => .ok f.content

def openBlobRange (s : StoreState) (d : Digest) (start stop : ℕ) : Except AppError Bytes :=
  if d ∈ s.quarantined then .error .integrityError
  else
    match s.locations.get d with
    | none => .error .noSuchKey
    | some .haystack => do
      let content ← s.requireReadable d
      if stop < start ∨ content.length ≤ stop then
        .error (rangeError start stop content.length "needle_size")
      else .ok (slice content start (stop+1-start))
    | some .fileCas =>
      match s.hot.get d with
      | none => .error .noSuchKey
      | some f =>
        if stop < start ∨ f.content.length ≤ stop then
          .error (rangeError start stop f.content.length "file_len")
        else .ok (slice f.content start (stop+1-start))

def remove (s : StoreState) (d : Digest) : StoreState :=
  match s.locations.get d with
  | none => s
  | some .fileCas => { s with locations := s.locations.erase d, hot := s.hot.erase d }
  | some .haystack =>
    { s with
      locations := s.locations.erase d
      needles := s.needles.modify d (fun n => { n with deleted := true }) }

/-- Packed and hot bytes are raw, then the cold path is probed. -/
def locate (s : StoreState) (d : Digest) : Except AppError Encoding :=
  if s.locations.get d = some .haystack then .ok .raw
  else if s.hot.contains d then .ok .raw
  else if s.cold.contains d then .ok .zstd
  else .error .noSuchKey

end StoreState

structure BlobView where
  hot : Option HotFile
  needle : Option Needle
  location : Option BlobLocation
  cold : Option Bytes
deriving DecidableEq

def StoreState.view (s : StoreState) (d : Digest) : BlobView :=
  ⟨s.hot.get d,s.needles.get d,s.locations.get d,s.cold.get d⟩

structure ContentAddressed (codec : Codec) (payload : Digest → Bytes) (s : StoreState) : Prop where
  hot : ∀ d f, s.hot.get d = some f → f.content = payload d
  needles : ∀ d n, s.needles.get d = some n → n.content = payload d
  cold : ∀ d z, s.cold.get d = some z → codec.decompress z = some (payload d)

def BlobView.remove (v : BlobView) : BlobView :=
  match v.location with
  | none => v
  | some .fileCas => { v with location := none, hot := none }
  | some .haystack =>
    { v with location := none, needle := v.needle.map (fun n => { n with deleted := true }) }

theorem view_remove (s : StoreState) (d x : Digest) :
    (s.remove d).view x = if x = d then (s.view d).remove else s.view x := by
  by_cases hx : x = d
  · subst hx
    simp only [if_true, StoreState.remove, BlobView.remove, StoreState.view]
    cases h : s.locations.get x with
    | none => simp [h]
    | some l =>
      cases l with
      | fileCas => simp [Dict.get_erase]
      | haystack => simp [Dict.get_erase, Dict.get_modify]
  · simp only [hx, if_false, StoreState.remove]
    cases h : s.locations.get d with
    | none => rfl
    | some l =>
      cases l with
      | fileCas => simp [StoreState.view, Dict.get_erase, hx]
      | haystack => simp [StoreState.view, Dict.get_erase, Dict.get_modify, hx]

theorem quarantined_remove (s : StoreState) (d : Digest) :
    (s.remove d).quarantined = s.quarantined := by
  unfold StoreState.remove
  split <;> rfl

section
variable (s t : StoreState) (d : Digest)

/-- A read depends on the blob and the quarantine alone. -/
theorem openBlob_congr (hv : s.view d = t.view d) (hq : s.quarantined = t.quarantined) :
    s.openBlob d = t.openBlob d := by
  simp only [StoreState.view, BlobView.mk.injEq] at hv
  obtain ⟨h1,h2,h3,_⟩ := hv
  simp only [StoreState.openBlob, StoreState.requireReadable, h1, h2, h3, hq]

theorem openBlobRange_congr (hv : s.view d = t.view d) (hq : s.quarantined = t.quarantined)
    (start stop : ℕ) : s.openBlobRange d start stop = t.openBlobRange d start stop := by
  simp only [StoreState.view, BlobView.mk.injEq] at hv
  obtain ⟨h1,h2,h3,_⟩ := hv
  simp only [StoreState.openBlobRange, StoreState.requireReadable, h1, h2, h3, hq]

theorem locate_congr (hv : s.view d = t.view d) : s.locate d = t.locate d := by
  simp only [StoreState.view, BlobView.mk.injEq] at hv
  obtain ⟨h1,_,h3,h4⟩ := hv
  unfold StoreState.locate Dict.contains
  rw [h1, h3, h4]

end

end BackendGauntlet.ObjectStore
