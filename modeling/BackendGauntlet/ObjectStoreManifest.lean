import Mathlib.Algebra.GroupWithZero.Nat
import BackendGauntlet.ObjectStoreStore
import BackendGauntlet.Readers

/-! Chunk manifests, and the reader that puts a range of an object together. -/
namespace BackendGauntlet.ObjectStore

open Readers List

structure ChunkRef where
  digest : Digest
  size : ℕ
deriving DecidableEq

structure Manifest where
  version : ℤ
  chunks : List ChunkRef
deriving DecidableEq

structure ChunkSlice where
  digest : Digest
  offset : ℕ
  length : ℕ
deriving DecidableEq

def mapRangeFrom (start exclusiveEnd : ℕ) : ℕ → List ChunkRef → List ChunkSlice
  | _, [] => []
  | offset, chunk :: rest =>
    if exclusiveEnd ≤ offset then []
    else
      let finish := offset+chunk.size
      let sliceStart := max start offset
      let sliceEnd := min exclusiveEnd finish
      if finish ≤ start then mapRangeFrom start exclusiveEnd finish rest
      else if sliceStart < sliceEnd then
        ⟨chunk.digest,sliceStart-offset,sliceEnd-sliceStart⟩ ::
          mapRangeFrom start exclusiveEnd finish rest
      else mapRangeFrom start exclusiveEnd finish rest

def mapRange (m : Manifest) (start stop : ℕ) : List ChunkSlice :=
  mapRangeFrom start (stop+1) 0 m.chunks

def Manifest.logicalSize (m : Manifest) : ℕ := (m.chunks.map ChunkRef.size).sum

section
variable (plaintext : Digest → Bytes)

def ChunkSlice.bytes (c : ChunkSlice) : Bytes := slice (plaintext c.digest) c.offset c.length

def logicalBytes (chunks : List ChunkRef) : Bytes := chunks.flatMap (fun c => plaintext c.digest)

def openManifestRange (m : Manifest) (start stop : ℕ) :
    Except AppError (List (Window ℕ)) :=
  let parts := ((mapRange m start stop).filter (fun c => c.length ≠ 0)).map
    (fun c => ⟨(plaintext c.digest).drop c.offset,c.length⟩)
  if parts = [] ∧ stop < start then
    .error (.invalidRequest ("invalid range: start=" ++ toString start ++ " end=" ++ toString stop))
  else .ok parts

def manifestRangeReader : Reader (List (Window ℕ)) ℕ := concat (Window.reader ℕ)

theorem slice_chunk {content : Bytes} {start stop offset : ℕ}
    (hin : max start offset < min stop (offset+content.length)) :
    slice content (max start offset-offset)
        (min stop (offset+content.length)-max start offset) =
      (content.take (stop-offset)).drop (start-offset) := by
  rw [slice, drop_take, show max start offset-offset = start-offset by omega]
  -- past the end of the chunk the two lengths select the same bytes
  apply take_eq_take_iff.mpr
  rw [length_drop]
  omega

theorem mapRangeFrom_bytes (start stop offset : ℕ) {chunks : List ChunkRef}
    (hsizes : ∀ c ∈ chunks, (plaintext c.digest).length = c.size) :
    (mapRangeFrom start stop offset chunks).flatMap (ChunkSlice.bytes plaintext) =
      ((logicalBytes plaintext chunks).take (stop-offset)).drop (start-offset) := by
  induction chunks generalizing offset with
  | nil => simp [mapRangeFrom, logicalBytes]
  | cons chunk chunks ih =>
    have hsize := hsizes chunk mem_cons_self
    have hrest := ih (offset+chunk.size) (fun c hc => hsizes c (mem_cons_of_mem chunk hc))
    have hcons : logicalBytes plaintext (chunk :: chunks) =
        plaintext chunk.digest ++ logicalBytes plaintext chunks := flatMap_cons
    have htake : ((plaintext chunk.digest).take (stop-offset)).length =
        min (stop-offset) chunk.size := by rw [length_take, hsize]
    have hstop : stop-offset-chunk.size = stop-(offset+chunk.size) := by omega
    rw [hcons, take_append, drop_append, htake, hsize, hstop]
    simp only [mapRangeFrom]
    by_cases hdone : stop ≤ offset
    · rw [if_pos hdone, Nat.sub_eq_zero_of_le hdone,
        Nat.sub_eq_zero_of_le (show stop ≤ offset+chunk.size by omega)]
      simp
    · rw [if_neg hdone]
      have hstart : start-(offset+chunk.size) = start-offset -
          min (stop-offset) chunk.size ∨ stop ≤ start := by omega
      -- a chunk without a slice adds nothing to the range either
      have hskip
          (hnil : ((plaintext chunk.digest).take (stop-offset)).drop (start-offset) = []) :
          (mapRangeFrom start stop (offset+chunk.size) chunks).flatMap
              (ChunkSlice.bytes plaintext) =
            ((plaintext chunk.digest).take (stop-offset)).drop (start-offset) ++
              ((logicalBytes plaintext chunks).take (stop-(offset+chunk.size))).drop
                (start-offset-min (stop-offset) chunk.size) := by
        rw [hrest, hnil, nil_append]
        rcases hstart with hstart | hempty
        · rw [hstart]
        · rw [drop_eq_nil_of_le (by rw [length_take]; omega),
            drop_eq_nil_of_le (by rw [length_take]; omega)]
      by_cases hbefore : offset+chunk.size ≤ start
      · rw [if_pos hbefore]
        exact hskip (drop_eq_nil_of_le (by rw [htake]; omega))
      · rw [if_neg hbefore]
        by_cases hslice : max start offset < min stop (offset+chunk.size)
        · rw [if_pos hslice, flatMap_cons, hrest]
          have hchunk := slice_chunk (by rw [hsize]; exact hslice)
          rw [hsize] at hchunk
          rw [ChunkSlice.bytes, hchunk, hstart.resolve_right (by omega)]
        · rw [if_neg hslice]
          exact hskip (drop_eq_nil_of_le (by rw [htake]; omega))

end

theorem mapRangeFrom_inside (start stop offset : ℕ) (chunks : List ChunkRef) :
    ∀ c ∈ mapRangeFrom start stop offset chunks,
      0 < c.length ∧ ∃ chunk ∈ chunks, c.digest = chunk.digest ∧
        c.offset+c.length ≤ chunk.size := by
  induction chunks generalizing offset with
  | nil => simp [mapRangeFrom]
  | cons chunk chunks ih =>
    intro c hc
    have htail (hc : c ∈ mapRangeFrom start stop (offset+chunk.size) chunks) :
        0 < c.length ∧ ∃ chunk' ∈ chunk :: chunks, c.digest = chunk'.digest ∧
          c.offset+c.length ≤ chunk'.size := by
      obtain ⟨hpos,chunk',hmem,hin⟩ := ih (offset+chunk.size) c hc
      exact ⟨hpos,chunk',mem_cons_of_mem chunk hmem,hin⟩
    simp only [mapRangeFrom] at hc
    split_ifs at hc with hdone hbefore hslice
    · cases hc
    · exact htail hc
    · rcases mem_cons.mp hc with rfl | hc
      · refine ⟨Nat.sub_pos_of_lt hslice,chunk,mem_cons_self,rfl,?_⟩
        simp only
        omega
      · exact htail hc
    · exact htail hc

section
variable (fromBytes : Bytes → Option Manifest)

/-- The blob is opened through the store alone, then validated. -/
def loadManifest (s : StoreState) (d : Digest) : Except OpError Manifest :=
  match s.openBlob d with
  | .error e => .error (.app e)
  | .ok raw =>
    match fromBytes raw with
    | none => .error .validationError
    | some m => .ok m

def chunkDigests (s : StoreState) (d : Digest) : Except OpError (List Digest) :=
  (loadManifest fromBytes s d).map (fun m => m.chunks.map ChunkRef.digest)

theorem loadManifest_ok_iff (s : StoreState) (d : Digest) (m : Manifest) :
    loadManifest fromBytes s d = .ok m ↔
      ∃ raw, s.openBlob d = .ok raw ∧ fromBytes raw = some m := by
  unfold loadManifest
  cases h : s.openBlob d with
  | error e => simp
  | ok raw =>
    cases hm : fromBytes raw with
    | none => simp [hm]
    | some m' => simp [hm]

end

def abcGzip : Bytes :=
  [31, 139, 8, 0, 0, 0, 0, 0, 0, 3, 75, 76, 74, 6, 0, 194, 65, 36, 53, 3, 0, 0, 0]

def abcCodec : Codec where
  compress b := if b = [97, 98, 99] then abcGzip else 0 :: b
  decompress z :=
    if z = abcGzip then some [97, 98, 99]
    else match z with
      | 0 :: b => some b
      | _ => none
  lossless := by
    intro b
    by_cases hb : b = [97, 98, 99]
    · simp [hb]
    · simp [hb, abcGzip]

def abcManifestDigest : Digest :=
  ⟨"c4fe42310321676366c6da9fe4889408bb08c1c0328eb99a11d8d0159a5c3f6d".toList,by decide⟩

def abcManifestBytes : Bytes :=
  ("\x7b\x22version\x22:1,\x22chunks\x22:[\x7b\x22digest\x22:" ++
    "\x22ba7816bf8f01cfea414140de5dae2223b00361a396177a9cb410ff61f20015ad\x22," ++
    "\x22size\x22:3\x7d]\x7d").toList.map Char.toNat

def abcFromBytes (raw : Bytes) : Option Manifest :=
  if raw = abcManifestBytes then some ⟨1,[⟨abcDigest,3⟩]⟩ else none

def abcStore : StoreState where
  hot := (Dict.empty.set abcDigest ⟨[97, 98, 99],0⟩).set abcManifestDigest ⟨abcManifestBytes,0⟩
  needles := Dict.empty
  locations := (Dict.empty.set abcDigest .fileCas).set abcManifestDigest .fileCas
  quarantined := []
  cold := Dict.empty

def abcPayload (d : Digest) : Bytes :=
  if d = abcManifestDigest then abcManifestBytes else [97, 98, 99]

theorem abcStore_contentAddressed : ContentAddressed abcCodec abcPayload abcStore where
  hot := by
    intro d f h
    simp only [abcStore, Dict.get_set, Dict.get_empty] at h
    unfold abcPayload
    split_ifs at h ⊢ with h1 h2
    · rw [← Option.some.inj h]
    · rw [← Option.some.inj h]
  needles := fun d n h => absurd h (by simp [abcStore])
  cold := fun d z h => absurd h (by simp [abcStore])

/-- A range is put together from nonempty slices that stay in their chunks, and its reader hands out
the same bytes. -/
theorem manifest_range_exact (plaintext : Digest → Bytes) (m : Manifest)
    (hsizes : ∀ c ∈ m.chunks, (plaintext c.digest).length = c.size) (start stop : ℕ)
    (hle : start ≤ stop) (hlt : stop < m.logicalSize) :
    let bytes := slice (logicalBytes plaintext m.chunks) start (stop+1-start)
    bytes.length = stop+1-start ∧
      (mapRange m start stop).flatMap (ChunkSlice.bytes plaintext) = bytes ∧
      (∀ c ∈ mapRange m start stop, 0 < c.length ∧
        ∃ chunk ∈ m.chunks, c.digest = chunk.digest ∧ c.offset+c.length ≤ chunk.size) ∧
      ∃ parts, openManifestRange plaintext m start stop = .ok parts ∧
        ∀ sizes : List ℤ, (∀ n ∈ sizes, 0 < n) →
          (bytes.length ≤ sizes.length → (reads manifestRangeReader parts sizes).1 = bytes) ∧
          ∀ n, 0 < n →
            ((manifestRangeReader.read (reads manifestRangeReader parts sizes).2 n).1 = [] ↔
              (reads manifestRangeReader parts sizes).1 = bytes) := by
  intro bytes
  have hlogical : (logicalBytes plaintext m.chunks).length = m.logicalSize := by
    rw [logicalBytes, length_flatMap, Manifest.logicalSize]
    exact congrArg sum (map_congr_left hsizes)
  have hbytes : (mapRange m start stop).flatMap (ChunkSlice.bytes plaintext) = bytes := by
    rw [mapRange, mapRangeFrom_bytes plaintext start (stop+1) 0 hsizes]
    simp [bytes, slice, drop_take]
  have hinside := mapRangeFrom_inside start (stop+1) 0 m.chunks
  refine ⟨?_,hbytes,hinside,?_⟩
  · simp only [bytes, slice, length_take, length_drop, hlogical]
    omega
  · -- no slice is dropped for its length, so the parts hold the bytes of all slices
    have hfilter : (mapRange m start stop).filter (fun c => c.length ≠ 0) =
        mapRange m start stop := by
      apply filter_eq_self.mpr
      intro c hc
      have hpos := (hinside c hc).1
      exact decide_eq_true (by omega)
    refine ⟨_,by rw [openManifestRange, if_neg (fun h => absurd h.2 (by omega)), hfilter],?_⟩
    intro sizes hpos
    have hne : ∀ n ∈ sizes, n ≠ 0 := fun n hn => by
      have := hpos n hn
      omega
    have hleft : manifestRangeReader.left ((mapRange m start stop).map
        (fun c => (⟨(plaintext c.digest).drop c.offset,c.length⟩ : Window ℕ))) = bytes := by
      rw [← hbytes]
      exact flatMap_map _ _ _
    constructor
    · intro hlen
      rw [reads_all _ _ sizes hne (by rw [hleft]; exact hlen), hleft]
    · intro n hn
      rw [read_eq_nil_iff _ _ sizes hne (by omega), hleft]

/-- From the last byte of a chunk over an empty one to the first byte of the next. -/
theorem manifest_range_abc :
    let plaintext := fun d => if d = abcDigest then [97, 98, 99] else []
    let m : Manifest := ⟨1,[⟨abcDigest,3⟩, ⟨abcManifestDigest,0⟩, ⟨abcDigest,3⟩]⟩
    (mapRange m 2 3).flatMap (ChunkSlice.bytes plaintext) = [99, 97] ∧
      ∃ parts, openManifestRange plaintext m 2 3 = .ok parts ∧
        (reads manifestRangeReader parts [5, 5]).1 = [99, 97] := by
  intro plaintext m
  have hsizes : ∀ c ∈ m.chunks, (plaintext c.digest).length = c.size := by decide +kernel
  obtain ⟨_,hbytes,_,parts,hparts,hreads⟩ := manifest_range_exact plaintext m hsizes 2 3
    (by decide) (by decide +kernel)
  have hlogical : slice (logicalBytes plaintext m.chunks) 2 (3+1-2) = [99, 97] := by
    decide +kernel
  rw [hlogical] at hbytes hreads
  exact ⟨hbytes,parts,hparts,(hreads [5, 5] (by decide)).1 (by decide)⟩

end BackendGauntlet.ObjectStore
