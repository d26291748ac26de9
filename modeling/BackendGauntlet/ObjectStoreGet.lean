import BackendGauntlet.ObjectStoreCdc
import BackendGauntlet.ObjectStoreLifecycle

/-! The GET handler over every way a body can be stored. -/
namespace BackendGauntlet.ObjectStore

open PyText List

def parseRange (raw : Text) : Except AppError (ℤ × ℤ) :=
  match cut '=' raw with
  | none => .error (.invalidRequest "Range header must be '<unit>=<start>-<end>'")
  | some (unit,bounds) =>
    if strip unit ≠ "bytes".toList then .error (.invalidRequest "Range unit must be 'bytes'")
    else
      match cut '-' bounds with
      | none => .error (.invalidRequest "Range bounds must be '<start>-<end>'")
      | some (rawStart,rawEnd) =>
        match parseInt rawStart, parseInt rawEnd with
        | some start, some stop => .ok (start,stop)
        | _, _ => .error (.invalidRequest "Range bounds must be non-negative integers")

def requestedRange (size : ℕ) (range : Option Text) : Except AppError (ℤ × ℤ) :=
  match range with
  | none => .ok (0,max ((size : ℤ)-1) 0)
  | some raw => parseRange raw

def rangeBounds (size : ℕ) (range : Option Text) : Except AppError (ℤ × ℤ) :=
  match requestedRange size range with
  | .error e => .error e
  | .ok (start,stop) =>
    if stop < start then
      .error (.invalidRequest ("invalid range: start=" ++ toString start ++ " end=" ++
        toString stop))
    else if size = 0 then .ok (0,-1)
    else .ok (start,stop)

def notModified (ifNoneMatch : Option Text) (etag : Text) : Bool :=
  match ifNoneMatch with
  | none => false
  | some header => strip header ∈ [etag, '"' :: etag ++ ['"'], ['*']]

structure GetResponse where
  status : ℕ
  etag : Option Text
  contentLength : Option ℤ
  lastModified : Option ℤ
  acceptRanges : Option Text
  contentRange : Option Text
  contentType : Option Text
  body : Bytes
deriving DecidableEq

def contentRangeText (start stop : ℤ) (size : ℕ) : Text :=
  "bytes ".toList ++ intText start ++ '-' :: intText stop ++ '/' :: intText size

def streamAnswer (range : Option Text) (etag contentType : Text) (lastModified : ℤ) (size : ℕ)
    (start stop : ℤ) (body : Bytes) : GetResponse where
  status := if range.isSome then 206 else 200
  etag := some etag
  contentLength := some (stop-start+1)
  lastModified := some lastModified
  acceptRanges := some "bytes".toList
  contentRange := range.map (fun _ => contentRangeText start stop size)
  contentType := some contentType
  body := body

section
variable (codec : Codec) (fromBytes : Bytes → Option Manifest)

def getObject (s : StoreState) (ifNoneMatch range : Option Text) (r : ResolvedObject) :
    Except OpError GetResponse :=
  if notModified ifNoneMatch r.live.etag then .ok ⟨304,none,none,none,none,none,none,[]⟩
  else
    match rangeBounds r.live.size range with
    | .error e => .error (.app e)
    | .ok (start,stop) =>
      (openReader codec fromBytes s r.live start.toNat stop.toNat).map
        (streamAnswer range r.live.etag r.live.contentType r.lastModified r.live.size start stop)

end

/-- What a GET means: the answer from the body alone, however it is stored. -/
def bodyAnswer (ifNoneMatch range : Option Text) (etag contentType : Text) (lastModified : ℤ)
    (body : Bytes) : Except OpError GetResponse :=
  if notModified ifNoneMatch etag then .ok ⟨304,none,none,none,none,none,none,[]⟩
  else
    match rangeBounds body.length range with
    | .error e => .error (.app e)
    | .ok (start,stop) =>
      .ok (streamAnswer range etag contentType lastModified body.length start stop
        (slice body start.toNat (stop+1-start).toNat))

def OpError.kind : OpError → OpError
  | .app (.invalidRequest _) => .app (.invalidRequest "")
  | e => e

/-- All outcomes are the same error class or the same answer, and an answer announces
as many bytes as it sends. -/
def Indistinguishable (outcomes : List (Except OpError GetResponse)) : Prop :=
  (∀ a ∈ outcomes, ∀ b ∈ outcomes, a.mapError OpError.kind = b.mapError OpError.kind) ∧
  ∀ a ∈ outcomes, ∀ answer, a = .ok answer →
    ∀ n, answer.contentLength = some n → n = (answer.body.length : ℤ)

def RangeFits (size : ℕ) (range : Option Text) : Prop :=
  ∀ start stop, requestedRange size range = .ok (start,stop) → stop < start ∨ size = 0 ∨ stop < size

theorem parseInt_nonneg {s : Text} (hs : '-' ∉ s) {n : ℤ} (h : parseInt s = some n) : 0 ≤ n := by
  have himage : ∀ c, asciiImage c = '-' → c = '-' := by
    intro c hc
    unfold asciiImage at hc
    split_ifs at hc with h1 h2
    · exact hc
    · exact absurd hc (by decide)
    · split at hc
      · next z hz =>
        have hlt := find?_some hz
        simp only [Bool.and_eq_true, decide_eq_true_eq] at hlt
        have hd : ∀ k < 10, Nat.digitChar k ≠ '-' := by decide
        exact absurd hc (hd _ (by omega))
      · exact absurd hc (by decide)
  have hnat : ∀ u, (readNat u).map (fun k : ℕ => (k : ℤ)) = some n → 0 ≤ n := by
    intro u hu
    obtain ⟨k,_,hk⟩ := Option.map_eq_some_iff.mp hu
    omega
  simp only [parseInt] at h
  split at h
  · next u hu =>
    -- the sign would have to come from the text
    have hmem : '-' ∈
        (((s.map asciiImage).dropWhile isBlank).reverse.dropWhile isBlank).reverse := by
      rw [hu]
      exact mem_cons_self
    have hmem := (dropWhile_suffix _).subset (mem_reverse.mp hmem)
    have hmem := (dropWhile_suffix _).subset (mem_reverse.mp hmem)
    obtain ⟨c,hc,hci⟩ := List.mem_map.mp hmem
    exact absurd (himage c hci ▸ hc) hs
  · exact hnat _ h
  · exact hnat _ h

variable {ifNoneMatch range : Option Text}

theorem requestedRange_nonneg {size : ℕ} {start stop : ℤ}
    (h : requestedRange size range = .ok (start,stop)) : 0 ≤ start := by
  cases range with
  | none =>
    have hb : 0 = start ∧ max ((size : ℤ)-1) 0 = stop := by simpa [requestedRange] using h
    omega
  | some raw =>
    simp only [requestedRange, parseRange] at h
    split at h
    · cases h
    · split_ifs at h
      split at h
      · cases h
      · next rawStart rawEnd hcut =>
        split at h
        · next a b ha hb =>
          have hab : a = start ∧ b = stop := by simpa using h
          have hplain := ((cut_eq_some_iff _ _ _ _).mp hcut).2
          rw [← hab.1]
          exact parseInt_nonneg hplain ha
        · cases h

theorem rangeBounds_ok {size : ℕ} {start stop : ℤ}
    (h : rangeBounds size range = .ok (start,stop)) :
    (size = 0 ∧ start = 0 ∧ stop = -1) ∨
      (size ≠ 0 ∧ 0 ≤ start ∧ start ≤ stop ∧ requestedRange size range = .ok (start,stop)) := by
  unfold rangeBounds at h
  cases hr : requestedRange size range with
  | error e =>
    rw [hr] at h
    cases h
  | ok bounds =>
    obtain ⟨a,b⟩ := bounds
    have hpos := requestedRange_nonneg hr
    simp only [hr] at h
    split_ifs at h with h1 h2
    · have hb : 0 = start ∧ -1 = stop := by simpa using h
      exact Or.inl ⟨h2,hb.1.symm,hb.2.symm⟩
    · have hb : a = start ∧ b = stop := by simpa using h
      refine Or.inr ⟨h2,by omega,by omega,?_⟩
      rw [hb.1, hb.2]

structure HeldHot (s : StoreState) (d : Digest) (content : Bytes) : Prop where
  readable : d ∉ s.quarantined
  routed : s.locations.get d = some .fileCas
  file : ∃ mtime, s.hot.get d = some ⟨content,mtime⟩

structure HeldPacked (s : StoreState) (d : Digest) (content : Bytes) : Prop where
  readable : d ∉ s.quarantined
  routed : s.locations.get d = some .haystack
  needle : s.needles.get d = some ⟨content,false,false⟩

structure HeldCold (codec : Codec) (s : StoreState) (d : Digest) (content : Bytes) : Prop where
  unrouted : s.locations.get d = none
  dropped : s.hot.get d = none
  file : ∃ z, s.cold.get d = some z ∧ codec.decompress z = some content

def HeldAnywhere (codec : Codec) (s : StoreState) (d : Digest) (content : Bytes) : Prop :=
  HeldHot s d content ∨ HeldPacked s d content ∨ HeldCold codec s d content

section
variable (codec : Codec) (s : StoreState)

theorem openBlobRange_held (d : Digest) (content : Bytes)
    (h : HeldHot s d content ∨ HeldPacked s d content) (start stop : ℕ) (hle : start ≤ stop) :
    s.locate d = .ok .raw ∧ ∃ what, s.openBlobRange d start stop =
      if stop < content.length then .ok (slice content start (stop+1-start))
      else .error (StoreState.rangeError start stop content.length what) := by
  have hswap : (stop < start ∨ content.length ≤ stop) ↔ ¬ stop < content.length := by omega
  rcases h with h | h
  · obtain ⟨mtime,hfile⟩ := h.file
    refine ⟨by simp [StoreState.locate, h.routed, Dict.contains, hfile],"file_len",?_⟩
    simp only [StoreState.openBlobRange, h.readable, if_false, h.routed, hfile, hswap, ite_not]
  · refine ⟨by simp [StoreState.locate, h.routed],"needle_size",?_⟩
    simp only [StoreState.openBlobRange, h.readable, if_false, h.routed,
      StoreState.requireReadable, h.needle, Bool.false_eq_true, bind, Except.bind, hswap, ite_not]

theorem coldRange_held {d : Digest} {content : Bytes} (h : HeldCold codec s d content)
    (start length : ℕ) :
    s.locate d = .ok .zstd ∧
      coldRange codec s d start length = .ok (slice content start length) := by
  obtain ⟨z,hz,hdecode⟩ := h.file
  constructor
  · simp [StoreState.locate, h.unrouted, Dict.contains, h.dropped, hz]
  · simp only [coldRange, hz, hdecode]

theorem openChunkSlice_held (c : ChunkSlice) (content : Bytes)
    (h : HeldAnywhere codec s c.digest content)
    (hpos : 0 < c.length) (hin : c.offset+c.length ≤ content.length) :
    openChunkSlice codec s c = .ok (slice content c.offset c.length) := by
  unfold openChunkSlice
  have hlen : c.offset+c.length-1+1-c.offset = c.length := by omega
  rw [HeldAnywhere, ← or_assoc] at h
  rcases h with h | h
  · obtain ⟨hraw,what,hopen⟩ := openBlobRange_held s c.digest content h c.offset
      (c.offset+c.length-1) (by omega)
    simp only [hraw, hopen, if_pos (show c.offset+c.length-1 < content.length by omega), hlen,
      Except.mapError]
  · obtain ⟨hzstd,hcold⟩ := coldRange_held codec s h c.offset c.length
    simp only [hzstd, hcold]

variable (digestOf : Bytes → Digest)

theorem openSlices_held {start stop : ℕ} (hlt : start < stop) {chunks : List Bytes}
    (hchunks : ∀ chunk ∈ chunks, chunk ≠ [] ∧ HeldAnywhere codec s (digestOf chunk) chunk)
    (offset : ℕ) :
    openSlices codec s (mapRangeFrom start stop offset (manifestOf digestOf chunks).chunks) =
      .ok ((chunks.flatten.take (stop-offset)).drop (start-offset)) := by
  induction chunks generalizing offset with
  | nil => simp [manifestOf, mapRangeFrom, openSlices]
  | cons chunk chunks ih =>
    obtain ⟨hne,hheld⟩ := hchunks chunk mem_cons_self
    have hlen := length_pos_of_ne_nil hne
    have hrest := ih (fun x hx => hchunks x (mem_cons_of_mem chunk hx)) (offset+chunk.length)
    simp only [manifestOf, map_cons, mapRangeFrom, flatten_cons] at hrest ⊢
    by_cases hdone : stop ≤ offset
    · rw [if_pos hdone, Nat.sub_eq_zero_of_le hdone]
      simp [openSlices]
    · rw [if_neg hdone, take_append, drop_append]
      have htake : (chunk.take (stop-offset)).length = min (stop-offset) chunk.length :=
        length_take
      have hs : stop-offset-chunk.length = stop-(offset+chunk.length) := by omega
      by_cases hbefore : offset+chunk.length ≤ start
      · -- the chunk ends before the range begins
        rw [if_pos hbefore, hrest, hs]
        have hnil : (chunk.take (stop-offset)).drop (start-offset) = [] := by
          rw [drop_eq_nil_iff, htake]
          omega
        rw [hnil, nil_append, htake,
          show start-offset-min (stop-offset) chunk.length =
            start-(offset+chunk.length) by omega]
      · have hslice : max start offset < min stop (offset+chunk.length) := by omega
        rw [if_neg hbefore, if_pos hslice]
        have hread := openChunkSlice_held codec s ⟨digestOf chunk,max start offset-offset,
            min stop (offset+chunk.length)-max start offset⟩ chunk hheld
          (by simp only; omega) (by simp only; omega)
        simp only [openSlices, hread, hrest, Except.map,
          if_neg (show ¬ min stop (offset+chunk.length)-max start offset = 0 by omega)]
        rw [slice_chunk hslice, hs, htake,
          show start-offset-min (stop-offset) chunk.length =
            start-(offset+chunk.length) by omega]

variable (fromBytes : Bytes → Option Manifest)

theorem openReader_wholeHeld {v : LiveVersion} (hk : v.blobKind = .whole) (content : Bytes)
    (hsize : v.size = content.length) (hne : content ≠ [])
    (h : HeldAnywhere codec s v.digest content)
    (start stop : ℕ) (hle : start ≤ stop) :
    ∃ what, openReader codec fromBytes s v start stop =
      if stop < content.length then .ok (slice content start (stop+1-start))
      else .error (.app (StoreState.rangeError start stop content.length what)) := by
  have hlen := length_pos_of_ne_nil hne
  simp only [openReader, hk, hsize, if_neg (show ¬ content.length = 0 by omega)]
  rw [HeldAnywhere, ← or_assoc] at h
  rcases h with h | h
  · obtain ⟨hraw,what,hopen⟩ := openBlobRange_held s v.digest content h start stop hle
    refine ⟨what,?_⟩
    simp only [hraw, hopen]
    split_ifs <;> rfl
  · obtain ⟨hzstd,hcold⟩ := coldRange_held codec s h start (stop+1-start)
    refine ⟨"size",?_⟩
    simp only [hzstd, hcold, ← Nat.not_lt, ite_not]

theorem openReader_chunkedHeld {v : LiveVersion} (hk : v.blobKind = .manifest)
    (chunks : List Bytes) (hsize : v.size = chunks.flatten.length) (hne : chunks.flatten ≠ [])
    (hload : loadManifest fromBytes s v.digest = .ok (manifestOf digestOf chunks))
    (hchunks : ∀ chunk ∈ chunks, chunk ≠ [] ∧ HeldAnywhere codec s (digestOf chunk) chunk)
    (start stop : ℕ) (hle : start ≤ stop) :
    openReader codec fromBytes s v start stop =
      .ok (slice chunks.flatten start (stop+1-start)) := by
  have hlen := length_pos_of_ne_nil hne
  simp only [openReader, hk, hsize, if_neg (show ¬ chunks.flatten.length = 0 by omega), hload,
    mapRange]
  rw [openSlices_held codec s digestOf (by omega) hchunks 0, slice, drop_take]
  rfl

theorem loadManifest_held {m : Digest} {raw : Bytes} {manifest : Manifest}
    (h : HeldHot s m raw ∨ HeldPacked s m raw) (hne : raw ≠ [])
    (hparse : fromBytes raw = some manifest) :
    loadManifest fromBytes s m = .ok manifest := by
  apply (loadManifest_ok_iff fromBytes s m manifest).mpr
  refine ⟨raw,?_,hparse⟩
  rcases h with h | h
  · obtain ⟨mtime,hfile⟩ := h.file
    simp only [StoreState.openBlob, h.readable, if_false, h.routed, hfile]
  · simp only [StoreState.openBlob, h.readable, if_false, h.routed, StoreState.requireReadable,
      h.needle, Bool.false_eq_true, bind, Except.bind, hne]

end

theorem indistinguishable_of_eq {outcomes : List (Except OpError GetResponse)}
    {outcome : Except OpError GetResponse} (hall : ∀ a ∈ outcomes, a = outcome)
    (hlength : ∀ answer, outcome = .ok answer →
      ∀ n, answer.contentLength = some n → n = (answer.body.length : ℤ)) :
    Indistinguishable outcomes := by
  constructor
  · intro a ha b hb
    rw [hall a ha, hall b hb]
  · intro a ha answer hok
    exact hlength answer (by rw [← hall a ha, hok])

section
variable (codec : Codec) (fromBytes : Bytes → Option Manifest) (toBytes : Manifest → Bytes)
  (gear : ℕ → ℕ) (digestOf : Bytes → Digest)

theorem length_slice {content : Bytes} {start length : ℕ} (h : start+length ≤ content.length) :
    (slice content start length).length = length := by
  rw [slice, length_take, length_drop]
  omega

theorem bodyAnswer_length (etag contentType : Text)
    (lastModified : ℤ) (body : Bytes)
    (hfits : notModified ifNoneMatch etag = true ∨ RangeFits body.length range)
    (answer : GetResponse)
    (h : bodyAnswer ifNoneMatch range etag contentType lastModified body = .ok answer) (n : ℤ)
    (hn : answer.contentLength = some n) : n = (answer.body.length : ℤ) := by
  unfold bodyAnswer at h
  by_cases hnm : notModified ifNoneMatch etag = true
  · rw [if_pos hnm] at h
    rw [← Except.ok.inj h] at hn
    cases hn
  · rw [if_neg hnm] at h
    cases hb : rangeBounds body.length range with
    | error e =>
      rw [hb] at h
      cases h
    | ok bounds =>
      obtain ⟨start,stop⟩ := bounds
      rw [hb] at h
      rw [← Except.ok.inj h] at hn ⊢
      have hn' : stop-start+1 = n := Option.some.inj hn
      simp only [streamAnswer]
      rcases rangeBounds_ok hb with ⟨h0,hs,ht⟩ | ⟨hne,hpos,hle,hreq⟩
      · rw [length_slice (by omega)]
        omega
      · have hrange := (hfits.resolve_left hnm) start stop hreq
        rw [length_slice (by omega)]
        omega

/-- A storage that reads every slice inside the body answers as the body alone does. -/
theorem getObject_eq_bodyAnswer {s : StoreState}
    {r : ResolvedObject} {body : Bytes} (hsize : r.live.size = body.length)
    (hreads : ∀ start stop, start ≤ stop → stop < body.length →
      openReader codec fromBytes s r.live start stop = .ok (slice body start (stop+1-start)))
    (hfits : notModified ifNoneMatch r.live.etag = true ∨ RangeFits body.length range) :
    getObject codec fromBytes s ifNoneMatch range r =
      bodyAnswer ifNoneMatch range r.live.etag r.live.contentType r.lastModified body := by
  unfold getObject bodyAnswer
  by_cases hnm : notModified ifNoneMatch r.live.etag = true
  · rw [if_pos hnm, if_pos hnm]
  · rw [if_neg hnm, if_neg hnm, hsize]
    cases hb : rangeBounds body.length range with
    | error e => rfl
    | ok bounds =>
      obtain ⟨start,stop⟩ := bounds
      rcases rangeBounds_ok hb with ⟨h0,hs,ht⟩ | ⟨hne,hpos,hle,hreq⟩
      · -- an empty object is answered without opening a blob
        have hnil : body = [] := length_eq_zero_iff.mp h0
        have hopen : openReader codec fromBytes s r.live start.toNat stop.toNat = .ok [] := by
          rw [openReader, hsize, if_pos h0]
        simp only [hopen, Except.map, hnil, slice, drop_nil, take_nil]
      · have hrange := (hfits.resolve_left hnm) start stop hreq
        have hlen : stop.toNat+1-start.toNat = (stop+1-start).toNat := by omega
        simp only [hreads start.toNat stop.toNat (by omega) (by omega), Except.map, hlen]

theorem getObject_past (s : StoreState) (r : ResolvedObject)
    (hnm : ¬ notModified ifNoneMatch r.live.etag = true)
    (hfits : ¬ RangeFits r.live.size range) :
    r.live.size ≠ 0 ∧ ∃ (start stop : ℕ), start ≤ stop ∧ r.live.size ≤ stop ∧
      getObject codec fromBytes s ifNoneMatch range r =
        (openReader codec fromBytes s r.live start stop).map (streamAnswer range r.live.etag
          r.live.contentType r.lastModified r.live.size start stop) := by
  simp only [RangeFits, not_forall, not_or, Int.not_lt] at hfits
  obtain ⟨start,stop,hreq,hle,h0,hpast⟩ := hfits
  have hpos := requestedRange_nonneg hreq
  refine ⟨h0,start.toNat,stop.toNat,by omega,by omega,?_⟩
  have hb : rangeBounds r.live.size range = .ok (start,stop) := by
    simp only [rangeBounds, hreq, if_neg (Int.not_lt.mpr hle), if_neg h0]
  rw [getObject, if_neg hnm, hb, Int.toNat_of_nonneg hpos,
    Int.toNat_of_nonneg (Int.le_trans hpos hle)]

/-- Exactly when the range is refused before a blob is opened or ends inside the object. -/
theorem storage_invisible_iff (settings : CdcSettings) (frames chunks : List Bytes)
    (hcdc : cdcChunks gear settings frames = .ok chunks)
    (hparse : fromBytes (toBytes (manifestOf digestOf chunks)) = some (manifestOf digestOf chunks))
    (hdocument : toBytes (manifestOf digestOf chunks) ≠ [])
    (id : VersionId) (etag contentType : Text) (lastModified : ℤ) (d m : Digest)
    (file packed cold chunked : StoreState)
    (hfile : HeldHot file d frames.flatten) (hpacked : HeldPacked packed d frames.flatten)
    (hcold : HeldCold codec cold d frames.flatten)
    (hmanifest : HeldHot chunked m (toBytes (manifestOf digestOf chunks)) ∨
      HeldPacked chunked m (toBytes (manifestOf digestOf chunks)))
    (hchunks : ∀ chunk ∈ chunks, HeldAnywhere codec chunked (digestOf chunk) chunk)
    (ifNoneMatch range : Option Text) :
    Indistinguishable (getObject codec fromBytes chunked ifNoneMatch range
          ⟨id,⟨m,etag,frames.flatten.length,contentType,.manifest⟩,lastModified⟩ ::
        [file, packed, cold].map (fun s => getObject codec fromBytes s ifNoneMatch range
          ⟨id,⟨d,etag,frames.flatten.length,contentType,.whole⟩,lastModified⟩)) ↔
      (notModified ifNoneMatch etag = true ∨ RangeFits frames.flatten.length range) := by
  obtain ⟨hflat,hnonempty⟩ := cdcChunks_spec gear hcdc
  have hload := loadManifest_held chunked fromBytes hmanifest hdocument hparse
  have hheld : ∀ s ∈ [file, packed, cold], HeldAnywhere codec s d frames.flatten := by
    intro s hs
    rcases mem_cons.mp hs with rfl | hs
    · exact Or.inl hfile
    · rcases mem_cons.mp hs with rfl | hs
      · exact Or.inr (Or.inl hpacked)
      · exact Or.inr (Or.inr (mem_singleton.mp hs ▸ hcold))
  have hempty : frames.flatten.length ≠ 0 → frames.flatten ≠ [] := by
    intro h0 hnil
    exact h0 (by rw [hnil, length_nil])
  have hwhole : ∀ s ∈ [file, packed, cold], ∀ start stop, start ≤ stop →
      frames.flatten.length ≠ 0 → ∃ what, openReader codec fromBytes s
        ⟨d,etag,frames.flatten.length,contentType,.whole⟩ start stop =
          if stop < frames.flatten.length then .ok (slice frames.flatten start (stop+1-start))
          else .error (.app (StoreState.rangeError start stop frames.flatten.length what)) := by
    intro s hs start stop hle h0
    exact openReader_wholeHeld codec s fromBytes rfl _ rfl (hempty h0) (hheld s hs) _ _ hle
  have hchunked : ∀ start stop, start ≤ stop → frames.flatten.length ≠ 0 →
      openReader codec fromBytes chunked
        ⟨m,etag,frames.flatten.length,contentType,.manifest⟩ start stop =
          .ok (slice frames.flatten start (stop+1-start)) := by
    intro start stop hle h0
    rw [← hflat]
    exact openReader_chunkedHeld codec chunked digestOf fromBytes rfl chunks rfl
      (by rw [hflat]; exact hempty h0) hload
      (fun chunk hc => ⟨hnonempty chunk hc,hchunks chunk hc⟩) _ _ hle
  by_cases hfits : notModified ifNoneMatch etag = true ∨ RangeFits frames.flatten.length range
  · refine iff_of_true ?_ hfits
    apply indistinguishable_of_eq _
      (bodyAnswer_length etag contentType lastModified frames.flatten hfits)
    intro a ha
    rcases mem_cons.mp ha with rfl | ha
    · apply getObject_eq_bodyAnswer codec fromBytes rfl _ hfits
      intro start stop hle hlt
      exact hchunked start stop hle (by omega)
    · obtain ⟨s,hs,rfl⟩ := List.mem_map.mp ha
      apply getObject_eq_bodyAnswer codec fromBytes rfl _ hfits
      intro start stop hle hlt
      obtain ⟨what,hread⟩ := hwhole s hs start stop hle (by omega)
      rw [hread, if_pos hlt]
  · -- the chunks are sent as far as they go, a whole object is refused
    refine iff_of_false ?_ hfits
    rintro ⟨hsame,_⟩
    obtain ⟨hnm,hpast⟩ := not_or.mp hfits
    have heq := hsame _ mem_cons_self _ (mem_cons_of_mem _ (List.mem_map_of_mem mem_cons_self))
    obtain ⟨h0,start,stop,hle,_,hgetChunked⟩ :=
      getObject_past codec fromBytes chunked
        ⟨id,⟨m,etag,frames.flatten.length,contentType,.manifest⟩,lastModified⟩
      hnm hpast
    obtain ⟨_,start',stop',hle',hstop',hgetWhole⟩ :=
      getObject_past codec fromBytes file
        ⟨id,⟨d,etag,frames.flatten.length,contentType,.whole⟩,lastModified⟩
      hnm hpast
    obtain ⟨what,hread⟩ := hwhole file mem_cons_self start' stop' hle' h0
    rw [hread, if_neg (Nat.not_lt.mpr hstop')] at hgetWhole
    rw [hchunked start stop hle h0] at hgetChunked
    rw [hgetChunked, hgetWhole] at heq
    cases heq

end

def abcPackedStore : StoreState :=
  { abcStore with
    hot := Dict.empty
    needles := Dict.empty.set abcDigest ⟨[97, 98, 99],false,false⟩
    locations := Dict.empty.set abcDigest .haystack }

def abcColdStore : StoreState := tierBlob abcCodec abcStore abcDigest ⟨[97, 98, 99],0⟩

def abcToBytes (m : Manifest) : Bytes :=
  if m = ⟨1,[⟨abcDigest,3⟩]⟩ then abcManifestBytes else [110]

theorem abcToBytes_manifest :
    abcToBytes (manifestOf (fun _ => abcDigest) [[97, 98, 99]]) = abcManifestBytes := by
  rw [abcToBytes, if_pos]
  rfl

theorem abcDigest_ne_manifest : abcDigest ≠ abcManifestDigest := by decide +kernel

theorem abcStore_blob : HeldHot abcStore abcDigest [97, 98, 99] where
  readable := not_mem_nil
  routed := by
    rw [abcStore, Dict.get_set_ne abcDigest_ne_manifest, Dict.get_set_self]
  file := ⟨0,by
    rw [abcStore, Dict.get_set_ne abcDigest_ne_manifest, Dict.get_set_self]⟩

theorem abcStore_manifest : HeldHot abcStore abcManifestDigest abcManifestBytes where
  readable := not_mem_nil
  routed := Dict.get_set_self
  file := ⟨0,Dict.get_set_self⟩

theorem abcPackedStore_blob : HeldPacked abcPackedStore abcDigest [97, 98, 99] where
  readable := not_mem_nil
  routed := Dict.get_set_self
  needle := Dict.get_set_self

theorem abcColdStore_blob : HeldCold abcCodec abcColdStore abcDigest [97, 98, 99] where
  unrouted := by decide +kernel
  dropped := by decide +kernel
  file := ⟨abcGzip,by decide +kernel,by decide +kernel⟩

/-- The three bytes of `abc` in two frames, and a range that ends inside them. -/
theorem abc_range_invisible :
    Indistinguishable (getObject abcCodec abcFromBytes abcStore none (some "bytes=1-2".toList)
          ⟨1,⟨abcManifestDigest,"e".toList,3,"text/plain".toList,.manifest⟩,0⟩ ::
        [abcStore, abcPackedStore, abcColdStore].map (fun s =>
          getObject abcCodec abcFromBytes s none (some "bytes=1-2".toList)
            ⟨1,⟨abcDigest,"e".toList,3,"text/plain".toList,.whole⟩,0⟩)) :=
  (storage_invisible_iff abcCodec abcFromBytes abcToBytes (fun b => b) (fun _ => abcDigest)
    ⟨64,256,1024⟩ [[97], [98, 99]] [[97, 98, 99]] (by decide +kernel)
    (by rw [abcToBytes_manifest, abcFromBytes, if_pos rfl]; rfl)
    (by rw [abcToBytes_manifest]; decide) 1 "e".toList "text/plain".toList 0
    abcDigest abcManifestDigest abcStore abcPackedStore abcColdStore abcStore
    abcStore_blob abcPackedStore_blob abcColdStore_blob
    (Or.inl (abcToBytes_manifest ▸ abcStore_manifest))
    (fun chunk hchunk => Or.inl (mem_singleton.mp hchunk ▸ abcStore_blob))
    none (some "bytes=1-2".toList)).mpr
    (Or.inr (fun start stop h => by
      have hb : requestedRange 3 (some "bytes=1-2".toList) = .ok (1,2) := by decide +kernel
      have hstop : (1,2) = (start,stop) := Except.ok.inj (hb.symm.trans h)
      exact Or.inr (Or.inr (by rw [← (Prod.mk.inj hstop).2]; decide))))

/-- A whole object is refused; the same bytes in chunks are announced as a hundred and three are
sent. -/
theorem chunked_range_past_end :
    cdcChunks (fun b => b) ⟨64,256,1024⟩ [[97, 98, 99]] = .ok [[97, 98, 99]] ∧
    manifestOf (fun _ => abcDigest) [[97, 98, 99]] = ⟨1,[⟨abcDigest,3⟩]⟩ ∧
    getObject abcCodec abcFromBytes abcStore none (some "bytes=0-99".toList)
      ⟨1,⟨abcDigest,"e".toList,3,"text/plain".toList,.whole⟩,0⟩ =
        .error (.app (.invalidRequest "invalid range: start=0 end=99 file_len=3")) ∧
    getObject abcCodec abcFromBytes abcStore none (some "bytes=0-99".toList)
      ⟨1,⟨abcManifestDigest,"e".toList,3,"text/plain".toList,.manifest⟩,0⟩ =
        .ok ⟨206,some "e".toList,some 100,some 0,some "bytes".toList,
          some "bytes 0-99/3".toList,some "text/plain".toList,[97, 98, 99]⟩ := by
  -- one evaluation: the parts share the request
  decide +kernel

end BackendGauntlet.ObjectStore
