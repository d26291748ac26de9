import BackendGauntlet.Json
import BackendGauntlet.ObjectStoreMultipart
import BackendGauntlet.ObjectStoreQuarantine

/-! `stream_to_store`: a body in chunks becomes one blob of the store. -/
namespace BackendGauntlet.ObjectStore

open PyText Transition List Option

/-- A hasher of `hashlib`: what it returns depends on the bytes it was fed and not on how they
were split. -/
structure Hasher where
  State : Type
  new : State
  update : State → Bytes → State
  digest : State → Bytes
  update_nil : ∀ s, update s [] = s
  update_append : ∀ s a b, update (update s a) b = update s (a ++ b)

def Hasher.of (h : Hasher) (data : Bytes) : Bytes := h.digest (h.update h.new data)

structure Sha256 extends Hasher where
  digest_octets : ∀ s, (digest s).length = 32 ∧ ∀ b ∈ digest s, b < 256

def hexText (bytes : Bytes) : Text :=
  bytes.flatMap (fun b => [Json.hexDigit (b/16), Json.hexDigit (b%16)])

theorem hexDigit_isHexChar {n : ℕ} (hn : n < 16) :
    isHexChar (Json.hexDigit n) = true ∧ lowerHex (Json.hexDigit n) = Json.hexDigit n := by
  interval_cases n <;> decide

theorem hexText_isHexChar {raw : Bytes} (h : ∀ b ∈ raw, b < 256) {c : Char}
    (hc : c ∈ hexText raw) : isHexChar c = true ∧ lowerHex c = c := by
  obtain ⟨b,hb,hc⟩ := mem_flatMap.mp hc
  have hlt := h b hb
  simp only [mem_cons, not_mem_nil, or_false] at hc
  rcases hc with rfl | rfl
  · exact hexDigit_isHexChar (by omega)
  · exact hexDigit_isHexChar (by omega)

theorem length_hexText (raw : Bytes) : (hexText raw).length = 2*raw.length := by
  induction raw with
  | nil => rfl
  | cons b raw ih =>
    have hcons : hexText (b :: raw) =
        Json.hexDigit (b/16) :: Json.hexDigit (b%16) :: hexText raw := rfl
    rw [hcons, length_cons, length_cons, ih, length_cons]
    omega

def Digest.ofOctets (raw : Bytes) (h : raw.length = 32 ∧ ∀ b ∈ raw, b < 256) : Digest :=
  ⟨hexText raw,by
    constructor
    · have hall : ∀ c ∈ hexText raw, isHexChar c = true :=
        fun c hc => (hexText_isHexChar h.2 hc).1
      have hlen : (hexText raw).length = digestLen := by rw [length_hexText, h.1]; rfl
      rw [Digest.validate, if_neg]
      simpa [hlen] using hall
    · have hmap := List.map_congr_left (g := id) (fun c hc => (hexText_isHexChar h.2 hc).2)
      rw [hmap, List.map_id]⟩

def Digest.fromRaw (raw : Bytes) : Except AppError Digest :=
  if h : raw.length = 32 ∧ ∀ b ∈ raw, b < 256 then .ok (Digest.ofOctets raw h)
  else .error (.invalidRequest ("digest must be exactly 32 bytes, got len=" ++
    toString raw.length))

def Sha256.digestOf (sha : Sha256) (data : Bytes) : Digest :=
  Digest.ofOctets (sha.of data) (sha.digest_octets _)

inductive ChecksumAlgorithm
  | sha256
  | md5
deriving DecidableEq

def ChecksumAlgorithm.value : ChecksumAlgorithm → String
  | .sha256 => "SHA256"
  | .md5 => "MD5"

structure ChecksumSpec where
  algorithm : ChecksumAlgorithm
  expected : Text

structure Stored where
  digest : Digest
  etag : Text
  size : ℕ
  blobKind : BlobKind
deriving DecidableEq

structure StoreDir where
  store : Store
  tmp : Dict Text Bytes

section
variable (sha : Sha256) (md5 : Hasher) (b64decode : Text → Option Bytes)

def ChecksumSpec.computed (spec : ChecksumSpec) (shaRaw md5Raw : Bytes) : Bytes :=
  match spec.algorithm with
  | .sha256 => shaRaw
  | .md5 => md5Raw

def ChecksumSpec.verify (spec : ChecksumSpec) (shaRaw md5Raw : Bytes) : Except AppError Unit :=
  match b64decode spec.expected with
  | none => .error (.invalidRequest ("invalid base64 " ++ spec.algorithm.value ++ " checksum"))
  | some expected =>
    if expected ≠ spec.computed shaRaw md5Raw then
      .error (.invalidRequest ("BadDigest: " ++ spec.algorithm.value ++
        " checksum does not match the streamed body"))
    else .ok ()

structure Pull where
  total : ℕ
  sha : sha.State
  md5 : md5.State
  written : Bytes

def pull (maxSize : ℤ) (broken : Bool) : Pull sha md5 → List Bytes → Pull sha md5 × Option OpError
  | p, [] => (p,if broken then some .clientDisconnect else none)
  | p, chunk :: chunks =>
    let total := p.total+chunk.length
    if maxSize < total then ({ p with total := total },some (.app .entityTooLarge))
    else
      pull maxSize broken
        ⟨total,sha.update p.sha chunk,md5.update p.md5 chunk,p.written ++ chunk⟩ chunks

def streamToStore (s : StoreDir) (name : Text) (body : PartBody) (maxSize : ℤ)
    (checksum : Option ChecksumSpec) (fresh : VolumeId) :
    Option (StoreDir × Except OpError Stored) :=
  if s.tmp.contains name then none
  else
    let (p,failure) := pull sha md5 maxSize body.broken ⟨0,sha.new,md5.new,[]⟩ body.chunks
    let staged := s.tmp.set name p.written
    match failure with
    -- the guard unlinks what was staged
    | some e => some (⟨s.store,staged.erase name⟩,.error e)
    | none =>
      let verified : Except AppError Unit := match checksum with
        | none => .ok ()
        | some spec => spec.verify b64decode (sha.digest p.sha) (md5.digest p.md5)
      match verified with
      | .error e => some (⟨s.store,staged.erase name⟩,.error (.app e))
      | .ok _ =>
        match Digest.fromRaw (sha.digest p.sha) with
        | .error e => some (⟨s.store,staged.erase name⟩,.error (.app e))
        | .ok digest =>
          -- dedup and the Haystack unlink the temp file, FileCas renames it
          (s.store.commitTemp digest p.written fresh).map (fun store =>
            (⟨store,staged.erase name⟩, .ok ⟨digest,hexText (md5.digest p.md5),p.total,.whole⟩))

def PartBody.content (body : PartBody) : Bytes := body.chunks.flatten

def ChecksumSpec.Matches (spec : ChecksumSpec) (data : Bytes) : Prop :=
  b64decode spec.expected = some (spec.computed (sha.of data) (md5.of data))

/-- The cap is looked at after a chunk, so that a body of none passes under every cap. -/
structure Accepts (body : PartBody) (maxSize : ℤ) (checksum : Option ChecksumSpec) : Prop where
  complete : body.broken = false
  capped : body.chunks = [] ∨ (body.content.length : ℤ) ≤ maxSize
  checked : ∀ spec, checksum = some spec → spec.Matches sha md5 b64decode body.content

theorem verify_ok_iff_computed (spec : ChecksumSpec) {shaRaw md5Raw : Bytes} :
    spec.verify b64decode shaRaw md5Raw = .ok () ↔
      b64decode spec.expected = some (spec.computed shaRaw md5Raw) := by
  unfold ChecksumSpec.verify
  cases b64decode spec.expected with
  | none => simp
  | some expected =>
    by_cases h : expected = spec.computed shaRaw md5Raw
    · simp [h]
    · simp [h]

/-- A loop under the cap has counted, hashed and staged the whole body, however it was split. -/
theorem pull_fits (maxSize : ℤ) (broken : Bool) (p : Pull sha md5) (chunks : List Bytes)
    (h : chunks = [] ∨ ((p.total+chunks.flatten.length : ℕ) : ℤ) ≤ maxSize) :
    pull sha md5 maxSize broken p chunks =
      (⟨p.total+chunks.flatten.length,sha.update p.sha chunks.flatten,
        md5.update p.md5 chunks.flatten,p.written ++ chunks.flatten⟩,
        if broken then some .clientDisconnect else none) := by
  induction chunks generalizing p with
  | nil => simp [pull, sha.update_nil, md5.update_nil]
  | cons chunk chunks ih =>
    have hle := h.resolve_left (by simp)
    rw [flatten_cons, length_append] at hle
    have hfits : ¬ maxSize < ((p.total+chunk.length : ℕ) : ℤ) := by omega
    rw [pull, if_neg hfits, ih _ (Or.inr (by rw [Nat.add_assoc]; exact hle)), sha.update_append,
      md5.update_append, flatten_cons, length_append, append_assoc, Nat.add_assoc]

theorem pull_exceeds {maxSize : ℤ} (broken : Bool) (p : Pull sha md5) (chunks : List Bytes)
    (hne : chunks ≠ []) (h : maxSize < ((p.total+chunks.flatten.length : ℕ) : ℤ)) :
    (pull sha md5 maxSize broken p chunks).2 = some (.app .entityTooLarge) := by
  induction chunks generalizing p with
  | nil => exact absurd rfl hne
  | cons chunk chunks ih =>
    rw [flatten_cons, length_append] at h
    by_cases hover : maxSize < ((p.total+chunk.length : ℕ) : ℤ)
    · rw [pull, if_pos hover]
    · -- the first chunk is within the cap, so there are others
      have hmore : chunks ≠ [] := by
        rintro rfl
        simp only [flatten_nil, length_nil, Nat.add_zero] at h
        exact hover h
      rw [pull, if_neg hover]
      exact ih _ hmore (by rw [Nat.add_assoc]; exact h)

section
variable (s : StoreDir) (name : Text) (body : PartBody) (maxSize : ℤ)
  (checksum : Option ChecksumSpec) (fresh : VolumeId) (hname : s.tmp.get name = none)
include hname

theorem streamToStore_fits
    (h : body.chunks = [] ∨ (body.content.length : ℤ) ≤ maxSize) :
    streamToStore sha md5 b64decode s name body maxSize checksum fresh =
      if body.broken then some (s,.error .clientDisconnect)
      else
        match (match checksum with
          | none => .ok ()
          | some spec => spec.verify b64decode (sha.of body.content) (md5.of body.content) :
            Except AppError Unit) with
        | .error e => some (s,.error (.app e))
        | .ok _ => (s.store.commitTemp (sha.digestOf body.content) body.content fresh).map
          (fun store => (⟨store,s.tmp⟩,.ok ⟨sha.digestOf body.content,
            hexText (md5.of body.content),body.content.length,.whole⟩)) := by
  have hclean (bytes : Bytes) : (s.tmp.set name bytes).erase name = s.tmp :=
    Dict.erase_set_new s.tmp name bytes hname
  have hfree : s.tmp.contains name = false := by rw [Dict.contains, hname]; rfl
  have hpull := pull_fits sha md5 maxSize body.broken ⟨0,sha.new,md5.new,[]⟩ body.chunks
    (h.imp_right (fun hle => by rw [Nat.zero_add]; exact hle))
  rw [Nat.zero_add, nil_append] at hpull
  have hraw : Digest.fromRaw (sha.of body.content) = .ok (sha.digestOf body.content) :=
    dif_pos (sha.digest_octets _)
  unfold streamToStore
  rw [hfree, if_neg (by simp), hpull]
  cases body.broken with
  | true => simp [hclean]
  | false =>
    simp only [Bool.false_eq_true, if_false, hclean]
    change (match (match checksum with
        | none => Except.ok ()
        | some spec => spec.verify b64decode (sha.of body.content) (md5.of body.content)) with
      | .error e => some (s,Except.error (OpError.app e))
      | .ok _ => match Digest.fromRaw (sha.of body.content) with
        | .error e => some (s,Except.error (OpError.app e))
        | .ok digest => _) = _
    rw [hraw]
    rfl

theorem streamToStore_exceeds (hne : body.chunks ≠ [])
    (h : maxSize < (body.content.length : ℤ)) :
    streamToStore sha md5 b64decode s name body maxSize checksum fresh =
      some (s,.error (.app .entityTooLarge)) := by
  have hfree : s.tmp.contains name = false := by rw [Dict.contains, hname]; rfl
  have hpull := pull_exceeds sha md5 body.broken ⟨0,sha.new,md5.new,[]⟩ body.chunks hne
    (by rw [Nat.zero_add]; exact h)
  unfold streamToStore
  rw [hfree, if_neg (by simp)]
  simp only [hpull, Dict.erase_set_new s.tmp name _ hname]

/-- An accepted body is committed under its digest, and the temp file is gone. -/
theorem streamToStore_of_accepts (h : Accepts sha md5 b64decode body maxSize checksum) :
    streamToStore sha md5 b64decode s name body maxSize checksum fresh =
      (s.store.commitTemp (sha.digestOf body.content) body.content fresh).map
        (fun store => (⟨store,s.tmp⟩,.ok ⟨sha.digestOf body.content,
          hexText (md5.of body.content),body.content.length,.whole⟩)) := by
  rw [streamToStore_fits sha md5 b64decode s name body maxSize checksum fresh hname h.capped,
    h.complete, if_neg (by simp)]
  cases hsum : checksum with
  | none => rfl
  | some spec =>
    have hok := (verify_ok_iff_computed b64decode spec).mpr (h.checked spec hsum)
    simp only [hok]

theorem streamToStore_of_not_accepts (h : ¬ Accepts sha md5 b64decode body maxSize checksum) :
    ∃ e, streamToStore sha md5 b64decode s name body maxSize checksum fresh =
      some (s,.error e) := by
  by_cases hcap : body.chunks = [] ∨ (body.content.length : ℤ) ≤ maxSize
  · rw [streamToStore_fits sha md5 b64decode s name body maxSize checksum fresh hname hcap]
    cases hbroken : body.broken with
    | true => exact ⟨_,rfl⟩
    | false =>
      rw [if_neg (by simp)]
      cases hsum : checksum with
      | none => exact absurd ⟨hbroken,hcap,by simp [hsum]⟩ h
      | some spec =>
        cases hverify : spec.verify b64decode (sha.of body.content) (md5.of body.content) with
        | error e => exact ⟨.app e,by simp only [hverify]⟩
        | ok _ =>
          refine absurd ⟨hbroken,hcap,?_⟩ h
          intro spec' hspec'
          rw [hsum] at hspec'
          cases hspec'
          exact (verify_ok_iff_computed b64decode spec).mp hverify
  · rw [not_or, not_le] at hcap
    exact ⟨_,streamToStore_exceeds sha md5 b64decode s name body maxSize checksum fresh hname
      hcap.1 hcap.2⟩

theorem streamToStore_framing {other : PartBody} (hcap : 0 ≤ maxSize)
    (hcontent : other.content = body.content) (hbroken : other.broken = body.broken) :
    streamToStore sha md5 b64decode s name other maxSize checksum fresh =
      streamToStore sha md5 b64decode s name body maxSize checksum fresh := by
  by_cases hle : (body.content.length : ℤ) ≤ maxSize
  · rw [streamToStore_fits sha md5 b64decode s name body maxSize checksum fresh hname (Or.inr hle),
      streamToStore_fits sha md5 b64decode s name other maxSize checksum fresh hname
        (Or.inr (by rw [hcontent]; exact hle)), hcontent, hbroken]
  · -- past a cap of zero or more there is a byte, and so a chunk
    have hchunks (b : PartBody) (hb : b.content = body.content) : b.chunks ≠ [] := by
      intro hnil
      have hlen : body.content.length = 0 := by rw [← hb, PartBody.content, hnil]; rfl
      omega
    rw [streamToStore_exceeds sha md5 b64decode s name body maxSize checksum fresh hname
        (hchunks body rfl) (by omega),
      streamToStore_exceeds sha md5 b64decode s name other maxSize checksum fresh hname
        (hchunks other hcontent) (by rw [hcontent]; omega)]

end

theorem commitTemp_isSome {s : Store} (d : Digest) (data : Bytes) {fresh : VolumeId}
    (hfresh : s.disk.volumes.get fresh = none)
    (hlimit : max s.maxVolumeSize (needleHeaderLen+1) < offsetLimit) :
    (s.commitTemp d data fresh).isSome = true := by
  unfold Store.commitTemp
  by_cases hknown : s.locations.contains d = true
  · rw [if_pos hknown]
    rfl
  · rw [if_neg hknown]
    cases hroute : s.chooseLocation data.length with
    | fileCas => rfl
    | haystack =>
      have hfits : needleHeaderLen+data.length ≤ max s.maxVolumeSize (needleHeaderLen+1) := by
        unfold Store.chooseLocation fitsInVolume at hroute
        simp only [Bool.and_eq_true, decide_eq_true_eq] at hroute
        by_contra hnot
        rw [if_neg (fun h => hnot h.2)] at hroute
        cases hroute
      simp only [isSome_map, Store.commitNeedle]
      unfold appendNeedle ensureActive
      cases hactive : s.active.filter (fun a =>
          a.2+(needleFrame d data).length ≤ max s.maxVolumeSize (needleHeaderLen+1)) with
      | none =>
        have hnew : s.disk.volumes.contains fresh = false := by rw [Dict.contains, hfresh]; rfl
        have hroom : needleHeaderLen+data.length < offsetLimit := by omega
        simp [hnew, hroom]
      | some a =>
        have hle := (filter_eq_some_iff.mp hactive).2
        simp only [length_needleFrame, decide_eq_true_eq] at hle
        have hroom : a.2+needleHeaderLen+data.length < offsetLimit := by omega
        simp [hroom]

/-- A body is stored exactly if it is complete, within its cap and of its checksum; otherwise
neither the store nor `tmp/` has changed. -/
theorem streamed_body_stored_or_nothing (s : StoreDir) (name : Text) (body : PartBody)
    (maxSize : ℤ) (checksum : Option ChecksumSpec) (fresh : VolumeId)
    (hs : Reachable newStore (storeStep sha.digestOf) anyStep s.store)
    (hname : s.tmp.get name = none) (hfresh : s.store.disk.volumes.get fresh = none)
    (hlimit : max s.store.maxVolumeSize (needleHeaderLen+1) < offsetLimit) :
    (∃ t result,
      streamToStore sha md5 b64decode s name body maxSize checksum fresh = some (t,result) ∧
      ((∃ stored, result = .ok stored) ↔ body.broken = false ∧
        (body.chunks = [] ∨ (body.content.length : ℤ) ≤ maxSize) ∧
        ∀ spec, checksum = some spec → b64decode spec.expected =
          some (spec.computed (sha.of body.content) (md5.of body.content))) ∧
      (∀ stored, result = .ok stored →
        stored = ⟨sha.digestOf body.content,hexText (md5.of body.content),body.content.length,
          .whole⟩ ∧
        t.tmp = s.tmp ∧ (∀ x, x ≠ sha.digestOf body.content → Kept s.store t.store x) ∧
        if s.store.locations.contains (sha.digestOf body.content) then t.store = s.store
        else t.store.Held (sha.digestOf body.content) body.content) ∧
      ∀ e, result = .error e → t = s) ∧
    ∀ other : PartBody, 0 ≤ maxSize → other.content = body.content → other.broken = body.broken →
      streamToStore sha md5 b64decode s name other maxSize checksum fresh =
        streamToStore sha md5 b64decode s name body maxSize checksum fresh := by
  refine ⟨?_,fun other hcap hcontent hbroken => streamToStore_framing sha md5 b64decode s name body
    maxSize checksum fresh hname hcap hcontent hbroken⟩
  have hI := storeInv_reachable sha.digestOf AnyBytes newStore anyStep
    (fun s h => storeInv_new _ s h) (fun _ a _ => goodAction_any _ a) hs
  by_cases haccepts : Accepts sha md5 b64decode body maxSize checksum
  · obtain ⟨store,hcommit⟩ := isSome_iff_exists.mp
      (commitTemp_isSome (sha.digestOf body.content) body.content hfresh hlimit)
    have hrun := streamToStore_of_accepts sha md5 b64decode s name body maxSize checksum fresh hname
      haccepts
    rw [hcommit] at hrun
    refine ⟨_,_,hrun,⟨fun _ => ⟨haccepts.complete,haccepts.capped,haccepts.checked⟩,
      fun _ => ⟨_,rfl⟩⟩,?_,fun e he => by cases he⟩
    intro stored hstored
    obtain ⟨_,hkept,hnew⟩ := storeInv_commit s.store hI hcommit trivial
    refine ⟨(Except.ok.inj hstored).symm,rfl,hkept,?_⟩
    split_ifs with hknown
    · rw [Store.commitTemp, if_pos hknown] at hcommit
      exact (some.inj hcommit).symm
    · exact hnew (by simpa [Dict.contains] using hknown)
  · obtain ⟨e,hrun⟩ := streamToStore_of_not_accepts sha md5 b64decode s name body maxSize checksum
      fresh hname haccepts
    refine ⟨_,_,hrun,⟨?_,fun h => absurd ⟨h.1,h.2.1,h.2.2⟩ haccepts⟩,?_,fun _ _ => rfl⟩
    · rintro ⟨stored,hstored⟩
      cases hstored
    · intro stored hstored
      cases hstored

end

def sampleSha : Sha256 where
  State := Bytes
  new := []
  update := fun s chunk => s ++ chunk
  digest := fun s => (s.map (· % 256) ++ List.replicate 32 0).take 32
  update_nil := fun s => List.append_nil s
  update_append := fun s a b => List.append_assoc s a b
  digest_octets := by
    intro s
    constructor
    · simp
    · intro b hb
      rcases List.mem_append.mp (List.mem_of_mem_take hb) with h | h
      · obtain ⟨x,_,rfl⟩ := List.mem_map.mp h
        exact Nat.mod_lt _ (by decide)
      · rw [List.eq_of_mem_replicate h]
        decide

/-- Two chunks under a cap of their length, with a checksum that is theirs. -/
theorem streamed_body_stored_abc :
    (Reachable newStore (storeStep sampleSha.digestOf) anyStep (sampleStore .hybrid) ∧
      (sampleStore .hybrid).disk.volumes.get volumeA = none ∧
      max (sampleStore .hybrid).maxVolumeSize (needleHeaderLen+1) < offsetLimit) ∧
    ∃ t stored, streamToStore sampleSha sampleSha.toHasher
      (fun _ => some (sampleSha.of abcBytes)) ⟨sampleStore .hybrid,Dict.empty⟩ "stream-1".toList
      ⟨[[97], [98, 99]],false⟩ 3 (some ⟨.sha256,[]⟩) volumeA = some (t,.ok stored) ∧
      stored.size = 3 ∧ t.store.Held stored.digest abcBytes := by
  have hs : Reachable newStore (storeStep sampleSha.digestOf) anyStep (sampleStore .hybrid) :=
    Reachable.start _ (newStore_sampleStore)
  have hlimit : max (sampleStore .hybrid).maxVolumeSize (needleHeaderLen+1) < offsetLimit := by
    decide
  refine ⟨⟨hs,rfl,hlimit⟩,?_⟩
  obtain ⟨⟨t,result,hrun,hok,hstored,_⟩,_⟩ := streamed_body_stored_or_nothing sampleSha
    sampleSha.toHasher (fun _ => some (sampleSha.of abcBytes)) ⟨sampleStore .hybrid,Dict.empty⟩
    "stream-1".toList ⟨[[97], [98, 99]],false⟩ 3 (some ⟨.sha256,[]⟩) volumeA hs rfl rfl hlimit
  have haccepted : ∃ stored, result = .ok stored := by
    apply hok.mpr
    refine ⟨rfl,Or.inr (by decide),?_⟩
    intro spec hspec
    cases hspec
    rfl
  obtain ⟨stored,hresult⟩ := haccepted
  obtain ⟨hfields,_,_,hheld⟩ := hstored stored hresult
  refine ⟨t,stored,by rw [hrun, hresult],by rw [hfields]; rfl,?_⟩
  rw [hfields]
  exact hheld

/-- Nothing at all is stored under a cap below zero, where one empty chunk is too large. -/
theorem empty_body_passes_negative_cap :
    (∃ t stored, streamToStore sampleSha sampleSha.toHasher (fun _ => none)
      ⟨sampleStore .fileCas,Dict.empty⟩ "stream-1".toList ⟨[],false⟩ (-1) none volumeA =
        some (t,.ok stored) ∧ stored.size = 0) ∧
    streamToStore sampleSha sampleSha.toHasher (fun _ => none)
      ⟨sampleStore .fileCas,Dict.empty⟩ "stream-1".toList ⟨[[]],false⟩ (-1) none volumeA =
        some (⟨sampleStore .fileCas,Dict.empty⟩,.error (.app .entityTooLarge)) :=
  ⟨⟨_,_,rfl,rfl⟩,rfl⟩

end BackendGauntlet.ObjectStore
