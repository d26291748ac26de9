import BackendGauntlet.ObjectStoreNaming

/-! The values that the parts of the store hand each other: digests, versions and rows. -/
namespace BackendGauntlet.ObjectStore

open PyText List

abbrev Bytes := List ℕ

def slice (content : Bytes) (start length : ℕ) : Bytes := (content.drop start).take length

theorem slice_append {content : Bytes} (extra : Bytes) {start length : ℕ}
    (h : (slice content start length).length = length) :
    slice (content ++ extra) start length = slice content start length := by
  unfold slice at h ⊢
  rw [length_take, length_drop] at h
  by_cases hle : start ≤ content.length
  · rw [drop_append_of_le_length hle, take_append_of_le_length (by simp; omega)]
  · have h0 : length = 0 := by omega
    simp [h0]

def isHexChar (c : Char) : Bool :=
  (48 ≤ c.toNat && c.toNat ≤ 57) || (97 ≤ c.toNat && c.toNat ≤ 102) ||
    (65 ≤ c.toNat && c.toNat ≤ 70)

def lowerHex (c : Char) : Char :=
  if 65 ≤ c.toNat ∧ c.toNat ≤ 70 then Char.ofNat (c.toNat+32) else c

def digestLen : ℕ := 64

def Digest.validate (value : Text) : Except AppError Unit :=
  if value.length ≠ digestLen ∨ ¬ value.all isHexChar then
    .error (.invalidRequest ("digest must be exactly 64 ASCII hex characters, got len=" ++
      toString value.length))
  else .ok ()

structure Digest where
  text : Text
  valid : Digest.validate text = .ok () ∧ text.map lowerHex = text
deriving DecidableEq

theorem lowerHex_of_hex {c : Char} (hc : isHexChar c = true) :
    isHexChar (lowerHex c) = true ∧ lowerHex (lowerHex c) = lowerHex c := by
  have hascii : ∀ n < 128, (Char.ofNat n).toNat = n := by decide
  unfold lowerHex
  by_cases h : 65 ≤ c.toNat ∧ c.toNat ≤ 70
  · have hn : (Char.ofNat (c.toNat+32)).toNat = c.toNat+32 := hascii _ (by omega)
    have hi : ¬ (65 ≤ c.toNat+32 ∧ c.toNat+32 ≤ 70) := by omega
    refine ⟨?_,by rw [if_pos h, hn, if_neg hi]⟩
    simp only [if_pos h, isHexChar, hn, Bool.or_eq_true, Bool.and_eq_true, decide_eq_true_eq]
    omega
  · simp [if_neg h, hc]

/-- `Digest(value)`: validated, then normalised to lower case. -/
def Digest.new (value : Text) : Except AppError Digest :=
  match h : Digest.validate value with
  | .error e => .error e
  | .ok _ =>
    .ok ⟨value.map lowerHex,by
      have hv : value.length = digestLen ∧ ∀ c ∈ value, isHexChar c = true := by
        unfold Digest.validate at h
        split_ifs at h with hv
        simpa [not_or] using hv
      constructor
      · unfold Digest.validate
        rw [if_neg]
        have hl : ∀ c ∈ value, isHexChar (lowerHex c) = true :=
          fun c hc => (lowerHex_of_hex (hv.2 c hc)).1
        simpa [hv.1] using hl
      · rw [List.map_map]
        exact List.map_congr_left (fun c hc => (lowerHex_of_hex (hv.2 c hc)).2)⟩

variable (d : Digest)

theorem Digest.new_text : Digest.new d.text = .ok d := by
  obtain ⟨t,hv,hl⟩ := d
  unfold Digest.new
  split
  · rename_i h
    cases h.symm.trans hv
  · simp [hl]

theorem Digest.length_text : d.text.length = 64 := by
  have h := d.valid.1
  unfold Digest.validate at h
  split_ifs at h with hv
  simpa [digestLen] using (not_or.mp hv).1

theorem Digest.isHexChar_text (c : Char) (hc : c ∈ d.text) : isHexChar c = true := by
  have h := d.valid.1
  unfold Digest.validate at h
  split_ifs at h with hv
  have hall : ∀ c ∈ d.text, isHexChar c = true := by simpa using (not_or.mp hv).2
  exact hall c hc

abbrev VersionId := ℤ

inductive BlobKind
  | whole
  | manifest
deriving DecidableEq

structure LiveVersion where
  digest : Digest
  etag : Text
  size : ℕ
  contentType : Text
  blobKind : BlobKind
deriving DecidableEq

inductive VersionKind
  | live (v : LiveVersion)
  | deleteMarker
deriving DecidableEq

/-- One immutable version; instants are microseconds. -/
structure VersionEntry where
  id : VersionId
  lastModified : ℤ
  kind : VersionKind
deriving DecidableEq

def VersionEntry.asLive (e : VersionEntry) : Option LiveVersion :=
  match e.kind with
  | .live v => some v
  | .deleteMarker => none

/-- Which version a call addresses: `none` is `LATEST`. -/
abbrev ObjectRef := Option VersionId

structure ResolvedObject where
  versionId : VersionId
  live : LiveVersion
  lastModified : ℤ
deriving DecidableEq

/-- The row of a key. Version ids are never reused, so no two versions share one. -/
structure ObjectMeta where
  latest : VersionId
  versions : List VersionEntry
  nextId : VersionId
  ids : (versions.map VersionEntry.id).Nodup
deriving DecidableEq

abbrev NewVersion := LiveVersion

namespace ObjectMeta

def newLive (v : NewVersion) (now : ℤ) : ObjectMeta :=
  ⟨1,[⟨1,now,.live v⟩],2,List.nodup_singleton _⟩

def resolve (m : ObjectMeta) (ref : ObjectRef) : Option VersionEntry :=
  m.versions.find? (fun e => e.id = ref.getD m.latest)

def resolveLive (m : ObjectMeta) (ref : ObjectRef) : Except AppError ResolvedObject :=
  match m.resolve ref with
  | none => .error .noSuchKey
  | some e =>
    match e.asLive with
    | none => .error .noSuchKey
    | some v => .ok ⟨e.id,v,e.lastModified⟩

def latestLive (m : ObjectMeta) : Option ResolvedObject := (m.resolveLive none).toOption

def highest : List VersionEntry → VersionId
  | [] => 0
  | e :: es => es.foldl (fun m v => max m v.id) e.id

theorem le_highest {es : List VersionEntry} {e : VersionEntry} (he : e ∈ es) :
    e.id ≤ highest es := by
  have hfold (l : List VersionEntry) (a : VersionId) :
      a ≤ l.foldl (fun m v => max m v.id) a ∧
        ∀ x ∈ l, x.id ≤ l.foldl (fun m v => max m v.id) a := by
    induction l generalizing a with
    | nil => simp
    | cons y l ih =>
      obtain ⟨h1,h2⟩ := ih (max a y.id)
      refine ⟨Int.le_trans (Int.le_max_left _ _) h1,?_⟩
      intro x hx
      rcases mem_cons.mp hx with rfl | hx
      · exact Int.le_trans (Int.le_max_right _ _) h1
      · exact h2 x hx
  cases es with
  | nil => cases he
  | cons y l =>
    rcases mem_cons.mp he with rfl | he
    · exact (hfold l e.id).1
    · exact (hfold l y.id).2 e he

def freshId (m : ObjectMeta) : VersionId := max m.nextId (highest m.versions+1)

theorem freshId_not_mem (m : ObjectMeta) : m.freshId ∉ m.versions.map VersionEntry.id := by
  intro h
  obtain ⟨e,he,hid⟩ := List.mem_map.mp h
  have hle := le_highest he
  have hmax : highest m.versions+1 ≤ m.freshId := Int.le_max_right _ _
  exact Int.not_le.mpr (Int.lt_of_lt_of_le (Int.lt_succ _) hmax) (hid ▸ hle)

def appendLive (m : ObjectMeta) (v : NewVersion) (now : ℤ) : ObjectMeta where
  latest := m.freshId
  versions := m.versions ++ [⟨m.freshId,now,.live v⟩]
  nextId := m.freshId+1
  ids := by
    rw [List.map_append, List.map_singleton]
    exact m.ids.append (List.nodup_singleton _)
      (List.disjoint_singleton.mpr m.freshId_not_mem)

def removeVersion (m : ObjectMeta) (id : VersionId) : Option ObjectMeta :=
  let kept := m.versions.filter (fun e => e.id ≠ id)
  if kept.length = m.versions.length then none
  else some ⟨if m.latest = id then highest kept else m.latest,kept,m.nextId,
    m.ids.sublist (List.filter_sublist.map _)⟩

def digests (m : ObjectMeta) : List Digest :=
  m.versions.filterMap (fun e => e.asLive.map LiveVersion.digest)

end ObjectMeta

inductive Precondition
  | none
  | ifMatch (etag : Text)
  | ifNoneMatchStar
deriving DecidableEq

def Precondition.check (p : Precondition) (current : Option ObjectMeta) : Except AppError Unit :=
  let live := current.bind ObjectMeta.latestLive
  match p with
  | .none => .ok ()
  | .ifMatch etag =>
    if live.map (fun r => r.live.etag) = some etag then .ok () else .error .preconditionFailed
  | .ifNoneMatchStar => if live.isSome then .error .preconditionFailed else .ok ()

def putRow (current : Option ObjectMeta) (v : NewVersion) (now : ℤ) : ObjectMeta :=
  match current with
  | none => ObjectMeta.newLive v now
  | some m => m.appendLive v now

/-- A put adds one digest to those of the row. -/
theorem mem_digests_putRow {current : Option ObjectMeta} {v : NewVersion} {now : ℤ} :
    d ∈ (putRow current v now).digests ↔ d = v.digest ∨ ∃ m, current = some m ∧ d ∈ m.digests := by
  cases current with
  | none => simp [putRow, ObjectMeta.newLive, ObjectMeta.digests, VersionEntry.asLive]
  | some m =>
    simp only [putRow, ObjectMeta.appendLive, ObjectMeta.digests, filterMap_append,
      mem_append, Option.some.injEq, exists_eq_left']
    simp [VersionEntry.asLive, or_comm]

theorem digests_removeVersion {m m' : ObjectMeta} {id : VersionId}
    (h : m.removeVersion id = some m') {d : Digest} (hd : d ∈ m'.digests) : d ∈ m.digests := by
  unfold ObjectMeta.removeVersion at h
  simp only at h
  split_ifs at h <;>
  · rw [← Option.some.inj h] at hd
    simp only [ObjectMeta.digests, mem_filterMap, mem_filter] at hd ⊢
    obtain ⟨e,⟨he,_⟩,hv⟩ := hd
    exact ⟨e,he,hv⟩

/-- What a reference resolves to is a live version of the row. -/
theorem resolveLive_mem {m : ObjectMeta} {ref : ObjectRef} {r : ResolvedObject}
    (h : m.resolveLive ref = .ok r) :
    ∃ e ∈ m.versions, e.asLive = some r.live ∧ e.id = r.versionId ∧
      r.versionId = ref.getD m.latest := by
  unfold ObjectMeta.resolveLive at h
  cases he : m.resolve ref with
  | none =>
    rw [he] at h
    cases h
  | some e =>
    rw [he] at h
    simp only at h
    cases hv : e.asLive with
    | none =>
      rw [hv] at h
      cases h
    | some v =>
      rw [hv] at h
      rw [← Except.ok.inj h]
      have hid : e.id = ref.getD m.latest := by simpa using find?_some he
      exact ⟨e,mem_of_find?_eq_some he,hv,rfl,hid⟩

/-! Two small objects for runs on fixed inputs. -/

def abcDigest : Digest :=
  ⟨"ba7816bf8f01cfea414140de5dae2223b00361a396177a9cb410ff61f20015ad".toList,by decide⟩

def xyzDigest : Digest :=
  ⟨"3608bca1e44ea6c4d268eb6db02260269892c0b42b86bbf1e77a6fa16c3c9282".toList,by decide⟩

def abcVersion : NewVersion :=
  ⟨abcDigest,"900150983cd24fb0d6963f7d28e17f72".toList,3,"text/plain".toList,.whole⟩

def xyzVersion : NewVersion :=
  ⟨xyzDigest,"d16fb36f0911f878998c136191af705e".toList,3,"text/plain".toList,.whole⟩

end BackendGauntlet.ObjectStore
