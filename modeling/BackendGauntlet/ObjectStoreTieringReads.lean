import BackendGauntlet.ObjectStoreSweepCompletion

/-! Reads after a lifecycle sweep. -/
namespace BackendGauntlet.ObjectStore

section
variable (codec : Codec) (payload : Digest → Bytes) (s t : StoreState)

/-- Only a blob that was packed and also hot is lost: its needle is dead and its file has no route.
-/
theorem openChunkSlice_tiered (hca : ContentAddressed codec payload s) {c : ChunkSlice}
    (hlen : 0 < c.length) (hview : t.view c.digest = tierView codec (s.view c.digest))
    (hq : t.quarantined = s.quarantined) {bytes : Bytes}
    (h : openChunkSlice codec s c = .ok bytes) :
    openChunkSlice codec t c =
      if s.hot.contains c.digest = true ∧ s.locations.get c.digest = some .haystack then
        .error (.app .noSuchKey)
      else .ok bytes := by
  have hstop : ¬ c.offset+c.length-1 < c.offset := by omega
  have hlength : c.offset+c.length-1+1-c.offset = c.length := by omega
  cases hf : s.hot.get c.digest with
  | none =>
    -- Without a hot copy the migration left the digest alone.
    have hsame : t.view c.digest = s.view c.digest := by
      rw [hview]
      simp only [tierView, StoreState.view, hf]
    have hcold : t.cold.get c.digest = s.cold.get c.digest := congrArg BlobView.cold hsame
    have heq : openChunkSlice codec t c = openChunkSlice codec s c := by
      simp only [openChunkSlice, locate_congr t s _ hsame, openBlobRange_congr t s _ hsame hq,
        coldRange, hcold]
    simp [heq, h, Dict.contains, hf]
  | some f =>
    have hcontent := hca.hot _ f hf
    have hdecode : codec.decompress ((s.cold.get c.digest).getD (codec.compress f.content)) =
        some (payload c.digest) := by
      cases hz : s.cold.get c.digest with
      | none => rw [Option.getD_none, codec.lossless, hcontent]
      | some z => exact hca.cold _ z hz
    have hraw : s.locate c.digest = .ok .raw := by
      simp [StoreState.locate, Dict.contains, hf]
    simp only [openChunkSlice, hraw] at h
    have hnq : c.digest ∉ s.quarantined := by
      intro hin
      simp [StoreState.openBlobRange, hin, Except.mapError] at h
    cases hl : s.locations.get c.digest with
    | none => simp [StoreState.openBlobRange, hnq, hl, Except.mapError] at h
    | some l =>
      simp only [tierView, StoreState.view, hf, hl, BlobView.remove] at hview
      cases l with
      | haystack =>
        simp only [BlobView.mk.injEq] at hview
        obtain ⟨v1,_,v3,_⟩ := hview
        have hraw' : t.locate c.digest = .ok .raw := by
          simp [StoreState.locate, Dict.contains, v1, v3]
        simp [openChunkSlice, hraw', StoreState.openBlobRange, hq, hnq, v3, Except.mapError,
          Dict.contains, hf]
      | fileCas =>
        simp only [BlobView.mk.injEq] at hview
        obtain ⟨v1,_,v3,v4⟩ := hview
        have hzstd : t.locate c.digest = .ok .zstd := by
          simp [StoreState.locate, Dict.contains, v1, v3, v4]
        have hbytes : slice (payload c.digest) c.offset c.length = bytes := by
          simp only [StoreState.openBlobRange, hnq, if_false, hl, hf, hcontent, hstop, false_or,
            hlength] at h
          split_ifs at h
          · cases h
          · simpa [Except.mapError] using h
        simp [openChunkSlice, hzstd, coldRange, v4, hdecode, hbytes]

theorem openChunkSlice_congr {c : ChunkSlice} (hview : t.view c.digest = s.view c.digest)
    (hq : t.quarantined = s.quarantined) : openChunkSlice codec t c = openChunkSlice codec s c := by
  have hcold : t.cold.get c.digest = s.cold.get c.digest := congrArg BlobView.cold hview
  simp only [openChunkSlice, locate_congr t s _ hview, openBlobRange_congr t s _ hview hq,
    coldRange, hcold]

variable (H : List Digest)

structure TieredFrom : Prop where
  view : ∀ x, t.view x = if x ∈ H then tierView codec (s.view x) else s.view x
  quarantined : t.quarantined = s.quarantined

def Stranded (d : Digest) : Prop :=
  d ∈ H ∧ s.hot.contains d = true ∧ s.locations.get d = some .haystack

theorem openChunkSlice_after (hca : ContentAddressed codec payload s)
    (ht : TieredFrom codec s t H) (c : ChunkSlice) (hlen : 0 < c.length) (bytes : Bytes)
    (h : openChunkSlice codec s c = .ok bytes) :
    (¬ Stranded s H c.digest ∧ openChunkSlice codec t c = .ok bytes) ∨
      (Stranded s H c.digest ∧ openChunkSlice codec t c = .error (.app .noSuchKey)) := by
  have hv := ht.view c.digest
  by_cases hin : c.digest ∈ H
  · rw [if_pos hin] at hv
    rw [openChunkSlice_tiered codec payload s t hca hlen hv ht.quarantined h]
    split_ifs with hlost
    · exact Or.inr ⟨⟨hin,hlost⟩,rfl⟩
    · exact Or.inl ⟨fun hs => hlost hs.2,rfl⟩
  · rw [if_neg hin] at hv
    rw [openChunkSlice_congr codec s t hv ht.quarantined]
    exact Or.inl ⟨fun hs => hin hs.1,h⟩

theorem openSlices_after (hca : ContentAddressed codec payload s) (ht : TieredFrom codec s t H)
    (cs : List ChunkSlice) (hcs : ∀ c ∈ cs, 0 < c.length) (bytes : Bytes)
    (h : openSlices codec s cs = .ok bytes) :
    openSlices codec t cs = .ok bytes ↔ ∀ c ∈ cs, ¬ Stranded s H c.digest := by
  induction cs generalizing bytes with
  | nil =>
    simp only [openSlices] at h ⊢
    simp [h]
  | cons c cs ih =>
    have hc := hcs c List.mem_cons_self
    have hne : c.length ≠ 0 := by omega
    simp only [openSlices, hne, if_false] at h ⊢
    cases ha : openChunkSlice codec s c with
    | error e =>
      rw [ha] at h
      cases h
    | ok a =>
      rw [ha] at h
      cases hb : openSlices codec s cs with
      | error e =>
        rw [hb] at h
        cases h
      | ok b =>
        rw [hb] at h
        have hab : a ++ b = bytes := by simpa [Except.map] using h
        have hrest := ih (fun x hx => hcs x (List.mem_cons_of_mem c hx)) b hb
        rw [List.forall_mem_cons]
        rcases openChunkSlice_after codec payload s t H hca ht c hc a ha with ⟨hs,hok⟩ | ⟨hs,herr⟩
        · rw [hok, ← hrest, ← hab]
          cases openSlices codec t cs with
          | error e => simp [Except.map]
          | ok b' => simp [Except.map, hs]
        · simp [herr, hs]

theorem openBlob_after (ht : TieredFrom codec s t H) {d : Digest} {raw : Bytes}
    (h : s.openBlob d = .ok raw) :
    (¬ (d ∈ H ∧ s.hot.contains d = true) ∧ t.openBlob d = .ok raw) ∨
      ((d ∈ H ∧ s.hot.contains d = true) ∧ t.openBlob d = .error .noSuchKey) := by
  have hv := ht.view d
  by_cases hlost : d ∈ H ∧ s.hot.contains d = true
  · refine Or.inr ⟨hlost,?_⟩
    rw [if_pos hlost.1] at hv
    obtain ⟨f,hf⟩ := Option.isSome_iff_exists.mp hlost.2
    have hloc : t.locations.get d = none := by
      have := congrArg BlobView.location hv
      simp only [tierView, StoreState.view, hf, BlobView.remove] at this
      rw [this]
      cases hl : s.locations.get d with
      | none => rfl
      | some l => cases l <;> rfl
    have hnq : d ∉ s.quarantined := by
      intro hin
      simp [StoreState.openBlob, hin] at h
    simp [StoreState.openBlob, ht.quarantined, hnq, hloc]
  · refine Or.inl ⟨hlost,?_⟩
    have hsame : t.view d = s.view d := by
      rw [hv]
      split_ifs with hin
      · have hf : s.hot.get d = none := by
          simpa [Dict.contains] using fun hc => hlost ⟨hin,hc⟩
        simp only [tierView, StoreState.view, hf]
      · rfl
    rw [openBlob_congr t s d hsame ht.quarantined, h]

variable (fromBytes : Bytes → Option Manifest)

def servedDigests (v : LiveVersion) (start stop : ℕ) : List Digest :=
  match v.blobKind with
  | .whole => [v.digest]
  | .manifest =>
    match loadManifest fromBytes s v.digest with
    | .error _ => []
    | .ok m => (mapRange m start stop).map ChunkSlice.digest

theorem openReader_whole {v : LiveVersion} (hk : v.blobKind = .whole) {start stop : ℕ}
    (hle : start ≤ stop) (hlt : stop < v.size) :
    openReader codec fromBytes s v start stop =
      openChunkSlice codec s ⟨v.digest,start,stop+1-start⟩ := by
  have hstop : start+(stop+1-start)-1 = stop := by omega
  simp only [openReader, hk, openChunkSlice, hstop, if_neg (show ¬ v.size = 0 by omega),
    if_neg (show ¬ v.size ≤ stop by omega)]

/-- A GET after the migrations: a manifest must not have been migrated, and no served
blob may be stranded. -/
theorem openReader_after (hca : ContentAddressed codec payload s) (ht : TieredFrom codec s t H)
    (v : LiveVersion) (start stop : ℕ) (hle : start ≤ stop) (hlt : stop < v.size) (bytes : Bytes)
    (h : openReader codec fromBytes s v start stop = .ok bytes) :
    openReader codec fromBytes t v start stop = .ok bytes ↔
      ∀ d ∈ H, s.hot.contains d = true →
        (v.blobKind = .manifest → v.digest ≠ d) ∧
        (s.locations.get d = some .haystack → d ∉ servedDigests s fromBytes v start stop) := by
  cases hk : v.blobKind with
  | whole =>
    rw [openReader_whole codec s fromBytes hk hle hlt] at h
    rw [openReader_whole codec t fromBytes hk hle hlt]
    simp only [servedDigests, hk, List.mem_singleton, reduceCtorEq, false_implies, true_and]
    rcases openChunkSlice_after codec payload s t H hca ht _ (by simp only; omega) bytes h with
      ⟨hs,hok⟩ | ⟨hs,herr⟩
    · rw [hok]
      simp only [true_iff]
      intro d hd hhot hloc hdv
      exact hs ⟨hdv ▸ hd,hdv ▸ hhot,hdv ▸ hloc⟩
    · rw [herr]
      simp only [reduceCtorEq, false_iff]
      exact fun hall => hall v.digest hs.1 hs.2.1 hs.2.2 rfl
  | manifest =>
    have hne : ¬ v.size = 0 := by omega
    simp only [openReader, hne, if_false, hk] at h ⊢
    cases hm : loadManifest fromBytes s v.digest with
    | error e =>
      rw [hm] at h
      cases h
    | ok m =>
      rw [hm] at h
      simp only [servedDigests, hk, hm, forall_const]
      obtain ⟨raw,hopen,hparse⟩ := (loadManifest_ok_iff fromBytes s v.digest m).mp hm
      rcases openBlob_after codec s t H ht hopen with ⟨hkeep,hok⟩ | ⟨hlost,herr⟩
      · have hm' : loadManifest fromBytes t v.digest = .ok m :=
          (loadManifest_ok_iff fromBytes t v.digest m).mpr ⟨raw,hok,hparse⟩
        rw [hm']
        simp only
        rw [openSlices_after codec payload s t H hca ht (mapRange m start stop)
          (fun c hc => (mapRangeFrom_inside _ _ _ _ c hc).1) bytes h]
        constructor
        · intro hall d hd hhot
          refine ⟨fun hdv => hkeep ⟨hdv ▸ hd,hdv ▸ hhot⟩,fun hloc hmem => ?_⟩
          obtain ⟨c,hc,rfl⟩ := List.mem_map.mp hmem
          exact hall c hc ⟨hd,hhot,hloc⟩
        · intro hall c hc hs
          exact (hall c.digest hs.1 hs.2.1).2 hs.2.2 (List.mem_map_of_mem hc)
      · have hm' : loadManifest fromBytes t v.digest = .error (.app .noSuchKey) := by
          simp only [loadManifest, herr]
        rw [hm']
        simp only [reduceCtorEq, false_iff]
        exact fun hall => (hall v.digest hlost.1 hlost.2).1 rfl

/-- A version that the sweep has not deleted resolves as before. -/
theorem indexResolve_swept {now : ℤ} {predates : ℤ → ℤ → ℤ → Bool} {w w' : SweepWorld}
    {bs : List Bucket} (h : Swept now codec predates bs w w') {b : Bucket} {k : Key}
    {ref : ObjectRef} {r : ResolvedObject}
    (hres : indexResolve (rowOf w.index b k) ref = .ok r)
    (hkept : ∃ m, rowOf w'.index b k = some m ∧ r.versionId ∈ m.versions.map VersionEntry.id) :
    indexResolve (rowOf w'.index b k) ref = .ok r := by
  cases hrow : rowOf w.index b k with
  | none =>
    rw [hrow] at hres
    cases hres
  | some m =>
    rw [hrow] at hres
    obtain ⟨st,hst,hm⟩ := Option.bind_eq_some_iff.mp hrow
    obtain ⟨st',hst',hrows⟩ := h.rows b st hst
    obtain ⟨m',hm',hid⟩ := hkept
    have hafter := hrows k
    simp only [rowOf, hst', Option.bind_some] at hm'
    rw [hm, hm', Option.bind_some] at hafter
    simp only [rowOf, hst', Option.bind_some, hm', indexResolve]
    split_ifs at hafter with hreached
    · unfold BucketState.rowAfter at hafter
      split_ifs at hafter with hexp hreap
      · -- reaping left the version, and with it what the reference means
        have hsame := (without_eq_some hafter.symm).2
        obtain ⟨e,he,heid⟩ := List.mem_map.mp hid
        rw [hsame] at he
        have hnot := (List.mem_filter.mp he).2
        obtain ⟨_,_,_,_,hr⟩ := resolveLive_mem hres
        rw [resolveLive_without hafter.symm]
        · exact hres
        · rw [← hr, ← heid]
          simpa using hnot
      · cases hafter
        exact hres
    · cases hafter
      exact hres

/-- Exactly when neither the manifest nor a served blob that is packed and hot is migrated. -/
theorem sweep_transparent_iff (now : ℤ) (predates : ℤ → ℤ → ℤ → Bool) (w : SweepWorld)
    (bs : List Bucket) (hbs : bs.Perm w.index.keys) (hca : ContentAddressed codec payload w.store)
    (bucket : Bucket) (key : Key) (ref : ObjectRef) (r : ResolvedObject)
    (hres : indexResolve (rowOf w.index bucket key) ref = .ok r) (start stop : ℕ)
    (hle : start ≤ stop) (hlt : stop < r.live.size) (bytes : Bytes)
    (hread : openReader codec fromBytes w.store r.live start stop = .ok bytes)
    (hkept : ∃ m, rowOf (runOnceAt now codec predates bs w).1.index bucket key = some m ∧
      r.versionId ∈ m.versions.map VersionEntry.id) :
    (indexResolve (rowOf (runOnceAt now codec predates bs w).1.index bucket key) ref = .ok r ∧
      openReader codec fromBytes (runOnceAt now codec predates bs w).1.store r.live start stop =
        .ok bytes) ↔
    ∀ d ∈ migrated now w bs, w.store.hot.contains d = true →
      (r.live.blobKind = .manifest → r.live.digest ≠ d) ∧
      (w.store.locations.get d = some .haystack →
        d ∉ servedDigests w.store fromBytes r.live start stop) := by
  obtain ⟨hswept,_⟩ := runOnceAt_swept now codec predates
    (hbs.nodup_iff.mpr w.index.nodup) (fun _ => (mem_buckets_iff hbs).mp)
  have hstill := indexResolve_swept codec hswept hres hkept
  rw [openReader_after codec payload w.store _ _ fromBytes hca ⟨hswept.view,hswept.quarantined⟩
    r.live start stop hle hlt bytes hread]
  simp [hstill]

end

def abcWorld (digest : Digest) (kind : BlobKind) : SweepWorld where
  index := Dict.empty.set photosBucket ⟨[ageRule (some 1) none],
    Dict.empty.set keyA (ObjectMeta.newLive { abcVersion with
      digest := digest
      blobKind := kind } 0)⟩
  store := abcStore
  uploads := none
  report := ⟨0,0,0,0,0⟩

theorem sweep_transparent_whole :
    openReader abcCodec abcFromBytes (runOnceAt tenDays abcCodec predatesExactly [photosBucket]
      (abcWorld abcDigest .whole)).1.store { abcVersion with blobKind := .whole } 0 2 =
        .ok [97, 98, 99] :=
  ((sweep_transparent_iff abcCodec abcPayload abcFromBytes tenDays predatesExactly
    (abcWorld abcDigest .whole) [photosBucket] (by decide +kernel) abcStore_contentAddressed
    photosBucket keyA none ⟨1,{ abcVersion with blobKind := .whole },0⟩ (by decide +kernel) 0 2
    (by decide) (by decide) [97, 98, 99] (by decide +kernel)
    ⟨_,rfl,by decide +kernel⟩).mpr (by decide +kernel)).2

/-- A chunked object is readable until a sweep tiers its manifest. -/
theorem sweep_breaks_manifest :
    let w := abcWorld abcManifestDigest .manifest
    let r := runOnceAt tenDays abcCodec predatesExactly [photosBucket] w
    let version := { abcVersion with digest := abcManifestDigest, blobKind := .manifest }
    validateCoherent [ageRule (some 1) none] = .ok () ∧
    indexResolve (rowOf w.index photosBucket keyA) none = .ok ⟨1,version,0⟩ ∧
    openReader abcCodec abcFromBytes w.store version 0 2 = .ok [97, 98, 99] ∧
    indexResolve (rowOf r.1.index photosBucket keyA) none = .ok ⟨1,version,0⟩ ∧
    openReader abcCodec abcFromBytes r.1.store version 0 2 = .error (.app .noSuchKey) := by
  -- one evaluation: the parts share the sweep
  decide +kernel

end BackendGauntlet.ObjectStore
