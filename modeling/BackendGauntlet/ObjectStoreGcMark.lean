import BackendGauntlet.ObjectStoreManifest

/-! Mark and sweep with nothing running beside it. -/
namespace BackendGauntlet.ObjectStore

open List

inductive RowFile
  | row (m : ObjectMeta)
  | corrupt
deriving DecidableEq

structure BucketFiles where
  objects : List RowFile
  tmp : List RowFile

def RowFile.row? : RowFile → Option ObjectMeta
  | .row m => some m
  | .corrupt => none

/-- Rows under `objects/`; a corrupt one ends the scan. -/
def scanCommitted (buckets : List BucketFiles) : Except OpError (List ObjectMeta) :=
  if (buckets.flatMap BucketFiles.objects).any (fun f => f.row?.isNone) then
    .error .validationError
  else .ok ((buckets.flatMap BucketFiles.objects).filterMap RowFile.row?)

/-- Rows under `tmp/`; a corrupt one is skipped. -/
def scanInFlight (buckets : List BucketFiles) : List ObjectMeta :=
  (buckets.flatMap BucketFiles.tmp).filterMap RowFile.row?

section
variable (fromBytes : Bytes → Option Manifest)

/-- An application error on a manifest skips its chunks; a validation error propagates. -/
def markVersions (s : StoreState) : List Digest → List VersionEntry →
    Except OpError (List Digest)
  | referenced, [] => .ok referenced
  | referenced, e :: es =>
    match e.asLive with
    | none => markVersions s referenced es
    | some v =>
      match v.blobKind with
      | .whole => markVersions s (referenced ++ [v.digest]) es
      | .manifest =>
        match chunkDigests fromBytes s v.digest with
        | .ok chunks => markVersions s (referenced ++ [v.digest] ++ chunks) es
        | .error (.app _) => markVersions s (referenced ++ [v.digest]) es
        | .error err => .error err

def markAll (s : StoreState) : List Digest → List ObjectMeta → Except OpError (List Digest)
  | referenced, [] => .ok referenced
  | referenced, m :: ms =>
    match markVersions fromBytes s referenced m.versions with
    | .error err => .error err
    | .ok referenced => markAll s referenced ms

def collectReferencedDigests (s : StoreState) (buckets : List BucketFiles) :
    Except OpError (List Digest) :=
  match scanCommitted buckets with
  | .error err => .error err
  | .ok committed => markAll fromBytes s [] (committed ++ scanInFlight buckets)

def sweepCandidates (s : StoreState) (referenced : List Digest) (cutoff : ℤ) : List Digest :=
  (s.hot.entries.filter (fun e => e.1 ∉ referenced && e.2.mtime ≤ cutoff)).map Prod.fst

def gc (s : StoreState) (buckets : List BucketFiles) (now grace : ℤ) :
    Except OpError ℕ × StoreState :=
  match collectReferencedDigests fromBytes s buckets with
  | .error err => (.error err,s)
  | .ok referenced =>
    let candidates := sweepCandidates s referenced (now-grace)
    (.ok candidates.length,candidates.foldl StoreState.remove s)

end

def committedVersions (buckets : List BucketFiles) : List LiveVersion :=
  ((buckets.flatMap BucketFiles.objects).filterMap RowFile.row?).flatMap
    (fun m => m.versions.filterMap VersionEntry.asLive)

def scannedVersions (buckets : List BucketFiles) : List LiveVersion :=
  committedVersions buckets ++ (scanInFlight buckets).flatMap
    (fun m => m.versions.filterMap VersionEntry.asLive)

section
variable (fromBytes : Bytes → Option Manifest) (payload : Digest → Bytes)

def listedChunks (d : Digest) : List Digest :=
  match fromBytes (payload d) with
  | none => []
  | some m => m.chunks.map ChunkRef.digest

def neededDigests (v : LiveVersion) : List Digest :=
  match v.blobKind with
  | .whole => [v.digest]
  | .manifest => v.digest :: listedChunks fromBytes payload v.digest

/-- The collector refuses to sweep: a committed row is corrupt, or a manifest opens but
does not parse. -/
def CollectorStops (s : StoreState) (buckets : List BucketFiles) : Prop :=
  RowFile.corrupt ∈ buckets.flatMap BucketFiles.objects ∨
  ∃ v ∈ scannedVersions buckets, v.blobKind = .manifest ∧
    ∃ raw, s.openBlob v.digest = .ok raw ∧ fromBytes raw = none

/-- Some scanned version names the blob, or a manifest that opens lists it. -/
def Protected (s : StoreState) (buckets : List BucketFiles) (d : Digest) : Prop :=
  ∃ v ∈ scannedVersions buckets, d = v.digest ∨
    (v.blobKind = .manifest ∧ (∃ raw, s.openBlob v.digest = .ok raw) ∧
      d ∈ listedChunks fromBytes payload v.digest)

def Sweepable (s : StoreState) (cutoff : ℤ) (d : Digest) : Prop :=
  s.locations.get d ≠ none ∧ ∃ f, s.hot.get d = some f ∧ f.mtime ≤ cutoff

end

theorem remove_idem (v : BlobView) : v.remove.remove = v.remove := by
  obtain ⟨hot,needle,location,cold⟩ := v
  cases location with
  | none => rfl
  | some l => cases l <;> rfl

theorem remove_eq_self_iff (v : BlobView) : v.remove = v ↔ v.location = none := by
  obtain ⟨hot,needle,location,cold⟩ := v
  cases location with
  | none => simp [BlobView.remove]
  | some l => cases l <;> simp [BlobView.remove]

theorem view_foldl_remove (ds : List Digest) (s : StoreState) (x : Digest) :
    (ds.foldl StoreState.remove s).view x =
      if x ∈ ds then (s.view x).remove else s.view x := by
  induction ds generalizing s with
  | nil => simp
  | cons d ds ih =>
    rw [foldl_cons, ih, view_remove]
    by_cases hx : x = d
    · subst hx
      simp [remove_idem]
    · simp [hx]

theorem mem_sweepCandidates (s : StoreState) (referenced : List Digest) (cutoff : ℤ) (d : Digest) :
    d ∈ sweepCandidates s referenced cutoff ↔
      d ∉ referenced ∧ ∃ f, s.hot.get d = some f ∧ f.mtime ≤ cutoff := by
  simp only [sweepCandidates, List.mem_map, mem_filter, Bool.and_eq_true,
    decide_eq_true_eq, Prod.exists, Dict.get_eq_some_iff]
  constructor
  · rintro ⟨x,f,⟨hmem,hn,ht⟩,rfl⟩
    exact ⟨hn,f,hmem,ht⟩
  · rintro ⟨hn,f,hmem,ht⟩
    exact ⟨d,f,⟨hmem,hn,ht⟩,rfl⟩

section
variable (fromBytes : Bytes → Option Manifest)

def Marks (s : StoreState) (v : LiveVersion) (d : Digest) : Prop :=
  d = v.digest ∨ (v.blobKind = .manifest ∧
    ∃ chunks, chunkDigests fromBytes s v.digest = .ok chunks ∧ d ∈ chunks)

theorem markVersions_spec (s : StoreState) (referenced : List Digest) (es : List VersionEntry) :
    (∀ marked, markVersions fromBytes s referenced es = .ok marked →
      ∀ d, d ∈ marked ↔ d ∈ referenced ∨ ∃ v ∈ es.filterMap VersionEntry.asLive,
        Marks fromBytes s v d) ∧
    ((∃ err, markVersions fromBytes s referenced es = .error err) ↔
      ∃ v ∈ es.filterMap VersionEntry.asLive, v.blobKind = .manifest ∧
        ∃ err, chunkDigests fromBytes s v.digest = .error err ∧ ∀ e, err ≠ .app e) := by
  induction es generalizing referenced with
  | nil => simp [markVersions]
  | cons e es ih =>
    cases hlive : e.asLive with
    | none =>
      simp only [markVersions, hlive, filterMap_cons]
      exact ih referenced
    | some v =>
      simp only [markVersions, hlive, filterMap_cons, mem_cons, exists_eq_or_imp]
      cases hk : v.blobKind with
      | whole =>
        obtain ⟨i1,i2⟩ := ih (referenced ++ [v.digest])
        simp only
        refine ⟨fun marked hm d => ?_,?_⟩
        · rw [i1 marked hm d]
          simp [Marks, hk, or_assoc]
        · rw [i2]
          simp
      | manifest =>
        cases hc : chunkDigests fromBytes s v.digest with
        | ok chunks =>
          obtain ⟨i1,i2⟩ := ih (referenced ++ [v.digest] ++ chunks)
          simp only
          refine ⟨fun marked hm d => ?_,?_⟩
          · rw [i1 marked hm d]
            simp [Marks, hk, hc, or_assoc]
          · rw [i2]
            simp
        | error err =>
          cases err with
          | app a =>
            obtain ⟨i1,i2⟩ := ih (referenced ++ [v.digest])
            simp only
            refine ⟨fun marked hm d => ?_,?_⟩
            · rw [i1 marked hm d]
              simp [Marks, hk, hc, or_assoc]
            · rw [i2]
              simp
          | osError | validationError | clientDisconnect => simp

theorem markAll_spec (s : StoreState) (referenced : List Digest) (ms : List ObjectMeta) :
    (∀ marked, markAll fromBytes s referenced ms = .ok marked →
      ∀ d, d ∈ marked ↔ d ∈ referenced ∨
        ∃ v ∈ ms.flatMap (fun m => m.versions.filterMap VersionEntry.asLive),
          Marks fromBytes s v d) ∧
    ((∃ err, markAll fromBytes s referenced ms = .error err) ↔
      ∃ v ∈ ms.flatMap (fun m => m.versions.filterMap VersionEntry.asLive),
        v.blobKind = .manifest ∧
        ∃ err, chunkDigests fromBytes s v.digest = .error err ∧ ∀ e, err ≠ .app e) := by
  induction ms generalizing referenced with
  | nil => simp [markAll]
  | cons m ms ih =>
    obtain ⟨h1,h2⟩ := markVersions_spec fromBytes s referenced m.versions
    simp only [markAll, flatMap_cons, mem_append, or_and_right, exists_or]
    cases hv : markVersions fromBytes s referenced m.versions with
    | error err =>
      rw [hv] at h2
      have hbad := h2.mp ⟨err,rfl⟩
      simp only [reduceCtorEq, false_implies, implies_true, Except.error.injEq, exists_eq',
        true_and, true_iff]
      exact Or.inl hbad
    | ok mid =>
      rw [hv] at h2
      have hgood := mt h2.mpr (by simp)
      obtain ⟨i1,i2⟩ := ih mid
      refine ⟨fun marked hm d => ?_,?_⟩
      · rw [i1 marked hm d, h1 mid hv d, or_assoc]
      · rw [i2]
        simp only [hgood, false_or]

variable (codec : Codec) (payload : Digest → Bytes) (s : StoreState)

theorem openBlob_payload (hca : ContentAddressed codec payload s) {d : Digest} {raw : Bytes}
    (h : s.openBlob d = .ok raw) : raw = payload d := by
  unfold StoreState.openBlob at h
  split_ifs at h
  split at h
  · cases h
  · cases hn : s.needles.get d with
    | none => simp [StoreState.requireReadable, hn, bind, Except.bind] at h
    | some n =>
      simp only [StoreState.requireReadable, hn, bind, Except.bind] at h
      split_ifs at h
      simp only at h
      split_ifs at h
      rw [← Except.ok.inj h, hca.needles d n hn]
  · cases hf : s.hot.get d with
    | none =>
      rw [hf] at h
      cases h
    | some f =>
      rw [hf] at h
      rw [← Except.ok.inj h, hca.hot d f hf]

theorem chunkDigests_cases (hca : ContentAddressed codec payload s) (d : Digest) :
    (∃ e, s.openBlob d = .error e ∧ chunkDigests fromBytes s d = .error (.app e)) ∨
    (∃ raw, s.openBlob d = .ok raw ∧ fromBytes raw = none ∧
      chunkDigests fromBytes s d = .error .validationError) ∨
    (∃ raw, s.openBlob d = .ok raw ∧
      chunkDigests fromBytes s d = .ok (listedChunks fromBytes payload d)) := by
  cases ho : s.openBlob d with
  | error e => exact Or.inl ⟨e,rfl,by simp [chunkDigests, loadManifest, ho, Except.map]⟩
  | ok raw =>
    have hraw := openBlob_payload codec payload s hca ho
    cases hp : fromBytes raw with
    | none =>
      exact Or.inr (Or.inl ⟨raw,rfl,hp,by simp [chunkDigests, loadManifest, ho, hp, Except.map]⟩)
    | some m =>
      refine Or.inr (Or.inr ⟨raw,rfl,?_⟩)
      simp [chunkDigests, loadManifest, ho, hp, Except.map, listedChunks, ← hraw]

theorem scanCommitted_cases (buckets : List BucketFiles) :
    (RowFile.corrupt ∈ buckets.flatMap BucketFiles.objects ∧
      scanCommitted buckets = .error .validationError) ∨
    (RowFile.corrupt ∉ buckets.flatMap BucketFiles.objects ∧
      scanCommitted buckets =
        .ok ((buckets.flatMap BucketFiles.objects).filterMap RowFile.row?)) := by
  have hiff : (buckets.flatMap BucketFiles.objects).any (fun f => f.row?.isNone) = true ↔
      RowFile.corrupt ∈ buckets.flatMap BucketFiles.objects := by
    rw [List.any_eq_true]
    constructor
    · rintro ⟨f,hf,hn⟩
      cases f with
      | row m => cases hn
      | corrupt => exact hf
    · intro hf
      exact ⟨_,hf,rfl⟩
  unfold scanCommitted
  by_cases h : RowFile.corrupt ∈ buckets.flatMap BucketFiles.objects
  · exact Or.inl ⟨h,if_pos (hiff.mpr h)⟩
  · exact Or.inr ⟨h,if_neg (fun hc => h (hiff.mp hc))⟩

/-- The mark phase fails exactly when it must stop, and else gives the protected digests. -/
theorem collectReferencedDigests_spec (hca : ContentAddressed codec payload s)
    (buckets : List BucketFiles) :
    (CollectorStops fromBytes s buckets ∧
      ∃ err, collectReferencedDigests fromBytes s buckets = .error err) ∨
    (¬ CollectorStops fromBytes s buckets ∧
      ∃ marked, collectReferencedDigests fromBytes s buckets = .ok marked ∧
        ∀ d, d ∈ marked ↔ Protected fromBytes payload s buckets d) := by
  rcases scanCommitted_cases buckets with ⟨hcor,hscan⟩ | ⟨hclean,hscan⟩
  · exact Or.inl ⟨Or.inl hcor,.validationError,by simp [collectReferencedDigests, hscan]⟩
  · have hcollect : collectReferencedDigests fromBytes s buckets =
        markAll fromBytes s [] ((buckets.flatMap BucketFiles.objects).filterMap RowFile.row? ++
          scanInFlight buckets) := by
      simp only [collectReferencedDigests, hscan]
    have hversions : ((buckets.flatMap BucketFiles.objects).filterMap RowFile.row? ++
        scanInFlight buckets).flatMap (fun m => m.versions.filterMap VersionEntry.asLive) =
        scannedVersions buckets := by
      rw [flatMap_append, scannedVersions, committedVersions]
    obtain ⟨h1,h2⟩ := markAll_spec fromBytes s []
      ((buckets.flatMap BucketFiles.objects).filterMap RowFile.row? ++ scanInFlight buckets)
    rw [hversions, ← hcollect] at h1 h2
    cases hres : collectReferencedDigests fromBytes s buckets with
    | error err =>
      obtain ⟨v,hv,hk,e,he,hne⟩ := h2.mp ⟨err,hres⟩
      refine Or.inl ⟨Or.inr ⟨v,hv,hk,?_⟩,err,rfl⟩
      rcases chunkDigests_cases fromBytes codec payload s hca v.digest with
        ⟨a,_,hc⟩ | ⟨raw,ho,hp,_⟩ | ⟨raw,_,hc⟩
      · rw [he] at hc
        exact False.elim (hne a (Except.error.inj hc))
      · exact ⟨raw,ho,hp⟩
      · rw [he] at hc
        exact absurd hc (by simp)
    | ok marked =>
      refine Or.inr ⟨?_,marked,rfl,fun d => ?_⟩
      · rintro (hcor | ⟨v,hv,hk,raw,ho,hp⟩)
        · exact hclean hcor
        · have herr := h2.mpr ⟨v,hv,hk,.validationError,by
            simp [chunkDigests, loadManifest, ho, hp, Except.map],by simp⟩
          rw [hres] at herr
          simp at herr
      · rw [h1 marked hres d]
        simp only [not_mem_nil, false_or, Protected]
        refine exists_congr (fun v => and_congr_right (fun _ => or_congr_right
          (and_congr_right (fun _ => ?_))))
        rcases chunkDigests_cases fromBytes codec payload s hca v.digest with
          ⟨a,ho,hc⟩ | ⟨raw,ho,hp,hc⟩ | ⟨raw,ho,hc⟩
        · simp [ho, hc]
        · have hl : listedChunks fromBytes payload v.digest = [] := by
            rw [openBlob_payload codec payload s hca ho] at hp
            simp [listedChunks, hp]
          simp [hc, hl]
        · simp [ho, hc]

theorem gc_view (hca : ContentAddressed codec payload s) (buckets : List BucketFiles)
    (now grace : ℤ) (d : Digest) :
    (gc fromBytes s buckets now grace).2.view d = s.view d ↔
      CollectorStops fromBytes s buckets ∨
        (Sweepable s (now-grace) d → Protected fromBytes payload s buckets d) := by
  unfold gc
  rcases collectReferencedDigests_spec fromBytes codec payload s hca buckets with
    ⟨hstop,err,hres⟩ | ⟨hgo,marked,hres,hmarked⟩
  · simp [hres, hstop]
  · have hcand := mem_sweepCandidates s marked (now-grace) d
    rw [hmarked] at hcand
    simp only [hres, hgo, false_or, view_foldl_remove]
    by_cases hc : d ∈ sweepCandidates s marked (now-grace)
    · obtain ⟨hn,hf⟩ := hcand.mp hc
      rw [if_pos hc, remove_eq_self_iff]
      simp [StoreState.view, Sweepable, hn, hf]
    · rw [if_neg hc]
      simp only [true_iff]
      rintro ⟨_,hf⟩
      exact not_not.mp (fun hn => hc (hcand.mpr ⟨hn,hf⟩))

/-- What versions need is spared exactly when no chunk within reach is protected by an unopenable
manifest alone. -/
theorem gc_keeps_needed_iff (hca : ContentAddressed codec payload s) (buckets : List BucketFiles)
    (now grace : ℤ) :
    (∀ v ∈ committedVersions buckets, ∀ d ∈ neededDigests fromBytes payload v,
      (gc fromBytes s buckets now grace).2.view d = s.view d) ↔
    CollectorStops fromBytes s buckets ∨
      ∀ v ∈ committedVersions buckets, v.blobKind = .manifest →
        (∀ raw, s.openBlob v.digest ≠ .ok raw) →
        ∀ d ∈ listedChunks fromBytes payload v.digest,
          Sweepable s (now-grace) d → Protected fromBytes payload s buckets d := by
  simp only [gc_view fromBytes codec payload s hca]
  by_cases hstop : CollectorStops fromBytes s buckets
  · simp [hstop]
  simp only [hstop, false_or]
  constructor
  · intro h v hv hk _ d hd hs
    exact h v hv d (by simp [neededDigests, hk, hd]) hs
  · intro h v hv d hd hs
    have hscan : v ∈ scannedVersions buckets := mem_append_left _ hv
    cases hk : v.blobKind with
    | whole =>
      simp only [neededDigests, hk, mem_singleton] at hd
      exact ⟨v,hscan,Or.inl hd⟩
    | manifest =>
      simp only [neededDigests, hk, mem_cons] at hd
      rcases hd with hd | hd
      · exact ⟨v,hscan,Or.inl hd⟩
      · by_cases ho : ∃ raw, s.openBlob v.digest = .ok raw
        · exact ⟨v,hscan,Or.inr ⟨hk,ho,hd⟩⟩
        · exact h v hv hk (fun raw hr => ho ⟨raw,hr⟩) d hd hs

end

def abcFiles : List BucketFiles :=
  [⟨[.row (ObjectMeta.newLive ⟨abcManifestDigest,"900150983cd24fb0d6963f7d28e17f72".toList,3,
    "text/plain".toList,.manifest⟩ 0)],[]⟩]

theorem gc_keeps_needed_abc :
    (gc abcFromBytes abcStore abcFiles 100000000 60000000).2.view abcDigest =
      abcStore.view abcDigest := by
  refine (gc_keeps_needed_iff abcFromBytes abcCodec abcPayload abcStore abcStore_contentAddressed
    abcFiles 100000000 60000000).mpr (Or.inr ?_) ⟨abcManifestDigest,
      "900150983cd24fb0d6963f7d28e17f72".toList,3,"text/plain".toList,.manifest⟩
    (by decide +kernel) abcDigest (by decide +kernel)
  intro v hv hk hno
  have hopen : ∀ v ∈ committedVersions abcFiles,
      abcStore.openBlob v.digest = .ok abcManifestBytes := by decide +kernel
  exact absurd (hopen v hv) (hno abcManifestBytes)

def abcQuarantined : StoreState :=
  { abcStore with
    hot := abcStore.hot.erase abcManifestDigest
    locations := abcStore.locations.erase abcManifestDigest
    quarantined := [abcManifestDigest] }

/-- Behind a quarantined manifest the chunk is swept, although the version needs it. -/
theorem gc_sweeps_quarantined_chunks :
    (⟨abcManifestDigest,"900150983cd24fb0d6963f7d28e17f72".toList,3,"text/plain".toList,
      .manifest⟩ : LiveVersion) ∈ committedVersions abcFiles ∧
    abcDigest ∈ neededDigests abcFromBytes abcPayload ⟨abcManifestDigest,
      "900150983cd24fb0d6963f7d28e17f72".toList,3,"text/plain".toList,.manifest⟩ ∧
    (abcQuarantined.view abcDigest).hot = some ⟨[97, 98, 99],0⟩ ∧
    ((gc abcFromBytes abcQuarantined abcFiles 100000000 60000000).2.view abcDigest).hot = none := by
  -- one evaluation: the parts share the run of the collector
  decide +kernel

end BackendGauntlet.ObjectStore
