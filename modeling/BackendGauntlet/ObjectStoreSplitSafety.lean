import BackendGauntlet.ObjectStoreSplit
import BackendGauntlet.ObjectStoreGcRaceSafety

/-! What keeps the blobs of acknowledged PUTs when another process collects. -/
namespace BackendGauntlet.ObjectStore

open Transition List Option Dict

variable {d : Digest} {bk : Bucket × Key} {s t : SplitState} {g i : ℕ} {p : SplitPut}
  {c : Collection} {cfg : RaceConfig}

section
variable (fromBytes : Bytes → Option Manifest) (payload : Digest → Bytes)

def rowBlobs (m : ObjectMeta) : List Digest :=
  (m.versions.filterMap VersionEntry.asLive).flatMap (neededDigests fromBytes payload)

def RowNeeds (rows : Dict (Bucket × Key) ObjectMeta) (bk : Bucket × Key) (d : Digest) : Prop :=
  ∃ m, rows.get bk = some m ∧ d ∈ rowBlobs fromBytes payload m

theorem mem_rowBlobs_putRow {current : Option ObjectMeta} {v : NewVersion} {now : ℤ} :
    d ∈ rowBlobs fromBytes payload (putRow current v now) ↔ d ∈ neededDigests fromBytes payload v ∨
        ∃ m, current = some m ∧ d ∈ rowBlobs fromBytes payload m := by
  cases current with
  | none => simp [putRow, ObjectMeta.newLive, rowBlobs, VersionEntry.asLive]
  | some m =>
    simp only [putRow, ObjectMeta.appendLive, rowBlobs, filterMap_append,
      flatMap_append, mem_append, some.injEq, exists_eq_left']
    simp [VersionEntry.asLive, or_comm]

theorem rowBlobs_removeVersion {m m' : ObjectMeta} {id : VersionId}
    (h : m.removeVersion id = some m') (hd : d ∈ rowBlobs fromBytes payload m') :
    d ∈ rowBlobs fromBytes payload m := by
  unfold ObjectMeta.removeVersion at h
  simp only at h
  split_ifs at h <;>
  · rw [← some.inj h] at hd
    simp only [rowBlobs, mem_flatMap, mem_filterMap, mem_filter] at hd ⊢
    obtain ⟨v,⟨e,⟨he,_⟩,hv⟩,hd⟩ := hd
    exact ⟨v,⟨e,he,hv⟩,hd⟩

theorem rowNeeds_erase {rows : Dict (Bucket × Key) ObjectMeta} {bk' : Bucket × Key}
    (h : RowNeeds fromBytes payload (rows.erase bk) bk' d) :
    RowNeeds fromBytes payload rows bk' d := by
  obtain ⟨m,hm,hd⟩ := h
  exact ⟨m,get_of_get_erase hm,hd⟩

def CollectPhase.Pending : CollectPhase → Bucket × Key → Prop
  | .buckets todo, bk => bk.1 ∈ todo
  | .rows _ todo rest, bk => bk ∈ todo ∨ bk.1 ∈ rest
  | .tmp _ rest, bk => bk.1 ∈ rest
  | _, _ => False

def Collection.unmarked (c : Collection) : List ObjectMeta :=
  match c.phase with
  | .buckets _ => c.committed ++ c.inFlight
  | .rows _ _ _ => c.committed ++ c.inFlight
  | .tmp _ _ => c.committed ++ c.inFlight
  | .marking todo => todo
  | .listing _ => []
  | .sweeping => []

def Collection.Covers (c : Collection) (bk : Bucket × Key) (d : Digest) : Prop :=
  c.phase.Pending bk ∨ (∃ m ∈ c.unmarked, d ∈ rowBlobs fromBytes payload m) ∨ d ∈ c.referenced

structure CollectionInv (rows : Dict (Bucket × Key) ObjectMeta) (c : Collection) : Prop where
  covered : ∀ bk d, RowNeeds fromBytes payload rows bk d → c.Covers fromBytes payload bk d
  doomed : ∀ d ∈ c.candidates, ∀ bk, ¬ RowNeeds fromBytes payload rows bk d
  popped : ∀ d l, c.popped = some (d,l) → ∀ bk, ¬ RowNeeds fromBytes payload rows bk d

structure SplitHeldInv (rows : Dict (Bucket × Key) ObjectMeta) (disk : BlobDisk)
    (bk : Bucket × Key) (h : SplitHeld) : Prop where
  grows : ∀ v, h.carried = some v →
    (∀ d, RowNeeds fromBytes payload rows bk d → d ∈ rowBlobs fromBytes payload h.row) ∧
      ∀ d ∈ neededDigests fromBytes payload v, d ∈ rowBlobs fromBytes payload h.row
  shrinks : h.carried = none →
    ∀ d ∈ rowBlobs fromBytes payload h.row, RowNeeds fromBytes payload rows bk d
  stored : ∀ d ∈ rowBlobs fromBytes payload h.row, disk.has d = true

structure SplitPutInv (disk : BlobDisk) (p : SplitPut) : Prop where
  parts : ∀ d ∈ neededDigests fromBytes payload p.version, d ∈ p.parts ∨ disk.has d = true
  published : p.stage = .published → ∀ d ∈ p.parts.head?, disk.has d = true

structure SplitInv (s : SplitState) : Prop where
  hot : ∀ d f, s.disk.hot.get d = some f → f.content = payload d
  needles : ∀ d n, s.disk.needles.get d = some n → n.content = payload d
  service : ∀ d n, s.service.needles.get d = some n → n.content = payload d
  stored : ∀ bk d, RowNeeds fromBytes payload s.rows bk d → s.disk.has d = true
  held : ∀ bk h, s.held.get bk = some h → SplitHeldInv fromBytes payload s.rows s.disk bk h
  puts : ∀ i p, s.puts.get i = some p → SplitPutInv fromBytes payload s.disk p
  quiet : ∀ g c, s.collections.get g = some c → s.putInFlight = false
  collections : ∀ g c, s.collections.get g = some c → CollectionInv fromBytes payload s.rows c
  acked : ∀ e ∈ s.acked, ∀ d ∈ neededDigests fromBytes payload e.2,
    RowNeeds fromBytes payload s.rows e.1 d
  dirsRows : ∀ bk m, s.rows.get bk = some m → bk.1 ∈ s.bucketDirs
  dirsHeld : ∀ bk h, s.held.get bk = some h → h.staged = true → bk.1 ∈ s.bucketDirs

end

theorem putInFlight_eq_false (s : SplitState) :
    s.putInFlight = false ↔ (∀ i, s.puts.get i = none) ∧
      ∀ bk h, s.held.get bk = some h → h.carried = none := by
  simp only [SplitState.putInFlight, Bool.or_eq_false_iff, Bool.not_eq_false', Dict.isEmpty_iff,
    List.any_eq_false, Option.not_isSome_iff_eq_none]
  refine and_congr_right fun _ => ?_
  constructor
  · intro h bk x hx
    exact h (bk,x) (Dict.get_eq_some_iff.mp hx)
  · intro h e he
    exact h e.1 e.2 (Dict.get_eq_some_iff.mpr he)

theorem idle_iff (s : SplitState) :
    s.idle = true ↔ (∀ i, s.puts.get i = none) ∧ (∀ bk, s.held.get bk = none) ∧
      ∀ g, s.collections.get g = none := by
  simp only [SplitState.idle, Bool.and_eq_true, Dict.isEmpty_iff, and_assoc]

section
variable (payload : Digest → Bytes)

def BlobDisk.Addressed (disk : BlobDisk) : Prop :=
  (∀ d f, disk.hot.get d = some f → f.content = payload d) ∧
    ∀ d n, disk.needles.get d = some n → n.content = payload d

theorem publishPart_spec (cfg : RaceConfig) (d : Digest) (mtime : ℤ)
    (haddr : s.disk.Addressed payload) :
    ∃ disk front, publishPart payload cfg s d mtime = { s with disk := disk, front := front } ∧
      disk.has d = true ∧ (∀ x, s.disk.has x = true → disk.has x = true) ∧
      disk.Addressed payload := by
  unfold publishPart
  split
  · refine ⟨_,s.front,rfl,by simp [BlobDisk.has, Dict.contains],?_,?_,haddr.2⟩
    · intro x hx
      by_cases hxd : x = d
      · simp [hxd, BlobDisk.has, Dict.contains]
      · simpa [BlobDisk.has, Dict.contains, get_set_ne, hxd] using hx
    · exact forall_get_set haddr.1 rfl
  · refine ⟨_,_,rfl,by simp [BlobDisk.has],?_,haddr.1,?_⟩
    · intro x hx
      by_cases hxd : x = d
      · simp [hxd, BlobDisk.has]
      · simpa [BlobDisk.has, get_set_ne, hxd] using hx
    · exact forall_get_set haddr.2 rfl

theorem content_modify {needles : Dict Digest Needle} {x : Digest}
    (h : ∀ d n, needles.get d = some n → n.content = payload d) :
    ∀ d n, (needles.modify x (fun n => { n with deleted := true })).get d = some n →
      n.content = payload d := by
  intro d n hn
  rw [get_modify] at hn
  split_ifs at hn with hd
  · obtain ⟨n',hn',rfl⟩ := map_eq_some_iff.mp hn
    exact hd ▸ h d n' (hd ▸ hn')
  · exact h d n hn

theorem serviceRemove_spec (l : BlobLocation) (d : Digest) (haddr : s.disk.Addressed payload)
    (hservice : ∀ d n, s.service.needles.get d = some n → n.content = payload d) :
    ∃ disk service, serviceRemove s l d = { s with disk := disk, service := service } ∧
      (∀ x, x ≠ d → s.disk.has x = true → disk.has x = true) ∧ disk.Addressed payload ∧
      ∀ d n, service.needles.get d = some n → n.content = payload d := by
  unfold serviceRemove
  split
  · refine ⟨_,s.service,rfl,?_,⟨?_,haddr.2⟩,hservice⟩
    · intro x hx hh
      simpa [BlobDisk.has, Dict.contains, get_erase, hx] using hh
    · exact fun x f hf => haddr.1 x f (get_of_get_erase hf)
  · split
    · exact ⟨s.disk,s.service,rfl,fun _ _ h => h,haddr,hservice⟩
    · split
      · exact ⟨s.disk,s.service,rfl,fun _ _ h => h,haddr,hservice⟩
      · refine ⟨_,_,rfl,?_,⟨haddr.1,content_modify payload haddr.2⟩,
          content_modify payload hservice⟩
        intro x hx hh
        simpa [BlobDisk.has, get_modify, hx] using hh

end

section
variable (fromBytes : Bytes → Option Manifest) (payload : Digest → Bytes)

theorem CollectionInv.mono (rows rows' : Dict (Bucket × Key) ObjectMeta) (c : Collection)
    (h : CollectionInv fromBytes payload rows c)
    (hr : ∀ bk d, RowNeeds fromBytes payload rows' bk d → RowNeeds fromBytes payload rows bk d) :
    CollectionInv fromBytes payload rows' c where
  covered := fun bk d hd => h.covered bk d (hr bk d hd)
  doomed := fun d hd bk hn => h.doomed d hd bk (hr bk d hn)
  popped := fun d l hp bk hn => h.popped d l hp bk (hr bk d hn)

variable {fromBytes payload}

theorem splitInv_opened (s : SplitState) (h : BothOpened fromBytes payload s) :
    SplitInv fromBytes payload s := by
  obtain ⟨hputs,hheld,hcollections⟩ := (idle_iff s).mp h.idle
  refine ⟨h.hot,h.needles,?_,?_,?_,?_,?_,?_,?_,h.dirs,?_⟩
  · rw [h.service]
    exact h.needles
  · rintro bk d ⟨m,hm,hd⟩
    obtain ⟨v,hv,hd⟩ := mem_flatMap.mp hd
    exact h.blobs.rows bk m hm v hv d hd
  · exact fun bk x hx => absurd hx (by simp [hheld bk])
  · exact fun i p hp => absurd hp (by simp [hputs i])
  · exact fun g c hc => absurd hc (by simp [hcollections g])
  · exact fun g c hc => absurd hc (by simp [hcollections g])
  · exact fun e he => absurd he (by simp [h.noAcked])
  · exact fun bk x hx => absurd hx (by simp [hheld bk])

theorem blobsOnDisk_of_inv (hI : SplitInv fromBytes payload s) :
    BlobsOnDisk fromBytes payload s where
  acked := fun e he d hd => hI.stored e.1 d (hI.acked e he d hd)
  rows := fun bk m hm v hv d hd => hI.stored bk d ⟨m,hm,mem_flatMap.mpr ⟨v,hv,hd⟩⟩

section
variable (s : SplitState) (hI : SplitInv fromBytes payload s)
include hI

theorem noCollections_of_put (hp : s.puts.get i = some p) (g : ℕ) :
    s.collections.get g = none := by
  cases hc : s.collections.get g with
  | none => rfl
  | some c =>
    have hquiet := (putInFlight_eq_false s).mp (hI.quiet g c hc)
    rw [hquiet.1 i] at hp
    cases hp

theorem splitInv_setPut (i : ℕ) (hc : ∀ g, s.collections.get g = none)
    (hp : SplitPutInv fromBytes payload s.disk p) :
    SplitInv fromBytes payload { s with puts := s.puts.set i p } :=
  { hI with
    puts := forall_get_set hI.puts hp
    quiet := fun g c hg => absurd hg (by simp [hc g]) }

theorem splitInv_dropPut (i : ℕ) :
    SplitInv fromBytes payload { s with puts := s.puts.erase i } :=
  { hI with
    puts := fun j q hq => hI.puts j q (get_of_get_erase hq)
    quiet := by
      intro g c hg
      obtain ⟨hputs,hheld⟩ := (putInFlight_eq_false s).mp (hI.quiet g c hg)
      refine (putInFlight_eq_false _).mpr ⟨fun j => ?_,hheld⟩
      simp [get_erase, hputs j] }

theorem splitInv_growDisk {disk : BlobDisk} (front : StoreProcess)
    (hgrow : ∀ x, s.disk.has x = true → disk.has x = true) (haddr : disk.Addressed payload) :
    SplitInv fromBytes payload { s with disk := disk, front := front } :=
  { hI with
    hot := haddr.1
    needles := haddr.2
    stored := fun bk d hd => hgrow d (hI.stored bk d hd)
    held := fun bk h hh =>
      { hI.held bk h hh with
        stored := fun d hd => hgrow d ((hI.held bk h hh).stored d hd) }
    puts := fun i p hp =>
      ⟨fun d hd => ((hI.puts i p hp).parts d hd).imp_right (hgrow d),
        fun hs d hd => hgrow d ((hI.puts i p hp).published hs d hd)⟩ }

theorem splitPutInv_tail (hp : s.puts.get i = some p)
    {rest : List Digest} (hparts : p.parts = d :: rest) (hd : s.disk.has d = true) :
    SplitPutInv fromBytes payload s.disk { p with parts := rest, stage := .staging } where
  parts := by
    intro x hx
    rcases (hI.puts i p hp).parts x hx with hx | hx
    · rcases mem_cons.mp (hparts ▸ hx) with rfl | hx
      · exact Or.inr hd
      · exact Or.inl hx
    · exact Or.inr hx
  published := fun h => absurd h (by simp)

theorem splitInv_commitPart (cfg : RaceConfig) (hp : s.puts.get i = some p)
    {rest : List Digest} (hparts : p.parts = d :: rest)
    (hok : mapsCurrent s (.putStep i) = true) :
    SplitInv fromBytes payload (commitPart payload cfg s i p d rest) := by
  have hc := noCollections_of_put s hI hp
  have hP := hI.puts i p hp
  unfold commitPart
  split
  · exact splitInv_setPut s hI i hc ⟨hP.parts,fun h => absurd h (by simp)⟩
  · rename_i mtime hstage
    split_ifs with hhit
    · -- The one place where the map of the front-end stands for the disk.
      have hd : s.disk.has d = true := by
        obtain ⟨bucket,key,version,precondition,parts,stage⟩ := p
        subst hparts hstage
        simpa [mapsCurrent, hp, hhit] using hok
      exact splitInv_setPut s hI i hc (splitPutInv_tail s hI hp hparts hd)
    · exact splitInv_setPut s hI i hc ⟨hP.parts,fun h => absurd h (by simp)⟩
  · rename_i mtime hstage
    obtain ⟨disk,front,heq,hd,hgrow,haddr⟩ :=
      publishPart_spec payload cfg d mtime ⟨hI.hot,hI.needles⟩
    rw [heq]
    have hgrown := splitInv_growDisk s hI front hgrow haddr
    refine splitInv_setPut _ hgrown i hc ⟨(hgrown.puts i p hp).parts,?_⟩
    intro _ x hx
    rw [hparts] at hx
    exact some.inj hx ▸ hd
  · rename_i hstage
    have hd : s.disk.has d = true := hP.published hstage d (by simp [hparts])
    have hgrown := splitInv_growDisk s hI
      { s.front with locations := s.front.locations.set d (chooseLocation cfg (payload d).length) }
      (fun _ h => h) ⟨hI.hot,hI.needles⟩
    exact splitInv_setPut _ hgrown i hc (splitPutInv_tail s hI hp hparts hd)

variable (fromBytes payload)

/-- A lock is taken with a row that fits the current one, and by a PUT only when no collection
runs. -/
theorem splitInv_lock (bk : Bucket × Key) (h : SplitHeld)
    (hh : SplitHeldInv fromBytes payload s.rows s.disk bk h)
    (hdirs : h.staged = true → bk.1 ∈ s.bucketDirs)
    (hquiet : ∀ g c, s.collections.get g = some c → h.carried = none) :
    SplitInv fromBytes payload { s with held := s.held.set bk h } :=
  { hI with
    held := forall_get_set hI.held hh
    quiet := by
      intro g c hg
      obtain ⟨hputs,hheld⟩ := (putInFlight_eq_false s).mp (hI.quiet g c hg)
      refine (putInFlight_eq_false _).mpr ⟨hputs,?_⟩
      exact forall_get_set hheld (hquiet g c hg)
    dirsHeld := forall_get_set hI.dirsHeld hdirs }

variable {payload s}

theorem splitInv_lockRow (hp : s.puts.get i = some p)
    (hparts : p.parts = []) (ht : lockRow s i p = some t) :
    SplitInv fromBytes payload t := by
  have hc := noCollections_of_put s hI hp
  unfold lockRow at ht
  split at ht
  · simp at ht
  · simp only at ht
    split at ht
    · exact some.inj ht ▸ splitInv_dropPut s hI i
    · have hlock := splitInv_lock fromBytes payload s hI (p.bucket,p.key)
        ⟨some p.version,putRow (s.rows.get (p.bucket,p.key)) p.version s.clock,false⟩
        (by
          refine ⟨?_,by simp,?_⟩
          · rintro v ⟨⟩
            refine ⟨fun d hd => ?_,fun d hd => ?_⟩
            · exact (mem_rowBlobs_putRow _ _).mpr (Or.inr hd)
            · exact (mem_rowBlobs_putRow _ _).mpr (Or.inl hd)
          · intro d hd
            rcases (mem_rowBlobs_putRow _ _).mp hd with hd | hd
            · exact ((hI.puts i p hp).parts d hd).resolve_left (by simp [hparts])
            · exact hI.stored _ d hd)
        (by simp) (fun g c hg => absurd hg (by simp [hc g]))
      exact some.inj ht ▸ splitInv_dropPut _ hlock i

theorem splitHeldInv_other {rows : Dict (Bucket × Key) ObjectMeta}
    (hother : ∀ bk', bk' ≠ bk → rows.get bk' = s.rows.get bk') (bk' : Bucket × Key) (h : SplitHeld)
    (hg : (s.held.erase bk).get bk' = some h) :
    SplitHeldInv fromBytes payload rows s.disk bk' h := by
  have hb : bk' ≠ bk := by
    intro hb
    rw [hb, get_erase_self] at hg
    cases hg
  have hh := hI.held bk' h (get_of_get_erase hg)
  have hsame (d : Digest) :
      RowNeeds fromBytes payload rows bk' d ↔ RowNeeds fromBytes payload s.rows bk' d := by
    rw [RowNeeds, RowNeeds, hother bk' hb]
  exact ⟨fun v hv => ⟨fun d hd => (hh.grows v hv).1 d ((hsame d).mp hd),(hh.grows v hv).2⟩,
    fun hc d hd => (hsame d).mpr (hh.shrinks hc d hd),hh.stored⟩

theorem splitInv_shrinkRow (rows : Dict (Bucket × Key) ObjectMeta)
    (hother : ∀ bk', bk' ≠ bk → rows.get bk' = s.rows.get bk')
    (hrow : ∀ d, RowNeeds fromBytes payload rows bk d → RowNeeds fromBytes payload s.rows bk d)
    (hdirs : ∀ m, rows.get bk = some m → bk.1 ∈ s.bucketDirs) :
    SplitInv fromBytes payload { s with
      rows := rows
      held := s.held.erase bk
      acked := s.acked.filter (fun e => e.1 ≠ bk) } := by
  have hless (bk' : Bucket × Key) (d : Digest) (h : RowNeeds fromBytes payload rows bk' d) :
      RowNeeds fromBytes payload s.rows bk' d := by
    by_cases hb : bk' = bk
    · subst hb
      exact hrow d h
    · rwa [RowNeeds, ← hother bk' hb]
  refine { hI with
    stored := fun bk' d hd => hI.stored bk' d (hless bk' d hd)
    held := splitHeldInv_other fromBytes hI hother
    quiet := ?_
    collections := fun g c hc => (hI.collections g c hc).mono _ _ _ _ _ hless
    acked := ?_
    dirsRows := ?_
    dirsHeld := fun bk' h hg => hI.dirsHeld bk' h (get_of_get_erase hg) }
  · intro g c hc
    obtain ⟨hputs,hheld⟩ := (putInFlight_eq_false s).mp (hI.quiet g c hc)
    exact (putInFlight_eq_false _).mpr ⟨hputs,fun bk' h hg => hheld bk' h (get_of_get_erase hg)⟩
  · intro e he d hd
    obtain ⟨he,hb⟩ := mem_filter.mp he
    have hneed := hI.acked e he d hd
    rwa [RowNeeds, ← hother e.1 (by simpa using hb)] at hneed
  · intro bk' m hm
    by_cases hb : bk' = bk
    · subst hb
      exact hdirs m hm
    · exact hI.dirsRows bk' m (hother bk' hb ▸ hm)

variable {fromBytes}

theorem splitInv_acknowledge {h : SplitHeld} {v : NewVersion}
    (hg : s.held.get bk = some h) (hv : h.carried = some v) (hstaged : h.staged = true) :
    SplitInv fromBytes payload { s with
      rows := s.rows.set bk h.row
      held := s.held.erase bk
      acked := (bk,v) :: s.acked } := by
  have hH := hI.held bk h hg
  have hother (bk' : Bucket × Key) (hb : bk' ≠ bk) :
      (s.rows.set bk h.row).get bk' = s.rows.get bk' := get_set_ne hb
  have hself (d : Digest) : RowNeeds fromBytes payload (s.rows.set bk h.row) bk d ↔
      d ∈ rowBlobs fromBytes payload h.row := by
    simp [RowNeeds]
  have hkeeps (bk' : Bucket × Key) (d : Digest) (hd : RowNeeds fromBytes payload s.rows bk' d) :
      RowNeeds fromBytes payload (s.rows.set bk h.row) bk' d := by
    by_cases hb : bk' = bk
    · subst hb
      exact (hself d).mpr ((hH.grows v hv).1 d hd)
    · rwa [RowNeeds, hother bk' hb]
  -- A collection would have seen the PUT in flight.
  have hnone (g : ℕ) (c : Collection) : ¬ s.collections.get g = some c := by
    intro hc
    have hcarried := ((putInFlight_eq_false s).mp (hI.quiet g c hc)).2 bk h hg
    rw [hv] at hcarried
    cases hcarried
  refine { hI with
    stored := ?_
    held := splitHeldInv_other fromBytes hI hother
    quiet := fun g c hc => absurd hc (hnone g c)
    collections := fun g c hc => absurd hc (hnone g c)
    acked := ?_
    dirsRows := forall_get_set hI.dirsRows (hI.dirsHeld bk h hg hstaged)
    dirsHeld := fun bk' x hx => hI.dirsHeld bk' x (get_of_get_erase hx) }
  · intro bk' d hd
    by_cases hb : bk' = bk
    · subst hb
      exact hH.stored d ((hself d).mp hd)
    · rw [RowNeeds, hother bk' hb] at hd
      exact hI.stored bk' d hd
  · intro e he d hd
    rcases mem_cons.mp he with rfl | he
    · exact (hself d).mpr ((hH.grows v hv).2 d hd)
    · exact hkeeps e.1 d (hI.acked e he d hd)

theorem splitInv_finishRow (ht : finishRow s bk = some t) :
    SplitInv fromBytes payload t := by
  unfold finishRow at ht
  split at ht
  · simp at ht
  · rename_i h hg
    have hH := hI.held bk h hg
    split_ifs at ht with hempty hstaged
    · refine some.inj ht ▸ splitInv_shrinkRow fromBytes hI _ ?_ ?_ ?_
      · exact fun bk' hb => by simp [get_erase, hb]
      · exact fun d hd => rowNeeds_erase _ _ hd
      · exact fun m hm => hI.dirsRows bk m (get_of_get_erase hm)
    · cases hv : h.carried with
      | some v =>
        rw [hv] at ht
        exact some.inj ht ▸ splitInv_acknowledge hI hg hv hstaged
      | none =>
        rw [hv] at ht
        refine some.inj ht ▸ splitInv_shrinkRow fromBytes hI _ ?_ ?_ ?_
        · exact fun bk' hb => get_set_ne hb
        · rintro d ⟨m,hm,hd⟩
          rw [get_set_self] at hm
          exact hH.shrinks hv d (some.inj hm ▸ hd)
        · exact fun m _ => hI.dirsHeld bk h hg hstaged
    · have hdirs : SplitInv fromBytes payload { s with bucketDirs := bk.1 :: s.bucketDirs } :=
        { hI with
          dirsRows := fun bk' m hm => mem_cons_of_mem _ (hI.dirsRows bk' m hm)
          dirsHeld := fun bk' x hx hs => mem_cons_of_mem _ (hI.dirsHeld bk' x hx hs) }
      refine some.inj ht ▸ splitInv_lock fromBytes payload _ hdirs bk _
        ⟨hH.grows,hH.shrinks,hH.stored⟩ (fun _ => mem_cons_self) ?_
      intro g c hc
      exact ((putInFlight_eq_false s).mp (hI.quiet g c hc)).2 bk h hg

theorem splitInv_deleteLatest (hfree : s.held.get bk = none) :
    SplitInv fromBytes payload { s with
      rows := s.rows.erase bk
      acked := s.acked.filter (fun e => e.1 ≠ bk) } := by
  have h := splitInv_shrinkRow fromBytes hI (s.rows.erase bk)
    (fun bk' hb => by simp [get_erase, hb])
    (fun d hd => rowNeeds_erase _ _ hd)
    (fun m hm => hI.dirsRows bk m (get_of_get_erase hm))
  rwa [erase_eq_self hfree] at h

theorem splitInv_deleteVersion {id : VersionId} {m' : ObjectMeta}
    (hm : (s.rows.get bk).bind (fun m => m.removeVersion id) = some m') :
    SplitInv fromBytes payload { s with held := s.held.set bk ⟨none,m',false⟩ } := by
  obtain ⟨m,hg,hr⟩ := bind_eq_some_iff.mp hm
  have hless (d : Digest) (hd : d ∈ rowBlobs fromBytes payload m') :
      RowNeeds fromBytes payload s.rows bk d :=
    ⟨m,hg,rowBlobs_removeVersion fromBytes payload hr hd⟩
  refine splitInv_lock fromBytes payload s hI bk _ ⟨by simp,fun _ => hless,?_⟩ (by simp)
    (fun _ _ _ => rfl)
  exact fun d hd => hI.stored bk d (hless d hd)

theorem splitInv_setCollection (g : ℕ) (hquiet : s.putInFlight = false)
    (hc : CollectionInv fromBytes payload s.rows c) :
    SplitInv fromBytes payload { s with collections := s.collections.set g c } :=
  { hI with
    quiet := forall_get_set hI.quiet hquiet
    collections := forall_get_set hI.collections hc }

theorem splitInv_endCollection (g : ℕ) :
    SplitInv fromBytes payload { s with collections := s.collections.erase g } :=
  { hI with
    quiet := fun g' c hc => hI.quiet g' c (get_of_get_erase hc)
    collections := fun g' c hc => hI.collections g' c (get_of_get_erase hc) }

theorem splitInv_gcStart (g : ℕ) (hquiet : s.putInFlight = false) :
    SplitInv fromBytes payload { s with
      collections := s.collections.set g ⟨.buckets s.bucketDirs,[],[],[],[],none⟩ } := by
  apply splitInv_setCollection hI g hquiet
  refine ⟨?_,by simp,by simp⟩
  rintro bk d ⟨m,hm,_⟩
  exact Or.inl (hI.dirsRows bk m hm)

theorem splitInv_serviceRemove (l : BlobLocation)
    (hquiet : s.putInFlight = false)
    (hd : ∀ bk, ¬ RowNeeds fromBytes payload s.rows bk d) :
    SplitInv fromBytes payload (serviceRemove s l d) ∧
      (serviceRemove s l d).collections = s.collections ∧
      (serviceRemove s l d).rows = s.rows ∧
      (serviceRemove s l d).putInFlight = s.putInFlight := by
  obtain ⟨hputs,hheld⟩ := (putInFlight_eq_false s).mp hquiet
  obtain ⟨disk,service,heq,hkeep,haddr,hservice⟩ :=
    serviceRemove_spec payload l d ⟨hI.hot,hI.needles⟩ hI.service
  rw [heq]
  have hstored (bk : Bucket × Key) (x : Digest) (hx : RowNeeds fromBytes payload s.rows bk x) :
      disk.has x = true := by
    have hne : x ≠ d := fun h => hd bk (h ▸ hx)
    exact hkeep x hne (hI.stored bk x hx)
  refine ⟨{ hI with
    hot := haddr.1
    needles := haddr.2
    service := hservice
    stored := hstored
    held := ?_
    puts := fun i p hp => absurd hp (by simp [hputs i]) },rfl,rfl,rfl⟩
  intro bk h hg
  have hH := hI.held bk h hg
  exact { hH with stored := fun x hx => hstored bk x (hH.shrinks (hheld bk h hg) x hx) }

theorem marked_of_open {m : ObjectMeta} {referenced marked : List Digest}
    (hopen : ∀ v ∈ m.versions.filterMap VersionEntry.asLive, v.blobKind = .manifest →
      ∃ raw, (s.service.view s.disk).openBlob v.digest = .ok raw)
    (hm : markVersions fromBytes (s.service.view s.disk) referenced m.versions = .ok marked) :
    (∀ d ∈ referenced, d ∈ marked) ∧ ∀ d ∈ rowBlobs fromBytes payload m, d ∈ marked := by
  have hca : ContentAddressed ⟨id,some,fun _ => rfl⟩ payload (s.service.view s.disk) :=
    ⟨hI.hot,hI.service,fun d z hz => absurd hz (by simp [StoreProcess.view])⟩
  obtain ⟨hmem,herr⟩ := markVersions_spec fromBytes (s.service.view s.disk) referenced m.versions
  have hmarks := hmem marked hm
  refine ⟨fun d hd => (hmarks d).mpr (Or.inl hd),?_⟩
  intro d hd
  obtain ⟨v,hv,hd⟩ := mem_flatMap.mp hd
  refine (hmarks d).mpr (Or.inr ⟨v,hv,?_⟩)
  cases hk : v.blobKind with
  | whole =>
    left
    simpa [neededDigests, hk] using hd
  | manifest =>
    obtain ⟨raw,hraw⟩ := hopen v hv hk
    rcases chunkDigests_cases fromBytes _ payload _ hca v.digest with
      ⟨e,he,_⟩ | ⟨raw',hr,hp,hbad⟩ | ⟨raw',hr,hgood⟩
    · rw [hraw] at he
      cases he
    · -- A manifest that does not parse ends the collection before this point.
      obtain ⟨err,herr⟩ := herr.mpr ⟨v,hv,hk,.validationError,hbad,by simp⟩
      rw [hm] at herr
      cases herr
    · rw [neededDigests, hk] at hd
      rcases mem_cons.mp hd with hd | hd
      · exact Or.inl hd
      · exact Or.inr ⟨hk,_,hgood,hd⟩

omit hI in
theorem opens_of_mapsCurrent {x : ObjectMeta} {todo : List ObjectMeta}
    (hg : s.collections.get g = some c) (hphase : c.phase = .marking (x :: todo))
    (hok : mapsCurrent s (.gcStep g) = true) (v : LiveVersion)
    (hv : v ∈ x.versions.filterMap VersionEntry.asLive) (hk : v.blobKind = .manifest) :
    ∃ raw, (s.service.view s.disk).openBlob v.digest = .ok raw := by
  obtain ⟨phase,committed,inFlight,referenced,candidates,popped⟩ := c
  cases hphase
  simp only [mapsCurrent, hg, List.all_eq_true] at hok
  have hv := hok v hv
  simp only [hk, ne_eq, not_true_eq_false, decide_false, Bool.false_or] at hv
  cases ho : (s.service.view s.disk).openBlob v.digest with
  | ok raw => exact ⟨raw,rfl⟩
  | error e =>
    rw [ho] at hv
    cases hv

/-- No step of a collection loses sight of a blob that a row needs. -/
theorem covers_collectStep {c' : Collection}
    (hg : s.collections.get g = some c) (hok : mapsCurrent s (.gcStep g) = true)
    (hstep : (collectStep fromBytes cfg s c).2 = some c')
    (hd : RowNeeds fromBytes payload s.rows bk d) (hcov : c.Covers fromBytes payload bk d) :
    c'.Covers fromBytes payload bk d := by
  obtain ⟨m,hm,hmd⟩ := hd
  obtain ⟨phase,committed,inFlight,referenced,candidates,popped⟩ := c
  cases phase with
  | buckets todo =>
    cases todo with
    | nil =>
      cases hstep
      exact Or.inr (hcov.resolve_left (by simp [CollectPhase.Pending]))
    | cons b rest =>
      cases hstep
      rcases hcov with hp | hcov
      · left
        rcases mem_cons.mp hp with hb | hp
        · have hk : bk ∈ s.rows.keys :=
            List.mem_map_of_mem (f := Prod.fst) (get_eq_some_iff.mp hm)
          exact Or.inl (mem_filter.mpr ⟨hk,by simp [hb]⟩)
        · exact Or.inr hp
      · exact Or.inr hcov
  | rows b todo rest =>
    cases todo with
    | nil =>
      cases hstep
      rcases hcov with hp | hcov
      · exact Or.inl (hp.resolve_left (by simp))
      · exact Or.inr hcov
    | cons bk' todo =>
      cases hstep
      rcases hcov with (hp | hp) | ⟨x,hx,hxd⟩ | hr
      · rcases mem_cons.mp hp with rfl | hp
        · -- The row read now is the one in question.
          exact Or.inr (Or.inl ⟨m,by simp [Collection.unmarked, hm],hmd⟩)
        · exact Or.inl (Or.inl hp)
      · exact Or.inl (Or.inr hp)
      · refine Or.inr (Or.inl ⟨x,?_,hxd⟩)
        simp only [Collection.unmarked, mem_append] at hx ⊢
        exact hx.imp_left Or.inl
      · exact Or.inr (Or.inr hr)
  | tmp todo rest =>
    cases todo with
    | nil =>
      cases hstep
      exact hcov
    | cons bk' todo =>
      cases hstep
      rcases hcov with hp | ⟨x,hx,hxd⟩ | hr
      · exact Or.inl hp
      · refine Or.inr (Or.inl ⟨x,?_,hxd⟩)
        simp only [Collection.unmarked, mem_append] at hx ⊢
        exact hx.imp_right Or.inl
      · exact Or.inr (Or.inr hr)
  | marking todo =>
    cases todo with
    | nil =>
      cases hstep
      exact hcov
    | cons x todo =>
      simp only [collectStep] at hstep
      cases hmark : markVersions fromBytes (s.service.view s.disk) referenced x.versions with
      | error err =>
        rw [hmark] at hstep
        cases hstep
      | ok marked =>
        rw [hmark] at hstep
        cases hstep
        obtain ⟨hkeep,hrow⟩ := marked_of_open hI (opens_of_mapsCurrent hg rfl hok) hmark
        rcases hcov with hp | ⟨y,hy,hyd⟩ | hr
        · cases hp
        · rcases mem_cons.mp hy with rfl | hy
          · exact Or.inr (Or.inr (hrow d hyd))
          · exact Or.inr (Or.inl ⟨y,hy,hyd⟩)
        · exact Or.inr (Or.inr (hkeep d hr))
  | listing cutoff =>
    cases hstep
    exact hcov
  | sweeping =>
    have hsame : c'.phase = .sweeping ∧ c'.referenced = referenced := by
      simp only [collectStep] at hstep
      split at hstep
      · cases hstep
        exact ⟨rfl,rfl⟩
      · cases hstep
      · split at hstep <;>
        · cases hstep
          exact ⟨rfl,rfl⟩
    rcases hcov with hp | ⟨y,hy,_⟩ | hr
    · cases hp
    · cases hy
    · exact Or.inr (Or.inr (hsame.2 ▸ hr))

omit hI in
/-- It may drop a route, or remove the digest whose route it has dropped. -/
theorem collectStep_state (cfg : RaceConfig) (c : Collection) :
    (collectStep fromBytes cfg s c).1 = s ∨
    (∃ locations, (collectStep fromBytes cfg s c).1 =
      { s with service := { s.service with locations := locations } }) ∨
    ∃ d l, c.popped = some (d,l) ∧ (collectStep fromBytes cfg s c).1 = serviceRemove s l d := by
  unfold collectStep
  split
  any_goals exact Or.inl rfl
  · split <;> exact Or.inl rfl
  · split
    · rename_i d l hpop
      exact Or.inr (Or.inr ⟨d,l,hpop,rfl⟩)
    · exact Or.inl rfl
    · split
      · exact Or.inl rfl
      · exact Or.inr (Or.inl ⟨_,rfl⟩)

omit hI in
theorem doomed_collectStep {c' : Collection}
    (hc : CollectionInv fromBytes payload s.rows c)
    (hstep : (collectStep fromBytes cfg s c).2 = some c') :
    (∀ d ∈ c'.candidates, ∀ bk, ¬ RowNeeds fromBytes payload s.rows bk d) ∧
      ∀ d l, c'.popped = some (d,l) → ∀ bk, ¬ RowNeeds fromBytes payload s.rows bk d := by
  unfold collectStep at hstep
  split at hstep
  -- Only the sweep touches the candidates.
  all_goals try (cases hstep; exact ⟨hc.doomed,hc.popped⟩)
  · split at hstep
    · cases hstep
    · cases hstep
      exact ⟨hc.doomed,hc.popped⟩
  · split at hstep
    · cases hstep
      exact ⟨fun d hd => hc.doomed d (mem_of_mem_tail hd),by simp⟩
    · cases hstep
    · rename_i d rest hpop hcand
      split at hstep
      · cases hstep
        exact ⟨fun x hx => hc.doomed x (hcand ▸ mem_cons_of_mem _ hx),hc.popped⟩
      · cases hstep
        refine ⟨hc.doomed,?_⟩
        intro x l hx
        cases hx
        exact hc.doomed d (hcand ▸ mem_cons_self)

theorem splitInv_gcStep (hok : mapsCurrent s (.gcStep g) = true)
    (ht : splitGcStep fromBytes cfg s g = some t) :
    SplitInv fromBytes payload t := by
  unfold splitGcStep at ht
  split at ht
  · simp at ht
  · rename_i c hg
    have hc := hI.collections g c hg
    have hquiet := hI.quiet g c hg
    -- The state first, then the collection's own data over the same rows.
    obtain ⟨hinv,hcollections,hrows,hflight⟩ :
        SplitInv fromBytes payload (collectStep fromBytes cfg s c).1 ∧
          (collectStep fromBytes cfg s c).1.collections = s.collections ∧
          (collectStep fromBytes cfg s c).1.rows = s.rows ∧
          (collectStep fromBytes cfg s c).1.putInFlight = s.putInFlight := by
      rcases collectStep_state cfg c with h | ⟨locations,h⟩ | ⟨d,l,hpop,h⟩
      · rw [h]
        exact ⟨hI,rfl,rfl,rfl⟩
      · rw [h]
        exact ⟨{ hI with },rfl,rfl,rfl⟩
      · rw [h]
        exact splitInv_serviceRemove hI l hquiet (hc.popped d l hpop)
    split at ht
    · rename_i u c' hstep
      rw [hstep] at hinv hcollections hrows hflight
      have hc' : CollectionInv fromBytes payload s.rows c' := by
        have hsome : (collectStep fromBytes cfg s c).2 = some c' := by rw [hstep]
        obtain ⟨hdoomed,hpopped⟩ := doomed_collectStep hc hsome
        refine ⟨fun bk d hd => ?_,hdoomed,hpopped⟩
        exact covers_collectStep hI hg hok hsome hd (hc.covered bk d hd)
      have h := splitInv_setCollection hinv g (hflight.trans hquiet) (hrows ▸ hc')
      rw [hcollections] at h
      exact some.inj ht ▸ h
    · rename_i u hstep
      rw [hstep] at hinv hcollections
      have h := splitInv_endCollection hinv g
      rw [hcollections] at h
      exact some.inj ht ▸ h

/-- Once the marking is over, an unmarked digest is one that no row needs. -/
theorem splitInv_gcExamine
    (ht : splitGcExamine s g d = some t) : SplitInv fromBytes payload t := by
  unfold splitGcExamine at ht
  split at ht
  · simp at ht
  · rename_i c hg
    have hc := hI.collections g c hg
    split at ht
    · rename_i cutoff f hphase hf
      split_ifs at ht with hspared
      · exact some.inj ht ▸ hI
      · rw [not_or] at hspared
        refine some.inj ht ▸ splitInv_setCollection hI g (hI.quiet g c hg) ?_
        refine ⟨hc.covered,?_,hc.popped⟩
        intro x hx bk hneed
        rcases mem_append.mp hx with hx | hx
        · exact hc.doomed x hx bk hneed
        · rw [mem_singleton.mp hx] at hneed
          rcases hc.covered bk d hneed with hp | ⟨m,hm,_⟩ | hr
          · simp [hphase, CollectPhase.Pending] at hp
          · simp [Collection.unmarked, hphase] at hm
          · exact hspared.1 hr
    · simp at ht

theorem splitInv_putStart (i : ℕ) (bucket : Bucket) (key : Key) (version : NewVersion)
    (precondition : Precondition) (hc : s.collections.isEmpty = true) :
    SplitInv fromBytes payload { s with
      puts := s.puts.set i ⟨bucket,key,version,precondition,uploadParts fromBytes payload version,
          .staging⟩ } := by
  apply splitInv_setPut s hI i ((Dict.isEmpty_iff _).mp hc)
  refine ⟨?_,by simp⟩
  intro d hd
  left
  unfold neededDigests at hd
  unfold uploadParts
  split at hd
  · rename_i hk
    rw [hk]
    exact hd
  · rename_i hk
    rw [hk]
    rcases mem_cons.mp hd with rfl | hd
    · exact mem_append_right _ mem_cons_self
    · exact mem_append_left _ hd

theorem splitInv_putStep (hok : mapsCurrent s (.putStep i) = true)
    (ht : splitPutStep payload cfg s i = some t) :
    SplitInv fromBytes payload t := by
  unfold splitPutStep at ht
  split at ht
  · simp at ht
  · rename_i p hp
    split at ht
    · rename_i d rest hparts
      exact some.inj ht ▸ splitInv_commitPart s hI cfg hp hparts hok
    · rename_i hparts
      exact splitInv_lockRow fromBytes hI hp hparts ht

/-- Every step that finds its map current keeps the invariant. -/
theorem splitInv_step {a : SplitAction} (hok : mapsCurrent s a = true)
    (ht : splitStep fromBytes payload cfg s a = some t) :
    SplitInv fromBytes payload t := by
  cases a with
  | tick n => exact some.inj ht ▸ { hI with }
  | openFront =>
    simp only [splitStep] at ht
    split_ifs at ht
    exact some.inj ht ▸ { hI with }
  | openService =>
    simp only [splitStep] at ht
    split_ifs at ht
    exact some.inj ht ▸ { hI with service := hI.needles }
  | putStart i bucket key version precondition =>
    simp only [splitStep] at ht
    split_ifs at ht with hfree
    have hc : s.collections.isEmpty = true := by
      simp only [Bool.or_eq_true, not_or, Bool.not_eq_true', Bool.not_eq_false] at hfree
      exact hfree.2
    exact some.inj ht ▸ splitInv_putStart hI i bucket key version precondition hc
  | putStep i => exact splitInv_putStep hI hok ht
  | deleteLatest bucket key =>
    simp only [splitStep] at ht
    split_ifs at ht with hfree
    exact some.inj ht ▸ splitInv_deleteLatest hI (get_of_not_contains hfree)
  | deleteVersion bucket key id =>
    simp only [splitStep] at ht
    split_ifs at ht
    split at ht
    · simp at ht
    · rename_i m' hm
      exact some.inj ht ▸ splitInv_deleteVersion hI hm
  | writeStep bucket key => exact splitInv_finishRow hI ht
  | gcStart g =>
    simp only [splitStep] at ht
    split_ifs at ht with hbusy
    have hquiet : s.putInFlight = false := by
      simp only [Bool.or_eq_true, not_or, Bool.not_eq_true] at hbusy
      exact hbusy.2
    exact some.inj ht ▸ splitInv_gcStart hI g hquiet
  | gcStep g => exact splitInv_gcStep hI hok ht
  | gcExamine g d => exact splitInv_gcExamine hI ht

end

variable (fromBytes payload)

/-- In every run in which both maps are current, the blobs of the acknowledged PUTs stay on disk. -/
theorem split_keeps_blobs (cfg : RaceConfig) (s : SplitState)
    (hs : Reachable (BothOpened fromBytes payload) (splitStep fromBytes payload cfg)
      (fun s a => mapsCurrent s a = true) s) : BlobsOnDisk fromBytes payload s := by
  have hI : SplitInv fromBytes payload s := by
    apply reachable_invariant (SplitInv fromBytes payload) (splitInv_opened) ?_ s hs
    intro s t a hI hok hstep
    exact splitInv_step hI hok hstep
  exact blobsOnDisk_of_inv hI

end

def chunkedAbc : NewVersion :=
  ⟨abcManifestDigest,"900150983cd24fb0d6963f7d28e17f72".toList,3,"text/plain".toList, .manifest⟩

def abcDisk : BlobDisk := ⟨Dict.empty.set abcDigest ⟨[97, 98, 99],0⟩,Dict.empty⟩

def abcDeployment : SplitState where
  clock := 0
  disk := abcDisk
  front := openStore abcDisk
  service := openStore abcDisk
  bucketDirs := [photosBucket]
  rows := Dict.empty.set (photosBucket,keyA) (putRow none abcVersion 0)
  held := Dict.empty
  puts := Dict.empty
  collections := Dict.empty
  acked := []

theorem bothOpened_abcDeployment : BothOpened abcFromBytes abcPayload abcDeployment where
  idle := rfl
  front := rfl
  service := rfl
  hot := by
    intro d f h
    simp only [abcDeployment, abcDisk, get_set, get_empty] at h
    split_ifs at h with hd
    rw [← some.inj h, hd]
    rfl
  needles := fun d n h => absurd h (by simp [abcDeployment, abcDisk])
  blobs := by
    refine ⟨by simp [abcDeployment],?_⟩
    intro bk m hm v hv d hd
    simp only [abcDeployment, get_set, get_empty] at hm
    split_ifs at hm
    rw [← some.inj hm] at hv
    have hv : v = abcVersion := by
      simpa [putRow, ObjectMeta.newLive, VersionEntry.asLive] using hv
    have hd : d = abcDigest := by
      simpa [hv, abcVersion, neededDigests] using hd
    simp [hd, BlobDisk.has, abcDeployment, abcDisk, Dict.contains]
  dirs := by
    intro bk m hm
    simp only [abcDeployment, get_set, get_empty] at hm ⊢
    split_ifs at hm with hb
    simp [hb]
  noAcked := rfl

def collectRun (steps : ℕ) : List SplitAction :=
  .gcStart 0 :: List.replicate steps (.gcStep 0)

def sweepAbc : List SplitAction :=
  [.gcExamine 0 abcDigest, .gcStep 0, .gcStep 0, .gcStep 0, .gcStep 0]

def putAbcRun (steps : ℕ) (v : NewVersion) : List SplitAction :=
  .putStart 0 photosBucket keyB v .none :: List.replicate steps (.putStep 0) ++
    [.writeStep photosBucket keyB, .writeStep photosBucket keyB]

theorem split_keeps_repeated_abc :
    ∃ s, (Reachable (BothOpened abcFromBytes abcPayload)
        (splitStep abcFromBytes abcPayload defaultRace) (fun s a => mapsCurrent s a = true) s ∧
        (s.acked == [((photosBucket,keyB),abcVersion)]) = true) ∧
      BlobsOnDisk abcFromBytes abcPayload s := by
  refine Exists.imp
    (fun s hs => ⟨hs,split_keeps_blobs abcFromBytes abcPayload defaultRace s hs.1⟩) ?_
  exact reachable_of_checkedRun _ _ _
    ([.deleteLatest photosBucket keyA, .tick 86400000000] ++ collectRun 5 ++ sweepAbc ++
      [.openFront] ++ putAbcRun 5 abcVersion)
    abcDeployment bothOpened_abcDeployment (by decide +kernel)

theorem split_loses_abc_of_run (acts : List SplitAction) (v : NewVersion)
    (hneeds : abcDigest ∈ neededDigests abcFromBytes abcPayload v)
    (hrun : (run (splitStep abcFromBytes abcPayload defaultRace) abcDeployment acts).any
      (fun s => ((photosBucket,keyB),v) ∈ s.acked ∧ s.disk.has abcDigest = false) = true) :
    ∃ s, Reachable (BothOpened abcFromBytes abcPayload)
      (splitStep abcFromBytes abcPayload defaultRace) anyStep s ∧
      ((photosBucket,keyB),v) ∈ s.acked ∧ ¬ BlobsOnDisk abcFromBytes abcPayload s := by
  obtain ⟨t,ht,hacked,hgone⟩ := reachable_of_run _ _ acts abcDeployment
    bothOpened_abcDeployment hrun
  refine ⟨t,ht,hacked,fun hb => ?_⟩
  have hstored := hb.acked _ hacked abcDigest hneeds
  rw [hgone] at hstored
  cases hstored

/-- A PUT deduplicated against a removed blob, and a chunk of a manifest the collector never heard
of. -/
theorem split_loses_blobs :
    (∃ s, Reachable (BothOpened abcFromBytes abcPayload)
      (splitStep abcFromBytes abcPayload defaultRace) anyStep s ∧
      ((photosBucket,keyB),abcVersion) ∈ s.acked ∧ ¬ BlobsOnDisk abcFromBytes abcPayload s) ∧
    ∃ s, Reachable (BothOpened abcFromBytes abcPayload)
      (splitStep abcFromBytes abcPayload defaultRace) anyStep s ∧
      ((photosBucket,keyB),chunkedAbc) ∈ s.acked ∧ ¬ BlobsOnDisk abcFromBytes abcPayload s := by
  constructor
  · apply split_loses_abc_of_run
      ([.deleteLatest photosBucket keyA, .tick 86400000000] ++ collectRun 5 ++ sweepAbc ++
        putAbcRun 3 abcVersion)
    · exact mem_singleton.mpr rfl
    · decide +kernel
  · apply split_loses_abc_of_run
      (putAbcRun 7 chunkedAbc ++ [.deleteLatest photosBucket keyA, .tick 86400000000] ++
        collectRun 12 ++ sweepAbc)
    · decide +kernel
    · decide +kernel

end BackendGauntlet.ObjectStore
