import BackendGauntlet.ObjectStoreLayoutsInv

/-! What a scrub, a restart and decay do to a store, and the invariant over whole runs. -/
namespace BackendGauntlet.ObjectStore

open Transition List Dict

variable {d : Digest} {payload : Bytes} {t : Store}

theorem mem_indexedDigests {index : NeedleIndex} :
    d ∈ indexedDigests index ↔ ∃ r, index.get d = some r ∧ r.isLive = true := by
  simp only [indexedDigests, List.mem_map, mem_filter, Prod.exists, get_eq_some_iff]
  constructor
  · rintro ⟨x,r,⟨hmem,hlive⟩,rfl⟩
    exact ⟨r,hmem,hlive⟩
  · rintro ⟨r,hmem,hlive⟩
    exact ⟨d,r,⟨hmem,hlive⟩,rfl⟩

namespace Store

theorem mem_needlesByVolume (index : NeedleIndex) (d : Digest) (l : NeedleLocator) :
    (d,l) ∈ needlesByVolume index ↔
      ∃ r, index.get d = some r ∧ r.isLive = true ∧ r.locator = l := by
  have hlive : (d,l) ∈ (index.entries.filter (fun e => e.2.isLive)).map
      (fun e => (e.1,e.2.locator)) ↔
        ∃ r, index.get d = some r ∧ r.isLive = true ∧ r.locator = l := by
    simp only [List.mem_map, mem_filter, Prod.exists, Prod.mk.injEq, get_eq_some_iff]
    constructor
    · rintro ⟨x,r,⟨hmem,hlive⟩,rfl,hl⟩
      exact ⟨r,hmem,hlive,hl⟩
    · rintro ⟨r,hmem,hlive,hl⟩
      exact ⟨d,r,⟨hmem,hlive⟩,rfl,hl⟩
  rw [needlesByVolume, mem_flatMap, ← hlive]
  constructor
  · rintro ⟨v,_,hmem⟩
    exact (mem_filter.mp hmem).1
  · intro hmem
    refine ⟨l.volumeId,?_,mem_filter.mpr ⟨hmem,decide_eq_true rfl⟩⟩
    exact mem_eraseDups.mpr (List.mem_map_of_mem (f := fun e => e.2.volumeId) hmem)

theorem mem_haystackQuarantined (s : Store) (d : Digest) :
    d ∈ s.haystackQuarantined ↔ s.locations.get d = some .haystack ∧
      ∀ r, s.index.get d = some r → r.isLive = false := by
  have hdead : d ∉ indexedDigests s.index ↔ ∀ r, s.index.get d = some r → r.isLive = false := by
    rw [mem_indexedDigests]
    simp
  rw [← hdead]
  simp only [haystackQuarantined, List.mem_map, mem_filter, Prod.exists, Bool.and_eq_true,
    decide_eq_true_eq, get_eq_some_iff]
  constructor
  · rintro ⟨x,l,⟨hmem,rfl,hx⟩,rfl⟩
    exact ⟨hmem,hx⟩
  · rintro ⟨hmem,hx⟩
    exact ⟨d,.haystack,⟨hmem,rfl,hx⟩,rfl⟩

theorem foldl_quarantineBlob (ds : List Digest) (s : Store) :
    ds.foldl quarantineBlob s =
      { s with
        quarantined := s.quarantined ++ ds
        locations := ds.foldl (fun m d => m.erase d) s.locations
        objects := ds.foldl (fun m d => m.erase d) s.objects } := by
  induction ds generalizing s with
  | nil => simp
  | cons d ds ih => simp [ih, quarantineBlob]

theorem mirror_eq (s : Store) :
    s.mirror =
      { s with
        quarantined := s.quarantined ++ s.haystackQuarantined
        locations := s.haystackQuarantined.foldl (fun m d => m.erase d) s.locations } := by
  unfold mirror
  generalize s.haystackQuarantined = ds
  induction ds generalizing s with
  | nil => simp
  | cons d ds ih => simp [ih]

section
variable (hash : Bytes → Digest) (s : Store)

theorem foldl_flag (es : List (Digest × NeedleLocator)) (h : Recovers s.disk s.index) :
    ∃ disk index, es.foldl (fun s e => s.flag (quarantineOp s.index e.1)) s =
        { s with disk := disk, index := index } ∧
      disk.volumes = s.disk.volumes ∧ Recovers disk index ∧ ∀ x, index.get x =
        if x ∈ es.map Prod.fst then (s.index.get x).map (fun r => { r with quarantined := true })
        else s.index.get x := by
  induction es generalizing s with
  | nil => exact ⟨s.disk,s.index,rfl,rfl,h,fun x => by simp⟩
  | cons e es ih =>
    obtain ⟨disk,index,heq,hvol,hrec,hrows⟩ := flag_quarantineOp s e.1 h
    obtain ⟨disk',index',heq',hvol',hrec',hrows'⟩ :=
      ih { s with disk := disk, index := index } hrec
    refine ⟨disk',index',?_,hvol'.trans hvol,hrec',?_⟩
    · rw [foldl_cons, heq, heq']
    · intro x
      simp only at hrows'
      rw [hrows' x, hrows x, map_cons]
      by_cases hx : x = e.1
      · by_cases hes : x ∈ es.map Prod.fst
        · rw [if_pos hes, if_pos hx, if_pos (hx ▸ mem_cons_self), Option.map_map]
          rfl
        · rw [if_neg hes, if_pos hx, if_pos (hx ▸ mem_cons_self)]
      · by_cases hes : x ∈ es.map Prod.fst
        · rw [if_pos hes, if_neg hx, if_pos (mem_cons_of_mem _ hes)]
        · rw [if_neg hes, if_neg hx, if_neg (by simp only [mem_cons, hx, hes, or_self,
            not_false_eq_true])]

def fileMismatch (d : Digest) : Bool :=
  match s.objects.get d with
  | none => false
  | some file => d ∉ s.quarantined && hash file ≠ d

def needleMismatch (d : Digest) : Bool :=
  match s.index.get d with
  | none => false
  | some r => r.isLive && mismatched hash s.disk.volumes (d,r.locator)

def condemned (d : Digest) : Bool :=
  s.fileMismatch hash d || (s.needleMismatch hash d && s.locations.get d = some .haystack)

theorem mem_mismatchedFiles (d : Digest) :
    d ∈ (s.examinedFiles.filter (fun e => hash e.2 ≠ e.1)).map Prod.fst ↔
      s.fileMismatch hash d = true := by
  simp only [examinedFiles, List.mem_map, mem_filter, Prod.exists, decide_eq_true_eq]
  constructor
  · rintro ⟨x,file,⟨⟨hmem,hq⟩,hne⟩,rfl⟩
    simp [fileMismatch, get_eq_some_iff.mpr hmem, hq, hne]
  · intro h
    unfold fileMismatch at h
    split at h
    · cases h
    · next file hfile =>
      simp only [Bool.and_eq_true, decide_eq_true_eq] at h
      exact ⟨d,file,⟨⟨get_eq_some_iff.mp hfile,h.1⟩,h.2⟩,rfl⟩

theorem mem_mismatchedNeedles (d : Digest) :
    d ∈ (((needlesByVolume s.index).filter (fun e => s.disk.volumes.contains e.2.volumeId)).filter
        (mismatched hash s.disk.volumes)).map Prod.fst ↔ s.needleMismatch hash d = true := by
  simp only [List.mem_map, mem_filter, Prod.exists, mem_needlesByVolume]
  constructor
  · rintro ⟨x,l,⟨⟨⟨r,hr,hlive,rfl⟩,_⟩,hm⟩,rfl⟩
    simp [needleMismatch, hr, hlive, hm]
  · intro h
    unfold needleMismatch at h
    split at h
    · cases h
    · next r hr =>
      obtain ⟨hlive,hm⟩ := Bool.and_eq_true_iff.mp h
      refine ⟨d,r.locator,⟨⟨⟨r,hr,hlive,rfl⟩,?_⟩,hm⟩,rfl⟩
      unfold mismatched readRegion at hm
      cases hv : s.disk.volumes.get r.locator.volumeId with
      | none =>
        rw [hv] at hm
        cases hm
      | some file => simp [Dict.contains, hv]

structure Scrubbed (s t : Store) : Prop where
  volumes : t.disk.volumes = s.disk.volumes
  active : t.active = s.active
  recovers : Recovers t.disk t.index
  files : ∀ d, t.objects.get d = if s.fileMismatch hash d then none else s.objects.get d
  rows : ∀ d, t.index.get d =
    if s.needleMismatch hash d then (s.index.get d).map (fun r => { r with quarantined := true })
    else s.index.get d
  hit : ∀ d, s.condemned hash d = true → d ∈ t.quarantined ∧ t.locations.get d = none
  missed : ∀ d, s.condemned hash d = false →
    (d ∈ t.quarantined ↔ d ∈ s.quarantined) ∧ t.locations.get d = s.locations.get d

theorem scrubFileCas_eq : ∃ ds : List Digest, (∀ d, d ∈ ds ↔ s.fileMismatch hash d = true) ∧
    (s.scrubFileCas hash).1 =
      { s with
        quarantined := s.quarantined ++ ds
        locations := ds.foldl (fun m d => m.erase d) s.locations
        objects := ds.foldl (fun m d => m.erase d) s.objects } := by
  refine ⟨_,mem_mismatchedFiles hash s,?_⟩
  rw [scrubFileCas, foldl_quarantineBlob]

theorem scrubHaystack_eq (h : Recovers s.disk s.index) :
    ∃ disk index, (s.scrubHaystack hash).1 = { s with disk := disk, index := index } ∧
      disk.volumes = s.disk.volumes ∧ Recovers disk index ∧ ∀ d, index.get d =
        if s.needleMismatch hash d then
          (s.index.get d).map (fun r => { r with quarantined := true })
        else s.index.get d := by
  obtain ⟨disk,index,heq,hvol,hrec,hrows⟩ := foldl_flag s
    (((needlesByVolume s.index).filter (fun e => s.disk.volumes.contains e.2.volumeId)).filter
      (mismatched hash s.disk.volumes)) h
  refine ⟨disk,index,heq,hvol,hrec,?_⟩
  intro d
  rw [hrows d]
  by_cases hm : s.needleMismatch hash d = true
  · rw [if_pos hm, if_pos ((mem_mismatchedNeedles hash s d).mpr hm)]
  · rw [if_neg hm, if_neg (fun h => hm ((mem_mismatchedNeedles hash s d).mp h))]

/-- The mirror finds the routes of the rows that were flagged, as every route led to a live row
before. -/
theorem mem_mirrored (t : Store)
    (hlive : ∀ d, t.locations.get d = some .haystack → ∃ r, s.index.get d = some r ∧
      r.isLive = true)
    (hrows : ∀ d, t.index.get d = if s.needleMismatch hash d then
      (s.index.get d).map (fun r => { r with quarantined := true }) else s.index.get d)
    (d : Digest) :
    d ∈ t.haystackQuarantined ↔
      s.needleMismatch hash d = true ∧ t.locations.get d = some .haystack := by
  rw [mem_haystackQuarantined, and_comm, and_congr_left_iff]
  intro hl
  obtain ⟨r,hr,hrlive⟩ := hlive d hl
  rw [hrows d]
  by_cases hn : s.needleMismatch hash d = true
  · simp only [hn, if_true, iff_true, Option.map_eq_some_iff]
    rintro _ ⟨r',_,rfl⟩
    simp [NeedleRecord.isLive]
  · simp only [hn, Bool.false_eq_true, if_false, iff_false, not_forall]
    exact ⟨r,hr,by simp [hrlive]⟩

/-- What a scrub does to the store. -/
theorem scrubbed_scrubOnce (good : Digest → Bytes → Prop) (hI : StoreInv good s) :
    Scrubbed hash s (s.scrubOnce hash).1 := by
  obtain ⟨ds,hmem,hfiles⟩ := scrubFileCas_eq hash s
  obtain ⟨disk,index,hneedles,hvol,hrec,hindex⟩ :=
    scrubHaystack_eq hash (s.scrubFileCas hash).1 (by rw [hfiles]; exact hI.recovers)
  rw [hfiles] at hneedles hvol hindex
  have ht : (s.scrubOnce hash).1 = mirror ((s.scrubFileCas hash).1.scrubHaystack hash).1 := by
    simp only [scrubOnce]
  rw [hfiles, hneedles, mirror_eq] at ht
  -- what the pass over the files took off is no route that the mirror could find
  have hmirror := mem_mirrored hash s
    { s with
      quarantined := s.quarantined ++ ds
      locations := ds.foldl (fun m d => m.erase d) s.locations
      objects := ds.foldl (fun m d => m.erase d) s.objects
      disk := disk
      index := index } (by
        intro d hl
        simp only [get_foldl_erase] at hl
        split_ifs at hl
        obtain ⟨payload,r,hr,hlive,_⟩ := hI.located d .haystack hl
        exact ⟨r,hr,hlive⟩) hindex
  rw [ht]
  refine ⟨hvol,rfl,hrec,?_,hindex,?_,?_⟩
  · intro d
    simp only [get_foldl_erase, hmem]
  · intro d hd
    simp only [mem_append, get_foldl_erase, hmem, hmirror]
    simp only [condemned, Bool.or_eq_true, Bool.and_eq_true, decide_eq_true_eq] at hd
    rcases hd with hf | ⟨hn,hl⟩
    · simp [hf]
    · cases hf : s.fileMismatch hash d with
      | true => simp
      | false => simp [hn, hl]
  · intro d hd
    simp only [mem_append, get_foldl_erase, hmem, hmirror]
    simp only [condemned, Bool.or_eq_false_iff, Bool.and_eq_false_iff, decide_eq_false_iff_not]
      at hd
    obtain ⟨hf,hn | hl⟩ := hd
    · simp [hf, hn]
    · simp [hf, hl]

variable (good : Digest → Bytes → Prop) (hI : StoreInv good s)

theorem needleMismatch_packed
    (h : Packed s.disk.volumes s.index d payload) :
    s.needleMismatch hash d = decide (hash payload ≠ d) := by
  obtain ⟨r,hr,hlive,hregion,hlen⟩ := h
  simp [needleMismatch, hr, hlive, mismatched, hregion, hlen]

theorem heldIn_scrub (hs : Scrubbed hash s t)
    {l : BlobLocation} (hp : s.HeldIn d payload l) (hhash : hash payload = d) :
    t.HeldIn d payload l := by
  cases l with
  | fileCas =>
    have hf : s.fileMismatch hash d = false := by
      simp only [HeldIn] at hp
      simp [fileMismatch, hp, hhash]
    have hfile := hs.files d
    rw [hf] at hfile
    exact hfile.trans hp
  | haystack =>
    have hn : s.needleMismatch hash d = false := by
      rw [needleMismatch_packed hash s hp]
      simp [hhash]
    obtain ⟨r,hr,hlive,hregion,hlen⟩ := hp
    have hrow := hs.rows d
    rw [hn] at hrow
    exact ⟨r,hrow.trans hr,hlive,by rw [hs.volumes, hregion],hlen⟩

theorem storeInv_scrubbed (hI : StoreInv good s) (hs : Scrubbed hash s t) :
    StoreInv good t where
  packed := by
    rw [hs.volumes, hs.active]
    apply packedInv_rows hI.packed
    intro d r hr
    rw [hs.rows d] at hr
    split_ifs at hr
    · obtain ⟨r',hr',rfl⟩ := Option.map_eq_some_iff.mp hr
      exact ⟨r',hr',rfl⟩
    · exact ⟨r,hr,rfl⟩
  recovers := hs.recovers
  files := by
    intro d payload hd
    rw [hs.files d] at hd
    split_ifs at hd
    exact hI.files d payload hd
  located := by
    intro d l hl
    cases hc : s.condemned hash d with
    | true => exact absurd (hl.symm.trans (hs.hit d hc).2) (by simp)
    | false =>
      rw [(hs.missed d hc).2] at hl
      obtain ⟨payload,hp⟩ := hI.located d l hl
      simp only [condemned, Bool.or_eq_false_iff, Bool.and_eq_false_iff,
        decide_eq_false_iff_not] at hc
      refine ⟨payload,?_⟩
      cases l with
      | fileCas =>
        have hfile := hs.files d
        rw [hc.1] at hfile
        exact hfile.trans hp
      | haystack =>
        have hn : s.needleMismatch hash d = false := hc.2.resolve_right (fun h => h hl)
        obtain ⟨r,hr,hlive,hregion,hlen⟩ := hp
        have hrow := hs.rows d
        rw [hn] at hrow
        exact ⟨r,hrow.trans hr,hlive,by rw [hs.volumes, hregion],hlen⟩

end

end Store

theorem get_rebuildLocations (objects : Dict Digest Bytes) (index : NeedleIndex) (d : Digest) :
    (Store.rebuildLocations objects index).get d =
      if d ∈ indexedDigests index then some .haystack
      else if objects.contains d then some .fileCas else none := by
  rw [Store.rebuildLocations, get_foldl_set_const, get_foldl_set_const, get_empty]
  by_cases hd : objects.contains d = true
  · rw [if_pos hd, if_pos ((Dict.mem_keys).mpr ((Dict.contains_iff).mp hd))]
  · rw [if_neg hd, if_neg (fun hk => hd ((Dict.contains_iff).mpr ((Dict.mem_keys).mp hk)))]

section
variable (good : Digest → Bytes → Prop) (objects : Dict Digest Bytes) (disk : Disk)
  (index : NeedleIndex) (policy : BlobLayoutKind) (maxVolumeSize : ℕ)

theorem boot_cases (hR : Recovers disk index)
    (h : Store.boot objects disk policy maxVolumeSize = .ok t) :
    t.objects = objects ∧ t.quarantined = [] ∧ t.active = none ∧
      t.locations = Store.rebuildLocations objects t.index ∧ Recovers t.disk t.index ∧
      (index.isEmpty = true ∧ t.index = rebuildFromVolumes disk.volumes ∧
          t.disk.volumes = disk.volumes.mapValues truncateTorn ∨
        t.index = index ∧ t.disk.volumes = disk.volumes) := by
  obtain ⟨disk',index',hboot⟩ := bootstrapWith_ok checkpoint hR.durable
  have hcases := bootstrapWith_cases checkpoint hR.durable hboot
  simp only [Store.boot, hboot, bind, Except.bind, pure, Except.pure, Except.ok.injEq] at h
  obtain rfl := h
  refine ⟨rfl,rfl,rfl,rfl,?_⟩
  rcases hcases with ⟨hempty,hindex,rfl⟩ | ⟨rfl,rfl | rfl⟩
  · exact ⟨recovers_checkpoint,Or.inl ⟨hempty,hindex,rfl⟩⟩
  · exact ⟨recovers_checkpoint,Or.inr ⟨rfl,rfl⟩⟩
  · exact ⟨hR,Or.inr ⟨rfl,rfl⟩⟩

theorem boot_ok (hR : Recovers disk index) :
    ∃ t, Store.boot objects disk policy maxVolumeSize = .ok t := by
  obtain ⟨disk',index',hboot⟩ := bootstrapWith_ok checkpoint hR.durable
  simp only [Store.boot, hboot, bind, Except.bind, pure, Except.pure]
  exact ⟨_,rfl⟩

theorem storeInv_boot (hR : Recovers disk index) {active : Option (VolumeId × ℕ)}
    (hI : PackedInv good disk.volumes index active)
    (hfiles : ∀ d payload, objects.get d = some payload → good d payload)
    (h : Store.boot objects disk policy maxVolumeSize = .ok t) :
    StoreInv good t := by
  obtain ⟨hobjects,_,hactive,hlocations,hrec,hcases⟩ :=
    boot_cases objects disk index policy maxVolumeSize hR h
  have hpacked : PackedInv good t.disk.volumes t.index t.active := by
    rw [hactive]
    rcases hcases with ⟨_,hindex,hvol⟩ | ⟨hindex,hvol⟩
    · rw [hindex, hvol]
      exact packedInv_rebuild hI
    · rw [hindex, hvol]
      exact packedInv_closed hI
  refine ⟨hpacked,hrec,by rw [hobjects]; exact hfiles,?_⟩
  intro d l hl
  rw [hlocations, get_rebuildLocations] at hl
  split_ifs at hl with hlive hfile
  · cases hl
    obtain ⟨r,hr,hlive⟩ := (mem_indexedDigests).mp hlive
    exact packed_of_live hpacked hr hlive
  · cases hl
    obtain ⟨payload,hp⟩ := (Dict.contains_iff).mp hfile
    exact ⟨payload,by rw [Store.HeldIn, hobjects, hp]⟩

end

section
variable (good : Digest → Bytes → Prop) (s : Store) (hI : StoreInv good s)
include hI

theorem heldIn_reopen {policy : BlobLayoutKind} {maxVolumeSize : ℕ}
    (h : Store.boot s.objects s.disk policy maxVolumeSize = .ok t)
    {l : BlobLocation} (hp : s.HeldIn d payload l) : t.HeldIn d payload l := by
  obtain ⟨hobjects,_,_,_,_,hcases⟩ :=
    boot_cases s.objects s.disk s.index policy maxVolumeSize hI.recovers h
  cases l with
  | fileCas => exact (congrArg (fun objects => Dict.get objects d) hobjects).trans hp
  | haystack =>
    rcases hcases with ⟨hempty,_⟩ | ⟨hindex,hvol⟩
    · obtain ⟨r,hr,_⟩ := hp
      exact absurd (hr.symm.trans ((Dict.isEmpty_iff _).mp hempty d)) (by simp)
    · simp only [Store.HeldIn, hindex, hvol]
      exact hp

theorem storeInv_rotFile {bytes : Bytes} (hgood : good d bytes) :
    StoreInv good { s with objects := s.objects.set d bytes } ∧
      ∀ x, x ≠ d → Kept s { s with objects := s.objects.set d bytes } x := by
  have hkept (x : Digest) (hx : x ≠ d) : Kept s { s with objects := s.objects.set d bytes } x := by
    refine ⟨?_,rfl,Iff.rfl⟩
    intro payload l hp
    cases l with
    | fileCas => exact (get_set_ne hx).trans hp
    | haystack => exact hp
  refine ⟨⟨hI.packed,hI.recovers,forall_get_set hI.files hgood,
    located_of_kept s hI hkept ?_⟩,hkept⟩
  intro l hl
  cases l with
  | fileCas => exact ⟨bytes,get_set_self⟩
  | haystack => exact hI.located d .haystack hl

theorem storeInv_rotNeedle {l : NeedleLocator} {bytes : Bytes} {volumes : Volumes}
    (h : rotVolume d l bytes s.disk.volumes = some volumes) (hgood : good d bytes) :
    StoreInv good { s with disk := { s.disk with volumes := volumes } } ∧
      ∀ x, x ≠ d → Kept s { s with disk := { s.disk with volumes := volumes } } x := by
  unfold rotVolume at h
  split at h
  · cases h
  · next file hfile =>
    split_ifs at h with hmem
    cases h
    obtain ⟨hpacked,hothers⟩ :=
      packedInv_overwrite hI.packed hfile hmem.1 hmem.2 hgood
    refine ⟨⟨hpacked,recovers_volumes _ hI.recovers,hI.files,?_⟩,?_⟩
    · intro x loc hloc
      obtain ⟨payload,hp⟩ := hI.located x loc hloc
      cases loc with
      | fileCas => exact ⟨payload,hp⟩
      | haystack =>
        obtain ⟨r,hr,hlive,_⟩ := hp
        exact packed_of_live hpacked hr hlive
    · intro x hx
      refine ⟨?_,rfl,Iff.rfl⟩
      intro payload loc hp
      cases loc with
      | fileCas => exact hp
      | haystack => exact hothers x payload hx hp

end

def GoodAction (hash : Bytes → Digest) (good : Digest → Bytes → Prop) : StoreAction → Prop
  | .commit data _ => good (hash data) data
  | .rotFile d bytes => good d bytes
  | .rotNeedle d _ bytes => good d bytes
  | _ => True

/-- Every action keeps the invariant; decay does as far as it leaves good bytes. -/
theorem storeInv_step (hash : Bytes → Digest) (good : Digest → Bytes → Prop) {s : Store}
    {a : StoreAction} (hI : StoreInv good s) (hgood : GoodAction hash good a)
    (h : storeStep hash s a = some t) : StoreInv good t := by
  cases a with
  | commit data fresh => exact (storeInv_commit s hI h hgood).1
  | remove d =>
    cases h
    exact (storeInv_remove s hI d).1
  | compact todo =>
    simp only [storeStep] at h
    split_ifs at h
    exact (storeInv_compact good s t hI h).1
  | checkpoint =>
    cases h
    exact ⟨hI.packed,recovers_checkpoint,hI.files,by
      intro d l hl
      obtain ⟨payload,hp⟩ := hI.located d l hl
      exact ⟨payload,by cases l <;> exact hp⟩⟩
  | scrub =>
    obtain rfl := Option.some.inj h
    exact Store.storeInv_scrubbed hash s good hI (Store.scrubbed_scrubOnce hash s good hI)
  | reopen policy maxVolumeSize =>
    simp only [storeStep] at h
    cases hb : Store.boot s.objects s.disk policy maxVolumeSize with
    | error e =>
      rw [hb] at h
      cases h
    | ok u =>
      rw [hb] at h
      cases h
      exact storeInv_boot good _ _ s.index policy maxVolumeSize hI.recovers hI.packed hI.files hb
  | rotFile d bytes =>
    simp only [storeStep] at h
    split_ifs at h with hfile
    cases h
    exact (storeInv_rotFile good s hI hgood).1
  | rotNeedle d l bytes =>
    obtain ⟨volumes,hvol,rfl⟩ := Option.map_eq_some_iff.mp h
    exact (storeInv_rotNeedle good s hI hvol hgood).1

theorem storeInv_new (good : Digest → Bytes → Prop) (s : Store) (h : newStore s) :
    StoreInv good s := by
  obtain ⟨policy,maxVolumeSize,hb⟩ := h
  have hempty : Recovers ⟨none,[],empty⟩ empty := ⟨⟨[],rfl⟩,rfl⟩
  have hpacked : PackedInv good empty empty none := by
    refine ⟨?_,?_,?_⟩
    · intro v file hv
      cases hv
    · intro d r hr
      cases hr
    · intro v n hact
      cases hact
  exact storeInv_boot good empty _ empty policy maxVolumeSize hempty hpacked (by simp) hb

theorem storeInv_reachable (hash : Bytes → Digest) (good : Digest → Bytes → Prop)
    (init : Store → Prop) (ok : Store → StoreAction → Prop) (h0 : ∀ s, init s → StoreInv good s)
    (hok : ∀ s a, ok s a → GoodAction hash good a) {s : Store}
    (hs : Reachable init (storeStep hash) ok s) : StoreInv good s := by
  apply reachable_invariant (StoreInv good) h0 ?_ s hs
  intro s t a hI ha ht
  exact storeInv_step hash good hI (hok s a ha) ht

end BackendGauntlet.ObjectStore
