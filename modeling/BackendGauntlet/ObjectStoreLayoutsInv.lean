import BackendGauntlet.ObjectStoreLayouts
import BackendGauntlet.ObjectStorePackedRows

/-! What every run of the store keeps. -/
namespace BackendGauntlet.ObjectStore

open Option Dict

structure Recovers (disk : Disk) (index : NeedleIndex) : Prop where
  log : ∃ ops, disk.log = logText ops
  durable : disk.durable = .ok index

variable {disk : Disk} {index : NeedleIndex} {d : Digest} {t : Store}

theorem recovers_appendLog (op : LogOp)
    (h : Recovers disk index) :
    Recovers (appendLog disk op (op.line.length+1)) (op.apply index) := by
  obtain ⟨ops,hops⟩ := h.log
  have happ := (durable_appendLog disk op (op.line.length+1) index (hops ▸ logShape_logText ops)
    (hops ▸ cleanEnd_logText ops) h.durable).2
  rw [if_pos (Nat.le_succ _)] at happ
  refine ⟨⟨ops ++ [op],?_⟩,happ⟩
  rw [appendLog, hops, logText_append, List.take_of_length_le (by simp)]

theorem recovers_checkpoint :
    Recovers (checkpoint disk index) index :=
  ⟨⟨[],rfl⟩,durable_checkpoint disk index⟩

theorem recovers_volumes (volumes : Volumes)
    (h : Recovers disk index) : Recovers { disk with volumes := volumes } index :=
  ⟨h.log,h.durable⟩

def Store.HeldIn (s : Store) (d : Digest) (payload : Bytes) : BlobLocation → Prop
  | .fileCas => s.objects.get d = some payload
  | .haystack => Packed s.disk.volumes s.index d payload

/-- `good` is what holds of every copy of a digest, needles without a row included. -/
structure StoreInv (good : Digest → Bytes → Prop) (s : Store) : Prop where
  packed : PackedInv good s.disk.volumes s.index s.active
  recovers : Recovers s.disk s.index
  files : ∀ d payload, s.objects.get d = some payload → good d payload
  located : ∀ d l, s.locations.get d = some l → ∃ payload, s.HeldIn d payload l

theorem heldIn_good (good : Digest → Bytes → Prop) {s : Store} (hI : StoreInv good s)
    {payload : Bytes} {l : BlobLocation} (h : s.HeldIn d payload l) : good d payload := by
  cases l with
  | fileCas => exact hI.files d payload h
  | haystack => exact good_packed hI.packed h

structure Kept (s t : Store) (d : Digest) : Prop where
  held : ∀ payload l, s.HeldIn d payload l → t.HeldIn d payload l
  route : t.locations.get d = s.locations.get d
  gate : d ∈ t.quarantined ↔ d ∈ s.quarantined

section
variable (good : Digest → Bytes → Prop) (s : Store) (hI : StoreInv good s)

/-- A duplicate is dropped, or the blob goes where the policy says. -/
theorem commitTemp_cases {data : Bytes} {fresh : VolumeId}
    (h : s.commitTemp d data fresh = some t) :
    (∃ l, s.locations.get d = some l) ∧ t = s ∨
    s.locations.get d = none ∧
      (s.chooseLocation data.length = .fileCas ∧
        t = { s with
          objects := s.objects.set d data
          locations := s.locations.set d .fileCas } ∨
      s.chooseLocation data.length = .haystack ∧ ∃ volumes l,
        appendNeedle s.maxVolumeSize s.active s.disk.volumes d data fresh
          (needleFrame d data).length = some (volumes,l) ∧
        t = { s with
          disk := appendLog { s.disk with volumes := volumes } (.put d l)
            ((LogOp.put d l).line.length+1)
          index := s.index.set d ⟨l,false,false⟩
          active := some (l.volumeId,l.payloadOffset+l.size)
          locations := s.locations.set d .haystack }) := by
  unfold Store.commitTemp at h
  by_cases hc : s.locations.contains d = true
  · rw [if_pos hc] at h
    exact Or.inl ⟨(Dict.contains_iff).mp hc,(some.inj h).symm⟩
  · rw [if_neg hc] at h
    have hnone := get_of_not_contains hc
    refine Or.inr ⟨hnone,?_⟩
    cases hl : s.chooseLocation data.length with
    | fileCas =>
      rw [hl] at h
      exact Or.inl ⟨rfl,(some.inj h).symm⟩
    | haystack =>
      rw [hl] at h
      obtain ⟨u,hu,rfl⟩ := map_eq_some_iff.mp h
      obtain ⟨⟨volumes,l⟩,ha,rfl⟩ := map_eq_some_iff.mp hu
      exact Or.inr ⟨rfl,volumes,l,ha,rfl⟩

include hI

variable {good}

theorem located_of_kept (hkept : ∀ x, x ≠ d → Kept s t x)
    (hd : ∀ l, t.locations.get d = some l → ∃ payload, t.HeldIn d payload l) :
    ∀ x l, t.locations.get x = some l → ∃ payload, t.HeldIn x payload l := by
  intro x l hl
  by_cases hx : x = d
  · rw [hx] at hl ⊢
    exact hd l hl
  · rw [(hkept x hx).route] at hl
    obtain ⟨payload,hp⟩ := hI.located x l hl
    exact ⟨payload,(hkept x hx).held payload l hp⟩

theorem storeInv_commit {data : Bytes} {fresh : VolumeId}
    (h : s.commitTemp d data fresh = some t) (hgood : good d data) :
    StoreInv good t ∧ (∀ x, x ≠ d → Kept s t x) ∧
      (s.locations.get d = none → ∃ l, t.locations.get d = some l ∧ t.HeldIn d data l) := by
  have hlocated (l : BlobLocation) (hkept : ∀ x, x ≠ d → Kept s t x)
      (hroutes : t.locations = s.locations.set d l) (hnew : t.HeldIn d data l) :
      ∀ x l', t.locations.get x = some l' → ∃ payload, t.HeldIn x payload l' := by
    apply located_of_kept s hI hkept
    intro l' hl'
    rw [hroutes, get_set_self] at hl'
    exact ⟨data,some.inj hl' ▸ hnew⟩
  rcases commitTemp_cases s h with
    ⟨⟨l,hl⟩,rfl⟩ | ⟨_,⟨_,ht⟩ | ⟨_,volumes,l,ha,ht⟩⟩
  · refine ⟨hI,fun x _ => ⟨fun _ _ hp => hp,rfl,Iff.rfl⟩,?_⟩
    intro hnone
    cases hl.symm.trans hnone
  · have hnew : t.HeldIn d data .fileCas := by
      rw [ht]
      exact get_set_self
    have hroutes : t.locations = s.locations.set d .fileCas := by rw [ht]
    have hkept (x : Digest) (hx : x ≠ d) : Kept s t x := by
      refine ⟨?_,by rw [hroutes, get_set_ne hx],by rw [ht]⟩
      intro payload l hp
      cases l with
      | fileCas =>
        rw [ht]
        exact (get_set_ne hx).trans hp
      | haystack =>
        rw [ht]
        exact hp
    refine ⟨⟨?_,?_,?_,hlocated _ hkept hroutes hnew⟩,hkept,
      fun _ => ⟨.fileCas,by rw [hroutes, get_set_self],hnew⟩⟩
    · rw [ht]
      exact hI.packed
    · rw [ht]
      exact hI.recovers
    · rw [ht]
      exact forall_get_set hI.files hgood
  · obtain ⟨hpacked,hothers⟩ := packed_appended hI.packed _ d data fresh volumes l ha
    have hnew : t.HeldIn d data .haystack := by
      rw [ht]
      exact hpacked
    have hroutes : t.locations = s.locations.set d .haystack := by rw [ht]
    have hkept (x : Digest) (hx : x ≠ d) : Kept s t x := by
      refine ⟨?_,by rw [hroutes, get_set_ne hx],by rw [ht]⟩
      intro payload l hp
      cases l with
      | fileCas =>
        rw [ht]
        exact hp
      | haystack =>
        rw [ht]
        exact hothers x payload hx hp
    refine ⟨⟨?_,?_,?_,hlocated _ hkept hroutes hnew⟩,hkept,
      fun _ => ⟨.haystack,by rw [hroutes, get_set_self],hnew⟩⟩
    · rw [ht]
      exact packedInv_append hI.packed _ d data fresh volumes l ha hgood
    · rw [ht]
      exact recovers_appendLog (.put d l) (recovers_volumes volumes hI.recovers)
    · rw [ht]
      exact hI.files

omit hI

/-- Only one row changes, and the op is logged unless the row has the flag already. -/
theorem flag_eq {o : LogOp} (f : NeedleRecord → NeedleRecord)
    (done : NeedleRecord → Bool) (h : Recovers s.disk s.index)
    (hdone : ∀ r, done r = true → f r = r)
    (hrow : ∀ x row, o.row x row = if d = x then row.map f else row) :
    ∃ disk index,
      s.flag ((s.index.get d).bind (fun r => if done r then none else some o)) =
        { s with disk := disk, index := index } ∧
      disk.volumes = s.disk.volumes ∧ Recovers disk index ∧
      ∀ x, index.get x = if x = d then (s.index.get x).map f else s.index.get x := by
  -- without an op the row is as the flag would leave it
  have hsame (hd : (s.index.get d).map f = s.index.get d) (x : Digest) :
      s.index.get x = if x = d then (s.index.get x).map f else s.index.get x := by
    split_ifs with hx
    · rw [hx, hd]
    · rfl
  cases hr : s.index.get d with
  | none => exact ⟨s.disk,s.index,rfl,rfl,h,hsame (by rw [hr]; rfl)⟩
  | some r =>
    cases hflag : done r with
    | true =>
      simp only [bind_some, hflag, if_true]
      exact ⟨s.disk,s.index,rfl,rfl,h,hsame (by rw [hr, map_some, hdone r hflag])⟩
    | false =>
      simp only [bind_some, hflag, Bool.false_eq_true, if_false]
      refine ⟨_,_,rfl,rfl,recovers_appendLog o h,?_⟩
      intro x
      rw [get_apply, hrow x]
      by_cases hx : x = d
      · rw [if_pos hx.symm, if_pos hx]
      · rw [if_neg (Ne.symm hx), if_neg hx]

theorem flag_removeOp (d : Digest) (h : Recovers s.disk s.index) : ∃ disk index,
    s.flag (removeOp s.index d) = { s with disk := disk, index := index } ∧
      disk.volumes = s.disk.volumes ∧ Recovers disk index ∧ ∀ x, index.get x =
        if x = d then (s.index.get x).map (fun r => { r with deleted := true })
        else s.index.get x := by
  have hop : removeOp s.index d =
      (s.index.get d).bind (fun r => if r.deleted then none else some (.delete d)) := by
    unfold removeOp
    cases s.index.get d <;> rfl
  rw [hop]
  apply flag_eq s _ NeedleRecord.deleted h
  · intro r hdeleted
    rw [← hdeleted]
  · intro x row
    rfl

theorem flag_quarantineOp (d : Digest) (h : Recovers s.disk s.index) : ∃ disk index,
    s.flag (quarantineOp s.index d) = { s with disk := disk, index := index } ∧
      disk.volumes = s.disk.volumes ∧ Recovers disk index ∧ ∀ x, index.get x =
        if x = d then (s.index.get x).map (fun r => { r with quarantined := true })
        else s.index.get x := by
  have hop : quarantineOp s.index d =
      (s.index.get d).bind (fun r => if r.quarantined then none else some (.quarantine d)) := by
    unfold quarantineOp
    cases s.index.get d <;> rfl
  rw [hop]
  apply flag_eq s _ NeedleRecord.quarantined h
  · intro r hquarantined
    rw [← hquarantined]
  · intro x row
    rfl

include hI

theorem storeInv_remove (d : Digest) :
    StoreInv good (s.remove d) ∧ ∀ x, x ≠ d → Kept s (s.remove d) x := by
  unfold Store.remove
  cases hd : s.locations.get d with
  | none => exact ⟨hI,fun x _ => ⟨fun _ _ hp => hp,rfl,Iff.rfl⟩⟩
  | some loc =>
    have hroute (x : Digest) (hx : x ≠ d) : (s.locations.erase d).get x = s.locations.get x := by
      rw [get_erase_ne hx]
    have hgone (l : BlobLocation) (h : (s.locations.erase d).get d = some l) : False := by
      rw [get_erase_self] at h
      cases h
    cases loc with
    | fileCas =>
      have hkept (x : Digest) (hx : x ≠ d) : Kept s { s with
          locations := s.locations.erase d
          objects := s.objects.erase d } x := by
        refine ⟨?_,hroute x hx,Iff.rfl⟩
        intro payload l hp
        cases l with
        | fileCas =>
          simp only [Store.HeldIn] at hp ⊢
          rw [get_erase_ne hx, hp]
        | haystack => exact hp
      refine ⟨⟨hI.packed,hI.recovers,?_,
        located_of_kept s hI hkept (fun l hl => (hgone l hl).elim)⟩,hkept⟩
      intro x payload hx
      exact hI.files x payload (get_of_get_erase hx)
    | haystack =>
      obtain ⟨disk,index,heq,hvol,hrec,hrows⟩ :=
        flag_removeOp { s with locations := s.locations.erase d } d hI.recovers
      simp only at heq ⊢
      rw [heq]
      have hkept (x : Digest) (hx : x ≠ d) : Kept s { s with
          locations := s.locations.erase d
          disk := disk
          index := index } x := by
        refine ⟨?_,hroute x hx,Iff.rfl⟩
        intro payload l hp
        cases l with
        | fileCas => exact hp
        | haystack =>
          obtain ⟨r,hr,hlive,hregion,hlen⟩ := hp
          refine ⟨r,?_,hlive,?_,hlen⟩
          · exact (hrows x).trans ((if_neg hx).trans hr)
          · simp only [hvol]
            exact hregion
      refine ⟨⟨?_,hrec,hI.files, located_of_kept s hI hkept (fun l hl => (hgone l hl).elim)⟩,hkept⟩
      simp only [hvol]
      apply packedInv_rows hI.packed
      intro x r hr
      rw [hrows x] at hr
      split_ifs at hr with hx
      · obtain ⟨r',hr',rfl⟩ := map_eq_some_iff.mp hr
        exact ⟨r',hr',rfl⟩
      · exact ⟨r,hr,rfl⟩

end

structure Compacted (good : Digest → Bytes → Prop) (s t : Store) : Prop where
  same : ∃ disk index active, t = { s with disk := disk, index := index, active := active }
  packedInv : PackedInv good t.disk.volumes t.index t.active
  recovers : Recovers t.disk t.index
  packed : ∀ d payload, Packed s.disk.volumes s.index d payload →
    Packed t.disk.volumes t.index d payload
  rows : ∀ d r, t.index.get d = some r → ∃ r', s.index.get d = some r' ∧ r.isLive = r'.isLive

def DroppedDead (s : Store) (dropped : List Digest) : Prop :=
  ∀ d ∈ dropped, ∃ r, s.index.get d = some r ∧ r.isLive = false

theorem mem_volumeDigests {v : VolumeId} :
    d ∈ volumeDigests index v ↔ ∃ r, index.get d = some r ∧ r.locator.volumeId = v := by
  simp only [volumeDigests, List.mem_map, List.mem_filter, decide_eq_true_eq, Prod.exists,
    get_eq_some_iff]
  constructor
  · rintro ⟨x,r,⟨hmem,hv⟩,rfl⟩
    exact ⟨r,hmem,hv⟩
  · rintro ⟨r,hmem,hv⟩
    exact ⟨d,r,⟨hmem,hv⟩,rfl⟩

section
variable (good : Digest → Bytes → Prop) (s : Store)
  (hI : PackedInv good s.disk.volumes s.index s.active) (hR : Recovers s.disk s.index)
  (old : VolumeId)

theorem droppedDead_retire (moved : List (Digest × NeedleLocator))
    (hmoved : ∀ e ∈ moved, e.2.volumeId ≠ old)
    (hcovered : ∀ d l, (d,l) ∈ liveIn s.index old → d ∈ moved.map Prod.fst) :
    DroppedDead s (volumeDigests (remapRows s.index moved) old) := by
  intro d hd
  obtain ⟨r',hr',hv⟩ := (mem_volumeDigests).mp hd
  rw [get_remapRows] at hr'
  obtain ⟨r,hr,rfl⟩ := map_eq_some_iff.mp hr'
  refine ⟨r,hr,?_⟩
  obtain ⟨_,_,hrow⟩ := remapRow_spec moved d r
  rcases hrow with ⟨hsame,hnot⟩ | ⟨_,hmem⟩
  · rw [hsame] at hv
    by_contra hlive
    have hlive := eq_true_of_ne_false hlive
    exact hnot hlive (hcovered d r.locator ((mem_liveIn).mpr ⟨r,hr,hlive,rfl,hv⟩))
  · exact absurd hv (hmoved _ hmem)

include hI hR

theorem compacted_seal :
    Compacted good s { s with active := s.active.filter (fun a => a.1 ≠ old) } where
  same := ⟨_,_,_,rfl⟩
  packedInv := packedInv_seal hI old
  recovers := hR
  packed := fun _ _ hp => hp
  rows := fun _ r hr => ⟨r,hr,rfl⟩

omit hR

omit hI in
theorem compacted_retire (moved : List (Digest × NeedleLocator))
    (volumes : Volumes) (active : Option (VolumeId × ℕ))
    (hvol : PackedInv good volumes s.index active) (hactive : ∀ n, active ≠ some (old,n))
    (hkeep : ∀ v file, s.disk.volumes.get v = some file → volumes.get v = some file)
    (hscanned : ∀ d l, (d,l) ∈ moved → Scanned volumes d l)
    (hmoved : ∀ e ∈ moved, e.2.volumeId ≠ old)
    (hcovered : ∀ d l, (d,l) ∈ liveIn s.index old → d ∈ moved.map Prod.fst)
    (hcopied : ∀ d payload l, Packed s.disk.volumes s.index d payload → (d,l) ∈ moved →
      readRegion volumes l = some payload ∧ payload.length = l.size) :
    Compacted good s (Store.retire { s with
      active := active
      disk := { s.disk with volumes := volumes } } old moved) where
  same := ⟨_,_,_,rfl⟩
  packedInv := packedInv_retire hvol hscanned hactive
  recovers := recovers_volumes _ (recovers_checkpoint)
  packed := by
    intro d payload hp
    apply packed_retire volumes s.index old moved d payload ?_ hmoved
    · intro l hl
      exact hcopied d payload l hp hl
    · obtain ⟨r,hr,hlive,_⟩ := hp
      intro r' hr' hv
      cases hr.symm.trans hr'
      exact hcovered d r.locator ((mem_liveIn).mpr ⟨r,hr,hlive,rfl,hv⟩)
    · obtain ⟨r,hr,hlive,hregion,hlen⟩ := hp
      refine ⟨r,hr,hlive,?_,hlen⟩
      obtain ⟨file,hfile,hslice⟩ := map_eq_some_iff.mp hregion
      rw [readRegion, hkeep _ _ hfile, map_some, hslice]
  rows := by
    intro d r hr
    obtain ⟨_,r',hr',hdel,hq,_⟩ := get_sweep hr
    exact ⟨r',hr',by simp only [NeedleRecord.isLive, hdel, hq]⟩

theorem copied_live (old fresh : VolumeId) (src out : Bytes)
    (moved : List (Digest × NeedleLocator)) (hsrc : s.disk.volumes.get old = some src)
    (hfresh : s.disk.volumes.get fresh = none)
    (hcopy : copyNeedles src fresh (liveIn s.index old) 0 = .ok (out,moved)) :
    PackedInv good (s.disk.volumes.set fresh out) s.index s.active ∧
      (∀ d l, (d,l) ∈ moved → l.volumeId = fresh ∧ Scanned (s.disk.volumes.set fresh out) d l ∧
        ∀ payload, Packed s.disk.volumes s.index d payload →
          readRegion (s.disk.volumes.set fresh out) l = some payload ∧ payload.length = l.size) ∧
      ∀ d l, (d,l) ∈ liveIn s.index old → d ∈ moved.map Prod.fst := by
  obtain ⟨rfl,rfl,hlim⟩ := copyNeedles_eq src fresh _ 0 out moved (by decide) hcopy
  rw [Nat.zero_add] at hlim
  -- a copy has the bytes that the live row of its digest reads
  have hbytes (d : Digest) (q : Bytes) (hq : (d,q) ∈ copies src (liveIn s.index old)) :
      ∃ r, s.index.get d = some r ∧ readRegion s.disk.volumes r.locator = some q := by
    obtain ⟨⟨x,l⟩,hmem,heq⟩ := List.mem_map.mp hq
    cases heq
    obtain ⟨r,hr,_,rfl,hv⟩ := (mem_liveIn).mp hmem
    exact ⟨r,hr,by rw [readRegion, hv, hsrc, map_some]⟩
  have hgood : ∀ n ∈ copies src (liveIn s.index old), good n.1 n.2 := by
    intro n hn
    obtain ⟨r,hr,hregion⟩ := hbytes n.1 n.2 hn
    obtain ⟨payload,hregion',_,hg⟩ :=
      region_scanned hI (hI.rows n.1 r hr)
    rw [some.inj (hregion.symm.trans hregion')]
    exact hg
  refine ⟨packedInv_publish hI hfresh hlim hgood,?_,?_⟩
  · intro d l hmem
    obtain ⟨hv,i,q,hi,hoff,hsize⟩ := (mem_placeNeedles fresh _ 0 (by omega) d l).mp hmem
    have hat : NeedleAt (copies src (liveIn s.index old)) d l q :=
      ⟨i,hi,by rw [hoff, Nat.zero_add],hsize⟩
    have hget : (s.disk.volumes.set fresh (needlesBytes (copies src (liveIn s.index old)))).get
        l.volumeId = some (needlesBytes (copies src (liveIn s.index old))) := by
      rw [hv, get_set_self]
    refine ⟨hv,(scanned_iff d hget hlim).mpr ⟨q,hat⟩,?_⟩
    rintro payload ⟨r,hr,_,hregion,_⟩
    obtain ⟨r',hr',hregion'⟩ := hbytes d q (mem_of_needleAt _ _ _ _ hat)
    cases hr.symm.trans hr'
    obtain rfl := some.inj (hregion.symm.trans hregion')
    exact ⟨by rw [readRegion, hget, map_some, slice_needleAt _ d l payload hat],hsize.symm⟩
  · intro d l hmem
    have hkeys := map_fst_placeNeedles fresh 0 (copies src (liveIn s.index old)) (by omega)
    rw [hkeys, copies, List.map_map]
    exact List.mem_map_of_mem (f := Prod.fst) hmem

include hR

/-- What the compaction of one volume does. -/
theorem compacted_volume (old fresh : VolumeId) (t : Store) (res : Except OpError (List Digest))
    (h : s.compactVolume old fresh = some (t,res)) :
    Compacted good s t ∧ ∀ dropped, res = .ok dropped → DroppedDead s dropped := by
  have hsealed := packedInv_seal hI old
  have hactive (n : ℕ) : s.active.filter (fun a => a.1 ≠ old) ≠ some (old,n) := by
    intro hact
    exact absurd (filter_eq_some_iff.mp hact).2 (by simp)
  have hfailed (e : OpError) (heq : some ({ s with active := s.active.filter (fun a => a.1 ≠ old) },
        (.error e : Except OpError (List Digest))) = some (t,res)) :
      Compacted good s t ∧ ∀ dropped, res = .ok dropped → DroppedDead s dropped := by
    cases heq
    refine ⟨compacted_seal good s hI hR old,?_⟩
    intro dropped hok
    cases hok
  unfold Store.compactVolume at h
  simp only at h
  split at h
  · -- nothing to copy
    next hlive =>
    cases h
    have hcovered : ∀ d l, (d,l) ∈ liveIn s.index old →
        d ∈ ([] : List (Digest × NeedleLocator)).map Prod.fst := by
      intro d l hmem
      rw [hlive] at hmem
      cases hmem
    refine ⟨compacted_retire good s old [] s.disk.volumes _ hsealed hactive (fun _ _ hv => hv)
      (by simp) (by simp) hcovered (by simp),?_⟩
    intro dropped hok
    rw [← Except.ok.inj hok]
    exact droppedDead_retire s old [] (by simp) hcovered
  · split at h
    · exact hfailed _ h
    · next src hsrc =>
      split_ifs at h with hcontains
      have hfresh := get_of_not_contains hcontains
      split at h
      · exact hfailed _ h
      · next out moved hcopy =>
        cases h
        obtain ⟨hvol,hmoved,hcovered⟩ :=
          copied_live good { s with active := s.active.filter (fun a => a.1 ≠ old) } hsealed old
            fresh src out moved hsrc hfresh hcopy
        have hne : ∀ e ∈ moved, e.2.volumeId ≠ old := by
          intro e he hv
          rw [(hmoved e.1 e.2 he).1] at hv
          rw [hv, hsrc] at hfresh
          cases hfresh
        refine ⟨compacted_retire good s old moved _ _ hvol hactive ?_
          (fun d l hm => (hmoved d l hm).2.1) hne hcovered
          (fun d payload l hp hm => (hmoved d l hm).2.2 payload hp),?_⟩
        · intro v file hv
          rw [get_set_ne, hv]
          rintro rfl
          cases hv.symm.trans hfresh
        · intro dropped hok
          rw [← Except.ok.inj hok]
          exact droppedDead_retire s old moved hne hcovered

end

theorem compacted_trans (good : Digest → Bytes → Prop) (s t u : Store) (h : Compacted good s t)
    (h' : Compacted good t u) : Compacted good s u where
  same := by
    obtain ⟨_,_,_,rfl⟩ := h.same
    obtain ⟨disk,index,active,rfl⟩ := h'.same
    exact ⟨disk,index,active,rfl⟩
  packedInv := h'.packedInv
  recovers := h'.recovers
  packed := fun d payload hp => h'.packed d payload (h.packed d payload hp)
  rows := by
    intro d r hr
    obtain ⟨r',hr',hlive⟩ := h'.rows d r hr
    obtain ⟨r'',hr'',hlive'⟩ := h.rows d r' hr'
    exact ⟨r'',hr'',hlive.trans hlive'⟩

theorem compacted_compaction (good : Digest → Bytes → Prop) (todo : List (VolumeId × VolumeId))
    (s t : Store) (res : Except OpError (List Digest))
    (hI : PackedInv good s.disk.volumes s.index s.active) (hR : Recovers s.disk s.index)
    (h : s.compaction todo = some (t,res)) :
    Compacted good s t ∧ ∀ dropped, res = .ok dropped → DroppedDead s dropped := by
  induction todo generalizing s t res with
  | nil =>
    cases h
    refine ⟨⟨⟨_,_,_,rfl⟩,hI,hR,fun _ _ hp => hp,fun _ r hr => ⟨r,hr,rfl⟩⟩,?_⟩
    intro dropped hok
    rw [← Except.ok.inj hok]
    intro d hd
    cases hd
  | cons e todo ih =>
    obtain ⟨old,fresh⟩ := e
    unfold Store.compaction at h
    split at h
    · cases h
    · next u err hu =>
      obtain ⟨rfl,rfl⟩ := Prod.mk.inj (some.inj h)
      exact compacted_volume good s hI hR old fresh u _ hu
    · next u dropped hu =>
      obtain ⟨hfirst,hdead⟩ := compacted_volume good s hI hR old fresh u _ hu
      obtain ⟨⟨v,more⟩,hrest,heq⟩ := map_eq_some_iff.mp h
      cases heq
      obtain ⟨hlater,hdead'⟩ := ih u v more hfirst.packedInv hfirst.recovers hrest
      refine ⟨compacted_trans good s u v hfirst hlater,?_⟩
      intro all hall d hd
      cases more with
      | error e => cases hall
      | ok ds =>
        obtain rfl : dropped ++ ds = all := Except.ok.inj hall
        rcases List.mem_append.mp hd with hd | hd
        · exact hdead dropped rfl d hd
        · obtain ⟨r,hr,hlive⟩ := hdead' ds rfl d hd
          obtain ⟨r',hr',hsame⟩ := hfirst.rows d r hr
          exact ⟨r',hr',hsame.symm.trans hlive⟩

section
variable (good : Digest → Bytes → Prop) (s t : Store) (hI : StoreInv good s)
include hI

theorem storeInv_compact {todo : List (VolumeId × VolumeId)}
    (h : s.compactHaystack todo = some t) :
    StoreInv good t ∧
      (∃ disk index active locations, t = { s with
        disk := disk, index := index, active := active, locations := locations }) ∧
      (∀ d payload l, s.HeldIn d payload l → t.HeldIn d payload l) ∧
      (∀ d, t.locations.get d = s.locations.get d ∨
        t.locations.get d = none ∧ ∃ r, s.index.get d = some r ∧ r.isLive = false) ∧
      ∀ d r, t.index.get d = some r → ∃ r', s.index.get d = some r' ∧ r.isLive = r'.isLive := by
  obtain ⟨⟨u,res⟩,hu,rfl⟩ := map_eq_some_iff.mp h
  obtain ⟨hc,hdead⟩ := compacted_compaction good todo s u res hI.packed hI.recovers hu
  obtain ⟨disk,index,active,rfl⟩ := hc.same
  have hheld (d : Digest) (payload : Bytes) (l : BlobLocation) (hp : s.HeldIn d payload l) :
      Store.HeldIn { s with disk := disk, index := index, active := active } d payload l := by
    cases l with
    | fileCas => exact hp
    | haystack => exact hc.packed d payload hp
  have hlocated (locations : Dict Digest BlobLocation)
      (hsub : ∀ d l, locations.get d = some l → s.locations.get d = some l) (d : Digest)
      (l : BlobLocation) (hl : locations.get d = some l) : ∃ payload,
        Store.HeldIn { s with disk := disk, index := index, active := active } d payload l := by
    obtain ⟨payload,hp⟩ := hI.located d l (hsub d l hl)
    exact ⟨payload,hheld d payload l hp⟩
  cases res with
  | error e =>
    refine ⟨⟨hc.packedInv,hc.recovers,hI.files,?_⟩,⟨_,_,_,_,rfl⟩,hheld, fun _ => Or.inl rfl,hc.rows⟩
    exact hlocated s.locations (fun _ _ hl => hl)
  | ok dropped =>
    have hget (d : Digest) : (dropped.foldl (fun m d => m.erase d) s.locations).get d =
        if d ∈ dropped then none else s.locations.get d :=
          get_foldl_erase dropped s.locations d
    refine ⟨⟨hc.packedInv,hc.recovers,hI.files,?_⟩,⟨_,_,_,_,rfl⟩,?_,?_,hc.rows⟩
    · intro d l hl
      have hsub : ∀ d l, (dropped.foldl (fun m d => m.erase d) s.locations).get d = some l →
          s.locations.get d = some l := by
        intro d l hl
        rw [hget d] at hl
        split_ifs at hl
        exact hl
      obtain ⟨payload,hp⟩ := hlocated _ hsub d l hl
      exact ⟨payload,by cases l <;> exact hp⟩
    · intro d payload l hp
      have hkept := hheld d payload l hp
      cases l <;> exact hkept
    · intro d
      by_cases hd : d ∈ dropped
      · exact Or.inr ⟨(hget d).trans (if_pos hd),hdead dropped rfl d hd⟩
      · exact Or.inl ((hget d).trans (if_neg hd))

end

end BackendGauntlet.ObjectStore
