import BackendGauntlet.ObjectStoreHaystackCrash
import BackendGauntlet.ObjectStoreManifest

/-! Which acknowledged operations a restarted Haystack still knows. -/
namespace BackendGauntlet.ObjectStore

open PyText Transition Option Dict

variable {result volumes : Volumes} {x : Digest} {ram : Ram} {t : HaystackState}

theorem agrees_mono {acked : Option Acked} {row : Option NeedleRecord}
    (h : Agrees acked volumes row)
    (hr : ∀ l content, readRegion volumes l = some content → content.length = l.size →
      readRegion result l = some content) : Agrees acked result row := by
  cases acked with
  | none => trivial
  | some a =>
    cases a with
    | commit payload =>
      obtain ⟨r,hrow,hl,hreg,hlen⟩ := h
      exact ⟨r,hrow,hl,hr _ _ hreg hlen,hlen⟩
    | remove => exact h
    | quarantine => exact h

theorem agrees_none {acked : Option Acked}
    (h : Agrees acked volumes none) :
    Agrees acked result none := by
  cases acked with
  | none => trivial
  | some a =>
    cases a with
    | commit payload =>
      obtain ⟨r,hrow,_⟩ := h
      simp at hrow
    | remove => exact h
    | quarantine => exact h

theorem hasNeedle_congr
    (hr : ∀ v, result.get v = volumes.get v ∨ result.get v = (volumes.get v).map (truncateTorn v))
    (hf : ∀ v file, volumes.get v = some file → ∃ needles, Framed file needles)
    (hx : HasNeedle result x) : HasNeedle volumes x := by
  obtain ⟨v,file,hv,hm⟩ := hx
  rcases hr v with h | h
  · exact ⟨v,file,h ▸ hv,hm⟩
  · rw [h] at hv
    obtain ⟨old,ho,rfl⟩ := map_eq_some_iff.mp hv
    obtain ⟨needles,hn⟩ := hf v old ho
    rw [(scanNeedles_framed v (framed_truncateTorn v hn)).1] at hm
    exact ⟨v,old,ho,by rwa [(scanNeedles_framed v hn).1]⟩

structure CrashInv (d : Digest) (s : HaystackState) (index : NeedleIndex) : Prop where
  shape : LogShape s.disk.log
  volumes : VolumesOk s.disk.volumes (s.ram.bind Ram.active)
  durable : s.disk.durable = .ok index
  ram : ∀ ram, s.ram = some ram → ∀ x, ram.index.get x = index.get x
  agrees : Agrees (s.acked.get d) s.disk.volumes (index.get d)
  noNeedle : (∀ x, index.get x = none) → s.ram.isSome = true → ∀ x, ¬ HasNeedle s.disk.volumes x
  ackedNeedle : (∀ x, index.get x = none) → s.acked.get d ≠ none → ¬ HasNeedle s.disk.volumes d

theorem crashInv_newDirectory (d : Digest) {s : HaystackState} (hs : newDirectory s) :
    CrashInv d s empty := by
  subst hs
  refine ⟨⟨[],[],rfl,Or.inl rfl⟩,⟨by simp,by simp⟩,rfl,by simp,trivial,by simp,by simp⟩

section
variable (maxVolumeSize : ℕ) (d : Digest) (s : HaystackState) (index : NeedleIndex)
  (hI : CrashInv d s index)
include hI

theorem crashInv_crash : CrashInv d { s with ram := none } index :=
  { hI with
    volumes := ⟨hI.volumes.framed,by simp⟩
    ram := by simp
    noNeedle := by simp }

theorem crashInv_checkpoint (hr : s.ram = some ram) :
    CrashInv d { s with disk := checkpoint s.disk ram.index } ram.index where
  shape := ⟨[],[],rfl,Or.inl rfl⟩
  volumes := hI.volumes
  durable := durable_checkpoint s.disk ram.index
  ram := by
    intro r h x
    rw [some.inj (hr.symm.trans h)]
  agrees := by
    rw [hI.ram ram hr d]
    exact hI.agrees
  noNeedle := fun h => hI.noNeedle (fun x => (hI.ram ram hr x) ▸ h x)
  ackedNeedle := fun h => hI.ackedNeedle (fun x => (hI.ram ram hr x) ▸ h x)

theorem crashInv_renamed (hr : s.ram = some ram) :
    ∃ result, CrashInv d { s with disk := writeSnapshot s.disk ram.index, ram := none } result := by
  obtain ⟨result,hd,hrow⟩ := durable_writeSnapshot s.disk index ram.index hI.shape hI.durable
  have hsame (x : Digest) : result.get x = index.get x := hrow x (hI.ram ram hr x)
  refine ⟨result,hI.shape,⟨hI.volumes.framed,by simp⟩,hd,by simp,?_,by simp,?_⟩
  · rw [hsame d]
    exact hI.agrees
  · exact fun h => hI.ackedNeedle (fun x => (hsame x) ▸ h x)

theorem crashInv_crashVolume (hr : s.ram = some ram) {payload : Bytes}
    {fresh : VolumeId} {written : ℕ} {l : NeedleLocator}
    (ha : appendNeedle maxVolumeSize ram.active s.disk.volumes x payload fresh written =
      some (result,l))
    (hok : noNeedle d s ram x payload written = true) :
    CrashInv d { s with disk := { s.disk with volumes := result }, ram := none } index := by
  have hv : VolumesOk s.disk.volumes ram.active := by
    have h := hI.volumes
    rwa [hr] at h
  refine ⟨hI.shape,volumesOk_append hv ha,hI.durable,by simp,?_,by simp,?_⟩
  · exact agrees_mono hI.agrees (readRegion_append hv ha)
  · intro hempty hacked hneedle
    rcases hasNeedle_append hv ha hneedle with h | ⟨rfl,hw⟩
    · exact hI.ackedNeedle hempty hacked h
    · have hram : ram.index.isEmpty = true :=
        (Dict.isEmpty_iff _).mpr (fun y => (hI.ram ram hr y).trans (hempty y))
      have hlt : ¬ written < (needleFrame d payload).length := by omega
      simp [noNeedle, hacked, hlt, hram] at hok

theorem crashInv_crashLog (op : LogOp) (written : ℕ) (hdown : s.ram = none)
    (hc : cleanEnd s.disk.log = true) (hok : noTrace d s op written = true) :
    ∃ result, CrashInv d { s with disk := appendLog s.disk op written } result := by
  obtain ⟨hshape,hdur⟩ := durable_appendLog s.disk op written index hI.shape hc hI.durable
  refine ⟨_,hshape,hI.volumes,hdur,by simp [hdown],?_,by simp [hdown],?_⟩
  · by_cases hw : op.line.length ≤ written
    · rw [if_pos hw, get_apply]
      by_cases hd : op.digest = d
      · have hlt : ¬ written < op.line.length := by omega
        have hnone : s.acked.get d = none := by simpa [noTrace, hd, hlt] using hok
        simp only [hnone]
        trivial
      · rw [row_ne _ hd]
        exact hI.agrees
    · rw [if_neg hw]
      exact hI.agrees
  · intro hempty
    apply hI.ackedNeedle
    intro x
    have hx := hempty x
    split_ifs at hx
    · exact get_eq_none_of_apply hx
    · exact hx

variable {d s index}

theorem crashInv_logged {op : LogOp} (hc : cleanEnd s.disk.log = true)
    (hr : s.ram = some ram) {a : Acked} {active : Option (VolumeId × ℕ)}
    (hv : VolumesOk result active)
    (hreg : ∀ l content, readRegion s.disk.volumes l = some content → content.length = l.size →
      readRegion result l = some content)
    (hagree : op.digest = d → Agrees (some a) result (op.row d (index.get d)))
    (hrow : (op.apply index).get op.digest ≠ none) :
    CrashInv d ⟨appendLog { s.disk with volumes := result } op (op.line.length+1),
      some ⟨op.apply ram.index,active⟩,s.acked.set op.digest a⟩ (op.apply index) := by
  obtain ⟨hshape,hdur⟩ :=
    durable_appendLog { s.disk with volumes := result } op (op.line.length+1) index hI.shape hc
      hI.durable
  rw [if_pos (by omega)] at hdur
  refine ⟨hshape,hv,hdur,?_,?_,fun h => absurd (h _) hrow,fun h => absurd (h _) hrow⟩
  · rintro r ⟨⟩ x
    rw [get_apply, get_apply, hI.ram ram hr x]
  · rw [get_apply]
    by_cases hd : op.digest = d
    · rw [hd, get_set_self]
      exact hagree hd
    · rw [row_ne _ hd, get_set_ne (Ne.symm hd)]
      exact agrees_mono hI.agrees hreg

theorem crashInv_commit (hr : s.ram = some ram) {payload : Bytes}
    {fresh : VolumeId} {l : NeedleLocator}
    (ha : appendNeedle maxVolumeSize ram.active s.disk.volumes x payload fresh
      (needleFrame x payload).length = some (result,l))
    (hc : cleanEnd s.disk.log = true) :
    CrashInv d ⟨appendLog { s.disk with volumes := result } (.put x l)
        ((LogOp.put x l).line.length+1),
      some ⟨(LogOp.put x l).apply ram.index,some (l.volumeId,l.payloadOffset+l.size)⟩,
      s.acked.set x (.commit payload)⟩ ((LogOp.put x l).apply index) := by
  have hv : VolumesOk s.disk.volumes ram.active := by
    have h := hI.volumes
    rwa [hr] at h
  obtain ⟨hregion,hlen⟩ := readRegion_appended hv ha (Nat.le_refl _)
  refine crashInv_logged hI hc hr (volumesOk_appended hv ha (Nat.le_refl _))
    (readRegion_append hv ha) ?_ ?_
  · rintro rfl
    exact ⟨⟨l,false,false⟩,if_pos rfl,rfl,hregion,hlen⟩
  · rw [get_apply, LogOp.row, if_pos rfl]
    simp

theorem crashInv_flagStep (hr : s.ram = some ram) {op : Option LogOp}
    {a : Acked} (ha : a = .remove ∨ a = .quarantine)
    (hnone : op = none → ∀ r, index.get x = some r → r.isLive = false)
    (hsome : ∀ o, op = some o → o.digest = x ∧ ∃ r, (o.apply index).get x = some r ∧
      r.isLive = false)
    (hc : op.isNone || cleanEnd s.disk.log) :
    ∃ result, CrashInv d (flagStep s ram op x a) result := by
  have hdead (v : Volumes) (row : Option NeedleRecord) (h : ∀ r, row = some r → r.isLive = false) :
      Agrees (some a) v row := by
    rcases ha with rfl | rfl
    · exact h
    · exact h
  cases op with
  | none =>
    have hup : s.ram.isSome = true := by simp [hr]
    refine ⟨index,hI.shape,hI.volumes,hI.durable,hI.ram,?_,hI.noNeedle,
      fun h _ => hI.noNeedle h hup d⟩
    simp only [flagStep]
    by_cases hd : d = x
    · rw [hd, get_set_self]
      exact hdead _ _ (hnone rfl)
    · rw [get_set_ne hd]
      exact hI.agrees
  | some o =>
    obtain ⟨rfl,r,hrow,hlive⟩ := hsome o rfl
    have hv : VolumesOk s.disk.volumes ram.active := by
      have h := hI.volumes
      rwa [hr] at h
    refine ⟨_,crashInv_logged hI (by simpa using hc) hr hv (fun _ _ h _ => h) ?_ (by simp [hrow])⟩
    intro hd
    rw [← get_apply, ← hd, hrow]
    exact hdead _ _ (fun r' h => some.inj h ▸ hlive)

theorem crashInv_truncate (hdown : s.ram = none) (hempty : ∀ x, index.get x = none)

    (hr : ∀ v, result.get v = s.disk.volumes.get v ∨
      result.get v = (s.disk.volumes.get v).map (truncateTorn v)) :
    CrashInv d { s with disk := { s.disk with volumes := result } } index where
  shape := hI.shape
  volumes := by
    refine ⟨fun v file hv => ?_,by simp [hdown]⟩
    rcases hr v with h | h
    · exact hI.volumes.framed v file (h ▸ hv)
    · rw [h] at hv
      obtain ⟨old,ho,rfl⟩ := map_eq_some_iff.mp hv
      obtain ⟨needles,hn⟩ := hI.volumes.framed v old ho
      exact ⟨needles,framed_truncateTorn v hn⟩
  durable := hI.durable
  ram := hI.ram
  agrees := by
    have h := hI.agrees
    rw [hempty d] at h ⊢
    exact agrees_none h
  noNeedle := by simp [hdown]
  ackedNeedle := fun h ha hn =>
    hI.ackedNeedle h ha (hasNeedle_congr hr hI.volumes.framed hn)

theorem agrees_rebuild (hempty : ∀ x, index.get x = none) (volumes : Volumes) :
    s.acked.get d = none ∨ (rebuildFromVolumes s.disk.volumes).get d = none ∧
      Agrees (s.acked.get d) volumes none := by
  by_cases ha : s.acked.get d = none
  · exact Or.inl ha
  · have hno := hI.ackedNeedle hempty ha
    refine Or.inr ⟨?_,?_⟩
    · rw [get_rebuild_eq_none]
      exact fun v file hv hm => hno ⟨v,file,hv,hm⟩
    · have h := hI.agrees
      rw [hempty d] at h
      exact agrees_none h

theorem crashInv_bootScan (hdown : s.ram = none) (hempty : ∀ x, index.get x = none) :
    CrashInv d { s with
      disk := checkpoint { s.disk with volumes := s.disk.volumes.mapValues truncateTorn }
        (rebuildFromVolumes s.disk.volumes)
      ram := some ⟨rebuildFromVolumes s.disk.volumes,none⟩ }
        (rebuildFromVolumes s.disk.volumes) := by
  have htrunc := crashInv_truncate hI hdown hempty (fun v => Or.inr (get_mapValues _ _ _))
  refine ⟨⟨[],[],rfl,Or.inl rfl⟩,⟨htrunc.volumes.framed,by simp⟩,
    durable_checkpoint { s.disk with volumes := s.disk.volumes.mapValues truncateTorn }
      (rebuildFromVolumes s.disk.volumes),?_,?_,?_,fun _ ha => htrunc.ackedNeedle hempty ha⟩
  · rintro r ⟨⟩ x
    rfl
  · rcases agrees_rebuild hI hempty (s.disk.volumes.mapValues truncateTorn) with h | h
    · simp only [h]
      trivial
    · rw [h.1]
      exact h.2
  · intro hnone _ x hx
    obtain ⟨v,file,hv,hm⟩ := hasNeedle_congr (fun v => Or.inr (get_mapValues _ _ _))
      hI.volumes.framed hx
    exact (get_rebuild_eq_none x).mp (hnone x) v file hv hm

theorem crashInv_bootLoad (disk : Disk) (hvol : disk.volumes = s.disk.volumes)
    (hshape : LogShape disk.log) (hdur : disk.durable = .ok index)
    (hscan : ¬ (index.isEmpty && !s.disk.volumes.isEmpty) = true) :
    CrashInv d { s with disk := disk, ram := some ⟨index,none⟩ } index := by
  have hno : (∀ x, index.get x = none) → ∀ x, ¬ HasNeedle s.disk.volumes x := by
    intro hempty x hx
    obtain ⟨v,file,hv,_⟩ := hx
    have hvol : s.disk.volumes.isEmpty = true := by
      simpa [(Dict.isEmpty_iff index).mpr hempty] using hscan
    rw [(Dict.isEmpty_iff _).mp hvol v] at hv
    simp at hv
  refine ⟨hshape,⟨?_,by simp⟩,hdur,?_,?_,?_,?_⟩
  · exact hvol ▸ hI.volumes.framed
  · rintro r ⟨⟩ x
    rfl
  · exact hvol ▸ hI.agrees
  · intro h _
    exact hvol ▸ hno h
  · intro h _
    exact hvol ▸ hno h d

theorem crashInv_boot (hdown : s.ram = none) :
    ∃ disk booted, bootstrapWith checkpoint s.disk = .ok (disk,booted) ∧
      CrashInv d { s with disk := disk, ram := some ⟨booted,none⟩ } booted := by
  by_cases hscan : (index.isEmpty && !s.disk.volumes.isEmpty) = true
  · have hempty := (Dict.isEmpty_iff index).mp (Bool.and_eq_true_iff.mp hscan).1
    refine ⟨_,_,?_,crashInv_bootScan hI hdown hempty⟩
    simp only [bootstrapWith, hI.durable, bind, Except.bind, hscan, if_true, pure, Except.pure]
  · cases hsnap : s.disk.snapshot.isNone with
    | true =>
      refine ⟨_,_,?_,crashInv_bootLoad hI (checkpoint s.disk index) rfl
        ⟨[],[],rfl,Or.inl rfl⟩ (durable_checkpoint s.disk index) hscan⟩
      simp only [bootstrapWith, hI.durable, bind, Except.bind, hscan, hsnap, if_true, pure,
        Except.pure, Bool.false_eq_true, if_false]
    | false =>
      refine ⟨_,_,?_,crashInv_bootLoad hI s.disk rfl hI.shape hI.durable hscan⟩
      simp only [bootstrapWith, hI.durable, bind, Except.bind, hscan, hsnap, pure, Except.pure,
        Bool.false_eq_true, if_false]

theorem crashInv_bootRenamed (hdown : s.ram = none) {disk : Disk} {booted : NeedleIndex}
    (hb : bootstrapWith writeSnapshot s.disk = .ok (disk,booted)) :
    ∃ result, CrashInv d { s with disk := disk } result := by
  simp only [bootstrapWith, hI.durable, bind, Except.bind, pure, Except.pure] at hb
  split_ifs at hb with hscan hsnap
  · simp only [Except.ok.injEq, Prod.mk.injEq] at hb
    obtain ⟨rfl,rfl⟩ := hb
    have hempty := (Dict.isEmpty_iff index).mp (Bool.and_eq_true_iff.mp hscan).1
    have htrunc := crashInv_truncate hI hdown hempty (fun v => Or.inr (get_mapValues _ _ _))
    obtain ⟨result,hd,hrow⟩ := durable_writeSnapshot
      { s.disk with volumes := s.disk.volumes.mapValues truncateTorn } index
      (rebuildFromVolumes s.disk.volumes) hI.shape hI.durable
    refine ⟨result,hI.shape,htrunc.volumes,hd,by simp [hdown],?_,by simp [hdown],
      fun _ ha => htrunc.ackedNeedle hempty ha⟩
    rcases agrees_rebuild hI hempty (s.disk.volumes.mapValues truncateTorn) with h | h
    · simp only [h]
      trivial
    · rw [hrow d (h.1.trans (hempty d).symm), hempty d]
      exact h.2
  · simp only [Except.ok.injEq, Prod.mk.injEq] at hb
    obtain ⟨rfl,rfl⟩ := hb
    obtain ⟨result,hd,hrow⟩ := durable_writeSnapshot s.disk index index hI.shape hI.durable
    refine ⟨result,hI.shape,hI.volumes,hd,by simp [hdown],?_,by simp [hdown],?_⟩
    · rw [hrow d rfl]
      exact hI.agrees
    · exact fun h => hI.ackedNeedle (fun x => (hrow x rfl) ▸ h x)
  · simp only [Except.ok.injEq, Prod.mk.injEq] at hb
    obtain ⟨rfl,rfl⟩ := hb
    exact ⟨index,hI⟩

/-- A flag is logged unless it is set, and either way the needle is not live afterwards. -/
theorem flagOp_spec (hr : s.ram = some ram) {op : LogOp}
    (flag : NeedleRecord → Bool) (mark : NeedleRecord → NeedleRecord)
    (hflag : ∀ r, flag r = true → r.isLive = false) (hmark : ∀ r, (mark r).isLive = false)
    (hrow : ∀ r, op.row x r = r.map mark) (logged : Option LogOp)
    (hlogged : logged = (ram.index.get x).bind (fun r => if flag r then none else some op)) :
    (logged = none → ∀ r, index.get x = some r → r.isLive = false) ∧
      ∀ o, logged = some o → o = op ∧ ∃ r, (o.apply index).get x = some r ∧ r.isLive = false := by
  rw [hI.ram ram hr x] at hlogged
  subst hlogged
  cases hget : index.get x with
  | none => simp
  | some r =>
    by_cases hset : flag r = true
    · simp [hset, hflag r hset]
    · simp only [bind_some, if_neg hset]
      refine ⟨fun h => absurd h (some_ne_none op),?_⟩
      rintro o ⟨⟩
      exact ⟨rfl,mark r,by rw [get_apply, hrow, hget, map_some],hmark r⟩

theorem removeOp_spec (hr : s.ram = some ram) (x : Digest) :
    (removeOp ram.index x = none → ∀ r, index.get x = some r → r.isLive = false) ∧
      ∀ op, removeOp ram.index x = some op → op = .delete x ∧
        ∃ r, (op.apply index).get x = some r ∧ r.isLive = false := by
  apply flagOp_spec hI hr NeedleRecord.deleted (fun r => { r with deleted := true })
  · intro r hdel
    simp [NeedleRecord.isLive, hdel]
  · intro r
    simp [NeedleRecord.isLive]
  · exact fun r => if_pos rfl
  · rw [removeOp]
    cases ram.index.get x <;> rfl

theorem quarantineOp_spec (hr : s.ram = some ram) (x : Digest) :
    (quarantineOp ram.index x = none → ∀ r, index.get x = some r → r.isLive = false) ∧
      ∀ op, quarantineOp ram.index x = some op → op = .quarantine x ∧
        ∃ r, (op.apply index).get x = some r ∧ r.isLive = false := by
  apply flagOp_spec hI hr NeedleRecord.quarantined (fun r => { r with quarantined := true })
  · intro r hq
    simp [NeedleRecord.isLive, hq]
  · intro r
    simp [NeedleRecord.isLive]
  · exact fun r => if_pos rfl
  · rw [quarantineOp]
    cases ram.index.get x <;> rfl

theorem crashInv_flagCrash {op : Option LogOp} {written : ℕ} (hc : cleanEnd s.disk.log = true)
    (hok : ∀ o, op = some o → noTrace d s o written = true)
    (ht : flagCrash s op written = some t) : ∃ result, CrashInv d t result := by
  obtain ⟨o,ho,rfl⟩ := map_eq_some_iff.mp ht
  exact crashInv_crashLog d { s with ram := none } index (crashInv_crash d s index hI) o written rfl
    hc (hok o ho)

/-- The running process keeps the invariant, to its crash. -/
theorem crashInv_upStep (hr : s.ram = some ram) {a : HaystackAction}
    (hok : upIntact maxVolumeSize d s ram a = true)
    (ht : upStep maxVolumeSize s ram a = some t) : ∃ result, CrashInv d t result := by
  cases a with
  | commit x payload fresh =>
    obtain ⟨⟨result,l⟩,ha,rfl⟩ := map_eq_some_iff.mp ht
    exact ⟨_,crashInv_commit maxVolumeSize hI hr ha hok⟩
  | remove x =>
    obtain ⟨hnone,hsome⟩ := removeOp_spec hI hr x
    refine some.inj ht ▸ crashInv_flagStep hI hr (Or.inl rfl) hnone (fun o ho => ?_) hok
    obtain ⟨rfl,h⟩ := hsome o ho
    exact ⟨rfl,h⟩
  | quarantine x =>
    obtain ⟨hnone,hsome⟩ := quarantineOp_spec hI hr x
    refine some.inj ht ▸ crashInv_flagStep hI hr (Or.inr rfl) hnone (fun o ho => ?_) hok
    obtain ⟨rfl,h⟩ := hsome o ho
    exact ⟨rfl,h⟩
  | checkpoint => exact some.inj ht ▸ ⟨_,crashInv_checkpoint d s index hI hr⟩
  | crash => exact some.inj ht ▸ ⟨_,crashInv_crash d s index hI⟩
  | crashVolume x payload fresh written =>
    obtain ⟨⟨result,l⟩,ha,rfl⟩ := map_eq_some_iff.mp ht
    exact ⟨_,crashInv_crashVolume maxVolumeSize d s index hI hr ha hok⟩
  | crashCommit x payload fresh written =>
    obtain ⟨⟨result,l⟩,ha,rfl⟩ := map_eq_some_iff.mp ht
    simp only [upIntact, ha, Bool.and_eq_true] at hok
    obtain ⟨⟨hc,hneedle⟩,htrace⟩ := hok
    have hvol := crashInv_crashVolume maxVolumeSize d s index hI hr ha hneedle
    exact crashInv_crashLog d _ index hvol (.put x l) written rfl hc htrace
  | crashRemove x written =>
    obtain ⟨hc,htrace⟩ := Bool.and_eq_true_iff.mp hok
    refine crashInv_flagCrash hI hc (fun o ho => ?_) ht
    exact ((removeOp_spec hI hr x).2 o ho).1 ▸ htrace
  | crashQuarantine x written =>
    obtain ⟨hc,htrace⟩ := Bool.and_eq_true_iff.mp hok
    refine crashInv_flagCrash hI hc (fun o ho => ?_) ht
    exact ((quarantineOp_spec hI hr x).2 o ho).1 ▸ htrace
  | crashRenamed => exact some.inj ht ▸ crashInv_renamed d s index hI hr
  | boot | bootTruncated v | bootRenamed => simp [upStep] at ht

/-- So does every way to boot. -/
theorem crashInv_downStep (hdown : s.ram = none) {a : HaystackAction}
    (ht : downStep s a = some t) : ∃ result, CrashInv d t result := by
  cases a with
  | boot =>
    obtain ⟨disk,booted,hb,hinv⟩ := crashInv_boot hI hdown
    simp only [downStep, hb, some.injEq] at ht
    exact ⟨booted,ht ▸ hinv⟩
  | bootTruncated v =>
    simp only [downStep, hI.durable] at ht
    split_ifs at ht with hempty
    refine ⟨index,some.inj ht ▸ crashInv_truncate hI hdown
      ((Dict.isEmpty_iff index).mp hempty) (fun w => ?_)⟩
    rw [get_modify]
    split_ifs with hw
    · exact Or.inr (by rw [hw])
    · exact Or.inl rfl
  | bootRenamed =>
    simp only [downStep] at ht
    split at ht
    · rename_i disk booted hb
      exact some.inj ht ▸ crashInv_bootRenamed hI hdown hb
    · simp at ht
  | commit x payload fresh | remove x | quarantine x | checkpoint | crash
  | crashVolume x payload fresh written | crashCommit x payload fresh written
  | crashRemove x written | crashQuarantine x written | crashRenamed => simp [downStep] at ht

end

/-- In runs that leave log and interrupted operations on `d` intact, a boot succeeds and the index
agrees with the operations acknowledged on `d`. -/
theorem acked_operations_survive (maxVolumeSize : ℕ) (d : Digest) (s : HaystackState)
    (hs : Reachable newDirectory (haystackStep maxVolumeSize)
      (fun s a => intact maxVolumeSize d s a = true) s) :
    (s.ram = none → ∃ t, haystackStep maxVolumeSize s .boot = some t) ∧
      ∀ ram, s.ram = some ram → Agrees (s.acked.get d) s.disk.volumes (ram.index.get d) := by
  have hinv := reachable_invariant (fun s => ∃ index, CrashInv d s index)
    (fun s hs => ⟨_,crashInv_newDirectory d hs⟩) (fun s t a ⟨index,hI⟩ ha ht => by
      unfold haystackStep at ht
      unfold intact at ha
      split at ht
      · rename_i ram hr
        simp only [hr] at ha
        exact crashInv_upStep maxVolumeSize hI hr ha ht
      · rename_i hr
        exact crashInv_downStep hI hr ht) s hs
  obtain ⟨index,hI⟩ := hinv
  constructor
  · intro hdown
    obtain ⟨disk,booted,hb,_⟩ := crashInv_boot hI hdown
    refine ⟨{ s with disk := disk, ram := some ⟨booted,none⟩ },?_⟩
    simp only [haystackStep, hdown, downStep, hb]
  · intro ram hr
    rw [hI.ram ram hr d]
    exact hI.agrees

def emptyDirectory : HaystackState := ⟨⟨none,[],Dict.empty⟩,none,Dict.empty⟩

def tornRemoveRun : List HaystackAction :=
  [.boot, .commit abcDigest [97, 98, 99] volumeA, .crashRemove abcDigest 5, .boot]

theorem acked_abc_survives :
    ∃ s, (Reachable newDirectory (haystackStep 1000)
      (fun s a => intact 1000 abcDigest s a = true) s ∧
        (s.ram.isSome && s.acked.get abcDigest = some (.commit [97, 98, 99])) = true) ∧
      (s.ram = none → ∃ t, haystackStep 1000 s .boot = some t) ∧
      ∀ ram, s.ram = some ram →
        Agrees (s.acked.get abcDigest) s.disk.volumes (ram.index.get abcDigest) := by
  refine Exists.imp (fun s hs => ⟨hs,acked_operations_survive 1000 abcDigest s hs.1⟩) ?_
  exact reachable_of_checkedRun _ _ _ tornRemoveRun emptyDirectory rfl (by decide +kernel)

/-- The next commit lands on the torn line; it is acknowledged and gone after a restart. -/
theorem torn_log_loses_commit :
    ∃ s, Reachable newDirectory (haystackStep 1000) anyStep s ∧ ∃ ram, s.ram = some ram ∧
      ¬ Agrees (s.acked.get abcManifestDigest) s.disk.volumes
        (ram.index.get abcManifestDigest) := by
  obtain ⟨t,ht,hacked,ram,hr,hrow⟩ := reachable_of_run newDirectory (haystackStep 1000)
    (P := fun s => s.acked.get abcManifestDigest = some (.commit abcManifestBytes) ∧
      ∃ ram, s.ram = some ram ∧ ram.index.get abcManifestDigest = none)
    (tornRemoveRun ++ [.commit abcManifestDigest abcManifestBytes volumeB, .crash, .boot])
    emptyDirectory rfl (by decide +kernel)
  refine ⟨t,ht,ram,hr,?_⟩
  rw [hacked, hrow]
  rintro ⟨r,h,_⟩
  simp at h

end BackendGauntlet.ObjectStore
