import BackendGauntlet.ObjectStoreGcRace
import BackendGauntlet.ObjectStoreManifest

/-! What the collector may sweep while PUTs are under way. -/
namespace BackendGauntlet.ObjectStore

open Transition List Option Dict

def RowNames (rows : Dict (Bucket × Key) ObjectMeta) (bk : Bucket × Key) (d : Digest) : Prop :=
  ∃ m, rows.get bk = some m ∧ d ∈ m.digests

def Carried (held : Dict (Bucket × Key) Held) (d : Digest) : Prop :=
  ∃ bk h, held.get bk = some h ∧ h.carried = some d

def PutAt (puts : Dict ℕ Put) (stage : PutStage) (d : Digest) : Prop :=
  ∃ i p, puts.get i = some p ∧ p.stage = stage ∧ p.digest = d

def InFlight (s : RaceState) (d : Digest) : Prop :=
  Carried s.held d ∨ ∃ stage, stage ≠ .streamed ∧ PutAt s.puts stage d

def Needed (s : RaceState) (d : Digest) : Prop := (∃ bk, RowNames s.rows bk d) ∨ InFlight s d

def Settled (s : RaceState) (d : Digest) : Prop :=
  (∃ bk, RowNames s.rows bk d) ∨ Carried s.held d ∨ PutAt s.puts .committed d

def Gc.Idle (c : Gc) : Prop :=
  match c.phase with
  | .rows _ => True
  | .buckets => c.rowsTodo = []
  | .tmp => c.rowsTodo = []
  | .listing _ => c.rowsTodo = [] ∧ c.bucketsTodo = []
  | .sweeping => c.rowsTodo = [] ∧ c.bucketsTodo = []

structure GcInv (s : RaceState) (c : Gc) : Prop where
  overlap : ∀ d, InFlight s d → d ∈ c.overlap
  scanned : ∀ bk d, RowNames s.rows bk d →
    d ∈ c.referenced ∨ d ∈ c.overlap ∨ bk.1 ∈ c.bucketsTodo ∨ bk ∈ c.rowsTodo
  idle : c.Idle
  doomed : ∀ d ∈ c.candidates, ¬ Needed s d
  popped : ∀ d l, c.popped = some (d,l) → d ∈ c.candidates ∧ s.store.locations.get d = none

structure RaceInv (cfg : RaceConfig) (s : RaceState) : Prop where
  routed : ∀ d l, s.store.locations.get d = some l → holds s.store d l
  settled : ∀ d, Settled s d → ∃ l, s.store.locations.get d = some l
  published : ∀ i p, s.puts.get i = some p → p.stage = .published →
    holds s.store p.digest (chooseLocation cfg p.content.length)
  heldRow : ∀ bk h, s.held.get bk = some h → ∀ d ∈ h.row.digests,
    h.carried = some d ∨ RowNames s.rows bk d
  dirsRows : ∀ bk m, s.rows.get bk = some m → bk.1 ∈ s.bucketDirs
  dirsHeld : ∀ bk h, s.held.get bk = some h → h.staged = true → bk.1 ∈ s.bucketDirs
  gcs : ∀ g c, s.gcs.get g = some c → GcInv s c

variable {d : Digest} {g i : ℕ} {p : Put} {bk : Bucket × Key} {t : RaceState}

theorem needed_of_settled {s : RaceState} (h : Settled s d) : Needed s d := by
  rcases h with h | h | h
  · exact Or.inl h
  · exact Or.inr (Or.inl h)
  · exact Or.inr (Or.inr ⟨.committed,by decide,h⟩)

theorem mem_inFlightDigests {s : RaceState} (d : Digest) (h : InFlight s d) :
    d ∈ inFlightDigests s := by
  simp only [inFlightDigests, mem_append, List.mem_map, mem_filter, mem_filterMap]
  rcases h with ⟨bk,h,hg,hc⟩ | ⟨stage,hs,i,p,hg,hp,hd⟩
  · exact Or.inr ⟨(bk,h),get_eq_some_iff.mp hg,hc⟩
  · exact Or.inl ⟨(i,p),⟨get_eq_some_iff.mp hg,by simpa [hp] using hs⟩,hd⟩

section
variable (puts : Dict ℕ Put) (held : Dict (Bucket × Key) Held) (d : Digest)

variable {puts}

theorem putAt_set {stage : PutStage} (h : PutAt (puts.set i p) stage d) :
    (p.stage = stage ∧ p.digest = d) ∨ PutAt puts stage d := by
  obtain ⟨j,q,hg,hq⟩ := h
  rcases eq_or_get_of_get_set hg with ⟨_,rfl⟩ | ⟨_,hg⟩
  · exact Or.inl hq
  · exact Or.inr ⟨j,q,hg,hq⟩

theorem settled_setPut {s : RaceState} {store : StoreState} {gcs : Dict ℕ Gc}
    (h : Settled { s with store := store, puts := s.puts.set i p, gcs := gcs } d) :
    (p.stage = .committed ∧ p.digest = d) ∨ Settled s d := by
  rcases h with h | h | h
  · exact Or.inr (Or.inl h)
  · exact Or.inr (Or.inr (Or.inl h))
  · exact (putAt_set d h).imp_right (fun h => Or.inr (Or.inr h))

theorem inFlight_setPut {s : RaceState} {store : StoreState} {gcs : Dict ℕ Gc}
    (h : InFlight { s with store := store, puts := s.puts.set i p, gcs := gcs } d) :
    (p.stage ≠ .streamed ∧ p.digest = d) ∨ InFlight s d := by
  rcases h with h | ⟨stage,hs,h⟩
  · exact Or.inr (Or.inl h)
  · rcases putAt_set d h with ⟨rfl,hd⟩ | h
    · exact Or.inl ⟨hs,hd⟩
    · exact Or.inr (Or.inr ⟨stage,hs,h⟩)

theorem putAt_erase {stage : PutStage} (h : PutAt (puts.erase i) stage d) :
    PutAt puts stage d := by
  obtain ⟨j,q,hg,hq⟩ := h
  exact ⟨j,q,get_of_get_erase hg,hq⟩

theorem carried_set {h : Held} (hc : Carried (held.set bk h) d) :
    h.carried = some d ∨ Carried held d := by
  obtain ⟨bk',h',hg,hd⟩ := hc
  rcases eq_or_get_of_get_set hg with ⟨_,rfl⟩ | ⟨_,hg⟩
  · exact Or.inl hd
  · exact Or.inr ⟨bk',h',hg,hd⟩

theorem carried_erase (hc : Carried (held.erase bk) d) : Carried held d := by
  obtain ⟨bk',h',hg,hd⟩ := hc
  exact ⟨bk',h',get_of_get_erase hg,hd⟩

end

theorem rowNames_erase {rows : Dict (Bucket × Key) ObjectMeta} {bk' : Bucket × Key}
    (h : RowNames (rows.erase bk) bk' d) : RowNames rows bk' d := by
  obtain ⟨m,hg,hd⟩ := h
  exact ⟨m,Dict.get_of_get_erase hg,hd⟩

section
variable (s : StoreState) (d : Digest) (l : BlobLocation)

theorem holds_publish {l' : BlobLocation} (h : holds s d l) :
    holds (publish s l' p) d l := by
  by_cases hd : d = p.digest
  · cases l <;> cases l' <;> simp_all [holds, publish, Dict.contains]
  · cases l <;> cases l' <;> simpa [holds, publish, Dict.contains, get_set_ne, hd] using h

theorem holds_publish_self (p : Put) : holds (publish s l p) p.digest l := by
  cases l <;> simp [holds, publish, Dict.contains]

theorem locations_publish (p : Put) : (publish s l p).locations = s.locations := by
  cases l <;> rfl

theorem locations_backendRemove (x : Digest) :
    (backendRemove s l x).locations = s.locations := by
  cases l <;> rfl

theorem holds_backendRemove {l' : BlobLocation} {x : Digest} (hx : d ≠ x) (h : holds s d l) :
    holds (backendRemove s l' x) d l := by
  cases l <;> cases l' <;>
    simpa [holds, backendRemove, Dict.contains, get_erase, get_modify, hx] using h

end

/-- No new digest in flight, and only digests needed before are committed or routed. -/
theorem GcInv.mono {s t : RaceState} {c : Gc} (h : GcInv s c)
    (hf : ∀ d, InFlight t d → InFlight s d)
    (hr : ∀ bk d, RowNames t.rows bk d → RowNames s.rows bk d ∨ InFlight s d)
    (hl : ∀ d, ¬ Needed s d → s.store.locations.get d = none →
      t.store.locations.get d = none) : GcInv t c where
  overlap := fun d hd => h.overlap d (hf d hd)
  scanned := by
    intro bk d hd
    rcases hr bk d hd with hd | hd
    · exact h.scanned bk d hd
    · exact Or.inr (Or.inl (h.overlap d hd))
  idle := h.idle
  doomed := by
    rintro d hd (⟨bk,hn⟩ | hn)
    · rcases hr bk d hn with hn | hn
      · exact h.doomed d hd (Or.inl ⟨bk,hn⟩)
      · exact h.doomed d hd (Or.inr hn)
    · exact h.doomed d hd (Or.inr (hf d hn))
  popped := by
    intro d l hp
    obtain ⟨hc,hn⟩ := h.popped d l hp
    exact ⟨hc,hl d (h.doomed d hc) hn⟩

theorem raceInv_quiescent (cfg : RaceConfig) (s : RaceState) (h : Quiescent s) :
    RaceInv cfg s where
  routed := h.routed
  settled := by
    rintro d (⟨bk,m,hm,hd⟩ | ⟨bk,x,hx,_⟩ | ⟨i,p,hp,_⟩)
    · obtain ⟨l,hl,_⟩ := h.backed bk m hm d hd
      exact ⟨l,hl⟩
    · simp [h.noHeld] at hx
    · simp [h.noPuts] at hp
  published := fun i p hp => by simp [h.noPuts] at hp
  heldRow := fun bk x hx => by simp [h.noHeld] at hx
  dirsRows := h.dirs
  dirsHeld := fun bk x hx => by simp [h.noHeld] at hx
  gcs := fun g c hc => by simp [h.noGcs] at hc

section
variable (cfg : RaceConfig) (s : RaceState) (hI : RaceInv cfg s)
include hI

theorem raceInv_putStart (i : ℕ) (hp : p.stage = .streamed) :
    RaceInv cfg { s with puts := s.puts.set i p } :=
  { hI with
    settled := by
      intro d h
      rcases settled_setPut d h with ⟨hs,_⟩ | h
      · exact absurd (hp.symm.trans hs) (by decide)
      · exact hI.settled d h
    published := forall_get_set hI.published (fun h => absurd (hp.symm.trans h) (by decide))
    gcs := by
      intro g c hc
      refine (hI.gcs g c hc).mono ?_ (fun _ _ h => Or.inl h) (fun _ _ h => h)
      intro d h
      rcases inFlight_setPut d h with ⟨hs,_⟩ | h
      · exact absurd hp hs
      · exact h }

theorem raceInv_putCheck (i : ℕ)
    (hfree : ∀ g c, s.gcs.get g = some c → p.digest ∉ c.candidates) :
    RaceInv cfg (putCheck s i p) := by
  have hf (d : Digest) (h : InFlight (putCheck s i p) d) : d = p.digest ∨ InFlight s d :=
    (inFlight_setPut d h).imp_left (fun hp => hp.2.symm)
  refine { hI with
    settled := ?_
    published := forall_get_set hI.published
      (fun h => absurd h (by simp only; split_ifs <;> decide))
    gcs := ?_ }
  · intro d h
    rcases settled_setPut d h with ⟨hs,hd⟩ | h
    · by_cases hc : s.store.contains p.digest = true
      · exact isSome_iff_exists.mp (hd ▸ hc)
      · simp [hc] at hs
    · exact hI.settled d h
  · intro g c hc
    rw [putCheck, get_mapValues] at hc
    obtain ⟨c,hg,rfl⟩ := map_eq_some_iff.mp hc
    have hi := hI.gcs g c hg
    constructor
    · intro d h
      rcases hf d h with rfl | h
      · exact mem_cons_self
      · exact mem_cons_of_mem _ (hi.overlap d h)
    · intro bk d h
      rcases hi.scanned bk d h with h | h | h
      · exact Or.inl h
      · exact Or.inr (Or.inl (mem_cons_of_mem _ h))
      · exact Or.inr (Or.inr h)
    · exact hi.idle
    · rintro d hd (h | h)
      · exact hi.doomed d hd (Or.inl h)
      · rcases hf d h with rfl | h
        · exact hfree g c hg hd
        · exact hi.doomed d hd (Or.inr h)
    · exact hi.popped

theorem raceInv_publish (hg : s.puts.get i = some p) (hp : p.stage = .missed) :
    RaceInv cfg { s with
      store := publish s.store (chooseLocation cfg p.content.length) p
      puts := s.puts.set i { p with stage := .published } } := by
  refine { hI with
    routed := ?_
    settled := ?_
    published := forall_get_set
      (fun j q hj hq => holds_publish _ _ _ (hI.published j q hj hq))
      (fun _ => holds_publish_self _ _ p)
    gcs := ?_ }
  · intro d l h
    rw [locations_publish] at h
    exact holds_publish _ _ _ (hI.routed d l h)
  · intro d h
    simp only [locations_publish]
    rcases settled_setPut d h with ⟨hs,_⟩ | h
    · cases hs
    · exact hI.settled d h
  · intro g c hc
    refine (hI.gcs g c hc).mono ?_ (fun _ _ h => Or.inl h)
      (fun _ _ h => by rw [locations_publish]; exact h)
    intro d h
    rcases inFlight_setPut d h with ⟨_,hd⟩ | h
    · exact Or.inr ⟨.missed,by decide,i,p,hg,hp,hd⟩
    · exact h

theorem raceInv_record (hg : s.puts.get i = some p)
    (hp : p.stage = .published) :
    RaceInv cfg { s with
      store := { s.store with
        locations := s.store.locations.set p.digest (chooseLocation cfg p.content.length) }
      puts := s.puts.set i { p with stage := .committed } } := by
  have hin : InFlight s p.digest := Or.inr ⟨.published,by decide,i,p,hg,hp,rfl⟩
  refine { hI with
    routed := forall_get_set hI.routed (hI.published i p hg hp)
    settled := ?_
    published := forall_get_set hI.published nofun
    gcs := ?_ }
  · intro d h
    simp only [get_set]
    split_ifs with hd
    · exact ⟨_,rfl⟩
    rcases settled_setPut d h with ⟨_,he⟩ | h
    · exact absurd he.symm hd
    · exact hI.settled d h
  · intro g c hc
    refine (hI.gcs g c hc).mono ?_ (fun _ _ h => Or.inl h) ?_
    · intro d h
      rcases inFlight_setPut d h with ⟨_,hd⟩ | h
      · exact hd ▸ hin
      · exact h
    · intro d hn hl
      have hd : d ≠ p.digest := fun hd => hn (Or.inr (hd ▸ hin))
      rw [get_set_ne hd]
      exact hl

theorem raceInv_dropPut (i : ℕ) : RaceInv cfg { s with puts := s.puts.erase i } :=
  { hI with
    settled := fun d h =>
      hI.settled d (h.imp_right (fun h => h.imp_right (fun h => putAt_erase _ h)))
    published := fun j q h => hI.published j q (get_of_get_erase h)
    gcs := by
      intro g c hc
      refine (hI.gcs g c hc).mono ?_ (fun _ _ h => Or.inl h) (fun _ _ h => h)
      rintro d (h | ⟨stage,hs,h⟩)
      · exact Or.inl h
      · exact Or.inr ⟨stage,hs,putAt_erase _ h⟩ }

theorem raceInv_lock (h : Held)
    (hstaged : h.staged = true → bk.1 ∈ s.bucketDirs)
    (hcarried : ∀ d, h.carried = some d → InFlight s d ∧ Settled s d)
    (hrow : ∀ d ∈ h.row.digests, h.carried = some d ∨ RowNames s.rows bk d) :
    RaceInv cfg { s with held := s.held.set bk h } := by
  refine { hI with
    settled := ?_
    heldRow := forall_get_set hI.heldRow hrow
    dirsHeld := forall_get_set hI.dirsHeld hstaged
    gcs := ?_ }
  · rintro d (hd | hd | hd)
    · exact hI.settled d (Or.inl hd)
    · rcases carried_set _ _ hd with hd | hd
      · exact hI.settled d (hcarried d hd).2
      · exact hI.settled d (Or.inr (Or.inl hd))
    · exact hI.settled d (Or.inr (Or.inr hd))
  · intro g c hc
    refine (hI.gcs g c hc).mono ?_ (fun _ _ h => Or.inl h) (fun _ _ h => h)
    rintro d (hd | hd)
    · rcases carried_set _ _ hd with hd | hd
      · exact (hcarried d hd).1
      · exact Or.inl hd
    · exact Or.inr hd

theorem raceInv_putLock (hg : s.puts.get i = some p)
    (hp : p.stage = .committed) (ht : putLock s i p = some t) :
    RaceInv cfg t := by
  unfold putLock at ht
  split at ht
  · simp at ht
  · simp only at ht
    split at ht
    · exact some.inj ht ▸ raceInv_dropPut cfg s hI i
    · have hat : PutAt s.puts .committed p.digest := ⟨i,p,hg,hp,rfl⟩
      -- The lock is taken first; dropping the PUT then leaves its digest to the holder.
      have hlock := raceInv_lock cfg s hI
        ⟨some p.digest,putRow (s.rows.get (p.bucket,p.key)) p.version s.clock,false⟩
        (by simp)
        (fun d hd => some.inj hd ▸ ⟨Or.inr ⟨.committed,by decide,hat⟩,Or.inr (Or.inr hat)⟩)
        (by
          intro d hd
          rcases (mem_digests_putRow d).mp hd with hd | hd
          · exact Or.inl (congrArg some hd.symm)
          · exact Or.inr hd)
      exact some.inj ht ▸ raceInv_dropPut cfg _ hlock i

theorem raceInv_release (rows : Dict (Bucket × Key) ObjectMeta)
    (hother : ∀ bk', bk' ≠ bk → rows.get bk' = s.rows.get bk')
    (hrow : ∀ d, RowNames rows bk d → RowNames s.rows bk d ∨ Carried s.held d)
    (hdirs : ∀ m, rows.get bk = some m → bk.1 ∈ s.bucketDirs) :
    RaceInv cfg { s with rows := rows, held := s.held.erase bk } := by
  have hn (bk' : Bucket × Key) (d : Digest) (h : RowNames rows bk' d) :
      RowNames s.rows bk' d ∨ Carried s.held d := by
    by_cases hb : bk' = bk
    · subst hb
      exact hrow d h
    · exact Or.inl (by rwa [RowNames, ← hother bk' hb])
  refine ⟨hI.routed,?_,hI.published,?_,?_,?_,?_⟩
  · rintro d (⟨bk',h⟩ | h | h)
    · rcases hn bk' d h with h | h
      · exact hI.settled d (Or.inl ⟨bk',h⟩)
      · exact hI.settled d (Or.inr (Or.inl h))
    · exact hI.settled d (Or.inr (Or.inl (carried_erase _ _ h)))
    · exact hI.settled d (Or.inr (Or.inr h))
  · intro bk' h hg d hd
    have hb : bk' ≠ bk := by
      rintro rfl
      simp [get_erase] at hg
    rcases hI.heldRow bk' h (get_of_get_erase hg) d hd with hd | hd
    · exact Or.inl hd
    · exact Or.inr (by rwa [RowNames, hother bk' hb])
  · intro bk' m hg
    by_cases hb : bk' = bk
    · subst hb
      exact hdirs m hg
    · exact hI.dirsRows bk' m ((hother bk' hb) ▸ hg)
  · exact fun bk' h hg => hI.dirsHeld bk' h (get_of_get_erase hg)
  · intro g c hc
    refine (hI.gcs g c hc).mono ?_ ?_ (fun _ _ h => h)
    · rintro d (h | h)
      · exact Or.inl (carried_erase _ _ h)
      · exact Or.inr h
    · intro bk' d h
      rcases hn bk' d h with h | h
      · exact Or.inl h
      · exact Or.inr (Or.inl h)

theorem raceInv_writeStep (ht : writeStep s bk = some t) :
    RaceInv cfg t := by
  unfold writeStep at ht
  split at ht
  · simp at ht
  · rename_i h hg
    split_ifs at ht with hv hs
    · refine some.inj ht ▸ raceInv_release cfg s hI _ ?_ ?_ ?_
      · exact fun bk' hb => by simp [get_erase, hb]
      · exact fun d hd => Or.inl (rowNames_erase hd)
      · exact fun m hm => hI.dirsRows bk m (get_of_get_erase hm)
    · refine some.inj ht ▸ raceInv_release cfg s hI _ ?_ ?_ ?_
      · exact fun bk' hb => get_set_ne hb
      · rintro d ⟨m,hm,hd⟩
        rw [get_set_self] at hm
        rcases hI.heldRow bk h hg d (some.inj hm ▸ hd) with hd | hd
        · exact Or.inr ⟨bk,h,hg,hd⟩
        · exact Or.inl hd
      · exact fun m _ => hI.dirsHeld bk h hg hs
    · have hdirs : RaceInv cfg { s with bucketDirs := bk.1 :: s.bucketDirs } :=
        { hI with
          dirsRows := fun bk' m hm => mem_cons_of_mem _ (hI.dirsRows bk' m hm)
          dirsHeld := fun bk' x hx hs' => mem_cons_of_mem _ (hI.dirsHeld bk' x hx hs')
          gcs := fun g c hc => { hI.gcs g c hc with } }
      refine some.inj ht ▸ raceInv_lock cfg _ hdirs { h with staged := true }
        (fun _ => mem_cons_self) ?_ (hI.heldRow bk h hg)
      exact fun d hd => ⟨Or.inl ⟨bk,h,hg,hd⟩,Or.inr (Or.inl ⟨bk,h,hg,hd⟩)⟩

theorem raceInv_deleteLatest (hfree : s.held.get bk = none) :
    RaceInv cfg { s with rows := s.rows.erase bk } := by
  have hr := raceInv_release cfg s hI (s.rows.erase bk) (fun bk' hb => by simp [get_erase, hb])
    (fun d hd => Or.inl (rowNames_erase hd))
    (fun m hm => hI.dirsRows bk m (get_of_get_erase hm))
  rwa [erase_eq_self hfree] at hr

theorem raceInv_setGc (g : ℕ) {c : Gc} (hc : GcInv s c) :
    RaceInv cfg { s with gcs := s.gcs.set g c } :=
  { hI with
    gcs := forall_get_set (fun g' c' h => { hI.gcs g' c' h with }) { hc with } }

theorem raceInv_gcStart (g : ℕ) :
    RaceInv cfg { s with
      gcs := s.gcs.set g ⟨.buckets,s.bucketDirs,[],[],[],[],none,inFlightDigests s⟩ } := by
  apply raceInv_setGc cfg s hI g
  refine ⟨mem_inFlightDigests,?_,rfl,by simp,by simp⟩
  rintro bk d ⟨m,hm,_⟩
  exact Or.inr (Or.inr (Or.inl (hI.dirsRows bk m hm)))

theorem raceInv_endGc (g : ℕ) : RaceInv cfg { s with gcs := s.gcs.erase g } :=
  { hI with
    gcs := fun g' c h => { hI.gcs g' c (get_of_get_erase h) with } }

theorem raceInv_unroute (hd : ¬ Needed s d) :
    RaceInv cfg { s with store := { s.store with locations := s.store.locations.erase d } } :=
  { hI with
    routed := fun x l h => hI.routed x l (get_of_get_erase h)
    settled := by
      intro x hx
      have hne : x ≠ d := fun h => hd (h ▸ needed_of_settled hx)
      obtain ⟨l,hl⟩ := hI.settled x hx
      exact ⟨l,by simpa [get_erase, hne] using hl⟩
    gcs := fun g c hc => (hI.gcs g c hc).mono (fun _ h => h) (fun _ _ h => Or.inl h)
      (fun x _ h => by simp [get_erase, h]) }

theorem raceInv_unlink (l : BlobLocation) (hd : ¬ Needed s d)
    (hl : s.store.locations.get d = none) :
    RaceInv cfg { s with store := backendRemove s.store l d } :=
  { hI with
    routed := by
      intro x l' h
      rw [locations_backendRemove] at h
      have hne : x ≠ d := by
        rintro rfl
        rw [hl] at h
        cases h
      exact holds_backendRemove _ _ _ hne (hI.routed x l' h)
    settled := by
      intro x hx
      rw [locations_backendRemove]
      exact hI.settled x hx
    published := by
      intro i p hg hp
      have hne : p.digest ≠ d := fun h =>
        hd (Or.inr (Or.inr ⟨.published,by decide,i,p,hg,hp,h⟩))
      exact holds_backendRemove _ _ _ hne (hI.published i p hg hp)
    gcs := fun g c hc => (hI.gcs g c hc).mono (fun _ h => h) (fun _ _ h => Or.inl h)
      (fun x _ h => by rw [locations_backendRemove]; exact h) }

end

section
variable (s : RaceState) (c : Gc) (hc : GcInv s c)
include hc

theorem gcInv_listRows {b : Bucket} {rest : List Bucket} (hp : c.phase = .buckets)
    (hb : c.bucketsTodo = b :: rest) :
    GcInv s { c with
      phase := .rows b
      bucketsTodo := rest
      rowsTodo := s.rows.keys.filter (fun bk => bk.1 = b) } := by
  refine { hc with
    scanned := ?_
    idle := trivial }
  · intro bk d h
    have hrows : c.rowsTodo = [] := by simpa [Gc.Idle, hp] using hc.idle
    rcases hc.scanned bk d h with h' | h' | h' | h'
    · exact Or.inl h'
    · exact Or.inr (Or.inl h')
    · rcases mem_cons.mp (hb ▸ h') with hbk | hbk
      · obtain ⟨m,hm,_⟩ := h
        have hk : bk ∈ s.rows.keys :=
          List.mem_map_of_mem (f := Prod.fst) (get_eq_some_iff.mp hm)
        exact Or.inr (Or.inr (Or.inr (mem_filter.mpr ⟨hk,by simp [hbk]⟩)))
      · exact Or.inr (Or.inr (Or.inl hbk))
    · simp [hrows] at h'

theorem gcInv_endScan {cutoff : ℤ} (hp : c.phase = .buckets) (hb : c.bucketsTodo = []) :
    GcInv s { c with phase := .listing cutoff } :=
  { hc with idle := ⟨by simpa [Gc.Idle, hp] using hc.idle,hb⟩ }

theorem gcInv_readRow {b : Bucket} {rest : List (Bucket × Key)}
    (hp : c.phase = .rows b) (hr : c.rowsTodo = bk :: rest) :
    GcInv s { c with
      rowsTodo := rest
      referenced := ((s.rows.get bk).map ObjectMeta.digests).getD [] ++ c.referenced } := by
  refine { hc with
    scanned := ?_
    idle := by simp [Gc.Idle, hp] }
  · intro bk' d h
    rcases hc.scanned bk' d h with h' | h' | h' | h'
    · exact Or.inl (mem_append_right _ h')
    · exact Or.inr (Or.inl h')
    · exact Or.inr (Or.inr (Or.inl h'))
    · rcases mem_cons.mp (hr ▸ h') with rfl | hbk
      · obtain ⟨m,hm,hd⟩ := h
        exact Or.inl (mem_append_left _ (by simpa [hm] using hd))
      · exact Or.inr (Or.inr (Or.inr hbk))

theorem gcInv_readTmp {found : List Digest} (rest : List (Bucket × Key)) :
    GcInv s { c with tmpTodo := rest, referenced := found ++ c.referenced } :=
  { hc with
    scanned := by
      intro bk d h
      rcases hc.scanned bk d h with h | h
      · exact Or.inl (mem_append_right _ h)
      · exact Or.inr h
    idle := hc.idle }

theorem gcInv_dropCandidate {rest : List Digest} (hr : ∀ d ∈ rest, d ∈ c.candidates) :
    GcInv s { c with popped := none, candidates := rest } :=
  { hc with
    idle := hc.idle
    doomed := fun d hd => hc.doomed d (hr d hd)
    popped := by simp }

theorem gcInv_addCandidate {cutoff : ℤ} (hp : c.phase = .listing cutoff)
    (ho : d ∉ c.overlap) (hr : d ∉ c.referenced) :
    GcInv s { c with candidates := c.candidates ++ [d] } where
  overlap := hc.overlap
  scanned := hc.scanned
  idle := hc.idle
  doomed := by
    have hidle : c.rowsTodo = [] ∧ c.bucketsTodo = [] := by simpa [Gc.Idle, hp] using hc.idle
    intro x hx
    rcases mem_append.mp hx with hx | hx
    · exact hc.doomed x hx
    · cases mem_singleton.mp hx
      rintro (⟨bk,h⟩ | h)
      · rcases hc.scanned bk d h with h | h | h | h
        · exact hr h
        · exact ho h
        · simp [hidle.2] at h
        · simp [hidle.1] at h
      · exact ho (hc.overlap d h)
  popped := by
    intro x l hx
    obtain ⟨hm,hn⟩ := hc.popped x l hx
    exact ⟨mem_append_left _ hm,hn⟩

end

section
variable (cfg : RaceConfig) (s : RaceState) (hI : RaceInv cfg s)
include hI

/-- The collector moves on: only in its sweep does it touch the store. -/
theorem raceInv_gcAdvance {c : Gc} (hg : s.gcs.get g = some c)
    {c' : Option Gc} (ha : gcAdvance cfg s c = some (t,c')) :
    t.gcs = s.gcs ∧ RaceInv cfg t ∧ ∀ x, c' = some x → GcInv t x := by
  have hc := hI.gcs g c hg
  -- most steps move the collection alone
  have hself (x : Gc) (h : some (s,some x) = some (t,c')) (hx : GcInv s x) :
      t.gcs = s.gcs ∧ RaceInv cfg t ∧ ∀ y, c' = some y → GcInv t y := by
    cases h
    refine ⟨rfl,hI,?_⟩
    rintro y ⟨⟩
    exact hx
  unfold gcAdvance at ha
  split at ha
  · rename_i hp
    split at ha
    · rename_i b rest hb
      exact hself _ ha (gcInv_listRows s c hc hp hb)
    · rename_i hb
      exact hself _ ha (gcInv_endScan s c hc hp hb)
  · rename_i b hp
    split at ha
    · rename_i bk rest hr
      exact hself _ ha (gcInv_readRow s c hc hp hr)
    · rename_i hr
      exact hself _ ha { hc with idle := hr }
  · rename_i hp
    split at ha
    · rename_i bk rest hr
      exact hself _ ha (gcInv_readTmp s c hc rest)
    · exact hself _ ha { hc with idle := by simpa [Gc.Idle, hp] using hc.idle }
  · rename_i cutoff hp
    exact hself _ ha { hc with idle := by simpa [Gc.Idle, hp] using hc.idle }
  · split at ha
    · -- The unlink of a digest whose route is gone.
      rename_i d l hpop
      cases ha
      obtain ⟨hd,hl⟩ := hc.popped d l hpop
      have ht := raceInv_unlink cfg s hI l (hc.doomed d hd) hl
      refine ⟨rfl,ht,?_⟩
      rintro x ⟨⟩
      exact gcInv_dropCandidate _ c (ht.gcs g c hg) (fun _ h => mem_of_mem_tail h)
    · rename_i d rest hpop hcand
      split at ha
      · have h := gcInv_dropCandidate s c hc (fun _ h => hcand ▸ mem_cons_of_mem _ h)
        rw [← hpop] at h
        exact hself _ ha h
      · -- The route of the next candidate goes first.
        rename_i l hl
        cases ha
        have hd : d ∈ c.candidates := hcand ▸ mem_cons_self
        have ht := raceInv_unroute cfg s hI (hc.doomed d hd)
        refine ⟨rfl,ht,?_⟩
        rintro x ⟨⟩
        exact { ht.gcs g c hg with
          idle := hc.idle
          popped := by
            rintro d' l' ⟨⟩
            exact ⟨hd,by simp [get_erase]⟩ }
    · cases ha
      exact ⟨rfl,hI,by simp⟩

theorem raceInv_gcStep (ht : gcStep cfg s g = some t) :
    RaceInv cfg t := by
  unfold gcStep at ht
  split at ht
  · simp at ht
  · rename_i c hg
    split at ht
    · simp at ht
    · rename_i u c' ha
      obtain ⟨hgcs,hu,hc⟩ := raceInv_gcAdvance cfg s hI hg ha
      have h := raceInv_setGc cfg u hu g (hc c' rfl)
      rw [hgcs] at h
      exact some.inj ht ▸ h
    · rename_i u ha
      obtain ⟨hgcs,hu,_⟩ := raceInv_gcAdvance cfg s hI hg ha
      have h := raceInv_endGc cfg u hu g
      rw [hgcs] at h
      exact some.inj ht ▸ h

/-- The collector sweeps only what nothing needs. -/
theorem raceInv_gcExamine (hok : guarded s (.gcExamine g d) = true)
    (ht : gcExamine s g d = some t) : RaceInv cfg t := by
  unfold gcExamine at ht
  split at ht
  · simp at ht
  · rename_i c hg
    split at ht
    · rename_i cutoff f hp hf
      split_ifs at ht with hspared
      · exact some.inj ht ▸ hI
      · simp only [not_or] at hspared
        have ho : d ∉ c.overlap := by
          simpa [guarded, hg, hp, hf, hspared] using hok
        exact some.inj ht ▸ raceInv_setGc cfg s hI g
          (gcInv_addCandidate s c (hI.gcs g c hg) hp ho hspared.1)
    · simp at ht

/-- A step of a PUT, unless it finds the blob of a sweep candidate. -/
theorem raceInv_putStep (hok : guarded s (.putStep i) = true)
    (ht : putStep cfg s i = some t) : RaceInv cfg t := by
  unfold putStep at ht
  split at ht
  · simp at ht
  · rename_i p hg
    split at ht
    · rename_i hp
      refine some.inj ht ▸ raceInv_putCheck cfg s hI i ?_
      intro g c hc
      have hall : ∀ e ∈ s.gcs.entries, p.digest ∉ e.2.candidates := by
        simpa [guarded, hg, hp] using hok
      exact hall (g,c) (get_eq_some_iff.mp hc)
    · rename_i hp
      exact some.inj ht ▸ raceInv_publish cfg s hI hg hp
    · rename_i hp
      exact some.inj ht ▸ raceInv_record cfg s hI hg hp
    · rename_i hp
      exact raceInv_putLock cfg s hI hg hp ht

theorem raceInv_deleteVersion {id : VersionId} {m' : ObjectMeta}
    (hm : (s.rows.get bk).bind (fun m => m.removeVersion id) = some m') :
    RaceInv cfg { s with held := s.held.set bk ⟨none,m',false⟩ } := by
  obtain ⟨m,hg,hr⟩ := bind_eq_some_iff.mp hm
  refine raceInv_lock cfg s hI _ (by simp) (by simp) ?_
  intro d hd
  exact Or.inr ⟨m,hg,digests_removeVersion hr hd⟩

/-- Every guarded step of a put, a delete or the collector keeps the invariant. -/
theorem raceInv_step {a : RaceAction} (hok : guarded s a = true)
    (ht : raceStep cfg s a = some t) : RaceInv cfg t := by
  cases a with
  | tick n =>
    exact some.inj ht ▸ { hI with
      gcs := fun g c hc => { hI.gcs g c hc with } }
  | putStart p bucket key digest etag contentType content precondition =>
    simp only [raceStep] at ht
    split_ifs at ht
    exact some.inj ht ▸ raceInv_putStart cfg s hI p rfl
  | putStep p => exact raceInv_putStep cfg s hI hok ht
  | deleteLatest bucket key =>
    simp only [raceStep] at ht
    split_ifs at ht with hfree
    exact some.inj ht ▸ raceInv_deleteLatest cfg s hI (get_of_not_contains hfree)
  | deleteVersion bucket key id =>
    simp only [raceStep] at ht
    split_ifs at ht
    split at ht
    · simp at ht
    · rename_i m' hm
      exact some.inj ht ▸ raceInv_deleteVersion cfg s hI hm
  | writeStep bucket key => exact raceInv_writeStep cfg s hI ht
  | gcStart g =>
    simp only [raceStep] at ht
    split_ifs at ht
    exact some.inj ht ▸ raceInv_gcStart cfg s hI g
  | gcStep g => exact raceInv_gcStep cfg s hI ht
  | gcExamine g d => exact raceInv_gcExamine cfg s hI hok ht

end

/-- In every guarded run the blob of every committed row is in the store, and that of every PUT past
its commit. -/
theorem guarded_gc_keeps_put_blobs (cfg : RaceConfig) (s : RaceState)
    (hs : Reachable Quiescent (raceStep cfg) (fun s a => guarded s a = true) s) :
    RowsBacked s ∧ ∀ d, Settled s d → Present s.store d := by
  have hI := reachable_invariant (RaceInv cfg) (raceInv_quiescent cfg)
    (fun s t a hs ha ht => raceInv_step cfg s hs ha ht) s hs
  have hpresent (d : Digest) (hd : Settled s d) : Present s.store d := by
    obtain ⟨l,hl⟩ := hI.settled d hd
    exact ⟨l,hl,hI.routed d l hl⟩
  exact ⟨fun bk m hm d hd => hpresent d (Or.inl ⟨bk,m,hm,hd⟩),hpresent⟩

def emptyRace : RaceState :=
  ⟨0,⟨Dict.empty,Dict.empty,Dict.empty,[],Dict.empty⟩,[],Dict.empty,Dict.empty,
    Dict.empty,Dict.empty⟩

theorem quiescent_emptyRace : Quiescent emptyRace where
  noPuts := rfl
  noHeld := rfl
  noGcs := rfl
  routed := by simp [emptyRace]
  backed := by simp [RowsBacked, emptyRace]
  dirs := by simp [emptyRace]

def defaultRace : RaceConfig := ⟨false,0,60000000⟩

def startAbc (i : ℕ) (key : Key) : RaceAction :=
  .putStart i photosBucket key abcDigest "900150983cd24fb0d6963f7d28e17f72".toList
    "text/plain".toList [97, 98, 99] .none

def stagedRun : List RaceAction :=
  [startAbc 0 keyA, .putStep 0, .putStep 0, .putStep 0, .tick 100000000, .putStep 0,
    .writeStep photosBucket keyA,
    .gcStart 0, .gcStep 0, .gcStep 0, .gcStep 0, .gcStep 0, .gcStep 0,
    .gcExamine 0 abcDigest, .writeStep photosBucket keyA, .gcStep 0, .gcStep 0]

theorem guarded_gc_keeps_staged_abc :
    ∃ s, (Reachable Quiescent (raceStep defaultRace) (fun s a => guarded s a = true) s ∧
        (s.rows.contains (photosBucket,keyA) && s.gcs.isEmpty) = true) ∧
      RowsBacked s ∧ ∀ d, Settled s d → Present s.store d := by
  refine Exists.imp (fun s hs => ⟨hs,guarded_gc_keeps_put_blobs defaultRace s hs.1⟩) ?_
  exact reachable_of_checkedRun _ _ _ stagedRun emptyRace quiescent_emptyRace
    (by decide +kernel)

/-- A day after `abc` was deleted a PUT finds its old blob; its row is committed after the bucket
was read. -/
def dedupRun : List RaceAction :=
  [startAbc 0 keyA, .putStep 0, .putStep 0, .putStep 0, .putStep 0,
    .writeStep photosBucket keyA, .writeStep photosBucket keyA,
    .deleteLatest photosBucket keyA, .tick 86400000000,
    startAbc 1 keyB, .putStep 1,
    .gcStart 0, .gcStep 0, .gcStep 0, .gcStep 0, .gcStep 0,
    .putStep 1, .writeStep photosBucket keyB, .writeStep photosBucket keyB,
    .gcExamine 0 abcDigest, .gcStep 0, .gcStep 0, .gcStep 0]

theorem gc_sweeps_deduplicated_put :
    ∃ s, Reachable Quiescent (raceStep defaultRace) anyStep s ∧ ¬ RowsBacked s := by
  obtain ⟨t,ht,⟨m,hm,hd⟩,hl⟩ := reachable_of_run Quiescent (raceStep defaultRace)
    (P := fun s => (∃ m, s.rows.get (photosBucket,keyB) = some m ∧ m.digests = [abcDigest]) ∧
      s.store.locations.get abcDigest = none)
    dedupRun emptyRace quiescent_emptyRace (by decide +kernel)
  refine ⟨t,ht,fun hb => ?_⟩
  obtain ⟨l,hloc,_⟩ := hb _ m hm abcDigest (by simp [hd])
  cases hl.symm.trans hloc

end BackendGauntlet.ObjectStore
