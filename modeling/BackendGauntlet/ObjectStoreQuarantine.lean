import BackendGauntlet.ObjectStoreReadBack

/-! Quarantine: what a scrub condemns, and a blob that is committed again. -/
namespace BackendGauntlet.ObjectStore

open Readers Transition Option Dict

def Store.Held (s : Store) (d : Digest) (payload : Bytes) : Prop :=
  ∃ l, s.locations.get d = some l ∧ s.HeldIn d payload l

theorem route_remove (s : Store) (d : Digest) : (s.remove d).locations.get d = none := by
  have herased : (s.locations.erase d).get d = none := get_erase_self
  unfold Store.remove
  split
  · next hnone => exact hnone
  · exact herased
  · unfold Store.flag
    split
    · exact herased
    · exact herased

/-- The rows that a boot finds: those of the volumes if the index has none. -/
def Store.bootRows (s : Store) : NeedleIndex :=
  if s.index.isEmpty then rebuildFromVolumes s.disk.volumes else s.index

theorem index_boot {s t : Store} {policy : BlobLayoutKind} {size : ℕ}
    (hd : s.disk.durable = .ok s.index)
    (h : Store.boot s.objects s.disk policy size = .ok t) : t.index = s.bootRows := by
  have hnil {κ β : Type} [DecidableEq κ] {m : Dict κ β} (hm : m.isEmpty = true) : m = empty := by
    cases m
    congr 1
    exact List.isEmpty_iff.mp hm
  simp only [Store.boot, bootstrapWith, hd, bind, Except.bind, pure, Except.pure] at h
  unfold Store.bootRows
  cases hi : s.index.isEmpty with
  | false =>
    simp only [hi, Bool.false_and, Bool.false_eq_true, if_false] at h ⊢
    split_ifs at h <;> cases h <;> rfl
  | true =>
    cases hv : s.disk.volumes.isEmpty with
    | false =>
      simp only [hi, hv, Bool.not_false, Bool.and_self, if_true] at h ⊢
      cases h
      rfl
    | true =>
      -- no volume to scan, and no row either way
      simp only [hi, hv, Bool.not_true, Bool.and_false, Bool.false_eq_true, if_false, if_true]
        at h ⊢
      rw [hnil hv]
      split_ifs at h <;> cases h <;> exact hnil hi

theorem route_reopen {hash : Bytes → Digest} {s t : Store} {policy : BlobLayoutKind} {size : ℕ}
    (hR : Recovers s.disk s.index) (h : storeStep hash s (.reopen policy size) = some t)
    (d : Digest) : t.locations.get d = if d ∈ indexedDigests s.bootRows then some .haystack
      else if s.objects.contains d then some .fileCas else none := by
  have hboot := boot_of_reopen hash h
  obtain ⟨_,_,_,hlocations,_⟩ := boot_cases _ _ _ policy size hR hboot
  rw [hlocations, get_rebuildLocations, index_boot hR.durable hboot]

section
variable (hash : Bytes → Digest) (data : Bytes)

/-- A compaction finds no dead row of a blob in FileCas, a scrub no mismatching file of one in the
Haystack, and a boot a row of a blob exactly if it is in the Haystack, or else a file exactly if it
is in FileCas. -/
def steersClear (s : Store) (a : StoreAction) : Bool :=
  untainted hash data a &&
    match a with
    | .compact _ => compactable s (hash data)
    | .scrub => s.locations.get (hash data) ≠ some .haystack || !s.fileMismatch hash (hash data)
    | .reopen _ _ => s.locations.get (hash data) =
        if hash data ∈ indexedDigests s.bootRows then some .haystack
        else if s.objects.contains (hash data) then some .fileCas else none
    | _ => true

def AnyBytes : Digest → Bytes → Prop := fun _ _ => True

theorem goodAction_any (a : StoreAction) : GoodAction hash AnyBytes a := by
  cases a <;> trivial

variable (s t : Store) (a : StoreAction) (hI : StoreInv AnyBytes s)
  (ha : steersClear hash data s a = true) (h : storeStep hash s a = some t)
include hI ha h

theorem held_step (hspares : a.spares (hash data) = true) (hs : s.Held (hash data) data) :
    t.Held (hash data) data := by
  obtain ⟨_,hrest⟩ := Bool.and_eq_true_iff.mp ha
  obtain ⟨l,hl,hp⟩ := hs
  have hgood := goodAction_any hash a
  have hheld := heldIn_step hash AnyBytes s t a hI h _ l hl hspares hgood rfl l hp
  rcases route_step hash AnyBytes s t a hI h _ l hl hspares hgood with
    ⟨hroute,_⟩ | ⟨⟨todo,rfl⟩,r,hr,hdead⟩ | ⟨rfl,hcondemned⟩ | ⟨policy,size,rfl,_⟩
  · exact ⟨l,hroute,hheld⟩
  · rw [not_compactable hr hdead hl hp] at hrest
    cases hrest
  · -- neither copy that the scrub looks at can condemn the digest
    have hfalse : s.condemned hash (hash data) = false := by
      cases l with
      | fileCas =>
        simp only [Store.HeldIn] at hp
        simp [Store.condemned, Store.fileMismatch, hp, hl]
      | haystack =>
        have hn := Store.needleMismatch_packed hash s hp
        simp only [hl, ne_eq, not_true_eq_false, decide_false, Bool.false_or,
          Bool.not_eq_true'] at hrest
        simp [Store.condemned, hrest, hn]
    cases hcondemned.symm.trans hfalse
  · have hroute := of_decide_eq_true hrest
    rw [← route_reopen hI.recovers h] at hroute
    exact ⟨l,hroute.symm.trans hl,hheld⟩

theorem unrouted_step (hs : s.locations.get (hash data) = none) :
    t.locations.get (hash data) = none ∨ t.Held (hash data) data := by
  obtain ⟨huntainted,hrest⟩ := Bool.and_eq_true_iff.mp ha
  cases a with
  | commit other fresh =>
    obtain ⟨_,hkept,hnew⟩ := storeInv_commit s hI h trivial
    by_cases hd : hash data = hash other
    · have hother : other = data := by simpa [untainted, hd] using huntainted
      subst hother
      exact Or.inr (hnew hs)
    · exact Or.inl ((hkept _ hd).route.trans hs)
  | remove x =>
    obtain rfl := some.inj h
    by_cases hx : hash data = x
    · rw [hx]
      exact Or.inl (route_remove s x)
    · exact Or.inl (((storeInv_remove s hI x).2 _ hx).route.trans hs)
  | compact todo =>
    simp only [storeStep] at h
    split_ifs at h
    obtain ⟨_,_,_,hroutes,_⟩ := storeInv_compact AnyBytes s t hI h
    rcases hroutes (hash data) with hsame | ⟨hnone,_⟩
    · exact Or.inl (hsame.trans hs)
    · exact Or.inl hnone
  | checkpoint =>
    obtain rfl := some.inj h
    exact Or.inl hs
  | scrub =>
    obtain rfl := some.inj h
    have hscrubbed := Store.scrubbed_scrubOnce hash s AnyBytes hI
    cases hc : s.condemned hash (hash data) with
    | true => exact Or.inl (hscrubbed.hit _ hc).2
    | false => exact Or.inl ((hscrubbed.missed _ hc).2.trans hs)
  | reopen policy size =>
    have hroute := of_decide_eq_true hrest
    rw [← route_reopen hI.recovers h] at hroute
    exact Or.inl (hroute.symm.trans hs)
  | rotFile x bytes =>
    simp only [storeStep] at h
    split_ifs at h
    obtain rfl := some.inj h
    exact Or.inl hs
  | rotNeedle x l bytes =>
    obtain ⟨volumes,_,rfl⟩ := map_eq_some_iff.mp h
    exact Or.inl hs

/-- From its quarantine on, a route of the digest leads to its bytes. -/
theorem unrouted_or_held_step
    (hs : s.locations.get (hash data) = none ∨ s.Held (hash data) data) :
    t.locations.get (hash data) = none ∨ t.Held (hash data) data := by
  rcases hs with hs | hs
  · exact unrouted_step hash data s t a hI ha h hs
  · by_cases hspares : a.spares (hash data) = true
    · exact Or.inr (held_step hash data s t a hI ha h hspares hs)
    · -- the only action left is a removal
      obtain ⟨huntainted,_⟩ := Bool.and_eq_true_iff.mp ha
      cases a with
      | remove x =>
        cases h
        have hx : x = hash data := by simpa [StoreAction.spares] using hspares
        rw [hx]
        exact Or.inl (route_remove s _)
      | rotFile x bytes | rotNeedle x l bytes => exact absurd huntainted hspares
      | _ => exact absurd rfl hspares

end

variable {s t : Store} {d : Digest} {a : StoreAction} {l : BlobLocation}

theorem openBlob_iff_gate {payload : Bytes} (hs : s.Held d payload)
    (hne : payload ≠ [] ∨ s.locations.get d = some .fileCas) :
    (∃ w, s.openBlob d = .ok w ∧ Drains w payload) ↔ d ∉ s.quarantined := by
  obtain ⟨l,hl,hp⟩ := hs
  constructor
  · rintro ⟨w,hw,_⟩ hq
    rw [Store.openBlob, if_pos hq] at hw
    cases hw
  · intro hq
    obtain ⟨w,hw,hleft⟩ := openBlob_of_heldIn s d l hq hl hp
      (hne.imp_right (fun h => some.inj (hl.symm.trans h)))
    exact ⟨w,hw,drains_left hleft⟩

/-- A quarantined digest whose bytes are committed again is read back wherever its gate is open, and
a restart opens it. -/
theorem recommitted_blob_heals (hash : Bytes → Digest) (data : Bytes) (s₀ s₁ s₂ t u : Store)
    (fresh : VolumeId) (h₀ : Reachable newStore (storeStep hash) anyStep s₀)
    (hbefore : hash data ∉ s₀.quarantined) (hscrub : storeStep hash s₀ .scrub = some s₁)
    (hafter : hash data ∈ s₁.quarantined)
    (h₂ : Reachable (fun x => x = s₁) (storeStep hash)
      (fun s a => steersClear hash data s a = true) s₂)
    (ht : s₂.commitTemp (hash data) data fresh = some t)
    (hu : Reachable (fun x => x = t) (storeStep hash)
      (fun s a => (steersClear hash data s a && a.spares (hash data)) = true) u) :
    ((data ≠ [] ∨ u.locations.get (hash data) = some .fileCas) →
      ((∃ w, u.openBlob (hash data) = .ok w ∧ Drains w data) ↔ hash data ∉ u.quarantined)) ∧
    ∀ policy size, ∃ v, storeStep hash u (.reopen policy size) = some v ∧
      hash data ∉ v.quarantined ∧
      (v.locations.get (hash data) = u.locations.get (hash data) →
        (data ≠ [] ∨ v.locations.get (hash data) = some .fileCas) →
        ∃ w, v.openBlob (hash data) = .ok w ∧ Drains w data) := by
  have hgood (a : StoreAction) := goodAction_any hash a
  have hI₀ := storeInv_reachable hash AnyBytes newStore anyStep (fun s h => storeInv_new _ s h)
    (fun _ a _ => hgood a) h₀
  have hI₁ := storeInv_step hash AnyBytes hI₀ (hgood _) hscrub
  -- the scrub has taken the route away
  have hunrouted : s₁.locations.get (hash data) = none := by
    obtain rfl := some.inj hscrub
    have hscrubbed := Store.scrubbed_scrubOnce hash s₀ AnyBytes hI₀
    cases hc : s₀.condemned hash (hash data) with
    | true => exact (hscrubbed.hit _ hc).2
    | false => exact absurd ((hscrubbed.missed _ hc).1.mp hafter) hbefore
  -- until the commit there is no route, or one to good bytes
  obtain ⟨hI₂,hs₂⟩ := reachable_invariant
    (fun x => StoreInv AnyBytes x ∧ (x.locations.get (hash data) = none ∨ x.Held (hash data) data))
    (fun x hx => by rw [hx]; exact ⟨hI₁,Or.inl hunrouted⟩)
    (fun x y a hx ha hy => ⟨storeInv_step hash AnyBytes hx.1 (hgood a) hy,
      unrouted_or_held_step hash data x y a hx.1 ha hy hx.2⟩) s₂ h₂
  obtain ⟨hIt,_,hnew⟩ := storeInv_commit s₂ hI₂ ht trivial
  have hheld : t.Held (hash data) data := by
    rcases hs₂ with hs₂ | hs₂
    · exact hnew hs₂
    · exact held_step hash data s₂ t (.commit data fresh) hI₂ (by simp [steersClear, untainted]) ht
        rfl hs₂
  obtain ⟨hIu,hheldu⟩ := reachable_invariant
    (fun x => StoreInv AnyBytes x ∧ x.Held (hash data) data)
    (fun x hx => by rw [hx]; exact ⟨hIt,hheld⟩)
    (fun x y a hx ha hy => ⟨storeInv_step hash AnyBytes hx.1 (hgood a) hy,
      held_step hash data x y a hx.1 (Bool.and_eq_true_iff.mp ha).1 hy
        (Bool.and_eq_true_iff.mp ha).2 hx.2⟩) u hu
  refine ⟨openBlob_iff_gate hheldu,?_⟩
  -- a restart forgets the set of condemned digests
  intro policy size
  obtain ⟨v,hv⟩ := boot_ok u.objects u.disk u.index policy size hIu.recovers
  have hstep : storeStep hash u (.reopen policy size) = some v := by
    simp only [storeStep, hv]
    rfl
  obtain ⟨_,hempty,_⟩ := boot_cases u.objects u.disk u.index policy size hIu.recovers hv
  have hgate : hash data ∉ v.quarantined := by
    rw [hempty]
    simp
  refine ⟨v,hstep,hgate,?_⟩
  intro hroute hne
  obtain ⟨l,hl,hp⟩ := hheldu
  have hheldv : v.Held (hash data) data :=
    ⟨l,hroute.trans hl,heldIn_reopen AnyBytes u hIu hv hp⟩
  exact (openBlob_iff_gate hheldv hne).mpr hgate

/-- A file that decayed, was condemned and committed again, after a restart. -/
theorem abc_blob_heals : ∃ s₀ s₁ t v,
    (Reachable newStore (storeStep sampleHash) anyStep s₀ ∧ sampleHash abcBytes ∉ s₀.quarantined ∧
      storeStep sampleHash s₀ .scrub = some s₁ ∧ sampleHash abcBytes ∈ s₁.quarantined ∧
      s₁.commitTemp (sampleHash abcBytes) abcBytes volumeA = some t ∧
      storeStep sampleHash t (.reopen .fileCas 1000) = some v) ∧
    ∃ w, v.openBlob (sampleHash abcBytes) = .ok w ∧ Drains w abcBytes := by
  obtain ⟨s₀,h₀,hbefore,s₁,hscrub,hafter,t,ht,v,hv,hroute⟩ := reachable_of_run newStore
    (storeStep sampleHash)
    (P := fun s₀ => sampleHash abcBytes ∉ s₀.quarantined ∧ ∃ s₁, storeStep sampleHash s₀ .scrub =
      some s₁ ∧ sampleHash abcBytes ∈ s₁.quarantined ∧
      ∃ t, s₁.commitTemp (sampleHash abcBytes) abcBytes volumeA = some t ∧
      ∃ v, storeStep sampleHash t (.reopen .fileCas 1000) = some v ∧
        v.locations.get (sampleHash abcBytes) = t.locations.get (sampleHash abcBytes))
    [.commit abcBytes volumeA, .rotFile abcDigest [0]] (sampleStore .fileCas)
    (newStore_sampleStore) (by decide +kernel)
  obtain ⟨_,hrestart⟩ := recommitted_blob_heals sampleHash abcBytes s₀ s₁ s₁ t t volumeA h₀ hbefore
    hscrub hafter (Reachable.start s₁ rfl) ht (Reachable.start t rfl)
  obtain ⟨v',hv',_,hreads⟩ := hrestart .fileCas 1000
  cases hv.symm.trans hv'
  exact ⟨s₀,s₁,t,v,⟨h₀,hbefore,hscrub,hafter,ht,hv⟩,hreads hroute (Or.inl (by decide))⟩

/-- Committed again in the process that has condemned it, a blob stays refused. -/
theorem recommitted_blob_refused : ∃ s₀ s₁ t,
    Reachable newStore (storeStep sampleHash) anyStep s₀ ∧ sampleHash abcBytes ∉ s₀.quarantined ∧
      storeStep sampleHash s₀ .scrub = some s₁ ∧ sampleHash abcBytes ∈ s₁.quarantined ∧
      s₁.commitTemp (sampleHash abcBytes) abcBytes volumeA = some t ∧
      t.objects.get (sampleHash abcBytes) = some abcBytes ∧
      t.openBlob (sampleHash abcBytes) = .error (.app .integrityError) := by
  obtain ⟨s₀,h₀,hbefore,s₁,hscrub,hafter,t,ht,hopen⟩ := reachable_of_run newStore
    (storeStep sampleHash)
    (P := fun s₀ => sampleHash abcBytes ∉ s₀.quarantined ∧ ∃ s₁, storeStep sampleHash s₀ .scrub =
      some s₁ ∧ sampleHash abcBytes ∈ s₁.quarantined ∧
      ∃ t, s₁.commitTemp (sampleHash abcBytes) abcBytes volumeA = some t ∧
        t.objects.get (sampleHash abcBytes) = some abcBytes ∧
        t.openBlob (sampleHash abcBytes) = .error (.app .integrityError))
    [.commit abcBytes volumeA, .rotFile abcDigest [0]] (sampleStore .fileCas)
    (newStore_sampleStore) (by decide +kernel)
  exact ⟨s₀,s₁,t,h₀,hbefore,hscrub,hafter,ht,hopen⟩

/-- One process: commits, removals, compactions and checkpoints, with one content for each name. -/
def mutates (hash : Bytes → Digest) (payload : Digest → Bytes) : StoreAction → Bool
  | .commit data _ => payload (hash data) = data
  | .remove _ => true
  | .compact _ => true
  | .checkpoint => true
  | _ => false

def decays (hit : List Digest) : StoreAction → Bool
  | .rotFile d _ => d ∈ hit
  | .rotNeedle d _ _ => d ∈ hit
  | _ => false

structure Placed (payload : Digest → Bytes) (s : Store) : Prop where
  gate : s.quarantined = []
  file : ∀ d bytes, s.objects.get d = some bytes →
    s.locations.get d = some .fileCas ∧ s.chooseLocation (payload d).length = .fileCas
  row : ∀ d r, s.index.get d = some r → s.chooseLocation (payload d).length = .haystack

theorem placed_new (payload : Digest → Bytes) (h : newStore s) : Placed payload s := by
  obtain ⟨policy,size,hb⟩ := h
  have hempty : Recovers ⟨none,[],empty⟩ empty := ⟨⟨[],rfl⟩,rfl⟩
  obtain ⟨hobjects,hquarantined,_,_,_,hcases⟩ :=
    boot_cases empty _ empty policy size hempty hb
  refine ⟨hquarantined,?_,?_⟩
  · intro d bytes hd
    rw [hobjects] at hd
    cases hd
  · intro d r hr
    rcases hcases with ⟨_,hindex,_⟩ | ⟨hindex,_⟩
    · rw [hindex] at hr
      obtain ⟨_,v,file,hv,_⟩ := get_rebuild_eq_some hr
      cases hv
    · rw [hindex] at hr
      cases hr

section
variable (hash : Bytes → Digest) (payload : Digest → Bytes) (good : Digest → Bytes → Prop)
  (s t : Store) (hI : StoreInv good s) (hP : Placed payload s)
include hP

theorem placed_commit {data : Bytes} {fresh : VolumeId} (hname : payload (hash data) = data)
    (h : s.commitTemp (hash data) data fresh = some t) : Placed payload t := by
  have hroute (l : BlobLocation) (x : Digest) (hx : x ≠ hash data) :
      (s.locations.set (hash data) l).get x = s.locations.get x := get_set_ne hx
  rcases commitTemp_cases s h with
    ⟨_,rfl⟩ | ⟨hnone,⟨hplace,rfl⟩ | ⟨hplace,volumes,l,_,rfl⟩⟩
  · exact hP
  · refine ⟨hP.gate,?_,hP.row⟩
    apply forall_get_set_ne
    · intro x bytes hx hfile
      obtain ⟨hl,hchoose⟩ := hP.file x bytes hfile
      exact ⟨(hroute _ x hx).trans hl,hchoose⟩
    · exact ⟨get_set_self,by rw [hname]; exact hplace⟩
  · refine ⟨hP.gate,?_,?_⟩
    · intro x bytes hfile
      obtain ⟨hl,hchoose⟩ := hP.file x bytes hfile
      have hx : x ≠ hash data := by
        rintro rfl
        cases hl.symm.trans hnone
      exact ⟨(hroute _ x hx).trans hl,hchoose⟩
    · apply forall_get_set
      · exact hP.row
      · rw [hname]
        exact hplace

include hI

theorem placed_remove (d : Digest) : Placed payload (s.remove d) := by
  have hroute (x : Digest) (hx : x ≠ d) : (s.locations.erase d).get x = s.locations.get x := by
    rw [get_erase_ne hx]
  unfold Store.remove
  cases hd : s.locations.get d with
  | none => exact hP
  | some loc =>
    cases loc with
    | fileCas =>
      refine ⟨hP.gate,?_,hP.row⟩
      intro x bytes hfile
      simp only at hfile ⊢
      rw [get_erase] at hfile
      split_ifs at hfile with hx
      obtain ⟨hl,hchoose⟩ := hP.file x bytes hfile
      exact ⟨(hroute x hx).trans hl,hchoose⟩
    | haystack =>
      obtain ⟨disk,index,heq,_,_,hrows⟩ :=
        flag_removeOp { s with locations := s.locations.erase d } d hI.recovers
      simp only at heq ⊢
      rw [heq]
      refine ⟨hP.gate,?_,?_⟩
      · intro x bytes hfile
        obtain ⟨hl,hchoose⟩ := hP.file x bytes hfile
        have hx : x ≠ d := by
          rintro rfl
          cases hl.symm.trans hd
        exact ⟨(hroute x hx).trans hl,hchoose⟩
      · intro x r hr
        rw [hrows x] at hr
        split_ifs at hr
        · obtain ⟨r',hr',_⟩ := map_eq_some_iff.mp hr
          exact hP.row x r' hr'
        · exact hP.row x r hr

theorem placed_compact {todo : List (VolumeId × VolumeId)} (h : s.compactHaystack todo = some t) :
    Placed payload t := by
  obtain ⟨_,⟨disk,index,active,locations,rfl⟩,_,hroutes,hrows⟩ :=
    storeInv_compact good s t hI h
  refine ⟨hP.gate,?_,?_⟩
  · intro x bytes hfile
    obtain ⟨hl,hchoose⟩ := hP.file x bytes hfile
    rcases hroutes x with hsame | ⟨_,r,hr,_⟩
    · exact ⟨hsame.trans hl,hchoose⟩
    · -- a digest with a file never had a row
      exact absurd ((hP.row x r hr).symm.trans hchoose) (by simp)
  · intro x r hr
    obtain ⟨r',hr',_⟩ := hrows x r hr
    exact hP.row x r' hr'

theorem placed_mutates (ha : mutates hash payload a = true)
    (h : storeStep hash s a = some t) : Placed payload t := by
  cases a with
  | commit data fresh =>
    exact placed_commit hash payload s t hP (of_decide_eq_true ha) h
  | remove d =>
    cases h
    exact placed_remove payload good s hI hP d
  | compact todo =>
    simp only [storeStep] at h
    split_ifs at h
    exact placed_compact payload good s t hI hP h
  | checkpoint =>
    cases h
    exact ⟨hP.gate,hP.file,hP.row⟩
  | _ => cases ha

omit hI

theorem placed_decays {hit : List Digest} (ha : decays hit a = true)
    (h : storeStep hash s a = some t) : Placed payload t ∧ t.locations = s.locations := by
  cases a with
  | rotFile d bytes =>
    simp only [storeStep] at h
    split_ifs at h with hfile
    cases h
    obtain ⟨old,hold⟩ := (Dict.contains_iff).mp hfile
    refine ⟨⟨hP.gate,?_,hP.row⟩,rfl⟩
    apply forall_get_set
    · exact hP.file
    · exact hP.file d old hold
  | rotNeedle d l bytes =>
    obtain ⟨volumes,_,rfl⟩ := map_eq_some_iff.mp h
    exact ⟨⟨hP.gate,hP.file,hP.row⟩,rfl⟩
  | _ => cases ha

end

def UnlessHit (payload : Digest → Bytes) (hit : List Digest) (d : Digest) (bytes : Bytes) : Prop :=
  d ∉ hit → bytes = payload d

section
variable (hash : Bytes → Digest) (payload : Digest → Bytes) (hit : List Digest)

theorem goodAction_mutates (h : mutates hash payload a = true) :
    GoodAction hash (UnlessHit payload hit) a := by
  cases a with
  | commit data fresh => exact fun _ => (of_decide_eq_true h).symm
  | rotFile d bytes => cases h
  | rotNeedle d l bytes => cases h
  | _ => trivial

theorem goodAction_decays (h : decays hit a = true) :
    GoodAction hash (UnlessHit payload hit) a := by
  cases a with
  | commit data fresh => cases h
  | rotFile d bytes | rotNeedle d l bytes => exact fun hd => absurd (of_decide_eq_true h) hd
  | _ => trivial

/-- With every digest in its place, a scrub condemns exactly those whose bytes have another hash. -/
theorem condemned_placed (hP : Placed payload s)
    (hl : s.locations.get d = some l) {stored : Bytes} (hp : s.HeldIn d stored l) :
    s.condemned hash d = decide (hash stored ≠ d) := by
  cases l with
  | fileCas =>
    simp only [Store.HeldIn] at hp
    simp [Store.condemned, Store.fileMismatch, hp, hP.gate, hl]
  | haystack =>
    have hn := Store.needleMismatch_packed hash s hp
    have hf : s.fileMismatch hash d = false := by
      unfold Store.fileMismatch
      split
      · rfl
      · next bytes hbytes => exact absurd ((hP.file d bytes hbytes).1.symm.trans hl) (by simp)
    simp [Store.condemned, hf, hn, hl]

end

theorem routed_mutates (hash : Bytes → Digest) (payload : Digest → Bytes)
    (good : Digest → Bytes → Prop) (hI : StoreInv good s) (hP : Placed payload s)
    (hgood : GoodAction hash good a) (ha : mutates hash payload a = true)
    (h : storeStep hash s a = some t) (hspares : a.spares d = true)
    (hl : s.locations.get d = some l) : t.locations.get d = some l := by
  rcases route_step hash good s t a hI h d l hl hspares hgood with
    ⟨hroute,_⟩ | ⟨⟨todo,rfl⟩,r,hr,hdead⟩ | ⟨rfl,_⟩ | ⟨policy,size,rfl,_⟩
  · exact hroute
  · obtain ⟨stored,hp⟩ := hI.located d l hl
    cases l with
    | fileCas =>
      -- the size of the bytes decides the backend, so a digest with a file has no row
      exact absurd ((hP.row d r hr).symm.trans (hP.file d stored hp).2) (by simp)
    | haystack =>
      have hlive := live_of_packed hp hr
      cases hlive.symm.trans hdead
  · cases ha
  · cases ha

section
variable (hash : Bytes → Digest) (payload : Digest → Bytes) (hit : List Digest)

def InPlace (s : Store) : Prop := StoreInv (UnlessHit payload hit) s ∧ Placed payload s

theorem inPlace_step (a : StoreAction) (hs : InPlace payload hit s)
    (ha : mutates hash payload a = true) (h : storeStep hash s a = some t) :
    InPlace payload hit t :=
  ⟨storeInv_step hash _ hs.1 (goodAction_mutates hash payload hit ha) h,
    placed_mutates hash payload _ s t hs.1 hs.2 ha h⟩

/-- Decay of stored bytes, then one scrub: what becomes of a digest with a route. -/
theorem scrub_after_decay {u : Store} (hs : InPlace payload hit s)
    (hu : Reachable (fun x => x = s) (storeStep hash) (fun _ a => decays hit a = true) u)
    (ht : storeStep hash u .scrub = some t)
    (hl : s.locations.get d = some l) :
    ∃ stored, u.HeldIn d stored l ∧ (d ∉ hit → stored = payload d) ∧
      (hash stored ≠ d → t.openBlob d = .error (.app .integrityError)) ∧
      (hash stored = d → stored ≠ [] ∨ l = .fileCas →
        ∃ w, t.openBlob d = .ok w ∧ Drains w stored) := by
  -- decay leaves the routes, and what it leaves of the bytes is the stored content
  obtain ⟨hIu,hPu,hroutes⟩ := reachable_invariant
    (fun x => StoreInv (UnlessHit payload hit) x ∧ Placed payload x ∧ x.locations = s.locations)
    (fun x hx => by rw [hx]; exact ⟨hs.1,hs.2,rfl⟩)
    (fun x y a hx ha hy => by
      obtain ⟨hPy,hsame⟩ := placed_decays hash payload x y hx.2.1 ha hy
      exact ⟨storeInv_step hash _ hx.1 (goodAction_decays hash payload hit ha) hy,hPy,
        hsame.trans hx.2.2⟩) u hu
  rw [← hroutes] at hl
  obtain ⟨stored,hp⟩ := hIu.located d l hl
  obtain rfl := some.inj ht
  have hscrubbed := Store.scrubbed_scrubOnce hash u _ hIu
  have hcondemned := condemned_placed hash payload hPu hl hp
  refine ⟨stored,hp,heldIn_good _ hIu hp,?_,?_⟩
  · intro hne
    rw [decide_eq_true hne] at hcondemned
    rw [Store.openBlob, if_pos (hscrubbed.hit d hcondemned).1]
  · intro heq hnonempty
    rw [decide_eq_false (fun hne => hne heq)] at hcondemned
    obtain ⟨hgate,hroute⟩ := hscrubbed.missed d hcondemned
    rw [hPu.gate] at hgate
    have hopen : d ∉ (u.scrubOnce hash).1.quarantined := by
      rw [hgate]
      simp
    obtain ⟨w,hw,hleft⟩ := openBlob_of_heldIn _ d l hopen (hroute.trans hl)
      (Store.heldIn_scrub hash u hscrubbed hp heq) hnonempty
    exact ⟨w,hw,drains_left hleft⟩

end

/-- After any decay of what is stored, one scrub refuses a committed digest exactly when its stored
bytes no longer have that name. -/
theorem scrub_refuses_exactly_rot (hash : Bytes → Digest) (payload : Digest → Bytes)
    (hit : List Digest) (data : Bytes) (fresh : VolumeId) (s₀ s₁ s u t : Store)
    (h₀ : Reachable newStore (storeStep hash) (fun _ a => mutates hash payload a = true) s₀)
    (hname : payload (hash data) = data) (h₁ : s₀.commitTemp (hash data) data fresh = some s₁)
    (hs : Reachable (fun x => x = s₁) (storeStep hash)
      (fun _ a => (mutates hash payload a && a.spares (hash data)) = true) s)
    (hu : Reachable (fun x => x = s) (storeStep hash) (fun _ a => decays hit a = true) u)
    (ht : storeStep hash u .scrub = some t) :
    ∃ l stored, s.locations.get (hash data) = some l ∧ u.HeldIn (hash data) stored l ∧
      (hash data ∉ hit → stored = data) ∧
      (stored ≠ [] ∨ l = .fileCas →
        ((∃ e, t.openBlob (hash data) = .error e) ↔ hash stored ≠ hash data) ∧
        (hash stored = hash data → ∃ w, t.openBlob (hash data) = .ok w ∧ Drains w stored)) := by
  have hplace₀ : InPlace payload hit s₀ := reachable_invariant
    (InPlace payload hit) (fun x hx => ⟨storeInv_new _ x hx,placed_new payload hx⟩)
    (fun x y a hx ha hy => inPlace_step hash payload hit a hx ha hy) s₀ h₀
  have hplace₁ : InPlace payload hit s₁ := inPlace_step hash payload hit (.commit data fresh)
    hplace₀ (decide_eq_true hname) h₁
  have hrouted₁ : ∃ l, s₁.locations.get (hash data) = some l := by
    rcases commitTemp_cases s₀ h₁ with
      ⟨hl,rfl⟩ | ⟨_,⟨_,rfl⟩ | ⟨_,_,_,_,rfl⟩⟩
    · exact hl
    · exact ⟨.fileCas,get_set_self⟩
    · exact ⟨.haystack,get_set_self⟩
  obtain ⟨hplace,l,hl⟩ := reachable_invariant
    (fun x => InPlace payload hit x ∧ ∃ l, x.locations.get (hash data) = some l)
    (fun x hx => by rw [hx]; exact ⟨hplace₁,hrouted₁⟩)
    (fun x y a hx ha hy => by
      obtain ⟨hm,hspares⟩ := Bool.and_eq_true_iff.mp ha
      obtain ⟨l,hl⟩ := hx.2
      exact ⟨inPlace_step hash payload hit a hx.1 hm hy,l,
        routed_mutates hash payload _ hx.1.1 hx.1.2 (goodAction_mutates hash payload hit hm)
          hm hy hspares hl⟩) s hs
  obtain ⟨stored,hp,hsame,hrefused,hread⟩ :=
    scrub_after_decay hash payload hit hplace hu ht hl
  refine ⟨l,stored,hl,hp,fun hd => (hsame hd).trans hname,?_⟩
  intro hnonempty
  refine ⟨⟨?_,fun hne => ⟨_,hrefused hne⟩⟩,fun heq => hread heq hnonempty⟩
  rintro ⟨e,he⟩ heq
  obtain ⟨w,hw,_⟩ := hread heq hnonempty
  cases he.symm.trans hw

def samplePayload (d : Digest) : Bytes :=
  if d = emptyDigest then [] else if d = abcDigest then abcBytes else [120, 121, 122]

/-- Two needles of one volume, of which the second decays. -/
theorem scrub_spares_abc : ∃ s₀ s₁ s u t,
    (Reachable newStore (storeStep sampleHash)
        (fun _ a => mutates sampleHash samplePayload a = true) s₀ ∧
      s₀.commitTemp (sampleHash abcBytes) abcBytes volumeA = some s₁ ∧
      Reachable (fun x => x = s₁) (storeStep sampleHash)
        (fun _ a =>
          (mutates sampleHash samplePayload a && a.spares (sampleHash abcBytes)) = true) s ∧
      Reachable (fun x => x = s) (storeStep sampleHash) (fun _ a => decays [xyzDigest] a = true) u ∧
      storeStep sampleHash u .scrub = some t ∧
      t.openBlob xyzDigest = .error (.app .integrityError)) ∧
    ∃ w, t.openBlob (sampleHash abcBytes) = .ok w ∧ Drains w abcBytes := by
  have h₀ : Reachable newStore (storeStep sampleHash)
      (fun _ a => mutates sampleHash samplePayload a = true) (sampleStore .hybrid) :=
    Reachable.start _ (newStore_sampleStore)
  have hruns : ((sampleStore .hybrid).commitTemp (sampleHash abcBytes) abcBytes volumeA).any
      (fun s₁ : Store => (checkedRun (storeStep sampleHash)
          (fun _ a => mutates sampleHash samplePayload a && a.spares (sampleHash abcBytes)) s₁
          [.commit [120, 121, 122] volumeA]).any (fun s : Store =>
        (checkedRun (storeStep sampleHash) (fun _ a => decays [xyzDigest] a) s
            [.rotNeedle xyzDigest ⟨volumeA,147,3,by decide⟩ [0, 0, 122],
              .rotNeedle xyzDigest ⟨volumeA,147,3,by decide⟩ abcBytes]).any (fun u : Store =>
          (storeStep sampleHash u .scrub).any (fun t : Store =>
            decide (t.openBlob xyzDigest = .error (.app .integrityError)))))) = true := by
    decide +kernel
  simp only [decide_eq_true_eq, Option.any_eq_true] at hruns
  obtain ⟨s₁,h₁,s,hs,u,hu,t,ht,hxyz⟩ := hruns
  have hs := checkedRun_reachable (fun x => x = s₁) (storeStep sampleHash)
    (fun _ a => mutates sampleHash samplePayload a && a.spares (sampleHash abcBytes)) _ s₁ s
    (Reachable.start s₁ rfl) hs
  have hu := checkedRun_reachable (fun x => x = s) (storeStep sampleHash)
    (fun _ a => decays [xyzDigest] a) _ s u (Reachable.start s rfl) hu
  obtain ⟨l,stored,_,_,hsame,hreads⟩ := scrub_refuses_exactly_rot sampleHash samplePayload
    [xyzDigest] abcBytes volumeA _ s₁ s u t h₀ (by decide) h₁ hs hu ht
  rw [hsame (by decide)] at hreads
  exact ⟨_,s₁,s,u,t,⟨h₀,h₁,hs,hu,ht,hxyz⟩,(hreads (Or.inl (by decide))).2 rfl⟩

/-- A packed empty blob is refused after a scrub that has found nothing wrong with it. -/
theorem scrub_then_empty_refused : ∃ s t,
    Reachable newStore (storeStep sampleHash)
        (fun _ a => mutates sampleHash samplePayload a = true) s ∧
      storeStep sampleHash s .scrub = some t ∧ s.locations.get emptyDigest = some .haystack ∧
      s.HeldIn emptyDigest [] .haystack ∧ sampleHash [] = emptyDigest ∧
      ∃ e, t.openBlob emptyDigest = .error e := by
  obtain ⟨s,hs,hl,hheld,t,ht,hopen⟩ := reachable_of_checkedRun newStore (storeStep sampleHash)
    (fun _ a => mutates sampleHash samplePayload a)
    (P := fun s => s.locations.get emptyDigest = some .haystack ∧
      (∃ r, s.index.get emptyDigest = some r ∧ r.isLive = true ∧
        readRegion s.disk.volumes r.locator = some [] ∧ 0 = r.locator.size) ∧
      ∃ t, storeStep sampleHash s .scrub = some t ∧
        t.openBlob emptyDigest = .error (badRange 0 (-1) "needle_size" 0))
    [.commit [] volumeA] (sampleStore .haystack) (newStore_sampleStore) (by decide +kernel)
  exact ⟨s,t,hs,ht,hl,hheld,by decide,_,hopen⟩

end BackendGauntlet.ObjectStore
