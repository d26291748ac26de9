import BackendGauntlet.ObjectStoreScrub

/-! Reading back what was committed, in every layout. -/
namespace BackendGauntlet.ObjectStore

open Readers Transition Option

def Drains (w : Window ℕ) (content : Bytes) : Prop :=
  ∀ sizes : List ℤ, (reads (Window.reader ℕ) w sizes).1 <+: content ∧
    (content.length ≤ (sizes.filter (fun n => n ≠ 0)).length →
      (reads (Window.reader ℕ) w sizes).1 = content)

theorem drains_left {w : Window ℕ} {content : Bytes} (h : w.left = content) : Drains w content := by
  intro sizes
  rw [← h]
  exact Window.reads_window w sizes

variable {size : ℕ} {s t : Store} {policy : BlobLayoutKind} {payload : Bytes} {d : Digest}
  {a : StoreAction}

theorem slice_slice {content : Bytes} {start length offset : ℕ}
    (hin : start+length ≤ size) :
    slice (slice content offset size) start length = slice content (offset+start) length := by
  simp only [slice, List.drop_take, List.take_take, List.drop_drop]
  rw [Nat.min_eq_left (by omega)]

section
variable (s : Store) (d : Digest) (payload : Bytes)

theorem requireReadable_packed (h : Packed s.disk.volumes s.index d payload) :
    ∃ l file, requireReadable s.index d = .ok l ∧ s.disk.volumes.get l.volumeId = some file ∧
      slice file l.payloadOffset l.size = payload ∧ payload.length = l.size := by
  obtain ⟨r,hr,hlive,hregion,hlen⟩ := h
  obtain ⟨file,hfile,hslice⟩ := map_eq_some_iff.mp hregion
  simp only [NeedleRecord.isLive, Bool.and_eq_true, Bool.not_eq_true'] at hlive
  refine ⟨r.locator,file,?_,hfile,hslice,hlen⟩
  simp [requireReadable, hr, hlive]

variable {payload}

theorem openNeedleRange_packed (h : Packed s.disk.volumes s.index d payload) (start stop : ℕ)
    (hle : start ≤ stop) (hlt : stop < payload.length) :
    ∃ w, s.openNeedleRange d start stop = .ok w ∧
      w.left = slice payload start (stop+1-start) := by
  obtain ⟨l,file,hreadable,hfile,hslice,hlen⟩ := requireReadable_packed s d payload h
  have hrange : ¬ ((stop : ℤ) < start ∨ (l.size : ℤ) ≤ stop) := by omega
  have hcount : ((stop : ℤ)-start+1).toNat = stop+1-start := by omega
  refine ⟨⟨file.drop (l.payloadOffset+start),stop+1-start⟩,?_,?_⟩
  · simp only [Store.openNeedleRange, hreadable, bind, Except.bind, if_neg hrange, hfile, hcount]
  · rw [← hslice, slice_slice (by omega)]
    rfl

theorem openNeedle_packed (h : Packed s.disk.volumes s.index d payload) (hne : payload ≠ []) :
    ∃ w, s.openNeedle d = .ok w ∧ w.left = payload := by
  obtain ⟨l,_,hreadable,_,_,hlen⟩ := requireReadable_packed s d payload h
  have hpos := List.length_pos_iff.mpr hne
  obtain ⟨w,hw,hleft⟩ :=
    openNeedleRange_packed s d h 0 (payload.length-1) (by omega) (by omega)
  refine ⟨w,?_,?_⟩
  · have hstop : ((l.size : ℤ)-1) = ((payload.length-1 : ℕ) : ℤ) := by omega
    simp only [Store.openNeedle, hreadable, bind, Except.bind, hstop]
    exact hw
  · rw [hleft, slice, List.drop_zero, List.take_of_length_le (by omega)]

variable (l : BlobLocation) (hq : d ∉ s.quarantined) (hl : s.locations.get d = some l)
  (hp : s.HeldIn d payload l)
include hq hl hp

theorem openBlob_of_heldIn (hne : payload ≠ [] ∨ l = .fileCas) :
    ∃ w, s.openBlob d = .ok w ∧ w.left = payload := by
  rw [Store.openBlob, if_neg hq, hl]
  cases l with
  | fileCas =>
    simp only [Store.HeldIn] at hp
    exact ⟨⟨payload,payload.length⟩,by rw [hp],List.take_length⟩
  | haystack => exact openNeedle_packed s d hp (hne.resolve_right (by simp))

theorem openBlobRange_of_heldIn {start stop : ℕ} (hle : start ≤ stop)
    (hlt : stop < payload.length) :
    ∃ w, s.openBlobRange d start stop = .ok w ∧
      w.left = slice payload start (stop+1-start) := by
  rw [Store.openBlobRange, if_neg hq, hl]
  cases l with
  | fileCas =>
    simp only [Store.HeldIn] at hp
    have hrange : ¬ ((stop : ℤ) < start ∨ (payload.length : ℤ) ≤ stop) := by omega
    have hcount : ((stop : ℤ)-start+1).toNat = stop+1-start := by omega
    refine ⟨⟨payload.drop start,stop+1-start⟩,?_,rfl⟩
    simp only [hp, if_neg hrange, hcount]
  | haystack => exact openNeedleRange_packed s d hp start stop hle hlt

end

def StoreAction.spares (d : Digest) : StoreAction → Bool
  | .remove x => x ≠ d
  | .rotFile x _ => x ≠ d
  | .rotNeedle x _ _ => x ≠ d
  | _ => true

theorem boot_of_reopen (hash : Bytes → Digest)
    (h : storeStep hash s (.reopen policy size) = some t) :
    Store.boot s.objects s.disk policy size = .ok t := by
  simp only [storeStep] at h
  cases hb : Store.boot s.objects s.disk policy size with
  | error e =>
    rw [hb] at h
    cases h
  | ok u =>
    rw [hb] at h
    rw [some.inj h]

section
variable (hash : Bytes → Digest) (good : Digest → Bytes → Prop) (s t : Store) (a : StoreAction)
  (hI : StoreInv good s) (h : storeStep hash s a = some t) (d : Digest) (l : BlobLocation)
  (hl : s.locations.get d = some l) (hspares : a.spares d = true)
include hI h hl hspares

theorem kept_or (hgood : GoodAction hash good a) :
    Kept s t d ∨ (∃ todo, a = .compact todo) ∨ a = .scrub ∨
      ∃ policy size, a = .reopen policy size := by
  cases a with
  | commit data fresh =>
    refine Or.inl ?_
    by_cases hd : d = hash data
    · rcases commitTemp_cases s h with ⟨_,rfl⟩ | ⟨hnone,_⟩
      · exact ⟨fun _ _ hp => hp,rfl,Iff.rfl⟩
      · rw [← hd, hl] at hnone
        cases hnone
    · exact (storeInv_commit s hI h hgood).2.1 d hd
  | remove x =>
    cases h
    exact Or.inl ((storeInv_remove s hI x).2 d (Ne.symm (of_decide_eq_true hspares)))
  | compact todo => exact Or.inr (Or.inl ⟨todo,rfl⟩)
  | checkpoint =>
    cases h
    exact Or.inl ⟨fun payload l hp => by cases l <;> exact hp,rfl,Iff.rfl⟩
  | scrub => exact Or.inr (Or.inr (Or.inl rfl))
  | reopen policy size => exact Or.inr (Or.inr (Or.inr ⟨policy,size,rfl⟩))
  | rotFile x bytes =>
    simp only [storeStep] at h
    split_ifs at h with hfile
    cases h
    exact Or.inl ((storeInv_rotFile good s hI hgood).2 d (Ne.symm (of_decide_eq_true hspares)))
  | rotNeedle x loc bytes =>
    obtain ⟨volumes,hvol,rfl⟩ := map_eq_some_iff.mp h
    exact Or.inl ((storeInv_rotNeedle good s hI hvol hgood).2 d
      (Ne.symm (of_decide_eq_true hspares)))

/-- A route stays, but for a dropped dead row, a scrub that condemns it, and a restart. -/
theorem route_step (hgood : GoodAction hash good a) :
    t.locations.get d = some l ∧ (d ∈ t.quarantined ↔ d ∈ s.quarantined) ∨
      (∃ todo, a = .compact todo) ∧ (∃ r, s.index.get d = some r ∧ r.isLive = false) ∨
      a = .scrub ∧ s.condemned hash d = true ∨
      ∃ policy size, a = .reopen policy size ∧
        Store.boot s.objects s.disk policy size = .ok t := by
  rcases kept_or hash good s t a hI h d l hl hspares hgood with
    hkept | ⟨todo,rfl⟩ | rfl | ⟨policy,size,rfl⟩
  · exact Or.inl ⟨hkept.route.trans hl,hkept.gate⟩
  · simp only [storeStep] at h
    split_ifs at h
    obtain ⟨_,⟨disk,index,active,locations,rfl⟩,_,hroutes,_⟩ :=
      storeInv_compact good s t hI h
    rcases hroutes d with hsame | ⟨_,hdead⟩
    · exact Or.inl ⟨hsame.trans hl,Iff.rfl⟩
    · exact Or.inr (Or.inl ⟨⟨todo,rfl⟩,hdead⟩)
  · obtain rfl := some.inj h
    cases hc : s.condemned hash d with
    | true => exact Or.inr (Or.inr (Or.inl ⟨rfl,rfl⟩))
    | false =>
      obtain ⟨hgate,hroute⟩ := (Store.scrubbed_scrubOnce hash s good hI).missed d hc
      exact Or.inl ⟨hroute.trans hl,hgate⟩
  · exact Or.inr (Or.inr (Or.inr ⟨policy,size,rfl,boot_of_reopen hash h⟩))

theorem heldIn_step (hgood : GoodAction hash good a) (hhash : hash payload = d)
    (place : BlobLocation) (hp : s.HeldIn d payload place) : t.HeldIn d payload place := by
  rcases kept_or hash good s t a hI h d l hl hspares hgood with
    hkept | ⟨todo,rfl⟩ | rfl | ⟨policy,size,rfl⟩
  · exact hkept.held payload place hp
  · simp only [storeStep] at h
    split_ifs at h
    exact (storeInv_compact good s t hI h).2.2.1 d payload place hp
  · obtain rfl := some.inj h
    exact Store.heldIn_scrub hash s (Store.scrubbed_scrubOnce hash s good hI) hp hhash
  · exact heldIn_reopen good s hI (boot_of_reopen hash h) hp

end

theorem routed_boot (hR : Recovers s.disk s.index)
    (h : Store.boot s.objects s.disk policy size = .ok t)
    {l : BlobLocation} (hp : t.HeldIn d payload l) :
    t.quarantined = [] ∧ ∃ l', t.locations.get d = some l' ∧ (l = .haystack → l' = .haystack) := by
  obtain ⟨hobjects,hquarantined,_,hlocations,_⟩ :=
    boot_cases s.objects s.disk s.index policy size hR h
  refine ⟨hquarantined,?_⟩
  rw [hlocations, get_rebuildLocations]
  cases l with
  | fileCas =>
    have hfile : s.objects.contains d = true := by
      rw [← hobjects]
      exact (Dict.contains_iff).mpr ⟨payload,hp⟩
    rw [if_pos hfile]
    by_cases hd : d ∈ indexedDigests t.index
    · exact ⟨.haystack,if_pos hd,by simp⟩
    · exact ⟨.fileCas,if_neg hd,by simp⟩
  | haystack =>
    obtain ⟨r,hr,hlive,_⟩ := hp
    exact ⟨.haystack,if_pos ((mem_indexedDigests).mpr ⟨r,hr,hlive⟩),fun _ => rfl⟩

theorem condemned_eq_false (hash : Bytes → Digest) (good : Digest → Bytes → Prop)
    (hI : StoreInv good s)
    (hcopies : ∀ payload l, s.HeldIn d payload l → hash payload = d) :
    s.condemned hash d = false := by
  have hf : s.fileMismatch hash d = false := by
    unfold Store.fileMismatch
    split
    · rfl
    · next file hfile => simp [hcopies file .fileCas hfile]
  have hn : s.needleMismatch hash d = false := by
    by_contra hn
    have hn := eq_true_of_ne_false hn
    unfold Store.needleMismatch at hn
    split at hn
    · cases hn
    · next r hr =>
      obtain ⟨payload,hp⟩ := packed_of_live hI.packed hr (Bool.and_eq_true_iff.mp hn).1
      have hmatch := Store.needleMismatch_packed hash s hp
      simp only [Store.needleMismatch, hr, hn, hcopies payload .haystack hp] at hmatch
      simp at hmatch
  rw [Store.condemned, hf, hn]
  rfl

section
variable (hash : Bytes → Digest) (data : Bytes)

/-- No other bytes are committed under the name of these, and their own copies do not decay. -/
def untainted : StoreAction → Bool
  | .commit other _ => hash other ≠ hash data || other = data
  | .rotFile d _ => d ≠ hash data
  | .rotNeedle d _ _ => d ≠ hash data
  | _ => true

/-- A compaction finds no dead row of the digest while its route leads to FileCas. -/
def compactable (s : Store) (d : Digest) : Bool :=
  s.locations.get d ≠ some .fileCas || (s.index.get d).all NeedleRecord.isLive

/-- The bytes are not removed either, and no compaction drops their route. -/
def retains (s : Store) (a : StoreAction) : Bool :=
  untainted hash data a &&
    match a with
    | .remove d => d ≠ hash data
    | .compact _ => compactable s (hash data)
    | _ => true

def CopiesOf (x : Digest) (payload : Bytes) : Prop := x = hash data → payload = data

theorem goodAction_untainted (h : untainted hash data a = true) :
    GoodAction hash (CopiesOf hash data) a := by
  cases a with
  | commit other fresh =>
    intro heq
    simpa [untainted, heq] using h
  | rotFile d bytes | rotNeedle d l bytes =>
    intro heq
    exact absurd heq (of_decide_eq_true h)
  | _ => trivial

theorem spares_retains (h : retains hash data s a = true) :
    a.spares (hash data) = true := by
  obtain ⟨huntainted,hrest⟩ := Bool.and_eq_true_iff.mp h
  cases a with
  | remove d => exact hrest
  | rotFile d bytes => exact huntainted
  | rotNeedle d l bytes => exact huntainted
  | _ => rfl

theorem not_compactable {r : NeedleRecord} (hr : s.index.get d = some r)
    (hdead : r.isLive = false) {l : BlobLocation} (hl : s.locations.get d = some l)
    (hp : s.HeldIn d payload l) : compactable s d = false := by
  cases l with
  | fileCas => simp [compactable, hl, hr, hdead]
  | haystack =>
    have hlive := live_of_packed hp hr
    cases hlive.symm.trans hdead

def ServedOpenly (d : Digest) (s : Store) : Prop :=
  d ∉ s.quarantined ∧ ∃ l, s.locations.get d = some l

theorem servedOpenly_step
    (hI : StoreInv (CopiesOf hash data) s) (hs : ServedOpenly (hash data) s)
    (ha : retains hash data s a = true) (h : storeStep hash s a = some t) :
    ServedOpenly (hash data) t := by
  obtain ⟨huntainted,hrest⟩ := Bool.and_eq_true_iff.mp ha
  obtain ⟨hq,l,hl⟩ := hs
  have hgood := goodAction_untainted hash data huntainted
  have hspares := spares_retains hash data ha
  have hcopies (payload : Bytes) (l : BlobLocation) (hp : s.HeldIn (hash data) payload l) :
      payload = data := heldIn_good _ hI hp rfl
  obtain ⟨payload,hp⟩ := hI.located _ l hl
  obtain rfl := hcopies payload l hp
  rcases route_step hash _ s t a hI h _ l hl hspares hgood with
    ⟨hroute,hgate⟩ | ⟨⟨todo,rfl⟩,r,hr,hdead⟩ | ⟨rfl,hcondemned⟩ | ⟨policy,size,rfl,hboot⟩
  · exact ⟨fun hmem => hq (hgate.mp hmem),l,hroute⟩
  · -- the compaction that drops the route is the one that was ruled out
    rw [not_compactable hr hdead hl hp] at hrest
    cases hrest
  · have hfalse := condemned_eq_false hash _ hI (fun q l hq => by
      rw [hcopies q l hq])
    cases hcondemned.symm.trans hfalse
  · have hheld := heldIn_step hash _ s t _ hI h _ l hl hspares hgood rfl l hp
    obtain ⟨hempty,l',hl',_⟩ := routed_boot hI.recovers hboot hheld
    exact ⟨by rw [hempty]; simp,l',hl'⟩

end

/-- Whatever happens to other blobs, the digest of committed bytes can be opened and every way of
reading gives them. -/
theorem committed_bytes_read_back (hash : Bytes → Digest) (data : Bytes) (s t u : Store)
    (fresh : VolumeId)
    (hs : Reachable newStore (storeStep hash) (fun _ a => untainted hash data a = true) s)
    (hq : hash data ∉ s.quarantined) (ht : s.commitTemp (hash data) data fresh = some t)
    (hu : Reachable (fun x => x = t) (storeStep hash) (fun s a => retains hash data s a = true) u)
    (hne : data ≠ [] ∨ u.locations.get (hash data) = some .fileCas) :
    (∃ w, u.openBlob (hash data) = .ok w ∧ Drains w data) ∧
      ∀ start stop : ℕ, start ≤ stop → stop < data.length →
        ∃ w, u.openBlobRange (hash data) start stop = .ok w ∧
          Drains w (slice data start (stop+1-start)) := by
  have hI := storeInv_reachable hash (CopiesOf hash data) newStore _
    (fun s h => storeInv_new _ s h) (fun _ a ha => goodAction_untainted hash data ha) hs
  have hstep : storeStep hash s (.commit data fresh) = some t := ht
  -- a digest that had a route keeps it, and one that had none gets it
  have hcommitted : StoreInv (CopiesOf hash data) t ∧ ServedOpenly (hash data) t := by
    obtain ⟨hIt,_,hnew⟩ := storeInv_commit s hI ht (fun _ => rfl)
    refine ⟨hIt,?_⟩
    cases hl : s.locations.get (hash data) with
    | none =>
      obtain ⟨l,hlt,_⟩ := hnew hl
      refine ⟨?_,l,hlt⟩
      rcases commitTemp_cases s ht with ⟨_,rfl⟩ | ⟨_,⟨_,rfl⟩ | ⟨_,_,_,_,rfl⟩⟩
      · exact hq
      · exact hq
      · exact hq
    | some l =>
      exact servedOpenly_step hash data hI ⟨hq,l,hl⟩ (by simp [retains, untainted]) hstep
  obtain ⟨hIu,hgate,l,hl⟩ := reachable_invariant
    (fun x => StoreInv (CopiesOf hash data) x ∧ ServedOpenly (hash data) x)
    (fun x hx => by rw [hx]; exact hcommitted)
    (fun x y a hx ha hy =>
      ⟨storeInv_step hash _ hx.1 (goodAction_untainted hash data (Bool.and_eq_true_iff.mp ha).1) hy,
        servedOpenly_step hash data hx.1 hx.2 ha hy⟩) u hu
  -- the copy at the end of the route is of bytes with this name, and there are no others
  obtain ⟨payload,hp⟩ := hIu.located _ l hl
  obtain rfl : payload = data := heldIn_good _ hIu hp rfl
  constructor
  · obtain ⟨w,hw,hleft⟩ := openBlob_of_heldIn u _ l hgate hl hp
      (hne.imp_right (fun h => some.inj (hl.symm.trans h)))
    exact ⟨w,hw,drains_left hleft⟩
  · intro start stop hle hlt
    obtain ⟨w,hw,hleft⟩ := openBlobRange_of_heldIn u _ l hgate hl hp hle hlt
    exact ⟨w,hw,drains_left hleft⟩

def emptyDigest : Digest :=
  ⟨"e3b0c44298fc1c149afbf4c8996fb92427ae41e4649b934ca495991b7852b855".toList,by decide⟩

def abcBytes : Bytes := [97, 98, 99]

def sampleHash (data : Bytes) : Digest :=
  if data = [] then emptyDigest else if data = abcBytes then abcDigest else xyzDigest

def sampleStore (policy : BlobLayoutKind) : Store :=
  ⟨policy,1000,Dict.empty,checkpoint ⟨none,[],Dict.empty⟩ Dict.empty,Dict.empty,none, Dict.empty,[]⟩

theorem newStore_sampleStore : newStore (sampleStore policy) :=
  ⟨policy,1000,rfl⟩

/-- A needle that is moved by a compaction, after the one before it was removed. -/
theorem abc_bytes_read_back : ∃ s t u,
    (Reachable newStore (storeStep sampleHash)
      (fun _ a => untainted sampleHash abcBytes a = true) s ∧
      sampleHash abcBytes ∉ s.quarantined ∧
      s.commitTemp (sampleHash abcBytes) abcBytes volumeA = some t ∧
      Reachable (fun x => x = t) (storeStep sampleHash)
        (fun s a => retains sampleHash abcBytes s a = true) u) ∧
    ∃ w, u.openBlob (sampleHash abcBytes) = .ok w ∧ Drains w abcBytes := by
  obtain ⟨s,hs,hq,t,ht,hrun⟩ := reachable_of_checkedRun newStore (storeStep sampleHash)
    (fun _ a => untainted sampleHash abcBytes a)
    (P := fun s => sampleHash abcBytes ∉ s.quarantined ∧
      ∃ t, s.commitTemp (sampleHash abcBytes) abcBytes volumeA = some t ∧
        (checkedRun (storeStep sampleHash) (retains sampleHash abcBytes) t
          [.remove xyzDigest, .compact [(volumeA,volumeB)], .scrub]).isSome = true)
    [.commit [120, 121, 122] volumeA] (sampleStore .haystack) (newStore_sampleStore)
    (by decide +kernel)
  obtain ⟨u,hu⟩ := isSome_iff_exists.mp hrun
  have hreach := checkedRun_reachable (fun x => x = t) (storeStep sampleHash)
    (retains sampleHash abcBytes) _ t u (Reachable.start t rfl) hu
  exact ⟨s,t,u,⟨hs,hq,ht,hreach⟩,(committed_bytes_read_back sampleHash abcBytes s t u volumeA
    hs hq ht hreach (Or.inl (by decide))).1⟩

def unrotted : StoreAction → Bool
  | .rotFile _ _ => false
  | .rotNeedle _ _ _ => false
  | _ => true

/-- Without rot a restart succeeds, and each blob with a route is served with bytes of its name. -/
theorem restarted_store_serves (hash : Bytes → Digest) (s : Store)
    (hs : Reachable newStore (storeStep hash) (fun _ a => unrotted a = true) s)
    (policy : BlobLayoutKind) (size : ℕ) :
    ∃ t, Store.boot s.objects s.disk policy size = .ok t ∧
      ∀ d, s.locations.contains d = true → d ≠ hash [] →
        ∃ w, t.openBlob d = .ok w ∧ hash w.left = d := by
  have hI := storeInv_reachable hash (fun d data => hash data = d) newStore _ (storeInv_new _)
    (fun _ a ha => by cases a <;> trivial) hs
  obtain ⟨t,ht⟩ := boot_ok s.objects s.disk s.index policy size hI.recovers
  have hT := storeInv_boot _ s.objects s.disk s.index policy size hI.recovers hI.packed hI.files ht
  refine ⟨t,ht,?_⟩
  intro d hd hne
  obtain ⟨l,hl⟩ := Dict.contains_iff.mp hd
  obtain ⟨payload,hp⟩ := hI.located d l hl
  -- the restart may move the route from a file to a live row, which holds bytes of its own
  obtain ⟨hgate,l',hl',_⟩ := routed_boot hI.recovers ht (heldIn_reopen _ s hI ht hp)
  obtain ⟨served,hserved⟩ := hT.located d l' hl'
  have hname : hash served = d := heldIn_good _ hT hserved
  obtain ⟨w,hw,hleft⟩ := openBlob_of_heldIn t d l' (by rw [hgate]; exact List.not_mem_nil) hl'
    hserved (Or.inl (by rintro rfl; exact hne hname.symm))
  exact ⟨w,hw,by rw [hleft, hname]⟩

theorem restarted_store_serves_abc : ∃ s,
    (Reachable newStore (storeStep sampleHash) (fun _ a => unrotted a = true) s ∧
      s.locations.contains abcDigest = true) ∧
    ∃ t w, Store.boot s.objects s.disk .fileCas 0 = .ok t ∧ t.openBlob abcDigest = .ok w := by
  obtain ⟨s,hs,hroute⟩ := reachable_of_checkedRun newStore (storeStep sampleHash)
    (fun _ a => unrotted a) (P := fun s => s.locations.contains abcDigest = true)
    [.commit abcBytes volumeA] (sampleStore .haystack) newStore_sampleStore (by decide +kernel)
  obtain ⟨t,ht,hserved⟩ := restarted_store_serves sampleHash s hs .fileCas 0
  obtain ⟨w,hw,_⟩ := hserved abcDigest hroute (by decide)
  exact ⟨s,⟨hs,hroute⟩,t,w,ht,hw⟩

/-- An empty packed blob, and a file whose dead needle a compaction drops. -/
theorem committed_bytes_refused :
    (∃ s t, newStore s ∧ sampleHash [] ∉ s.quarantined ∧
      s.commitTemp (sampleHash []) [] volumeA = some t ∧
      t.openBlob (sampleHash []) = .error (badRange 0 (-1) "needle_size" 0)) ∧
    ∃ s t u, Reachable newStore (storeStep sampleHash)
        (fun _ a => untainted sampleHash abcBytes a = true) s ∧
      sampleHash abcBytes ∉ s.quarantined ∧
      s.commitTemp (sampleHash abcBytes) abcBytes volumeB = some t ∧
      storeStep sampleHash t (.compact [(volumeA,volumeB)]) = some u ∧
      u.objects.get (sampleHash abcBytes) = some abcBytes ∧
      u.openBlob (sampleHash abcBytes) = .error (.app .noSuchKey) := by
  constructor
  · have hrun : ∃ t, (sampleStore .haystack).commitTemp (sampleHash []) [] volumeA = some t ∧
        t.openBlob (sampleHash []) = .error (badRange 0 (-1) "needle_size" 0) := by
      decide +kernel
    obtain ⟨t,ht,hopen⟩ := hrun
    exact ⟨_,t,newStore_sampleStore,by decide,ht,hopen⟩
  · obtain ⟨s,hs,hq,t,ht,u,hu,hopen⟩ := reachable_of_checkedRun newStore (storeStep sampleHash)
      (fun _ a => untainted sampleHash abcBytes a)
      (P := fun s => sampleHash abcBytes ∉ s.quarantined ∧
        ∃ t, s.commitTemp (sampleHash abcBytes) abcBytes volumeB = some t ∧
        ∃ u, storeStep sampleHash t (.compact [(volumeA,volumeB)]) = some u ∧
          u.objects.get (sampleHash abcBytes) = some abcBytes ∧
          u.openBlob (sampleHash abcBytes) = .error (.app .noSuchKey))
      [.commit abcBytes volumeA, .remove abcDigest, .reopen .fileCas 1000] (sampleStore .haystack)
      (newStore_sampleStore) (by decide +kernel)
    exact ⟨s,t,u,hs,hq,ht,hu,hopen⟩

end BackendGauntlet.ObjectStore
