import BackendGauntlet.ObjectStoreExpiryRace
import BackendGauntlet.ObjectStoreRowHistory

/-! Noncurrent expiry among client writes. -/
namespace BackendGauntlet.ObjectStore

open PyText List

def ExpiryState.nextReap (s : ExpiryState) : Option (Bucket × Key × VersionId) :=
  match s.sweep with
  | some ⟨_,.deleting b (p :: _) _⟩ => p.ref.map (fun id => (b,p.key,id))
  | _ => none

/-- The next deletion, if it is of a superseded version, leaves the current one of its row. -/
def ReapsSuperseded (s : ExpiryState) : Prop :=
  ∀ b k id m, s.nextReap = some (b,k,id) → rowOf s.index b k = some m →
    m.latest ≠ id ∧ ∀ row, indexDelete (some m) (some id) = .ok row → row ≠ none

def ExpiryState.reaps (s : ExpiryState) (bucket : Bucket) (key : Key) : Bool :=
  s.sweep.any (fun w => w.pending.any (fun p =>
    decide (p.1 = bucket) && decide (p.2.key = key) && p.2.ref.isSome))

/-- Meanwhile no client removes the current version by its id, nor writes the key anew after a
delete. -/
def currentStays (s : ExpiryState) : ExpiryAction → Bool
  | .put bucket key v guard now =>
    (indexPut (rowOf s.index bucket key) v guard now).toOption.isNone ||
      !s.reaps bucket key || (rowOf s.index bucket key).isSome
  | .delete bucket key (some id) =>
    !s.reaps bucket key || (rowOf s.index bucket key).all (fun m => m.latest ≠ id)
  | _ => true

def Orderly (s : ExpiryState) : Prop :=
  (∀ b k m, rowOf s.index b k = some m → m.Ordered) ∧ s.sweep = none

def Superseded (row : Option ObjectMeta) (p : Planned) : Prop :=
  ∀ m id, row = some m → p.ref = some id → m.latest ≠ id ∧ id < m.nextId

structure ReapInv (s : ExpiryState) : Prop where
  ordered : ∀ b k m, rowOf s.index b k = some m → m.Ordered
  superseded : ∀ w, s.sweep = some w → ∀ p ∈ w.pending,
    Superseded (rowOf s.index p.1 p.2.key) p.2

theorem reaps_of_pending {s : ExpiryState} {w : Sweep} (hw : s.sweep = some w)
    {p : Bucket × Planned} (hp : p ∈ w.pending) {id : VersionId} (hid : p.2.ref = some id) :
    s.reaps p.1 p.2.key = true := by
  simp only [ExpiryState.reaps, hw, Option.any_some, List.any_eq_true]
  exact ⟨p,hp,by simp [hid]⟩

variable {row : Option ObjectMeta} {bucket : Bucket} {key : Key} {now : ℤ} {t : ExpiryState}

theorem ordered_indexDelete {row' : Option ObjectMeta} {ref : ObjectRef}
    (h : indexDelete row ref = .ok row') (hrow : ∀ m, row = some m → m.Ordered) {m' : ObjectMeta}
    (hm' : row' = some m') :
    m'.Ordered ∧ ∃ m, row = some m ∧ m'.nextId = m.nextId ∧
      ∀ id, ref = some id → m.latest ≠ id → m'.latest = m.latest := by
  cases ref with
  | none => exact absurd (hm'.symm.trans (Except.ok.inj h).symm) (by simp)
  | some x =>
    obtain ⟨m,m1,hm,hr,hif⟩ := indexDelete_version row row' x h
    obtain ⟨_,hn,hl,_⟩ := removeVersion_eq_some m m1 x hr
    rw [hif] at hm'
    split_ifs at hm' with hne
    cases Option.some.inj hm'
    refine ⟨ObjectMeta.ordered_removeVersion m (hrow m hm) hr hne,m,hm,hn,?_⟩
    intro id hid hlat
    cases hid
    rw [hl, if_neg hlat]

theorem ordered_putRow (v : NewVersion) (now : ℤ)
    (hrow : ∀ m, row = some m → m.Ordered) : (putRow row v now).Ordered := by
  cases row with
  | none => exact ObjectMeta.ordered_newLive v now
  | some m => exact ObjectMeta.ordered_appendLive m (hrow m rfl) v now

theorem superseded_of_read {policy : LifecyclePolicy} {k : Key} {m : ObjectMeta}
    (hm : m.Ordered) {p : Planned} (hp : p ∈ planEntry policy now (k,m)) :
    p.key = k ∧ Superseded (some m) p := by
  unfold planEntry at hp
  cases hd : expireDays policy now (k,m) with
  | some days =>
    simp only [hd, mem_singleton] at hp
    subst hp
    exact ⟨rfl,fun m' id _ hid => absurd hid (by simp)⟩
  | none =>
    simp only [hd] at hp
    cases hn : (matchingRule policy k).bind LifecycleRule.noncurrentExpireAfterDays with
    | none => simp [hn] at hp
    | some days =>
      simp only [hn] at hp
      obtain ⟨id,hid,rfl⟩ := List.mem_map.mp hp
      refine ⟨rfl,?_⟩
      intro m' x hm' hx
      cases Option.some.inj hm'
      cases hx
      unfold staleVersions at hid
      simp only [hn] at hid
      obtain ⟨e,he,hide⟩ := List.mem_map.mp hid
      obtain ⟨hmem,hstale⟩ := mem_filter.mp he
      rw [← hide]
      refine ⟨?_,hm.id_lt m e hmem⟩
      intro hlat
      simp [hlat] at hstale

section
variable {s : ExpiryState} (hI : ReapInv s) {a : ExpiryAction}
  (hok : currentStays s a = true)
include hI hok

/-- Neither a client nor the sweep removes the current version of a row under a deletion. -/
theorem latest_ne_deleted {x id : VersionId} (hcall : Calls s a bucket key (.delete (some x)))
    {w : Sweep} (hw : s.sweep = some w) {p : Bucket × Planned} (hp : p ∈ w.pending)
    (hpb : p.1 = bucket) (hpk : p.2.key = key) (hid : p.2.ref = some id) {m : ObjectMeta}
    (hm : rowOf s.index bucket key = some m) : m.latest ≠ x := by
  generalize hc : KeyCall.delete (some x) = call at hcall
  cases hcall with
  | put => cases hc
  | delete =>
    cases hc
    have hreaps := reaps_of_pending hw hp hid
    rw [hpb, hpk] at hreaps
    simpa [currentStays, hreaps, hm] using hok
  | @sweep _ _ q _ _ hw' =>
    exact (hI.superseded _ hw' (bucket,q) mem_cons_self m x hm (KeyCall.delete.inj hc).symm).1

theorem reap_call {call : KeyCall} (hcall : Calls s a bucket key call) :
    (∀ m, call.rowAfter (rowOf s.index bucket key) = some m → m.Ordered) ∧
      ∀ w, s.sweep = some w → ∀ p ∈ w.pending, p.1 = bucket → p.2.key = key →
        Superseded (call.rowAfter (rowOf s.index bucket key)) p.2 := by
  have hord : ∀ m, rowOf s.index bucket key = some m → m.Ordered := hI.ordered bucket key
  have hpend : ∀ w, s.sweep = some w → ∀ p ∈ w.pending, p.1 = bucket → p.2.key = key →
      Superseded (rowOf s.index bucket key) p.2 := by
    intro w hw p hp hpb hpk
    rw [← hpb, ← hpk]
    exact hI.superseded w hw p hp
  unfold KeyCall.rowAfter
  rcases call.apply_cases (rowOf s.index bucket key) with ⟨e,ha,_⟩ |
      ⟨v,guard,now,rfl,hc,ha,_⟩ | ⟨ref,row,rfl,hd,ha,_⟩
  · rw [ha]
    exact ⟨hord,hpend⟩
  · rw [ha]
    refine ⟨?_,?_⟩
    · intro m hm
      cases hm
      exact ordered_putRow v now hord
    · intro w hw p hp hpb hpk m id hm hid
      cases hm
      cases hcall
      have hput := (indexPut_eq_ok (rowOf s.index bucket key) v guard now _).mpr ⟨hc,rfl⟩
      have hreaps := reaps_of_pending hw hp hid
      rw [hpb, hpk] at hreaps
      simp only [currentStays, hput, Except.toOption, Option.isNone_some, hreaps, Bool.not_true,
        Bool.false_or] at hok
      obtain ⟨m₀,hm₀⟩ := Option.isSome_iff_exists.mp hok
      have hsup := hpend w hw p hp hpb hpk m₀ id hm₀ hid
      rw [hm₀]
      have hlat : (putRow (some m₀) v now).latest = m₀.nextId := (hord m₀ hm₀).freshId_eq m₀
      have hnext : (putRow (some m₀) v now).nextId = m₀.nextId+1 := by
        rw [← hlat]
        rfl
      -- the new version takes the counter, which is past every planned id
      refine ⟨?_,?_⟩
      · rw [hlat]
        exact Int.ne_of_gt hsup.2
      · rw [hnext]
        exact Int.lt_add_one_of_le (Int.le_of_lt hsup.2)
  · rw [ha]
    refine ⟨fun m hm => (ordered_indexDelete hd hord hm).1,?_⟩
    intro w hw p hp hpb hpk m id hm hid
    obtain ⟨_,m₀,hm₀,hn,hl⟩ := ordered_indexDelete hd hord hm
    have hsup := hpend w hw p hp hpb hpk m₀ id hm₀ hid
    cases ref with
    | none =>
      -- a delete of the key leaves no row
      rw [show row = some m from hm] at hd
      exact absurd (Except.ok.inj hd) (by simp)
    | some x =>
      rw [hl x rfl (latest_ne_deleted hI hok hcall hw hp hpb hpk hid hm₀), hn]
      exact hsup

theorem reapInv_step (ht : expiryStep s a = some t) : ReapInv t := by
  have hkeep : Keeps (fun row => ∀ m, row = some m → m.Ordered)
      (fun _ row p => Superseded row p) t := by
    apply keeps_expiryStep ⟨hI.ordered,hI.superseded⟩ ht
    · intro b k call hcall
      exact reap_call hI hok hcall
    · intro now b policy k todo entries rest m _ hw hm p hp
      exact superseded_of_read (hI.ordered b k m hm) hp
  exact ⟨hkeep.1,hkeep.2⟩

end

/-- If clients leave the current version in place meanwhile, no deletion of the sweep removes a
current version or empties a row. -/
theorem noncurrent_expiry_keeps_latest (s : ExpiryState)
    (hs : Transition.Reachable Orderly expiryStep (fun s a => currentStays s a = true) s) :
    ReapsSuperseded s := by
  have hI : ReapInv s := by
    apply Transition.reachable_invariant ReapInv ?_ ?_ s hs
    · intro s h
      refine ⟨h.1,?_⟩
      intro w hw
      rw [h.2] at hw
      cases hw
    · intro s t a hI hok ht
      exact reapInv_step hI hok ht
  intro b k id m hnext hm
  unfold ExpiryState.nextReap at hnext
  split at hnext
  · rename_i now b' p plan rest hw
    obtain ⟨x,hx,heq⟩ := Option.map_eq_some_iff.mp hnext
    cases heq
    have hsup := hI.superseded _ hw (b,p) mem_cons_self m id hm hx
    refine ⟨hsup.1,?_⟩
    intro row hrow hnone
    obtain ⟨m₀,m',hm₀,hr,hif⟩ := indexDelete_version (some m) row id hrow
    cases hm₀
    obtain ⟨e,he,hid⟩ := (hI.ordered b p.key m hm).latest_mem
    have hkept : e ∈ m'.versions := by
      rw [(removeVersion_eq_some m m' id hr).1]
      exact mem_filter.mpr ⟨he,by simpa [hid] using hsup.1⟩
    rw [hif, if_neg (ne_nil_of_mem hkept)] at hnone
    cases hnone
  · cases hnext

def reapedPhotos : ExpiryState :=
  ⟨Dict.empty.set photosBucket ⟨[⟨true,none,none,none,some 1,none⟩],Dict.empty⟩,none,[]⟩

theorem orderly_reapedPhotos : Orderly reapedPhotos := by
  refine ⟨?_,rfl⟩
  intro b k m hm
  simp only [rowOf, reapedPhotos, Dict.get_set, Dict.get_empty] at hm
  split_ifs at hm <;> simp at hm

def deleteBehindSweep : List ExpiryAction :=
  [.put photosBucket keyA abcVersion .none 0, .put photosBucket keyA xyzVersion .none 0,
    .sweepStart 172800000000, .sweepStep, .sweepStep, .sweepStep,
    .delete photosBucket keyA (some 2)]

/-- The sweep deletes the version that the client has left, and with it the row. -/
theorem noncurrent_expiry_deletes_latest :
    ∃ s, Transition.Reachable Orderly expiryStep Transition.anyStep s ∧
      (decide (s.nextReap = some (photosBucket,keyA,1)) &&
        (rowOf s.index photosBucket keyA).any (fun m => decide (m.latest = 1) &&
          decide (indexDelete (some m) (some 1) = .ok none)) &&
        (expiryStep s .sweepStep).any (fun t => (rowOf t.index photosBucket keyA).isNone)) =
          true :=
  Transition.reachable_of_run _ _ deleteBehindSweep reapedPhotos orderly_reapedPhotos
    (by decide +kernel)

/-- The same sweep with a put in the place of the delete, and a delete of the whole key. -/
theorem noncurrent_expiry_beside_put :
    ∃ s, Transition.Reachable Orderly expiryStep (fun s a => currentStays s a = true) s ∧
      (decide (s.nextReap = some (photosBucket,keyA,1)) &&
        decide ((rowOf s.index photosBucket keyA).map ObjectMeta.latest = some 3)) = true ∧
      ReapsSuperseded s := by
  refine Exists.imp (fun s (h : _ ∧ _) => ⟨h.1,h.2,noncurrent_expiry_keeps_latest s h.1⟩) ?_
  exact Transition.reachable_of_checkedRun _ _ _
    [.put photosBucket keyA abcVersion .none 0, .put photosBucket keyA xyzVersion .none 0,
      .sweepStart 172800000000, .sweepStep, .sweepStep, .sweepStep,
      .put photosBucket keyA xyzVersion .none 172800000000, .delete photosBucket keyB none]
    reapedPhotos orderly_reapedPhotos (by decide +kernel)

end BackendGauntlet.ObjectStore
