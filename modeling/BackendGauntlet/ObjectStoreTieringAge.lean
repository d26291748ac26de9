import BackendGauntlet.ObjectStoreSweepCompletion

/-! Whose age decides a migration. -/
namespace BackendGauntlet.ObjectStore

open List Option Dict

def currentOf (ix : Index) (b : Bucket) (k : Key) : Option ResolvedObject :=
  (rowOf ix b k).bind ObjectMeta.latestLive

/-- A rule of so many days selects the blob: it matches a key that is left, and the youngest
referrer among the rows that are left is old enough. -/
def DueBy (st : BucketState) (now days : ℤ) (d : Digest) : Prop :=
  ∃ k m newest, (st.survivors now).get k = some m ∧ digestOf (k,m) = some d ∧
    ageFor st.policy LifecycleRule.tierAfterDays k = some days ∧
    (youngest (st.survivors now)).get d = some newest ∧ olderThanDays newest now days = true

theorem mem_candidates {st : BucketState} {now : ℤ} {d : Digest} :
    d ∈ st.candidates now ↔ ∃ days, DueBy st now days d := by
  simp only [BucketState.candidates, mem_dedup, mem_filterMap, mem_filter, DueBy]
  constructor
  · rintro ⟨e,⟨he,hpast⟩,hd⟩
    simp only [blobSince, hd, bind_some] at hpast
    cases hage : ageFor st.policy LifecycleRule.tierAfterDays e.1 with
    | none => simp [hage] at hpast
    | some days =>
      cases hnewest : (youngest (st.survivors now)).get d with
      | none => simp [hage, hnewest, past] at hpast
      | some newest =>
        rw [hage, hnewest] at hpast
        exact ⟨days,e.1,e.2,newest,get_eq_some_iff.mpr he,hd,hage,rfl,hpast⟩
  · rintro ⟨days,k,m,newest,hm,hd,hage,hnewest,hpast⟩
    refine ⟨(k,m),⟨get_eq_some_iff.mp hm,?_⟩,hd⟩
    simp only [blobSince, hd, bind_some, hnewest, hage]
    exact hpast

/-- A migration changes what the store has of the blob. -/
def Tierable (v : BlobView) : Prop :=
  v.hot.isSome = true ∧ (v.location.isSome = true ∨ v.cold.isNone = true)

theorem tierView_ne_iff (codec : Codec) (v : BlobView) : tierView codec v ≠ v ↔ Tierable v := by
  obtain ⟨hot,needle,location,cold⟩ := v
  cases hot with
  | none => simp [tierView, Tierable]
  | some f =>
    cases location with
    | none => cases cold <;> simp [tierView, Tierable, BlobView.remove]
    | some l => cases l <;> simp [tierView, Tierable, BlobView.remove]

section
variable (now : ℤ) (codec : Codec) (predates : ℤ → ℤ → ℤ → Bool)

/-- When the sweep of a bucket moves a blob because of a rule of so many days, every current version
with the blob, in whatever bucket, is that old. -/
def TieredByYoungest (w : SweepWorld) (bs : List Bucket) : Prop :=
  ∀ pre b post st, bs = pre ++ b :: post → (runOnceAt now codec predates pre w).2 = none →
    let before := (runOnceAt now codec predates pre w).1
    let after := (sweepBucket now codec predates before b).1
    before.index.get b = some st →
    ∀ d days, after.store.view d ≠ before.store.view d → DueBy st now days d →
      ∀ b' k r, currentOf after.index b' k = some r → r.live.digest = d →
        olderThanDays r.lastModified now days = true

/-- A blob that a rule of so many days selects in a bucket, after the buckets before it, is the
current version of a younger object in another bucket. -/
structure YoungerElsewhere (w : SweepWorld) (pre : List Bucket) (b : Bucket) (st : BucketState) :
    Prop where
  runs : ∀ x ∈ pre, ∀ stx, w.index.get x = some stx → stx.completes now w = true
  selects : st.selectionRuns now = true
  shared : ∃ d days, DueBy st now days d ∧ Tierable (w.store.view d) ∧
    (∀ x ∈ pre, ∀ stx, w.index.get x = some stx → d ∉ stx.candidates now) ∧
    ∃ b' st' k m r, b' ≠ b ∧ w.index.get b' = some st' ∧ st'.rows.get k = some m ∧
      m.latestLive = some r ∧ r.live.digest = d ∧ ¬ (b' ∈ pre ∧ st'.expires now (k,m) = true) ∧
        olderThanDays r.lastModified now days = false

variable {now codec predates} {w w' : SweepWorld} {bs : List Bucket}

theorem currentOf_swept (h : Swept now codec predates bs w w') {b : Bucket} {st : BucketState}
    (hst : w.index.get b = some st) (k : Key) :
    currentOf w'.index b k = (st.rows.get k).bind (fun m =>
      if b ∈ reached now w bs ∧ st.expiryRuns = true ∧ st.expires now (k,m) = true then none
      else m.latestLive) := by
  obtain ⟨st',hst',hrows⟩ := h.rows b st hst
  simp only [currentOf, rowOf, hst', bind_some, hrows]
  by_cases hb : b ∈ reached now w bs
  · rw [if_pos hb, Option.bind_assoc]
    congr 1
    funext m
    rw [latestLive_rowAfter]
    simp [hb]
  · simp [hb]

theorem survivor_of_current {st : BucketState} {k : Key} {r : ResolvedObject}
    (h : (st.rows.get k).bind (fun m => if st.expires now (k,m) then none else m.latestLive) =
      some r) : ∃ m, (st.survivors now).get k = some m ∧ m.latestLive = some r := by
  obtain ⟨m,hm,hlive⟩ := bind_eq_some_iff.mp h
  split_ifs at hlive with hexp
  exact ⟨m,by simp [get_survivors, hm, hexp],hlive⟩

/-- A blob that is due is older than the rule's age for every referrer in the bucket. -/
theorem old_of_dueBy {st : BucketState} {days : ℤ} {d : Digest} (hdue : DueBy st now days d)
    {k : Key} {m : ObjectMeta} {r : ResolvedObject} (hm : (st.survivors now).get k = some m)
    (hlive : m.latestLive = some r) (hd : r.live.digest = d) :
    olderThanDays r.lastModified now days = true := by
  obtain ⟨_,_,newest,_,_,_,hnewest,hold⟩ := hdue
  obtain ⟨newest',hnewest',hle⟩ := le_youngest hm hlive
  have hsame : newest = newest' := by
    rw [hd, hnewest] at hnewest'
    exact some.inj hnewest'
  unfold olderThanDays at hold ⊢
  simp only [decide_eq_true_eq] at hold ⊢
  omega

section
variable {b : Bucket} {st : BucketState} {before after : SweepWorld}
  (hbefore : Swept now codec predates bs w before)
  (hafter : Swept now codec predates [b] before after) (hb : b ∉ bs)
  (hst : w.index.get b = some st)
  (hruns : ∀ x ∈ bs, ∃ stx, w.index.get x = some stx ∧ stx.completes now w = true)
include hbefore hafter hb hst hruns

/-- The blobs that the sweep of a bucket changes, after the buckets before it. -/
theorem moved_iff (d : Digest) :
    after.store.view d ≠ before.store.view d ↔ st.selectionRuns now = true ∧
      d ∈ st.candidates now ∧ Tierable (w.store.view d) ∧
        ∀ x ∈ bs, ∀ stx, w.index.get x = some stx → d ∉ stx.candidates now := by
  have hown : migrated now before [b] =
      if st.selectionRuns now then st.candidates now else [] := by
    rw [migrated_swept hbefore (by simpa using hb)]
    simp [migrated, reached, SweepWorld.migrates, hst]
  have hearlier : d ∈ migrated now w bs ↔
      ∃ x ∈ bs, ∃ stx, w.index.get x = some stx ∧ d ∈ stx.candidates now := by
    rw [migrated, reached_all hruns, mem_flatMap]
    constructor
    · rintro ⟨x,hx,hd⟩
      obtain ⟨stx,hstx,_⟩ := hruns x hx
      simp only [SweepWorld.migrates, hstx] at hd
      split_ifs at hd
      · exact ⟨x,hx,stx,hstx,hd⟩
      · cases hd
    · rintro ⟨x,hx,stx,hstx,hd⟩
      obtain ⟨stx',hstx',hcompletes⟩ := hruns x hx
      cases hstx.symm.trans hstx'
      simp only [BucketState.completes, BucketState.reapingRuns, BucketState.migrationRuns,
        Bool.and_eq_true] at hcompletes
      exact ⟨x,hx,by simp [SweepWorld.migrates, hstx, hcompletes.1.1.1, hd]⟩
  rw [hafter.view, hbefore.view, hown]
  by_cases hd : d ∈ migrated now w bs
  · -- an earlier bucket has moved it
    have hnot : ¬ ∀ x ∈ bs, ∀ stx, w.index.get x = some stx → d ∉ stx.candidates now := by
      obtain ⟨x,hx,stx,hstx,hin⟩ := hearlier.mp hd
      exact fun h => h x hx stx hstx hin
    simp [hd, tierView_idem, hnot]
  · have hnone : ∀ x ∈ bs, ∀ stx, w.index.get x = some stx → d ∉ stx.candidates now :=
      fun x hx stx hstx hin => hd (hearlier.mpr ⟨x,hx,stx,hstx,hin⟩)
    rw [if_neg hd, ← tierView_ne_iff codec]
    cases st.selectionRuns now with
    | false => simp
    | true =>
      by_cases hin : d ∈ st.candidates now
      · simpa [hin] using fun _ => hnone
      · simp [hin]

theorem currentOf_after (hexpiry : st.expiryRuns = true) {b' : Bucket} {st' : BucketState}
    (hst' : w.index.get b' = some st') (k : Key) :
    currentOf after.index b' k = (st'.rows.get k).bind (fun m =>
      if (b' = b ∨ b' ∈ bs) ∧ st'.expires now (k,m) = true then none else m.latestLive) := by
  by_cases hbb : b' = b
  · subst hbb
    cases hst.symm.trans hst'
    rw [currentOf_swept hafter ((hbefore.others b' hb).trans hst)]
    simp [reached, hexpiry]
  · rw [currentOf, rowOf, hafter.others b' (by simpa using hbb), ← rowOf, ← currentOf,
      currentOf_swept hbefore hst', reached_all hruns]
    congr 1
    funext m
    by_cases hin : b' ∈ bs
    · obtain ⟨stx,hstx,hcompletes⟩ := hruns b' hin
      cases hst'.symm.trans hstx
      simp only [BucketState.completes, BucketState.reapingRuns, BucketState.migrationRuns,
        BucketState.selectionRuns, Bool.and_eq_true] at hcompletes
      simp [hin, hcompletes.1.1.1.1]
    · simp [hin, hbb]

end

/-- Exactly when no selected blob has a younger current version in another bucket. -/
theorem tiered_by_youngest_iff (now : ℤ) (codec : Codec) (predates : ℤ → ℤ → ℤ → Bool)
    (w : SweepWorld) (bs : List Bucket) (hbs : bs.Perm w.index.keys) :
    TieredByYoungest now codec predates w bs ↔
      ∀ pre b post st, bs = pre ++ b :: post → w.index.get b = some st →
        ¬ YoungerElsewhere now w pre b st := by
  unfold TieredByYoungest
  refine forall₄_congr ?_
  intro pre b post st
  apply imp_congr_right
  intro hsplit
  have hnodup : (pre ++ b :: post).Nodup := hsplit ▸ hbs.nodup_iff.mpr w.index.nodup
  have hb : b ∉ pre := fun h => (nodup_append.mp hnodup).2.2 b h b mem_cons_self rfl
  have hpre (x : Bucket) (hx : x ∈ pre) : ∃ stx, w.index.get x = some stx :=
    (mem_buckets_iff hbs).mp (by rw [hsplit]; exact mem_append_left _ hx)
  obtain ⟨hbefore,hnone⟩ := runOnceAt_swept now codec predates
    (nodup_append.mp hnodup).1 hpre
  have hcompletes (h : ∀ x ∈ pre, ∀ stx, w.index.get x = some stx → stx.completes now w = true)
      (x : Bucket) (hx : x ∈ pre) :
      ∃ stx, w.index.get x = some stx ∧ stx.completes now w = true := by
    obtain ⟨stx,hstx⟩ := hpre x hx
    exact ⟨stx,hstx,h x hx stx hstx⟩
  simp only [hbefore.others b hb]
  constructor
  · intro h hst hyounger
    obtain ⟨hruns,hselects,d,days,hdue,htierable,hfirst,b',st',k,m,r,hne,hst',hm,hlive,hd,hkept,
      hyoung⟩ := hyounger
    have hafter := (sweepBucket_swept now codec predates
      ((hbefore.others b hb).trans hst)).1
    have hexpiry : st.expiryRuns = true := (Bool.and_eq_true_iff.mp hselects).1
    have hmoved := (moved_iff hbefore hafter hb hst (hcompletes hruns) d).mpr
      ⟨hselects,mem_candidates.mpr ⟨days,hdue⟩,htierable,hfirst⟩
    have hcur := currentOf_after hbefore hafter hb hst (hcompletes hruns) hexpiry hst' k
    rw [hm, bind_some, if_neg (by simpa [hne] using hkept), hlive] at hcur
    have hold := h (hnone.mpr hruns) hst d days hmoved hdue b' k r hcur hd
    rw [hyoung] at hold
    cases hold
  · intro h hrun hst d days hmoved hdue b' k r hcur hd
    have hruns := hnone.mp hrun
    have hafter := (sweepBucket_swept now codec predates
      ((hbefore.others b hb).trans hst)).1
    obtain ⟨hselects,_,htierable,hfirst⟩ :=
      (moved_iff hbefore hafter hb hst (hcompletes hruns) d).mp hmoved
    have hexpiry : st.expiryRuns = true := (Bool.and_eq_true_iff.mp hselects).1
    obtain ⟨st',hst'⟩ : ∃ st', w.index.get b' = some st' := by
      obtain ⟨m,hm,_⟩ := bind_eq_some_iff.mp hcur
      obtain ⟨sta,hsta,_⟩ := bind_eq_some_iff.mp hm
      by_cases hbb : b' = b
      · exact ⟨st,hbb ▸ hst⟩
      · by_cases hin : b' ∈ pre
        · exact hpre b' hin
        · rw [hafter.others b' (by simpa using hbb), hbefore.others b' hin] at hsta
          exact ⟨sta,hsta⟩
    rw [currentOf_after hbefore hafter hb hst (hcompletes hruns) hexpiry hst' k] at hcur
    by_cases hbb : b' = b
    · subst hbb
      cases hst.symm.trans hst'
      obtain ⟨m,hm,hlive⟩ := survivor_of_current (by simpa using hcur)
      exact old_of_dueBy hdue hm hlive hd
    · by_contra hyoung
      obtain ⟨m,hm,hlive⟩ := bind_eq_some_iff.mp hcur
      split_ifs at hlive with hexp
      refine h hst ⟨hruns,hselects,d,days,hdue,htierable,hfirst,b',st',k,m,r,hbb,hst',hm,hlive,hd,
        ?_,by simpa using hyoung⟩
      exact fun hx => hexp ⟨Or.inr hx.1,hx.2⟩

end

def sharedWorld (written : ℤ) : SweepWorld where
  index := (Dict.empty.set photosBucket ⟨[ageRule (some 1) none],
    Dict.empty.set keyA (ObjectMeta.newLive abcVersion 0)⟩).set videosBucket
    ⟨[],Dict.empty.set keyB (ObjectMeta.newLive abcVersion written)⟩
  store := abcStore
  uploads := none
  report := ⟨0,0,0,0,0⟩

/-- Both objects with the blob are ten days old, and it goes cold. -/
theorem tiered_by_youngest_shared :
    TieredByYoungest tenDays abcCodec predatesExactly (sharedWorld 0)
      [photosBucket, videosBucket] ∧
    (runOnceAt tenDays abcCodec predatesExactly [photosBucket, videosBucket]
      (sharedWorld 0)).1.store.cold.contains abcDigest = true := by
  have hold : ∀ e ∈ (sharedWorld 0).index.entries, ∀ row ∈ e.2.rows.entries,
      row.2.latestLive.all (fun r => decide (r.lastModified = 0)) = true := by decide +kernel
  have hzero (b : Bucket) (st : BucketState) (k : Key) (m : ObjectMeta) (r : ResolvedObject)
      (hst : (sharedWorld 0).index.get b = some st) (hm : st.rows.get k = some m)
      (hlive : m.latestLive = some r) : r.lastModified = 0 := by
    have h := hold (b,st) (get_eq_some_iff.mp hst) (k,m) (get_eq_some_iff.mp hm)
    simpa [hlive] using h
  refine ⟨(tiered_by_youngest_iff tenDays abcCodec predatesExactly (sharedWorld 0)
    [photosBucket, videosBucket] (by decide +kernel)).mpr ?_,by decide +kernel⟩
  intro pre b post st _ hst hyounger
  obtain ⟨_,_,d,days,hdue,_,_,b',st',k',m',r',_,hst',hm',hlive',_,_,hyoung⟩ := hyounger
  -- the row that makes the blob due is as old as the other
  obtain ⟨k,m,_,hm,hd,_⟩ := id hdue
  obtain ⟨r,hlive,hrd⟩ := map_eq_some_iff.mp hd
  have hrow : st.rows.get k = some m := by
    rw [get_survivors] at hm
    obtain ⟨m₀,hm₀,hkept⟩ := bind_eq_some_iff.mp hm
    split_ifs at hkept
    rw [hm₀, hkept]
  have hdueold := old_of_dueBy hdue hm hlive hrd
  rw [hzero b st k m r hst hrow hlive] at hdueold
  rw [hzero b' st' k' m' r' hst' hm' hlive', hdueold] at hyoung
  cases hyoung

/-- A sweep at the moment of the second write makes the shared blob cold. -/
theorem sweep_tiers_fresh_blob :
    ¬ TieredByYoungest tenDays abcCodec predatesExactly (sharedWorld tenDays)
      [photosBucket, videosBucket] ∧
    (sharedWorld tenDays).store.cold.contains abcDigest = false ∧
    (runOnceAt tenDays abcCodec predatesExactly [photosBucket, videosBucket]
      (sharedWorld tenDays)).1.store.cold.contains abcDigest = true := by
  refine ⟨?_,by decide +kernel,by decide +kernel⟩
  intro h
  have hdue : DueBy ⟨[ageRule (some 1) none],Dict.empty.set keyA (ObjectMeta.newLive abcVersion 0)⟩
      tenDays 1 abcDigest :=
    ⟨keyA,ObjectMeta.newLive abcVersion 0,0,by decide +kernel,by decide +kernel,by decide +kernel,
      by decide +kernel,by decide +kernel⟩
  have hold := h [] photosBucket [videosBucket] _ rfl rfl rfl abcDigest 1 (by decide +kernel) hdue
    videosBucket keyB ⟨1,abcVersion,tenDays⟩ (by decide +kernel) (by decide +kernel)
  exact absurd hold (by decide +kernel)

end BackendGauntlet.ObjectStore
