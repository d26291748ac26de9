import BackendGauntlet.Dict
import BackendGauntlet.LiveIngestWindow
import BackendGauntlet.Transition

/-! The streams on air and the route that serves their segments. -/
namespace BackendGauntlet.LiveIngest

open PyText Transition List Option

inductive AppError
  | badRequest (detail : String)
  | notFound
deriving DecidableEq

structure Response where
  body : Bytes
  mediaType : String
  cacheControl : String
deriving DecidableEq

def mp4Segment : String := "video/iso.segment"

def immutable : String := "public, max-age=31536000, immutable"

/-- The registry and every stream ever created; `completed` is history, the keys with a finished
segment. -/
structure LiveState where
  registry : Dict Text ℕ
  streams : List LiveStream
  completed : List Text

def LiveState.openKey (window : { n : ℕ // 0 < n }) (s : LiveState) (key : Text) : LiveState :=
  match s.registry.get key with
  | some _ => s
  | none =>
    { s with
      registry := s.registry.set key s.streams.length
      streams := s.streams ++ [LiveStream.new key window] }

def LiveState.closeKey (s : LiveState) (key : Text) : LiveState :=
  { s with registry := s.registry.erase key }

def LiveState.onAir (s : LiveState) (i : ℕ) (stream : LiveStream) : Prop :=
  s.streams[i]? = some stream ∧ s.registry.get stream.key = some i

def safeKey (key : Text) : Except AppError Text :=
  if key = [] ∨ key = ['.'] ∨ key = ['.', '.'] ∨
      key.any (fun c => c == '/' || c == '\\' || c.toNat == 0) then
    .error (.badRequest "invalid stream key")
  else .ok key

def LiveState.stream (s : LiveState) (key : Text) : Except AppError LiveStream :=
  match (s.registry.get key).bind (fun i => s.streams[i]?) with
  | none => .error .notFound
  | some stream => .ok stream

/-- `GET /live/{key}/seg/{msn}.m4s`. -/
def segment (s : LiveState) (key : Text) (msn : ℕ) : Except AppError Response := do
  let stream ← s.stream (← safeKey key)
  match stream.segmentBytes msn with
  | none => .error .notFound
  | some body => .ok ⟨body,mp4Segment,immutable⟩

inductive LiveAction
  | openKey (key : Text)
  | closeKey (key : Text)
  | pushPart (i : ℕ) (part : Part) (startSegment : Bool) (now : ℤ)
  | finishSegment (i : ℕ) (data : Bytes)
  | markEnded (i : ℕ)

def LiveState.update (s : LiveState) (i : ℕ) (f : LiveStream → LiveStream) : Option LiveState :=
  s.streams[i]?.map (fun stream => { s with streams := s.streams.set i (f stream) })

def LiveState.recordFinish (s : LiveState) (i : ℕ) : LiveState :=
  match s.streams[i]? with
  | none => s
  | some stream =>
    if s.registry.get stream.key = some i ∧ stream.segments ≠ [] then
      { s with completed := stream.key :: s.completed }
    else s

def liveStep (window : { n : ℕ // 0 < n }) (s : LiveState) : LiveAction → Option LiveState
  | .openKey key => some (s.openKey window key)
  | .closeKey key => some (s.closeKey key)
  | .pushPart i part startSegment now =>
    s.update i (fun stream => stream.pushPart part startSegment now)
  | .finishSegment i data => (s.recordFinish i).update i (fun stream => stream.finishSegment data)
  | .markEnded i => s.update i LiveStream.markEnded

def started (s : LiveState) : Prop := s = ⟨Dict.empty,[],[]⟩

def LiveStream.finishedWith (stream : LiveStream) (data : Bytes) : Bool :=
  match stream.segments.getLast? with
  | none => true
  | some x => !x.complete || x.data == some data

/-- A key is opened anew only before a segment was finished under it, and no segment is finished
twice. -/
def undisturbed (s : LiveState) : LiveAction → Bool
  | .openKey key => s.registry.contains key || !s.completed.contains key
  | .finishSegment i data =>
    match s.streams[i]? with
    | none => true
    | some stream => s.registry.get stream.key != some i || stream.finishedWith data
  | _ => true

inductive LiveEffect (window : { n : ℕ // 0 < n }) (s : LiveState) : LiveState → Prop
  | same : LiveEffect window s s
  | created (key : Text) (hfree : s.registry.get key = none) (hkey : key ∉ s.completed) :
    LiveEffect window s ⟨s.registry.set key s.streams.length,
      s.streams ++ [LiveStream.new key window],s.completed⟩
  | closed (key : Text) : LiveEffect window s (s.closeKey key)
  | wrote (i : ℕ) (stream next : LiveStream) (completed : List Text)
      (hi : s.streams[i]? = some stream) (hkey : next.key = stream.key)
      (hgrows : ∀ key ∈ s.completed, key ∈ completed)
      (hholds : s.registry.get stream.key = some i → ∀ msn data, stream.Holds msn data →
        next.Holds msn data)
      (hdone : s.registry.get stream.key = some i → ∀ x ∈ next.segments, x.complete = true →
        (∃ y ∈ stream.segments, y.complete = true) ∨ stream.key ∈ completed) :
    LiveEffect window s ⟨s.registry,s.streams.set i next,completed⟩

variable {s t : LiveState} {i : ℕ} {key : Text}

section
variable (window : { n : ℕ // 0 < n })

theorem update_eq_some_iff (s t : LiveState) (i : ℕ) (f : LiveStream → LiveStream) :
    s.update i f = some t ↔ ∃ stream, s.streams[i]? = some stream ∧
      t = ⟨s.registry,s.streams.set i (f stream),s.completed⟩ := by
  rw [LiveState.update, map_eq_some_iff]
  constructor
  · rintro ⟨stream,hi,rfl⟩
    exact ⟨stream,hi,rfl⟩
  · rintro ⟨stream,hi,rfl⟩
    exact ⟨stream,hi,rfl⟩

theorem streams_recordFinish (s : LiveState) (i : ℕ) :
    (s.recordFinish i).streams = s.streams ∧ (s.recordFinish i).registry = s.registry := by
  unfold LiveState.recordFinish
  split
  · exact ⟨rfl,rfl⟩
  · split_ifs
    · exact ⟨rfl,rfl⟩
    · exact ⟨rfl,rfl⟩

theorem completed_recordFinish {stream : LiveStream}
    (hi : s.streams[i]? = some stream) (key : Text) :
    key ∈ (s.recordFinish i).completed ↔
      (key = stream.key ∧ s.registry.get stream.key = some i ∧ stream.segments ≠ []) ∨
        key ∈ s.completed := by
  simp only [LiveState.recordFinish, hi]
  split_ifs with hair
  · simp [hair]
  · simp [hair]

/-- What an undisturbed step can do. -/
theorem liveStep_effect {a : LiveAction} (hok : undisturbed s a = true)
    (ht : liveStep window s a = some t) : LiveEffect window s t := by
  cases a with
  | openKey key =>
    cases ht
    unfold LiveState.openKey
    cases hget : s.registry.get key with
    | some i => exact LiveEffect.same
    | none =>
      simp only [undisturbed, Dict.contains, hget, isSome_none, Bool.false_or,
        Bool.not_eq_true', contains_eq_mem, decide_eq_false_iff_not] at hok
      exact LiveEffect.created key hget hok
  | closeKey key =>
    cases ht
    exact LiveEffect.closed key
  | pushPart i part startSegment now =>
    obtain ⟨stream,hi,rfl⟩ := (update_eq_some_iff s t i _).mp ht
    refine LiveEffect.wrote i stream _ _ hi (key_pushPart stream part startSegment now)
      (fun _ h => h) ?_ ?_
    · intro _ msn data h
      exact holds_pushPart stream h part startSegment now
    · intro _ x hx hcomplete
      rcases mem_pushPart stream hx with ⟨y,hy,_,hyc,_⟩ | ⟨_,hnew⟩
      · exact Or.inl ⟨y,hy,hyc.trans hcomplete⟩
      · exact absurd (hnew.symm.trans hcomplete) Bool.false_ne_true
  | finishSegment i data =>
    obtain ⟨stream,hi,rfl⟩ := (update_eq_some_iff _ t i _).mp ht
    obtain ⟨hstreams,hregistry⟩ := streams_recordFinish s i
    rw [hstreams] at hi
    have hcompleted := completed_recordFinish hi
    rw [hstreams, hregistry]
    refine LiveEffect.wrote i stream _ _ hi rfl ?_ ?_ ?_
    · intro key hkey
      exact (hcompleted key).mpr (Or.inr hkey)
    · intro hair msn bytes h
      apply holds_finishSegment stream h
      intro x hx hcomplete
      simpa [undisturbed, hi, hair, LiveStream.finishedWith, hx, hcomplete] using hok
    · intro hair x hx _
      have hsegments : stream.segments ≠ [] := by
        intro hnil
        simp [LiveStream.finishSegment, LiveStream.modifyLast, hnil] at hx
      exact Or.inr ((hcompleted stream.key).mpr (Or.inl ⟨rfl,hair,hsegments⟩))
  | markEnded i =>
    obtain ⟨stream,hi,rfl⟩ := (update_eq_some_iff s t i _).mp ht
    exact LiveEffect.wrote i stream _ _ hi rfl (fun _ h => h) (fun _ _ _ h => h)
      (fun _ x hx hcomplete => Or.inl ⟨x,hx,hcomplete⟩)

structure LiveInv (s : LiveState) : Prop where
  linked : ∀ key i, s.registry.get key = some i →
    ∃ stream, s.streams[i]? = some stream ∧ stream.key = key
  known : ∀ i stream, s.onAir i stream → ∀ x ∈ stream.segments, x.complete = true →
    stream.key ∈ s.completed

theorem getElem?_set_some {α : Type} {l : List α} {j : ℕ} {x y : α}
    (h : (l.set i x)[j]? = some y) : (j = i ∧ y = x) ∨ (j ≠ i ∧ l[j]? = some y) := by
  rw [getElem?_set] at h
  split_ifs at h with hij hlt
  · exact Or.inl ⟨hij.symm,(some.inj h).symm⟩
  · exact Or.inr ⟨fun hji => hij hji.symm,h⟩

theorem liveInv_effect (hI : LiveInv s) (h : LiveEffect window s t) :
    LiveInv t := by
  cases h with
  | same => exact hI
  | created key hfree hkey =>
    refine ⟨?_,?_⟩
    · intro k i hk
      rw [Dict.get_set] at hk
      split_ifs at hk with hkk
      · cases hk
        exact ⟨LiveStream.new key window,by simp,hkk.symm⟩
      · obtain ⟨stream,hi,hskey⟩ := hI.linked k i hk
        exact ⟨stream,getElem?_append_left (List.getElem?_eq_some_iff.mp hi).1 ▸ hi,hskey⟩
    · rintro i stream ⟨hi,hair⟩ x hx hcomplete
      rw [Dict.get_set] at hair
      split_ifs at hair with hkk
      · cases hair
        rw [getElem?_append_right (Nat.le_refl _)] at hi
        simp only [Nat.sub_self, getElem?_cons_zero, some.injEq] at hi
        rw [← hi] at hx
        cases hx
      · obtain ⟨stream',hi',_⟩ := hI.linked _ i hair
        have hlt := (List.getElem?_eq_some_iff.mp hi').1
        rw [getElem?_append_left hlt] at hi
        exact hI.known i stream ⟨hi,hair⟩ x hx hcomplete
  | closed key =>
    refine ⟨?_,?_⟩
    · intro k i hk
      exact hI.linked k i (Dict.get_of_get_erase hk)
    · rintro i stream ⟨hi,hair⟩
      exact hI.known i stream ⟨hi,Dict.get_of_get_erase hair⟩
  | wrote i stream next completed hi hkey hgrows hholds hdone =>
    refine ⟨?_,?_⟩
    · intro k j hk
      obtain ⟨stream',hj,hskey⟩ := hI.linked k j hk
      by_cases hji : j = i
      · subst hji
        cases hi.symm.trans hj
        refine ⟨next,?_,hkey.trans hskey⟩
        rw [getElem?_set_self (List.getElem?_eq_some_iff.mp hi).1]
      · exact ⟨stream',by rw [getElem?_set_ne (Ne.symm hji)]; exact hj,hskey⟩
    · rintro j stream' ⟨hj,hair⟩ x hx hcomplete
      rcases getElem?_set_some hj with ⟨rfl,rfl⟩ | ⟨_,hj⟩
      · rw [hkey] at hair ⊢
        rcases hdone hair x hx hcomplete with ⟨y,hy,hycomplete⟩ | hin
        · exact hgrows _ (hI.known j stream ⟨hi,hair⟩ y hy hycomplete)
        · exact hin
      · exact hgrows _ (hI.known j stream' ⟨hj,hair⟩ x hx hcomplete)

theorem liveInv_reachable
    (hs : Reachable started (liveStep window) (fun u a => undisturbed u a = true) s) :
    LiveInv s := by
  apply reachable_invariant
    LiveInv ?_ ?_ s hs
  · rintro s rfl
    refine ⟨?_,?_⟩
    · intro key i hk
      cases hk
    · rintro i stream ⟨hi,_⟩
      cases hi
  · intro s t a hI hok ht
    exact liveInv_effect window hI (liveStep_effect window hok ht)

structure Served (key : Text) (i : ℕ) (msn : ℤ) (data : Bytes) (s : LiveState) : Prop where
  inv : LiveInv s
  known : key ∈ s.completed
  holds : s.registry.get key = none ∨ (s.registry.get key = some i ∧
    ∃ stream, s.streams[i]? = some stream ∧ stream.Holds msn data)

theorem served_effect {msn : ℤ} {data : Bytes}
    (hS : Served key i msn data s) (h : LiveEffect window s t) : Served key i msn data t := by
  have hinv := liveInv_effect window hS.inv h
  cases h with
  | same => exact hS
  | created k hfree hk =>
    -- the key has served a segment, so it is another one that is opened
    have hne : key ≠ k := fun heq => hk (heq ▸ hS.known)
    refine ⟨hinv,hS.known,?_⟩
    rw [Dict.get_set, if_neg hne]
    rcases hS.holds with hnone | ⟨hget,stream,hi,hholds⟩
    · exact Or.inl hnone
    · refine Or.inr ⟨hget,stream,?_,hholds⟩
      rw [getElem?_append_left (List.getElem?_eq_some_iff.mp hi).1]
      exact hi
  | closed k =>
    refine ⟨hinv,hS.known,?_⟩
    rw [LiveState.closeKey, Dict.get_erase]
    split_ifs with hkk
    · exact Or.inl rfl
    · exact hS.holds
  | wrote j stream next completed hj hkey hgrows hholds hdone =>
    refine ⟨hinv,hgrows key hS.known,?_⟩
    rcases hS.holds with hnone | ⟨hget,stream',hi,hheld⟩
    · exact Or.inl hnone
    · refine Or.inr ⟨hget,?_⟩
      by_cases hij : j = i
      · subst hij
        cases hj.symm.trans hi
        obtain ⟨other,hother,hokey⟩ := hS.inv.linked key j hget
        cases hj.symm.trans hother
        refine ⟨next,?_,hholds (hokey.symm ▸ hget) msn data hheld⟩
        rw [getElem?_set_self (List.getElem?_eq_some_iff.mp hj).1]
      · exact ⟨stream',by rw [getElem?_set_ne hij]; exact hi,hheld⟩

theorem segment_ok {msn : ℕ} {r : Response}
    (h : segment s key msn = .ok r) :
    ∃ i stream, s.registry.get key = some i ∧ s.streams[i]? = some stream ∧
      stream.segmentBytes msn = some r.body ∧ r = ⟨r.body,mp4Segment,immutable⟩ := by
  unfold segment safeKey at h
  split_ifs at h with hsafe
  · cases h
  simp only [bind, Except.bind, LiveState.stream] at h
  cases hget : (s.registry.get key).bind (fun i => s.streams[i]?) with
  | none =>
    rw [hget] at h
    cases h
  | some stream =>
    rw [hget] at h
    obtain ⟨i,hi,hstream⟩ := bind_eq_some_iff.mp hget
    cases hbody : stream.segmentBytes msn with
    | none =>
      simp only [hbody] at h
      cases h
    | some body =>
      simp only [hbody] at h
      obtain rfl := Except.ok.inj h
      exact ⟨i,stream,hi,hstream,hbody,rfl⟩

theorem served_of_segment (hI : LiveInv s) {msn : ℕ} {r : Response}
    (h : segment s key msn = .ok r) : ∃ i, Served key i msn r.body s := by
  obtain ⟨i,stream,hget,hi,hbytes,_⟩ := segment_ok h
  obtain ⟨stream',hi',hkey⟩ := hI.linked key i hget
  cases hi.symm.trans hi'
  obtain ⟨x,hx,_,hcomplete,_⟩ := (segmentBytes_eq_some_iff stream msn r.body).mp hbytes
  have hknown := hI.known i stream ⟨hi,hkey.symm ▸ hget⟩ x hx hcomplete
  exact ⟨i,hI,hkey ▸ hknown,Or.inr ⟨hget,stream,hi,holds_of_segmentBytes stream hbytes⟩⟩

/-- In undisturbed runs an address that was ever answered is never answered with other bytes. -/
theorem served_segment_immutable (s t : LiveState)
    (hs : Reachable started (liveStep window) (fun u a => undisturbed u a = true) s)
    (ht : Reachable (fun u => u = s) (liveStep window) (fun u a => undisturbed u a = true) t)
    (key : Text) (msn : ℕ) (r r' : Response) (hr : segment s key msn = .ok r)
    (hr' : segment t key msn = .ok r') :
    r' = r ∧ r.cacheControl = immutable := by
  obtain ⟨i,hserved⟩ := served_of_segment (liveInv_reachable window hs) hr
  have hlater : Served key i msn r.body t := by
    apply reachable_invariant
      (Served key i msn r.body) ?_ ?_ t ht
    · rintro u rfl
      exact hserved
    · intro u v a hu hok hv
      exact served_effect window hu (liveStep_effect window hok hv)
  obtain ⟨_,_,_,_,_,hform⟩ := segment_ok hr
  obtain ⟨j,stream,hget,hj,hbytes,hform'⟩ := segment_ok hr'
  rcases hlater.holds with hnone | ⟨hsome,stream',hi,hholds⟩
  · cases hnone.symm.trans hget
  · cases hsome.symm.trans hget
    obtain rfl := some.inj (hi.symm.trans hj)
    have hbody := segmentBytes_of_holds stream' hholds hbytes
    rw [hform', hform, hbody]
    exact ⟨rfl,rfl⟩

end

def aPart : Part := ⟨[0],1/2,true⟩

def camKey : Text := "cam".toList

def twoSegments : { n : ℕ // 0 < n } := ⟨2,Nat.two_pos⟩

def firstSegment : List LiveAction :=
  [.openKey camKey, .pushPart 0 aPart true 0, .finishSegment 0 [1]]

def isAnswer (key : Text) (msn : ℕ) (body : Bytes) (s : LiveState) : Bool :=
  decide (segment s key msn = .ok ⟨body,mp4Segment,immutable⟩)

/-- The publisher goes on, ends the stream and leaves; the first segment keeps its bytes. -/
theorem first_segment_immutable : ∃ s t r,
    Reachable started (liveStep twoSegments) (fun u a => undisturbed u a = true) s ∧
    Reachable (fun u => u = s) (liveStep twoSegments) (fun u a => undisturbed u a = true) t ∧
    segment s camKey 0 = .ok ⟨[1],mp4Segment,immutable⟩ ∧
    segment t camKey 0 = .ok r ∧ r = ⟨[1],mp4Segment,immutable⟩ := by
  obtain ⟨s,hs,hfirst,hlater⟩ := reachable_of_checkedRun started (liveStep twoSegments) undisturbed
    (P := fun s => segment s camKey 0 = .ok ⟨[1],mp4Segment,immutable⟩ ∧
      (checkedRun (liveStep twoSegments) undisturbed s
        [.pushPart 0 aPart true 5, .finishSegment 0 [2], .markEnded 0]).any
        (fun t => (segment t camKey 0).toOption.isSome) = true)
    firstSegment ⟨Dict.empty,[],[]⟩ rfl (by decide +kernel)
  obtain ⟨t,ht,hanswer⟩ := reachable_of_checkedRun (fun u => u = s) (liveStep twoSegments)
    undisturbed (P := fun t => (segment t camKey 0).toOption.isSome = true) _ s rfl
    (by simpa using hlater)
  cases hr : segment t camKey 0 with
  | error e =>
    rw [hr] at hanswer
    exact absurd hanswer Bool.false_ne_true
  | ok r =>
    exact ⟨s,t,r,hs,ht,hfirst,hr,
      (served_segment_immutable twoSegments s t hs ht camKey 0 _ r hfirst hr).1⟩

def reconnect : List LiveAction :=
  [.markEnded 0, .closeKey camKey, .openKey camKey, .pushPart 1 aPart true 9, .finishSegment 1 [2]]

/-- When the key is reopened, or its segment is finished again, the address is answered with other
bytes. -/
theorem reopened_key_changes_segment : ∃ s t t',
    run (liveStep twoSegments) ⟨Dict.empty,[],[]⟩ firstSegment = some s ∧
    run (liveStep twoSegments) s reconnect = some t ∧
    run (liveStep twoSegments) s [.finishSegment 0 [2]] = some t' ∧
    segment s camKey 0 = .ok ⟨[1],mp4Segment,immutable⟩ ∧
    segment t camKey 0 = .ok ⟨[2],mp4Segment,immutable⟩ ∧
    segment t' camKey 0 = .ok ⟨[2],mp4Segment,immutable⟩ := by
  have hrun : (run (liveStep twoSegments) ⟨Dict.empty,[],[]⟩ firstSegment).map (fun s =>
      isAnswer camKey 0 [1] s &&
      decide ((run (liveStep twoSegments) s reconnect).map (isAnswer camKey 0 [2]) = some true) &&
      decide ((run (liveStep twoSegments) s [.finishSegment 0 [2]]).map (isAnswer camKey 0 [2]) =
        some true)) = some true := by decide +kernel
  obtain ⟨s,hs,hp⟩ := map_eq_some_iff.mp hrun
  simp only [Bool.and_eq_true, decide_eq_true_eq] at hp
  obtain ⟨⟨hfirst,hreconnect⟩,hagain⟩ := hp
  obtain ⟨t,ht,hsecond⟩ := map_eq_some_iff.mp hreconnect
  obtain ⟨t',ht',hother⟩ := map_eq_some_iff.mp hagain
  exact ⟨s,t,t',hs,ht,ht',of_decide_eq_true hfirst,of_decide_eq_true hsecond,
    of_decide_eq_true hother⟩

end BackendGauntlet.LiveIngest
