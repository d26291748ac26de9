import BackendGauntlet.PubsubRooms

/-! What the members of a room are told about it. -/
namespace BackendGauntlet.Pubsub

open PyText Transition List Option Dict

def rosterOf (topic : Topic) : ServerMessage → Option (List Text)
  | .presence topic' members => if topic' = topic then some members else none
  | _ => none

def lastRoster (topic : Topic) (frames : List ServerMessage) : Option (List Text) :=
  (frames.filterMap (rosterOf topic)).getLast?

def Connection.hasRoom (c : Connection) : Bool :=
  c.mailbox.closed || c.mailbox.queue.length < c.mailbox.capacity

def fits (s : RoomState) (p : Publication) : Bool :=
  (s.hub.room p.1).keys.all (fun conn => (s.conns.get conn).all Connection.hasRoom)

def errorFits (s : RoomState) : RoomAction → Bool
  | .malformed conn _ => (s.conns.get conn).all Connection.hasRoom
  | _ => true

def noOverflow (capacity : ℤ) (policy : OverflowPolicy) (ttl : ℤ) (s : RoomState)
    (a : RoomAction) : Bool :=
  errorFits s a &&
    match change capacity policy ttl s a with
    | none => true
    | some r => allAdmitted fits r.1 r.2

/-- A teardown finds its connection listed for no topic that another one is subscribed to. -/
def teardownUnseen (s : RoomState) : RoomAction → Bool
  | .teardown conn =>
    s.presence.entries.all (fun e =>
      (e.2.get conn).isNone || (s.hub.room e.1).keys.all (fun other => other == conn))
  | _ => true

theorem lastRoster_append (topic : Topic) (frames : List ServerMessage) (msg : ServerMessage) :
    lastRoster topic (frames ++ [msg]) = (rosterOf topic msg).or (lastRoster topic frames) := by
  rw [lastRoster, filterMap_append]
  cases hr : rosterOf topic msg with
  | none => simp [hr, lastRoster]
  | some members => simp [hr]

variable {c : Connection} {s : RoomState} {p : Publication} {conn : ConnId}
  {presence : Registry Topic ConnId Member} {topic : Topic}

theorem deliver_hasRoom (msg : ServerMessage) (hopen : c.mailbox.closed = false)
    (hroom : c.hasRoom = true) :
    (c.deliver msg).1 = .delivered ∧ (c.deliver msg).2.put = c.put ++ [msg] ∧
      (c.deliver msg).2.mailbox.closed = false ∧ (c.deliver msg).2.live = c.live := by
  have hlt : c.mailbox.queue.length < c.mailbox.capacity := by
    simpa [Connection.hasRoom, hopen] using hroom
  have hdelivery := c.mailbox.deliver_delivery msg
  unfold Connection.deliver
  generalize c.mailbox.deliver msg = result at hdelivery ⊢
  obtain ⟨outcome,box⟩ := result
  cases hdelivery with
  | refused h =>
    rcases h with h | h
    · rw [hopen] at h
      cases h
    · exact absurd h.2 (Nat.not_le_of_lt hlt)
  | droppedNew _ _ hfull | evicted _ _ _ _ _ hfull _ _ _ _ _ _ =>
    exact absurd hfull (Nat.not_le_of_lt hlt)
  | queued _ _ _ _ _ _ _ hclosed' => exact ⟨rfl,rfl,hclosed',rfl⟩

theorem deliver_frame (c : Connection) (msg : ServerMessage) :
    (c.deliver msg).2.live = c.live ∧ (c.deliver msg).2.mailbox.closed = c.mailbox.closed ∧
      ((c.deliver msg).2.put = c.put ∨ (c.deliver msg).2.put = c.put ++ [msg]) := by
  have hdelivery := c.mailbox.deliver_delivery msg
  unfold Connection.deliver
  generalize c.mailbox.deliver msg = result at hdelivery ⊢
  obtain ⟨outcome,box⟩ := result
  cases hdelivery with
  | refused _ | droppedNew _ _ _ => exact ⟨rfl,rfl,Or.inl rfl⟩
  | evicted hclosed _ _ _ _ _ _ _ _ _ _ hclosed' =>
    exact ⟨rfl,hclosed'.trans hclosed.symm,Or.inr rfl⟩
  | queued hclosed _ _ _ _ _ _ hclosed' => exact ⟨rfl,hclosed'.trans hclosed.symm,Or.inr rfl⟩

structure Rosters (stale : Topic → Prop) (s : RoomState) : Prop where
  live : ∀ conn c, s.conns.get conn = some c → c.live = true → c.mailbox.closed = false
  connected : ∀ topic conn, Subscribed s topic conn →
    ∃ c, s.conns.get conn = some c ∧ c.live = true
  roster : ∀ topic conn c, ¬ stale topic → Subscribed s topic conn → s.conns.get conn = some c →
    lastRoster topic c.put = some (identities s.presence topic)

def Current (presence : Registry Topic ConnId Member) (p : Publication) : Prop :=
  ∀ topic members, rosterOf topic p.2 = some members →
    topic = p.1 ∧ members = identities presence topic

variable (stale : Topic → Prop)

theorem publish_wedged_nil
    (hinv : Rosters stale s) (hfits : fits s p = true) : s.wedged p = [] := by
  apply eq_nil_iff_forall_not_mem.mpr
  intro conn hw
  obtain ⟨hsub,c,hc,hrefused⟩ := (mem_wedged_iff s p conn).mp hw
  obtain ⟨c',hc',hlive⟩ := hinv.connected p.1 conn hsub
  cases hc.symm.trans hc'
  have hroom := List.all_eq_true.mp hfits conn ((mem_keys_iff s p.1 conn).mpr hsub)
  rw [hc, all_some] at hroom
  rw [(deliver_hasRoom p.2 (hinv.live conn c hc hlive) hroom).1] at hrefused
  cases hrefused

theorem get_publish_subscribed
    (hsub : Subscribed s p.1 conn) :
    (s.publish p).conns.get conn = (s.conns.get conn).map (fun c => (c.deliver p.2).2) :=
  (deliverTo_get p.2 s.conns (keys_nodup s p.1) conn).trans
    (if_pos ((mem_keys_iff s p.1 conn).mpr hsub))

theorem get_publish_other
    (hsub : ¬ Subscribed s p.1 conn) : (s.publish p).conns.get conn = s.conns.get conn :=
  (deliverTo_get p.2 s.conns (keys_nodup s p.1) conn).trans
    (if_neg (fun h => hsub ((mem_keys_iff s p.1 conn).mp h)))

theorem publish_get
    (h : (s.publish p).conns.get conn = some c) :
    ∃ c', s.conns.get conn = some c' ∧
      ((Subscribed s p.1 conn ∧ c = (c'.deliver p.2).2) ∨ (¬ Subscribed s p.1 conn ∧ c = c')) := by
  by_cases hsub : Subscribed s p.1 conn
  · rw [get_publish_subscribed hsub] at h
    obtain ⟨c',hc',rfl⟩ := map_eq_some_iff.mp h
    exact ⟨c',hc',Or.inl ⟨hsub,rfl⟩⟩
  · rw [get_publish_other hsub] at h
    exact ⟨c,h,Or.inr ⟨hsub,rfl⟩⟩

theorem rosters_publish (s : RoomState) (p : Publication)
    (hinv : Rosters stale s) (hfits : fits s p = true) (hcurrent : Current s.presence p) :
    Rosters (fun topic => stale topic ∧ rosterOf topic p.2 = none) (s.publish p) := by
  have hhub : (s.publish p).hub = s.hub := by
    change foldl _ s.hub (s.wedged p) = s.hub
    rw [publish_wedged_nil stale hinv hfits]
    rfl
  have hsubscribed (topic : Topic) (conn : ConnId) (h : Subscribed (s.publish p) topic conn) :
      Subscribed s topic conn := by
    rw [Subscribed, hhub] at h
    exact h
  -- what delivery does to the mailbox and the frames of a subscriber
  have hdeliver (conn : ConnId) (c : Connection) (hc : s.conns.get conn = some c)
      (hsub : Subscribed s p.1 conn) :
      (c.deliver p.2).2.put = c.put ++ [p.2] ∧ (c.deliver p.2).2.mailbox.closed = false ∧
        (c.deliver p.2).2.live = true := by
    obtain ⟨c',hc',hlive⟩ := hinv.connected p.1 conn hsub
    cases hc.symm.trans hc'
    have hroom := List.all_eq_true.mp hfits conn ((mem_keys_iff s p.1 conn).mpr hsub)
    rw [hc, all_some] at hroom
    obtain ⟨_,hput,hclosed,hlive'⟩ :=
      deliver_hasRoom p.2 (hinv.live conn c hc hlive) hroom
    exact ⟨hput,hclosed,hlive'.trans hlive⟩
  constructor
  · intro conn c hc hlive
    obtain ⟨c',hc',⟨hsub,rfl⟩ | ⟨_,rfl⟩⟩ := publish_get hc
    · exact (hdeliver conn c' hc' hsub).2.1
    · exact hinv.live conn c hc' hlive
  · intro topic conn hsub
    obtain ⟨c,hc,hlive⟩ := hinv.connected topic conn (hsubscribed topic conn hsub)
    by_cases hp : Subscribed s p.1 conn
    · refine ⟨(c.deliver p.2).2,?_,(hdeliver conn c hc hp).2.2⟩
      rw [get_publish_subscribed hp, hc, map_some]
    · exact ⟨c,(get_publish_other hp).trans hc,hlive⟩
  · intro topic conn c hfresh hsub hc
    have hsub := hsubscribed topic conn hsub
    change lastRoster topic c.put = some (identities s.presence topic)
    have hold (h : rosterOf topic p.2 = none) (c' : Connection) (hc' : s.conns.get conn = some c') :
        lastRoster topic c'.put = some (identities s.presence topic) :=
      hinv.roster topic conn c' (fun hs => hfresh ⟨hs,h⟩) hsub hc'
    obtain ⟨c',hc',⟨hp,rfl⟩ | ⟨hp,rfl⟩⟩ := publish_get hc
    · rw [(hdeliver conn c' hc' hp).1, lastRoster_append]
      cases hr : rosterOf topic p.2 with
      | none => exact hold hr c' hc'
      | some members =>
        rw [(hcurrent topic members hr).2]
        rfl
    · apply hold _ c hc'
      -- a roster would have come to this subscriber of its topic
      cases hr : rosterOf topic p.2 with
      | none => rfl
      | some members => exact absurd ((hcurrent topic members hr).1 ▸ hsub) hp

theorem rosters_foldl (ps : List Publication) (stale : Topic → Prop) (s : RoomState)
    (hinv : Rosters stale s) (hfits : allAdmitted fits s ps = true)
    (hcurrent : ∀ p ∈ ps, Current s.presence p)
    (hcovered : ∀ topic, stale topic → ∃ p ∈ ps, rosterOf topic p.2 ≠ none) :
    Rosters (fun _ => False) (ps.foldl RoomState.publish s) := by
  induction ps generalizing stale s with
  | nil =>
    refine ⟨hinv.live,hinv.connected,?_⟩
    intro topic conn c _
    apply hinv.roster topic conn c
    intro hs
    obtain ⟨p,hp,_⟩ := hcovered topic hs
    cases hp
  | cons p ps ih =>
    rw [allAdmitted, Bool.and_eq_true] at hfits
    apply ih _ (s.publish p)
      (rosters_publish stale s p hinv hfits.1 (hcurrent p mem_cons_self)) hfits.2
    · exact fun q hq => hcurrent q (mem_cons_of_mem p hq)
    · rintro topic ⟨hs,hnone⟩
      obtain ⟨q,hq,hr⟩ := hcovered topic hs
      rcases mem_cons.mp hq with rfl | hq
      · exact absurd hnone hr
      · exact ⟨q,hq,hr⟩

/-! ## What a step changes before it publishes -/

def Covered (ps : List Publication) (topic : Topic) : Prop := ∃ p ∈ ps, rosterOf topic p.2 ≠ none

theorem current_snapshot :
    ∀ p ∈ [presenceSnapshot presence topic], Current presence p := by
  intro p hp topic' members hr
  rw [mem_singleton.mp hp] at hr ⊢
  simp only [presenceSnapshot, rosterOf, ite_none_right_eq_some, some.injEq] at hr
  obtain ⟨rfl,rfl⟩ := hr
  exact ⟨rfl,rfl⟩

theorem covered_snapshot (topic : Topic) :
    Covered [presenceSnapshot presence topic] topic :=
  ⟨_,mem_singleton.mpr rfl,by simp [presenceSnapshot, rosterOf]⟩

theorem rosters_conn {c' : Connection}
    (hinv : Rosters (fun _ => False) s) (hc : s.conns.get conn = some c)
    (hlive : c'.live = c.live) (hclosed : c'.mailbox.closed = c.mailbox.closed)
    (hput : ∀ topic, lastRoster topic c'.put = lastRoster topic c.put) :
    Rosters (fun _ => False) { s with conns := s.conns.set conn c' } := by
  constructor
  · apply forall_get_set hinv.live
    intro h
    rw [hclosed]
    exact hinv.live conn c hc (hlive.symm.trans h)
  · intro topic other hsub
    obtain ⟨d,hd,hdlive⟩ := hinv.connected topic other hsub
    by_cases ho : other = conn
    · subst ho
      cases hc.symm.trans hd
      exact ⟨c',get_set_self,hlive.trans hdlive⟩
    · exact ⟨d,(get_set_ne ho).trans hd,hdlive⟩
  · intro topic other d hfresh hsub hd
    rcases eq_or_get_of_get_set hd with ⟨rfl,rfl⟩ | ⟨_,hd⟩
    · rw [hput]
      exact hinv.roster topic other c hfresh hsub hc
    · exact hinv.roster topic other d hfresh hsub hd

/-- The registries change in one topic, whose subscribers are then told. -/
theorem rosters_topic {ps : List Publication}
    {hub : Registry Topic ConnId Unit}
    {evicted : List (Topic × ConnId)} (hinv : Rosters (fun _ => False) s) (hps : Covered ps topic)
    (hroom : ∀ other, other ≠ topic → presence.room other = s.presence.room other)
    (hentry : ∀ other conn, other ≠ topic → hub.entry other conn = s.hub.entry other conn)
    (hconnected : ∀ conn, hub.entry topic conn = some () →
      ∃ c, s.conns.get conn = some c ∧ c.live = true) :
    Rosters (Covered ps) { s with hub := hub, presence := presence, evicted := evicted } := by
  refine ⟨hinv.live,?_,?_⟩
  · intro other conn hsub
    by_cases ho : other = topic
    · exact hconnected conn (ho ▸ hsub)
    · exact hinv.connected other conn ((hentry other conn ho).symm.trans hsub)
  · intro other conn c hfresh hsub hc
    have ho : other ≠ topic := fun h => hfresh (h ▸ hps)
    have hsame := hinv.roster other conn c id ((hentry other conn ho).symm.trans hsub) hc
    rw [hsame]
    simp only [identities, Registry.members, hroom other ho]

theorem identities_touch (presence : Registry Topic ConnId Member) (conn : ConnId) (now : ℤ)
    (topic : Topic) : identities (touch presence conn now) topic = identities presence topic := by
  have hmember (e : ConnId × Member) :
      (if e.1 = conn then { e.2 with lastSeen := now } else e.2).identity = e.2.identity := by
    split_ifs
    · rfl
    · rfl
  rw [identities, Registry.members, touch, Registry.room_mapValues _ (fun _ => rfl)]
  simp [mapValues, Function.comp_def, hmember, identities, Registry.members]

theorem teardownUnseen_room {other : ConnId}
    (h : teardownUnseen s (.teardown conn) = true) (hsub : Subscribed s topic other)
    (hne : other ≠ conn) : (s.presence.room topic).get conn = none := by
  rw [Registry.room]
  cases hroom : Dict.get s.presence topic with
  | none => rfl
  | some room =>
    have he := List.all_eq_true.mp h (topic,room) (get_eq_some_iff.mp hroom)
    rw [Bool.or_eq_true] at he
    rcases he with he | he
    · exact isNone_iff_eq_none.mp he
    · have hother := List.all_eq_true.mp he other ((mem_keys_iff s topic other).mpr hsub)
      exact absurd (beq_iff_eq.mp hother) hne

theorem rosters_teardown (c : Connection)
    (hinv : Rosters (fun _ => False) s) (hunseen : teardownUnseen s (.teardown conn) = true) :
    Rosters (fun _ => False) { s with
      conns := s.conns.set conn { c with mailbox := c.mailbox.close, live := false }
      hub := s.hub.removeAll conn
      presence := s.presence.removeAll conn } := by
  have hsubscribed (topic : Topic) (other : ConnId)
      (h : (s.hub.removeAll conn).entry topic other = some ()) :
      other ≠ conn ∧ Subscribed s topic other := by
    rw [Registry.entry_removeAll] at h
    split_ifs at h with ho
    exact ⟨ho,h⟩
  constructor
  · apply forall_get_set hinv.live
    intro h
    cases h
  · intro topic other hsub
    obtain ⟨ho,hsub⟩ := hsubscribed topic other hsub
    obtain ⟨d,hd,hlive⟩ := hinv.connected topic other hsub
    exact ⟨d,(get_set_ne ho).trans hd,hlive⟩
  · intro topic other d hfresh hsub hd
    obtain ⟨ho,hsub⟩ := hsubscribed topic other hsub
    have hd : (s.conns.set conn _).get other = some d := hd
    rw [get_set_ne ho] at hd
    rw [hinv.roster topic other d hfresh hsub hd]
    -- the room is the same, because the connection was not in it
    simp only [identities, Registry.members, Registry.room_removeAll,
      erase_eq_self (teardownUnseen_room hunseen hsub ho)]

def sweepFrames (cutoff : ℤ) (presence : Registry Topic ConnId Member) : List Publication :=
  (sweepChanges cutoff presence).map (fun e => (e.1,.presence e.1 (e.2.map Member.identity)))

theorem identities_swept (cutoff : ℤ) (presence : Registry Topic ConnId Member) (topic : Topic) :
    identities (swept cutoff presence) topic =
      ((sweptRoom cutoff (presence.room topic)).entries.map Prod.snd).map Member.identity := by
  rw [identities, Registry.members, swept, Registry.room_mapRooms _ (fun _ => rfl)]

theorem current_sweep {cutoff : ℤ} :
    ∀ p ∈ sweepFrames cutoff presence, Current (swept cutoff presence) p := by
  intro p hp topic members hr
  simp only [sweepFrames, sweepChanges, List.map_map, List.mem_map, mem_filter] at hp
  obtain ⟨e,⟨he,_⟩,rfl⟩ := hp
  simp only [Function.comp_def, rosterOf, ite_none_right_eq_some, some.injEq] at hr
  obtain ⟨rfl,rfl⟩ := hr
  have hroom : presence.room e.1 = e.2 := by
    rw [Registry.room, get_eq_some_iff.mpr he, getD_some]
  exact ⟨rfl,by rw [identities_swept, hroom]⟩

theorem sweptRoom_uncovered {cutoff : ℤ}
    (h : ¬ Covered (sweepFrames cutoff presence) topic) :
    sweptRoom cutoff (presence.room topic) = presence.room topic := by
  rw [Registry.room]
  cases hroom : Dict.get presence topic with
  | none => rfl
  | some room =>
    have hnone : ∀ e ∈ room.entries, isExpired cutoff e.2 = false := by
      intro e he
      by_contra hexp
      apply h
      refine ⟨(topic,.presence topic (((sweptRoom cutoff room).entries.map Prod.snd).map
        Member.identity)),?_,by simp [rosterOf]⟩
      refine List.mem_map.mpr ⟨_,List.mem_map.mpr ⟨(topic,room),mem_filter.mpr
        ⟨get_eq_some_iff.mp hroom,?_⟩,rfl⟩,rfl⟩
      exact List.any_eq_true.mpr ⟨e,he,by simpa using hexp⟩
    apply Dict.ext
    apply filter_eq_self.mpr
    intro e he
    simp [hnone e he]

theorem rosters_connect
    (hinv : Rosters (fun _ => False) s) (hfree : s.conns.get conn = none)
    (hlive : c.live = true → c.mailbox.closed = false) :
    Rosters (fun _ => False) { s with conns := s.conns.set conn c } := by
  have hother (topic : Topic) (other : ConnId) (hsub : Subscribed s topic other) :
      other ≠ conn := by
    intro he
    obtain ⟨d,hd,_⟩ := hinv.connected topic other hsub
    rw [he, hfree] at hd
    cases hd
  constructor
  · exact forall_get_set hinv.live hlive
  · intro topic other hsub
    obtain ⟨d,hd,hdlive⟩ := hinv.connected topic other hsub
    exact ⟨d,(get_set_ne (hother topic other hsub)).trans hd,hdlive⟩
  · intro topic other d hfresh hsub hd
    have hd : (s.conns.set conn c).get other = some d := hd
    rw [get_set_ne (hother topic other hsub)] at hd
    exact hinv.roster topic other d hfresh hsub hd

theorem rosters_subscribe (topic : Topic)
    (now : ℤ) (hinv : Rosters (fun _ => False) s) (hc : s.conns.get conn = some c)
    (hlive : c.live = true) :
    Rosters (Covered (dispatch s conn c.identity now (.subscribe topic)).2)
      (dispatch s conn c.identity now (.subscribe topic)).1 := by
  apply rosters_topic hinv (covered_snapshot topic)
  · intro other ho
    rw [Registry.room_put, if_neg ho]
  · intro other k ho
    rw [Registry.entry_put, if_neg (fun h => ho h.1)]
  · intro k hk
    rw [Registry.entry_put] at hk
    split_ifs at hk with hkc
    · exact ⟨c,hkc.2 ▸ hc,hlive⟩
    · exact hinv.connected topic k hk

theorem rosters_unsubscribe (conn : ConnId) (topic : Topic) (identity : Text)
    (now : ℤ) (hinv : Rosters (fun _ => False) s) :
    Rosters (Covered (dispatch s conn identity now (.unsubscribe topic)).2)
      (dispatch s conn identity now (.unsubscribe topic)).1 := by
  apply rosters_topic hinv (covered_snapshot topic)
  · intro other ho
    rw [Registry.room_remove, if_neg ho]
  · intro other k ho
    rw [Registry.entry_remove, if_neg (fun h => ho h.1)]
  · intro k hk
    rw [Registry.entry_remove] at hk
    split_ifs at hk with hkc
    exact hinv.connected topic k hk

theorem Rosters.weaken (s : RoomState) (stale : Topic → Prop)
    (hinv : Rosters (fun _ => False) s) : Rosters stale s :=
  ⟨hinv.live,hinv.connected,fun topic conn c _ => hinv.roster topic conn c id⟩

theorem rosters_touch (conn : ConnId) (now : ℤ)
    (hinv : Rosters (fun _ => False) s) :
    Rosters (fun _ => False) { s with presence := touch s.presence conn now } := by
  refine ⟨hinv.live,hinv.connected,?_⟩
  intro topic other d hfresh hsub hd
  rw [hinv.roster topic other d hfresh hsub hd]
  exact congrArg some (identities_touch s.presence conn now topic).symm

theorem rosters_refuse {message : Text}
    (hinv : Rosters (fun _ => False) s) (hc : s.conns.get conn = some c) :
    Rosters (fun _ => False)
      { s with conns := s.conns.set conn (c.deliver (.error message)).2 } := by
  obtain ⟨hlive,hclosed,hput⟩ := deliver_frame c (.error message)
  apply rosters_conn hinv hc hlive hclosed
  intro topic
  rcases hput with hput | hput
  · rw [hput]
  · rw [hput, lastRoster_append]
    rfl

theorem rosters_sweep (cutoff : ℤ) (hinv : Rosters (fun _ => False) s) :
    Rosters (Covered (sweepFrames cutoff s.presence)) { s with
      presence := swept cutoff s.presence
      evicted := s.evicted ++ sweepEvicted cutoff s.presence } := by
  refine ⟨hinv.live,hinv.connected,?_⟩
  intro topic conn c hfresh hsub hc
  rw [hinv.roster topic conn c id hsub hc, identities_swept, sweptRoom_uncovered hfresh]
  rfl

section
variable (capacity : ℤ) (policy : OverflowPolicy) (ttl : ℤ)

/-- Before what an action publishes, only the rosters of its topics may be behind. -/
theorem rosters_change {t : RoomState} {ps : List Publication} {a : RoomAction}
    (hinv : Rosters (fun _ => False) s) (hunseen : teardownUnseen s a = true)
    (h : RoomChange capacity policy ttl s a t ps) :
    Rosters (Covered ps) t ∧ ∀ p ∈ ps, Current t.presence p := by
  have hnone (u : RoomState) (hu : Rosters (fun _ => False) u) :
      Rosters (Covered []) u ∧ ∀ p ∈ ([] : List Publication), Current u.presence p :=
    ⟨hu.weaken u _,forall_mem_nil _⟩
  cases h with
  | connected conn claimed hfree =>
    exact hnone _ (rosters_connect hinv hfree (fun _ => rfl))
  | dispatched conn command now c hc hlive =>
    cases command with
    | subscribe topic =>
      exact ⟨rosters_subscribe topic now hinv hc hlive,current_snapshot⟩
    | unsubscribe topic =>
      exact ⟨rosters_unsubscribe conn topic c.identity now hinv,current_snapshot⟩
    | publish topic payload =>
      refine ⟨hinv.weaken s _,?_⟩
      intro p hp topic' members hr
      rw [mem_singleton.mp hp] at hr
      cases hr
    | heartbeat => exact hnone _ (rosters_touch conn now hinv)
  | refused conn brief c hc => exact hnone _ (rosters_refuse hinv hc)
  | tornDown conn c hc => exact hnone _ (rosters_teardown c hinv hunseen)
  | swept now => exact ⟨rosters_sweep (now-ttl) hinv,current_sweep⟩
  | read conn c hc => exact hnone _ (rosters_conn hinv hc rfl rfl (fun _ => rfl))

theorem rosters_step {t : RoomState} {a : RoomAction} (hinv : Rosters (fun _ => False) s)
    (hok : (noOverflow capacity policy ttl s a && teardownUnseen s a) = true)
    (h : roomStep capacity policy ttl s a = some t) : Rosters (fun _ => False) t := by
  obtain ⟨⟨u,ps⟩,hchange,rfl⟩ := map_eq_some_iff.mp h
  rw [noOverflow, hchange, Bool.and_eq_true, Bool.and_eq_true] at hok
  obtain ⟨hu,hcurrent⟩ := rosters_change capacity policy ttl hinv hok.2
    (change_spec capacity policy ttl hchange)
  exact rosters_foldl ps (Covered ps) u hu hok.1.2 hcurrent (fun _ hs => hs)

/-- Without overflow and early teardowns, every subscriber's last roster of a topic is the present
one. -/
theorem rosters_converge (s : RoomState)
    (hs : Reachable roomInitial (roomStep capacity policy ttl)
      (fun u a => (noOverflow capacity policy ttl u a && teardownUnseen u a) = true) s)
    (topic : Topic) (conn : ConnId) (hsub : Subscribed s topic conn) :
    ∃ c, s.conns.get conn = some c ∧
      lastRoster topic c.put = some (identities s.presence topic) := by
  have hinv : Rosters (fun _ => False) s := by
    apply reachable_invariant (Rosters (fun _ => False)) ?_ ?_ s hs
    · rintro u rfl
      exact ⟨fun _ _ h => (nomatch h),fun _ _ h => (nomatch h),fun _ _ _ _ h => (nomatch h)⟩
    · intro u v a hu hok hstep
      exact rosters_step capacity policy ttl hu hok hstep
  obtain ⟨c,hc,_⟩ := hinv.connected topic conn hsub
  exact ⟨c,hc,hinv.roster topic conn c id hsub hc⟩

end

/-- Two connections join and the second one leaves before its socket is torn down. -/
theorem rosters_converge_lobby : ∃ s c,
    Reachable roomInitial (roomStep 8 .dropOldest 10)
      (fun u a => (noOverflow 8 .dropOldest 10 u a && teardownUnseen u a) = true) s ∧
    s.conns.get 1 = some c ∧ identities s.presence lobby = [connLabel 1] ∧
    lastRoster lobby c.put = some [connLabel 1] := by
  obtain ⟨s,hs,hsub,hmembers⟩ := reachable_of_checkedRun roomInitial (roomStep 8 .dropOldest 10)
    (fun u a => noOverflow 8 .dropOldest 10 u a && teardownUnseen u a)
    (P := fun s => s.hub.entry lobby 1 = some () ∧ identities s.presence lobby = [connLabel 1])
    [.connect 1 none, .connect 2 none, .command 1 (.subscribe lobby) 0,
      .command 2 (.subscribe lobby) 5, .command 2 (.unsubscribe lobby) 6, .teardown 2] .empty
    rfl (by decide +kernel)
  obtain ⟨c,hc,hroster⟩ := rosters_converge 8 .dropOldest 10 s hs lobby 1 hsub
  exact ⟨s,c,hs,hc,hmembers,hroster.trans (congrArg some hmembers)⟩

/-- A socket goes without a word, and who is left still has its member in the last roster. -/
theorem rosters_diverge : ∃ s c,
    Reachable roomInitial (roomStep 8 .dropOldest 10)
      (fun u a => noOverflow 8 .dropOldest 10 u a = true) s ∧
    Subscribed s lobby 1 ∧ s.conns.get 1 = some c ∧
    identities s.presence lobby = [connLabel 1] ∧
    lastRoster lobby c.put = some [connLabel 1, connLabel 2] := by
  obtain ⟨s,hs,hsub,c,hc,hrosters⟩ := reachable_of_checkedRun roomInitial
    (roomStep 8 .dropOldest 10) (noOverflow 8 .dropOldest 10)
    (P := fun s => s.hub.entry lobby 1 = some () ∧ ∃ c, s.conns.get 1 = some c ∧
      identities s.presence lobby = [connLabel 1] ∧
      lastRoster lobby c.put = some [connLabel 1, connLabel 2])
    [.connect 1 none, .connect 2 none, .command 1 (.subscribe lobby) 0,
      .command 2 (.subscribe lobby) 5, .teardown 2] .empty rfl (by decide +kernel)
  exact ⟨s,c,hs,hsub,hc,hrosters⟩

end BackendGauntlet.Pubsub
