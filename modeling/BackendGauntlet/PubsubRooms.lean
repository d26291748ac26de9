import BackendGauntlet.PubsubMailbox
import BackendGauntlet.PyText
import BackendGauntlet.Registry

/-! Subscriptions and presence of the connections of one server. -/
namespace BackendGauntlet.Pubsub

open PyText Transition List Option

abbrev Topic := Text

abbrev ConnId := ℕ

inductive ServerMessage
  | presence (topic : Topic) (members : List Text)
  | broadcast (topic : Topic) (payload : Text)
  | error (reason : Text)
deriving DecidableEq

inductive ClientMessage
  | subscribe (topic : Topic)
  | unsubscribe (topic : Topic)
  | publish (topic : Topic) (payload : Text)
  | heartbeat

structure Member where
  identity : Text
  lastSeen : ℤ
deriving DecidableEq

/-- `live` says that the loop of the socket runs; `put` is history: the frames that were put
into the mailbox. -/
structure Connection where
  identity : Text
  mailbox : Mailbox ServerMessage
  live : Bool
  put : List ServerMessage

/-- The hub keeps a mailbox under the id of its connection; `evicted` is history. -/
structure RoomState where
  conns : Dict ConnId Connection
  hub : Registry Topic ConnId Unit
  presence : Registry Topic ConnId Member
  evicted : List (Topic × ConnId)

def RoomState.empty : RoomState := ⟨Dict.empty,Dict.empty,Dict.empty,[]⟩

/-- `connect` and `teardown` are the ends of a socket, `malformed` a frame that does not parse,
`read` a message taken by the writer. -/
inductive RoomAction
  | connect (conn : ConnId) (claimed : Option Text)
  | command (conn : ConnId) (command : ClientMessage) (now : ℤ)
  | malformed (conn : ConnId) (brief : Text)
  | teardown (conn : ConnId)
  | sweep (now : ℤ)
  | read (conn : ConnId)

def invalidMessage : Text := "invalid message: ".toList

def connLabel (conn : ConnId) : Text := "conn-".toList ++ intText conn

def maxIdentityLen : ℕ := 64

def resolveIdentity (claimed : Option Text) (conn : ConnId) : Text :=
  match claimed with
  | none => connLabel conn
  | some claimed =>
    let trimmed := (strip claimed).take maxIdentityLen
    if trimmed.isEmpty then connLabel conn else trimmed

/-! ## Publishing -/

def Connection.deliver (c : Connection) (msg : ServerMessage) : DeliverOutcome × Connection :=
  match c.mailbox.deliver msg with
  | (.delivered,box) => (.delivered,{ c with mailbox := box, put := c.put ++ [msg] })
  | (outcome,box) => (outcome,{ c with mailbox := box })

def deliverTo (msg : ServerMessage) :
    Dict ConnId Connection → List ConnId → Dict ConnId Connection × List ConnId
  | conns, [] => (conns,[])
  | conns, conn :: targets =>
    match conns.get conn with
    | none => deliverTo msg conns targets
    | some c =>
      let rest := deliverTo msg (conns.set conn (c.deliver msg).2) targets
      (rest.1,if (c.deliver msg).1 = .disconnect then conn :: rest.2 else rest.2)

abbrev Publication := Topic × ServerMessage

def RoomState.wedged (s : RoomState) (p : Publication) : List ConnId :=
  (deliverTo p.2 s.conns (s.hub.room p.1).keys).2

def RoomState.publish (s : RoomState) (p : Publication) : RoomState :=
  { s with
    conns := (deliverTo p.2 s.conns (s.hub.room p.1).keys).1
    hub := (s.wedged p).foldl (fun hub conn => hub.remove p.1 conn) s.hub }

/-! ## Commands, teardown and sweep -/

def identities (presence : Registry Topic ConnId Member) (topic : Topic) : List Text :=
  (presence.members topic).map Member.identity

def presenceSnapshot (presence : Registry Topic ConnId Member) (topic : Topic) : Publication :=
  (topic,.presence topic (identities presence topic))

def touch (presence : Registry Topic ConnId Member) (conn : ConnId) (now : ℤ) :
    Registry Topic ConnId Member :=
  Dict.mapValues (fun _ room => room.mapValues
    (fun c m => if c = conn then { m with lastSeen := now } else m)) presence

def dispatch (s : RoomState) (conn : ConnId) (identity : Text) (now : ℤ) :
    ClientMessage → RoomState × List Publication
  | .subscribe topic =>
    let presence := s.presence.put topic conn ⟨identity,now⟩
    ({ s with
        hub := s.hub.put topic conn ()
        presence := presence
        evicted := s.evicted.filter (fun e => e ≠ (topic,conn)) },
      [presenceSnapshot presence topic])
  | .unsubscribe topic =>
    let presence := s.presence.remove topic conn
    ({ s with hub := s.hub.remove topic conn, presence := presence },
      [presenceSnapshot presence topic])
  | .publish topic payload => (s,[(topic,.broadcast topic payload)])
  | .heartbeat => ({ s with presence := touch s.presence conn now },[])

def isExpired (cutoff : ℤ) (m : Member) : Bool := m.lastSeen ≤ cutoff

def sweptRoom (cutoff : ℤ) (room : Dict ConnId Member) : Dict ConnId Member :=
  room.filter (fun _ m => !isExpired cutoff m)

def swept (cutoff : ℤ) (presence : Registry Topic ConnId Member) : Registry Topic ConnId Member :=
  presence.mapRooms (fun _ room => sweptRoom cutoff room)

def sweepChanges (cutoff : ℤ) (presence : Registry Topic ConnId Member) :
    List (Topic × List Member) :=
  (presence.entries.filter (fun e => e.2.entries.any (fun m => isExpired cutoff m.2))).map
    (fun e => (e.1,(sweptRoom cutoff e.2).entries.map Prod.snd))

def sweepEvicted (cutoff : ℤ) (presence : Registry Topic ConnId Member) : List (Topic × ConnId) :=
  presence.entries.flatMap (fun e =>
    (e.2.entries.filter (fun m => isExpired cutoff m.2)).map (fun m => (e.1,m.1)))

section
variable (capacity : ℤ) (policy : OverflowPolicy) (ttl : ℤ)

def newConnection (conn : ConnId) (claimed : Option Text) : Connection :=
  ⟨resolveIdentity claimed conn,.new capacity policy,true,[]⟩

def change (s : RoomState) : RoomAction → Option (RoomState × List Publication)
  | .connect conn claimed =>
    if s.conns.contains conn then none
    else some ({ s with
      conns := s.conns.set conn (newConnection capacity policy conn claimed) },[])
  | .command conn command now =>
    match s.conns.get conn with
    | none => none
    | some c => if c.live then some (dispatch s conn c.identity now command) else none
  | .malformed conn brief =>
    match s.conns.get conn with
    | none => none
    | some c =>
      if c.live then
        some ({ s with
          conns := s.conns.set conn (c.deliver (.error (invalidMessage ++ brief))).2 },[])
      else none
  | .teardown conn =>
    match s.conns.get conn with
    | none => none
    | some c =>
      if c.live then
        some ({ s with
          conns := s.conns.set conn { c with mailbox := c.mailbox.close, live := false }
          hub := s.hub.removeAll conn
          presence := s.presence.removeAll conn },[])
      else none
  | .sweep now =>
    some ({ s with
        presence := swept (now-ttl) s.presence
        evicted := s.evicted ++ sweepEvicted (now-ttl) s.presence },
      (sweepChanges (now-ttl) s.presence).map
        (fun e => (e.1,.presence e.1 (e.2.map Member.identity))))
  | .read conn =>
    match s.conns.get conn with
    | none => none
    | some c => some ({ s with conns := s.conns.set conn { c with mailbox := c.mailbox.pop } },[])

/-- None of this awaits, so that an action is one step. -/
def roomStep (s : RoomState) (a : RoomAction) : Option RoomState :=
  (change capacity policy ttl s a).map (fun r => r.2.foldl RoomState.publish r.1)

end

def roomInitial (s : RoomState) : Prop := s = .empty

def Subscribed (s : RoomState) (topic : Topic) (conn : ConnId) : Prop :=
  s.hub.entry topic conn = some ()

def Listed (s : RoomState) (topic : Topic) (conn : ConnId) : Prop :=
  (s.presence.entry topic conn).isSome = true

/-! ## What an action does -/

variable {s t : RoomState} {a : RoomAction}

section
variable (capacity : ℤ) (policy : OverflowPolicy) (ttl : ℤ)

inductive RoomChange (s : RoomState) : RoomAction → RoomState → List Publication → Prop
  | connected (conn : ConnId) (claimed : Option Text) (hfree : s.conns.get conn = none) :
      RoomChange s (.connect conn claimed)
        { s with conns := s.conns.set conn (newConnection capacity policy conn claimed) } []
  | dispatched (conn : ConnId) (command : ClientMessage) (now : ℤ) (c : Connection)
      (hc : s.conns.get conn = some c) (hlive : c.live = true) :
      RoomChange s (.command conn command now) (dispatch s conn c.identity now command).1
        (dispatch s conn c.identity now command).2
  | refused (conn : ConnId) (brief : Text) (c : Connection) (hc : s.conns.get conn = some c) :
      RoomChange s (.malformed conn brief)
        { s with conns := s.conns.set conn (c.deliver (.error (invalidMessage ++ brief))).2 } []
  | tornDown (conn : ConnId) (c : Connection) (hc : s.conns.get conn = some c) :
      RoomChange s (.teardown conn)
        { s with
          conns := s.conns.set conn { c with mailbox := c.mailbox.close, live := false }
          hub := s.hub.removeAll conn
          presence := s.presence.removeAll conn } []
  | swept (now : ℤ) :
      RoomChange s (.sweep now)
        { s with
          presence := swept (now-ttl) s.presence
          evicted := s.evicted ++ sweepEvicted (now-ttl) s.presence }
        ((sweepChanges (now-ttl) s.presence).map
          (fun e => (e.1,.presence e.1 (e.2.map Member.identity))))
  | read (conn : ConnId) (c : Connection) (hc : s.conns.get conn = some c) :
      RoomChange s (.read conn)
        { s with conns := s.conns.set conn { c with mailbox := c.mailbox.pop } } []

theorem change_spec {ps : List Publication}
    (h : change capacity policy ttl s a = some (t,ps)) :
    RoomChange capacity policy ttl s a t ps := by
  cases a with
  | connect conn claimed =>
    simp only [change] at h
    split_ifs at h with hused
    cases h
    refine .connected conn claimed ?_
    simpa [Dict.contains] using hused
  | command conn command now =>
    simp only [change] at h
    split at h
    · cases h
    rename_i c hc
    split_ifs at h with hlive
    obtain ⟨rfl,rfl⟩ := Prod.ext_iff.mp (some.inj h)
    exact .dispatched conn command now c hc hlive
  | malformed conn brief =>
    simp only [change] at h
    split at h
    · cases h
    rename_i c hc
    split_ifs at h
    cases h
    exact .refused conn brief c hc
  | teardown conn =>
    simp only [change] at h
    split at h
    · cases h
    rename_i c hc
    split_ifs at h
    cases h
    exact .tornDown conn c hc
  | sweep now =>
    cases h
    exact .swept now
  | read conn =>
    simp only [change] at h
    split at h
    · cases h
    rename_i c hc
    cases h
    exact .read conn c hc

end

/-! ## What publishing does -/

variable (msg : ServerMessage)

theorem deliverTo_get (conns : Dict ConnId Connection)
    {targets : List ConnId} (hn : targets.Nodup) (k : ConnId) :
    (deliverTo msg conns targets).1.get k =
      if k ∈ targets then (conns.get k).map (fun c => (c.deliver msg).2) else conns.get k := by
  induction targets generalizing conns with
  | nil => rfl
  | cons conn targets ih =>
    obtain ⟨hnew,hn⟩ := nodup_cons.mp hn
    unfold deliverTo
    cases hget : conns.get conn with
    | none =>
      rw [ih conns hn]
      by_cases hk : k = conn
      · subst hk
        simp [hnew, hget]
      · simp [hk]
    | some c =>
      dsimp only
      rw [ih _ hn]
      by_cases hk : k = conn
      · subst hk
        simp [hnew, hget]
      · simp [hk, Dict.get_set_ne]

theorem mem_deliverTo (conns : Dict ConnId Connection)
    {targets : List ConnId} (hn : targets.Nodup) (k : ConnId) :
    k ∈ (deliverTo msg conns targets).2 ↔
      k ∈ targets ∧ ∃ c, conns.get k = some c ∧ (c.deliver msg).1 = .disconnect := by
  induction targets generalizing conns with
  | nil => simp [deliverTo]
  | cons conn targets ih =>
    obtain ⟨hnew,hn⟩ := nodup_cons.mp hn
    unfold deliverTo
    cases hget : conns.get conn with
    | none =>
      rw [ih conns hn, mem_cons]
      constructor
      · rintro ⟨hm,hc⟩
        exact ⟨Or.inr hm,hc⟩
      · rintro ⟨rfl | hm,c,hc,ho⟩
        · rw [hget] at hc
          cases hc
        · exact ⟨hm,c,hc,ho⟩
    | some c =>
      dsimp only
      have hrest := ih (conns.set conn (c.deliver msg).2) hn
      by_cases hk : k = conn
      · subst hk
        have hnot : k ∉ (deliverTo msg (conns.set k (c.deliver msg).2) targets).2 :=
          fun h => hnew (hrest.mp h).1
        split_ifs with ho
        · simp [hget, ho]
        · simp [hget, ho, hnot]
      · rw [Dict.get_set_ne hk] at hrest
        split_ifs
        · simp [hk, hrest]
        · simp [hk, hrest]

theorem keys_nodup (s : RoomState) (topic : Topic) : (s.hub.room topic).keys.Nodup :=
  (s.hub.room topic).nodup

theorem mem_keys_iff (s : RoomState) (topic : Topic) (conn : ConnId) :
    conn ∈ (s.hub.room topic).keys ↔ Subscribed s topic conn := by
  rw [Subscribed, Registry.entry, Dict.get_eq_some_iff, Dict.keys, List.mem_map]
  constructor
  · rintro ⟨e,he,rfl⟩
    exact he
  · intro h
    exact ⟨_,h,rfl⟩

theorem mem_wedged_iff (s : RoomState) (p : Publication) (conn : ConnId) :
    conn ∈ s.wedged p ↔ Subscribed s p.1 conn ∧
      ∃ c, s.conns.get conn = some c ∧ (c.deliver p.2).1 = .disconnect := by
  rw [RoomState.wedged, mem_deliverTo _ _ (keys_nodup s p.1), mem_keys_iff]

theorem entry_foldl_remove (hub : Registry Topic ConnId Unit) (topic topic' : Topic)
    (gone : List ConnId) (conn : ConnId) :
    (gone.foldl (fun hub c => hub.remove topic c) hub).entry topic' conn =
      if topic' = topic ∧ conn ∈ gone then none else hub.entry topic' conn := by
  induction gone generalizing hub with
  | nil => simp
  | cons c gone ih =>
    rw [foldl_cons, ih, Registry.entry_remove]
    by_cases ht : topic' = topic
    · by_cases hc : conn = c
      · simp [ht, hc]
      · simp [ht, hc]
    · simp [ht]

theorem subscribed_publish (s : RoomState) (p : Publication) (topic : Topic) (conn : ConnId) :
    Subscribed (s.publish p) topic conn ↔
      Subscribed s topic conn ∧ ¬ (topic = p.1 ∧ conn ∈ s.wedged p) := by
  change (foldl _ s.hub (s.wedged p)).entry topic conn = some () ↔ _
  rw [entry_foldl_remove]
  by_cases h : topic = p.1 ∧ conn ∈ s.wedged p
  · simp [h]
  · rw [if_neg h]
    exact ⟨fun hs => ⟨hs,h⟩,fun hs => hs.1⟩

def allAdmitted (fine : RoomState → Publication → Bool) : RoomState → List Publication → Bool
  | _, [] => true
  | s, p :: ps => fine s p && allAdmitted fine (s.publish p) ps

theorem foldl_publish_invariant (fine : RoomState → Publication → Bool) (I : RoomState → Prop)
    (hI : ∀ s p, I s → fine s p = true → I (s.publish p)) (ps : List Publication)
    (s : RoomState) (hs : I s) (hok : allAdmitted fine s ps = true) :
    I (ps.foldl RoomState.publish s) := by
  induction ps generalizing s with
  | nil => exact hs
  | cons p ps ih =>
    rw [allAdmitted, Bool.and_eq_true] at hok
    exact ih (s.publish p) (hI s p hs hok.1) hok.2

/-! ## Rooms and subscriptions -/

/-- The publication reaps nobody whom presence lists for the topic. -/
def reapsUnlisted (s : RoomState) (p : Publication) : Bool :=
  (s.wedged p).all (fun conn => (s.presence.entry p.1 conn).isNone)

/-- A heartbeat does not come from a connection that a sweep has evicted from a topic it is
still subscribed to. -/
def heartbeatInTime (s : RoomState) : RoomAction → Bool
  | .command conn .heartbeat _ =>
    s.evicted.all (fun e => e.2 ≠ conn || (s.hub.entry e.1 conn).isNone)
  | _ => true

section
variable (capacity : ℤ) (policy : OverflowPolicy) (ttl : ℤ)

def roomsKept (s : RoomState) (a : RoomAction) : Bool :=
  heartbeatInTime s a &&
    match change capacity policy ttl s a with
    | none => true
    | some r => allAdmitted reapsUnlisted r.1 r.2

end

structure Agree (s : RoomState) : Prop where
  listed : ∀ topic conn, Listed s topic conn → Subscribed s topic conn
  subscribed : ∀ topic conn, Subscribed s topic conn →
    Listed s topic conn ∨ (topic,conn) ∈ s.evicted

theorem agree_publish (s : RoomState) (p : Publication) (hinv : Agree s)
    (hok : reapsUnlisted s p = true) : Agree (s.publish p) := by
  constructor
  · intro topic conn hl
    rw [subscribed_publish]
    refine ⟨hinv.listed topic conn hl,?_⟩
    rintro ⟨rfl,hw⟩
    have hnone := List.all_eq_true.mp hok conn hw
    rw [isNone_iff_eq_none] at hnone
    have hl : (s.presence.entry p.1 conn).isSome = true := hl
    rw [hnone] at hl
    cases hl
  · intro topic conn hsub
    exact hinv.subscribed topic conn ((subscribed_publish s p topic conn).mp hsub).1

theorem agree_conns {conns : Dict ConnId Connection} (hinv : Agree s) :
    Agree { s with conns := conns } := ⟨hinv.listed,hinv.subscribed⟩

variable (conn : ConnId)

theorem agree_subscribe (topic : Topic) {m : Member}
    (hinv : Agree s) :
    Agree { s with
      hub := s.hub.put topic conn ()
      presence := s.presence.put topic conn m
      evicted := s.evicted.filter (fun e => e ≠ (topic,conn)) } := by
  constructor
  · intro topic' conn' hl
    simp only [Listed, Subscribed, Registry.entry_put] at hl ⊢
    split_ifs at hl ⊢ with h
    · rfl
    · exact hinv.listed topic' conn' hl
  · intro topic' conn' hsub
    simp only [Listed, Subscribed, Registry.entry_put] at hsub ⊢
    split_ifs at hsub ⊢ with h
    · exact Or.inl rfl
    · rcases hinv.subscribed topic' conn' hsub with hl | he
      · exact Or.inl hl
      · right
        refine mem_filter.mpr ⟨he,decide_eq_true (fun heq => h ?_)⟩
        exact ⟨congrArg Prod.fst heq,congrArg Prod.snd heq⟩

theorem agree_unsubscribe (topic : Topic) (hinv : Agree s) :
    Agree { s with
      hub := s.hub.remove topic conn
      presence := s.presence.remove topic conn } := by
  constructor
  · intro topic' conn' hl
    simp only [Listed, Subscribed, Registry.entry_remove] at hl ⊢
    split_ifs at hl ⊢ with h
    · cases hl
    · exact hinv.listed topic' conn' hl
  · intro topic' conn' hsub
    simp only [Listed, Subscribed, Registry.entry_remove] at hsub ⊢
    split_ifs at hsub ⊢ with h
    exact hinv.subscribed topic' conn' hsub

theorem agree_teardown (hinv : Agree s) :
    Agree { s with
      hub := s.hub.removeAll conn
      presence := s.presence.removeAll conn } := by
  constructor
  · intro topic' conn' hl
    simp only [Listed, Subscribed, Registry.entry_removeAll] at hl ⊢
    split_ifs at hl ⊢ with h
    · cases hl
    · exact hinv.listed topic' conn' hl
  · intro topic' conn' hsub
    simp only [Listed, Subscribed, Registry.entry_removeAll] at hsub ⊢
    split_ifs at hsub ⊢ with h
    exact hinv.subscribed topic' conn' hsub

theorem entry_touch {presence : Registry Topic ConnId Member} {conn : ConnId} {now : ℤ}
    {topic : Topic} {conn' : ConnId} :
    ((touch presence conn now).entry topic conn').isSome = (presence.entry topic conn').isSome := by
  rw [Registry.entry, touch, Registry.room_mapValues _ (fun _ => rfl), Dict.get_mapValues,
    isSome_map, Registry.entry]

theorem entry_swept (cutoff : ℤ) (presence : Registry Topic ConnId Member) (topic : Topic)
    (conn : ConnId) :
    (swept cutoff presence).entry topic conn =
      (presence.entry topic conn).filter (fun m => !isExpired cutoff m) := by
  rw [Registry.entry, swept, Registry.room_mapRooms _ (fun _ => rfl), sweptRoom, Dict.get_filter,
    Registry.entry]

theorem mem_sweepEvicted {cutoff : ℤ} {presence : Registry Topic ConnId Member} {topic : Topic}
    {conn : ConnId} {m : Member} (hm : presence.entry topic conn = some m)
    (he : isExpired cutoff m = true) : (topic,conn) ∈ sweepEvicted cutoff presence := by
  rw [Registry.entry, Registry.room] at hm
  cases hroom : presence.get topic with
  | none =>
    rw [hroom] at hm
    cases hm
  | some room =>
    rw [hroom, getD_some, Dict.get_eq_some_iff] at hm
    rw [sweepEvicted, mem_flatMap]
    refine ⟨(topic,room),Dict.get_eq_some_iff.mp hroom,?_⟩
    rw [List.mem_map]
    exact ⟨(conn,m),mem_filter.mpr ⟨hm,he⟩,rfl⟩

theorem agree_touch (now : ℤ) (hinv : Agree s) :
    Agree { s with presence := touch s.presence conn now } := by
  constructor
  · intro topic conn' hl
    exact hinv.listed topic conn' ((entry_touch).symm.trans hl)
  · intro topic conn' hsub
    rcases hinv.subscribed topic conn' hsub with hl | he
    · exact Or.inl ((entry_touch).trans hl)
    · exact Or.inr he

theorem agree_sweep (cutoff : ℤ) (hinv : Agree s) :
    Agree { s with
      presence := swept cutoff s.presence
      evicted := s.evicted ++ sweepEvicted cutoff s.presence } := by
  constructor
  · intro topic conn hl
    apply hinv.listed topic conn
    simp only [Listed, entry_swept] at hl ⊢
    exact isSome_of_isSome_filter _ _ hl
  · intro topic conn hsub
    simp only [Listed, entry_swept]
    rcases hinv.subscribed topic conn hsub with hl | he
    · obtain ⟨m,hm⟩ := isSome_iff_exists.mp hl
      rw [hm]
      cases hexp : isExpired cutoff m with
      | true => exact Or.inr (mem_append_right _ (mem_sweepEvicted hm hexp))
      | false => exact Or.inl (by rw [filter_some_pos (by simp [hexp])]; rfl)
    · exact Or.inr (mem_append_left _ he)

section
variable (capacity : ℤ) (policy : OverflowPolicy) (ttl : ℤ)

theorem agree_change {ps : List Publication} (hinv : Agree s)
    (h : RoomChange capacity policy ttl s a t ps) : Agree t := by
  cases h with
  | connected conn claimed hfree | refused conn brief c hc | read conn c hc =>
    exact agree_conns hinv
  | dispatched conn command now c hc hlive =>
    cases command with
    | subscribe topic => exact agree_subscribe conn topic hinv
    | unsubscribe topic => exact agree_unsubscribe conn topic hinv
    | publish topic payload => exact hinv
    | heartbeat => exact agree_touch conn now hinv
  | tornDown conn c hc => exact agree_conns (agree_teardown conn hinv)
  | swept now => exact agree_sweep (now-ttl) hinv

theorem agree_step (hinv : Agree s)
    (hok : roomsKept capacity policy ttl s a = true)
    (h : roomStep capacity policy ttl s a = some t) : Agree t := by
  obtain ⟨⟨u,ps⟩,hchange,rfl⟩ := map_eq_some_iff.mp h
  rw [roomsKept, hchange, Bool.and_eq_true] at hok
  exact foldl_publish_invariant reapsUnlisted Agree agree_publish ps u
    (agree_change capacity policy ttl hinv (change_spec capacity policy ttl hchange)) hok.2

/-- If publications reap nobody listed and no heartbeat comes after an eviction, every listed
connection is subscribed and heartbeats keep their connection listed. -/
theorem rooms_agree (s : RoomState)
    (hs : Reachable roomInitial (roomStep capacity policy ttl)
      (fun u a => roomsKept capacity policy ttl u a = true) s) :
    (∀ topic conn, Listed s topic conn → Subscribed s topic conn) ∧
    ∀ conn now t, roomStep capacity policy ttl s (.command conn .heartbeat now) = some t →
      roomsKept capacity policy ttl s (.command conn .heartbeat now) = true →
      ∀ topic, Subscribed t topic conn → Listed t topic conn := by
  have hinv : Agree s := by
    apply reachable_invariant Agree ?_ ?_ s hs
    · rintro u rfl
      exact ⟨fun _ _ h => (nomatch h),fun _ _ h => (nomatch h)⟩
    · intro u v a hu hok hstep
      exact agree_step capacity policy ttl hu hok hstep
  refine ⟨hinv.listed,?_⟩
  intro conn now t hstep hok topic hsub
  have ht := agree_step capacity policy ttl hinv hok hstep
  rw [roomsKept, Bool.and_eq_true] at hok
  rcases ht.subscribed topic conn hsub with hl | he
  · exact hl
  -- a heartbeat changes neither the subscriptions nor the history of evictions
  have hsame : t.hub = s.hub ∧ t.evicted = s.evicted := by
    simp only [roomStep, change] at hstep
    split at hstep
    · cases hstep
    split_ifs at hstep
    · cases hstep
      exact ⟨rfl,rfl⟩
    · cases hstep
  have hgone := List.all_eq_true.mp hok.1 (topic,conn) (hsame.2 ▸ he)
  simp only [ne_eq, not_true_eq_false, decide_false, Bool.false_or, isNone_iff_eq_none] at hgone
  rw [Subscribed, hsame.1, hgone] at hsub
  cases hsub

end

def lobby : Topic := "lobby".toList

def lobbyActions : List RoomAction :=
  [.connect 1 none, .connect 2 none, .command 1 (.subscribe lobby) 0,
    .command 2 (.subscribe lobby) 5, .sweep 10]

/-- The other one's heartbeat finds it listed. -/
theorem rooms_agree_lobby : ∃ s t,
    Reachable roomInitial (roomStep 8 .disconnect 10)
      (fun u a => roomsKept 8 .disconnect 10 u a = true) s ∧
    roomStep 8 .disconnect 10 s (.command 2 .heartbeat 12) = some t ∧
    Subscribed t lobby 1 ∧ ¬ Listed t lobby 1 ∧ Subscribed t lobby 2 ∧ Listed t lobby 2 := by
  obtain ⟨s,hs,hok,t,ht,hone,htwo,hnone⟩ := reachable_of_checkedRun roomInitial
    (roomStep 8 .disconnect 10) (roomsKept 8 .disconnect 10)
    (P := fun s => roomsKept 8 .disconnect 10 s (.command 2 .heartbeat 12) = true ∧
      ∃ t, roomStep 8 .disconnect 10 s (.command 2 .heartbeat 12) = some t ∧
        t.hub.entry lobby 1 = some () ∧ t.hub.entry lobby 2 = some () ∧
        t.presence.entry lobby 1 = none)
    lobbyActions .empty rfl (by decide +kernel)
  refine ⟨s,t,hs,ht,hone,?_,htwo,?_⟩
  · intro hl
    rw [Listed, hnone] at hl
    cases hl
  · exact (rooms_agree 8 .disconnect 10 s hs).2 2 12 t ht hok lobby htwo

/-- `disconnect` costs the subscription and not the place; a late heartbeat does not bring it back.
-/
theorem rooms_disagree :
    (∃ s, Reachable roomInitial (roomStep 1 .disconnect 10) anyStep s ∧
      Listed s lobby 1 ∧ ¬ Subscribed s lobby 1) ∧
    ∃ s t, Reachable roomInitial (roomStep 8 .disconnect 10) anyStep s ∧
      roomStep 8 .disconnect 10 s (.command 1 .heartbeat 12) = some t ∧
      Subscribed t lobby 1 ∧ ¬ Listed t lobby 1 := by
  constructor
  · exact reachable_of_run roomInitial (roomStep 1 .disconnect 10)
      (P := fun s => (s.presence.entry lobby 1).isSome = true ∧ s.hub.entry lobby 1 ≠ some ())
      [.connect 1 none, .connect 2 none, .command 1 (.subscribe lobby) 0,
        .command 2 (.subscribe lobby) 5] .empty rfl (by decide +kernel)
  · obtain ⟨s,hs,t,ht,hone,hnone⟩ := reachable_of_run roomInitial (roomStep 8 .disconnect 10)
      (P := fun s => ∃ t, roomStep 8 .disconnect 10 s (.command 1 .heartbeat 12) = some t ∧
        t.hub.entry lobby 1 = some () ∧ ¬ (t.presence.entry lobby 1).isSome = true)
      lobbyActions .empty rfl (by decide +kernel)
    exact ⟨s,t,hs,ht,hone,hnone⟩

end BackendGauntlet.Pubsub
