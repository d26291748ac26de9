import BackendGauntlet.Transition

/-! `Broker.create_topic` for one topic name, whose directories are the only record of it. -/
namespace BackendGauntlet.MessageBroker

open Transition List Option

inductive TopicError
  | invalidRequest
  | alreadyExists
deriving DecidableEq

/-- `directory` is the number of partition directories in the directory of the topic, `topic` the
entry in `_topics` and `creating` the call that holds the lock. `returned` is history. -/
structure TopicState where
  directory : Option ℕ
  topic : Option ℕ
  creating : Option ℕ
  returned : Option ℕ
deriving DecidableEq

def createError (s : TopicState) (count : ℕ) : Option TopicError :=
  if s.topic.isSome then some .alreadyExists
  else if count < 1 then some .invalidRequest
  else if s.directory.isSome then some .alreadyExists
  else none

inductive TopicAction
  | create (count : ℕ)
  | mkdir
  | fail
  | restart

/-- `_open_partitions` goes on by one `mkdir`: of the topic, as the parent of its first partition,
or of the next partition. Behind the last one `create_topic` returns. -/
def makeNext (s : TopicState) (count : ℕ) : TopicState :=
  match s.directory with
  | none => { s with directory := some 0 }
  | some made =>
    if made < count then { s with directory := some (made+1) }
    else { s with topic := some count, creating := none, returned := some count }

/-- A crash may come at any moment; `Broker.open` follows it. -/
def topicStep (s : TopicState) : TopicAction → Option TopicState
  | .create count =>
    if s.creating.isSome then none
    else if (createError s count).isSome then some s
    else some { s with creating := some count }
  | .mkdir => s.creating.map (makeNext s)
  | .fail => s.creating.map (fun _ => { s with creating := none })
  | .restart => some { s with
      directory := s.directory.map (max 1)
      topic := s.directory.map (max 1)
      creating := none }

/-- A creation ends by an exception or a crash only before it has made a directory. -/
def failsClean (s : TopicState) : TopicAction → Bool
  | .fail => s.creating.isNone || s.directory.isNone
  | .restart => s.creating.isNone || s.directory.isNone
  | _ => true

def noTopic : TopicState := ⟨none,none,none,none⟩

structure TopicInv (s : TopicState) : Prop where
  returned : s.returned = s.topic
  positive : ∀ n, s.topic = some n → 1 ≤ n
  idle : s.creating = none → s.directory = s.topic
  creating : ∀ count, s.creating = some count →
    s.topic = none ∧ 1 ≤ count ∧ ∀ made, s.directory = some made → made ≤ count

theorem createError_eq_none_iff {s : TopicState} {count : ℕ} :
    createError s count = none ↔ s.topic = none ∧ 1 ≤ count ∧ s.directory = none := by
  unfold createError
  split_ifs with htopic hcount hdir
  · simp [ne_none_iff_isSome.mpr htopic]
  · simp only [false_iff]
    omega
  · simp [ne_none_iff_isSome.mpr hdir]
  · exact iff_of_true rfl
      ⟨not_isSome_iff_eq_none.mp htopic,by omega,not_isSome_iff_eq_none.mp hdir⟩

theorem topicInv_makeNext {s : TopicState} {count : ℕ} (h : TopicInv s)
    (hc : s.creating = some count) : TopicInv (makeNext s count) := by
  obtain ⟨hnone,hcount,hmade⟩ := h.creating count hc
  have hset (k : ℕ) (hk : k ≤ count) : TopicInv { s with directory := some k } := by
    refine ⟨h.returned,h.positive,fun hidle => ?_,fun n hn => ?_⟩
    · rw [hc] at hidle
      cases hidle
    · obtain rfl : count = n := some.inj (hc.symm.trans hn)
      exact ⟨hnone,hcount,fun made hm => some.inj hm ▸ hk⟩
  unfold makeNext
  cases hd : s.directory with
  | none => exact hset 0 (Nat.zero_le _)
  | some made =>
    by_cases hlt : made < count
    · simp only [hlt, if_true]
      exact hset (made+1) hlt
    · obtain rfl : made = count := Nat.le_antisymm (hmade made hd) (Nat.le_of_not_lt hlt)
      simp only [hlt, if_false]
      exact ⟨rfl,fun n hn => some.inj hn ▸ hcount,fun _ => rfl,by simp⟩

theorem topicInv_step {s t : TopicState} {a : TopicAction} (h : TopicInv s)
    (hok : failsClean s a = true) (ht : topicStep s a = some t) : TopicInv t := by
  -- A creation that has made no directory leaves nothing behind.
  have hclean (h0 : (s.creating.isNone || s.directory.isNone) = true) : s.directory = s.topic := by
    cases hc : s.creating with
    | none => exact h.idle hc
    | some count =>
      rw [hc] at h0
      rw [(h.creating count hc).1]
      exact isNone_iff_eq_none.mp h0
  cases a with
  | create count =>
    simp only [topicStep] at ht
    split_ifs at ht with hlock herr
    · cases ht
      exact h
    · cases ht
      rw [not_isSome_iff_eq_none] at hlock herr
      obtain ⟨htopic,hcount,hdir⟩ := createError_eq_none_iff.mp herr
      refine ⟨h.returned,h.positive,by simp,fun n hn => ?_⟩
      exact ⟨htopic,some.inj hn ▸ hcount,fun made hm => by simp [hdir] at hm⟩
  | mkdir =>
    obtain ⟨count,hc,rfl⟩ := map_eq_some_iff.mp ht
    exact topicInv_makeNext h hc
  | fail =>
    obtain ⟨_,_,rfl⟩ := map_eq_some_iff.mp ht
    exact ⟨h.returned,h.positive,fun _ => hclean hok,by simp⟩
  | restart =>
    cases ht
    have hmax : s.directory.map (max 1) = s.topic := by
      rw [hclean hok]
      cases htopic : s.topic with
      | none => rfl
      | some n => rw [map_some, Nat.max_eq_right (h.positive n htopic)]
    rw [hmax]
    exact ⟨h.returned,h.positive,fun _ => rfl,by simp⟩

/-- A creation that nothing interrupts makes the directories that are missing and returns. -/
theorem run_mkdir {left : ℕ} {s : TopicState} {count made : ℕ} (hc : s.creating = some count)
    (hd : s.directory = some made) (hleft : made+left = count) :
    ∃ t, run topicStep s (replicate (left+1) .mkdir) = some t ∧ t.topic = some count := by
  induction left generalizing s made with
  | zero =>
    have hlt : ¬ made < count := by omega
    exact ⟨{ s with topic := some count, creating := none, returned := some count },
      by simp [run, topicStep, hc, makeNext, hd, hlt],rfl⟩
  | succ left ih =>
    have hlt : made < count := by omega
    obtain ⟨t,ht,htopic⟩ := ih (s := { s with directory := some (made+1) }) hc rfl (by omega)
    refine ⟨t,?_,htopic⟩
    rw [replicate_succ, run, topicStep, hc]
    simpa [makeNext, hd, hlt] using ht

/-- If creations fail or crash only before their first directory: what was returned is there with
its partitions after any restarts, and of the rest there is nothing, so that a retry succeeds. -/
theorem topic_creation_all_or_nothing (s : TopicState)
    (hs : Reachable (fun s => s = noTopic) topicStep (fun s a => failsClean s a = true) s) :
    (∀ n, s.returned = some n → s.topic = some n) ∧
    (s.creating = none → s.returned = none → s.topic = none ∧ ∀ count, 1 ≤ count →
      ∃ t, run topicStep s (.create count :: replicate (count+2) .mkdir) = some t ∧
        t.topic = some count) := by
  have hempty (s : TopicState) (hs : s = noTopic) : TopicInv s :=
    hs ▸ ⟨rfl,by simp [noTopic],fun _ => rfl,by simp [noTopic]⟩
  have h := reachable_invariant TopicInv hempty (fun _ _ _ => topicInv_step) s hs
  rw [h.returned]
  refine ⟨fun n hn => hn,fun hidle htopic => ⟨htopic,fun count hcount => ?_⟩⟩
  have hdir := (h.idle hidle).trans htopic
  have hok := createError_eq_none_iff.mpr ⟨htopic,hcount,hdir⟩
  obtain ⟨t,ht,hdone⟩ := run_mkdir
    (s := { s with creating := some count, directory := some 0 }) rfl rfl (Nat.zero_add count)
  refine ⟨t,?_,hdone⟩
  rw [run, topicStep, replicate_succ]
  simpa [hidle, hok, run, topicStep, makeNext, hdir] using ht

/-- One creation fails at once, the next one completes and the broker restarts. -/
theorem topic_after_failure :
    ∃ s, (Reachable (fun s => s = noTopic) topicStep (fun s a => failsClean s a = true) s ∧
      decide (s = ⟨some 2,some 2,none,some 2⟩) = true) ∧
      ∀ n, s.returned = some n → s.topic = some n := by
  refine Exists.imp (fun s hs => ⟨hs,(topic_creation_all_or_nothing s hs.1).1⟩) ?_
  exact reachable_of_checkedRun _ _ _
    [.create 3, .fail, .create 2, .mkdir, .mkdir, .mkdir, .mkdir, .restart] noTopic rfl (by decide)

/-- A creation of three partitions that ends after the first: a retry is refused, and a restart
adopts a topic of one. -/
theorem broken_creation_adopted :
    (run topicStep noTopic [.create 3, .mkdir, .mkdir, .fail]).map (fun s => createError s 3) =
      some (some .alreadyExists) ∧
    run topicStep noTopic [.create 3, .mkdir, .mkdir, .restart] =
      some ⟨some 1,some 1,none,none⟩ := by
  decide

end BackendGauntlet.MessageBroker
