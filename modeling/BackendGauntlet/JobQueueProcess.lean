import Mathlib.Data.List.TakeWhile
import BackendGauntlet.PyText
import BackendGauntlet.Transition
import BackendGauntlet.Utf8

/-! The child of an `exec` or `shell` job and the task that runs it, one step at a time. -/
namespace BackendGauntlet.JobQueue

open PyText Option

def streamLimit : ℕ := 65536

def maxStderr : ℕ := 2000

def maxLogLines : ℕ := 1000

def stderrTailLines : ℕ := 20

inductive Stream
  | out
  | err
deriving DecidableEq

def Stream.tag : Stream → Text
  | .out => "out".toList
  | .err => "err".toList

inductive ProcessError
  | jobFailed (message : Text)
  | valueError
  | osError
  | cancelledError
deriving DecidableEq

structure Pipe where
  buffer : List ℕ
  eof : Bool
deriving DecidableEq

inductive LineRead
  | line (raw rest : List ℕ)
  | finished
  | blocked
  | tooLong
deriving DecidableEq

def Pipe.readline (p : Pipe) : LineRead :=
  let line := p.buffer.takeWhile (fun b => b ≠ 10)
  if streamLimit < line.length then .tooLong
  else
    match p.buffer.dropWhile (fun b => b ≠ 10) with
    | newline :: rest => .line (line ++ [newline]) rest
    | [] => if p.eof then if line = [] then .finished else .line line [] else .blocked

inductive Pump
  | running
  | done
  | failed
  | cancelled
deriving DecidableEq

inductive Stage
  | opening
  | pumping
  | waiting
  | draining
  | killing
  | ended (result : Except ProcessError Unit)
deriving DecidableEq

/-- One attempt. `failure` is the first error of a pump, which `gather` propagates. -/
structure Attempt where
  stage : Stage
  returncode : Option ℤ
  killed : Bool
  stdout : Pipe
  stderr : Pipe
  outPump : Pump
  errPump : Pump
  failure : Option ProcessError
  written : ℕ
  out : Text
  tail : List Text
deriving DecidableEq

def spawned : Attempt where
  stage := .opening
  returncode := none
  killed := false
  stdout := ⟨[],false⟩
  stderr := ⟨[],false⟩
  outPump := .running
  errPump := .running
  failure := none
  written := 0
  out := []
  tail := []

def Attempt.pipe (s : Attempt) : Stream → Pipe
  | .out => s.stdout
  | .err => s.stderr

def Attempt.setPipe (s : Attempt) (p : Pipe) : Stream → Attempt
  | .out => { s with stdout := p }
  | .err => { s with stderr := p }

def Attempt.pump (s : Attempt) : Stream → Pump
  | .out => s.outPump
  | .err => s.errPump

def Attempt.setPump (s : Attempt) (p : Pump) : Stream → Attempt
  | .out => { s with outPump := p }
  | .err => { s with errPump := p }

def decodeLine (raw : List ℕ) : Text :=
  (lstrip '\n' (Utf8.decodeReplace raw).reverse).reverse

def Attempt.logLine (s : Attempt) (stream : Stream) (line : Text) : Attempt :=
  let out :=
    if s.written < maxLogLines then s.out ++ ('[' :: stream.tag ++ "] ".toList ++ line ++ ['\n'])
    else if s.written = maxLogLines then
      s.out ++ ("… truncated at ".toList ++ intText maxLogLines ++ " lines\n".toList)
    else s.out
  -- the tail is a deque of bounded length, and only stderr has one
  let lines := s.tail ++ [line]
  let tail := if stream = .err then lines.drop (lines.length-stderrTailLines) else s.tail
  { s with out := out, written := s.written+1, tail := tail }

def exitMessage (returncode : ℤ) (tail : List Text) : Text :=
  let message := strip (['\n'].intercalate tail)
  let message :=
    if maxStderr < message.length then message.take maxStderr ++ "…(truncated)".toList
    else message
  let code := if 0 ≤ returncode then intText returncode else "signal".toList
  "exit ".toList ++ code ++ ": ".toList ++ message

/-- `_kill_process_group` up to its wait. A child that was reaped already has no group. -/
def Attempt.kill (s : Attempt) : Attempt :=
  { s with stage := .killing, killed := s.killed || s.returncode.isNone }

def Attempt.fail (s : Attempt) (e : ProcessError) : Attempt := { s with stage := .ended (.error e) }

def cancelPump (p : Pump) : Pump := if p = .running then .cancelled else p

inductive ProcessAction
  | write (stream : Stream) (data : List ℕ)
  | close (stream : Stream)
  | exit (returncode : ℤ)
  | openLog (ok : Bool)
  | pump (stream : Stream) (ok : Bool)
  | resume
  | timeout
  | grace
  | cancel

variable {t : Attempt}

section
variable (timeout : Text)

def timedOut : ProcessError := .jobFailed ("timed out after ".toList ++ timeout ++ ['s'])

def Attempt.resume (s : Attempt) : Option Attempt :=
  match s.stage with
  | .pumping =>
    match s.failure with
    -- neither the timeout nor the file of the log catches it
    | some e => some (s.fail e)
    | none =>
      if s.outPump = .done ∧ s.errPump = .done then some { s with stage := .waiting } else none
  | .waiting =>
    match s.returncode with
    | none => none
    | some 0 => some { s with stage := .ended (.ok ()) }
    | some code => some (s.fail (.jobFailed (exitMessage code s.tail)))
  | .draining => some s.kill
  | .killing => if s.returncode.isSome then some (s.fail (timedOut timeout)) else none
  | _ => none

def Attempt.expire (s : Attempt) : Attempt :=
  match s.failure with
  -- the second `await pumps` raises what the first one was about to
  | some e => s.fail e
  | none =>
    { s with
      stage := .draining
      outPump := cancelPump s.outPump
      errPump := cancelPump s.errPump }

def Attempt.cancel (s : Attempt) : Option Attempt :=
  match s.stage with
  | .pumping => some (s.fail .cancelledError)
  | .waiting => some (s.fail .cancelledError)
  -- `contextlib.suppress` takes this one for that of the pumps
  | .draining => some s.kill
  | .killing => some (s.fail .cancelledError)
  | _ => none

def Attempt.turn (s : Attempt) (stream : Stream) (ok : Bool) : Option Attempt :=
  if s.stage = .pumping ∧ s.pump stream = .running then
    match (s.pipe stream).readline with
    | .blocked => none
    | .finished => some (s.setPump .done stream)
    | .tooLong =>
      some { s.setPump .failed stream with failure := s.failure <|> some .valueError }
    | .line raw rest =>
      if ok then
        some ((s.setPipe ⟨rest,(s.pipe stream).eof⟩ stream).logLine stream (decodeLine raw))
      else some { s.setPump .failed stream with failure := s.failure <|> some .osError }
  else none

def processStep (s : Attempt) : ProcessAction → Option Attempt
  | .write stream data =>
    if (s.pipe stream).eof then none
    else some (s.setPipe ⟨(s.pipe stream).buffer ++ data,false⟩ stream)
  | .close stream => some (s.setPipe ⟨(s.pipe stream).buffer,true⟩ stream)
  | .exit code => if s.returncode.isNone then some { s with returncode := some code } else none
  | .openLog ok =>
    if s.stage = .opening then
      if ok then some { s with stage := .pumping } else some (s.fail .osError)
    else none
  | .pump stream ok => s.turn stream ok
  | .resume => s.resume timeout
  | .timeout =>
    if s.stage = .pumping ∨ s.stage = .waiting then some s.expire else none
  | .grace => if s.stage = .killing then some (s.fail (timedOut timeout)) else none
  | .cancel => s.cancel

def Attempt.gone (s : Attempt) : Bool := s.returncode.isSome || s.killed

/-- The log can be written, lines are within the limit, and the worker is not cancelled. -/
def unharmed (s : Attempt) : ProcessAction → Bool
  | .openLog ok => ok
  | .pump stream ok => ok && decide ((s.pipe stream).readline ≠ .tooLong)
  | .cancel => decide (s.stage ≠ .pumping ∧ s.stage ≠ .waiting)
  | _ => true

structure AttemptInv (s : Attempt) : Prop where
  sound : s.failure = none
  killing : s.stage = .killing → s.gone = true
  ended : ∀ r, s.stage = .ended r → s.gone = true

section
variable (s : Attempt) (hI : AttemptInv s)
include hI

variable {s}

theorem attemptInv_frame (hstage : t.stage = s.stage) (hfail : t.failure = none)
    (hgone : s.gone = true → t.gone = true) : AttemptInv t where
  sound := hfail
  killing := fun h => hgone (hI.killing (hstage ▸ h))
  ended := fun r h => hgone (hI.ended r (hstage ▸ h))

theorem attemptInv_setPipe {p : Pipe} (stream : Stream) : AttemptInv (s.setPipe p stream) := by
  cases stream with
  | out | err => exact attemptInv_frame hI rfl hI.sound (fun h => h)

theorem attemptInv_setPump (p : Pump) (stream : Stream) : AttemptInv (s.setPump p stream) := by
  cases stream with
  | out | err => exact attemptInv_frame hI rfl hI.sound (fun h => h)

theorem attemptInv_logLine (stream : Stream) {line : Text} : AttemptInv (s.logLine stream line) :=
  attemptInv_frame hI rfl hI.sound (fun h => h)

theorem attemptInv_stage {stage : Stage} (hk : stage ≠ .killing)
    (he : ∀ r, stage = .ended r → s.gone = true) : AttemptInv { s with stage := stage } where
  sound := hI.sound
  killing := fun h => absurd h hk
  ended := he

theorem attemptInv_kill : AttemptInv s.kill := by
  have hgone : s.kill.gone = true := by
    cases hc : s.returncode <;> simp [Attempt.kill, Attempt.gone, hc]
  exact ⟨hI.sound,fun _ => hgone,fun _ _ => hgone⟩

theorem attemptInv_fail {e : ProcessError} (hgone : s.gone = true) : AttemptInv (s.fail e) :=
  attemptInv_stage hI (by simp) (fun _ _ => hgone)

theorem attemptInv_resume (ht : s.resume timeout = some t) : AttemptInv t := by
  unfold Attempt.resume at ht
  cases hstage : s.stage with
  | opening => simp [hstage] at ht
  | pumping =>
    simp only [hstage] at ht
    split at ht
    · rename_i e he
      exact absurd (hI.sound.symm.trans he) (by simp)
    · split_ifs at ht
      cases ht
      exact attemptInv_stage hI (by simp) (by simp)
  | waiting =>
    simp only [hstage] at ht
    split at ht
    · cases ht
    · rename_i hc
      cases ht
      exact attemptInv_stage hI (by simp) (fun _ _ => by simp [Attempt.gone, hc])
    · rename_i code _ hc
      cases ht
      exact attemptInv_fail hI (by simp [Attempt.gone, hc])
  | draining =>
    simp only [hstage] at ht
    cases ht
    exact attemptInv_kill hI
  | killing =>
    simp only [hstage] at ht
    split_ifs at ht
    cases ht
    exact attemptInv_fail hI (hI.killing hstage)
  | ended r => simp [hstage] at ht

theorem attemptInv_cancel (hok : unharmed s .cancel = true)
    (ht : s.cancel = some t) : AttemptInv t := by
  simp only [unharmed, decide_eq_true_eq] at hok
  unfold Attempt.cancel at ht
  cases hstage : s.stage with
  | opening => simp [hstage] at ht
  | pumping => exact absurd hstage hok.1
  | waiting => exact absurd hstage hok.2
  | draining =>
    simp only [hstage] at ht
    cases ht
    exact attemptInv_kill hI
  | killing =>
    simp only [hstage] at ht
    cases ht
    exact attemptInv_fail hI (hI.killing hstage)
  | ended r => simp [hstage] at ht

theorem attemptInv_turn {stream : Stream} {ok : Bool}
    (hok : unharmed s (.pump stream ok) = true) (ht : s.turn stream ok = some t) :
    AttemptInv t := by
  simp only [unharmed, Bool.and_eq_true, decide_eq_true_eq] at hok
  unfold Attempt.turn at ht
  by_cases hrun : s.stage = .pumping ∧ s.pump stream = .running
  swap
  · simp [hrun] at ht
  rw [if_pos hrun] at ht
  cases hread : (s.pipe stream).readline with
  | tooLong => exact absurd hread hok.2
  | blocked => simp [hread] at ht
  | finished =>
    simp only [hread] at ht
    cases ht
    exact attemptInv_setPump hI .done stream
  | line raw rest =>
    simp only [hread, hok.1, if_true] at ht
    cases ht
    exact attemptInv_logLine (attemptInv_setPipe hI stream) stream

theorem attemptInv_step {a : ProcessAction} (hok : unharmed s a = true)
    (ht : processStep timeout s a = some t) : AttemptInv t := by
  cases a with
  | write stream data =>
    simp only [processStep] at ht
    split_ifs at ht
    cases ht
    exact attemptInv_setPipe hI stream
  | close stream =>
    cases ht
    exact attemptInv_setPipe hI stream
  | exit code =>
    simp only [processStep] at ht
    split_ifs at ht
    cases ht
    exact attemptInv_frame hI rfl hI.sound (fun _ => rfl)
  | openLog ok =>
    have htrue : ok = true := hok
    simp only [processStep, htrue, if_true] at ht
    split_ifs at ht
    cases ht
    exact attemptInv_stage hI (by simp) (by simp)
  | pump stream ok => exact attemptInv_turn hI hok ht
  | resume => exact attemptInv_resume timeout hI ht
  | timeout =>
    simp only [processStep] at ht
    split_ifs at ht
    cases ht
    simp only [Attempt.expire, hI.sound]
    exact ⟨rfl,by simp,by simp⟩
  | grace =>
    simp only [processStep] at ht
    split_ifs at ht with hstage
    cases ht
    exact attemptInv_fail hI (hI.killing hstage)
  | cancel => exact attemptInv_cancel hI hok ht

end

theorem attemptInv_spawned : AttemptInv spawned := ⟨rfl,by decide,by simp [spawned]⟩

/-- Whenever `_run_process` ends in an unharmed run, the command has exited or its group was killed.
-/
theorem command_ends_with_attempt (s : Attempt)
    (hs : Transition.Reachable (fun s => s = spawned) (processStep timeout)
      (fun s a => unharmed s a = true) s)
    (r : Except ProcessError Unit) (hr : s.stage = .ended r) :
    s.returncode.isSome = true ∨ s.killed = true := by
  have hI : AttemptInv s := by
    apply Transition.reachable_invariant AttemptInv ?_ ?_ s hs
    · intro s h
      rw [h]
      exact attemptInv_spawned
    · intro s t a hI hok ht
      exact attemptInv_step timeout hI hok ht
  simpa [Attempt.gone] using hI.ended r hr

end

/-- A command that writes a null character to stderr and fails. -/
theorem command_ends_with_failure : ∃ s,
    Transition.Reachable (fun s => s = spawned) (processStep "20".toList)
      (fun s a => unharmed s a = true) s ∧
    s.stage = .ended (.error (.jobFailed ("exit 1: ".toList ++ [Char.ofNat 0]))) ∧
    (s.returncode.isSome = true ∨ s.killed = true) := by
  refine Exists.imp (fun s (h : _ ∧ _) =>
    ⟨h.1,h.2,command_ends_with_attempt "20".toList s h.1 _ h.2⟩) ?_
  exact Transition.reachable_of_checkedRun _ _ _
    [.openLog true, .write .err [0, 10], .exit 1, .close .out, .pump .err true, .close .err,
      .pump .out true, .pump .err true, .resume, .resume]
    spawned rfl (by decide +kernel)

theorem readline_tooLong (p : Pipe) (hline : 10 ∉ p.buffer)
    (hlen : streamLimit < p.buffer.length) : p.readline = .tooLong := by
  have hall : p.buffer.takeWhile (fun b => b ≠ 10) = p.buffer := by
    rw [List.takeWhile_eq_self_iff]
    intro b hb
    simp only [ne_eq, decide_eq_true_eq]
    exact fun h => hline (h ▸ hb)
  simp only [Pipe.readline, hall, if_pos hlen]

/-- A line over 64 KiB ends the attempt by `ValueError`, a cancellation by its own; the command runs
on. -/
theorem long_line_leaves_command :
    (∃ s, Transition.Reachable (fun s => s = spawned) (processStep "20".toList)
        Transition.anyStep s ∧ s.stage = .ended (.error .valueError) ∧
      s.returncode = none ∧ s.killed = false) ∧
    ∃ s, Transition.Reachable (fun s => s = spawned) (processStep "20".toList)
        Transition.anyStep s ∧ s.stage = .ended (.error .cancelledError) ∧
      s.returncode = none ∧ s.killed = false := by
  constructor
  · let data := List.replicate (streamLimit+1) 97
    let s₁ : Attempt := { spawned with stage := .pumping }
    let s₂ : Attempt := { s₁ with stdout := ⟨data,false⟩ }
    let s₃ : Attempt := { s₂ with outPump := .failed, failure := some .valueError }
    have hread : s₂.stdout.readline = .tooLong := by
      apply readline_tooLong
      · exact fun h => absurd (List.eq_of_mem_replicate h) (by decide)
      · exact Nat.lt_of_lt_of_eq (Nat.lt_succ_self _) List.length_replicate.symm
    have hturn : s₂.turn .out true = some s₃ := by
      rw [Attempt.turn, if_pos ⟨rfl,rfl⟩]
      simp only [Attempt.pipe, hread]
      rfl
    refine ⟨s₃.fail .valueError,?_,rfl,rfl,rfl⟩
    refine .next s₃ _ .resume ?_ trivial rfl
    refine .next s₂ s₃ (.pump .out true) ?_ trivial hturn
    refine .next s₁ s₂ (.write .out data) ?_ trivial rfl
    exact .next spawned s₁ (.openLog true) (.start spawned rfl) trivial rfl
  · refine ⟨({ spawned with stage := .pumping } : Attempt).fail .cancelledError,?_,rfl,rfl,rfl⟩
    refine .next { spawned with stage := .pumping } _ .cancel ?_ trivial rfl
    exact .next spawned _ (.openLog true) (.start spawned rfl) trivial rfl

end BackendGauntlet.JobQueue
