import HzjDds.G1.Sdk
import HzjDds.Transition.Run
import Mathlib.Logic.Function.Basic

/-!
# Dead-man stop of the velocity commands

Library `G1`. Source: `dds_sdk.py:216–234,285–321`. A state is the client between two
calls: its `_stop_timer` field, every `threading.Timer` made so far, and the motion the
robot is executing. A step is one call of `move` or `stop`, or one armed timer firing.
`StopMove` succeeds; the other SDK calls have any outcome.
-/

namespace HzjDds.G1

open HzjDds.Transition

/-- Motion the robot executes: the last command it accepted. A continuous `Move` goes on
until the next accepted command, a timed one ends by itself. -/
inductive Motion where
  | idle
  | continuous (vx vy vyaw : ℚ)
  | timed (vx vy vyaw duration : ℚ)
  deriving DecidableEq, Repr

/-- The motion is a continuous `Move`. -/
def Motion.IsContinuous : Motion → Prop
  | .continuous _ _ _ => True
  | _ => False

instance : DecidablePred Motion.IsContinuous := fun m ↦ by
  cases m <;> unfold Motion.IsContinuous <;> infer_instance

/-- Life of one `threading.Timer`; an armed one will call `StopMove` after its interval. -/
inductive TimerPhase where
  | unborn
  | armed (interval : ℚ)
  | cancelled
  | fired
  deriving DecidableEq, Repr

/-- `Timer.cancel`: no effect on a timer that has fired. -/
def TimerPhase.cancel : TimerPhase → TimerPhase
  | .armed _ => .cancelled
  | phase => phase

/-- The client and the robot; `dds_sdk.py:129–139`. -/
structure Client where
  config : Config
  loco_client : Bool
  stop_timer : Option ℕ := none
  timers : ℕ → TimerPhase := fun _ ↦ .unborn
  born : ℕ := 0
  running : Bool := false
  motion : Motion := .idle

/-- How a call ends: it returns (for `move` a flag), or an assertion fails. -/
inductive CallResult where
  | returned (ok : Bool)
  | done
  | assertionError
  deriving DecidableEq, Repr

namespace Client

/-- `_cancel_stop_timer`; `dds_sdk.py:216–220`. -/
def cancelStopTimer (s : Client) : Client :=
  match s.stop_timer with
  | none => s
  | some t =>
    { s with stop_timer := none, timers := Function.update s.timers t (s.timers t).cancel }

/-- Create, store and start the auto-stop timer; `dds_sdk.py:312–314`. -/
def armStopTimer (s : Client) : Client :=
  { s with
    stop_timer := some s.born
    timers := Function.update s.timers s.born (.armed s.config.cmd_vel_timeout)
    born := s.born + 1 }

/-- The robot takes over a command when it accepts it. -/
def accept (s : Client) (outcome : SdkOutcome) (motion : Motion) : Client :=
  if outcome.accepted then { s with motion := motion } else s

/-- `move`, with the outcome of the one SDK call it makes; `dds_sdk.py:285–321`. -/
def move (s : Client) (twist : Twist) (duration : ℚ) (outcome : SdkOutcome) :
    CallResult × Client :=
  if s.loco_client then
    let vx := twist.linear.x
    let vy := twist.linear.y
    let vyaw := twist.angular.z
    let cancelled := s.cancelStopTimer
    if duration > 0 then
      let sent := cancelled.accept outcome (.timed vx vy vyaw duration)
      (match outcome with
        | .raised => .returned false
        | .code c => if c ≠ 0 then .returned false else .returned true, sent)
    else
      let sent := cancelled.accept outcome (.continuous vx vy vyaw)
      match outcome with
      | .raised => (.returned false, sent)
      | .code _ => (.returned true, sent.armStopTimer)
  else (.assertionError, s)

/-- `stop`; `dds_sdk.py:222–234`. -/
def stop (s : Client) : CallResult × Client :=
  let cancelled := s.cancelStopTimer
  let stopped := if s.loco_client then { cancelled with motion := .idle } else cancelled
  (.done, { stopped with running := false })

/-- An armed timer fires: `auto_stop` calls `StopMove`; `dds_sdk.py:301–306`. -/
def fire (s : Client) (t : ℕ) : Option Client :=
  match s.timers t with
  | .armed _ =>
    some { s with timers := Function.update s.timers t .fired, motion := .idle }
  | _ => none

end Client

/-- One step between two states at rest. -/
inductive ClientStep where
  | move (twist : Twist) (duration : ℚ) (outcome : SdkOutcome)
  | stop
  | fire (t : ℕ)
  deriving DecidableEq, Repr

/-- Steps of the client; every call is enabled, a timer fires only while armed. -/
def Client.step (s : Client) : ClientStep → Option Client
  | .move twist duration outcome => some (s.move twist duration outcome).2
  | .stop => some s.stop.2
  | .fire t => s.fire t

/-- The dead-man property: a continuous motion has an armed stop timer of the configured
interval. -/
def DeadMan (s : Client) : Prop :=
  s.motion.IsContinuous → ∃ t, s.timers t = .armed s.config.cmd_vel_timeout

/-- The call arms no timer: its `SetVelocity` is not accepted, or its `Move` raises. -/
def MoveFails (duration : ℚ) (outcome : SdkOutcome) : Prop :=
  if duration > 0 then outcome.accepted = false else outcome = .raised

/-- No `move` fails while the robot executes a continuous motion. -/
def NoFailedMoveInMotion (s : Client) : ClientStep → Prop
  | .move _ duration outcome => MoveFails duration outcome → ¬ s.motion.IsContinuous
  | _ => True

/-- Between two calls only the stored timer can be armed, unborn timers are those not yet
numbered, and without `loco_client` nothing ever moves. -/
structure ClientInv (s : Client) : Prop where
  stored : ∀ t interval, s.timers t = .armed interval → s.stop_timer = some t
  interval : ∀ t interval, s.timers t = .armed interval → interval = s.config.cmd_vel_timeout
  unborn : ∀ t, s.born ≤ t → s.timers t = .unborn
  absent : s.loco_client = false → s.motion = .idle

/-- No stop timer is armed. -/
def NoneArmed (s : Client) : Prop := ∀ t interval, s.timers t ≠ .armed interval

/-! ### What each operation does -/

private theorem cancel_ne_armed (phase : TimerPhase) (interval : ℚ) :
    phase.cancel ≠ .armed interval := by
  cases phase <;> simp [TimerPhase.cancel]

@[simp] theorem motion_cancelStopTimer (s : Client) : s.cancelStopTimer.motion = s.motion := by
  unfold Client.cancelStopTimer
  split <;> rfl

private theorem noneArmed_cancelStopTimer {s : Client} (hi : ClientInv s) :
    NoneArmed s.cancelStopTimer := by
  intro t interval
  unfold Client.cancelStopTimer
  split
  · next hnone =>
    intro h
    have hs := hi.stored t interval h
    rw [hnone] at hs
    contradiction
  · next u hu =>
    by_cases ht : t = u
    · subst t
      simpa using cancel_ne_armed (s.timers u) interval
    · intro h
      change Function.update s.timers u _ t = _ at h
      rw [Function.update_of_ne ht] at h
      have hs := hi.stored t interval h
      rw [hu] at hs
      exact ht (Option.some.inj hs).symm

private theorem clientInv_cancelStopTimer {s : Client} (hi : ClientInv s) :
    ClientInv s.cancelStopTimer := by
  have hnone := noneArmed_cancelStopTimer hi
  constructor
  case stored => exact fun t i h ↦ (hnone t i h).elim
  case interval => exact fun t i h ↦ (hnone t i h).elim
  case unborn =>
    unfold Client.cancelStopTimer
    split
    · exact hi.unborn
    · next u hu =>
      intro t ht
      have hu' := hi.unborn t ht
      by_cases htu : t = u
      · subst t
        simp [hu', TimerPhase.cancel]
      · simp [htu, hu']
  case absent =>
    unfold Client.cancelStopTimer
    split <;> exact hi.absent

private theorem clientInv_motion {s : Client} (hi : ClientInv s) (motion : Motion)
    (hm : s.loco_client = true) : ClientInv { s with motion := motion } :=
  ⟨hi.stored, hi.interval, hi.unborn, fun h ↦ absurd (hm.symm.trans h) (by decide)⟩

private theorem clientInv_accept {s : Client} (hi : ClientInv s) (outcome : SdkOutcome)
    (motion : Motion) (hm : s.loco_client = true) : ClientInv (s.accept outcome motion) := by
  unfold Client.accept
  split
  · exact clientInv_motion hi motion hm
  · exact hi

private theorem clientInv_armStopTimer {s : Client} (hi : ClientInv s) (hnone : NoneArmed s) :
    ClientInv s.armStopTimer := by
  have hne : ∀ t, t ≠ s.born → ∀ i, s.armStopTimer.timers t ≠ .armed i := by
    intro t ht i
    simpa [Client.armStopTimer, ht] using hnone t i
  constructor
  case stored =>
    intro t i h
    by_cases ht : t = s.born
    · rw [ht]
      rfl
    · exact (hne t ht i h).elim
  case interval =>
    intro t i h
    by_cases ht : t = s.born
    · subst t
      simp only [Client.armStopTimer, Function.update_self, TimerPhase.armed.injEq] at h
      exact h.symm
    · exact (hne t ht i h).elim
  case unborn =>
    intro t ht
    have hlt : s.born + 1 ≤ t := ht
    have hb : t ≠ s.born := by omega
    simpa [Client.armStopTimer, hb] using hi.unborn t (by omega)
  case absent => exact hi.absent

private theorem deadMan_armStopTimer (s : Client) : DeadMan s.armStopTimer :=
  fun _ ↦ ⟨s.born, by simp [Client.armStopTimer]⟩

private theorem deadMan_of_not_continuous {s : Client} (h : ¬ s.motion.IsContinuous) : DeadMan s :=
  fun hc ↦ (h hc).elim

private theorem deadMan_iff_of_noneArmed {s : Client} (hnone : NoneArmed s) :
    DeadMan s ↔ ¬ s.motion.IsContinuous :=
  ⟨fun h hc ↦ (h hc).elim fun t ht ↦ hnone t _ ht, deadMan_of_not_continuous⟩

@[simp] theorem loco_client_cancelStopTimer (s : Client) :
    s.cancelStopTimer.loco_client = s.loco_client := by
  unfold Client.cancelStopTimer
  split <;> rfl

@[simp] theorem timers_accept (s : Client) (outcome : SdkOutcome) (motion : Motion) :
    (s.accept outcome motion).timers = s.timers := by
  unfold Client.accept
  split <;> rfl

private theorem move_of_fails {s : Client} (hm : s.loco_client = true) {twist : Twist} {duration : ℚ}
    {outcome : SdkOutcome} (h : MoveFails duration outcome) :
    (s.move twist duration outcome).2 = s.cancelStopTimer := by
  unfold MoveFails at h
  simp only [Client.move, hm, if_true]
  split at h
  · next hd =>
    simp only [hd, if_true, Client.accept, h, Bool.false_eq_true, if_false]
  · next hd =>
    subst h
    simp only [hd, if_false, Client.accept, accepted_raised, Bool.false_eq_true]

private theorem deadMan_move_of_not_fails {s : Client} (hm : s.loco_client = true) {twist : Twist}
    {duration : ℚ} {outcome : SdkOutcome} (h : ¬ MoveFails duration outcome) :
    DeadMan (s.move twist duration outcome).2 := by
  unfold MoveFails at h
  simp only [Client.move, hm, if_true]
  split at h
  · next hd =>
    have hacc : outcome.accepted = true := by simpa using h
    simp only [hd, if_true, Client.accept, hacc]
    exact deadMan_of_not_continuous fun h ↦ h
  · next hd =>
    simp only [hd, if_false]
    cases outcome with
    | raised => exact (h rfl).elim
    | code c => exact deadMan_armStopTimer _

private theorem clientInv_move {s : Client} (hi : ClientInv s) (twist : Twist) (duration : ℚ)
    (outcome : SdkOutcome) : ClientInv (s.move twist duration outcome).2 := by
  unfold Client.move
  split
  · next hm =>
    have hc := clientInv_cancelStopTimer hi
    have hm' : s.cancelStopTimer.loco_client = true := by simpa using hm
    split
    · exact clientInv_accept hc outcome
        (.timed twist.linear.x twist.linear.y twist.angular.z duration) hm'
    · have ha := clientInv_accept hc outcome
        (.continuous twist.linear.x twist.linear.y twist.angular.z) hm'
      cases outcome with
      | raised => exact ha
      | code c =>
        apply clientInv_armStopTimer ha
        intro t i
        rw [timers_accept]
        exact noneArmed_cancelStopTimer hi t i
  · exact hi

private theorem clientInv_stop {s : Client} (hi : ClientInv s) :
    ClientInv s.stop.2 ∧ s.stop.2.motion = .idle := by
  have hc := clientInv_cancelStopTimer hi
  unfold Client.stop
  split
  · next hm =>
    have ha := clientInv_motion hc .idle (by simpa using hm)
    exact ⟨⟨ha.stored, ha.interval, ha.unborn, ha.absent⟩, rfl⟩
  · next hm =>
    have habs := hi.absent (by simpa using hm)
    exact ⟨⟨hc.stored, hc.interval, hc.unborn, hc.absent⟩, by simpa using habs⟩

private theorem clientInv_fire {s s' : Client} (hi : ClientInv s) {t : ℕ} (h : s.fire t = some s') :
    ClientInv s' ∧ s'.motion = .idle := by
  unfold Client.fire at h
  split at h
  · next i ht =>
    cases h
    have hold : ∀ u j, Function.update s.timers t .fired u = .armed j → s.timers u = .armed j := by
      intro u j hu
      by_cases hut : u = t
      · simp [hut] at hu
      · simpa [hut] using hu
    have hunborn : ∀ u, s.born ≤ u → Function.update s.timers t .fired u = .unborn := by
      intro u hu
      have hub := hi.unborn u hu
      have hut : u ≠ t := fun he ↦ by
        rw [he, ht] at hub
        contradiction
      simpa [hut] using hub
    exact ⟨⟨fun u j hu ↦ hi.stored u j (hold u j hu), fun u j hu ↦ hi.interval u j (hold u j hu),
      hunborn, fun _ ↦ rfl⟩, rfl⟩
  · contradiction

/-! ### Runs -/

private theorem clientInv_step {s s' : Client} {a : ClientStep} (hi : ClientInv s)
    (h : s.step a = some s') : ClientInv s' := by
  cases a with
  | move twist duration outcome =>
    cases h
    exact clientInv_move hi twist duration outcome
  | stop =>
    cases h
    exact (clientInv_stop hi).1
  | fire t => exact (clientInv_fire hi h).1

/-- A step reaches a state with the dead-man property exactly when it is not a failing
`move` in a continuous motion. -/
theorem deadMan_step_iff {s s' : Client} {a : ClientStep} (hi : ClientInv s) (hp : DeadMan s)
    (h : s.step a = some s') : DeadMan s' ↔ NoFailedMoveInMotion s a := by
  cases a with
  | move twist duration outcome =>
    cases h
    by_cases hm : s.loco_client = true
    · by_cases hf : MoveFails duration outcome
      · rw [move_of_fails hm hf, deadMan_iff_of_noneArmed (noneArmed_cancelStopTimer hi),
          motion_cancelStopTimer]
        exact ⟨fun h _ ↦ h, fun h ↦ h hf⟩
      · exact iff_of_true (deadMan_move_of_not_fails hm hf) fun h ↦ (hf h).elim
    · have hidle := hi.absent (by simpa using hm)
      have hs : (s.move twist duration outcome).2 = s := by simp [Client.move, hm]
      rw [hs]
      exact iff_of_true hp fun _ ↦ by simp [hidle, Motion.IsContinuous]
  | stop =>
    cases h
    exact iff_of_true (deadMan_of_not_continuous (by
      simp [(clientInv_stop hi).2, Motion.IsContinuous])) trivial
  | fire t =>
    exact iff_of_true (deadMan_of_not_continuous (by
      simp [(clientInv_fire hi h).2, Motion.IsContinuous])) trivial

/-- A client between construction and its first call. -/
def Client.initial (config : Config) (loco_client : Bool) : Client := { config, loco_client }

private theorem clientInv_initial (config : Config) (loco_client : Bool) :
    ClientInv (Client.initial config loco_client) :=
  ⟨fun _ _ h ↦ (nomatch h), fun _ _ h ↦ (nomatch h), fun _ _ ↦ rfl, fun _ ↦ rfl⟩

/-- The dead-man property holds in every state of a run exactly when no `move` of the run
fails while the robot executes a continuous motion. -/
theorem deadMan_run_iff (config : Config) (loco_client : Bool) (calls : List ClientStep) :
    AllStates Client.step DeadMan (Client.initial config loco_client) calls ↔
      AllSteps Client.step NoFailedMoveInMotion (Client.initial config loco_client) calls :=
  allStates_iff_allSteps (I := ClientInv) (clientInv_initial config loco_client)
    (deadMan_of_not_continuous fun h ↦ h) (fun _ _ _ hi h ↦ clientInv_step hi h)
    (fun _ _ _ hi hp h ↦ deadMan_step_iff hi hp h) calls

/-- A rejected timed command cancels the stop timer of the motion it does not replace. -/
theorem deadMan_broken_by_rejected_velocity :
    ¬ ∀ config loco_client calls,
      AllStates Client.step DeadMan (Client.initial config loco_client) calls := by
  intro h
  let forward : Twist := ⟨⟨1, 0, 0⟩, ⟨0, 0, 0⟩⟩
  let moving := ((Client.initial {} true).move forward 0 (.code 0)).2
  let rejected := (moving.move forward 1 (.code 3404)).2
  have hbad : DeadMan rejected := h {} true
    [.move forward 0 (.code 0), .move forward 1 (.code 3404)] _ rejected (List.prefix_refl _) rfl
  have hmotion : rejected.motion = .continuous 1 0 0 := by rfl
  obtain ⟨t, ht⟩ := hbad (by rw [hmotion]; trivial)
  have htimers : rejected.timers =
      Function.update (Function.update (fun _ ↦ .unborn) 0 (.armed (1 / 5))) 0 .cancelled := rfl
  rw [htimers] at ht
  by_cases h0 : t = 0
  · simp [h0] at ht
  · simp [h0] at ht

end HzjDds.G1
