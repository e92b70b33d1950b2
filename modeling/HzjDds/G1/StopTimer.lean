import HzjDds.G1.DeadMan

/-!
# Interleavings of the stop timer

Library `G1`. Source: `dds_sdk.py:216–234,285–321,333–363`. Any number of calls of `move`,
`stop` and `publish_request` (with the `SetVelocity` API) run against one client whose
`start` has returned; a step is one statement of one call or of one timer thread. No lock
orders them. A timer thread that has begun to run its function can no longer be cancelled.
-/

namespace HzjDds.G1

open HzjDds.Transition

/-- Life of one timer thread, from the constructor to its `StopMove`. -/
inductive ThreadPhase where
  | unborn
  | created
  | armed
  | cancelled
  | running
  | done
  deriving DecidableEq, Repr

/-- `Timer.cancel`: it reaches a timer that has not begun to run its function. -/
def ThreadPhase.cancel : ThreadPhase → ThreadPhase
  | .created => .cancelled
  | .armed => .cancelled
  | phase => phase

/-- The timer will still call `StopMove` unless it is cancelled in time. -/
def ThreadPhase.Pending (phase : ThreadPhase) : Prop := phase = .armed ∨ phase = .running

instance : DecidablePred ThreadPhase.Pending :=
  fun phase ↦ inferInstanceAs (Decidable (phase = .armed ∨ phase = .running))

/-- A timer and the number of the motion command it was made for. -/
structure StopTimer where
  phase : ThreadPhase := .unborn
  command : ℕ := 0
  deriving DecidableEq, Repr

/-- The operations of the client that touch the timer or the robot's motion. -/
inductive Operation where
  | move (twist : Twist) (duration : ℚ)
  | stop
  | publishVelocity
  deriving DecidableEq, Repr

/-- Next statement of a call. After an accepted `Move` the number of that command. -/
inductive CallPc where
  | ready
  | moveCancel (twist : Twist) (duration : ℚ)
  | moveCommand (twist : Twist) (duration : ℚ)
  | moveStore (command : ℕ)
  | moveStart (command : ℕ)
  | stopCancel
  | stopMove
  | publishVelocity
  | finished (ok : Bool)
  deriving DecidableEq, Repr

/-- The call is between its `Move` and the start of its own timer. -/
def CallPc.Arming : CallPc → Prop
  | .moveStore _ => True
  | .moveStart _ => True
  | _ => False

instance : DecidablePred CallPc.Arming
  | .moveStore _ | .moveStart _ => isTrue trivial
  | .ready | .moveCancel .. | .moveCommand .. | .stopCancel | .stopMove | .publishVelocity
  | .finished _ => isFalse id

/-- First statement of an operation. -/
def Operation.entry : Operation → CallPc
  | .move twist duration => .moveCancel twist duration
  | .stop => .stopCancel
  | .publishVelocity => .publishVelocity

/-- The client shared by all calls. `accepted` counts the motion commands the robot has
accepted; `stops` records each automatic `StopMove` as the command its timer was made for
and the count at that moment. -/
structure Shared where
  stop_timer : Option ℕ := none
  timers : ℕ → StopTimer := fun _ ↦ {}
  born : ℕ := 0
  accepted : ℕ := 0
  calls : ℕ → CallPc := fun _ ↦ .ready
  stops : List (ℕ × ℕ) := []

/-- One step of the whole system. -/
inductive SharedStep where
  | call (c : ℕ) (operation : Operation)
  | advance (c : ℕ) (outcome : SdkOutcome)
  | timerBegin (t : ℕ)
  | timerStop (t : ℕ)
  deriving DecidableEq, Repr

namespace Shared

/-- The call goes on at this statement. -/
def goto (s : Shared) (c : ℕ) (pc : CallPc) : Shared :=
  { s with calls := Function.update s.calls c pc }

/-- The timer changes its phase. -/
def setPhase (s : Shared) (t : ℕ) (phase : ThreadPhase) : Shared :=
  { s with timers := Function.update s.timers t { s.timers t with phase := phase } }

/-- The robot accepts one more motion command when `ok`. -/
def countCommand (s : Shared) (ok : Bool) : Shared :=
  if ok then { s with accepted := s.accepted + 1 } else s

/-- `_cancel_stop_timer`; `dds_sdk.py:216–220`. -/
def cancelStopTimer (s : Shared) : Shared :=
  match s.stop_timer with
  | none => s
  | some t => { s.setPhase t (s.timers t).phase.cancel with stop_timer := none }

/-- `self._stop_timer = threading.Timer(…)`; `dds_sdk.py:312`. -/
def storeTimer (s : Shared) (command : ℕ) : Shared :=
  { s with
    stop_timer := some s.born
    timers := Function.update s.timers s.born { phase := .created, command := command }
    born := s.born + 1 }

/-- `self._stop_timer.daemon = True; self._stop_timer.start()`, on whatever timer the field
holds by now; an empty field or a started timer raises; `dds_sdk.py:313–314`. -/
def startTimer (s : Shared) : Shared × Bool :=
  match s.stop_timer with
  | none => (s, false)
  | some t => if (s.timers t).phase = .created then (s.setPhase t .armed, true) else (s, false)

/-- One statement of a call. An SDK statement uses the outcome; `dds_sdk.py:292–321`. -/
def advance (s : Shared) (c : ℕ) (outcome : SdkOutcome) : Option Shared :=
  match s.calls c with
  | .moveCancel twist duration => some (s.cancelStopTimer.goto c (.moveCommand twist duration))
  | .moveCommand _ duration =>
    let sent := s.countCommand outcome.accepted
    if duration > 0 then some (sent.goto c (.finished outcome.accepted))
    else
      match outcome with
      | .raised => some (sent.goto c (.finished false))
      | .code _ => some (sent.goto c (.moveStore sent.accepted))
  | .moveStore command => some ((s.storeTimer command).goto c (.moveStart command))
  | .moveStart _ =>
    let (started, ok) := s.startTimer
    some (started.goto c (.finished ok))
  | .stopCancel => some (s.cancelStopTimer.goto c .stopMove)
  | .stopMove => some (s.goto c (.finished true))
  | .publishVelocity =>
    some ((s.countCommand outcome.accepted).goto c (.finished outcome.accepted))
  | .ready => none
  | .finished _ => none

/-- Steps of the system; a timer thread runs its function once, if it was not cancelled. -/
def step (s : Shared) : SharedStep → Option Shared
  | .call c operation => if s.calls c = .ready then some (s.goto c operation.entry) else none
  | .advance c outcome => s.advance c outcome
  | .timerBegin t => if (s.timers t).phase = .armed then some (s.setPhase t .running) else none
  | .timerStop t =>
    if (s.timers t).phase = .running then
      some { s.setPhase t .done with stops := s.stops ++ [((s.timers t).command, s.accepted)] }
    else none

end Shared

/-- No automatic `StopMove` came after a command newer than the one its timer was for. -/
def NoStaleStop (s : Shared) : Prop := ∀ stop ∈ s.stops, stop.2 ≤ stop.1

/-- Every started, uncancelled timer that has not begun to run is the stored one. -/
def ArmedStored (s : Shared) : Prop := ∀ t, (s.timers t).phase = .armed → s.stop_timer = some t

/-- No stop timer of an earlier command is pending, and none is about to be started. -/
def Quiet (s : Shared) : Prop :=
  (∀ t, ¬ (s.timers t).phase.Pending) ∧ ∀ c, ¬ (s.calls c).Arming

/-- A motion command goes through (an accepted `SetVelocity`, a returning `Move`) only in a
quiet moment. -/
def QuietCommands (s : Shared) : SharedStep → Prop
  | .advance c outcome =>
    match s.calls c with
    | .moveCommand _ duration => ¬ MoveFails duration outcome → Quiet s
    | .publishVelocity => outcome.accepted = true → Quiet s
    | _ => True
  | _ => True

/-- What holds in every state of a run whose commands all go through in quiet moments: a
timer that can still stop the robot was made for the newest command, it is the stored one
until it runs, and at most one call is arming a timer, with no other timer pending. -/
structure SharedInv (s : Shared) : Prop where
  stored : ArmedStored s
  created : ∀ t, (s.timers t).phase = .created →
    s.stop_timer = some t ∧ ∃ c command, s.calls c = .moveStart command
  unborn : ∀ t, s.born ≤ t → (s.timers t).phase = .unborn
  newest : ∀ t, (s.timers t).phase = .created ∨ (s.timers t).phase.Pending →
    (s.timers t).command = s.accepted
  arming : ∀ c, (s.calls c).Arming → (∀ t, ¬ (s.timers t).phase.Pending) ∧
    ∀ d, (s.calls d).Arming → d = c
  storing : ∀ c command, s.calls c = .moveStore command → command = s.accepted
  clean : NoStaleStop s

/-! ### What each statement does -/

private theorem cancel_phase (phase : ThreadPhase) :
    phase.cancel ≠ .created ∧ phase.cancel ≠ .armed ∧ phase.cancel ≠ .unborn ∨
      phase.cancel = .unborn := by
  cases phase <;> simp [ThreadPhase.cancel]

private theorem running_of_cancel_pending {phase : ThreadPhase} (h : phase.cancel.Pending) :
    phase = .running := by
  cases phase <;> simp_all [ThreadPhase.cancel, ThreadPhase.Pending]

private theorem calls_goto (s : Shared) (c d : ℕ) (pc : CallPc) :
    (s.goto c pc).calls d = if d = c then pc else s.calls d := by
  simp [Shared.goto, Function.update_apply]

private theorem arming_goto {s : Shared} {c d : ℕ} {pc : CallPc} (h : ((s.goto c pc).calls d).Arming) :
    d = c ∧ pc.Arming ∨ d ≠ c ∧ (s.calls d).Arming := by
  rw [calls_goto] at h
  split at h
  · next heq => exact Or.inl ⟨heq, h⟩
  · next hne => exact Or.inr ⟨hne, h⟩

private theorem phase_setPhase (s : Shared) (t u : ℕ) (phase : ThreadPhase) :
    ((s.setPhase t phase).timers u).phase = if u = t then phase else (s.timers u).phase := by
  by_cases h : u = t <;> simp [Shared.setPhase, h]

private theorem command_setPhase (s : Shared) (t u : ℕ) (phase : ThreadPhase) :
    ((s.setPhase t phase).timers u).command = (s.timers u).command := by
  by_cases h : u = t <;> simp [Shared.setPhase, h]

@[simp] theorem calls_cancelStopTimer (s : Shared) : s.cancelStopTimer.calls = s.calls := by
  unfold Shared.cancelStopTimer
  split <;> rfl

@[simp] theorem calls_countCommand (s : Shared) (ok : Bool) :
    (s.countCommand ok).calls = s.calls ∧ (s.countCommand ok).timers = s.timers := by
  unfold Shared.countCommand
  split <;> exact ⟨rfl, rfl⟩

private theorem sharedInv_goto {s : Shared} (hi : SharedInv s) {c : ℕ} {pc : CallPc}
    (hold : ¬ (s.calls c).Arming) (hnew : ¬ pc.Arming) : SharedInv (s.goto c pc) := by
  have hother : ∀ d, ((s.goto c pc).calls d).Arming → d ≠ c ∧ (s.calls d).Arming :=
    fun d hd ↦ (arming_goto hd).resolve_left fun h ↦ hnew h.2
  constructor
  case stored => exact hi.stored
  case created =>
    intro t ht
    obtain ⟨hs, d, k, hd⟩ := hi.created t ht
    have hdc : d ≠ c := fun he ↦ hold (by rw [← he, hd]; trivial)
    exact ⟨hs, d, k, by rw [calls_goto, if_neg hdc, hd]⟩
  case unborn => exact hi.unborn
  case newest => exact hi.newest
  case arming =>
    intro d hd
    obtain ⟨hpend, hone⟩ := hi.arming d (hother d hd).2
    exact ⟨hpend, fun e he ↦ hone e (hother e he).2⟩
  case storing =>
    intro d k hd
    rw [calls_goto] at hd
    split at hd
    · exact (hnew (by rw [hd]; trivial)).elim
    · exact hi.storing d k hd
  case clean => exact hi.clean

private theorem not_created_of_quiet {s : Shared} (hi : SharedInv s) (hq : Quiet s) (t : ℕ) :
    (s.timers t).phase ≠ .created := by
  intro ht
  obtain ⟨-, c, k, hc⟩ := hi.created t ht
  exact hq.2 c (by rw [hc]; trivial)

private theorem sharedInv_countCommand {s : Shared} (hi : SharedInv s) {ok : Bool}
    (hq : ok = true → Quiet s) : SharedInv (s.countCommand ok) := by
  unfold Shared.countCommand
  split
  · next hok =>
    have hquiet := hq hok
    constructor
    case stored => exact hi.stored
    case created => exact hi.created
    case unborn => exact hi.unborn
    case newest =>
      intro t ht
      rcases ht with ht | ht
      · exact (not_created_of_quiet hi hquiet t ht).elim
      · exact (hquiet.1 t ht).elim
    case arming => exact hi.arming
    case storing =>
      intro c k hc
      have hstore : s.calls c = .moveStore k := hc
      exact (hquiet.2 c (by rw [hstore]; trivial)).elim
    case clean => exact hi.clean
  · exact hi

private theorem sharedInv_enter {s : Shared} (hi : SharedInv s) (hq : Quiet s) (c : ℕ) :
    SharedInv (s.goto c (.moveStore s.accepted)) := by
  have honly : ∀ d, ((s.goto c (.moveStore s.accepted)).calls d).Arming → d = c := by
    intro d hd
    rcases arming_goto hd with ⟨heq, -⟩ | ⟨-, hwin⟩
    · exact heq
    · exact (hq.2 d hwin).elim
  constructor
  case stored => exact hi.stored
  case created => exact fun t ht ↦ (not_created_of_quiet hi hq t ht).elim
  case unborn => exact hi.unborn
  case newest => exact hi.newest
  case arming =>
    intro d hd
    exact ⟨hq.1, fun e he ↦ (honly e he).trans (honly d hd).symm⟩
  case storing =>
    intro d k hd
    rw [calls_goto] at hd
    split at hd
    · exact (CallPc.moveStore.inj hd).symm
    · exact hi.storing d k hd
  case clean => exact hi.clean

/-- `_cancel_stop_timer` keeps the invariant. -/
theorem sharedInv_cancelStopTimer {s : Shared} (hi : SharedInv s) :
    SharedInv s.cancelStopTimer := by
  unfold Shared.cancelStopTimer
  split
  · exact hi
  · next u hu =>
    have hphase : ∀ t, ((s.setPhase u (s.timers u).phase.cancel).timers t).phase =
        if t = u then (s.timers u).phase.cancel else (s.timers t).phase :=
      fun t ↦ phase_setPhase s u t _
    have hpend : ∀ t, ((s.setPhase u (s.timers u).phase.cancel).timers t).phase.Pending →
        (s.timers t).phase.Pending := by
      intro t ht
      rw [hphase] at ht
      split at ht
      · next he =>
        subst t
        exact Or.inr (running_of_cancel_pending ht)
      · exact ht
    have hgone : ∀ t, ((s.setPhase u (s.timers u).phase.cancel).timers t).phase ≠ .created ∧
        ((s.setPhase u (s.timers u).phase.cancel).timers t).phase ≠ .armed := by
      intro t
      rw [hphase]
      split
      · rcases cancel_phase (s.timers u).phase with h | h
        · exact ⟨h.1, h.2.1⟩
        · simp [h]
      · next hne =>
        constructor
        · intro h
          have hs := (hi.created t h).1
          exact hne (Option.some.inj (hs.symm.trans hu))
        · intro h
          exact hne (Option.some.inj ((hi.stored t h).symm.trans hu))
    constructor
    case stored => exact fun t ht ↦ ((hgone t).2 ht).elim
    case created => exact fun t ht ↦ ((hgone t).1 ht).elim
    case unborn =>
      intro t ht
      have hub := hi.unborn t ht
      change ((s.setPhase u (s.timers u).phase.cancel).timers t).phase = _
      rw [hphase]
      split
      · next he => rw [← he, hub]; rfl
      · exact hub
    case newest =>
      intro t ht
      change ((s.setPhase u (s.timers u).phase.cancel).timers t).command = s.accepted
      rw [command_setPhase]
      rcases ht with ht | ht
      · exact ((hgone t).1 ht).elim
      · exact hi.newest t (Or.inr (hpend t ht))
    case arming =>
      intro c hc
      obtain ⟨hnone, hone⟩ := hi.arming c hc
      exact ⟨fun t ht ↦ hnone t (hpend t ht), hone⟩
    case storing => exact hi.storing
    case clean => exact hi.clean

/-- Storing the new timer keeps the invariant: the call is the only one in its window, and
no other timer can be pending there. -/
theorem sharedInv_store {s : Shared} (hi : SharedInv s) {c k : ℕ}
    (hc : s.calls c = .moveStore k) : SharedInv ((s.storeTimer k).goto c (.moveStart k)) := by
  have hwin : (s.calls c).Arming := by rw [hc]; trivial
  obtain ⟨hnone, hone⟩ := hi.arming c hwin
  have hk : k = s.accepted := hi.storing c k hc
  have hnocreated : ∀ t, (s.timers t).phase ≠ .created := by
    intro t ht
    obtain ⟨-, d, j, hd⟩ := hi.created t ht
    have hdc : d = c := hone d (by rw [hd]; trivial)
    rw [hdc, hc] at hd
    contradiction
  have htimer : ∀ t, ((s.storeTimer k).goto c (.moveStart k)).timers t =
      if t = s.born then { phase := .created, command := k } else s.timers t := by
    intro t
    simp [Shared.goto, Shared.storeTimer, Function.update_apply]
  have hpend : ∀ t, ¬ (((s.storeTimer k).goto c (.moveStart k)).timers t).phase.Pending := by
    intro t
    rw [htimer]
    split
    · simp [ThreadPhase.Pending]
    · exact hnone t
  have hcalls : ∀ d, ((s.storeTimer k).goto c (.moveStart k)).calls d =
      if d = c then .moveStart k else s.calls d := fun d ↦ calls_goto _ c d _
  have honly : ∀ d, (((s.storeTimer k).goto c (.moveStart k)).calls d).Arming → d = c := by
    intro d hd
    rcases arming_goto hd with ⟨heq, -⟩ | ⟨-, hwin⟩
    · exact heq
    · exact hone d hwin
  constructor
  case stored => exact fun t ht ↦ (hpend t (Or.inl ht)).elim
  case created =>
    intro t ht
    rw [htimer] at ht
    split at ht
    · next he =>
      subst t
      exact ⟨rfl, c, k, by rw [hcalls, if_pos rfl]⟩
    · exact (hnocreated t ht).elim
  case unborn =>
    intro t ht
    have hlt : s.born + 1 ≤ t := ht
    rw [htimer, if_neg (by omega)]
    exact hi.unborn t (by omega)
  case newest =>
    intro t ht
    rcases ht with ht | ht
    · rw [htimer] at ht ⊢
      split at ht
      · next he => rw [if_pos he]; exact hk
      · exact (hnocreated t ht).elim
    · exact (hpend t ht).elim
  case arming =>
    intro d hd
    exact ⟨hpend, fun e he ↦ (honly e he).trans (honly d hd).symm⟩
  case storing =>
    intro d j hd
    rw [hcalls] at hd
    split at hd
    · contradiction
    · next hne => exact (hne (hone d (by rw [hd]; trivial))).elim
  case clean => exact hi.clean

private theorem not_arming_of_finished {s : Shared} (hi : SharedInv s) {c : ℕ}
    (hc : (s.calls c).Arming) (ok : Bool) (d : ℕ) :
    ¬ ((s.goto c (.finished ok)).calls d).Arming := by
  intro hd
  rcases arming_goto hd with ⟨-, hfinished⟩ | ⟨hne, hwin⟩
  · exact hfinished
  · exact hne ((hi.arming c hc).2 d hwin)

private theorem sharedInv_leave {s : Shared} (hi : SharedInv s) {c : ℕ} (hc : (s.calls c).Arming)
    (hnone : ∀ t, (s.timers t).phase ≠ .created) (ok : Bool) :
    SharedInv (s.goto c (.finished ok)) := by
  have hgone := not_arming_of_finished hi hc ok
  constructor
  case stored => exact hi.stored
  case created => exact fun t ht ↦ (hnone t ht).elim
  case unborn => exact hi.unborn
  case newest => exact hi.newest
  case arming => exact fun d hd ↦ (hgone d hd).elim
  case storing => exact fun d j hd ↦ (hgone d (by rw [hd]; trivial)).elim
  case clean => exact hi.clean

/-- The call that arms the created timer ends its window, and the timer is the stored one. -/
theorem sharedInv_armed {s : Shared} (hi : SharedInv s) {c k u : ℕ}
    (hc : s.calls c = .moveStart k) (hu : s.stop_timer = some u)
    (hcreated : (s.timers u).phase = .created) (ok : Bool) :
    SharedInv ((s.setPhase u .armed).goto c (.finished ok)) := by
  have hgone := not_arming_of_finished hi (c := c) (by rw [hc]; trivial) ok
  have hphase : ∀ t, ((s.setPhase u .armed).timers t).phase =
      if t = u then .armed else (s.timers t).phase := fun t ↦ phase_setPhase s u t _
  constructor
  case stored =>
    intro t ht
    change ((s.setPhase u .armed).timers t).phase = _ at ht
    rw [hphase] at ht
    split at ht
    · next he => rw [he]; exact hu
    · exact hi.stored t ht
  case created =>
    intro t ht
    change ((s.setPhase u .armed).timers t).phase = _ at ht
    rw [hphase] at ht
    split at ht
    · contradiction
    · next hne => exact (hne (Option.some.inj ((hi.created t ht).1.symm.trans hu))).elim
  case unborn =>
    intro t ht
    have hub := hi.unborn t ht
    change ((s.setPhase u .armed).timers t).phase = _
    rw [hphase, if_neg (fun he ↦ by rw [he, hcreated] at hub; contradiction)]
    exact hub
  case newest =>
    intro t ht
    change ((s.setPhase u .armed).timers t).command = s.accepted
    rw [command_setPhase]
    by_cases he : t = u
    · rw [he]
      exact hi.newest u (Or.inl hcreated)
    · have hold : ((s.setPhase u .armed).timers t).phase = (s.timers t).phase := by
        rw [hphase, if_neg he]
      change ((s.setPhase u .armed).timers t).phase = _ ∨
        ((s.setPhase u .armed).timers t).phase.Pending at ht
      rw [hold] at ht
      exact hi.newest t ht
  case arming => exact fun d hd ↦ (hgone d hd).elim
  case storing =>
    intro d j hd
    have hstore : (s.goto c (.finished ok)).calls d = .moveStore j := hd
    exact (hgone d (by rw [hstore]; trivial)).elim
  case clean => exact hi.clean

private theorem sharedInv_start {s : Shared} (hi : SharedInv s) {c k : ℕ}
    (hc : s.calls c = .moveStart k) (ok : Bool) :
    SharedInv (s.startTimer.1.goto c (.finished ok)) := by
  have hwin : (s.calls c).Arming := by rw [hc]; trivial
  unfold Shared.startTimer
  split
  · next hnostored =>
    apply sharedInv_leave hi hwin
    intro t ht
    have hs := (hi.created t ht).1
    rw [hnostored] at hs
    contradiction
  · next u hu =>
    split
    · next hcreated => exact sharedInv_armed hi hc hu hcreated ok
    · next hnotcreated =>
      apply sharedInv_leave hi hwin
      intro t ht
      have htu : t = u := Option.some.inj ((hi.created t ht).1.symm.trans hu)
      exact hnotcreated (htu ▸ ht)

/-- A pending timer that moves on to a later phase keeps the invariant. -/
theorem sharedInv_setPhase {s : Shared} (hi : SharedInv s) {t : ℕ} {phase : ThreadPhase}
    (hold : (s.timers t).phase.Pending) (hnew : phase = .running ∨ phase = .done) :
    SharedInv (s.setPhase t phase) := by
  have hnowindow : ∀ c, ¬ (s.calls c).Arming := fun c hc ↦ (hi.arming c hc).1 t hold
  have hphase : ∀ u, ((s.setPhase t phase).timers u).phase =
      if u = t then phase else (s.timers u).phase := fun u ↦ phase_setPhase s t u _
  constructor
  case stored =>
    intro u hu
    rw [hphase] at hu
    split at hu
    · rcases hnew with hnew | hnew <;> simp [hnew] at hu
    · exact hi.stored u hu
  case created =>
    intro u hu
    rw [hphase] at hu
    split at hu
    · rcases hnew with hnew | hnew <;> simp [hnew] at hu
    · exact hi.created u hu
  case unborn =>
    intro u hu
    have hub := hi.unborn u hu
    rw [hphase, if_neg ?_]
    · exact hub
    · intro he
      rw [← he, hub] at hold
      simp [ThreadPhase.Pending] at hold
  case newest =>
    intro u hu
    rw [command_setPhase]
    by_cases he : u = t
    · rw [he]
      exact hi.newest t (Or.inr hold)
    · rw [hphase, if_neg he] at hu
      exact hi.newest u hu
  case arming => exact fun c hc ↦ (hnowindow c hc).elim
  case storing => exact hi.storing
  case clean => exact hi.clean

/-! ### Runs -/

private theorem quiet_countCommand {s : Shared} (hq : Quiet s) (ok : Bool) : Quiet (s.countCommand ok) := by
  obtain ⟨hc, ht⟩ := calls_countCommand s ok
  exact ⟨by rw [ht]; exact hq.1, by rw [hc]; exact hq.2⟩

/-- A statement of a call keeps the invariant when its command goes through quietly. -/
theorem sharedInv_advance {s s' : Shared} (hi : SharedInv s) {c : ℕ} {outcome : SdkOutcome}
    (hok : QuietCommands s (.advance c outcome)) (h : s.advance c outcome = some s') :
    SharedInv s' := by
  simp only [QuietCommands] at hok
  unfold Shared.advance at h
  have hwindow : ∀ {s₁ : Shared}, s₁.calls = s.calls → ¬ (s.calls c).Arming →
      ¬ (s₁.calls c).Arming := fun he hn ↦ by rw [he]; exact hn
  cases hc : s.calls c with
  | ready => simp [hc] at h
  | finished ok => simp [hc] at h
  | moveCancel twist duration =>
    simp only [hc, Option.some.injEq] at h
    subst h
    exact sharedInv_goto (sharedInv_cancelStopTimer hi)
      (hwindow (calls_cancelStopTimer s) (by rw [hc]; exact fun h ↦ h)) (fun h ↦ h)
  | moveCommand twist duration =>
    have hout : ¬ (s.calls c).Arming := by rw [hc]; exact fun h ↦ h
    simp only [hc] at hok h
    have hcount : SharedInv (s.countCommand outcome.accepted) := by
      refine sharedInv_countCommand hi fun hacc ↦ hok ?_
      unfold MoveFails
      split
      · simp [hacc]
      · intro hr
        simp [hr] at hacc
    have hleave : ∀ ok, SharedInv ((s.countCommand outcome.accepted).goto c (.finished ok)) :=
      fun ok ↦ sharedInv_goto hcount (hwindow (calls_countCommand s _).1 hout) (fun h ↦ h)
    split at h
    · cases h
      exact hleave _
    · next hd =>
      cases outcome with
      | raised =>
        cases h
        exact hleave _
      | code code =>
        cases h
        have hq : Quiet s := hok (by simp [MoveFails, hd])
        exact sharedInv_enter hcount (quiet_countCommand hq _) c
  | moveStore k =>
    simp only [hc, Option.some.injEq] at h
    subst h
    exact sharedInv_store hi hc
  | moveStart k =>
    simp only [hc, Option.some.injEq] at h
    subst h
    exact sharedInv_start hi hc _
  | stopCancel =>
    simp only [hc, Option.some.injEq] at h
    subst h
    exact sharedInv_goto (sharedInv_cancelStopTimer hi)
      (hwindow (calls_cancelStopTimer s) (by rw [hc]; exact fun h ↦ h)) (fun h ↦ h)
  | stopMove =>
    simp only [hc, Option.some.injEq] at h
    subst h
    exact sharedInv_goto hi (by rw [hc]; exact fun h ↦ h) (fun h ↦ h)
  | publishVelocity =>
    simp only [hc, Option.some.injEq] at hok h
    subst h
    exact sharedInv_goto (sharedInv_countCommand hi hok)
      (hwindow (calls_countCommand s _).1 (by rw [hc]; exact fun h ↦ h)) (fun h ↦ h)

/-- Every step keeps the invariant when its command goes through quietly. -/
theorem sharedInv_step {s s' : Shared} {a : SharedStep} (hi : SharedInv s)
    (hok : QuietCommands s a) (h : s.step a = some s') : SharedInv s' := by
  cases a with
  | call c operation =>
    obtain ⟨hready, rfl⟩ : s.calls c = .ready ∧ s.goto c operation.entry = s' := by
      simpa [Shared.step] using h
    have hentry : ¬ operation.entry.Arming := by
      cases operation <;> exact fun h ↦ h
    exact sharedInv_goto hi (by rw [hready]; exact fun h ↦ h) hentry
  | advance c outcome => exact sharedInv_advance hi hok h
  | timerBegin t =>
    obtain ⟨harmed, rfl⟩ : (s.timers t).phase = .armed ∧ s.setPhase t .running = s' := by
      simpa [Shared.step] using h
    exact sharedInv_setPhase hi (Or.inl harmed) (Or.inl rfl)
  | timerStop t =>
    obtain ⟨hrun, hs'⟩ : (s.timers t).phase = .running ∧
        { s.setPhase t .done with stops := s.stops ++ [((s.timers t).command, s.accepted)] } =
          s' := by
      simpa [Shared.step] using h
    have hd := sharedInv_setPhase hi (Or.inr hrun) (Or.inr rfl)
    subst hs'
    have hclean : NoStaleStop
        { s.setPhase t .done with
          stops := s.stops ++ [((s.timers t).command, s.accepted)] } := by
      intro stop hstop
      rcases List.mem_append.mp hstop with hold | hnew
      · exact hi.clean stop hold
      · obtain rfl := List.mem_singleton.mp hnew
        exact (hi.newest t (Or.inr (Or.inr hrun))).ge
    exact ⟨hd.stored, hd.created, hd.unborn, hd.newest, hd.arming, hd.storing, hclean⟩

private theorem sharedInv_initial : SharedInv {} :=
  ⟨fun _ h ↦ (nomatch h), fun _ h ↦ (nomatch h), fun _ _ ↦ rfl,
    fun _ h ↦ by simp [ThreadPhase.Pending] at h, fun _ h ↦ h.elim, fun _ _ h ↦ (nomatch h),
    fun _ h ↦ (nomatch h)⟩

/-- In every run whose motion commands all go through in quiet moments, no automatic stop
is stale and the next `move` or `stop` can reach every armed timer. -/
theorem stopTimer_safe_of_quiet (steps : List SharedStep)
    (hok : AllSteps Shared.step QuietCommands {} steps) :
    AllStates Shared.step (fun s ↦ NoStaleStop s ∧ ArmedStored s) {} steps :=
  hok.allStates sharedInv_initial (fun _ _ _ hi ha h ↦ sharedInv_step hi ha h)
    (fun _ hi ↦ ⟨hi.clean, hi.stored⟩)

private def forwardMove : Operation := .move ⟨⟨1, 0, 0⟩, ⟨0, 0, 0⟩⟩ 0

private theorem quiet_of_lt {s : Shared} (n m : ℕ) (htimers : ∀ t < n, ¬ (s.timers t).phase.Pending)
    (hunborn : ∀ t, s.timers (t + n) = {}) (hcalls : ∀ c < m, ¬ (s.calls c).Arming)
    (hready : ∀ c, s.calls (c + m) = .ready) : Quiet s := by
  constructor
  · intro t
    rcases Nat.lt_or_ge t n with hlt | hge
    · exact htimers t hlt
    · obtain ⟨k, rfl⟩ := Nat.exists_eq_add_of_le' hge
      rw [hunborn k]
      decide
  · intro c
    rcases Nat.lt_or_ge c m with hlt | hge
    · exact hcalls c hlt
    · obtain ⟨k, rfl⟩ := Nat.exists_eq_add_of_le' hge
      rw [hready k]
      exact id

/-- A continuous `move` whose timer fires, a velocity published after that, and two more
continuous moves, the second of which cancels the timer of the first and arms its own. -/
def renewedRun : List SharedStep :=
  [.call 0 forwardMove, .advance 0 (.code 0), .advance 0 (.code 0), .advance 0 (.code 0),
    .advance 0 (.code 0), .timerBegin 0, .timerStop 0,
    .call 1 .publishVelocity, .advance 1 (.code 0),
    .call 2 forwardMove, .advance 2 (.code 0), .advance 2 (.code 0), .advance 2 (.code 0),
    .advance 2 (.code 0),
    .call 3 forwardMove, .advance 3 (.code 0), .advance 3 (.code 0), .advance 3 (.code 0),
    .advance 3 (.code 0)]

/-- `stopTimer_safe_of_quiet` where a timer stops the robot, another one is cancelled and a third
one is armed, between four motion commands that all go through. -/
theorem stopTimer_safe_of_quiet_renewedRun :
    AllStates Shared.step (fun s ↦ NoStaleStop s ∧ ArmedStored s) {} renewedRun ∧
      ∃ s, run Shared.step {} renewedRun = some s ∧ s.stops = [(1, 1)] ∧ s.accepted = 4 ∧
        (s.timers 1).phase = .cancelled ∧ (s.timers 2).phase = .armed := by
  refine ⟨stopTimer_safe_of_quiet _ ?_, ⟨_, rfl, rfl, rfl, rfl, rfl⟩⟩
  -- The first move, until its timer has fired.
  refine .cons rfl trivial <| .cons rfl trivial <| .cons rfl (fun _ ↦ quiet_of_lt 0 1 (by decide)
    (fun _ ↦ rfl) (by decide) fun _ ↦ rfl) <| .cons rfl trivial <| .cons rfl trivial <|
      .cons rfl trivial <| .cons rfl trivial ?_
  refine .cons rfl trivial <| .cons rfl (fun _ ↦ quiet_of_lt 1 2 (by decide) (fun _ ↦ rfl)
    (by decide) fun _ ↦ rfl) ?_
  -- The second move, whose timer is armed, and the third, which cancels it.
  refine .cons rfl trivial <| .cons rfl trivial <| .cons rfl (fun _ ↦ quiet_of_lt 1 3 (by decide)
    (fun _ ↦ rfl) (by decide) fun _ ↦ rfl) <| .cons rfl trivial <| .cons rfl trivial ?_
  exact .cons rfl trivial <| .cons rfl trivial <| .cons rfl (fun _ ↦ quiet_of_lt 2 4 (by decide)
    (fun _ ↦ rfl) (by decide) fun _ ↦ rfl) <| .cons rfl trivial <| .cons rfl trivial allSteps_nil

/-- `publish_request` sends a newer velocity without touching the stop timer of the
continuous `Move` before it: the timer's `StopMove` then cuts off the newer motion. -/
theorem stale_stop_after_publish_request :
    ¬ ∀ steps, AllStates Shared.step (fun s ↦ NoStaleStop s ∧ ArmedStored s) {} steps := by
  intro h
  have hbad := h [.call 0 forwardMove, .advance 0 (.code 0), .advance 0 (.code 0),
    .advance 0 (.code 0), .advance 0 (.code 0), .call 1 .publishVelocity, .advance 1 (.code 0),
    .timerBegin 0, .timerStop 0] _ _ (List.prefix_refl _) rfl
  exact absurd (hbad.1 (1, 2) (List.mem_singleton.mpr rfl)) (by decide)

end HzjDds.G1
