import HzjDds.Transition.Run
import Mathlib.Data.List.Nodup
import Mathlib.Data.List.Perm.Subperm

/-!
# Completion signal of the throughput harness

Library `PubSub`. Source: `dimos/protocol/pubsub/benchmark/test_benchmark.py:85–158`, `type.py:45–76`.
The publishing thread changes the target without the lock; callbacks compare against it under the
lock. A step is one statement of the publishing thread or of the callback that holds the lock, or
the hand-over of a message to a callback; time passes in between, in nanoseconds.
-/

namespace HzjDds.PubSub.Throughput

open HzjDds.Transition

/-- `MAX_MESSAGES`. -/
def maxMessages : ℕ := 5000

/-- `BENCH_DURATION`. -/
def benchDuration : ℕ := 1000000000

/-- `RECEIVE_TIMEOUT`. -/
def receiveTimeout : ℕ := 1000000000

/-- `BenchmarkResult`, with its times in nanoseconds. -/
structure BenchmarkResult where
  transport : String
  duration : ℤ
  msgs_sent : ℕ
  msgs_received : ℕ
  msg_size_bytes : ℕ
  receive_time : ℤ
  deriving DecidableEq, Repr

/-- Next statement of the publishing thread; in `check` and `readReceived` it holds the lock. -/
inductive MainPc where
  | setTarget
  | takeStart
  | loopTest
  | publish
  | publishing
  | checkEarly
  | takePublishEnd
  | storeTarget
  | lockCheck
  | check
  | isSet
  | wait
  | waiting (deadline : ℕ)
  | takeLatencyEnd
  | lockFinal
  | readReceived
  | done
  deriving DecidableEq, Repr

/-- Next statement of the callback that holds the lock. -/
inductive CallbackPc where
  | testPositive
  | testCount
  | setEvent
  | release
  deriving DecidableEq, Repr

/-- Variables of `test_throughput`. The event is kept as the time it was set. A message goes from
`inFlight` to `calls`, the callbacks that want the lock, to `holder`, and is `finished` at a time;
one that stays in flight is lost. `deadline` and `expired` are history: the end of the timeout of a
wait that found the event unset, and whether the wait ran to it. -/
structure Harness where
  now : ℕ := 0
  pc : MainPc := .setTarget
  targetCount : ℕ := 0
  msgsSent : ℕ := 0
  receivedCount : ℕ := 0
  event : Option ℕ := none
  start : ℕ := 0
  publishEnd : ℕ := 0
  latencyEnd : ℕ := 0
  published : ℕ := 0
  inFlight : List ℕ := []
  calls : List ℕ := []
  holder : Option (ℕ × CallbackPc) := none
  finished : List (ℕ × ℕ) := []
  deadline : Option ℕ := none
  expired : Bool := false
  result : Option BenchmarkResult := none
  deriving DecidableEq, Repr

/-- What can happen next: time passes, the publishing thread executes a statement (`woken` says how
a wait in progress ends), a message reaches its callback, a callback takes the lock and counts, or
the callback that holds it executes a statement. -/
inductive Action where
  | tick (elapsed : ℕ)
  | main (woken : Bool)
  | deliver (m : ℕ)
  | acquire (m : ℕ)
  | callback
  deriving DecidableEq, Repr

namespace Harness

/-- The publishing thread holds the lock. -/
def locked (s : Harness) : Bool :=
  match s.pc with
  | .check => true
  | .readReceived => true
  | _ => false

/-- `all_received.set()`. -/
def signal (s : Harness) : Option ℕ := some (s.event.getD s.now)

/-- Next statement of the publishing thread. -/
def main (transport : String) (msg_size : ℕ) (s : Harness) (woken : Bool) : Option Harness :=
  match s.pc with
  | .setTarget => some { s with targetCount := maxMessages, pc := .takeStart }
  | .takeStart => some { s with start := s.now, pc := .loopTest }
  | .loopTest =>
    if s.now < s.start + benchDuration ∧ s.msgsSent < maxMessages then
      some { s with pc := .publish }
    else some { s with pc := .takePublishEnd }
  | .publish => some { s with
      inFlight := s.inFlight ++ [s.published]
      published := s.published + 1
      pc := .publishing }
  | .publishing => some { s with msgsSent := s.msgsSent + 1, pc := .checkEarly }
  | .checkEarly =>
    some { s with pc := if s.event.isSome then .takePublishEnd else .loopTest }
  | .takePublishEnd => some { s with publishEnd := s.now, pc := .storeTarget }
  | .storeTarget => some { s with targetCount := s.msgsSent, pc := .lockCheck }
  | .lockCheck => if s.holder.isSome then none else some { s with pc := .check }
  | .check =>
    if s.msgsSent ≤ s.receivedCount then some { s with event := s.signal, pc := .isSet }
    else some { s with pc := .isSet }
  | .isSet => some { s with pc := if s.event.isSome then .takeLatencyEnd else .wait }
  | .wait =>
    if s.event.isSome then some { s with pc := .takeLatencyEnd }
    else some { s with
      deadline := some (s.now + receiveTimeout)
      pc := .waiting (s.now + receiveTimeout) }
  | .waiting deadline =>
    if woken then if s.event.isSome then some { s with pc := .takeLatencyEnd } else none
    else if deadline ≤ s.now ∧ ∀ set ∈ s.event, deadline ≤ set then
      some { s with expired := true, pc := .takeLatencyEnd }
    else none
  | .takeLatencyEnd => some { s with latencyEnd := s.now, pc := .lockFinal }
  | .lockFinal => if s.holder.isSome then none else some { s with pc := .readReceived }
  | .readReceived => some { s with
      result := some {
        transport := transport
        duration := (s.publishEnd : ℤ) - s.start
        msgs_sent := s.msgsSent
        msgs_received := s.receivedCount
        msg_size_bytes := msg_size
        receive_time := (s.latencyEnd : ℤ) - s.publishEnd }
      pc := .done }
  | .done => none

/-- Next statement of the callback that holds the lock. It reads the target twice. -/
def callback (s : Harness) : Option Harness :=
  match s.holder with
  | none => none
  | some (m, .testPositive) =>
    some { s with holder := some (m, if 0 < s.targetCount then .testCount else .release) }
  | some (m, .testCount) =>
    some { s with
      holder := some (m, if s.targetCount ≤ s.receivedCount then .setEvent else .release) }
  | some (m, .setEvent) => some { s with event := s.signal, holder := some (m, .release) }
  | some (m, .release) => some { s with holder := none, finished := s.finished ++ [(m, s.now)] }

/-- One step. -/
def step (transport : String) (msg_size : ℕ) (s : Harness) : Action → Option Harness
  | .tick elapsed => some { s with now := s.now + elapsed }
  | .main woken => s.main transport msg_size woken
  | .deliver m =>
    if m ∈ s.inFlight then some { s with inFlight := s.inFlight.erase m, calls := s.calls ++ [m] }
    else none
  | .acquire m =>
    if m ∈ s.calls ∧ s.holder = none ∧ s.locked = false then some { s with
      calls := s.calls.erase m
      holder := some (m, .testPositive)
      receivedCount := s.receivedCount + 1 }
    else none
  | .callback => s.callback

/-! ## What one statement does -/

/-- The statements of the publishing thread, each with what it finds and what it leaves. -/
inductive MainStep (s : Harness) : Harness → Prop where
  | setTarget (hpc : s.pc = .setTarget) :
      MainStep s { s with targetCount := maxMessages, pc := .takeStart }
  | takeStart (hpc : s.pc = .takeStart) : MainStep s { s with start := s.now, pc := .loopTest }
  | goOn (hpc : s.pc = .loopTest) (hroom : s.msgsSent < maxMessages) :
      MainStep s { s with pc := .publish }
  | leave (hpc : s.pc = .loopTest) : MainStep s { s with pc := .takePublishEnd }
  | publish (hpc : s.pc = .publish) : MainStep s { s with
      inFlight := s.inFlight ++ [s.published]
      published := s.published + 1
      pc := .publishing }
  | published (hpc : s.pc = .publishing) :
      MainStep s { s with msgsSent := s.msgsSent + 1, pc := .checkEarly }
  | early (hpc : s.pc = .checkEarly) (hset : s.event.isSome) :
      MainStep s { s with pc := .takePublishEnd }
  | again (hpc : s.pc = .checkEarly) : MainStep s { s with pc := .loopTest }
  | takePublishEnd (hpc : s.pc = .takePublishEnd) :
      MainStep s { s with publishEnd := s.now, pc := .storeTarget }
  | storeTarget (hpc : s.pc = .storeTarget) :
      MainStep s { s with targetCount := s.msgsSent, pc := .lockCheck }
  | lockCheck (hpc : s.pc = .lockCheck) (hfree : s.holder = none) :
      MainStep s { s with pc := .check }
  | checkAll (hpc : s.pc = .check) (hall : s.msgsSent ≤ s.receivedCount) :
      MainStep s { s with event := s.signal, pc := .isSet }
  | checkSome (hpc : s.pc = .check) (hsome : s.receivedCount < s.msgsSent) :
      MainStep s { s with pc := .isSet }
  | isSet (hpc : s.pc = .isSet) (hset : s.event.isSome) :
      MainStep s { s with pc := .takeLatencyEnd }
  | notSet (hpc : s.pc = .isSet) : MainStep s { s with pc := .wait }
  | waitSet (hpc : s.pc = .wait) (hset : s.event.isSome) :
      MainStep s { s with pc := .takeLatencyEnd }
  | waitUnset (hpc : s.pc = .wait) : MainStep s { s with
      deadline := some (s.now + receiveTimeout)
      pc := .waiting (s.now + receiveTimeout) }
  | woken (deadline : ℕ) (hpc : s.pc = .waiting deadline) (hset : s.event.isSome) :
      MainStep s { s with pc := .takeLatencyEnd }
  | expired (deadline : ℕ) (hpc : s.pc = .waiting deadline) (hnow : deadline ≤ s.now)
      (hset : ∀ set ∈ s.event, deadline ≤ set) :
      MainStep s { s with expired := true, pc := .takeLatencyEnd }
  | takeLatencyEnd (hpc : s.pc = .takeLatencyEnd) :
      MainStep s { s with latencyEnd := s.now, pc := .lockFinal }
  | lockFinal (hpc : s.pc = .lockFinal) : MainStep s { s with pc := .readReceived }
  | readReceived (hpc : s.pc = .readReceived) (r : BenchmarkResult) (hsent : r.msgs_sent = s.msgsSent)
      (hreceived : r.msgs_received = s.receivedCount)
      (htime : r.receive_time = (s.latencyEnd : ℤ) - s.publishEnd) :
      MainStep s { s with result := some r, pc := .done }

/-- A statement of the publishing thread is one of these. -/
theorem main_cases {transport : String} {msg_size : ℕ} {s s' : Harness} {woken : Bool}
    (hs : s.main transport msg_size woken = some s') : MainStep s s' := by
  unfold Harness.main at hs
  cases hpc : s.pc with
  | setTarget =>
    simp only [hpc, Option.some.injEq] at hs
    subst hs
    exact .setTarget hpc
  | takeStart =>
    simp only [hpc, Option.some.injEq] at hs
    subst hs
    exact .takeStart hpc
  | loopTest =>
    simp only [hpc] at hs
    split at hs
    · next hroom =>
        cases hs
        exact .goOn hpc hroom.2
    · cases hs
      exact .leave hpc
  | publish =>
    simp only [hpc, Option.some.injEq] at hs
    subst hs
    exact .publish hpc
  | publishing =>
    simp only [hpc, Option.some.injEq] at hs
    subst hs
    exact .published hpc
  | checkEarly =>
    simp only [hpc, Option.some.injEq] at hs
    subst hs
    split
    · next hset => exact .early hpc hset
    · exact .again hpc
  | takePublishEnd =>
    simp only [hpc, Option.some.injEq] at hs
    subst hs
    exact .takePublishEnd hpc
  | storeTarget =>
    simp only [hpc, Option.some.injEq] at hs
    subst hs
    exact .storeTarget hpc
  | lockCheck =>
    simp only [hpc] at hs
    split at hs
    · contradiction
    · next hfree =>
        cases hs
        exact .lockCheck hpc (by simpa using hfree)
  | check =>
    simp only [hpc] at hs
    split at hs
    · next hall =>
        cases hs
        exact .checkAll hpc hall
    · next hsome =>
        cases hs
        exact .checkSome hpc (Nat.not_le.mp hsome)
  | isSet =>
    simp only [hpc, Option.some.injEq] at hs
    subst hs
    split
    · next hset => exact .isSet hpc hset
    · exact .notSet hpc
  | wait =>
    simp only [hpc] at hs
    split at hs
    · next hset =>
      cases hs
      exact .waitSet hpc hset
    · cases hs
      exact .waitUnset hpc
  | waiting deadline =>
    simp only [hpc] at hs
    split at hs
    · split at hs
      · next hset =>
        cases hs
        exact .woken deadline hpc hset
      · contradiction
    · split at hs
      · next hend =>
          cases hs
          exact .expired deadline hpc hend.1 hend.2
      · contradiction
  | takeLatencyEnd =>
    simp only [hpc, Option.some.injEq] at hs
    subst hs
    exact .takeLatencyEnd hpc
  | lockFinal =>
    simp only [hpc] at hs
    split at hs
    · contradiction
    · cases hs
      exact .lockFinal hpc
  | readReceived =>
    simp only [hpc, Option.some.injEq] at hs
    subst hs
    exact .readReceived hpc _ rfl rfl rfl
  | done => simp [hpc] at hs

/-- The statements of a callback, each with what it finds and what it leaves. -/
inductive CallbackStep (s : Harness) : Harness → Prop where
  | positive (m : ℕ) (hpc : s.holder = some (m, .testPositive)) :
      CallbackStep s { s with holder := some (m, .testCount) }
  | notPositive (m : ℕ) (hpc : s.holder = some (m, .testPositive)) (hzero : s.targetCount = 0) :
      CallbackStep s { s with holder := some (m, .release) }
  | enough (m : ℕ) (hpc : s.holder = some (m, .testCount))
      (henough : s.targetCount ≤ s.receivedCount) :
      CallbackStep s { s with holder := some (m, .setEvent) }
  | tooFew (m : ℕ) (hpc : s.holder = some (m, .testCount))
      (hfew : s.receivedCount < s.targetCount) :
      CallbackStep s { s with holder := some (m, .release) }
  | setEvent (m : ℕ) (hpc : s.holder = some (m, .setEvent)) :
      CallbackStep s { s with event := s.signal, holder := some (m, .release) }
  | release (m : ℕ) (hpc : s.holder = some (m, .release)) :
      CallbackStep s { s with holder := none, finished := s.finished ++ [(m, s.now)] }

/-- A statement of a callback is one of these. -/
theorem callback_cases {s s' : Harness} (hs : s.callback = some s') : CallbackStep s s' := by
  unfold callback at hs
  cases hpc : s.holder with
  | none => simp [hpc] at hs
  | some call =>
    obtain ⟨m, pc⟩ := call
    cases pc with
    | testPositive =>
      simp only [hpc, Option.some.injEq] at hs
      subst hs
      split
      · exact .positive m hpc
      · next hzero => exact .notPositive m hpc (Nat.eq_zero_of_not_pos hzero)
    | testCount =>
      simp only [hpc, Option.some.injEq] at hs
      subst hs
      split
      · next henough => exact .enough m hpc henough
      · next hfew => exact .tooFew m hpc (Nat.not_le.mp hfew)
    | setEvent =>
      simp only [hpc, Option.some.injEq] at hs
      subst hs
      exact .setEvent m hpc
    | release =>
      simp only [hpc, Option.some.injEq] at hs
      subst hs
      exact .release m hpc

end Harness

end HzjDds.PubSub.Throughput
