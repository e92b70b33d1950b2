import HzjDds.Rmw.Settle
import HzjDds.Rmw.Told
import HzjDds.Rmw.Wait
import HzjDds.Transition.Simulation

/-!
# Threads that wait through `__rmw_wait`

Library `Rmw`. Source: `vendor/rmw_fastrtps/rmw_fastrtps_shared_cpp/src/rmw_wait.cpp:195–284`, over
the wait sets of Fast DDS. A call that does not skip its wait attaches the conditions of its
entities, waits, and detaches them again. A wait set is used by one thread at a time, as
`vendor/rmw/rmw/include/rmw/rmw.h:2653` asks.
-/

namespace HzjDds.Rmw

open HzjDds.Cpp HzjDds.Transition

universe u v

/-- A condition that `__rmw_wait` attaches: the status condition of a reader or of a writer, the guard
of an event of a listener, a guard condition. -/
inductive RmwCondition where
  | reader (data_reader : ℕ)
  | writer (data_writer : ℕ)
  | eventGuard (listener : ℕ) (event_type : StatusKind)
  | guard (guard_condition : ℕ)
  deriving DecidableEq, Repr

/-- A listener of events is an `RMWSubscriptionEvent` or an `RMWPublisherEvent`. -/
inductive EventListener where
  | subscription (data_reader : ℕ)
  | publisher (data_writer : ℕ)

/-- `get_statuscondition`, that of the reader or writer; `custom_subscriber_info.cpp:120–123`,
`custom_publisher_info.cpp:100–103`. -/
def EventListener.getStatuscondition : EventListener → RmwCondition
  | subscription data_reader => .reader data_reader
  | publisher data_writer => .writer data_writer

/-- The arrays of a wait, and what the listeners of events are. -/
structure WaitEntities extends Entities where
  listeners : ℕ → EventListener

/-- `attached_conditions`; `rmw_wait.cpp:204–259`. -/
def WaitEntities.attachedConditions (entities : WaitEntities) : List RmwCondition :=
  ((entities.subscriptions.getD []).flatMap fun info ↦
    .reader info.data_reader :: (info.cpu_data_reader.toList.map .reader ++
      info.accel_data_reader.toList.map .reader)) ++
  (entities.clients.getD []).map .reader ++
  (entities.services.getD []).map .reader ++
  ((entities.events.getD []).flatMap fun e ↦
    [(entities.listeners e.listener).getStatuscondition, .eventGuard e.listener e.event_type]) ++
  (entities.guard_conditions.getD []).map .guard

/-- Where a call of `__rmw_wait` is: conditions that it has still to attach or to detach, or the
wait between. -/
inductive RmwWaitPc where
  | attaching (rest : List RmwCondition)
  | waiting
  | detaching (rest : List RmwCondition)
  deriving DecidableEq, Repr

/-- A call of `__rmw_wait`; `timed` says that `wait_timeout` is no null pointer. -/
structure RmwWait (ω : Type v) where
  wait_set : ω
  entities : WaitEntities
  timed : Bool
  pc : RmwWaitPc

/-- Wait sets and the calls of `__rmw_wait` on them. -/
structure RmwWaits (θ : Type u) (ω : Type v) where
  sets : WaitSets θ ω RmwCondition
  waits : θ → Option (RmwWait ω) := fun _ ↦ none

/-- A thread calls `__rmw_wait` or changes a condition, goes on, wakes up by itself, or finds its
timeout over. -/
inductive RmwWaitsAction (θ : Type u) (ω : Type v) where
  | rmw_wait (thread : θ) (wait_set : ω) (entities : WaitEntities) (timed : Bool)
  | change (thread : θ) (condition : RmwCondition) (change : Change)
  | next (thread : θ)
  | wakeUp (thread : θ)
  | timeout (thread : θ)

variable {θ : Type u} {ω : Type v}

namespace RmwWait

/-- The next call of the wait set, and where `__rmw_wait` is during it. -/
def nextCall (r : RmwWait ω) : Option (WaitSetCall ω RmwCondition × RmwWaitPc) :=
  match r.pc with
  | .attaching (c :: rest) => some (.attach_condition r.wait_set c, .attaching rest)
  | .attaching [] => some (.wait r.wait_set r.timed, .waiting)
  | .waiting => detachNext r.entities.attachedConditions
  | .detaching rest => detachNext rest
where
  /-- The next condition to detach. -/
  detachNext : List RmwCondition → Option (WaitSetCall ω RmwCondition × RmwWaitPc)
    | [] => none
    | c :: rest => some (.detach_condition r.wait_set c, .detaching rest)

/-- Calls of the wait set that are still to make, and the return. -/
def left (r : RmwWait ω) : ℕ :=
  match r.pc with
  | .attaching rest => rest.length + r.entities.attachedConditions.length + 2
  | .waiting => r.entities.attachedConditions.length + 1
  | .detaching rest => rest.length + 1

/-- The next call leaves less to make. -/
theorem left_nextCall {r : RmwWait ω} {call : WaitSetCall ω RmwCondition} {pc : RmwWaitPc}
    (h : r.nextCall = some (call, pc)) : left { r with pc } < r.left := by
  obtain ⟨w, entities, timed, rest | _ | rest⟩ := r
  · cases rest with
    | nil =>
      cases h
      simp [left]
    | cons c rest =>
      cases h
      simp [left]
  · simp only [nextCall] at h
    cases hconditions : entities.attachedConditions with
    | nil =>
      rw [hconditions] at h
      cases h
    | cons c rest =>
      rw [hconditions] at h
      cases h
      simp [left, hconditions]
  · cases rest with
    | nil => cases h
    | cons c rest =>
      cases h
      simp [left]

end RmwWait

namespace RmwWaits

variable [DecidableEq θ] [DecidableEq ω]

omit [DecidableEq ω] in
/-- The call of a thread begins, goes on or is over. -/
@[simps]
def setWait (s : RmwWaits θ ω) (t : θ) (r : Option (RmwWait ω)) : RmwWaits θ ω :=
  { s with waits := Function.update s.waits t r }

/-- A step of the wait sets. -/
def lift (s : RmwWaits θ ω) (a : WaitSetAction θ ω RmwCondition) : Option (RmwWaits θ ω) :=
  (s.sets.step a).map fun sets ↦ { s with sets }

/-- One step. -/
def step (s : RmwWaits θ ω) : RmwWaitsAction θ ω → Option (RmwWaits θ ω)
  | .rmw_wait t w entities timed =>
    if s.waits t = none ∧ s.sets.calls t = none then
      some (s.setWait t (some ⟨w, entities, timed, .attaching entities.attachedConditions⟩))
    else none
  | .change t c change => if s.waits t = none then s.lift (.call t (.change c change)) else none
  | .next t =>
    if s.sets.calls t = none then
      (s.waits t).bind fun r ↦
        match r.nextCall with
        | some (call, pc) => (s.setWait t (some { r with pc })).lift (.call t call)
        | none => some (s.setWait t none)
    else s.lift (.next t)
  | .wakeUp t => s.lift (.wakeUp t)
  | .timeout t => s.lift (.timeout t)

/-- What a step does to the wait sets. -/
def emits (s : RmwWaits θ ω) : RmwWaitsAction θ ω → List (WaitSetAction θ ω RmwCondition)
  | .rmw_wait _ _ _ _ => []
  | .change t c change => [.call t (.change c change)]
  | .next t =>
    if s.sets.calls t = none then
      (((s.waits t).bind RmwWait.nextCall).map fun (call, _) ↦ .call t call).toList
    else [.next t]
  | .wakeUp t => [.wakeUp t]
  | .timeout t => [.timeout t]

/-- No `__rmw_wait` begins on a wait set that another one uses. -/
def WaitsAlone (s : RmwWaits θ ω) : RmwWaitsAction θ ω → Prop
  | .rmw_wait _ w _ _ => ∀ t r, s.waits t = some r → r.wait_set ≠ w
  | _ => True

/-- The condition can be checked along a run of finitely many threads. -/
instance [Fintype θ] (s : RmwWaits θ ω) : ∀ a, Decidable (WaitsAlone s a)
  | .rmw_wait _ w _ _ =>
    decidable_of_iff (∀ t, ∀ r ∈ s.waits t, r.wait_set ≠ w) (by simp [WaitsAlone])
  | .change _ _ _ | .next _ | .wakeUp _ | .timeout _ => isTrue trivial

end RmwWaits

end HzjDds.Rmw
