import HzjDds.Rmw.EventStatus
import HzjDds.Transition.Callers

/-!
# The events of a subscription

Library `Rmw`. Source: `vendor/rmw_fastrtps/rmw_fastrtps_shared_cpp/src/custom_subscriber_info.cpp`
(36–108, 125–415, 493–596) and `vendor/Fast-DDS/src/cpp/fastdds/subscriber/DataReaderImpl.cpp`
(943–1031, 1189–1207, 1318–1345, 1366–1383, 1414–1495, 1902–1916). Threads below the reader tell it
what occurs, and it hands the statuses in its mask to the listener of the subscription; other threads
take events and set the callback of an event. Each step is what one thread does between two points
where it may have to wait for a mutex. Callbacks of the user return and touch nothing of this.
-/

namespace HzjDds.Rmw

open HzjDds.Transition

universe u

/-- Mutexes: `matching_info_mutex_` of the reader's inner listener, `getMutex()` of the reader and
`on_new_event_m_` of the subscription. -/
inductive EventMutex where
  | matching_info
  | reader
  | on_new_event
  deriving DecidableEq, Repr

/-- Mutex under which the layer below tells a reader what occurs; incompatible policies come
without one. -/
def Occurrence.mutex : Occurrence → Option EventMutex
  | liveliness .. | deadline_missed | deadline_ignored | sample_lost _ => some .reader
  | matched _ => some .matching_info
  | incompatible_qos _ | inconsistent_topic .. => none

/-- What the status of an event is queried for: `take_event`, or `set_on_new_event_callback` with
whether there is a callback and the mask that it has read. -/
inductive EventUse where
  | take
  | set (callback : Bool) (status_mask : StatusMask)
  deriving DecidableEq

/-- Next step of a call. In `lockEvent` and `update`, `status` is what the listener gets, `none` where
it gets a reference to the status of the reader. -/
inductive EventPc where
  | enter (o : Occurrence)
  | record (o : Occurrence)
  | dispatch (o : Occurrence)
  | get (o : Occurrence)
  | lockEvent (o : Occurrence) (status : Option EventStatus)
  | update (o : Occurrence) (status : Option EventStatus)
  | finish (o : Occurrence)
  | getMask (event_type : RmwEventType) (callback : Bool)
  | lock (event_type : RmwEventType) (use : EventUse)
  | check (event_type : RmwEventType) (use : EventUse)
  | query (event_type : RmwEventType) (use : EventUse)
  | relock (event_type : RmwEventType) (use : EventUse) (current : EventStatus)
  | adopt (event_type : RmwEventType) (use : EventUse) (current : EventStatus)
  | report (event_type : RmwEventType)
  | tell (event_type : RmwEventType) (status_mask : StatusMask)
  | install (event_type : RmwEventType) (status_mask : StatusMask)
  | setListener (status_mask : StatusMask)

/-- A call: something occurs, or the subscription is called. -/
inductive EventCall where
  | occur (o : Occurrence)
  | take_event (event_type : RmwEventType)
  | set_on_new_event_callback (event_type : RmwEventType) (callback : Bool)

/-- First step of a call. -/
def EventCall.first : EventCall → EventPc
  | occur o => .enter o
  | take_event event_type => .lock event_type .take
  | set_on_new_event_callback event_type callback => .getMask event_type callback

/-- A subscription with its reader and the calls in progress. -/
structure RMWSubscriptionEvent (θ : Type u) where
  mutexes : EventMutex → Option θ := fun _ ↦ none
  statuses : RmwEventType → EventStatus := fun _ ↦ {}
  status_mask : StatusMask := {.subscription_matched}
  changed : RmwEventType → Bool := fun _ ↦ false
  event_statuses : RmwEventType → EventStatus := fun _ ↦ {}
  event_guard : RmwEventType → Bool := fun _ ↦ false
  calls : θ → Option EventPc := fun _ ↦ none

/-- A thread makes a call or goes on with its call. -/
inductive EventAction (θ : Type u) where
  | call (thread : θ) (call : EventCall)
  | next (thread : θ)

/-- Whether the status of an event is compared with a flag before and after the query; that of
`subscription_matched` is not, and `get_inconsistent_topic_status` is not supported. -/
def RmwEventType.queried : RmwEventType → Bool
  | subscription_incompatible_type | subscription_matched => false
  | _ => true

namespace RMWSubscriptionEvent

variable {θ : Type u} [DecidableEq θ]

/-- The call of a thread goes on, or is over. -/
@[simps calls mutexes changed event_statuses]
def goto (s : RMWSubscriptionEvent θ) (t : θ) (pc : Option EventPc) :
    RMWSubscriptionEvent θ :=
  { s with calls := Function.update s.calls t pc }

omit [DecidableEq θ] in
/-- A mutex is locked or unlocked. -/
@[simps mutexes calls event_statuses]
def setMutex (s : RMWSubscriptionEvent θ) (m : EventMutex) (holder : Option θ) :
    RMWSubscriptionEvent θ :=
  { s with mutexes := Function.update s.mutexes m holder }

omit [DecidableEq θ] in
/-- The status of the reader changes. -/
@[simps calls]
def setStatus (s : RMWSubscriptionEvent θ) (e : RmwEventType) (status : EventStatus) :
    RMWSubscriptionEvent θ :=
  { s with statuses := Function.update s.statuses e status }

omit [DecidableEq θ] in
/-- The status that the subscription keeps changes. -/
@[simps calls changed event_statuses statuses]
def setEventStatus (s : RMWSubscriptionEvent θ) (e : RmwEventType) (status : EventStatus) :
    RMWSubscriptionEvent θ :=
  { s with event_statuses := Function.update s.event_statuses e status }

omit [DecidableEq θ] in
/-- The flag of an event changes. -/
@[simps calls event_statuses statuses]
def setChanged (s : RMWSubscriptionEvent θ) (e : RmwEventType) (changed : Bool) :
    RMWSubscriptionEvent θ :=
  { s with changed := Function.update s.changed e changed }

omit [DecidableEq θ] in
/-- The guard condition of an event is set. -/
@[simps calls event_statuses statuses]
def setGuard (s : RMWSubscriptionEvent θ) (e : RmwEventType) (trigger_value : Bool) :
    RMWSubscriptionEvent θ :=
  { s with event_guard := Function.update s.event_guard e trigger_value }

omit [DecidableEq θ] in
/-- The status mask of the reader is set. -/
@[simps calls]
def setStatusMask (s : RMWSubscriptionEvent θ) (status_mask : StatusMask) :
    RMWSubscriptionEvent θ :=
  { s with status_mask }

/-- A thread waits for a mutex and goes on with it. -/
def acquire (s : RMWSubscriptionEvent θ) (t : θ) (m : EventMutex) (pc : EventPc) :
    Option (RMWSubscriptionEvent θ) :=
  if s.mutexes m = none then some ((s.setMutex m (some t)).goto t (some pc)) else none

/-- A thread gives a mutex back and goes on. -/
def release (s : RMWSubscriptionEvent θ) (t : θ) (m : EventMutex) (pc : Option EventPc) :
    RMWSubscriptionEvent θ :=
  (s.setMutex m none).goto t pc

/-- Next step of a call: what the layer below and the reader do
(`DataReaderImpl.cpp:943–1031,1318–1345`) with `update_*` and `trigger_event`
(`custom_subscriber_info.cpp:36–108,493–596`), then `take_event` and `set_on_new_event_callback`
(`125–415`). -/
def next (s : RMWSubscriptionEvent θ) (t : θ) : EventPc → Option (RMWSubscriptionEvent θ)
  | .enter o => o.mutex.elim (some (s.goto t (some (.record o)))) fun m ↦ s.acquire t m (.record o)
  | .record o =>
    some ((s.setStatus o.event_type (o.record (s.statuses o.event_type))).goto t
      (some (if o.brought.isSome then .lockEvent o o.brought else .dispatch o)))
  | .dispatch o =>
    -- `get_listener_for`; the status of missed deadlines is passed on by reference
    some (s.goto t (some (if o.event_type.status ∈ s.status_mask then
      if o.event_type = .requested_deadline_missed then .lockEvent o none else .get o
      else .finish o)))
  | .get o =>
    if s.mutexes .reader = none ∨ s.mutexes .reader = some t then
      let status := s.statuses o.event_type
      -- `on_subscription_matched` leaves what is not a change by one
      some ((s.setStatus o.event_type status.clear).goto t
        (some (if o.event_type = .subscription_matched ∧ status.change .current ≠ 1 ∧
          status.change .current ≠ -1 then .finish o else .lockEvent o (some status))))
    else none
  | .lockEvent o status => s.acquire t .on_new_event (.update o status)
  | .update o status =>
    let e := o.event_type
    -- `notify_deadline_missed_nts_` sets the change to 0 after the call, still under its mutex
    some (((((s.setEventStatus e ((s.event_statuses e).accumulate
      (status.getD (s.statuses e)))).setChanged e true).setGuard e true).setStatus e
        (if status.isNone then (s.statuses e).clear else s.statuses e)).release t .on_new_event
          (some (.finish o)))
  | .finish o => some (o.mutex.elim (s.goto t none) fun m ↦ s.release t m none)
  | .getMask e callback => some (s.goto t (some (.lock e (.set callback s.status_mask))))
  | .lock e use => s.acquire t .on_new_event (.check e use)
  | .check e .take =>
    if e = .subscription_matched ∨ e.queried = true ∧ s.changed e = false then
      some (s.release t .on_new_event (some (.query e .take)))
    else some ((s.setChanged e false).goto t (some (.report e)))
  | .check e (.set false status_mask) =>
    some (s.release t .on_new_event (some (.setListener
      (if e = .subscription_matched then status_mask else status_mask \ e.toDdsStatusmask))))
  | .check e (.set true status_mask) =>
    if e.queried = true ∨ e = .subscription_matched ∧ (s.event_statuses e).isPositive e = true then
      some (s.release t .on_new_event (some (.query e (.set true status_mask))))
    else some (s.goto t (some
      (if e = .subscription_matched then .install e status_mask else .tell e status_mask)))
  | .query e use =>
    if s.mutexes .reader = none then
      some ((s.setStatus e (s.statuses e).clear).goto t (some (.relock e use (s.statuses e))))
    else none
  | .relock e use current => s.acquire t .on_new_event (.adopt e use current)
  | .adopt e .take current =>
    if e = .subscription_matched then
      some ((((s.setEventStatus e (s.event_statuses e).clear).setChanged e false).setGuard e
        false).release t .on_new_event none)
    else
      some (((s.setEventStatus e (if s.changed e then s.event_statuses e else current)).setChanged e
        false).goto t (some (.report e)))
  | .adopt e (.set _ status_mask) current =>
    if e = .subscription_matched then
      some ((s.setEventStatus e current.clear).goto t (some (.install e status_mask)))
    else
      some ((s.setEventStatus e (if s.changed e then s.event_statuses e else current)).goto t
        (some (.tell e status_mask)))
  | .report e =>
    some (((s.setEventStatus e (s.event_statuses e).clear).setGuard e false).release t .on_new_event
      none)
  | .tell e status_mask =>
    some ((s.setEventStatus e (if (s.event_statuses e).isPositive e then (s.event_statuses e).clear
      else s.event_statuses e)).goto t (some (.install e status_mask)))
  | .install e status_mask =>
    some (s.release t .on_new_event (some (.setListener (status_mask ∪ e.toDdsStatusmask))))
  | .setListener status_mask => some ((s.setStatusMask status_mask).goto t none)

/-- What `take_event` fills in, in the step in which it returns. -/
def taken (s : RMWSubscriptionEvent θ) : EventPc → Option (RmwEventType × EventStatus)
  | .report e => some (e, s.event_statuses e)
  | .adopt .subscription_matched .take current => some (.subscription_matched,
      { current with change := fun c ↦ current.change c +
          if s.changed .subscription_matched then
            (s.event_statuses .subscription_matched).change c else 0 })
  | _ => none

/-- What a new callback is told of. -/
def told (s : RMWSubscriptionEvent θ) : EventPc → Option (RmwEventType × EventStatus)
  | .tell e _ => if (s.event_statuses e).isPositive e then some (e, s.event_statuses e) else none
  | .check .subscription_matched (.set true _) =>
    if (s.event_statuses .subscription_matched).isPositive .subscription_matched then
      some (.subscription_matched, s.event_statuses .subscription_matched)
    else none
  | _ => none

/-- One step. -/
def step (s : RMWSubscriptionEvent θ) : EventAction θ → Option (RMWSubscriptionEvent θ)
  | .call t call => if s.calls t = none then some (s.goto t (some call.first)) else none
  | .next t => (s.calls t).bind (s.next t)

end RMWSubscriptionEvent

end HzjDds.Rmw
