import HzjDds.Rmw.Reader
import Mathlib.Data.BitVec

/-!
# The statuses behind the events of a subscription

Library `Rmw`. Source: `vendor/Fast-DDS/src/cpp/fastdds/subscriber/DataReaderImpl.cpp` (1166–1177,
1303–1305, 1341–1343, 1542–1606) and `vendor/rmw_fastrtps/rmw_fastrtps_shared_cpp/src`:
`rmw_event.cpp:44–88`, `custom_subscriber_info.cpp` (305–380, 493–587). A status has counts, which are
assigned, and changes, which add up until the status is read. All counters are 32 bit wide.
-/

namespace HzjDds.Rmw

/-- The events of a subscription, of `rmw_event_type_t`. -/
inductive RmwEventType where
  | liveliness_changed
  | requested_deadline_missed
  | message_lost
  | requested_qos_incompatible
  | subscription_incompatible_type
  | subscription_matched
  deriving DecidableEq, Repr

/-- The counters that a status may have. -/
inductive Counter where
  | total
  | current
  | alive
  | not_alive
  deriving DecidableEq, Repr

namespace RmwEventType

/-- Status of an event. -/
def status : RmwEventType → StatusKind
  | liveliness_changed => .liveliness_changed
  | requested_deadline_missed => .requested_deadline_missed
  | message_lost => .sample_lost
  | requested_qos_incompatible => .requested_incompatible_qos
  | subscription_incompatible_type => .inconsistent_topic
  | subscription_matched => .subscription_matched

/-- `rmw_event_to_dds_statusmask`. -/
def toDdsStatusmask (event_type : RmwEventType) : StatusMask := {event_type.status}

/-- Counters of the status of an event. -/
def counters : RmwEventType → List Counter
  | liveliness_changed => [.alive, .not_alive]
  | subscription_matched => [.total, .current]
  | _ => [.total]

end RmwEventType

/-- A communication status. -/
structure EventStatus where
  count : Counter → BitVec 32 := fun _ ↦ 0
  change : Counter → BitVec 32 := fun _ ↦ 0
  last_policy_id : ℕ := 0

namespace EventStatus

/-- The changes are set to 0, as they are when the status is read. -/
@[simps change] def clear (s : EventStatus) : EventStatus := { s with change := fun _ ↦ 0 }

/-- The counts are assigned, the changes are accumulated. -/
def accumulate (s info : EventStatus) : EventStatus :=
  { info with change := fun c ↦ s.change c + info.change c }

/-- One more for a counter. -/
@[simps change] def add (s : EventStatus) (counter : Counter) (n : BitVec 32) : EventStatus :=
  { s with
    count := Function.update s.count counter (s.count counter + n)
    change := Function.update s.change counter (s.change counter + n) }

/-- Whether a new callback is told of the changes. The counters of deadlines and of incompatible
policies are unsigned. -/
def isPositive (s : EventStatus) : RmwEventType → Bool
  | .liveliness_changed => 0 < (s.change .alive).toInt || 0 < (s.change .not_alive).toInt
  | .requested_deadline_missed | .requested_qos_incompatible => 0 < (s.change .total).toNat
  | .message_lost | .subscription_incompatible_type | .subscription_matched =>
    0 < (s.change .total).toInt

end EventStatus

/-- The largest signed number of 32 bits. -/
def int32Max : ℤ := 2 ^ 31 - 1

/-- What a reader is told of. `deadline_ignored` is a deadline period of 0; the statuses of lost
samples come with a positive number of them. -/
inductive Occurrence where
  | liveliness (alive_count not_alive_count alive_count_change not_alive_count_change : BitVec 32)
  | deadline_missed
  | deadline_ignored
  | sample_lost (samples : ℕ)
  | incompatible_qos (policies : BitVec 37)
  | matched (matching : Bool)
  | inconsistent_topic (total_count total_count_change : BitVec 32)

namespace Occurrence

/-- Event that an occurrence belongs to. -/
def event_type : Occurrence → RmwEventType
  | liveliness .. => .liveliness_changed
  | deadline_missed | deadline_ignored => .requested_deadline_missed
  | sample_lost _ => .message_lost
  | incompatible_qos _ => .requested_qos_incompatible
  | matched _ => .subscription_matched
  | inconsistent_topic .. => .subscription_incompatible_type

/-- What an occurrence does to the status of the reader, as far as events report it. The topic of a
subscription keeps no status of its own. -/
def record : Occurrence → EventStatus → EventStatus
  | liveliness alive_count not_alive_count alive_count_change not_alive_count_change, s =>
    { s with
      count := Function.update (Function.update s.count .alive alive_count)
        .not_alive not_alive_count
      change := Function.update
        (Function.update s.change .alive (s.change .alive + alive_count_change))
        .not_alive (s.change .not_alive + not_alive_count_change) }
  | deadline_missed, s => s.add .total 1
  | deadline_ignored, s =>
    { s with
      count := Function.update s.count .total (-1)
      change := Function.update s.change .total (-1) }
  | sample_lost samples, s =>
    { s with
      count := Function.update s.count .total
        (.ofInt 32 (min ((s.count .total).toInt + samples) int32Max))
      change := Function.update s.change .total
        (.ofInt 32 (min ((s.change .total).toInt + samples) int32Max)) }
  | incompatible_qos policies, s =>
    { s.add .total 1 with
      last_policy_id := (List.range' 1 36).foldl
        (fun last id ↦ if policies.getLsbD id then id else last) s.last_policy_id }
  | matched true, s => (s.add .current 1).add .total 1
  | matched false, s => s.add .current (-1)
  | inconsistent_topic .., s => s

/-- The status that an occurrence brings along. -/
def brought : Occurrence → Option EventStatus
  | inconsistent_topic total_count total_count_change => some
    { count := Function.update (fun _ ↦ 0) .total total_count
      change := Function.update (fun _ ↦ 0) .total total_count_change }
  | _ => none

/-- An occurrence that brings its status along leaves the reader alone. -/
theorem record_of_brought {o : Occurrence} {status : EventStatus} (h : o.brought = some status)
    (s : EventStatus) : o.record s = s := by
  cases o <;> first | rfl | cases h

/-- How much an occurrence is counted for, given the status of the reader. -/
def counted (o : Occurrence) (s : EventStatus) (c : Counter) : BitVec 32 :=
  o.brought.elim ((o.record s).change c - s.change c) fun status ↦ status.change c

end Occurrence

end HzjDds.Rmw
