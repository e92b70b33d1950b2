import HzjDds.Cpp.BitmapRange
import Mathlib.Tactic.Push

/-!
# What a reader knows of the changes of a writer

Library `Rtps`. Source: `vendor/Fast-DDS/src/cpp/rtps/reader/WriterProxy.cpp` (171–573) and
`WriterProxy.h` (155–215). Sequence numbers count the changes of a writer from 1. A change is settled
once it has been received, has been found irrelevant or is lost; all changes up to a low mark are.
-/

namespace HzjDds.Rtps

open HzjDds.Cpp

/-- `SequenceNumberSet_t`. -/
abbrev SequenceNumberSet := BitmapRange 256

/-- `std::numeric_limits<int32_t>::max()`. -/
def int32Max : ℕ := 2147483647

/-- State of a reader about a writer; what comes with a heartbeat is kept too. -/
structure WriterProxy where
  last_notified : ℕ := 0
  changes_from_writer_low_mark : ℕ := 0
  max_sequence_number : ℕ := 0
  changes_received : List ℕ := []
  last_heartbeat_count : ℕ := 0
  received_at_least_one_heartbeat : Bool := false
  deriving DecidableEq

namespace WriterProxy

/-- Loop of `cleanup`: jump over what follows the low mark. -/
def cleanupFrom (low_mark : ℕ) : List ℕ → ℕ × List ℕ
  | [] => (low_mark, [])
  | seq :: rest => if seq = low_mark + 1 then cleanupFrom (low_mark + 1) rest else (low_mark, seq :: rest)

/-- `cleanup`. -/
def cleanup (p : WriterProxy) : WriterProxy :=
  { p with
    changes_from_writer_low_mark := (cleanupFrom p.changes_from_writer_low_mark p.changes_received).1
    changes_received := (cleanupFrom p.changes_from_writer_low_mark p.changes_received).2 }

/-- `missing_changes_update`. -/
def missingChangesUpdate (p : WriterProxy) (seq_num : ℕ) : WriterProxy :=
  if p.changes_from_writer_low_mark < seq_num ∧ p.max_sequence_number < seq_num then
    { p with max_sequence_number := seq_num }
  else p

/-- Changes that `lost_changes_update` finds lost, in the arithmetic of the source: the wrap-around of
`uint64_t` in one summand is undone by the other. -/
def lostUpTo (p : WriterProxy) (seq_num : ℕ) : ℤ :=
  match p.changes_received with
  | [] => seq_num - (p.changes_from_writer_low_mark + 1)
  | first :: _ => first - (p.changes_from_writer_low_mark + 1) +
      (seq_num - first - (p.changes_received.takeWhile (· < seq_num)).length)

/-- `lost_changes_update`, with the number of lost samples. -/
def lostChangesUpdate (p : WriterProxy) (seq_num : ℕ) : ℕ × WriterProxy :=
  if p.changes_from_writer_low_mark + 1 < seq_num then
    (min (p.lostUpTo seq_num).toNat int32Max,
      cleanup { p with
        changes_received := p.changes_received.dropWhile (· < seq_num)
        changes_from_writer_low_mark := seq_num - 1
        max_sequence_number := max p.max_sequence_number (seq_num - 1) })
  else (0, p)

/-- `received_change_set`, and `irrelevant_change_set`, which does the same. -/
def receivedChangeSet (p : WriterProxy) (seq_num : ℕ) : Bool × WriterProxy :=
  if seq_num ≤ p.changes_from_writer_low_mark then (false, p)
  else if p.max_sequence_number < seq_num then
    (true,
      if seq_num = p.changes_from_writer_low_mark + 1 then
        { p with changes_from_writer_low_mark := seq_num, max_sequence_number := seq_num }
      else
        { p with
          changes_received := setInsert p.changes_received seq_num
          max_sequence_number := seq_num })
  else if p.changes_from_writer_low_mark + 1 = seq_num then
    (true, cleanup { p with changes_from_writer_low_mark := seq_num })
  else if seq_num ∈ p.changes_received then (false, p)
  else (true, { p with changes_received := setInsert p.changes_received seq_num })

/-- `irrelevant_change_set`. -/
def irrelevantChangeSet (p : WriterProxy) (seq_num : ℕ) : WriterProxy :=
  (p.receivedChangeSet seq_num).2

/-- `max_allowed_gap`: a gap from behind the low mark reaches as far as what is known. -/
def maxAllowedGap (p : WriterProxy) (gap_start : ℕ) (gap_list : SequenceNumberSet) : ℕ :=
  if gap_start ≤ p.changes_from_writer_low_mark + 1 then
    if p.changes_from_writer_low_mark < p.max_sequence_number then p.max_sequence_number + 1
    else gap_list.base + 256
  else p.changes_from_writer_low_mark + 256

/-- Numbers from `initial_seq` to before `final_seq`. -/
def gapRange (p : WriterProxy) (gap_start : ℕ) (gap_list : SequenceNumberSet) : List ℕ :=
  let initial_seq := max gap_start (p.changes_from_writer_low_mark + 1)
  List.range' initial_seq (min gap_list.base (p.maxAllowedGap gap_start gap_list) - initial_seq)

/-- `process_gap`. -/
def processGap (p : WriterProxy) (gap_start : ℕ) (gap_list : SequenceNumberSet) : WriterProxy :=
  if p.maxAllowedGap gap_start gap_list < gap_start then p
  else if p.maxAllowedGap gap_start gap_list < gap_list.base then
    (p.gapRange gap_start gap_list).foldl irrelevantChangeSet p
  else
    (gap_list.items.filter (· < p.maxAllowedGap gap_start gap_list)).foldl irrelevantChangeSet
      ((p.gapRange gap_start gap_list).foldl irrelevantChangeSet p)

/-- Loop of `missing_changes`: the gaps between the changes received, up to `max_missing`. -/
def missingFrom (max_missing : ℕ) : ℕ → List ℕ → SequenceNumberSet → SequenceNumberSet
  | first_missing, [], sns =>
    if first_missing < max_missing then sns.addRange first_missing max_missing else sns
  | first_missing, seq :: rest, sns =>
    let seq := min seq max_missing
    if max_missing ≤ seq + 1 then sns.addRange first_missing seq
    else missingFrom max_missing (seq + 1) rest (sns.addRange first_missing seq)

/-- `missing_changes`. -/
def missingChanges (p : WriterProxy) : SequenceNumberSet :=
  let first_missing := p.changes_from_writer_low_mark + 1
  missingFrom (min (first_missing + 256) (p.max_sequence_number + 1)) first_missing
    p.changes_received (.empty 256 first_missing)

/-- `change_was_received`. -/
def changeWasReceived (p : WriterProxy) (seq_num : ℕ) : Bool :=
  seq_num ≤ p.changes_from_writer_low_mark || p.changes_received.contains seq_num

/-- `next_cache_change_to_be_notified`; `none` is the unknown sequence number. -/
def nextCacheChangeToBeNotified (p : WriterProxy) : Option ℕ × WriterProxy :=
  if p.last_notified < p.changes_from_writer_low_mark then
    (some (p.last_notified + 1), { p with last_notified := p.last_notified + 1 })
  else (none, p)

/-- `consider_all_notified`. -/
def considerAllNotified (p : WriterProxy) : WriterProxy :=
  if p.last_notified < p.changes_from_writer_low_mark then
    { p with last_notified := p.changes_from_writer_low_mark }
  else p

/-- `process_heartbeat`, with the number of lost samples; the first heartbeat has none. -/
def processHeartbeat (p : WriterProxy) (count first_seq last_seq : ℕ) : Option (ℕ × WriterProxy) :=
  if p.last_heartbeat_count < count then
    let lost := { p with last_heartbeat_count := count }.lostChangesUpdate first_seq
    some (if p.received_at_least_one_heartbeat then lost.1 else 0,
      { lost.2.missingChangesUpdate last_seq with received_at_least_one_heartbeat := true })
  else none

end WriterProxy

end HzjDds.Rtps
