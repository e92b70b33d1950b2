import HzjDds.Rtps.Reading
import HzjDds.Rtps.StatefulWriter

/-!
# A writer and its readers over a network that loses messages

Library `Rtps`. Source: `vendor/Fast-DDS/src/cpp/rtps/writer/StatefulWriter.cpp`, `ReaderProxy.cpp`
and `vendor/Fast-DDS/src/cpp/rtps/reader/StatefulReader.cpp`, `WriterProxy.cpp`. What is sent to a
reader, and what the reader sends back, may arrive at any time, in any order, more than once or never.
The writer removes what all readers have acknowledged.
-/

namespace HzjDds.Rtps

open HzjDds.Cpp HzjDds.Transition

universe u v

/-- A writer, its readers, the messages that have been sent to each reader, and the changes that the
writer owes each reader: those relevant to it that were written after it was matched, or were in the
history then, not yet taken as acknowledged by all, if it asks for them. -/
structure Protocol (ι : Type v) (α : Type u) where
  writer : StatefulWriter ι α := {}
  readers : ι → Reading α := fun _ ↦ {}
  sent : ι → List (Message α) := fun _ ↦ []
  owed : ι → List ℕ := fun _ ↦ []

/-- What happens: the writer writes, removes a change, matches a reader, sends a change, a gap or a
heartbeat, or one of its timers expires; an acknowledgement or a message arrives; a reader sends an
acknowledgement, or its history removes a change. -/
inductive ProtocolAction (ι : Type v) where
  | write
  | removeChange (seq : ℕ)
  | matchReader (i : ι) (transient_local : Bool)
  | deliverSample (i : ι) (seq : ℕ)
  | gap (i : ι) (gap_start : ℕ) (gap_list : SequenceNumberSet)
  | heartbeat (i : ι)
  | nackSupression (i : ι)
  | nackResponse (i : ι)
  | acknackArrives (i : ι) (k : ℕ)
  | messageArrives (i : ι) (k : ℕ) (reception : Reception)
  | acknack (i : ι) (heartbeat_was_final : Bool)
  | initialAcknack (i : ι)
  | takeChange (i : ι) (seq : ℕ)

/-- What a message does to its reader. -/
def Message.action {α : Type u} : Message α → Reception → ReaderAction α
  | .data change, reception => .data change reception
  | .heartbeat count first_seq last_seq, _ => .heartbeat count first_seq last_seq
  | .gap gap_start gap_list, _ => .gap gap_start gap_list

namespace Protocol

variable {ι : Type v} {α : Type u} [DecidableEq ι]

/-- A message is sent to a reader. -/
def send (s : Protocol ι α) (i : ι) (message : Message α) : Protocol ι α :=
  { s with sent := Function.update s.sent i (s.sent i ++ [message]) }

/-- A reader takes a step. -/
def stepReader (s : Protocol ι α) (i : ι) (a : ReaderAction α) : Option (Protocol ι α) :=
  ((s.readers i).step a).map fun r ↦ { s with readers := Function.update s.readers i r }

/-- What a writer owes a reader that it matches. -/
def owedToLate (w : StatefulWriter ι α) (rtps_is_relevant : ι → α → Bool) (i : ι)
    (transient_local : Bool) : List ℕ :=
  if transient_local then
    ((w.lateChanges rtps_is_relevant i).map (·.sequenceNumber)).filter
      (w.next_all_acked_notify_sequence ≤ ·)
  else []

/-- A step; the `n`-th change that is written has the contents `contents n`. -/
def step (contents : ℕ → α) (rtps_is_relevant : ι → α → Bool) (s : Protocol ι α) :
    ProtocolAction ι → Option (Protocol ι α)
  | .write =>
    some { s with
      writer := s.writer.unsentChangeAddedToHistory rtps_is_relevant
        (contents s.writer.nextSequenceNumber)
      owed := fun i ↦
        if i ∈ s.writer.matched_remote_readers ∧
            rtps_is_relevant i (contents s.writer.nextSequenceNumber) = true then
          s.owed i ++ [s.writer.nextSequenceNumber]
        else s.owed i }
  | .removeChange seq =>
    if s.writer.isAckedByAll seq then
      some { s with writer := s.writer.changeRemovedByHistory seq }
    else none
  | .matchReader i transient_local =>
    if i ∈ s.writer.matched_remote_readers then none
    else
      some { s with
        writer := s.writer.matchedReaderAdd rtps_is_relevant i transient_local
        owed := Function.update s.owed i (owedToLate s.writer rtps_is_relevant i transient_local) }
  | .deliverSample i seq =>
    (s.writer.deliverSample i seq).map fun (message, writer) ↦
      message.elim { s with writer } ({ s with writer }.send i)
  | .gap i gap_start gap_list =>
    if i ∈ s.writer.matched_remote_readers ∧ s.writer.mayGap i gap_start gap_list = true then
      some (s.send i (.gap gap_start gap_list))
    else none
  | .heartbeat i =>
    if i ∈ s.writer.matched_remote_readers then
      some ({ s with writer := s.writer.sendHeartbeat.2 }.send i s.writer.sendHeartbeat.1)
    else none
  | .nackSupression i =>
    some { s with writer := s.writer.setProxy i (s.writer.proxies i).performNackSupression }
  | .nackResponse i =>
    some { s with writer := s.writer.setProxy i (s.writer.proxies i).performAcknackResponse }
  | .acknackArrives i k =>
    ((s.readers i).acknacks[k]?).map fun acknack ↦
      { s with writer := s.writer.processAcknack i acknack }
  | .messageArrives i k reception =>
    ((s.sent i)[k]?).bind fun message ↦ s.stepReader i (message.action reception)
  | .acknack i heartbeat_was_final => s.stepReader i (.acknack heartbeat_was_final)
  | .initialAcknack i => s.stepReader i .initialAcknack
  | .takeChange i seq => s.stepReader i (.remove seq)

/-- The readers keep all: what is owed is accepted, sooner or later, and is removed from the history of
a reader only after its listener has been told. -/
def KeepsAll (s : Protocol ι α) : ProtocolAction ι → Prop
  | .messageArrives i k reception => ∀ change, (s.sent i)[k]? = some (.data change) →
      change.sequenceNumber ∈ s.owed i → reception = .accepted true ∨ reception = .rejected
  | .takeChange i seq => seq ≤ (s.readers i).reader.proxy.changes_from_writer_low_mark
  | _ => True

end Protocol

end HzjDds.Rtps
