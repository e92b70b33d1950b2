import HzjDds.Rtps.StatefulReader
import HzjDds.Transition.Run

/-!
# What a reader makes of the messages of a writer

Library `Rtps`. Source: `vendor/Fast-DDS/src/cpp/rtps/reader/StatefulReader.cpp` (568–704, 879–990,
1091–1317, 1588–1691) and `WriterProxy.cpp` (171–573). Messages reach a reader in any order, some of
them more than once and some never. The listener is told of changes in the order of their sequence
numbers, and what the reader acknowledges is what the messages have settled.
-/

namespace HzjDds.Rtps

open HzjDds.Cpp HzjDds.Transition

universe u

/-- What happens to a reader. -/
inductive ReaderAction (α : Type u) where
  | data (change : CacheChange α) (reception : Reception)
  | heartbeat (count first_seq last_seq : ℕ)
  | gap (gap_start : ℕ) (gap_list : SequenceNumberSet)
  | acknack (heartbeat_was_final : Bool)
  | initialAcknack
  | remove (seq : ℕ)

/-- A reader, with the changes that have been put into its history, those that the listener has been
told of, the acknowledgements sent, the samples reported lost, and the changes that these are. -/
structure Reading (α : Type u) where
  reader : StatefulReader α := {}
  stored : List (CacheChange α) := []
  notified : List (CacheChange α) := []
  acknacks : List Acknack := []
  lost : ℕ := 0
  lost_changes : Finset ℕ := ∅

namespace ReaderAction

variable {α : Type u}

/-- The message settles a change. -/
def Settles : ReaderAction α → ℕ → Prop
  | .data change reception, n => n = change.sequenceNumber ∧ reception ≠ .rejected
  | .heartbeat _ first_seq _, n => n < first_seq
  | .gap gap_start gap_list, n => WriterProxy.InGap gap_start gap_list n
  | _, _ => False

/-- The message says that the writer has come to a change. -/
def Announces : ReaderAction α → ℕ → Prop
  | .data change _, n => n ≤ change.sequenceNumber
  | .heartbeat _ first_seq last_seq, n => n < first_seq ∨ n ≤ last_seq
  | .gap gap_start gap_list, n => ∃ m, WriterProxy.InGap gap_start gap_list m ∧ n ≤ m
  | _, _ => False

/-- An acknowledgement is sent. -/
def acknowledges : ReaderAction α → Bool
  | .acknack _ => true
  | .initialAcknack => true
  | _ => false

end ReaderAction

namespace Reading

variable {α : Type u} {s t : Reading α} {a : ReaderAction α} {as : List (ReaderAction α)} {n : ℕ}
  {change : CacheChange α}

/-- The changes that a message puts into the history. -/
def storedBy (s : Reading α) : ReaderAction α → List (CacheChange α)
  | .data change (.accepted true) =>
    if s.reader.proxy.changeWasReceived change.sequenceNumber then [] else [change]
  | _ => []

/-- The changes that are lost by a message: a heartbeat that is not the first one says that the writer
no longer has them. -/
def lostBy (s : Reading α) : ReaderAction α → Finset ℕ
  | .heartbeat count first_seq _ =>
    if s.reader.proxy.last_heartbeat_count < count ∧
        s.reader.proxy.received_at_least_one_heartbeat = true then
      s.reader.proxy.unsettled first_seq
    else ∅
  | _ => ∅

/-- What the reader does with a message or by itself. -/
def handle (r : StatefulReader α) :
    ReaderAction α → Option (ℕ × List (CacheChange α) × Option Acknack × StatefulReader α)
  | .data change reception =>
    some (0, (r.processDataMsg change reception).1, none, (r.processDataMsg change reception).2)
  | .heartbeat count first_seq last_seq =>
    some ((r.processHeartbeatMsg count first_seq last_seq).1,
      (r.processHeartbeatMsg count first_seq last_seq).2.1, none,
      (r.processHeartbeatMsg count first_seq last_seq).2.2)
  | .gap gap_start gap_list =>
    some (0, (r.processGapMsg gap_start gap_list).1, none, (r.processGapMsg gap_start gap_list).2)
  | .acknack heartbeat_was_final =>
    (r.sendAcknack heartbeat_was_final).map fun sent ↦ (0, [], some sent.1, sent.2)
  | .initialAcknack => r.sendInitialAcknack.map fun sent ↦ (0, [], some sent.1, sent.2)
  | .remove seq => some (0, [], none, r.removeChange seq)

/-- A step of a reader; an acknowledgement that is not due is not sent. -/
def step (s : Reading α) (a : ReaderAction α) : Option (Reading α) :=
  (handle s.reader a).map fun (lost, notified, acknack, reader) ↦
    { reader
      stored := s.stored ++ s.storedBy a
      notified := s.notified ++ notified
      acknacks := s.acknacks ++ acknack.toList
      lost := s.lost + lost
      lost_changes := s.lost_changes ∪ s.lostBy a }

/-! ## One step -/

/-- A change that is put into the history is accepted, and is not settled before. -/
theorem mem_storedBy : change ∈ s.storedBy a ↔
    a = .data change (.accepted true) ∧ ¬ s.reader.proxy.Settled change.sequenceNumber := by
  rcases a with ⟨other, ⟨_ | _⟩ | _ | _⟩ | _ | _ | _ | _ | _ <;> simp only [storedBy, reduceCtorEq,
    List.not_mem_nil, false_and, ReaderAction.data.injEq, Reception.accepted.injEq, and_false]
  split
  · next hreceived =>
    have hsettled := WriterProxy.changeWasReceived_iff.mp hreceived
    simp only [List.not_mem_nil, and_true, false_iff, not_and, not_not]
    rintro rfl
    exact hsettled
  · next hnew =>
    rw [WriterProxy.changeWasReceived_iff] at hnew
    simp only [List.mem_singleton, and_true]
    constructor
    · rintro rfl
      exact ⟨rfl, hnew⟩
    · rintro ⟨rfl, -⟩
      rfl

/-- What a step does to the reader: it settles the changes in `S`, makes known those up to `bound` and
tells the listener of `notified`. -/
structure Stepped (s t : Reading α) (a : ReaderAction α) (notified : List (CacheChange α))
    (S : ℕ → Prop) (bound : ℕ) : Prop where
  handled : StatefulReader.Handled s.reader t.reader notified S bound
  notified_eq : t.notified = s.notified ++ notified
  stored_eq : t.stored = s.stored ++ s.storedBy a
  mem_changes : ∀ change, change ∈ t.reader.changes ↔
    change ∈ s.reader.changes ∧ a ≠ .remove change.sequenceNumber ∨ change ∈ s.storedBy a
  settles : ∀ n, S n → a.Settles n
  announces : ∀ n, 1 ≤ n → n ≤ bound → a.Announces n
  acknacks : ∀ acknack ∈ t.acknacks, acknack ∈ s.acknacks ∨
    ∀ n < acknack.sns.base, s.reader.proxy.Settled n

/-- Without a new acknowledgement there are the old ones. -/
theorem mem_acknacks_of_none {acknack : Acknack}
    (h : acknack ∈ s.acknacks ++ (none : Option Acknack).toList) : acknack ∈ s.acknacks := by
  simpa using h

private theorem stepped_of_acknack (h : s.reader.Valid) (hremove : ∀ seq, a ≠ .remove seq)
    (hstored : s.storedBy a = []) {count : ℕ}
    (hreader : t.reader = { s.reader with acknack_count := count })
    (hnotified : t.notified = s.notified) (hkept : t.stored = s.stored ++ s.storedBy a)
    {acknack : Acknack} (hacknacks : t.acknacks = s.acknacks ++ [acknack])
    (hbase : ∀ n < acknack.sns.base, s.reader.proxy.Settled n) :
    Stepped s t a [] (fun _ ↦ False) 0 := by
  have hignored : StatefulReader.Handled s.reader s.reader [] (fun _ ↦ False) 0 :=
    h.ignored fun _ ↦ False.elim
  refine ⟨?_, hnotified.trans (List.append_nil _).symm, hkept, fun other ↦ ?_, fun _ ↦ False.elim,
    fun n hn hle ↦ by omega, fun other hother ↦ ?_⟩
  · rw [hreader]
    exact ⟨⟨h.proxy, h.ascending, h.settled, h.notified⟩, hignored.settled, hignored.max_le,
      hignored.notified_eq⟩
  · simp [hreader, hstored, hremove]
  · rw [hacknacks, List.mem_append, List.mem_singleton] at hother
    rcases hother with hother | rfl
    · exact .inl hother
    · exact .inr hbase

/-- Every step of a valid reader is such a step. -/
theorem stepped_of_step (h : s.reader.Valid) (hs : s.step a = some t) :
    ∃ notified S bound, Stepped s t a notified S bound := by
  obtain ⟨⟨lost, notified, acknack, reader⟩, hhandle, rfl⟩ := Option.map_eq_some_iff.mp hs
  cases a with
  | data change reception =>
    cases hhandle
    obtain ⟨hhandled, hchanges⟩ := h.processDataMsg change reception
    refine ⟨_, _, _, hhandled, rfl, rfl, fun other ↦ ?_, fun n hn ↦ hn, fun n _ hn ↦ hn,
      fun _ hsent ↦ .inl (mem_acknacks_of_none hsent)⟩
    rw [mem_storedBy, hchanges]
    simp only [ne_eq, reduceCtorEq, not_false_eq_true, and_true, ReaderAction.data.injEq]
    refine or_congr_right ?_
    constructor
    · rintro ⟨rfl, rfl, hnew⟩
      exact ⟨⟨rfl, rfl⟩, hnew⟩
    · rintro ⟨⟨rfl, rfl⟩, hnew⟩
      exact ⟨rfl, rfl, hnew⟩
  | heartbeat count first_seq last_seq =>
    cases hhandle
    obtain ⟨S, hS, hhandled, hchanges⟩ := h.processHeartbeatMsg count first_seq last_seq
    refine ⟨_, S, _, hhandled, rfl, rfl, fun other ↦ ?_, hS, fun n hn hle ↦ ?_,
      fun _ hsent ↦ .inl (mem_acknacks_of_none hsent)⟩
    · simp [hchanges, storedBy]
    · have hle : n < first_seq ∨ n ≤ last_seq := by omega
      exact hle
  | gap gap_start gap_list =>
    cases hhandle
    obtain ⟨ns, hns, hhandled, hchanges⟩ := h.processGapMsg gap_start gap_list
    refine ⟨_, _, _, hhandled, rfl, rfl, fun other ↦ ?_, hns, fun n hn hle ↦ ?_,
      fun _ hsent ↦ .inl (mem_acknacks_of_none hsent)⟩
    · simp [hchanges, storedBy]
    · by_contra hnone
      have hbound : ns.foldr max 0 ≤ n - 1 := WriterProxy.foldr_max_le fun m hm ↦ by
        by_contra hlt
        exact hnone ⟨m, hns m hm, by omega⟩
      omega
  | acknack heartbeat_was_final =>
    obtain ⟨sent, hsent, heq⟩ := Option.map_eq_some_iff.mp hhandle
    cases heq
    rw [StatefulReader.sendAcknack] at hsent
    split at hsent
    · cases hsent
      refine ⟨_, _, _, stepped_of_acknack h (by simp) rfl rfl (List.append_nil _) rfl rfl ?_⟩
      intro n hn
      rw [WriterProxy.base_missingChanges] at hn
      exact .inl (Nat.lt_succ_iff.mp hn)
    · contradiction
  | initialAcknack =>
    obtain ⟨sent, hsent, heq⟩ := Option.map_eq_some_iff.mp hhandle
    cases heq
    rw [StatefulReader.sendInitialAcknack] at hsent
    split at hsent
    · cases hsent
      exact ⟨_, _, _, stepped_of_acknack h (by simp) rfl rfl (List.append_nil _) rfl rfl
        fun n hn ↦ absurd hn (Nat.not_lt_zero n)⟩
    · contradiction
  | remove seq =>
    cases hhandle
    have hremoved := h.removeChange seq
    refine ⟨[], fun _ ↦ False, 0, ⟨hremoved, ?_, le_max_left .., ?_⟩, rfl, rfl,
      fun other ↦ ?_, fun _ ↦ False.elim, fun n hn hle ↦ by omega,
      fun _ hsent ↦ .inl (mem_acknacks_of_none hsent)⟩
    · exact fun n ↦ (or_iff_left id).symm
    · refine (List.filter_eq_nil_iff.mpr fun other _ hother ↦ ?_).symm
      obtain ⟨hlt, hle⟩ := of_decide_eq_true hother
      exact hle.not_gt hlt
    · rw [StatefulReader.removeChange, List.mem_filter]
      simp only [storedBy, List.not_mem_nil, or_false, ne_eq, ReaderAction.remove.injEq,
        decide_eq_true_eq]
      exact and_congr_right fun _ ↦ not_congr eq_comm

/-! ## Whole runs -/

/-- What holds of a reader after some actions. -/
structure Sound (as : List (ReaderAction α)) (s : Reading α) : Prop where
  valid : s.reader.Valid
  ascending : Ascending CacheChange.sequenceNumber s.notified
  below : ∀ change ∈ s.notified,
    change.sequenceNumber ≤ s.reader.proxy.changes_from_writer_low_mark
  notified : ∀ change ∈ s.notified, change ∈ s.stored
  changes : ∀ change ∈ s.reader.changes, change ∈ s.stored
  stored : ∀ change ∈ s.stored, .data change (.accepted true) ∈ as ∧
    1 ≤ change.sequenceNumber ∧ s.reader.proxy.Settled change.sequenceNumber
  settled : ∀ n, 1 ≤ n → s.reader.proxy.Settled n → ∃ a ∈ as, a.Settles n
  announced : ∀ n, 1 ≤ n → n ≤ s.reader.proxy.max_sequence_number → ∃ a ∈ as, a.Announces n
  acknowledged : ∀ acknack ∈ s.acknacks, ∀ n < acknack.sns.base, s.reader.proxy.Settled n

/-- A new reader has done nothing. -/
theorem sound_new : Sound [] ({} : Reading α) where
  valid := StatefulReader.valid_new
  ascending := List.Pairwise.nil
  below := fun _ h ↦ absurd h List.not_mem_nil
  notified := fun _ h ↦ absurd h List.not_mem_nil
  changes := fun _ h ↦ absurd h List.not_mem_nil
  stored := fun _ h ↦ absurd h List.not_mem_nil
  settled := by
    rintro n hn (hle | hmem)
    · exact absurd hle (Nat.not_le.mpr hn)
    · exact absurd hmem List.not_mem_nil
  announced := fun n hn hle ↦ absurd hle (Nat.not_le.mpr hn)
  acknowledged := fun _ h ↦ absurd h List.not_mem_nil

private theorem exists_mem_append {P : ReaderAction α → Prop} (h : (∃ b ∈ as, P b) ∨ P a) :
    ∃ b ∈ as ++ [a], P b := by
  rcases h with ⟨b, hb, hP⟩ | hP
  · exact ⟨b, List.mem_append_left [a] hb, hP⟩
  · exact ⟨a, List.mem_append_right as (List.mem_singleton_self a), hP⟩

/-- Every step keeps it. -/
theorem Sound.step (h : Sound as s) (hs : s.step a = some t) : Sound (as ++ [a]) t := by
  obtain ⟨notified, S, bound, hstep⟩ := stepped_of_step h.valid hs
  have hhandled := hstep.handled
  have hmono := hhandled.low_mark_mono
  have hstored : ∀ change ∈ t.stored, change ∈ s.stored ∨ change ∈ s.storedBy a := by
    intro change hchange
    rwa [hstep.stored_eq, List.mem_append] at hchange
  have hchanges : ∀ change ∈ t.reader.changes, change ∈ t.stored := by
    intro change hchange
    rw [hstep.stored_eq, List.mem_append]
    exact ((hstep.mem_changes change).mp hchange).imp_left fun hold ↦ h.changes change hold.1
  constructor
  case valid => exact hhandled.valid
  case ascending =>
    rw [hstep.notified_eq]
    refine List.pairwise_append.mpr ⟨h.ascending, ?_, fun change hchange other hother ↦ ?_⟩
    · rw [hhandled.notified_eq]
      exact hhandled.valid.ascending.sublist List.filter_sublist
    · exact (h.below change hchange).trans_lt (hhandled.mem_notified.mp hother).2.1
  case below =>
    intro change hchange
    rw [hstep.notified_eq, List.mem_append] at hchange
    rcases hchange with hold | hnew
    · exact (h.below change hold).trans hmono
    · exact (hhandled.mem_notified.mp hnew).2.2
  case notified =>
    intro change hchange
    rw [hstep.notified_eq, List.mem_append] at hchange
    rcases hchange with hold | hnew
    · rw [hstep.stored_eq]
      exact List.mem_append_left _ (h.notified change hold)
    · exact hchanges change (hhandled.mem_notified.mp hnew).1
  case changes => exact hchanges
  case stored =>
    intro change hchange
    rcases hstored change hchange with hold | hnew
    · obtain ⟨hmem, hpos, hsettled⟩ := h.stored change hold
      exact ⟨List.mem_append_left [a] hmem, hpos, hhandled.mono hsettled⟩
    · obtain ⟨rfl, hunsettled⟩ := mem_storedBy.mp hnew
      have hpos : 1 ≤ change.sequenceNumber := by
        by_contra hzero
        exact hunsettled (.inl (by omega))
      refine ⟨List.mem_append_right as (List.mem_singleton_self _), hpos, ?_⟩
      have hhistory := (hstep.mem_changes change).mpr (.inr hnew)
      exact hhandled.valid.settled change hhistory
  case settled =>
    intro n hn hsettled
    apply exists_mem_append
    exact ((hhandled.settled n).mp hsettled).imp (h.settled n hn) (hstep.settles n)
  case announced =>
    intro n hn hle
    apply exists_mem_append
    rcases le_max_iff.mp (hle.trans hhandled.max_le) with hle | hle
    · exact .inl (h.announced n hn hle)
    · exact .inr (hstep.announces n hn hle)
  case acknowledged =>
    intro acknack hacknack n hn
    rcases hstep.acknacks acknack hacknack with hold | hnew
    · exact hhandled.mono (h.acknowledged acknack hold n hn)
    · exact hhandled.mono (hnew n hn)

private theorem sound_run (hs : run step {} as = some s) : Sound as s := by
  induction as using List.reverseRecOn generalizing s with
  | nil =>
    cases hs
    exact sound_new
  | append_singleton as a ih =>
    obtain ⟨m, hm, hs⟩ := run_concat_eq_some.mp hs
    exact (ih hm).step hs

/-- Whatever messages come, and in whatever order, the listener is told of changes in strictly ascending
order, so of none twice. Each came in a message, and a message has settled each one before it. -/
theorem notified_ascending (hs : run step {} as = some s) :
    Ascending CacheChange.sequenceNumber s.notified ∧ ∀ change ∈ s.notified,
      .data change (.accepted true) ∈ as ∧
        ∀ n, 1 ≤ n → n ≤ change.sequenceNumber → ∃ a ∈ as, a.Settles n := by
  have h := sound_run hs
  refine ⟨h.ascending, fun change hchange ↦ ⟨(h.stored change (h.notified change hchange)).1, ?_⟩⟩
  exact fun n hn hle ↦ h.settled n hn (.inl (hle.trans (h.below change hchange)))

/-- The second of three changes comes first, a heartbeat makes the third one known, and a gap takes it
out after the first change has come twice. -/
def lateRun : List (ReaderAction ℕ) :=
  [.data ⟨2, 20⟩ (.accepted true), .heartbeat 1 1 3, .acknack false, .data ⟨1, 10⟩ (.accepted true),
    .data ⟨1, 10⟩ (.accepted true), .gap 3 (.empty 256 4), .acknack false]

/-- `notified_ascending` where the changes come in the wrong order. -/
theorem notified_ascending_lateRun : ∃ s, run step {} lateRun = some s ∧
    s.notified = [⟨1, 10⟩, ⟨2, 20⟩] ∧ Ascending CacheChange.sequenceNumber s.notified := by
  obtain ⟨s, hs, hnotified⟩ : ∃ s, run step {} lateRun = some s ∧
    s.notified = [⟨1, 10⟩, ⟨2, 20⟩] := ⟨_, rfl, rfl⟩
  exact ⟨s, hs, hnotified, (notified_ascending hs).1⟩

end Reading

end HzjDds.Rtps
