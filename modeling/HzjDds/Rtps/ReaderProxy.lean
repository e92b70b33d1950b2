import HzjDds.Rtps.StatefulReader

/-!
# What a writer knows of a reader

Library `Rtps`. Source: `vendor/Fast-DDS/src/cpp/rtps/writer/ReaderProxy.cpp` (119–150, 212–294,
358–640) and `ReaderProxy.hpp` (308–319). All changes up to a low mark are acknowledged; those that
are still to be sent or acknowledged are listed behind it. A change that is not listed there has been
removed or is not relevant. Best-effort and local readers, timers and fragments are left out, and so is
which of the irrelevant changes a gap has named.
-/

namespace HzjDds.Rtps

open HzjDds.Cpp

/-- `ChangeForReaderStatus_t`. -/
inductive ChangeForReaderStatus where
  | UNSENT
  | REQUESTED
  | UNACKNOWLEDGED
  | ACKNOWLEDGED
  | UNDERWAY
  deriving DecidableEq

/-- `ChangeForReader_t`. -/
structure ChangeForReader where
  sequenceNumber : ℕ
  status : ChangeForReaderStatus := .UNSENT
  deriving DecidableEq

/-- State of a writer about a reader. -/
structure ReaderProxy where
  transient_local : Bool := false
  changes_low_mark : ℕ := 0
  changes_for_reader : List ChangeForReader := []
  next_expected_acknack_count : ℕ := 0
  deriving DecidableEq

namespace ReaderProxy

/-- `add_change`: what is not relevant is not listed. -/
def addChange (p : ReaderProxy) (change : ChangeForReader) (is_relevant : Bool) : ReaderProxy :=
  if is_relevant then { p with changes_for_reader := p.changes_for_reader ++ [change] } else p

/-- `find_change`. -/
def findChange (p : ReaderProxy) (seq_num : ℕ) : Option ChangeForReader :=
  p.changes_for_reader.find? (·.sequenceNumber = seq_num)

/-- `change_is_acked`. -/
def changeIsAcked (p : ReaderProxy) (seq_num : ℕ) : Bool :=
  if seq_num ≤ p.changes_low_mark ∨ p.changes_for_reader = [] then true
  else
    match p.findChange seq_num with
    | none => true
    | some change => change.status = .ACKNOWLEDGED

/-- `change_is_unsent`, without the gap that it finds. -/
def changeIsUnsent (p : ReaderProxy) (seq_num : ℕ) : Bool :=
  if seq_num ≤ p.changes_low_mark ∨ p.changes_for_reader = [] then false
  else
    match p.findChange seq_num with
    | none => false
    | some change => change.status = .UNSENT

/-- Loop of `acked_changes_set`: go on to the next change that is not acknowledged. -/
def advance (future_low_mark : ℕ) : List ChangeForReader → ℕ × List ChangeForReader
  | [] => (future_low_mark, [])
  | change :: rest =>
    if change.sequenceNumber = future_low_mark ∧ change.status = .ACKNOWLEDGED then
      advance (future_low_mark + 1) rest
    else (future_low_mark, change :: rest)

/-- `acked_changes_set`, with the changes in the history of the writer. The changes that are put back
lie below those that are listed. -/
def ackedChangesSet (p : ReaderProxy) (history : List ℕ) (next_sequence_number seq_num : ℕ) :
    ReaderProxy :=
  if p.changes_low_mark < seq_num then
    let rest := p.changes_for_reader.dropWhile (·.sequenceNumber < seq_num)
    { p with
      changes_low_mark := (advance seq_num rest).1 - 1
      changes_for_reader := (advance seq_num rest).2 }
  else if seq_num = 0 ∧ p.transient_local then
    match history with
    | [] => { p with changes_low_mark := next_sequence_number - 1 }
    | min_sequence :: _ =>
      { p with
        changes_low_mark := min_sequence - 1
        changes_for_reader := (history.filter (· ≤ p.changes_low_mark)).map (⟨·, .UNACKNOWLEDGED⟩) ++
          p.changes_for_reader }
  else p

/-- `start`. -/
def start (transient_local : Bool) (history : List ℕ) (next_sequence_number : ℕ) : ReaderProxy :=
  if transient_local then
    { transient_local : ReaderProxy }.ackedChangesSet history next_sequence_number 0
  else { changes_low_mark := (history.head?.getD next_sequence_number) - 1 }

/-- Give the changes that are listed a new status. -/
def setStatus (p : ReaderProxy) (status : ChangeForReader → ChangeForReaderStatus) : ReaderProxy :=
  { p with
    changes_for_reader := p.changes_for_reader.map fun change ↦ { change with status := status change } }

/-- `requested_changes_set`: whether some change is to be sent again, and the new state. -/
def requestedChangesSet (p : ReaderProxy) (seq_num_set : SequenceNumberSet) : Bool × ReaderProxy :=
  (p.changes_for_reader.any fun change ↦
      change.sequenceNumber ∈ seq_num_set.items ∧ change.status = .UNACKNOWLEDGED,
    p.setStatus fun change ↦
      if change.sequenceNumber ∈ seq_num_set.items ∧ change.status = .UNACKNOWLEDGED then .REQUESTED
      else change.status)

/-- `from_unsent_to_status` with `UNDERWAY`, the status of a change that is sent over the network. -/
def fromUnsentToUnderway (p : ReaderProxy) (seq_num : ℕ) : ReaderProxy :=
  p.setStatus fun change ↦ if change.sequenceNumber = seq_num then .UNDERWAY else change.status

/-- `convert_status_on_all_changes`. -/
def convertStatusOnAllChanges (p : ReaderProxy) (previous next : ChangeForReaderStatus) : ReaderProxy :=
  p.setStatus fun change ↦ if change.status = previous then next else change.status

/-- `perform_nack_supression`. -/
def performNackSupression (p : ReaderProxy) : ReaderProxy :=
  p.convertStatusOnAllChanges .UNDERWAY .UNACKNOWLEDGED

/-- `perform_acknack_response`. -/
def performAcknackResponse (p : ReaderProxy) : ReaderProxy :=
  p.convertStatusOnAllChanges .REQUESTED .UNSENT

/-- `change_has_been_removed`. -/
def changeHasBeenRemoved (p : ReaderProxy) (history : List ℕ) (next_sequence_number seq_num : ℕ) :
    ReaderProxy :=
  if p.findChange seq_num = none then p
  else
    let erased := { p with
      changes_for_reader := p.changes_for_reader.filter (·.sequenceNumber ≠ seq_num) }
    if p.changes_low_mark + 1 = seq_num then
      erased.ackedChangesSet history next_sequence_number (seq_num + 1)
    else erased

/-- `check_and_set_acknack_count`. -/
def checkAndSetAcknackCount (p : ReaderProxy) (acknack_count : ℕ) : Option ReaderProxy :=
  if p.next_expected_acknack_count ≤ acknack_count then
    some { p with next_expected_acknack_count := nextCount acknack_count }
  else none

/-! ## What is listed -/

variable {p p' : ReaderProxy} {n seq_num next_sequence_number : ℕ} {history : List ℕ}

/-- A change is listed. -/
def Pending (p : ReaderProxy) (n : ℕ) : Prop :=
  ∃ change ∈ p.changes_for_reader, change.sequenceNumber = n

/-- What holds of a proxy between two operations, over a network. -/
structure Valid (p : ReaderProxy) : Prop where
  ascending : Ascending ChangeForReader.sequenceNumber p.changes_for_reader
  above : ∀ change ∈ p.changes_for_reader, p.changes_low_mark < change.sequenceNumber
  unacknowledged : ∀ change ∈ p.changes_for_reader, change.status ≠ .ACKNOWLEDGED

/-- What is not listed is not found. -/
theorem findChange_eq_none : p.findChange n = none ↔ ¬ p.Pending n := by
  simp [findChange, Pending]

/-- A listed change is behind the low mark. -/
theorem Valid.lt_of_pending (h : p.Valid) (hn : p.Pending n) : p.changes_low_mark < n := by
  obtain ⟨change, hchange, rfl⟩ := hn
  exact h.above change hchange

/-- What is acknowledged is not listed. -/
theorem Valid.changeIsAcked_iff (h : p.Valid) : p.changeIsAcked n = true ↔ ¬ p.Pending n := by
  rw [changeIsAcked]
  split
  · next hout =>
    refine iff_of_true rfl fun hn ↦ ?_
    rcases hout with hle | hnil
    · exact (h.lt_of_pending hn).not_ge hle
    · obtain ⟨change, hchange, -⟩ := hn
      rw [hnil] at hchange
      exact List.not_mem_nil hchange
  · split
    · next hnone => exact iff_of_true rfl (findChange_eq_none.mp hnone)
    · next change hsome =>
      rw [findChange] at hsome
      have hmem := List.mem_of_find?_eq_some hsome
      have hseq : change.sequenceNumber = n := by simpa using List.find?_some hsome
      rw [decide_eq_true_eq]
      exact iff_of_false (h.unacknowledged change hmem) (not_not.mpr ⟨change, hmem, hseq⟩)

@[simp] theorem pending_setStatus {status : ChangeForReader → ChangeForReaderStatus} :
    (p.setStatus status).Pending n ↔ p.Pending n := by
  simp [setStatus, Pending]

/-- New statuses keep a proxy valid, if they acknowledge nothing. -/
theorem Valid.setStatus (h : p.Valid) {status : ChangeForReader → ChangeForReaderStatus}
    (hstatus : ∀ change, change.status ≠ .ACKNOWLEDGED → status change ≠ .ACKNOWLEDGED) :
    (p.setStatus status).Valid where
  ascending := List.pairwise_map.mpr h.ascending
  above := by
    intro change hchange
    obtain ⟨old, hold, rfl⟩ := List.mem_map.mp hchange
    exact h.above old hold
  unacknowledged := by
    intro change hchange
    obtain ⟨old, hold, rfl⟩ := List.mem_map.mp hchange
    exact hstatus old (h.unacknowledged old hold)

/-- Without acknowledged changes the loop of `acked_changes_set` goes nowhere. -/
theorem advance_eq {changes : List ChangeForReader}
    (h : ∀ change ∈ changes, change.status ≠ .ACKNOWLEDGED) : advance n changes = (n, changes) := by
  cases changes with
  | nil => rfl
  | cons change rest =>
    rw [advance, if_neg fun hack ↦ h change List.mem_cons_self hack.2]

/-- An acknowledgement takes what lies before it off the list. -/
theorem Valid.ackedChangesSet_of_lt (h : p.Valid) (hlt : p.changes_low_mark < seq_num) :
    (p.ackedChangesSet history next_sequence_number seq_num).Valid ∧
      (p.ackedChangesSet history next_sequence_number seq_num).changes_low_mark = seq_num - 1 ∧
      ∀ n, (p.ackedChangesSet history next_sequence_number seq_num).Pending n ↔
        p.Pending n ∧ seq_num ≤ n := by
  have hmem : ∀ change, change ∈ p.changes_for_reader.dropWhile (·.sequenceNumber < seq_num) ↔
      change ∈ p.changes_for_reader ∧ seq_num ≤ change.sequenceNumber :=
    fun change ↦ h.ascending.mem_dropWhile
  have hadvance : advance seq_num (p.changes_for_reader.dropWhile (·.sequenceNumber < seq_num)) =
      (seq_num, p.changes_for_reader.dropWhile (·.sequenceNumber < seq_num)) :=
    advance_eq fun change hchange ↦ h.unacknowledged change ((hmem change).mp hchange).1
  unfold ackedChangesSet
  rw [if_pos hlt]
  simp only [hadvance]
  refine ⟨⟨?_, fun change hchange ↦ ?_, fun change hchange ↦ ?_⟩, trivial, fun n ↦ ?_⟩
  · exact h.ascending.sublist (List.dropWhile_sublist _)
  · have hge := ((hmem change).mp hchange).2
    simp only
    omega
  · exact h.unacknowledged change ((hmem change).mp hchange).1
  · constructor
    · rintro ⟨change, hchange, rfl⟩
      obtain ⟨hold, hge⟩ := (hmem change).mp hchange
      exact ⟨⟨change, hold, rfl⟩, hge⟩
    · rintro ⟨⟨change, hchange, rfl⟩, hge⟩
      exact ⟨change, (hmem change).mpr ⟨hchange, hge⟩, rfl⟩

/-- The state of a proxy fits the history: what is listed is in the history, and the low mark is not
beyond what has been written. -/
structure FitsHistory (p : ReaderProxy) (history : List ℕ) (last : ℕ) : Prop extends Valid p where
  listed : ∀ n, p.Pending n → n ∈ history
  low_le : p.changes_low_mark ≤ last

/-- The first acknowledgement of a late reader takes nothing off the list. -/
theorem FitsHistory.ackedChangesSet_of_ge {last : ℕ} (h : p.FitsHistory history last)
    (hasc : Ascending id history) (hle : ∀ n ∈ history, 1 ≤ n ∧ n ≤ last)
    (hge : ¬ p.changes_low_mark < seq_num) :
    (p.ackedChangesSet history (last + 1) seq_num).FitsHistory history last ∧
      ∀ n, p.Pending n → (p.ackedChangesSet history (last + 1) seq_num).Pending n := by
  unfold ackedChangesSet
  rw [if_neg hge]
  split
  · split
    · refine ⟨⟨⟨h.ascending, fun change hchange ↦ ?_, h.unacknowledged⟩, h.listed, le_rfl⟩,
        fun n ↦ id⟩
      exact absurd (h.listed _ ⟨change, hchange, rfl⟩) List.not_mem_nil
    · next min_sequence rest =>
      obtain ⟨hmin, hrest⟩ := List.pairwise_cons.mp hasc
      have hfirst : ∀ n ∈ min_sequence :: rest, min_sequence ≤ n := by
        intro n hn
        rcases List.mem_cons.mp hn with rfl | hn
        · exact le_rfl
        · exact (hmin n hn).le
      have hpos := hle min_sequence List.mem_cons_self
      have hback : ∀ change, change ∈ ((min_sequence :: rest).filter (· ≤ p.changes_low_mark)).map
          (ChangeForReader.mk · .UNACKNOWLEDGED) ++ p.changes_for_reader →
          (change.status = .UNACKNOWLEDGED ∧ change.sequenceNumber ∈ min_sequence :: rest ∧
            change.sequenceNumber ≤ p.changes_low_mark) ∨ change ∈ p.changes_for_reader := by
        intro change hchange
        refine (List.mem_append.mp hchange).imp_left fun hmem ↦ ?_
        obtain ⟨n, hn, rfl⟩ := List.mem_map.mp hmem
        obtain ⟨hn, hlow⟩ := List.mem_filter.mp hn
        exact ⟨rfl, hn, of_decide_eq_true hlow⟩
      refine ⟨⟨⟨?_, fun change hchange ↦ ?_, fun change hchange ↦ ?_⟩, ?_, ?_⟩, ?_⟩
      · refine List.pairwise_append.mpr ⟨?_, h.ascending, fun change hchange other hother ↦ ?_⟩
        · exact List.pairwise_map.mpr (hasc.sublist List.filter_sublist)
        · obtain ⟨n, hn, rfl⟩ := List.mem_map.mp hchange
          have hlow := of_decide_eq_true (List.mem_filter.mp hn).2
          exact hlow.trans_lt (h.above other hother)
      · have hmem : change.sequenceNumber ∈ min_sequence :: rest := by
          rcases hback change hchange with ⟨-, hmem, -⟩ | hold
          · exact hmem
          · exact h.listed _ ⟨change, hold, rfl⟩
        have hge := hfirst _ hmem
        simp only
        omega
      · rcases hback change hchange with ⟨hstatus, -⟩ | hold
        · rw [hstatus]
          decide
        · exact h.unacknowledged change hold
      · rintro n ⟨change, hchange, rfl⟩
        rcases hback change hchange with ⟨-, hmem, -⟩ | hold
        · exact hmem
        · exact h.listed _ ⟨change, hold, rfl⟩
      · simp only
        omega
      · rintro n ⟨change, hchange, rfl⟩
        exact ⟨change, List.mem_append_right _ hchange, rfl⟩
  · exact ⟨h, fun n ↦ id⟩

/-- An acknowledgement keeps a proxy in order, and takes nothing off the list but what it acknowledges. -/
theorem FitsHistory.ackedChangesSet {last : ℕ} (h : p.FitsHistory history last)
    (hasc : Ascending id history) (hle : ∀ n ∈ history, 1 ≤ n ∧ n ≤ last)
    (hseq : seq_num ≤ last + 1) :
    (p.ackedChangesSet history (last + 1) seq_num).FitsHistory history last ∧
      ∀ n, p.Pending n → seq_num ≤ n →
        (p.ackedChangesSet history (last + 1) seq_num).Pending n := by
  by_cases hlt : p.changes_low_mark < seq_num
  · obtain ⟨hvalid, hlow, hpending⟩ :=
      @Valid.ackedChangesSet_of_lt p seq_num (last + 1) history h.toValid hlt
    refine ⟨⟨hvalid, fun n hn ↦ h.listed n ((hpending n).mp hn).1, by omega⟩, fun n hn hge ↦ ?_⟩
    exact (hpending n).mpr ⟨hn, hge⟩
  · obtain ⟨hfits, hpending⟩ := h.ackedChangesSet_of_ge hasc hle hlt
    exact ⟨hfits, fun n hn _ ↦ hpending n hn⟩

/-- To list a change that has just been written keeps a proxy in order. -/
theorem FitsHistory.addChange {last : ℕ} {status : ChangeForReaderStatus} {is_relevant : Bool}
    (h : p.FitsHistory history last) (hle : ∀ n ∈ history, n ≤ last)
    (hstatus : status ≠ .ACKNOWLEDGED) :
    (p.addChange ⟨last + 1, status⟩ is_relevant).FitsHistory (history ++ [last + 1]) (last + 1) ∧
      ∀ n, (p.addChange ⟨last + 1, status⟩ is_relevant).Pending n ↔
        p.Pending n ∨ n = last + 1 ∧ is_relevant = true := by
  have hlow := h.low_le
  cases is_relevant with
  | false =>
    refine ⟨⟨h.toValid, fun n hn ↦ List.mem_append_left _ (h.listed n hn), ?_⟩, fun n ↦ ?_⟩
    · exact hlow.trans (Nat.le_succ last)
    · simp [ReaderProxy.addChange]
  | true =>
    have hpending : ∀ n, (p.addChange ⟨last + 1, status⟩ true).Pending n ↔
        p.Pending n ∨ n = last + 1 := by
      intro n
      simp only [Pending, ReaderProxy.addChange, if_true, List.mem_append, List.mem_singleton,
        or_and_right, exists_or, exists_eq_left]
      exact or_congr_right eq_comm
    refine ⟨⟨⟨?_, ?_, ?_⟩, fun n hn ↦ ?_, hlow.trans (Nat.le_succ last)⟩, fun n ↦ ?_⟩
    · refine h.ascending.concat fun change hchange ↦ ?_
      exact Nat.lt_succ_of_le (hle _ (h.listed _ ⟨change, hchange, rfl⟩))
    · intro change hchange
      rcases List.mem_append.mp hchange with hold | hnew
      · exact h.above change hold
      · rw [List.mem_singleton.mp hnew]
        exact Nat.lt_succ_of_le hlow
    · intro change hchange
      rcases List.mem_append.mp hchange with hold | hnew
      · exact h.unacknowledged change hold
      · rw [List.mem_singleton.mp hnew]
        exact hstatus
    · rw [List.mem_append, List.mem_singleton]
      exact ((hpending n).mp hn).imp_left (h.listed n)
    · simp [hpending]

/-- New statuses keep a proxy in order, if they acknowledge nothing. -/
theorem FitsHistory.setStatus {last : ℕ} (h : p.FitsHistory history last)
    {status : ChangeForReader → ChangeForReaderStatus}
    (hstatus : ∀ change, change.status ≠ .ACKNOWLEDGED → status change ≠ .ACKNOWLEDGED) :
    (p.setStatus status).FitsHistory history last where
  toValid := h.toValid.setStatus hstatus
  listed := fun n hn ↦ h.listed n (pending_setStatus.mp hn)
  low_le := h.low_le

/-- To remove a change takes this change off the list and nothing else. -/
theorem FitsHistory.changeHasBeenRemoved {last : ℕ} {before : List ℕ} (h : p.FitsHistory history last)
    (hle : ∀ n ∈ history, n ≤ last) :
    (p.changeHasBeenRemoved before (last + 1) seq_num).FitsHistory
        (history.filter (· ≠ seq_num)) last ∧
      ∀ n, p.Pending n → n ≠ seq_num →
        (p.changeHasBeenRemoved before (last + 1) seq_num).Pending n := by
  unfold ReaderProxy.changeHasBeenRemoved
  split
  · next hnone =>
    rw [findChange_eq_none] at hnone
    refine ⟨⟨h.toValid, fun n hn ↦ List.mem_filter.mpr ⟨h.listed n hn, ?_⟩, h.low_le⟩,
      fun n hn _ ↦ hn⟩
    refine decide_eq_true ?_
    rintro rfl
    exact hnone hn
  · next hsome =>
    have hpending : p.Pending seq_num := not_not.mp fun hn ↦ hsome (findChange_eq_none.mpr hn)
    have hseq : seq_num ≤ last := hle _ (h.listed _ hpending)
    let erased := { p with
      changes_for_reader := p.changes_for_reader.filter (·.sequenceNumber ≠ seq_num) }
    have hmem : ∀ n, erased.Pending n ↔ p.Pending n ∧ n ≠ seq_num := by
      intro n
      constructor
      · rintro ⟨change, hchange, rfl⟩
        obtain ⟨hold, hne⟩ := List.mem_filter.mp hchange
        exact ⟨⟨change, hold, rfl⟩, of_decide_eq_true hne⟩
      · rintro ⟨⟨change, hchange, rfl⟩, hne⟩
        exact ⟨change, List.mem_filter.mpr ⟨hchange, decide_eq_true hne⟩, rfl⟩
    have herased : erased.FitsHistory (history.filter (· ≠ seq_num)) last := by
      refine ⟨⟨h.ascending.sublist List.filter_sublist, ?_, ?_⟩, fun n hn ↦ ?_, h.low_le⟩
      · exact fun change hchange ↦ h.above change (List.mem_of_mem_filter hchange)
      · exact fun change hchange ↦ h.unacknowledged change (List.mem_of_mem_filter hchange)
      · obtain ⟨hold, hne⟩ := (hmem n).mp hn
        exact List.mem_filter.mpr ⟨h.listed n hold, decide_eq_true hne⟩
    split
    · next hnext =>
      have hlt : erased.changes_low_mark < seq_num + 1 := by
        have hlow : erased.changes_low_mark = p.changes_low_mark := rfl
        omega
      obtain ⟨hvalid, hlow, hafter⟩ := @Valid.ackedChangesSet_of_lt erased (seq_num + 1) (last + 1)
        before herased.toValid hlt
      refine ⟨⟨hvalid, fun n hn ↦ herased.listed n ((hafter n).mp hn).1, hlow.le.trans hseq⟩,
        fun n hn hne ↦ (hafter n).mpr ⟨(hmem n).mpr ⟨hn, hne⟩, ?_⟩⟩
      have habove := h.lt_of_pending hn
      omega
    · exact ⟨herased, fun n hn hne ↦ (hmem n).mpr ⟨hn, hne⟩⟩

/-- Changes that are listed one after the other. -/
theorem foldl_addChange (changes : List ChangeForReader) : changes.foldl (·.addChange · true) p =
    { p with changes_for_reader := p.changes_for_reader ++ changes } := by
  induction changes generalizing p with
  | nil => rw [List.foldl_nil, List.append_nil]
  | cons change rest ih => rw [List.foldl_cons, ih]; simp [ReaderProxy.addChange]

/-- A new reader has acknowledged what is before the history. -/
theorem start_eq {transient_local : Bool} (h : ∀ n ∈ history, 1 ≤ n) :
    start transient_local history next_sequence_number =
      { transient_local, changes_low_mark := history.head?.getD next_sequence_number - 1 } := by
  cases transient_local with
  | false => rfl
  | true =>
    cases history with
    | nil => rfl
    | cons first rest =>
      have hnone : (first :: rest).filter (· ≤ 0) = [] :=
        List.filter_eq_nil_iff.mpr fun n hn ↦ by
          have hpos := h n hn
          rw [decide_eq_true_eq]
          omega
      simp only [start, if_true, ackedChangesSet, Nat.lt_irrefl, if_false, and_self, hnone,
        List.map_nil, List.append_nil, List.head?_cons, Option.getD_some]

end ReaderProxy

end HzjDds.Rtps
