import HzjDds.Rtps.ReaderProxy

/-!
# A writer that keeps what is not acknowledged

Library `Rtps`. Source: `vendor/Fast-DDS/src/cpp/rtps/writer/StatefulWriter.cpp` (333–410, 481–518,
630–900, 977–1190, 1379–1389, 1446–1566, 1799–1889, 1913–2036, 2168–2195). Readers are remote and
reliable, and stay matched; the writer pushes its changes. Timers, fragments, flow controllers and
liveliness are left out.
-/

namespace HzjDds.Rtps

open HzjDds.Cpp

universe u v

/-- What a writer sends. -/
inductive Message (α : Type u) where
  | data (change : CacheChange α)
  | heartbeat (count first_seq last_seq : ℕ)
  | gap (gap_start : ℕ) (gap_list : SequenceNumberSet)

/-- A writer with its history. -/
structure StatefulWriter (ι : Type v) (α : Type u) where
  changes : List (CacheChange α) := []
  lastCacheChangeSeqNum : ℕ := 0
  heartbeat_count : ℕ := 0
  next_all_acked_notify_sequence : ℕ := 1
  matched_remote_readers : List ι := []
  proxies : ι → ReaderProxy := fun _ ↦ {}

namespace StatefulWriter

variable {ι : Type v} {α : Type u} [DecidableEq ι]

omit [DecidableEq ι] in
/-- Sequence numbers of the changes in the history. -/
def history (w : StatefulWriter ι α) : List ℕ := w.changes.map (·.sequenceNumber)

omit [DecidableEq ι] in
/-- `next_sequence_number`. -/
def nextSequenceNumber (w : StatefulWriter ι α) : ℕ := w.lastCacheChangeSeqNum + 1

/-- Give a reader a new proxy. -/
def setProxy (w : StatefulWriter ι α) (i : ι) (p : ReaderProxy) : StatefulWriter ι α :=
  { w with proxies := Function.update w.proxies i p }

/-- Least low mark of the readers; without readers it is the last change. -/
def minLowMark (w : StatefulWriter ι α) : ℕ :=
  match w.matched_remote_readers with
  | [] => w.lastCacheChangeSeqNum
  | i :: is => is.foldl (fun low j ↦ min low (w.proxies j).changes_low_mark)
      (w.proxies i).changes_low_mark

/-- `check_acked_status`. -/
def checkAckedStatus (w : StatefulWriter ι α) : StatefulWriter ι α :=
  if w.matched_remote_readers.all fun i ↦ (w.proxies i).changes_for_reader = [] then
    { w with next_all_acked_notify_sequence := w.nextSequenceNumber }
  else if w.changes ≠ [] ∧ w.next_all_acked_notify_sequence ≤ w.minLowMark then
    { w with next_all_acked_notify_sequence := w.minLowMark + 1 }
  else w

/-- `add_change_` of the history: the change gets the next number. -/
def addChange (w : StatefulWriter ι α) (payload : α) : StatefulWriter ι α :=
  { w with
    changes := w.changes ++ [⟨w.nextSequenceNumber, payload⟩]
    lastCacheChangeSeqNum := w.nextSequenceNumber }

/-- `add_change_` and `unsent_change_added_to_history`; without readers, all that has been written
counts as acknowledged. -/
def unsentChangeAddedToHistory (w : StatefulWriter ι α) (rtps_is_relevant : ι → α → Bool)
    (payload : α) : StatefulWriter ι α :=
  if w.matched_remote_readers = [] then (w.addChange payload).checkAckedStatus
  else
    { w.addChange payload with
      proxies := fun i ↦
        if i ∈ w.matched_remote_readers then
          (w.proxies i).addChange ⟨w.nextSequenceNumber, .UNSENT⟩ (rtps_is_relevant i payload)
        else w.proxies i }

/-- `change_removed_by_history`. -/
def changeRemovedByHistory (w : StatefulWriter ι α) (seq : ℕ) : StatefulWriter ι α :=
  { w with
    changes := w.changes.filter (·.sequenceNumber ≠ seq)
    proxies := fun i ↦
      if i ∈ w.matched_remote_readers then
        (w.proxies i).changeHasBeenRemoved w.history w.nextSequenceNumber seq
      else w.proxies i }

/-- Changes that a late reader is to be sent, if it asks for them. -/
def lateChanges (w : StatefulWriter ι α) (rtps_is_relevant : ι → α → Bool) (i : ι) :
    List (CacheChange α) :=
  w.changes.filter (rtps_is_relevant i ·.serializedPayload)

/-- `matched_reader_add`, without the heartbeat and the gap that it sends. -/
def matchedReaderAdd (w : StatefulWriter ι α) (rtps_is_relevant : ι → α → Bool) (i : ι)
    (transient_local : Bool) : StatefulWriter ι α :=
  if i ∈ w.matched_remote_readers then w
  else
    { w with
      matched_remote_readers := w.matched_remote_readers ++ [i]
      proxies := Function.update w.proxies i
        (((if transient_local then w.lateChanges rtps_is_relevant i else []).map
            (ChangeForReader.mk ·.sequenceNumber .UNACKNOWLEDGED)).foldl (·.addChange · true)
          (.start transient_local w.history w.nextSequenceNumber)) }

/-- `send_heartbeat_nts_`. -/
def sendHeartbeat (w : StatefulWriter ι α) : Message α × StatefulWriter ι α :=
  (.heartbeat (nextCount w.heartbeat_count) (w.history.head?.getD w.nextSequenceNumber)
      (w.history.getLast?.getD w.lastCacheChangeSeqNum),
    { w with heartbeat_count := nextCount w.heartbeat_count })

/-- `deliver_sample_nts` of a change, to one reader; it is sent if it is unsent there. -/
def deliverSample (w : StatefulWriter ι α) (i : ι) (seq : ℕ) :
    Option (Option (Message α) × StatefulWriter ι α) :=
  match w.changes.find? (·.sequenceNumber = seq) with
  | none => none
  | some change =>
    if i ∈ w.matched_remote_readers ∧ (w.proxies i).changeIsUnsent seq = true then
      some (some (.data change),
        (w.setProxy i ((w.proxies i).fromUnsentToUnderway seq)).checkAckedStatus)
    else some (none, w.checkAckedStatus)

/-- Numbers that a gap names. -/
def gapNumbers (gap_start : ℕ) (gap_list : SequenceNumberSet) : List ℕ :=
  List.range' gap_start (gap_list.base - gap_start) ++ gap_list.items

/-- A gap may name changes that have been written and that are not in the history or not listed for the
reader; so do all the gaps that the source sends (`add_gaps_for_holes_in_history`,
`add_gaps_for_removed_irrelevants`, `change_is_unsent`, `requested_changes_set`, a new reader). -/
def mayGap (w : StatefulWriter ι α) (i : ι) (gap_start : ℕ) (gap_list : SequenceNumberSet) : Bool :=
  (gapNumbers gap_start gap_list).all fun n ↦
    n ≤ w.lastCacheChangeSeqNum ∧ (n ∉ w.history ∨ (w.proxies i).findChange n = none)

/-- `is_acked_by_all`. -/
def isAckedByAll (w : StatefulWriter ι α) (seq : ℕ) : Bool :=
  seq < w.next_all_acked_notify_sequence ||
    w.matched_remote_readers.all fun i ↦ (w.proxies i).changeIsAcked seq

/-- What an acknowledgement makes of the proxy of its reader: `process_acknack`. -/
def acknowledged (w : StatefulWriter ι α) (p : ReaderProxy) (sn_set : SequenceNumberSet) :
    ReaderProxy :=
  if 0 < sn_set.base ∧ w.changes ≠ [] then
    ((p.ackedChangesSet w.history w.nextSequenceNumber sn_set.base).requestedChangesSet sn_set).2
  else p.ackedChangesSet w.history w.nextSequenceNumber sn_set.base

/-- `process_acknack`, without the messages that it sends. -/
def processAcknack (w : StatefulWriter ι α) (i : ι) (acknack : Acknack) : StatefulWriter ι α :=
  if acknack.sns.max?.getD acknack.sns.base ≤ w.nextSequenceNumber ∧
      i ∈ w.matched_remote_readers then
    match (w.proxies i).checkAndSetAcknackCount acknack.count with
    | none => w
    | some p => (w.setProxy i (w.acknowledged p acknack.sns)).checkAckedStatus
  else w

/-! ## What a writer keeps -/

variable {w w' : StatefulWriter ι α} {contents : ℕ → α} {rtps_is_relevant : ι → α → Bool} {i j : ι}
  {n seq : ℕ} {p : ReaderProxy}

omit [DecidableEq ι] in
/-- What holds of a writer between two steps. -/
structure Valid (contents : ℕ → α) (w : StatefulWriter ι α) : Prop where
  ascending : Ascending id w.history
  written : ∀ change ∈ w.changes, 1 ≤ change.sequenceNumber ∧
    change.sequenceNumber ≤ w.lastCacheChangeSeqNum ∧
    change.serializedPayload = contents change.sequenceNumber
  next_all_acked : w.next_all_acked_notify_sequence ≤ w.lastCacheChangeSeqNum + 1
  fits : ∀ i ∈ w.matched_remote_readers,
    (w.proxies i).FitsHistory w.history w.lastCacheChangeSeqNum

omit [DecidableEq ι] in
/-- Numbers in the history have been written. -/
theorem Valid.history_le (h : Valid contents w) (hn : n ∈ w.history) :
    1 ≤ n ∧ n ≤ w.lastCacheChangeSeqNum := by
  obtain ⟨change, hchange, rfl⟩ := List.mem_map.mp hn
  exact ⟨(h.written change hchange).1, (h.written change hchange).2.1⟩

/-- A new proxy that is in order keeps a writer valid. -/
theorem Valid.setProxy (h : Valid contents w)
    (hp : i ∈ w.matched_remote_readers → p.FitsHistory w.history w.lastCacheChangeSeqNum) :
    Valid contents (w.setProxy i p) where
  ascending := h.ascending
  written := h.written
  next_all_acked := h.next_all_acked
  fits := by
    intro j hj
    simp only [StatefulWriter.setProxy, Function.update_apply]
    split
    · next heq => exact hp (heq ▸ hj)
    · exact h.fits j hj

/-- To remove a change keeps a writer valid, and takes nothing else off the lists. -/
theorem Valid.changeRemovedByHistory (h : Valid contents w) :
    Valid contents (w.changeRemovedByHistory seq) ∧
      ∀ i ∈ w.matched_remote_readers, ∀ n, (w.proxies i).Pending n → n ≠ seq →
        ((w.changeRemovedByHistory seq).proxies i).Pending n := by
  have hremove : ∀ i ∈ w.matched_remote_readers,
      ((w.proxies i).changeHasBeenRemoved w.history w.nextSequenceNumber seq).FitsHistory
        (w.history.filter (· ≠ seq)) w.lastCacheChangeSeqNum ∧
      ∀ n, (w.proxies i).Pending n → n ≠ seq →
        ((w.proxies i).changeHasBeenRemoved w.history w.nextSequenceNumber seq).Pending n :=
    fun i hi ↦ (h.fits i hi).changeHasBeenRemoved fun n hn ↦ (h.history_le hn).2
  have hhistory : (w.changeRemovedByHistory seq).history = w.history.filter (· ≠ seq) := by
    simp only [StatefulWriter.changeRemovedByHistory, history, List.filter_map]
    rfl
  constructor
  · constructor
    case ascending =>
      rw [hhistory]
      exact h.ascending.sublist List.filter_sublist
    case written => exact fun change hchange ↦ h.written change (List.mem_of_mem_filter hchange)
    case next_all_acked => exact h.next_all_acked
    case fits =>
      intro i hi
      rw [hhistory]
      simp only [StatefulWriter.changeRemovedByHistory]
      rw [if_pos (show i ∈ w.matched_remote_readers from hi)]
      exact (hremove i hi).1
  · intro i hi n hn hne
    simp only [StatefulWriter.changeRemovedByHistory]
    rw [if_pos hi]
    exact (hremove i hi).2 n hn hne

omit [DecidableEq ι] in
private theorem minLowMark_le (hi : i ∈ w.matched_remote_readers) :
    w.minLowMark ≤ (w.proxies i).changes_low_mark := by
  have hfold : ∀ (is : List ι) (low : ℕ),
      is.foldl (fun low j ↦ min low (w.proxies j).changes_low_mark) low ≤ low ∧
        ∀ j ∈ is, is.foldl (fun low j ↦ min low (w.proxies j).changes_low_mark) low ≤
          (w.proxies j).changes_low_mark := by
    intro is
    induction is with
    | nil => exact fun low ↦ ⟨le_rfl, fun _ h ↦ absurd h List.not_mem_nil⟩
    | cons k is ih =>
      intro low
      obtain ⟨hle, hall⟩ := ih (min low (w.proxies k).changes_low_mark)
      refine ⟨hle.trans (min_le_left ..), fun j hj ↦ ?_⟩
      rcases List.mem_cons.mp hj with rfl | hj
      · exact hle.trans (min_le_right ..)
      · exact hall j hj
  rw [minLowMark]
  cases hmatched : w.matched_remote_readers with
  | nil => rw [hmatched] at hi; exact absurd hi List.not_mem_nil
  | cons k is =>
    rw [hmatched] at hi
    rcases List.mem_cons.mp hi with rfl | hi
    · exact (hfold is _).1
    · exact (hfold is _).2 i hi

omit [DecidableEq ι] in
/-- `check_acked_status` only moves on the changes that it takes as acknowledged by all. -/
theorem checkAckedStatus_eq (w : StatefulWriter ι α) :
    ∃ next, w.checkAckedStatus = { w with next_all_acked_notify_sequence := next } := by
  rw [StatefulWriter.checkAckedStatus]
  split
  · exact ⟨_, rfl⟩
  split
  · exact ⟨_, rfl⟩
  · exact ⟨w.next_all_acked_notify_sequence, rfl⟩

omit [DecidableEq ι] in
/-- `check_acked_status` keeps a writer valid; what it takes as acknowledged by all is listed for no
reader. -/
theorem Valid.checkAckedStatus (h : Valid contents w) : Valid contents w.checkAckedStatus ∧
    w.checkAckedStatus.lastCacheChangeSeqNum = w.lastCacheChangeSeqNum ∧
    w.checkAckedStatus.matched_remote_readers = w.matched_remote_readers ∧
    w.checkAckedStatus.proxies = w.proxies ∧
    ∀ n < w.checkAckedStatus.next_all_acked_notify_sequence,
      n < w.next_all_acked_notify_sequence ∨
        ∀ i ∈ w.matched_remote_readers, ¬ (w.proxies i).Pending n := by
  rw [StatefulWriter.checkAckedStatus]
  split
  · next hall =>
    refine ⟨⟨h.ascending, h.written, le_rfl, h.fits⟩, rfl, rfl, rfl, fun n _ ↦ .inr fun i hi hn ↦ ?_⟩
    obtain ⟨change, hchange, -⟩ := hn
    rw [of_decide_eq_true (List.all_eq_true.mp hall i hi)] at hchange
    exact List.not_mem_nil hchange
  split
  · next hnot _ =>
    obtain ⟨i, hi⟩ : ∃ i, i ∈ w.matched_remote_readers := by
      refine List.exists_mem_of_ne_nil _ fun hnil ↦ hnot ?_
      rw [hnil]
      rfl
    have hle := (minLowMark_le hi).trans (h.fits i hi).low_le
    refine ⟨⟨h.ascending, h.written, Nat.succ_le_succ hle, h.fits⟩, rfl, rfl, rfl,
      fun n hn ↦ .inr fun j hj hpending ↦ ?_⟩
    have hlt := (h.fits j hj).lt_of_pending hpending
    exact hlt.not_ge ((Nat.lt_succ_iff.mp hn).trans (minLowMark_le hj))
  · exact ⟨h, rfl, rfl, rfl, fun n hn ↦ .inl hn⟩

omit [DecidableEq ι] in
/-- The history takes a change in. -/
theorem Valid.addChange (h : Valid contents w) :
    Valid contents (w.addChange (contents w.nextSequenceNumber)) ∧
      (w.addChange (contents w.nextSequenceNumber)).history = w.history ++ [w.nextSequenceNumber] := by
  have hhistory : (w.addChange (contents w.nextSequenceNumber)).history =
      w.history ++ [w.nextSequenceNumber] := by
    simp [StatefulWriter.addChange, history]
  refine ⟨?_, hhistory⟩
  constructor
  case ascending =>
    rw [hhistory]
    exact h.ascending.concat fun n hn ↦ Nat.lt_succ_of_le (h.history_le hn).2
  case written =>
    intro change hchange
    rcases List.mem_append.mp hchange with hold | hnew
    · obtain ⟨hpos, hle, hpayload⟩ := h.written change hold
      exact ⟨hpos, hle.trans (Nat.le_succ _), hpayload⟩
    · rw [List.mem_singleton.mp hnew]
      exact ⟨Nat.succ_pos _, le_rfl, rfl⟩
  case next_all_acked => exact h.next_all_acked.trans (Nat.le_succ _)
  case fits =>
    intro i hi
    have hfits := h.fits i hi
    rw [hhistory]
    exact ⟨hfits.toValid, fun n hn ↦ List.mem_append_left _ (hfits.listed n hn),
      hfits.low_le.trans (Nat.le_succ _)⟩

/-- To write keeps a writer valid. It lists the new change for the readers that it is relevant to, and
takes it as acknowledged only if there are none. -/
theorem Valid.unsentChangeAddedToHistory (h : Valid contents w) :
    Valid contents (w.unsentChangeAddedToHistory rtps_is_relevant (contents w.nextSequenceNumber)) ∧
      (w.unsentChangeAddedToHistory rtps_is_relevant
        (contents w.nextSequenceNumber)).lastCacheChangeSeqNum = w.nextSequenceNumber ∧
      (w.unsentChangeAddedToHistory rtps_is_relevant
        (contents w.nextSequenceNumber)).matched_remote_readers = w.matched_remote_readers ∧
      ∀ i ∈ w.matched_remote_readers,
        (w.unsentChangeAddedToHistory rtps_is_relevant
            (contents w.nextSequenceNumber)).next_all_acked_notify_sequence =
          w.next_all_acked_notify_sequence ∧
        ∀ n, ((w.unsentChangeAddedToHistory rtps_is_relevant
            (contents w.nextSequenceNumber)).proxies i).Pending n ↔
          (w.proxies i).Pending n ∨ n = w.nextSequenceNumber ∧
            rtps_is_relevant i (contents w.nextSequenceNumber) = true := by
  obtain ⟨hvalid, hhistory⟩ := h.addChange
  rw [StatefulWriter.unsentChangeAddedToHistory]
  split
  · next hnone =>
    obtain ⟨hacked, hlast, hmatched, -⟩ := hvalid.checkAckedStatus
    refine ⟨hacked, hlast, hmatched, fun i hi ↦ ?_⟩
    rw [hnone] at hi
    exact absurd hi List.not_mem_nil
  · have hadd : ∀ i ∈ w.matched_remote_readers,
        ((w.proxies i).addChange ⟨w.nextSequenceNumber, .UNSENT⟩
            (rtps_is_relevant i (contents w.nextSequenceNumber))).FitsHistory
          (w.history ++ [w.nextSequenceNumber]) w.nextSequenceNumber ∧
        ∀ n, ((w.proxies i).addChange ⟨w.nextSequenceNumber, .UNSENT⟩
            (rtps_is_relevant i (contents w.nextSequenceNumber))).Pending n ↔
          (w.proxies i).Pending n ∨ n = w.nextSequenceNumber ∧
            rtps_is_relevant i (contents w.nextSequenceNumber) = true := fun i hi ↦
      (h.fits i hi).addChange (fun n hn ↦ (h.history_le hn).2) (by decide)
    refine ⟨⟨hvalid.ascending, hvalid.written, hvalid.next_all_acked, fun i hi ↦ ?_⟩, rfl, rfl,
      fun i hi ↦ ⟨rfl, fun n ↦ ?_⟩⟩
    · refine hhistory ▸ ?_
      simp only
      rw [if_pos (show i ∈ w.matched_remote_readers from hi)]
      exact (hadd i hi).1
    · simp only
      rw [if_pos hi]
      exact (hadd i hi).2 n

/-- To deliver a change keeps a writer valid and all lists; what is sent is in the history. -/
theorem Valid.deliverSample (h : Valid contents w) {message : Option (Message α)}
    (hs : w.deliverSample i seq = some (message, w')) :
    Valid contents w' ∧ w'.lastCacheChangeSeqNum = w.lastCacheChangeSeqNum ∧
      w'.matched_remote_readers = w.matched_remote_readers ∧
      (∀ j n, (w'.proxies j).Pending n ↔ (w.proxies j).Pending n) ∧
      (∀ n < w'.next_all_acked_notify_sequence, n < w.next_all_acked_notify_sequence ∨
        ∀ j ∈ w.matched_remote_readers, ¬ (w.proxies j).Pending n) ∧
      ∀ sent ∈ message, i ∈ w.matched_remote_readers ∧ ∃ change ∈ w.changes, sent = .data change := by
  rw [StatefulWriter.deliverSample] at hs
  split at hs
  · contradiction
  next change hfind =>
  split at hs
  · next hi =>
    cases hs
    have hset : Valid contents (w.setProxy i ((w.proxies i).fromUnsentToUnderway seq)) := by
      refine h.setProxy fun hi ↦ (h.fits i hi).setStatus fun other hother ↦ ?_
      split
      · decide
      · exact hother
    have hlisted : ∀ j n, ((w.setProxy i ((w.proxies i).fromUnsentToUnderway seq)).proxies j).Pending n ↔
        (w.proxies j).Pending n := by
      intro j n
      simp only [StatefulWriter.setProxy, Function.update_apply]
      split
      · next heq =>
        rw [heq]
        exact ReaderProxy.pending_setStatus
      · exact Iff.rfl
    obtain ⟨hvalid, hlast, hmatched, hproxies, hall⟩ := hset.checkAckedStatus
    refine ⟨hvalid, hlast, hmatched, fun j n ↦ by rw [hproxies, hlisted], fun n hn ↦ ?_, ?_⟩
    · exact (hall n hn).imp_right fun hnone j hj hpending ↦ hnone j hj ((hlisted j n).mpr hpending)
    · rintro _ ⟨⟩
      exact ⟨hi.1, change, List.mem_of_find?_eq_some hfind, rfl⟩
  · cases hs
    obtain ⟨hvalid, hlast, hmatched, hproxies, hall⟩ := h.checkAckedStatus
    exact ⟨hvalid, hlast, hmatched, fun j n ↦ by rw [hproxies], hall, fun _ hsent ↦ by cases hsent⟩

/-- To match a reader keeps a writer valid, and lists for it what a late reader is to be sent. -/
theorem Valid.matchedReaderAdd (h : Valid contents w) {transient_local : Bool}
    (hi : i ∉ w.matched_remote_readers) :
    Valid contents (w.matchedReaderAdd rtps_is_relevant i transient_local) ∧
      ∀ change ∈ w.lateChanges rtps_is_relevant i, transient_local = true →
        ((w.matchedReaderAdd rtps_is_relevant i transient_local).proxies i).Pending
          change.sequenceNumber := by
  let late := if transient_local then w.lateChanges rtps_is_relevant i else []
  have hlate : ∀ change ∈ late, change ∈ w.changes := by
    intro change hchange
    simp only [late] at hchange
    split at hchange
    · exact List.mem_of_mem_filter hchange
    · exact absurd hchange List.not_mem_nil
  have hasc : Ascending CacheChange.sequenceNumber late := by
    simp only [late]
    split
    · exact (List.pairwise_map.mp h.ascending).sublist List.filter_sublist
    · exact List.Pairwise.nil
  have hproxy : (w.matchedReaderAdd rtps_is_relevant i transient_local).proxies i =
      { transient_local
        changes_low_mark := w.history.head?.getD w.nextSequenceNumber - 1
        changes_for_reader := late.map (ChangeForReader.mk ·.sequenceNumber .UNACKNOWLEDGED) } := by
    rw [StatefulWriter.matchedReaderAdd, if_neg hi]
    simp only [Function.update_self]
    rw [ReaderProxy.start_eq fun n hn ↦ (h.history_le hn).1, ReaderProxy.foldl_addChange]
    rfl
  have hlow : ∀ n ∈ w.history, w.history.head?.getD w.nextSequenceNumber ≤ n := by
    intro n hn
    have hasc := h.ascending
    cases hhistory : w.history with
    | nil => rw [hhistory] at hn; exact absurd hn List.not_mem_nil
    | cons first rest =>
      rw [hhistory] at hn hasc
      rcases List.mem_cons.mp hn with rfl | hn
      · exact le_rfl
      · exact ((List.pairwise_cons.mp hasc).1 n hn).le
  have hfits : ((w.matchedReaderAdd rtps_is_relevant i transient_local).proxies i).FitsHistory
      w.history w.lastCacheChangeSeqNum := by
    rw [hproxy]
    refine ⟨⟨List.pairwise_map.mpr hasc, ?_, ?_⟩, ?_, ?_⟩
    · intro change hchange
      obtain ⟨old, hold, rfl⟩ := List.mem_map.mp hchange
      have hmem : old.sequenceNumber ∈ w.history := List.mem_map_of_mem (hlate old hold)
      have hge := hlow _ hmem
      have hpos := (h.history_le hmem).1
      simp only
      omega
    · intro change hchange
      obtain ⟨old, hold, rfl⟩ := List.mem_map.mp hchange
      simp
    · rintro n ⟨change, hchange, rfl⟩
      obtain ⟨old, hold, rfl⟩ := List.mem_map.mp hchange
      exact List.mem_map_of_mem (hlate old hold)
    · simp only
      cases hhistory : w.history with
      | nil => exact le_rfl
      | cons first rest =>
        have hle := (h.history_le (show first ∈ w.history by simp [hhistory])).2
        simp only [List.head?_cons, Option.getD_some]
        omega
  constructor
  · have hsame : (w.matchedReaderAdd rtps_is_relevant i transient_local).history = w.history := by
      rw [StatefulWriter.matchedReaderAdd, if_neg hi]
      rfl
    have hlast : (w.matchedReaderAdd rtps_is_relevant i transient_local).lastCacheChangeSeqNum =
        w.lastCacheChangeSeqNum := by
      rw [StatefulWriter.matchedReaderAdd, if_neg hi]
    constructor
    case ascending => rw [hsame]; exact h.ascending
    case written =>
      rw [StatefulWriter.matchedReaderAdd, if_neg hi]
      exact h.written
    case next_all_acked =>
      rw [StatefulWriter.matchedReaderAdd, if_neg hi]
      exact h.next_all_acked
    case fits =>
      intro j hj
      rw [hsame, hlast]
      by_cases heq : j = i
      · rw [heq]
        exact hfits
      · rw [StatefulWriter.matchedReaderAdd, if_neg hi] at hj ⊢
        simp only [Function.update_of_ne heq]
        rcases List.mem_append.mp hj with hold | hnew
        · exact h.fits j hold
        · exact absurd (List.mem_singleton.mp hnew) heq
  · intro change hchange htransient
    rw [hproxy]
    refine ⟨⟨change.sequenceNumber, .UNACKNOWLEDGED⟩, List.mem_map.mpr ⟨change, ?_, rfl⟩, rfl⟩
    simp only [late, htransient, if_true]
    exact hchange

omit [DecidableEq ι] in
/-- An acknowledgement keeps a proxy in order, and takes nothing off the list but what it acknowledges. -/
theorem Valid.acknowledged (h : Valid contents w) {sn_set : SequenceNumberSet}
    (hp : p.FitsHistory w.history w.lastCacheChangeSeqNum) (hle : sn_set.base ≤ w.nextSequenceNumber) :
    (w.acknowledged p sn_set).FitsHistory w.history w.lastCacheChangeSeqNum ∧
      ∀ n, p.Pending n → sn_set.base ≤ n → (w.acknowledged p sn_set).Pending n := by
  obtain ⟨hfits, hpending⟩ := hp.ackedChangesSet h.ascending (fun n hn ↦ h.history_le hn) hle
  rw [StatefulWriter.acknowledged]
  split
  · refine ⟨hfits.setStatus fun change hchange ↦ ?_, fun n hn hge ↦ ?_⟩
    · split
      · decide
      · exact hchange
    · exact ReaderProxy.pending_setStatus.mpr (hpending n hn hge)
  · exact ⟨hfits, hpending⟩

/-- `process_acknack` keeps a writer valid, takes nothing off the lists but what is acknowledged, and
takes as acknowledged by all only what is then listed for no reader. -/
theorem Valid.processAcknack (h : Valid contents w) (i : ι) (acknack : Acknack) :
    Valid contents (w.processAcknack i acknack) ∧
      (w.processAcknack i acknack).lastCacheChangeSeqNum = w.lastCacheChangeSeqNum ∧
      (w.processAcknack i acknack).matched_remote_readers = w.matched_remote_readers ∧
      (∀ j ∈ w.matched_remote_readers, ∀ n, (w.proxies j).Pending n →
        ((w.processAcknack i acknack).proxies j).Pending n ∨ j = i ∧ n < acknack.sns.base) ∧
      ∀ n < (w.processAcknack i acknack).next_all_acked_notify_sequence,
        n < w.next_all_acked_notify_sequence ∨ ∀ j ∈ w.matched_remote_readers,
          ¬ ((w.processAcknack i acknack).proxies j).Pending n := by
  rw [StatefulWriter.processAcknack]
  split
  · next hguard =>
    obtain ⟨hreceived, hi⟩ := hguard
    split
    · exact ⟨h, rfl, rfl, fun j _ n hn ↦ .inl hn, fun n hn ↦ .inl hn⟩
    · next p hp =>
      rw [ReaderProxy.checkAndSetAcknackCount] at hp
      split at hp
      · cases hp
        have hcounted : ReaderProxy.FitsHistory { w.proxies i with
            next_expected_acknack_count := nextCount acknack.count } w.history w.lastCacheChangeSeqNum :=
          ⟨⟨(h.fits i hi).ascending, (h.fits i hi).above, (h.fits i hi).unacknowledged⟩,
            (h.fits i hi).listed, (h.fits i hi).low_le⟩
        have hbase : acknack.sns.base ≤ w.nextSequenceNumber := by
          cases hmax : acknack.sns.max? with
          | none => rwa [hmax] at hreceived
          | some max =>
            rw [hmax] at hreceived
            have hmem := List.mem_of_getLast? hmax
            exact (acknack.sns.mem_range max hmem).1.trans hreceived
        obtain ⟨hfits, hpending⟩ := h.acknowledged hcounted hbase
        obtain ⟨hvalid, hlast, hmatched, hproxies, hall⟩ :=
          (h.setProxy fun _ ↦ hfits : Valid contents (w.setProxy i _)).checkAckedStatus
        refine ⟨hvalid, hlast, hmatched, fun j hj n hn ↦ ?_, fun n hn ↦ ?_⟩
        · rw [hproxies]
          simp only [StatefulWriter.setProxy, Function.update_apply]
          split
          · next heq =>
            subst heq
            by_cases hge : acknack.sns.base ≤ n
            · exact .inl (hpending n hn hge)
            · exact .inr ⟨rfl, not_le.mp hge⟩
          · exact .inl hn
        · rw [hproxies]
          exact hall n hn
      · contradiction
  · exact ⟨h, rfl, rfl, fun j _ n hn ↦ .inl hn, fun n hn ↦ .inl hn⟩

end StatefulWriter

end HzjDds.Rtps
