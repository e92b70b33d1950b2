import HzjDds.Rtps.Settled

/-!
# A reader that asks again for what it misses

Library `Rtps`. Source: `vendor/Fast-DDS/src/cpp/rtps/reader/StatefulReader.cpp` (568–704, 879–990,
1091–1317, 1588–1691) and `rtps/history/History.cpp` (240–265). A reader of one writer, whose
changes come whole: fragments of changes are left out.
-/

namespace HzjDds.Rtps

open HzjDds.Cpp

universe u

/-- The count behind a `Count_t`, which is a `uint32_t`. -/
def nextCount (count : ℕ) : ℕ := (count + 1) % 2 ^ 32

/-- A count below the greatest one goes up. -/
theorem nextCount_eq {count : ℕ} (hlt : count + 1 < 2 ^ 32) : nextCount count = count + 1 :=
  Nat.mod_eq_of_lt hlt

/-- `CacheChange_t`, as far as it is modelled. -/
structure CacheChange (α : Type u) where
  sequenceNumber : ℕ
  serializedPayload : α
  deriving DecidableEq

/-- The acknowledgement that a reader sends. -/
structure Acknack where
  count : ℕ
  sns : SequenceNumberSet
  final : Bool

/-- What the history and the resources of a reader make of a change: it is accepted, and stored
unless the history keeps newer changes only, will never be accepted, or may be accepted later. -/
inductive Reception where
  | accepted (stored : Bool)
  | irrelevant
  | rejected
  deriving DecidableEq

/-- A reader about one writer: what it knows, and the changes in its history. -/
structure StatefulReader (α : Type u) where
  proxy : WriterProxy := {}
  changes : List (CacheChange α) := []
  acknack_count : ℕ := 0

namespace StatefulReader

variable {α : Type u}

/-- Inner loop of `NotifyChanges`: go on to what follows a change. The low mark bounds it. -/
def skipNotified (seq : ℕ) : ℕ → WriterProxy → Option ℕ × WriterProxy
  | 0, p => p.nextCacheChangeToBeNotified
  | fuel + 1, p =>
    match p.nextCacheChangeToBeNotified with
    | (none, p) => (none, p)
    | (some next, p) => if next ≤ seq then skipNotified seq fuel p else (some next, p)

/-- Outer loop of `NotifyChanges` over what is left of the history, with `get_change_nts`, which goes
on to the first change that is not before the next one. -/
def notifyFrom (max_seq : ℕ) :
    List (CacheChange α) → Option ℕ → WriterProxy → List (CacheChange α) × WriterProxy
  | _, none, p => ([], p)
  | [], some _, p => ([], p)
  | change :: rest, some next, p =>
    if change.sequenceNumber < next then notifyFrom max_seq rest (some next) p
    else if change.sequenceNumber ≤ max_seq then
      let skipped := skipNotified change.sequenceNumber
        (p.changes_from_writer_low_mark - p.last_notified) p
      let others := notifyFrom max_seq rest skipped.1 skipped.2
      (change :: others.1, others.2)
    else ([], p)

/-- `NotifyChanges`, with the changes that the listener is notified of. -/
def notifyChanges (r : StatefulReader α) : List (CacheChange α) × StatefulReader α :=
  let max_seq := r.proxy.changes_from_writer_low_mark
  let first := r.proxy.nextCacheChangeToBeNotified
  let notified := notifyFrom max_seq r.changes first.1 first.2
  (notified.1, { r with proxy := notified.2.considerAllNotified })

/-- `process_data_msg`. -/
def processDataMsg (r : StatefulReader α) (change : CacheChange α) (reception : Reception) :
    List (CacheChange α) × StatefulReader α :=
  if r.proxy.changeWasReceived change.sequenceNumber then ([], r)
  else
    match reception with
    | .accepted stored =>
      notifyChanges { r with
        changes := if stored then sortedVectorInsert CacheChange.sequenceNumber r.changes change
          else r.changes
        proxy := (r.proxy.receivedChangeSet change.sequenceNumber).2 }
    | .irrelevant =>
      notifyChanges { r with proxy := r.proxy.irrelevantChangeSet change.sequenceNumber }
    | .rejected => ([], r)

/-- `process_heartbeat_msg`, with the number of lost samples. -/
def processHeartbeatMsg (r : StatefulReader α) (count first_seq last_seq : ℕ) :
    ℕ × List (CacheChange α) × StatefulReader α :=
  match r.proxy.processHeartbeat count first_seq last_seq with
  | none => (0, [], r)
  | some (lost, proxy) => (lost, notifyChanges { r with proxy })

/-- `process_gap_msg`. -/
def processGapMsg (r : StatefulReader α) (gap_start : ℕ) (gap_list : SequenceNumberSet) :
    List (CacheChange α) × StatefulReader α :=
  if gap_start < 1 ∨ gap_list.base ≤ gap_start then ([], r)
  else notifyChanges { r with proxy := r.proxy.processGap gap_start gap_list }

/-- `send_acknack` in response to a heartbeat, where no change is incomplete. -/
def sendAcknack (r : StatefulReader α) (heartbeat_was_final : Bool) :
    Option (Acknack × StatefulReader α) :=
  if r.proxy.missingChanges.items ≠ [] ∨ heartbeat_was_final = false then
    some ({ count := nextCount r.acknack_count
            sns := r.proxy.missingChanges
            final := r.proxy.missingChanges.items = [] },
      { r with acknack_count := nextCount r.acknack_count })
  else none

/-- `send_acknack` before the first heartbeat, which acknowledges nothing; `WriterProxy.cpp:517–537`. -/
def sendInitialAcknack (r : StatefulReader α) : Option (Acknack × StatefulReader α) :=
  if r.proxy.last_heartbeat_count = 0 then
    some ({ count := nextCount r.acknack_count, sns := .empty 256 0, final := false },
      { r with acknack_count := nextCount r.acknack_count })
  else none

/-- The history removes a change. -/
def removeChange (r : StatefulReader α) (seq : ℕ) : StatefulReader α :=
  { r with changes := r.changes.filter (·.sequenceNumber ≠ seq) }

/-! ## What the listener is notified of -/

variable {p p' : WriterProxy} {r : StatefulReader α} {seq n : ℕ}

private theorem notified_eq_self (h : p.last_notified = n) : { p with last_notified := n } = p := by
  subst h
  rfl

@[simp] theorem notifyFrom_none (max_seq : ℕ) (changes : List (CacheChange α)) (p : WriterProxy) :
    notifyFrom max_seq changes none p = ([], p) := by
  cases changes <;> rfl

private theorem skipNotified_eq {fuel : ℕ}
    (hfuel : p.changes_from_writer_low_mark - p.last_notified = fuel) (hle : p.last_notified ≤ seq)
    (hseq : seq ≤ p.changes_from_writer_low_mark) : skipNotified seq fuel p =
      if seq < p.changes_from_writer_low_mark then
        (some (seq + 1), { p with last_notified := seq + 1 })
      else (none, { p with last_notified := p.changes_from_writer_low_mark }) := by
  induction fuel generalizing p with
  | zero =>
    have hlast : p.last_notified = p.changes_from_writer_low_mark := by omega
    rw [skipNotified, WriterProxy.nextCacheChangeToBeNotified, if_neg (by omega), if_neg (by omega),
      notified_eq_self hlast]
  | succ fuel ih =>
    rw [skipNotified, WriterProxy.nextCacheChangeToBeNotified, if_pos (by omega)]
    simp only
    split
    · next hmore =>
      have hleft : p.changes_from_writer_low_mark - (p.last_notified + 1) = fuel := by omega
      exact ih hleft hmore hseq
    · next hbehind =>
      have hlast : p.last_notified = seq := by omega
      rw [if_pos (by omega), hlast]

/-- The loops notify of the changes from the next one to the low mark. -/
theorem notifyFrom_eq {changes : List (CacheChange α)}
    (hasc : Ascending CacheChange.sequenceNumber changes)
    (hle : p.last_notified ≤ p.changes_from_writer_low_mark) :
    (notifyFrom p.changes_from_writer_low_mark changes (some p.last_notified) p).1 =
        changes.filter (fun change ↦ p.last_notified ≤ change.sequenceNumber ∧
          change.sequenceNumber ≤ p.changes_from_writer_low_mark) ∧
      ∃ last ≤ p.changes_from_writer_low_mark,
        (notifyFrom p.changes_from_writer_low_mark changes (some p.last_notified) p).2 =
          { p with last_notified := last } := by
  induction changes generalizing p with
  | nil => exact ⟨rfl, p.last_notified, hle, rfl⟩
  | cons change rest ih =>
    obtain ⟨hchange, hrest⟩ := List.pairwise_cons.mp hasc
    rw [notifyFrom, List.filter_cons]
    split
    · next hbefore =>
      rw [if_neg (by simp [hbefore])]
      exact ih hrest hle
    next hge =>
    split
    · next hmax =>
      rw [if_pos (by simp only [decide_eq_true_eq]; omega),
        skipNotified_eq rfl (not_lt.mp hge) hmax]
      split
      · next hlt =>
        obtain ⟨hnotified, last, hlast, hproxy⟩ :=
          @ih { p with last_notified := change.sequenceNumber + 1 } hrest hlt
        refine ⟨?_, last, hlast, hproxy⟩
        refine congrArg (change :: ·) (hnotified.trans (List.filter_congr fun other hother ↦ ?_))
        have hbehind := hchange other hother
        exact decide_eq_decide.mpr (by simp only; omega)
      · next hge' =>
        simp only [notifyFrom_none]
        refine ⟨congrArg (change :: ·) (Eq.symm ?_), _, le_rfl, rfl⟩
        refine List.filter_eq_nil_iff.mpr fun other hother ↦ ?_
        have hbehind := hchange other hother
        simp only [decide_eq_true_eq]
        omega
    · next hbeyond =>
      rw [if_neg (by simp only [decide_eq_true_eq]; omega)]
      refine ⟨(List.filter_eq_nil_iff.mpr fun other hother ↦ ?_).symm, p.last_notified, hle, rfl⟩
      have hbehind := hchange other hother
      simp only [decide_eq_true_eq]
      omega

/-- `NotifyChanges` notifies of the changes in the history between the last one notified and the low
mark, in order, and then all have been notified. -/
theorem notifyChanges_eq (hasc : Ascending CacheChange.sequenceNumber r.changes)
    (hle : r.proxy.last_notified ≤ r.proxy.changes_from_writer_low_mark) :
    r.notifyChanges =
      (r.changes.filter (fun change ↦ r.proxy.last_notified < change.sequenceNumber ∧
        change.sequenceNumber ≤ r.proxy.changes_from_writer_low_mark),
      { r with proxy := { r.proxy with last_notified := r.proxy.changes_from_writer_low_mark } }) := by
  have hall : ∀ last ≤ r.proxy.changes_from_writer_low_mark,
      { r.proxy with last_notified := last }.considerAllNotified =
        { r.proxy with last_notified := r.proxy.changes_from_writer_low_mark } := by
    intro last hlast
    rw [WriterProxy.considerAllNotified]
    split
    · rfl
    · next hge =>
      have heq : last = r.proxy.changes_from_writer_low_mark := by
        simp only at hge
        omega
      rw [heq]
  rw [notifyChanges, WriterProxy.nextCacheChangeToBeNotified]
  split
  · next hlt =>
    obtain ⟨hnotified, last, hlast, hproxy⟩ :=
      @notifyFrom_eq _ { r.proxy with last_notified := r.proxy.last_notified + 1 } _ hasc hlt
    simp only at hnotified hproxy ⊢
    rw [hnotified, hproxy, hall last hlast]
    rfl
  · next hge =>
    have hnil : r.changes.filter (fun change ↦ r.proxy.last_notified < change.sequenceNumber ∧
        change.sequenceNumber ≤ r.proxy.changes_from_writer_low_mark) = [] :=
      List.filter_eq_nil_iff.mpr fun change _ ↦ by
        simp only [decide_eq_true_eq]
        omega
    rw [hnil]
    simp only [notifyFrom]
    rw [← hall r.proxy.last_notified hle]

/-! ## What a message does -/

/-- What holds of a reader between two messages: all changes up to the low mark have been notified, and
the changes in the history are settled. -/
structure Valid (r : StatefulReader α) : Prop where
  proxy : r.proxy.Valid
  ascending : Ascending CacheChange.sequenceNumber r.changes
  settled : ∀ change ∈ r.changes, r.proxy.Settled change.sequenceNumber
  notified : r.proxy.last_notified = r.proxy.changes_from_writer_low_mark

/-- A new reader is valid. -/
theorem valid_new : Valid ({} : StatefulReader α) where
  proxy := WriterProxy.valid_new
  ascending := List.Pairwise.nil
  settled := fun _ h ↦ absurd h List.not_mem_nil
  notified := rfl

/-- A message settles the changes in `S` and makes known those up to `bound`; the listener is notified
of the changes in the history that come to lie below the low mark. -/
structure Handled (r r' : StatefulReader α) (notified : List (CacheChange α)) (S : ℕ → Prop)
    (bound : ℕ) : Prop where
  valid : r'.Valid
  settled : ∀ n, r'.proxy.Settled n ↔ r.proxy.Settled n ∨ S n
  max_le : r'.proxy.max_sequence_number ≤ max r.proxy.max_sequence_number bound
  notified_eq : notified = r'.changes.filter fun change ↦
    r.proxy.changes_from_writer_low_mark < change.sequenceNumber ∧
      change.sequenceNumber ≤ r'.proxy.changes_from_writer_low_mark

variable {r' : StatefulReader α} {notified : List (CacheChange α)} {S : ℕ → Prop} {bound : ℕ}
  {change : CacheChange α} {changes : List (CacheChange α)}

/-- What is settled stays so. -/
theorem Handled.mono (h : Handled r r' notified S bound) (hn : r.proxy.Settled n) :
    r'.proxy.Settled n := (h.settled n).mpr (.inl hn)

/-- The low mark does not go back. -/
theorem Handled.low_mark_mono (h : Handled r r' notified S bound) :
    r.proxy.changes_from_writer_low_mark ≤ r'.proxy.changes_from_writer_low_mark :=
  h.valid.proxy.le_low_mark_iff.mpr fun _ hm ↦ h.mono (.inl hm)

/-- The listener is notified of what is in the history and comes to lie below the low mark. -/
theorem Handled.mem_notified (h : Handled r r' notified S bound) : change ∈ notified ↔
    change ∈ r'.changes ∧ r.proxy.changes_from_writer_low_mark < change.sequenceNumber ∧
      change.sequenceNumber ≤ r'.proxy.changes_from_writer_low_mark := by
  rw [h.notified_eq, List.mem_filter, decide_eq_true_eq]

/-- A message that is ignored. -/
theorem Valid.ignored (h : r.Valid) (hS : ∀ n, S n → r.proxy.Settled n) :
    Handled r r [] S bound where
  valid := h
  settled := fun n ↦ (or_iff_left_of_imp (hS n)).symm
  max_le := le_max_left ..
  notified_eq := (List.filter_eq_nil_iff.mpr fun change _ ↦ by
    simp only [decide_eq_true_eq]
    omega).symm

/-- A message that the proxy and the history take in. -/
theorem Valid.notifyChanges (h : r.Valid) (hadds : WriterProxy.Adds r.proxy p' S bound)
    (hasc : Ascending CacheChange.sequenceNumber changes)
    (hsettled : ∀ change ∈ changes, p'.Settled change.sequenceNumber) :
    Handled r ({ r with proxy := p', changes }.notifyChanges).2
        ({ r with proxy := p', changes }.notifyChanges).1 S bound ∧
      ({ r with proxy := p', changes }.notifyChanges).2.changes = changes := by
  have hlast : p'.last_notified = r.proxy.changes_from_writer_low_mark :=
    hadds.notified_eq.trans h.notified
  rw [@notifyChanges_eq _ { r with proxy := p', changes } hasc hadds.valid.notified_le]
  refine ⟨?_, rfl⟩
  constructor
  case valid =>
    have hproxy := hadds.valid
    exact ⟨⟨hproxy.ascending, hproxy.above, hproxy.below, hproxy.low_le, le_rfl⟩, hasc, hsettled, rfl⟩
  case settled => exact hadds.settled
  case max_le => exact hadds.max_eq.le
  case notified_eq =>
    simp only
    rw [hlast]

/-- A change settles nothing else, and is in the history afterwards if it is stored. -/
theorem Valid.processDataMsg (h : r.Valid) (change : CacheChange α) (reception : Reception) :
    Handled r (r.processDataMsg change reception).2 (r.processDataMsg change reception).1
        (fun n ↦ n = change.sequenceNumber ∧ reception ≠ .rejected) change.sequenceNumber ∧
      ∀ other, other ∈ (r.processDataMsg change reception).2.changes ↔ other ∈ r.changes ∨
        other = change ∧ reception = .accepted true ∧ ¬ r.proxy.Settled change.sequenceNumber := by
  unfold StatefulReader.processDataMsg
  split
  · next hreceived =>
    rw [WriterProxy.changeWasReceived_iff] at hreceived
    exact ⟨h.ignored (by rintro n ⟨rfl, -⟩; exact hreceived), fun other ↦ by simp [hreceived]⟩
  next hnew =>
  rw [WriterProxy.changeWasReceived_iff] at hnew
  have hadds : WriterProxy.Adds r.proxy (r.proxy.receivedChangeSet change.sequenceNumber).2
      (· = change.sequenceNumber) change.sequenceNumber := h.proxy.receivedChangeSet.1
  have hold : ∀ other ∈ r.changes,
      (r.proxy.receivedChangeSet change.sequenceNumber).2.Settled other.sequenceNumber :=
    fun other hother ↦ hadds.mono (h.settled other hother)
  cases reception with
  | accepted stored =>
    have hboth : Ascending CacheChange.sequenceNumber (if stored then
          sortedVectorInsert CacheChange.sequenceNumber r.changes change else r.changes) ∧
        (∀ other ∈ (if stored then sortedVectorInsert CacheChange.sequenceNumber r.changes change
          else r.changes),
            (r.proxy.receivedChangeSet change.sequenceNumber).2.Settled other.sequenceNumber) := by
      cases stored with
      | false => exact ⟨h.ascending, hold⟩
      | true =>
        constructor
        · refine h.ascending.sortedVectorInsert fun other hother heq ↦ hnew ?_
          exact heq ▸ h.settled other hother
        · intro other hother
          rcases mem_sortedVectorInsert.mp hother with rfl | hother
          · exact (hadds.settled _).mpr (.inr rfl)
          · exact hold other hother
    obtain ⟨hhandled, hchanges⟩ := h.notifyChanges hadds hboth.1 hboth.2
    refine ⟨?_, fun other ↦ ?_⟩
    · simpa only [ne_eq, reduceCtorEq, not_false_eq_true, and_true] using hhandled
    · simp only
      rw [hchanges]
      cases stored with
      | false => simp
      | true => simp [hnew, or_comm]
  | irrelevant =>
    obtain ⟨hhandled, hchanges⟩ := h.notifyChanges hadds h.ascending hold
    refine ⟨?_, fun other ↦ ?_⟩
    · simp only [ne_eq, reduceCtorEq, not_false_eq_true, and_true]
      exact hhandled
    · simp only [reduceCtorEq, false_and, and_false, or_false]
      exact iff_of_eq (congrArg (other ∈ ·) hchanges)
  | rejected => exact ⟨h.ignored (by simp), fun other ↦ by simp⟩

/-- A heartbeat settles what is before its first change, if it is not ignored. -/
theorem Valid.processHeartbeatMsg (h : r.Valid) (count first_seq last_seq : ℕ) :
    ∃ S : ℕ → Prop, (∀ n, S n → n < first_seq) ∧
      Handled r (r.processHeartbeatMsg count first_seq last_seq).2.2
        (r.processHeartbeatMsg count first_seq last_seq).2.1 S (max (first_seq - 1) last_seq) ∧
      (r.processHeartbeatMsg count first_seq last_seq).2.2.changes = r.changes := by
  rw [StatefulReader.processHeartbeatMsg]
  split
  · exact ⟨fun _ ↦ False, fun _ ↦ False.elim, h.ignored fun _ ↦ False.elim, rfl⟩
  · next lost proxy hproxy =>
    obtain ⟨hvalid, hsettled, hmax, hlast, -⟩ := h.proxy.processHeartbeat hproxy
    have hnotify := @notifyChanges_eq _ { r with proxy } h.ascending hvalid.notified_le
    refine ⟨(· < first_seq), fun _ ↦ id, ?_, ?_⟩
    · simp only
      rw [hnotify]
      constructor
      case valid =>
        refine ⟨⟨hvalid.ascending, hvalid.above, hvalid.below, hvalid.low_le, le_rfl⟩, h.ascending,
          fun change hchange ↦ ?_, rfl⟩
        exact (hsettled _).mpr (.inl (h.settled change hchange))
      case settled => exact hsettled
      case max_le => exact hmax.le
      case notified_eq =>
        simp only
        rw [hlast, h.notified]
    · simp only
      rw [hnotify]

/-- A gap settles only changes that it names. -/
theorem Valid.processGapMsg (h : r.Valid) (gap_start : ℕ) (gap_list : SequenceNumberSet) :
    ∃ ns : List ℕ, (∀ n ∈ ns, WriterProxy.InGap gap_start gap_list n) ∧
      Handled r (r.processGapMsg gap_start gap_list).2 (r.processGapMsg gap_start gap_list).1 (· ∈ ns)
        (ns.foldr max 0) ∧
      (r.processGapMsg gap_start gap_list).2.changes = r.changes := by
  rw [StatefulReader.processGapMsg]
  split
  · exact ⟨[], by simp, h.ignored (by simp), rfl⟩
  · obtain ⟨ns, hns, hadds⟩ := h.proxy.processGap gap_start gap_list
    obtain ⟨hhandled, hchanges⟩ := h.notifyChanges hadds h.ascending fun change hchange ↦
      hadds.mono (h.settled change hchange)
    exact ⟨ns, hns, hhandled, hchanges⟩

/-- Removing changes from the history keeps a reader valid. -/
theorem Valid.removeChange (h : r.Valid) (seq : ℕ) : (r.removeChange seq).Valid where
  proxy := h.proxy
  ascending := h.ascending.sublist List.filter_sublist
  settled := fun change hchange ↦ h.settled change (List.mem_of_mem_filter hchange)
  notified := h.notified

end StatefulReader

end HzjDds.Rtps
