import HzjDds.Rtps.Delivery
import HzjDds.Rtps.Protocol

/-!
# Changes that a writer owes its readers are delivered

Library `Rtps`. Source: `vendor/Fast-DDS/src/cpp/rtps/writer/StatefulWriter.cpp`, `ReaderProxy.cpp`
and `vendor/Fast-DDS/src/cpp/rtps/reader/StatefulReader.cpp`, `WriterProxy.cpp`. What is owed to a
reader stays listed, and so in the history, until an acknowledgement of the reader has come, which it
sends only when its listener has been told. So no heartbeat or gap passes over what is owed.
-/

namespace HzjDds.Rtps

open HzjDds.Cpp HzjDds.Transition

universe u v

namespace Protocol

variable {ι : Type v} {α : Type u} [DecidableEq ι]

/-! ## One reader -/

variable {contents : ℕ → α} {rtps_is_relevant : ι → α → Bool} {s t : Protocol ι α}
  {a : ProtocolAction ι} {i j : ι} {n : ℕ} {w w' : StatefulWriter ι α} {r r' : Reading α}
  {sent : List (Message α)} {owed owed' : List ℕ} {message : Message α}

/-- A message says what is so: it has the contents of its change, names only what has been written, and
passes over nothing that is owed and that the listener has not been told of. -/
def Truthful (contents : ℕ → α) (last : ℕ) (owed : List ℕ) (low_mark : ℕ) : Message α → Prop
  | .data change => change.serializedPayload = contents change.sequenceNumber ∧
      change.sequenceNumber ≤ last
  | .heartbeat _ first_seq _ => first_seq ≤ last + 1 ∧ ∀ n ∈ owed, n < first_seq → n ≤ low_mark
  | .gap gap_start gap_list => ∀ n, WriterProxy.InGap gap_start gap_list n →
      n ≤ last ∧ (n ∈ owed → n ≤ low_mark)

/-- What holds between a writer and a reader: what is owed is listed at the writer until the listener of
the reader has been told of it. -/
structure Linked (contents : ℕ → α) (w : StatefulWriter ι α) (i : ι) (r : Reading α)
    (sent : List (Message α)) (owed : List ℕ) : Prop where
  owing : ∃ as, Reading.Owing contents (· ∈ owed) as r
  settled_le : ∀ n, r.reader.proxy.Settled n → n ≤ w.lastCacheChangeSeqNum
  owed_le : ∀ n ∈ owed, 1 ≤ n ∧ n ≤ w.lastCacheChangeSeqNum
  listed : ∀ n ∈ owed,
    n ≤ r.reader.proxy.changes_from_writer_low_mark ∨ (w.proxies i).Pending n
  acked : ∀ n ∈ owed, n < w.next_all_acked_notify_sequence →
    n ≤ r.reader.proxy.changes_from_writer_low_mark
  truthful : ∀ message ∈ sent, Truthful contents w.lastCacheChangeSeqNum owed
    r.reader.proxy.changes_from_writer_low_mark message
  unmatched : i ∉ w.matched_remote_readers →
    owed = [] ∧ sent = [] ∧ ∀ n, r.reader.proxy.Settled n → n = 0

/-- What has been said stays so. -/
theorem Truthful.mono {last last' low_mark low_mark' : ℕ}
    (h : Truthful contents last owed low_mark message) (hlast : last ≤ last')
    (howed : ∀ n ∈ owed', n ∈ owed ∨ last < n) (hlow : low_mark ≤ low_mark') :
    Truthful contents last' owed' low_mark' message := by
  cases message with
  | data change => exact ⟨h.1, h.2.trans hlast⟩
  | heartbeat count first_seq last_seq =>
    refine ⟨h.1.trans (Nat.succ_le_succ hlast), fun n hn hlt ↦ ?_⟩
    rcases howed n hn with hold | hnew
    · exact (h.2 n hold hlt).trans hlow
    · exact absurd (hlt.trans_le h.1) (Nat.not_lt.mpr hnew)
  | gap gap_start gap_list =>
    intro n hn
    refine ⟨(h n hn).1.trans hlast, fun hmem ↦ ?_⟩
    rcases howed n hmem with hold | hnew
    · exact ((h n hn).2 hold).trans hlow
    · exact absurd (h n hn).1 (Nat.not_le.mpr hnew)

variable {b : ReaderAction α} {as : List (ProtocolAction ι)}

omit [DecidableEq ι] in
private theorem Linked.le_low_mark (h : Linked contents w i r sent owed) {acknack : Acknack}
    (hacknack : acknack ∈ r.acknacks) (hn : n < acknack.sns.base) :
    n ≤ r.reader.proxy.changes_from_writer_low_mark := by
  obtain ⟨as, howing⟩ := h.owing
  exact howing.valid.proxy.le_low_mark_iff.mpr fun m hm ↦
    howing.acknowledged acknack hacknack m (hm.trans_lt hn)

omit [DecidableEq ι] in
/-- A step of the reader. -/
theorem Linked.reader (h : Linked contents w i r sent owed)
    (hhonest : r.Honest contents (· ∈ owed) b)
    (hbound : ∀ n, b.Settles n → n ≤ w.lastCacheChangeSeqNum)
    (hmatched : i ∉ w.matched_remote_readers → ∀ n, ¬ b.Settles n) (hs : r.step b = some r') :
    Linked contents w i r' sent owed := by
  obtain ⟨as, howing⟩ := h.owing
  obtain ⟨notified, S, bound, hstep⟩ := Reading.stepped_of_step howing.valid hs
  have hmono := hstep.handled.low_mark_mono
  constructor
  case owing => exact ⟨as ++ [b], howing.step hhonest hs⟩
  case settled_le =>
    intro n hn
    rcases (hstep.handled.settled n).mp hn with hold | hnew
    · exact h.settled_le n hold
    · exact hbound n (hstep.settles n hnew)
  case owed_le => exact h.owed_le
  case listed => exact fun n hn ↦ (h.listed n hn).imp_left (·.trans hmono)
  case acked => exact fun n hn hlt ↦ (h.acked n hn hlt).trans hmono
  case truthful =>
    exact fun message hmessage ↦
      (h.truthful message hmessage).mono le_rfl (fun _ hn ↦ .inl hn) hmono
  case unmatched =>
    intro hi
    obtain ⟨howed, hsent, hnone⟩ := h.unmatched hi
    refine ⟨howed, hsent, fun n hn ↦ ?_⟩
    rcases (hstep.handled.settled n).mp hn with hold | hnew
    · exact hnone n hold
    · exact absurd (hstep.settles n hnew) (hmatched hi n)

omit [DecidableEq ι] in
/-- A step of the writer that takes off the list of the reader only what the listener has been told of. -/
theorem Linked.writer (h : Linked contents w i r sent owed)
    (hlast : w.lastCacheChangeSeqNum ≤ w'.lastCacheChangeSeqNum)
    (hmatched : i ∈ w.matched_remote_readers → i ∈ w'.matched_remote_readers)
    (hlisted : ∀ n ∈ owed, (w.proxies i).Pending n →
      n ≤ r.reader.proxy.changes_from_writer_low_mark ∨ (w'.proxies i).Pending n)
    (hacked : ∀ n ∈ owed, n < w'.next_all_acked_notify_sequence →
      n < w.next_all_acked_notify_sequence ∨
        n ≤ r.reader.proxy.changes_from_writer_low_mark) :
    Linked contents w' i r sent owed where
  owing := h.owing
  settled_le := fun n hn ↦ (h.settled_le n hn).trans hlast
  owed_le := fun n hn ↦ ⟨(h.owed_le n hn).1, (h.owed_le n hn).2.trans hlast⟩
  listed := fun n hn ↦ (h.listed n hn).elim .inl (hlisted n hn)
  acked := fun n hn hlt ↦ (hacked n hn hlt).elim (h.acked n hn) id
  truthful := fun message hmessage ↦
    (h.truthful message hmessage).mono hlast (fun _ hn ↦ .inl hn) le_rfl
  unmatched := fun hi ↦ h.unmatched fun hold ↦ hi (hmatched hold)

omit [DecidableEq ι] in
/-- A truthful message is sent. -/
theorem Linked.send (h : Linked contents w i r sent owed) (hi : i ∈ w.matched_remote_readers)
    (hmessage : Truthful contents w.lastCacheChangeSeqNum owed
      r.reader.proxy.changes_from_writer_low_mark message) :
    Linked contents w i r (sent ++ [message]) owed where
  owing := h.owing
  settled_le := h.settled_le
  owed_le := h.owed_le
  listed := h.listed
  acked := h.acked
  truthful := by
    intro other hother
    rcases List.mem_append.mp hother with hold | hnew
    · exact h.truthful other hold
    · rw [List.mem_singleton.mp hnew]
      exact hmessage
  unmatched := fun hnot ↦ absurd hi hnot

omit [DecidableEq ι] in
private theorem Linked.le_of_not_pending (h : Linked contents w i r sent owed) (hn : n ∈ owed)
    (hnot : ¬ (w.proxies i).Pending n) : n ≤ r.reader.proxy.changes_from_writer_low_mark :=
  (h.listed n hn).resolve_right hnot

omit [DecidableEq ι] in
/-- What is owed grows by a change that has just been written and listed. -/
theorem Linked.owe (h : Linked contents w i r sent owed)
    (hlast : w'.lastCacheChangeSeqNum = w.lastCacheChangeSeqNum + 1)
    (hmatched : w'.matched_remote_readers = w.matched_remote_readers)
    (hall : w'.next_all_acked_notify_sequence = w.next_all_acked_notify_sequence)
    (hle : w.next_all_acked_notify_sequence ≤ w.lastCacheChangeSeqNum + 1)
    (hi : i ∈ w.matched_remote_readers)
    (hlisted : ∀ n, (w.proxies i).Pending n ∨ n = w.lastCacheChangeSeqNum + 1 →
      (w'.proxies i).Pending n) :
    Linked contents w' i r sent (owed ++ [w.lastCacheChangeSeqNum + 1]) := by
  have hmem : ∀ n ∈ owed ++ [w.lastCacheChangeSeqNum + 1],
      n ∈ owed ∨ n = w.lastCacheChangeSeqNum + 1 := by
    intro n hn
    rwa [List.mem_append, List.mem_singleton] at hn
  obtain ⟨as, howing⟩ := h.owing
  constructor
  case owing =>
    refine ⟨as, howing.toKept, howing.contents, fun n hpos hn hsettled ↦ ?_⟩
    rcases hmem n hn with hold | rfl
    · exact howing.owing n hpos hold hsettled
    · exact absurd (h.settled_le _ hsettled) (Nat.not_succ_le_self _)
  case settled_le => exact fun n hn ↦ (h.settled_le n hn).trans (by omega)
  case owed_le =>
    intro n hn
    rcases hmem n hn with hold | rfl
    · have hold := h.owed_le n hold
      omega
    · omega
  case listed =>
    intro n hn
    rcases hmem n hn with hold | hnew
    · exact (h.listed n hold).imp_right fun hpending ↦ hlisted n (.inl hpending)
    · exact .inr (hlisted n (.inr hnew))
  case acked =>
    intro n hn hlt
    rw [hall] at hlt
    rcases hmem n hn with hold | rfl
    · exact h.acked n hold hlt
    · exact absurd hlt (Nat.not_lt.mpr hle)
  case truthful =>
    refine fun message hmessage ↦ (h.truthful message hmessage).mono (by omega) (fun n hn ↦ ?_) le_rfl
    exact (hmem n hn).imp_right fun heq ↦ by omega
  case unmatched => exact fun hnot ↦ absurd (hmatched ▸ hi) hnot

omit [DecidableEq ι] in
/-- A reader is matched: it is owed what is listed for it. -/
theorem Linked.matched (h : Linked contents w i r sent owed) (hi : i ∉ w.matched_remote_readers)
    (hi' : i ∈ w'.matched_remote_readers)
    (hlast : w'.lastCacheChangeSeqNum = w.lastCacheChangeSeqNum)
    (howed : ∀ n ∈ owed', 1 ≤ n ∧ n ≤ w.lastCacheChangeSeqNum ∧
      w'.next_all_acked_notify_sequence ≤ n ∧ (w'.proxies i).Pending n) :
    Linked contents w' i r sent owed' := by
  obtain ⟨-, hsent, hnone⟩ := h.unmatched hi
  obtain ⟨as, howing⟩ := h.owing
  constructor
  case owing =>
    refine ⟨as, howing.toKept, howing.contents, fun n hpos _ hsettled ↦ ?_⟩
    exact absurd (hnone n hsettled) (Nat.pos_iff_ne_zero.mp hpos)
  case settled_le => exact fun n hn ↦ hlast ▸ h.settled_le n hn
  case owed_le => exact fun n hn ↦ ⟨(howed n hn).1, hlast ▸ (howed n hn).2.1⟩
  case listed => exact fun n hn ↦ .inr (howed n hn).2.2.2
  case acked => exact fun n hn hlt ↦ absurd hlt (Nat.not_lt.mpr (howed n hn).2.2.1)
  case truthful =>
    rw [hsent]
    exact fun _ hmessage ↦ absurd hmessage List.not_mem_nil
  case unmatched => exact fun hnot ↦ absurd hi' hnot

/-! ## The whole protocol -/

omit [DecidableEq ι] in
/-- What holds between two steps. -/
structure Inv (contents : ℕ → α) (s : Protocol ι α) : Prop where
  writer : StatefulWriter.Valid contents s.writer
  linked : ∀ i, Linked contents s.writer i (s.readers i) (s.sent i) (s.owed i)

omit [DecidableEq ι] in
/-- It holds at first. -/
theorem inv_new : Inv contents ({} : Protocol ι α) where
  writer := ⟨List.Pairwise.nil, fun _ h ↦ absurd h List.not_mem_nil, le_rfl,
    fun _ h ↦ absurd h List.not_mem_nil⟩
  linked := by
    intro i
    have hnew : ∀ n, ({} : Reading α).reader.proxy.Settled n → n = 0 := by
      rintro n (hle | hmem)
      · exact Nat.le_zero.mp hle
      · exact absurd hmem List.not_mem_nil
    refine ⟨⟨[], Reading.owing_run allSteps_nil rfl⟩, fun n hn ↦ (hnew n hn).le,
      fun _ h ↦ absurd h List.not_mem_nil, fun _ h ↦ absurd h List.not_mem_nil,
      fun _ h ↦ absurd h List.not_mem_nil, fun _ h ↦ absurd h List.not_mem_nil,
      fun _ ↦ ⟨rfl, rfl, hnew⟩⟩

/-- A step of a reader. -/
theorem Inv.stepReader (h : Inv contents s) {b : ReaderAction α}
    (hhonest : (s.readers i).Honest contents (· ∈ s.owed i) b)
    (hbound : ∀ n, b.Settles n → n ≤ s.writer.lastCacheChangeSeqNum)
    (hmatched : i ∉ s.writer.matched_remote_readers → ∀ n, ¬ b.Settles n)
    (hs : s.stepReader i b = some t) : Inv contents t := by
  obtain ⟨r, hr, rfl⟩ := Option.map_eq_some_iff.mp hs
  refine ⟨h.writer, fun j ↦ ?_⟩
  simp only [Function.update_apply]
  split
  · next heq =>
    subst heq
    exact (h.linked j).reader hhonest hbound hmatched hr
  · exact h.linked j

/-- A truthful message is sent. -/
theorem Inv.send (h : Inv contents s) (hi : i ∈ s.writer.matched_remote_readers)
    (hmessage : Truthful contents s.writer.lastCacheChangeSeqNum (s.owed i)
      (s.readers i).reader.proxy.changes_from_writer_low_mark message) :
    Inv contents (s.send i message) := by
  refine ⟨h.writer, fun j ↦ ?_⟩
  simp only [Protocol.send, Function.update_apply]
  split
  · next heq =>
    subst heq
    exact (h.linked j).send hi hmessage
  · exact h.linked j

/-- The changes that are listed for a reader get a new status. -/
theorem Inv.setStatus (h : Inv contents s) (i : ι) {status : ChangeForReader → ChangeForReaderStatus}
    (hstatus : ∀ change, change.status ≠ .ACKNOWLEDGED → status change ≠ .ACKNOWLEDGED) :
    Inv contents { s with
      writer := s.writer.setProxy i ((s.writer.proxies i).setStatus status) } := by
  refine ⟨h.writer.setProxy fun hi ↦ (h.writer.fits i hi).setStatus hstatus, fun j ↦ ?_⟩
  refine (h.linked j).writer le_rfl id (fun n _ hn ↦ .inr ?_) fun n _ hlt ↦ .inl hlt
  simp only [StatefulWriter.setProxy, Function.update_apply]
  split
  · next heq =>
    subst heq
    exact ReaderProxy.pending_setStatus.mpr hn
  · exact hn

omit [DecidableEq ι] in
/-- A message in flight to a reader does as the writer says. -/
theorem Inv.honest (h : Inv contents s) (hmessage : message ∈ s.sent i) {reception : Reception}
    (hkeeps : ∀ change, message = .data change → change.sequenceNumber ∈ s.owed i →
      reception = .accepted true ∨ reception = .rejected) :
    (s.readers i).Honest contents (· ∈ s.owed i) (message.action reception) ∧
      ∀ n, (message.action reception).Settles n → n ≤ s.writer.lastCacheChangeSeqNum := by
  have htruthful := (h.linked i).truthful message hmessage
  cases message with
  | data change =>
    refine ⟨⟨htruthful.1, hkeeps change rfl⟩, ?_⟩
    rintro n ⟨rfl, -⟩
    exact htruthful.2
  | heartbeat count first_seq last_seq =>
    refine ⟨fun n hn hlt ↦ .inl (htruthful.2 n hn hlt), fun n hlt ↦ ?_⟩
    exact Nat.lt_succ_iff.mp (lt_of_lt_of_le hlt htruthful.1)
  | gap gap_start gap_list =>
    exact ⟨fun n hn hgap ↦ .inl ((htruthful n hgap).2 hn), fun n hgap ↦ (htruthful n hgap).1⟩

omit [DecidableEq ι] in
private theorem Inv.truthful_heartbeat (h : Inv contents s) (hi : i ∈ s.writer.matched_remote_readers) :
    Truthful contents s.writer.lastCacheChangeSeqNum (s.owed i)
      (s.readers i).reader.proxy.changes_from_writer_low_mark s.writer.sendHeartbeat.1 := by
  have hasc := h.writer.ascending
  have hfirst : ∀ n ∈ s.writer.history,
      s.writer.history.head?.getD s.writer.nextSequenceNumber ≤ n := by
    intro n hn
    cases hhistory : s.writer.history with
    | nil => rw [hhistory] at hn; exact absurd hn List.not_mem_nil
    | cons first rest =>
      rw [hhistory] at hn hasc
      rcases List.mem_cons.mp hn with rfl | hn
      · exact le_rfl
      · exact ((List.pairwise_cons.mp hasc).1 n hn).le
  constructor
  · cases hhistory : s.writer.history with
    | nil => exact le_rfl
    | cons first rest =>
      have hmem : first ∈ s.writer.history := by rw [hhistory]; exact List.mem_cons_self
      exact (h.writer.history_le hmem).2.trans (Nat.le_succ _)
  · intro n hn hlt
    refine (h.linked i).le_of_not_pending hn fun hpending ↦ ?_
    exact (hfirst n ((h.writer.fits i hi).listed n hpending)).not_gt hlt

omit [DecidableEq ι] in
private theorem Inv.truthful_gap (h : Inv contents s) (hi : i ∈ s.writer.matched_remote_readers)
    {gap_start : ℕ} {gap_list : SequenceNumberSet}
    (hgap : s.writer.mayGap i gap_start gap_list = true) :
    Truthful contents s.writer.lastCacheChangeSeqNum (s.owed i)
      (s.readers i).reader.proxy.changes_from_writer_low_mark (.gap gap_start gap_list) := by
  intro n hn
  have hmem : n ∈ StatefulWriter.gapNumbers gap_start gap_list := by
    rw [StatefulWriter.gapNumbers, List.mem_append, List.mem_range'_1]
    refine hn.imp_left fun hrange ↦ ?_
    omega
  obtain ⟨hle, hout⟩ := of_decide_eq_true (List.all_eq_true.mp hgap n hmem)
  refine ⟨hle, fun howed ↦ (h.linked i).le_of_not_pending howed fun hpending ↦ ?_⟩
  rcases hout with hhistory | hnone
  · exact hhistory ((h.writer.fits i hi).listed n hpending)
  · exact ReaderProxy.findChange_eq_none.mp hnone hpending

omit [DecidableEq ι] in
private theorem Inv.matched_of_owed (h : Inv contents s) (hn : n ∈ s.owed i) :
    i ∈ s.writer.matched_remote_readers := by
  by_contra hnot
  rw [((h.linked i).unmatched hnot).1] at hn
  exact List.not_mem_nil hn

omit [DecidableEq ι] in
private theorem Inv.le_of_isAckedByAll (h : Inv contents s) (hn : n ∈ s.owed i)
    (hacked : s.writer.isAckedByAll n = true) :
    n ≤ (s.readers i).reader.proxy.changes_from_writer_low_mark := by
  rw [StatefulWriter.isAckedByAll, Bool.or_eq_true, decide_eq_true_eq] at hacked
  rcases hacked with hlt | hall
  · exact (h.linked i).acked n hn hlt
  · refine (h.linked i).le_of_not_pending hn ?_
    have hi := h.matched_of_owed hn
    exact (h.writer.fits i hi).changeIsAcked_iff.mp (List.all_eq_true.mp hall i hi)

/-- Every step keeps it, if the readers keep all. -/
theorem inv_step (h : Inv contents s) (hkeeps : s.KeepsAll a)
    (hs : step contents rtps_is_relevant s a = some t) : Inv contents t := by
  cases a with
  | write =>
    cases hs
    obtain ⟨hvalid, hlast, hmatched, hlisted⟩ := h.writer.unsentChangeAddedToHistory
    have hle := (Nat.le_succ s.writer.lastCacheChangeSeqNum).trans hlast.ge
    refine ⟨hvalid, fun i ↦ ?_⟩
    simp only
    by_cases hi : i ∈ s.writer.matched_remote_readers
    case pos =>
      obtain ⟨hall, hpending⟩ := hlisted i hi
      split
      · next hrelevant =>
        refine (h.linked i).owe hlast hmatched hall h.writer.next_all_acked hi fun n hn ↦ ?_
        exact (hpending n).mpr (hn.imp_right fun heq ↦ ⟨heq, hrelevant.2⟩)
      · refine (h.linked i).writer hle (hmatched ▸ ·)
          (fun n _ hold ↦ .inr ((hpending n).mpr (.inl hold))) fun n _ hlt ↦ .inl (hall ▸ hlt)
    case neg =>
      rw [if_neg fun hboth ↦ hi hboth.1]
      have hnone := ((h.linked i).unmatched hi).1
      refine (h.linked i).writer hle (hmatched ▸ ·) (fun n hn ↦ ?_) fun n hn ↦ ?_
      · rw [hnone] at hn
        exact absurd hn List.not_mem_nil
      · rw [hnone] at hn
        exact absurd hn List.not_mem_nil
  | removeChange seq =>
    rw [step] at hs
    split at hs
    · next hacked =>
      cases hs
      obtain ⟨hvalid, hpending⟩ := h.writer.changeRemovedByHistory
      refine ⟨hvalid, fun i ↦ ?_⟩
      refine (h.linked i).writer le_rfl id (fun n hn hlisted ↦ ?_) fun n _ hlt ↦ .inl hlt
      by_cases heq : n = seq
      · exact .inl (h.le_of_isAckedByAll hn (heq ▸ hacked))
      · exact .inr (hpending i (h.matched_of_owed hn) n hlisted heq)
    · contradiction
  | matchReader i transient_local =>
    rw [step] at hs
    split at hs
    · contradiction
    · next hi =>
      cases hs
      obtain ⟨hvalid, hlate⟩ := h.writer.matchedReaderAdd hi
      refine ⟨hvalid, fun j ↦ ?_⟩
      simp only [Function.update_apply]
      split
      · next heq =>
        subst heq
        refine (h.linked j).matched hi ?_ ?_ fun n hn ↦ ?_
        · rw [StatefulWriter.matchedReaderAdd, if_neg hi]
          exact List.mem_append_right _ (List.mem_singleton_self j)
        · rw [StatefulWriter.matchedReaderAdd, if_neg hi]
        · rw [owedToLate] at hn
          split at hn
          · next htransient =>
            obtain ⟨hmem, hall⟩ := List.mem_filter.mp hn
            obtain ⟨change, hchange, rfl⟩ := List.mem_map.mp hmem
            have hwritten := h.writer.written change (List.mem_of_mem_filter hchange)
            refine ⟨hwritten.1, hwritten.2.1, ?_, hlate change hchange htransient⟩
            rw [StatefulWriter.matchedReaderAdd, if_neg hi]
            exact of_decide_eq_true hall
          · exact absurd hn List.not_mem_nil
      · next hne =>
        rw [StatefulWriter.matchedReaderAdd, if_neg hi]
        refine (h.linked j).writer le_rfl (List.mem_append_left [i]) (fun n _ hn ↦ .inr ?_)
          fun n _ hlt ↦ .inl hlt
        simp only [Function.update_of_ne hne]
        exact hn
  | deliverSample i seq =>
    obtain ⟨⟨message, writer⟩, hdeliver, rfl⟩ := Option.map_eq_some_iff.mp hs
    obtain ⟨hvalid, hlast, hmatched, hpending, hall, hsent⟩ := h.writer.deliverSample hdeliver
    have hdelivered : Inv contents { s with writer } := by
      refine ⟨hvalid, fun j ↦ (h.linked j).writer hlast.ge (hmatched ▸ ·)
        (fun n _ hn ↦ .inr ((hpending j n).mpr hn)) fun n hn hlt ↦ (hall n hlt).imp_right fun hnone ↦ ?_⟩
      exact (h.linked j).le_of_not_pending hn (hnone j (h.matched_of_owed hn))
    cases message with
    | none => exact hdelivered
    | some message =>
      obtain ⟨hi, change, hchange, rfl⟩ := hsent message rfl
      have hwritten := h.writer.written change hchange
      exact hdelivered.send (hmatched ▸ hi) ⟨hwritten.2.2, hlast ▸ hwritten.2.1⟩
  | gap i gap_start gap_list =>
    rw [step] at hs
    split at hs
    · next hgap =>
      cases hs
      exact h.send hgap.1 (h.truthful_gap hgap.1 hgap.2)
    · contradiction
  | heartbeat i =>
    rw [step] at hs
    split at hs
    · next hi =>
      cases hs
      have hcounted : Inv contents { s with writer := s.writer.sendHeartbeat.2 } := by
        refine ⟨⟨h.writer.ascending, h.writer.written, h.writer.next_all_acked, h.writer.fits⟩,
          fun j ↦ ?_⟩
        exact (h.linked j).writer le_rfl id (fun n _ hn ↦ .inr hn) fun n _ hlt ↦ .inl hlt
      exact hcounted.send hi (h.truthful_heartbeat hi)
    · contradiction
  | nackSupression i =>
    cases hs
    refine h.setStatus i fun change hchange ↦ ?_
    split
    · decide
    · exact hchange
  | nackResponse i =>
    cases hs
    refine h.setStatus i fun change hchange ↦ ?_
    split
    · decide
    · exact hchange
  | acknackArrives i k =>
    obtain ⟨acknack, hacknack, rfl⟩ := Option.map_eq_some_iff.mp hs
    have hsent := List.mem_of_getElem? hacknack
    obtain ⟨hvalid, hlast, hmatched, hpending, hall⟩ := h.writer.processAcknack i acknack
    refine ⟨hvalid, fun j ↦ ?_⟩
    have hlisted : ∀ n ∈ s.owed j, (s.writer.proxies j).Pending n →
        n ≤ (s.readers j).reader.proxy.changes_from_writer_low_mark ∨
          ((s.writer.processAcknack i acknack).proxies j).Pending n := by
      intro n hn hold
      rcases hpending j (h.matched_of_owed hn) n hold with hstill | ⟨rfl, hlt⟩
      · exact .inr hstill
      · exact .inl ((h.linked j).le_low_mark hsent hlt)
    refine (h.linked j).writer hlast.ge (hmatched ▸ ·) hlisted fun n hn hlt ↦ ?_
    refine (hall n hlt).imp_right fun hnone ↦ ?_
    rcases (h.linked j).listed n hn with hle | hold
    · exact hle
    · exact (hlisted n hn hold).resolve_right (hnone j (h.matched_of_owed hn))
  | messageArrives i k reception =>
    obtain ⟨message, hmessage, hs⟩ := Option.bind_eq_some_iff.mp hs
    have hsent := List.mem_of_getElem? hmessage
    obtain ⟨hhonest, hbound⟩ := h.honest hsent fun change hchange ↦ hkeeps change (hchange ▸ hmessage)
    refine h.stepReader hhonest hbound (fun hnot ↦ ?_) hs
    rw [((h.linked i).unmatched hnot).2.1] at hsent
    exact absurd hsent List.not_mem_nil
  | acknack i heartbeat_was_final =>
    exact h.stepReader (i := i) (b := .acknack heartbeat_was_final) trivial (fun _ hn ↦ hn.elim)
      (fun _ _ hn ↦ hn) hs
  | initialAcknack i =>
    exact h.stepReader (i := i) (b := .initialAcknack) trivial (fun _ hn ↦ hn.elim)
      (fun _ _ hn ↦ hn) hs
  | takeChange i seq =>
    exact h.stepReader (i := i) (b := .remove seq) hkeeps (fun _ hn ↦ hn.elim)
      (fun _ _ hn ↦ hn) hs

/-- Reliable delivery: however messages and acknowledgements are lost, repeated and reordered, as long
as the readers keep all, the listener of each reader has been told of what the reader is owed, up to
its low mark, each once, in order and with its contents; and what the writer takes as acknowledged by
all, or no longer has, has been told to each reader that it is owed. -/
theorem protocol_delivers (hkeeps : AllSteps (step contents rtps_is_relevant) KeepsAll {} as)
    (hs : run (step contents rtps_is_relevant) {} as = some s) (i : ι) :
    ((s.readers i).notified.filter (·.sequenceNumber ∈ s.owed i) =
        ((List.range' 1 (s.readers i).reader.proxy.changes_from_writer_low_mark).filter
          (· ∈ s.owed i)).map fun n ↦ ⟨n, contents n⟩) ∧
      ∀ n ∈ s.owed i, s.writer.isAckedByAll n = true ∨ n ∉ s.writer.history →
        ⟨n, contents n⟩ ∈ (s.readers i).notified := by
  have h : Inv contents s :=
    invariant_of_steps inv_new (fun _ _ _ h hkeeps hs ↦ inv_step h hkeeps hs) as hkeeps hs
  obtain ⟨inputs, howing⟩ := (h.linked i).owing
  refine ⟨howing.filter_notified, fun n hn hgone ↦ ?_⟩
  refine howing.mem_notified ((h.linked i).owed_le n hn).1 ?_ hn
  rcases hgone with hacked | hremoved
  · exact h.le_of_isAckedByAll hn hacked
  · refine (h.linked i).le_of_not_pending hn fun hpending ↦ hremoved ?_
    exact (h.writer.fits i (h.matched_of_owed hn)).listed n hpending

/-- The reader accepts what comes, and its history removes nothing. -/
def accepts : ProtocolAction ι → Bool
  | .messageArrives _ _ reception => reception = .accepted true
  | .takeChange _ _ => false
  | _ => true

omit [DecidableEq ι] in
/-- A reader that accepts what comes keeps all. -/
theorem keepsAll_of_accepts (ha : accepts a = true) : s.KeepsAll a := by
  cases a with
  | messageArrives i k reception => exact fun _ _ _ ↦ .inl (of_decide_eq_true ha)
  | takeChange i seq => exact absurd ha Bool.false_ne_true
  | _ => trivial

/-- The first of two changes is lost on its way, is asked for after a heartbeat and sent again, and is
removed when it has been acknowledged. -/
def resentRun : List (ProtocolAction Bool) :=
  [.matchReader true false, .write, .write, .deliverSample true 1, .deliverSample true 2,
    .heartbeat true, .messageArrives true 1 (.accepted true), .messageArrives true 2 (.accepted true),
    .acknack true false, .nackSupression true, .acknackArrives true 0, .nackResponse true,
    .deliverSample true 1, .messageArrives true 3 (.accepted true), .acknack true false,
    .acknackArrives true 1, .removeChange 1]

/-- `protocol_delivers` where a change is lost and sent again. -/
theorem protocol_delivers_resentRun : ∃ s : Protocol Bool ℕ,
    run (step (fun n ↦ 10 * n) fun _ _ ↦ true) {} resentRun = some s ∧
      (s.readers true).notified = [⟨1, 10⟩, ⟨2, 20⟩] ∧ s.owed true = [1, 2] ∧
      s.writer.history = [2] ∧
      ∀ n ∈ s.owed true, s.writer.isAckedByAll n = true ∨ n ∉ s.writer.history →
        ⟨n, 10 * n⟩ ∈ (s.readers true).notified := by
  obtain ⟨s, hs, hnotified, howed, hhistory⟩ : ∃ s : Protocol Bool ℕ,
    run (step (fun n ↦ 10 * n) fun _ _ ↦ true) {} resentRun = some s ∧
      (s.readers true).notified = [⟨1, 10⟩, ⟨2, 20⟩] ∧ s.owed true = [1, 2] ∧
      s.writer.history = [2] := ⟨_, rfl, rfl, rfl, rfl⟩
  have haccepts : ∀ a ∈ resentRun, accepts a = true := by decide
  have hkeeps : AllSteps (step (fun n ↦ 10 * n) fun _ _ ↦ true) KeepsAll {} resentRun :=
    fun bs a t t' hbs _ _ ↦ keepsAll_of_accepts
      (haccepts a (hbs.subset (List.mem_append_right bs (List.mem_singleton_self a))))
  exact ⟨s, hs, hnotified, howed, hhistory, (protocol_delivers hkeeps hs true).2⟩

end Protocol

end HzjDds.Rtps
