import HzjDds.Rtps.Lost
import HzjDds.Rtps.Reliable

/-!
# What is owed can always be delivered

Library `Rtps`. Source: `vendor/Fast-DDS/src/cpp/rtps/writer/StatefulWriter.cpp`, `ReaderProxy.cpp`
and `vendor/Fast-DDS/src/cpp/rtps/reader/StatefulReader.cpp`, `WriterProxy.cpp`. Whatever has been
lost, a reader can be brought up to date: a gap takes it past a change that is not for it, and a change
that is owed is sent, if need be after a heartbeat, an acknowledgement and the response to it. No status
of a change stands in the way, nor do the counts of heartbeats and acknowledgements until they go round.
-/

namespace HzjDds.Rtps

open HzjDds.Cpp HzjDds.Transition

universe u v

namespace Reading

variable {α : Type u} {s t : Reading α} {a : ReaderAction α}

/-- A new acknowledgement has the new count, the one behind the old. -/
theorem acknack_count_of_step (hs : s.step a = some t) :
    t.reader.acknack_count = (if a.acknowledges then nextCount s.reader.acknack_count
      else s.reader.acknack_count) ∧
    ∀ acknack ∈ t.acknacks, acknack ∈ s.acknacks ∨ acknack.count = t.reader.acknack_count := by
  obtain ⟨⟨lost, notified, acknack, reader⟩, hhandle, rfl⟩ := Option.map_eq_some_iff.mp hs
  cases a with
  | data change reception =>
    cases hhandle
    refine ⟨?_, fun _ hsent ↦ .inl (mem_acknacks_of_none hsent)⟩
    simp only [StatefulReader.processDataMsg]
    split
    · rfl
    · cases reception <;> rfl
  | heartbeat count first_seq last_seq =>
    cases hhandle
    refine ⟨?_, fun _ hsent ↦ .inl (mem_acknacks_of_none hsent)⟩
    simp only [StatefulReader.processHeartbeatMsg]
    split <;> rfl
  | gap gap_start gap_list =>
    cases hhandle
    refine ⟨?_, fun _ hsent ↦ .inl (mem_acknacks_of_none hsent)⟩
    simp only [StatefulReader.processGapMsg]
    split <;> rfl
  | acknack heartbeat_was_final =>
    obtain ⟨sent, hsent, heq⟩ := Option.map_eq_some_iff.mp hhandle
    cases heq
    rw [StatefulReader.sendAcknack] at hsent
    split at hsent <;> cases hsent
    refine ⟨rfl, fun other hother ↦ ?_⟩
    exact (List.mem_append.mp hother).imp_right fun hnew ↦ by rw [List.mem_singleton.mp hnew]
  | initialAcknack =>
    obtain ⟨sent, hsent, heq⟩ := Option.map_eq_some_iff.mp hhandle
    cases heq
    rw [StatefulReader.sendInitialAcknack] at hsent
    split at hsent <;> cases hsent
    refine ⟨rfl, fun other hother ↦ ?_⟩
    exact (List.mem_append.mp hother).imp_right fun hnew ↦ by rw [List.mem_singleton.mp hnew]
  | remove seq =>
    cases hhandle
    exact ⟨rfl, fun _ hsent ↦ .inl (mem_acknacks_of_none hsent)⟩

end Reading

namespace Protocol

variable {ι : Type v} {α : Type u} [DecidableEq ι] {contents : ℕ → α}
  {rtps_is_relevant : ι → α → Bool} {s t : Protocol ι α} {a : ProtocolAction ι} {i j : ι} {n k l : ℕ}
  {w w' : StatefulWriter ι α} {r r' : Reading α} {sent : List (Message α)} {message : Message α}
  {as : List (ProtocolAction ι)} {b : ReaderAction α}

/-! ## Counts -/

/-- A heartbeat or an acknowledgement is sent, which has a count. -/
def counts : ProtocolAction ι → Bool
  | .heartbeat _ => true
  | .acknack _ _ => true
  | .initialAcknack _ => true
  | _ => false

/-- A heartbeat has a count and a last change that the writer has come to. -/
def Bounded (w : StatefulWriter ι α) : Message α → Prop
  | .heartbeat count _ last_seq => count ≤ w.heartbeat_count ∧ last_seq ≤ w.lastCacheChangeSeqNum
  | _ => True

omit [DecidableEq ι] in
/-- The counts of a writer and a reader are in step, and do not go round while `k` more heartbeats or
acknowledgements are sent. -/
structure Tallied (k : ℕ) (w : StatefulWriter ι α) (i : ι) (r : Reading α) (sent : List (Message α)) :
    Prop where
  heartbeats : w.heartbeat_count + k < 2 ^ 32
  acknacks : r.reader.acknack_count + k < 2 ^ 32
  heard : r.reader.proxy.last_heartbeat_count ≤ w.heartbeat_count
  known : r.reader.proxy.max_sequence_number ≤ w.lastCacheChangeSeqNum
  counted : ∀ acknack ∈ r.acknacks, acknack.count ≤ r.reader.acknack_count
  expected : (w.proxies i).next_expected_acknack_count ≤ r.reader.acknack_count + 1
  bounded : ∀ message ∈ sent, Bounded w message

omit [DecidableEq ι] in
/-- There is room for fewer counts too. -/
theorem Tallied.mono (h : Tallied k w i r sent) (hle : l ≤ k) : Tallied l w i r sent where
  heartbeats := (Nat.add_le_add_left hle _).trans_lt h.heartbeats
  acknacks := (Nat.add_le_add_left hle _).trans_lt h.acknacks
  heard := h.heard
  known := h.known
  counted := h.counted
  expected := h.expected
  bounded := h.bounded

omit [DecidableEq ι] in
/-- A step of the reader. -/
theorem Tallied.reader (h : Tallied (k + b.acknowledges.toNat) w i r sent) (hvalid : r.reader.Valid)
    (hannounces : ∀ n, b.Announces n → n ≤ w.lastCacheChangeSeqNum)
    (hcount : ∀ count first_seq last_seq, b = .heartbeat count first_seq last_seq →
      count ≤ w.heartbeat_count) (hs : r.step b = some r') : Tallied k w i r' sent := by
  obtain ⟨notified, S, bound, hstep⟩ := Reading.stepped_of_step hvalid hs
  obtain ⟨hacknack, hsent⟩ := Reading.acknack_count_of_step hs
  have hroom := h.acknacks
  have hgrows : r'.reader.acknack_count = r.reader.acknack_count + b.acknowledges.toNat := by
    rw [hacknack]
    cases hb : b.acknowledges with
    | false => rfl
    | true =>
      rw [hb, Bool.toNat_true] at hroom
      rw [if_pos rfl, nextCount_eq (by omega), Bool.toNat_true]
  constructor
  case heartbeats => exact (h.mono (Nat.le_add_right ..)).heartbeats
  case acknacks => omega
  case heard =>
    by_cases hb : ∀ count first_seq last_seq, b ≠ .heartbeat count first_seq last_seq
    · have hsame := congrArg Prod.fst (Reading.heartbeats_of_step hvalid hs hb).1
      exact hsame.le.trans h.heard
    · push Not at hb
      obtain ⟨count, first_seq, last_seq, rfl⟩ := hb
      rcases Reading.heartbeats_of_heartbeat hvalid hs with ⟨-, hproxy, -⟩ | ⟨-, hheartbeats, -⟩
      · rw [hproxy]
        exact h.heard
      · exact (congrArg Prod.fst hheartbeats).le.trans (hcount _ _ _ rfl)
  case known =>
    refine hstep.handled.max_le.trans (max_le h.known ?_)
    by_contra hlt
    have hpos : 1 ≤ bound := by omega
    exact hlt (hannounces bound (hstep.announces bound hpos le_rfl))
  case counted =>
    intro acknack hmem
    rcases hsent acknack hmem with hold | hnew
    · have hle := h.counted acknack hold
      omega
    · exact hnew.le
  case expected =>
    have hexpected := h.expected
    omega
  case bounded => exact h.bounded

omit [DecidableEq ι] in
/-- A step of the writer without a heartbeat. -/
theorem Tallied.writer (h : Tallied k w i r sent) (hheard : w'.heartbeat_count = w.heartbeat_count)
    (hlast : w.lastCacheChangeSeqNum ≤ w'.lastCacheChangeSeqNum)
    (hexpected : (w'.proxies i).next_expected_acknack_count ≤ r.reader.acknack_count + 1) :
    Tallied k w' i r sent where
  heartbeats := hheard ▸ h.heartbeats
  acknacks := h.acknacks
  heard := hheard ▸ h.heard
  known := h.known.trans hlast
  counted := h.counted
  expected := hexpected
  bounded := by
    intro message hmessage
    have hbounded := h.bounded message hmessage
    cases message with
    | heartbeat count first_seq last_seq => exact ⟨hheard ▸ hbounded.1, hbounded.2.trans hlast⟩
    | _ => trivial

omit [DecidableEq ι] in
/-- A heartbeat is counted. -/
theorem Tallied.heartbeat (h : Tallied (k + 1) w i r sent) : Tallied k w.sendHeartbeat.2 i r sent := by
  have hroom := h.heartbeats
  have hnext : w.sendHeartbeat.2.heartbeat_count = w.heartbeat_count + 1 :=
    nextCount_eq (by omega)
  constructor
  case heartbeats => omega
  case acknacks => exact (h.mono (Nat.le_succ k)).acknacks
  case heard => exact h.heard.trans (hnext ▸ Nat.le_succ _)
  case known => exact h.known
  case counted => exact h.counted
  case expected => exact h.expected
  case bounded =>
    intro message hmessage
    have hbounded := h.bounded message hmessage
    cases message with
    | heartbeat count first_seq last_seq =>
      exact ⟨hbounded.1.trans (hnext ▸ Nat.le_succ _), hbounded.2⟩
    | _ => trivial

omit [DecidableEq ι] in
/-- A bounded message is sent. -/
theorem Tallied.send (h : Tallied k w i r sent) (hmessage : Bounded w message) :
    Tallied k w i r (sent ++ [message]) where
  heartbeats := h.heartbeats
  acknacks := h.acknacks
  heard := h.heard
  known := h.known
  counted := h.counted
  expected := h.expected
  bounded := by
    intro other hother
    rcases List.mem_append.mp hother with hold | hnew
    · exact h.bounded other hold
    · rw [List.mem_singleton.mp hnew]
      exact hmessage

private theorem expected_ackedChangesSet (p : ReaderProxy) (history : List ℕ) (next seq : ℕ) :
    (p.ackedChangesSet history next seq).next_expected_acknack_count =
      p.next_expected_acknack_count := by
  unfold ReaderProxy.ackedChangesSet
  split
  · rfl
  split
  · split <;> rfl
  · rfl

private theorem expected_changeHasBeenRemoved (p : ReaderProxy) (history : List ℕ) (next seq : ℕ) :
    (p.changeHasBeenRemoved history next seq).next_expected_acknack_count =
      p.next_expected_acknack_count := by
  unfold ReaderProxy.changeHasBeenRemoved
  split
  · rfl
  · simp only
    split
    · exact expected_ackedChangesSet ..
    · rfl

private theorem expected_matchedReaderAdd {transient_local : Bool} (hi : i ∉ w.matched_remote_readers)
    (j : ι) : ((w.matchedReaderAdd rtps_is_relevant i transient_local).proxies
      j).next_expected_acknack_count ≤ (w.proxies j).next_expected_acknack_count := by
  rw [StatefulWriter.matchedReaderAdd, if_neg hi]
  simp only [Function.update_apply]
  split
  · rw [ReaderProxy.foldl_addChange]
    simp only [ReaderProxy.start]
    split
    · rw [expected_ackedChangesSet]
      exact Nat.zero_le _
    · exact Nat.zero_le _
  · exact le_rfl

private theorem counts_unsentChangeAddedToHistory (w : StatefulWriter ι α) (payload : α) (j : ι) :
    (w.unsentChangeAddedToHistory rtps_is_relevant payload).heartbeat_count = w.heartbeat_count ∧
      ((w.unsentChangeAddedToHistory rtps_is_relevant payload).proxies
        j).next_expected_acknack_count = (w.proxies j).next_expected_acknack_count := by
  rw [StatefulWriter.unsentChangeAddedToHistory]
  split
  · obtain ⟨next, hnext⟩ := (w.addChange payload).checkAckedStatus_eq
    rw [hnext]
    exact ⟨rfl, rfl⟩
  · refine ⟨rfl, ?_⟩
    simp only [ReaderProxy.addChange]
    split
    · split <;> rfl
    · rfl

private theorem counts_deliverSample {seq : ℕ} {sent : Option (Message α)}
    (hs : w.deliverSample i seq = some (sent, w')) (j : ι) :
    w'.heartbeat_count = w.heartbeat_count ∧ w'.changes = w.changes ∧
      (w'.proxies j).next_expected_acknack_count = (w.proxies j).next_expected_acknack_count := by
  rw [StatefulWriter.deliverSample] at hs
  split at hs
  · contradiction
  split at hs
  · cases hs
    obtain ⟨next, hnext⟩ :=
      (w.setProxy i ((w.proxies i).fromUnsentToUnderway seq)).checkAckedStatus_eq
    rw [hnext]
    refine ⟨rfl, rfl, ?_⟩
    simp only [StatefulWriter.setProxy, Function.update_apply]
    split
    · next heq =>
      rw [heq]
      rfl
    · rfl
  · cases hs
    obtain ⟨next, hnext⟩ := w.checkAckedStatus_eq
    rw [hnext]
    exact ⟨rfl, rfl, rfl⟩

/-- `process_acknack` expects a count that has not been sent, if the count it is given has been. -/
theorem expected_processAcknack (w : StatefulWriter ι α) (i : ι) (acknack : Acknack) (j : ι) :
    ((w.processAcknack i acknack).proxies j).next_expected_acknack_count ≤
        (w.proxies j).next_expected_acknack_count ∨
      j = i ∧ ((w.processAcknack i acknack).proxies j).next_expected_acknack_count =
        nextCount acknack.count := by
  rw [StatefulWriter.processAcknack]
  split
  · split
    · exact .inl le_rfl
    · next p hp =>
      obtain ⟨next, hnext⟩ := (w.setProxy i (w.acknowledged p acknack.sns)).checkAckedStatus_eq
      rw [hnext]
      simp only [StatefulWriter.setProxy, Function.update_apply]
      split
      · next heq =>
        refine .inr ⟨heq, ?_⟩
        rw [ReaderProxy.checkAndSetAcknackCount] at hp
        split at hp
        · cases hp
          rw [StatefulWriter.acknowledged]
          split
          · exact expected_ackedChangesSet ..
          · exact expected_ackedChangesSet ..
        · contradiction
      · exact .inl le_rfl
  · exact .inl le_rfl

private theorem sent_processAcknack (w : StatefulWriter ι α) (i : ι) (acknack : Acknack) :
    (w.processAcknack i acknack).heartbeat_count = w.heartbeat_count ∧
      (w.processAcknack i acknack).changes = w.changes := by
  rw [StatefulWriter.processAcknack]
  split
  · split
    · exact ⟨rfl, rfl⟩
    · next p _ =>
      obtain ⟨next, hnext⟩ := (w.setProxy i (w.acknowledged p acknack.sns)).checkAckedStatus_eq
      rw [hnext]
      exact ⟨rfl, rfl⟩
  · exact ⟨rfl, rfl⟩

omit [DecidableEq ι] in
/-- The counts of the writer and of every reader are in step. -/
def Tally (k : ℕ) (s : Protocol ι α) : Prop := ∀ i, Tallied k s.writer i (s.readers i) (s.sent i)

omit [DecidableEq ι] in
private theorem tally_new (hk : k < 2 ^ 32) : Tally k ({} : Protocol ι α) := by
  intro i
  have hroom : 0 + k < 2 ^ 32 := by rwa [Nat.zero_add]
  exact ⟨hroom, hroom, le_rfl, le_rfl, fun _ h ↦ absurd h List.not_mem_nil, Nat.zero_le _,
    fun _ h ↦ absurd h List.not_mem_nil⟩

/-- A step of a reader keeps the counts in step. -/
theorem Tally.stepReader (h : Tally (k + b.acknowledges.toNat) s) (hinv : Inv contents s)
    (hannounces : ∀ n, b.Announces n → n ≤ s.writer.lastCacheChangeSeqNum)
    (hcount : ∀ count first_seq last_seq, b = .heartbeat count first_seq last_seq →
      count ≤ s.writer.heartbeat_count) (hs : s.stepReader i b = some t) : Tally k t := by
  obtain ⟨r, hr, rfl⟩ := Option.map_eq_some_iff.mp hs
  intro j
  simp only [Function.update_apply]
  split
  · next heq =>
    subst heq
    obtain ⟨as, howing⟩ := (hinv.linked j).owing
    exact (h j).reader howing.valid hannounces hcount hr
  · exact (h j).mono (Nat.le_add_right ..)

/-- A bounded message is sent. -/
theorem Tally.send (h : Tally k s) (hmessage : Bounded s.writer message) :
    Tally k (s.send i message) := by
  intro j
  simp only [Protocol.send, Function.update_apply]
  split
  · next heq =>
    subst heq
    exact (h j).send hmessage
  · exact h j

/-- New statuses leave the counts. -/
theorem Tally.setStatus (h : Tally k s) (i : ι) (status : ChangeForReader → ChangeForReaderStatus) :
    Tally k { s with writer := s.writer.setProxy i ((s.writer.proxies i).setStatus status) } := by
  intro j
  refine (h j).writer rfl le_rfl (le_of_eq_of_le ?_ (h j).expected)
  simp only [StatefulWriter.setProxy, Function.update_apply]
  split
  · next heq => rw [heq]; rfl
  · rfl

/-- Every step keeps the counts in step. -/
theorem tally_step (hinv : Inv contents s) (h : Tally (k + (counts a).toNat) s)
    (hs : step contents rtps_is_relevant s a = some t) : Tally k t := by
  cases a with
  | write =>
    cases hs
    obtain ⟨-, hlast, -⟩ := hinv.writer.unsentChangeAddedToHistory
    intro i
    obtain ⟨hheard, hexpected⟩ := counts_unsentChangeAddedToHistory s.writer
      (contents s.writer.nextSequenceNumber) i
    exact (h i).writer hheard ((Nat.le_succ _).trans hlast.ge) (hexpected.le.trans (h i).expected)
  | removeChange seq =>
    rw [step] at hs
    split at hs
    · cases hs
      intro i
      refine (h i).writer rfl le_rfl (le_of_eq_of_le ?_ (h i).expected)
      simp only [StatefulWriter.changeRemovedByHistory]
      split
      · exact expected_changeHasBeenRemoved ..
      · rfl
    · contradiction
  | matchReader i transient_local =>
    rw [step] at hs
    split at hs
    · contradiction
    · next hi =>
      cases hs
      intro j
      refine (h j).writer ?_ ?_ ((expected_matchedReaderAdd hi j).trans (h j).expected)
      · rw [StatefulWriter.matchedReaderAdd, if_neg hi]
      · rw [StatefulWriter.matchedReaderAdd, if_neg hi]
  | deliverSample i seq =>
    obtain ⟨⟨message, writer⟩, hdeliver, rfl⟩ := Option.map_eq_some_iff.mp hs
    obtain ⟨-, hlast, -, -, -, hsent⟩ := hinv.writer.deliverSample hdeliver
    have hdelivered : Tally k { s with writer } := by
      intro j
      obtain ⟨hheard, -, hexpected⟩ := counts_deliverSample hdeliver j
      exact (h j).writer hheard hlast.ge (hexpected.le.trans (h j).expected)
    cases message with
    | none => exact hdelivered
    | some message =>
      obtain ⟨-, change, -, rfl⟩ := hsent message rfl
      exact hdelivered.send trivial
  | gap i gap_start gap_list =>
    rw [step] at hs
    split at hs
    · cases hs
      exact h.send trivial
    · contradiction
  | heartbeat i =>
    rw [step] at hs
    split at hs
    · cases hs
      have hcounted : Tally k { s with writer := s.writer.sendHeartbeat.2 } :=
        fun j ↦ (h j).heartbeat
      refine hcounted.send ⟨le_rfl, ?_⟩
      cases hlast : s.writer.history.getLast? with
      | none => exact le_rfl
      | some last => exact (hinv.writer.history_le (List.mem_of_getLast? hlast)).2
    · contradiction
  | nackSupression i =>
    cases hs
    exact h.setStatus i _
  | nackResponse i =>
    cases hs
    exact h.setStatus i _
  | acknackArrives i m =>
    obtain ⟨acknack, hacknack, rfl⟩ := Option.map_eq_some_iff.mp hs
    have hsent := List.mem_of_getElem? hacknack
    obtain ⟨-, hlast, -⟩ := hinv.writer.processAcknack i acknack
    intro j
    refine (h j).writer (sent_processAcknack s.writer i acknack).1 hlast.ge ?_
    rcases expected_processAcknack s.writer i acknack j with hle | ⟨rfl, heq⟩
    · exact hle.trans (h j).expected
    · rw [heq]
      exact (Nat.mod_le ..).trans (Nat.succ_le_succ ((h j).counted acknack hsent))
  | messageArrives i m reception =>
    obtain ⟨message, hmessage, hs⟩ := Option.bind_eq_some_iff.mp hs
    have hsent := List.mem_of_getElem? hmessage
    have htruthful := (hinv.linked i).truthful message hsent
    have hbounded := (h i).bounded message hsent
    cases message with
    | data change =>
      exact Tally.stepReader (b := .data change reception) h hinv
        (fun n hn ↦ le_trans hn htruthful.2) (fun _ _ _ heq ↦ by cases heq) hs
    | heartbeat count first_seq last_seq =>
      refine Tally.stepReader (b := .heartbeat count first_seq last_seq) h hinv (fun n hn ↦ ?_)
        (fun _ _ _ heq ↦ ?_) hs
      · rcases hn with hlt | hle
        · exact Nat.lt_succ_iff.mp (lt_of_lt_of_le hlt htruthful.1)
        · exact hle.trans hbounded.2
      · cases heq
        exact hbounded.1
    | gap gap_start gap_list =>
      refine Tally.stepReader (b := .gap gap_start gap_list) h hinv (fun n hn ↦ ?_)
        (fun _ _ _ heq ↦ by cases heq) hs
      obtain ⟨m, hm, hle⟩ := hn
      exact hle.trans (htruthful m hm).1
  | acknack i heartbeat_was_final =>
    exact Tally.stepReader (b := .acknack heartbeat_was_final) h hinv (fun _ hn ↦ hn.elim)
      (fun _ _ _ heq ↦ by cases heq) hs
  | initialAcknack i =>
    exact Tally.stepReader (b := .initialAcknack) h hinv (fun _ hn ↦ hn.elim)
      (fun _ _ _ heq ↦ by cases heq) hs
  | takeChange i seq =>
    exact Tally.stepReader (b := .remove seq) h hinv (fun _ hn ↦ hn.elim)
      (fun _ _ _ heq ↦ by cases heq) hs

/-! ## One change further -/

/-- A change is listed with a status. -/
def Has (p : ReaderProxy) (n : ℕ) (status : ChangeForReaderStatus) : Prop :=
  ⟨n, status⟩ ∈ p.changes_for_reader

private theorem exists_has {p : ReaderProxy} (h : p.Pending n) : ∃ status, Has p n status := by
  obtain ⟨⟨_, status⟩, hchange, rfl⟩ := h
  exact ⟨status, hchange⟩

private theorem changeIsUnsent_of_has {p : ReaderProxy} (hvalid : p.Valid) (h : Has p n .UNSENT) :
    p.changeIsUnsent n = true := by
  have hpending : p.Pending n := ⟨_, h, rfl⟩
  have hlow := hvalid.lt_of_pending hpending
  rw [ReaderProxy.changeIsUnsent, if_neg]
  · split
    · next hnone => exact absurd hpending (ReaderProxy.findChange_eq_none.mp hnone)
    · next change hsome =>
      rw [ReaderProxy.findChange] at hsome
      have hmem := List.mem_of_find?_eq_some hsome
      have hseq : change.sequenceNumber = n := by simpa using List.find?_some hsome
      rw [hvalid.ascending.eq_of_key_eq hmem h hseq]
      rfl
  · rintro (hle | hnil)
    · omega
    · rw [Has, hnil] at h
      exact List.not_mem_nil h

/-- A new status of a listed change. -/
theorem Has.setStatus {p : ReaderProxy} {status : ChangeForReaderStatus} (h : Has p n status)
    (f : ChangeForReader → ChangeForReaderStatus) : Has (p.setStatus f) n (f ⟨n, status⟩) :=
  List.mem_map.mpr ⟨_, h, rfl⟩

/-- What is not acknowledged keeps its status. -/
theorem Has.ackedChangesSet {p : ReaderProxy} {status : ChangeForReaderStatus} {history : List ℕ}
    {next seq : ℕ} (h : Has p n status) (hvalid : p.Valid) (hlow : p.changes_low_mark < seq)
    (hge : seq ≤ n) : Has (p.ackedChangesSet history next seq) n status := by
  have hmem : ∀ change, change ∈ p.changes_for_reader.dropWhile (·.sequenceNumber < seq) ↔
      change ∈ p.changes_for_reader ∧ seq ≤ change.sequenceNumber :=
    fun change ↦ hvalid.ascending.mem_dropWhile
  have hadvance := ReaderProxy.advance_eq (n := seq) fun change hchange ↦
    hvalid.unacknowledged change ((hmem change).mp hchange).1
  unfold ReaderProxy.ackedChangesSet
  rw [if_pos hlow]
  simp only [hadvance]
  exact (hmem _).mpr ⟨h, hge⟩

/-- A gap of the next change settles it. -/
theorem settled_gap {r : StatefulReader α} (h : r.Valid) :
    (r.processGapMsg (r.proxy.changes_from_writer_low_mark + 1)
      (.empty 256 (r.proxy.changes_from_writer_low_mark + 2))).2.proxy.Settled
        (r.proxy.changes_from_writer_low_mark + 1) := by
  have hallowed : r.proxy.changes_from_writer_low_mark + 2 ≤ r.proxy.maxAllowedGap
      (r.proxy.changes_from_writer_low_mark + 1)
      (.empty 256 (r.proxy.changes_from_writer_low_mark + 2)) := by
    rw [WriterProxy.maxAllowedGap, if_pos le_rfl, BitmapRange.empty_base]
    split <;> omega
  have hrange : r.proxy.gapRange (r.proxy.changes_from_writer_low_mark + 1)
      (.empty 256 (r.proxy.changes_from_writer_low_mark + 2)) =
        [r.proxy.changes_from_writer_low_mark + 1] := by
    simp only [WriterProxy.gapRange, BitmapRange.empty_base, max_self, min_eq_left hallowed]
    rw [Nat.add_sub_add_left]
    rfl
  have hgap : r.proxy.processGap (r.proxy.changes_from_writer_low_mark + 1)
      (.empty 256 (r.proxy.changes_from_writer_low_mark + 2)) =
        r.proxy.irrelevantChangeSet (r.proxy.changes_from_writer_low_mark + 1) := by
    rw [WriterProxy.processGap, if_neg (by omega), BitmapRange.empty_base, if_neg (by omega), hrange,
      BitmapRange.empty_items]
    rfl
  have hadds : WriterProxy.Adds r.proxy
      (r.proxy.irrelevantChangeSet (r.proxy.changes_from_writer_low_mark + 1))
      (· = r.proxy.changes_from_writer_low_mark + 1)
      (r.proxy.changes_from_writer_low_mark + 1) := h.proxy.receivedChangeSet.1
  rw [StatefulReader.processGapMsg, if_neg (by rw [BitmapRange.empty_base]; omega), hgap]
  rw [@StatefulReader.notifyChanges_eq _
    { r with proxy := r.proxy.irrelevantChangeSet (r.proxy.changes_from_writer_low_mark + 1) }
    h.ascending hadds.valid.notified_le]
  exact (hadds.settled _).mpr (.inr rfl)

private theorem known_of_heartbeat (h : r.reader.Valid) {count first_seq last_seq : ℕ}
    (hnew : r.reader.proxy.last_heartbeat_count < count)
    (hs : r.step (.heartbeat count first_seq last_seq) = some r') :
    last_seq ≤ r'.reader.proxy.max_sequence_number := by
  obtain ⟨⟨lost, notified, acknack, reader⟩, hhandle, rfl⟩ := Option.map_eq_some_iff.mp hs
  cases hhandle
  simp only [StatefulReader.processHeartbeatMsg]
  split
  · next hignored =>
    rw [WriterProxy.processHeartbeat, if_pos hnew] at hignored
    contradiction
  · next lost' proxy hproxy =>
    obtain ⟨hvalid, -, hmax, -⟩ := h.proxy.processHeartbeat hproxy
    rw [@StatefulReader.notifyChanges_eq _ { r.reader with proxy } h.ascending hvalid.notified_le]
    simp only [hmax]
    omega

/-- The protocol goes on while the readers accept what comes, and the writer writes and removes
nothing. At most `k` heartbeats and acknowledgements are sent. -/
structure Goes (contents : ℕ → α) (rtps_is_relevant : ι → α → Bool) (k : ℕ) (s t : Protocol ι α) :
    Prop where
  run : ∃ bs, run (step contents rtps_is_relevant) s bs = some t ∧ (∀ b ∈ bs, accepts b = true) ∧
    bs.countP counts ≤ k
  writer_eq : t.writer.changes = s.writer.changes ∧
    t.writer.lastCacheChangeSeqNum = s.writer.lastCacheChangeSeqNum ∧
    t.writer.matched_remote_readers = s.writer.matched_remote_readers
  owed_eq : t.owed = s.owed

/-- It may stay where it is. -/
theorem Goes.refl : Goes contents rtps_is_relevant k s s where
  run := ⟨[], rfl, fun _ h ↦ absurd h List.not_mem_nil, Nat.zero_le k⟩
  writer_eq := ⟨rfl, rfl, rfl⟩
  owed_eq := rfl

/-- It may count more. -/
theorem Goes.mono (h : Goes contents rtps_is_relevant k s t) (hle : k ≤ l) :
    Goes contents rtps_is_relevant l s t where
  run := by
    obtain ⟨bs, hbs, haccepts, hcounts⟩ := h.run
    exact ⟨bs, hbs, haccepts, hcounts.trans hle⟩
  writer_eq := h.writer_eq
  owed_eq := h.owed_eq

/-- It goes on from where it has come to. -/
theorem Goes.trans {u : Protocol ι α} (h : Goes contents rtps_is_relevant k s t)
    (h' : Goes contents rtps_is_relevant l t u) : Goes contents rtps_is_relevant (k + l) s u where
  run := by
    obtain ⟨bs, hbs, haccepts, hcounts⟩ := h.run
    obtain ⟨bs', hbs', haccepts', hcounts'⟩ := h'.run
    refine ⟨bs ++ bs', ?_, fun b hb ↦ (List.mem_append.mp hb).elim (haccepts b) (haccepts' b), ?_⟩
    · rw [run_append, hbs]
      exact hbs'
    · rw [List.countP_append]
      exact Nat.add_le_add hcounts hcounts'
  writer_eq := ⟨h'.writer_eq.1.trans h.writer_eq.1, h'.writer_eq.2.1.trans h.writer_eq.2.1,
    h'.writer_eq.2.2.trans h.writer_eq.2.2⟩
  owed_eq := h'.owed_eq.trans h.owed_eq

/-- One step. -/
theorem Goes.single (hs : step contents rtps_is_relevant s a = some t) (ha : accepts a = true)
    (hk : (counts a).toNat ≤ k)
    (hwriter : t.writer.changes = s.writer.changes ∧
      t.writer.lastCacheChangeSeqNum = s.writer.lastCacheChangeSeqNum ∧
      t.writer.matched_remote_readers = s.writer.matched_remote_readers)
    (howed : t.owed = s.owed) : Goes contents rtps_is_relevant k s t where
  run := by
    refine ⟨[a], ?_, fun b hb ↦ List.mem_singleton.mp hb ▸ ha, ?_⟩
    · rw [run_cons, hs]
      rfl
    · rw [List.countP_singleton]
      cases hcounts : counts a with
      | false => exact Nat.zero_le k
      | true => rwa [hcounts] at hk
  writer_eq := hwriter
  owed_eq := howed

/-- What holds of the protocol, with room for `k` more counts. -/
structure Sane (contents : ℕ → α) (k : ℕ) (s : Protocol ι α) : Prop where
  inv : Inv contents s
  tally : Tally k s

omit [DecidableEq ι] in
/-- There is room for fewer counts too. -/
theorem Sane.mono (h : Sane contents k s) (hle : l ≤ k) : Sane contents l s :=
  ⟨h.inv, fun i ↦ (h.tally i).mono hle⟩

/-- It holds after a run whose counts there was room for. -/
theorem Sane.run (h : Sane contents (k + as.countP counts) s)
    (hkeeps : AllSteps (step contents rtps_is_relevant) KeepsAll s as)
    (hs : run (step contents rtps_is_relevant) s as = some t) : Sane contents k t := by
  induction as generalizing s with
  | nil =>
    cases hs
    exact h
  | cons a as ih =>
    rw [run_cons] at hs
    obtain ⟨u, hu, hs⟩ := Option.bind_eq_some_iff.mp hs
    obtain ⟨hfirst, hrest⟩ := allSteps_cons.mp hkeeps u hu
    refine ih ⟨inv_step h.inv hfirst hu, tally_step h.inv ?_ hu⟩ hrest hs
    have htally := h.tally
    rw [List.countP_cons] at htally
    cases hcounts : counts a with
    | false => simpa [hcounts] using htally
    | true => simpa [hcounts, Nat.add_assoc] using htally

private theorem Goes.sane (h : Goes contents rtps_is_relevant k s t) (hs : Sane contents (l + k) s) :
    Sane contents l t := by
  obtain ⟨bs, hbs, haccepts, hcounts⟩ := h.run
  have hok : AllSteps (step contents rtps_is_relevant) KeepsAll s bs :=
    fun cs b u u' hcs _ _ ↦ keepsAll_of_accepts
      (haccepts b (hcs.subset (List.mem_append_right cs (List.mem_singleton_self b))))
  exact (hs.mono (Nat.add_le_add_left hcounts l)).run hok hbs

/-- A message that is sent now arrives: the reader takes the step that goes with it. -/
theorem Goes.arrive {m : ℕ} (hm : (s.sent i)[m]? = some message)
    (hr : (s.readers i).step (message.action (.accepted true)) = some r) :
    Goes contents rtps_is_relevant k s { s with readers := Function.update s.readers i r } := by
  refine Goes.single (a := .messageArrives i m (.accepted true)) ?_ (by simp [accepts])
    (Nat.zero_le k) ⟨rfl, rfl, rfl⟩ rfl
  simp only [step, hm, Option.bind_some, stepReader, hr, Option.map_some]

omit [DecidableEq ι] in
/-- The low mark of a reader. -/
def lowMark (s : Protocol ι α) (i : ι) : ℕ :=
  (s.readers i).reader.proxy.changes_from_writer_low_mark

omit [DecidableEq ι] in
private theorem lowMark_lt {S : ℕ → Prop} {bound : ℕ} {notified : List (CacheChange α)}
    (hstep : Reading.Stepped (s.readers i) r b notified S bound)
    (hsettled : r.reader.proxy.Settled (s.lowMark i + 1)) :
    s.lowMark i < r.reader.proxy.changes_from_writer_low_mark := by
  refine hstep.handled.valid.proxy.le_low_mark_iff.mpr fun m hm ↦ ?_
  rcases Nat.lt_or_ge m (s.lowMark i + 1) with hlt | hge
  · exact hstep.handled.mono (.inl (Nat.lt_succ_iff.mp hlt))
  · rwa [Nat.le_antisymm hm hge]

/-- A message that settles the change behind the low mark of a reader takes it further. -/
theorem exists_settled (hinv : Inv contents s) (i : ι) (message : Message α) {m : ℕ}
    (hm : (s.sent i)[m]? = some message)
    (hr : (s.readers i).step (message.action (.accepted true)) = some r)
    (hsettled : r.reader.proxy.Settled (s.lowMark i + 1)) :
    ∃ t, Goes contents rtps_is_relevant 0 s t ∧ s.lowMark i < t.lowMark i := by
  obtain ⟨as, howing⟩ := (hinv.linked i).owing
  obtain ⟨notified, S, bound, hstep⟩ := Reading.stepped_of_step howing.valid hr
  refine ⟨_, Goes.arrive hm hr, lt_of_lt_of_eq (lowMark_lt hstep hsettled) ?_⟩
  simp [lowMark]

/-- A change that is not listed for a reader does not hold it up. -/
theorem exists_gap (hs : Sane contents k s) (hi : i ∈ s.writer.matched_remote_readers)
    (hlt : s.lowMark i < s.writer.lastCacheChangeSeqNum)
    (hnot : ¬ (s.writer.proxies i).Pending (s.lowMark i + 1)) :
    ∃ t, Goes contents rtps_is_relevant 0 s t ∧ s.lowMark i < t.lowMark i := by
  have hgap : s.writer.mayGap i (s.lowMark i + 1) (.empty 256 (s.lowMark i + 2)) = true := by
    refine List.all_eq_true.mpr fun n hn ↦ decide_eq_true ?_
    have hn : n = s.lowMark i + 1 := by
      rw [StatefulWriter.gapNumbers, List.mem_append, BitmapRange.empty_base, List.mem_range'_1,
        BitmapRange.empty_items] at hn
      rcases hn with hn | hn
      · omega
      · exact absurd hn List.not_mem_nil
    subst hn
    exact ⟨hlt, .inr (ReaderProxy.findChange_eq_none.mpr hnot)⟩
  have hsend : Goes contents rtps_is_relevant 0 s
      (s.send i (.gap (s.lowMark i + 1) (.empty 256 (s.lowMark i + 2)))) := by
    refine Goes.single (a := .gap i (s.lowMark i + 1) (.empty 256 (s.lowMark i + 2))) ?_ rfl le_rfl
      ⟨rfl, rfl, rfl⟩ rfl
    rw [step, if_pos ⟨hi, hgap⟩]
  obtain ⟨as, howing⟩ := (hs.inv.linked i).owing
  obtain ⟨r, hr, hreader⟩ : ∃ r, (s.readers i).step (.gap (s.lowMark i + 1)
      (.empty 256 (s.lowMark i + 2))) = some r ∧ r.reader = ((s.readers i).reader.processGapMsg
        (s.lowMark i + 1) (.empty 256 (s.lowMark i + 2))).2 := ⟨_, rfl, rfl⟩
  obtain ⟨t, ht, hlow⟩ := exists_settled (hsend.sane hs).inv i
    (.gap (s.lowMark i + 1) (.empty 256 (s.lowMark i + 2))) (m := (s.sent i).length)
    (by simp [Protocol.send]) hr (hreader ▸ settled_gap howing.valid)
  exact ⟨t, hsend.trans ht, hlow⟩

/-- A change that is to be sent is sent and arrives. -/
theorem exists_deliver (hs : Sane contents k s) (hi : i ∈ s.writer.matched_remote_readers)
    (hhas : Has (s.writer.proxies i) (s.lowMark i + 1) .UNSENT) :
    ∃ t, Goes contents rtps_is_relevant 0 s t ∧ s.lowMark i < t.lowMark i := by
  have hfits := hs.inv.writer.fits i hi
  have hunsent := changeIsUnsent_of_has hfits.toValid hhas
  obtain ⟨change, hfind⟩ : ∃ change,
      s.writer.changes.find? (·.sequenceNumber = s.lowMark i + 1) = some change := by
    obtain ⟨change, hchange, hseq⟩ := List.mem_map.mp (hfits.listed _ ⟨_, hhas, rfl⟩)
    exact Option.isSome_iff_exists.mp (List.find?_isSome.mpr ⟨change, hchange, decide_eq_true hseq⟩)
  have hseq : change.sequenceNumber = s.lowMark i + 1 := by simpa using List.find?_some hfind
  let w' : StatefulWriter ι α :=
    s.writer.setProxy i ((s.writer.proxies i).fromUnsentToUnderway (s.lowMark i + 1))
  let s' : Protocol ι α := { s with writer := w'.checkAckedStatus }
  have hsend : Goes contents rtps_is_relevant 0 s (s'.send i (.data change)) := by
    refine Goes.single (a := .deliverSample i (s.lowMark i + 1)) ?_ rfl le_rfl ?_ rfl
    · simp only [step, StatefulWriter.deliverSample, hfind]
      rw [if_pos ⟨hi, hunsent⟩]
      rfl
    · obtain ⟨next, hnext⟩ := w'.checkAckedStatus_eq
      simp only [s', Protocol.send, hnext]
      exact ⟨rfl, rfl, rfl⟩
  obtain ⟨as, howing⟩ := (hs.inv.linked i).owing
  obtain ⟨r, hr, hreader⟩ : ∃ r, (s.readers i).step (.data change (.accepted true)) = some r ∧
      r.reader = ((s.readers i).reader.processDataMsg change (.accepted true)).2 := ⟨_, rfl, rfl⟩
  have hsettled : r.reader.proxy.Settled (s.lowMark i + 1) := by
    rw [hreader, ((howing.valid.processDataMsg change (.accepted true)).1.settled _)]
    exact .inr ⟨hseq.symm, by simp⟩
  obtain ⟨t, ht, hlow⟩ := exists_settled (hsend.sane hs).inv i (.data change)
    (m := (s.sent i).length) (by simp [Protocol.send, s']) hr hsettled
  exact ⟨t, hsend.trans ht, hlow⟩

private theorem exists_resend (hs : Sane contents k s) (hi : i ∈ s.writer.matched_remote_readers)
    (hhas : Has (s.writer.proxies i) (s.lowMark i + 1) .REQUESTED) :
    ∃ t, Goes contents rtps_is_relevant 0 s t ∧ s.lowMark i < t.lowMark i := by
  let s' : Protocol ι α := { s with
    writer := s.writer.setProxy i (s.writer.proxies i).performAcknackResponse }
  have hresponse : Goes contents rtps_is_relevant 0 s s' :=
    Goes.single (a := .nackResponse i) rfl rfl le_rfl ⟨rfl, rfl, rfl⟩ rfl
  have hunsent : Has (s'.writer.proxies i) (s'.lowMark i + 1) .UNSENT := by
    simp only [s', StatefulWriter.setProxy, Function.update_self]
    exact hhas.setStatus _
  obtain ⟨t, ht, hlow⟩ := exists_deliver (hresponse.sane hs) hi hunsent
  exact ⟨t, hresponse.trans ht, hlow⟩

omit [DecidableEq ι] in
private theorem proxies_checkAckedStatus (w : StatefulWriter ι α) :
    w.checkAckedStatus.proxies = w.proxies := by
  obtain ⟨next, hnext⟩ := w.checkAckedStatus_eq
  rw [hnext]

/-- A change that an acknowledgement asks for is to be sent again. -/
theorem has_processAcknack (h : StatefulWriter.Valid contents w)
    (hi : i ∈ w.matched_remote_readers) {acknack : Acknack}
    (hreceived : acknack.sns.max?.getD acknack.sns.base ≤ w.nextSequenceNumber)
    (hcount : (w.proxies i).next_expected_acknack_count ≤ acknack.count)
    (hbase : 0 < acknack.sns.base) (hn : n ∈ acknack.sns.items)
    (hhas : Has (w.proxies i) n .UNACKNOWLEDGED) :
    Has ((w.processAcknack i acknack).proxies i) n .REQUESTED := by
  have hchanges : w.changes ≠ [] := by
    intro hnil
    have hmem := (h.fits i hi).listed n ⟨_, hhas, rfl⟩
    rw [StatefulWriter.history, hnil] at hmem
    exact absurd hmem List.not_mem_nil
  let p : ReaderProxy := { w.proxies i with next_expected_acknack_count := nextCount acknack.count }
  have hp : p.Valid :=
    ⟨(h.fits i hi).ascending, (h.fits i hi).above, (h.fits i hi).unacknowledged⟩
  have hacked : Has (p.ackedChangesSet w.history w.nextSequenceNumber acknack.sns.base) n
      .UNACKNOWLEDGED := by
    by_cases hlow : p.changes_low_mark < acknack.sns.base
    · exact Has.ackedChangesSet hhas hp hlow (acknack.sns.mem_range n hn).1
    · unfold ReaderProxy.ackedChangesSet
      rw [if_neg hlow, if_neg fun hzero ↦ hbase.ne' hzero.1]
      exact hhas
  rw [StatefulWriter.processAcknack, if_pos ⟨hreceived, hi⟩, ReaderProxy.checkAndSetAcknackCount,
    if_pos hcount]
  simp only [proxies_checkAckedStatus, StatefulWriter.setProxy, Function.update_self]
  rw [StatefulWriter.acknowledged, if_pos ⟨hbase, hchanges⟩]
  have hrequested := hacked.setStatus fun change ↦
    if change.sequenceNumber ∈ acknack.sns.items ∧ change.status = .UNACKNOWLEDGED then .REQUESTED
    else change.status
  rwa [if_pos ⟨hn, rfl⟩] at hrequested

omit [DecidableEq ι] in
private theorem le_last_of_mem (h : StatefulWriter.Valid contents w) (hn : n ∈ w.history) :
    n ≤ w.history.getLast?.getD w.lastCacheChangeSeqNum := by
  cases hlast : w.history.getLast? with
  | none => exact (h.history_le hn).2
  | some last =>
    obtain ⟨init, hinit⟩ := List.getLast?_eq_some_iff.mp hlast
    have hasc := h.ascending
    rw [hinit] at hn hasc
    rcases List.mem_append.mp hn with hold | hnew
    · exact ((List.pairwise_append.mp hasc).2.2 n hold last (List.mem_singleton_self _)).le
    · exact (List.mem_singleton.mp hnew).le

/-- A heartbeat makes the change behind the low mark known, unless it settles it. -/
theorem exists_known (hs : Sane contents (k + 1) s) (hi : i ∈ s.writer.matched_remote_readers)
    (hwritten : s.lowMark i + 1 ∈ s.writer.history) :
    ∃ t, Goes contents rtps_is_relevant 1 s t ∧ (s.lowMark i < t.lowMark i ∨
      t.lowMark i = s.lowMark i ∧ t.writer.proxies = s.writer.proxies ∧
        s.lowMark i + 1 ≤ (t.readers i).reader.proxy.max_sequence_number) := by
  obtain ⟨as, howing⟩ := (hs.inv.linked i).owing
  let s' : Protocol ι α :=
    { s with writer := s.writer.sendHeartbeat.2 }.send i s.writer.sendHeartbeat.1
  have hsend : Goes contents rtps_is_relevant 1 s s' := by
    refine Goes.single (a := .heartbeat i) ?_ rfl le_rfl ⟨rfl, rfl, rfl⟩ rfl
    rw [step, if_pos hi]
  obtain ⟨r, hr⟩ : ∃ r, (s.readers i).step
      (s.writer.sendHeartbeat.1.action (.accepted true)) = some r := ⟨_, rfl⟩
  let t : Protocol ι α := { s' with readers := Function.update s'.readers i r }
  have harrive : Goes contents rtps_is_relevant 0 s' t :=
    Goes.arrive (m := (s.sent i).length) (by simp [s', Protocol.send]) hr
  have hreader : t.readers i = r := Function.update_self ..
  have hcount : (s.readers i).reader.proxy.last_heartbeat_count < nextCount s.writer.heartbeat_count := by
    have hroom := (hs.tally i).heartbeats
    rw [nextCount_eq (by omega)]
    exact Nat.lt_succ_of_le (hs.tally i).heard
  have hknown : s.lowMark i + 1 ≤ r.reader.proxy.max_sequence_number :=
    (le_last_of_mem hs.inv.writer hwritten).trans (known_of_heartbeat howing.valid hcount hr)
  obtain ⟨notified, S, bound, hstep⟩ := Reading.stepped_of_step howing.valid hr
  refine ⟨t, hsend.trans harrive, ?_⟩
  rw [lowMark, lowMark, hreader]
  exact hstep.handled.low_mark_mono.lt_or_eq.imp_right fun heq ↦ ⟨heq.symm, rfl, hknown⟩

/-- A change that is known and not settled is asked for. -/
theorem exists_request (hs : Sane contents (k + 1) s) (hi : i ∈ s.writer.matched_remote_readers)
    (hknown : s.lowMark i + 1 ≤ (s.readers i).reader.proxy.max_sequence_number)
    (hhas : Has (s.writer.proxies i) (s.lowMark i + 1) .UNACKNOWLEDGED) :
    ∃ t, Goes contents rtps_is_relevant 1 s t ∧ t.lowMark i = s.lowMark i ∧
      Has (t.writer.proxies i) (t.lowMark i + 1) .REQUESTED := by
  obtain ⟨as, howing⟩ := (hs.inv.linked i).owing
  have hproxy := howing.valid.proxy
  let acknack : Acknack :=
    { count := nextCount (s.readers i).reader.acknack_count
      sns := (s.readers i).reader.proxy.missingChanges
      final := (s.readers i).reader.proxy.missingChanges.items = [] }
  have hmissing : ∀ n, n ∈ acknack.sns.items ↔ ¬ (s.readers i).reader.proxy.Settled n ∧
      n ≤ (s.readers i).reader.proxy.max_sequence_number ∧ n ≤ s.lowMark i + 256 :=
    fun _ ↦ hproxy.mem_missingChanges
  have hbase : acknack.sns.base = s.lowMark i + 1 := WriterProxy.base_missingChanges
  -- The reader asks for what it misses, the change behind its low mark first.
  obtain ⟨r, hr, hacknacks, hsame⟩ : ∃ r, (s.readers i).step (.acknack false) = some r ∧
      r.acknacks = (s.readers i).acknacks ++ [acknack] ∧
        r.reader.proxy = (s.readers i).reader.proxy := by
    rw [Reading.step, Reading.handle, StatefulReader.sendAcknack, if_pos (.inr rfl)]
    exact ⟨_, rfl, rfl, rfl⟩
  let s' : Protocol ι α := { s with readers := Function.update s.readers i r }
  have hasks : Goes contents rtps_is_relevant 1 s s' := by
    refine Goes.single (a := .acknack i false) ?_ rfl le_rfl ⟨rfl, rfl, rfl⟩ rfl
    simp only [step, stepReader, hr, Option.map_some]
    rfl
  have hasked : s.lowMark i + 1 ∈ acknack.sns.items := by
    refine (hmissing _).mpr ⟨?_, hknown, by omega⟩
    rintro (hle | hmem)
    · exact absurd hle (Nat.lt_succ_self _).not_ge
    · exact (hproxy.above _ hmem).ne rfl
  -- What it asks for arrives: it is not beyond what has been written, and its count is new.
  have hreceived : acknack.sns.max?.getD acknack.sns.base ≤ s.writer.nextSequenceNumber := by
    have hmax : ∀ n ∈ acknack.sns.items, n ≤ s.writer.nextSequenceNumber := fun n hn ↦
      (((hmissing n).mp hn).2.1.trans (hs.tally i).known).trans (Nat.le_succ _)
    cases heq : acknack.sns.max? with
    | none => exact hbase.le.trans (hmax _ hasked)
    | some max => exact hmax max (List.mem_of_getLast? heq)
  have hcount : (s.writer.proxies i).next_expected_acknack_count ≤ acknack.count := by
    have hroom := (hs.tally i).acknacks
    simp only [acknack]
    rw [nextCount_eq (by omega)]
    exact (hs.tally i).expected
  have hrequested := has_processAcknack hs.inv.writer hi hreceived hcount (hbase ▸ Nat.succ_pos _)
    hasked hhas
  obtain ⟨-, hlast, hmatched, -⟩ := hs.inv.writer.processAcknack i acknack
  let t : Protocol ι α := { s' with writer := s.writer.processAcknack i acknack }
  have harrives : Goes contents rtps_is_relevant 0 s' t := by
    refine Goes.single (a := .acknackArrives i (s.readers i).acknacks.length) ?_ rfl le_rfl
      ⟨(sent_processAcknack s.writer i acknack).2, hlast, hmatched⟩ rfl
    simp only [step, s', Function.update_self, hacknacks, List.getElem?_concat_length,
      Option.map_some]
    rfl
  have hlow : t.lowMark i = s.lowMark i := by
    simp only [lowMark, t, s', Function.update_self, hsame]
  refine ⟨t, hasks.trans harrives, hlow, ?_⟩
  rw [hlow]
  exact hrequested

private theorem exists_again (hs : Sane contents (k + 2) s) (hi : i ∈ s.writer.matched_remote_readers)
    (hhas : Has (s.writer.proxies i) (s.lowMark i + 1) .UNACKNOWLEDGED) :
    ∃ t, Goes contents rtps_is_relevant 2 s t ∧ s.lowMark i < t.lowMark i := by
  have hwritten := (hs.inv.writer.fits i hi).listed _ ⟨_, hhas, rfl⟩
  obtain ⟨t, ht, hlt | ⟨hlow, hproxies, hknown⟩⟩ : ∃ t, Goes contents rtps_is_relevant 1 s t ∧
      (s.lowMark i < t.lowMark i ∨ t.lowMark i = s.lowMark i ∧
        t.writer.proxies = s.writer.proxies ∧
          s.lowMark i + 1 ≤ (t.readers i).reader.proxy.max_sequence_number) :=
    exists_known hs hi hwritten
  · exact ⟨t, ht.mono (Nat.le_succ 1), hlt⟩
  rw [← hlow] at hknown hhas ⊢
  rw [← hproxies] at hhas
  have hi' : i ∈ t.writer.matched_remote_readers := ht.writer_eq.2.2 ▸ hi
  have hthen : Sane contents (k + 1) t := ht.sane hs
  obtain ⟨u, hu, hsame, hrequested⟩ : ∃ u, Goes contents rtps_is_relevant 1 t u ∧
      u.lowMark i = t.lowMark i ∧ Has (u.writer.proxies i) (u.lowMark i + 1) .REQUESTED :=
    exists_request hthen hi' hknown hhas
  obtain ⟨v, hv, hlt⟩ := exists_resend (hu.sane hthen) (hu.writer_eq.2.2 ▸ hi') hrequested
  exact ⟨v, (ht.trans hu).trans hv, hsame ▸ hlt⟩

/-- A reader that has not been told of all can be taken one change further, whatever the status of the
change behind its low mark is. -/
theorem exists_further (hs : Sane contents (k + 2) s) (hi : i ∈ s.writer.matched_remote_readers)
    (hlt : s.lowMark i < s.writer.lastCacheChangeSeqNum) :
    ∃ t, Goes contents rtps_is_relevant 2 s t ∧ s.lowMark i < t.lowMark i := by
  by_cases hpending : (s.writer.proxies i).Pending (s.lowMark i + 1)
  case neg =>
    obtain ⟨t, ht, hlow⟩ := exists_gap hs hi hlt hpending
    exact ⟨t, ht.mono (Nat.zero_le 2), hlow⟩
  case pos =>
    obtain ⟨status, hhas⟩ := exists_has hpending
    cases status with
    | UNSENT =>
      obtain ⟨t, ht, hlow⟩ := exists_deliver hs hi hhas
      exact ⟨t, ht.mono (Nat.zero_le 2), hlow⟩
    | REQUESTED =>
      obtain ⟨t, ht, hlow⟩ := exists_resend hs hi hhas
      exact ⟨t, ht.mono (Nat.zero_le 2), hlow⟩
    | UNACKNOWLEDGED => exact exists_again hs hi hhas
    | UNDERWAY =>
      let s' : Protocol ι α := { s with
        writer := s.writer.setProxy i (s.writer.proxies i).performNackSupression }
      have hsupression : Goes contents rtps_is_relevant 0 s s' :=
        Goes.single (a := .nackSupression i) rfl rfl le_rfl ⟨rfl, rfl, rfl⟩ rfl
      have hhas' : Has (s'.writer.proxies i) (s'.lowMark i + 1) .UNACKNOWLEDGED := by
        simp only [s', StatefulWriter.setProxy, Function.update_self]
        exact hhas.setStatus _
      obtain ⟨t, ht, hlow⟩ := exists_again (hsupression.sane hs) hi hhas'
      exact ⟨t, hsupression.trans ht, hlow⟩
    | ACKNOWLEDGED => exact absurd rfl ((hs.inv.writer.fits i hi).unacknowledged _ hhas)

private theorem exists_last (hs : Sane contents (k + 2 * (s.writer.lastCacheChangeSeqNum - s.lowMark i)) s)
    (hi : i ∈ s.writer.matched_remote_readers) :
    ∃ t, Goes contents rtps_is_relevant (2 * (s.writer.lastCacheChangeSeqNum - s.lowMark i)) s t ∧
      s.writer.lastCacheChangeSeqNum ≤ t.lowMark i := by
  -- Induction on how far the reader is behind.
  induction hbehind : s.writer.lastCacheChangeSeqNum - s.lowMark i using Nat.strong_induction_on
    generalizing s with
  | _ behind ih =>
    subst hbehind
    rcases Nat.lt_or_ge (s.lowMark i) s.writer.lastCacheChangeSeqNum with hlt | hge
    · have hroom : Sane contents (k + 2 * (s.writer.lastCacheChangeSeqNum - s.lowMark i - 1) + 2) s :=
        hs.mono (by omega)
      obtain ⟨t, ht, hlow⟩ : ∃ t, Goes contents rtps_is_relevant 2 s t ∧
          s.lowMark i < t.lowMark i := exists_further hroom hi hlt
      have hlast := ht.writer_eq.2.1
      have hrest : Sane contents (k + 2 * (t.writer.lastCacheChangeSeqNum - t.lowMark i)) t :=
        (ht.sane hroom).mono (by omega)
      obtain ⟨u, hu, hle⟩ := ih _ (by omega) hrest (ht.writer_eq.2.2 ▸ hi) rfl
      exact ⟨u, (ht.trans hu).mono (by omega), hlast ▸ hle⟩
    · exact ⟨s, Goes.refl, hge⟩

/-- Nothing that is owed is out of reach: whatever has come before, however much of it has been lost,
as long as the readers keep all and the counts of heartbeats and acknowledgements do not go round, the
protocol can go on from there, without a change being written or removed, until the listener of a
reader has been told of all that the reader is owed. -/
theorem owed_deliverable (hkeeps : AllSteps (step contents rtps_is_relevant) KeepsAll {} as)
    (hs : run (step contents rtps_is_relevant) {} as = some s)
    (hroom : as.countP counts + 2 * s.writer.lastCacheChangeSeqNum < 2 ^ 32) (i : ι) :
    ∃ bs t, run (step contents rtps_is_relevant) s bs = some t ∧ (∀ b ∈ bs, accepts b = true) ∧
      t.writer.changes = s.writer.changes ∧ t.owed = s.owed ∧
      ∀ n ∈ s.owed i, ⟨n, contents n⟩ ∈ (t.readers i).notified := by
  have hnew : Sane contents (2 * s.writer.lastCacheChangeSeqNum + as.countP counts)
      ({} : Protocol ι α) := ⟨inv_new, tally_new (by omega)⟩
  have hsane : Sane contents (2 * s.writer.lastCacheChangeSeqNum) s := hnew.run hkeeps hs
  by_cases hi : i ∈ s.writer.matched_remote_readers
  case pos =>
    have hreach : Sane contents (0 + 2 * (s.writer.lastCacheChangeSeqNum - s.lowMark i)) s :=
      hsane.mono (by omega)
    obtain ⟨t, ht, hlast⟩ : ∃ t, Goes contents rtps_is_relevant
        (2 * (s.writer.lastCacheChangeSeqNum - s.lowMark i)) s t ∧
          s.writer.lastCacheChangeSeqNum ≤ t.lowMark i := exists_last hreach hi
    obtain ⟨bs, hbs, haccepts, -⟩ := ht.run
    have hlinked := (ht.sane hreach).inv.linked i
    obtain ⟨inputs, howing⟩ := hlinked.owing
    refine ⟨bs, t, hbs, haccepts, ht.writer_eq.1, ht.owed_eq, fun n hn ↦ ?_⟩
    have hle := (hsane.inv.linked i).owed_le n hn
    exact howing.mem_notified hle.1 (hle.2.trans hlast) (ht.owed_eq ▸ hn)
  case neg =>
    have hnone := ((hsane.inv.linked i).unmatched hi).1
    refine ⟨[], s, rfl, fun _ h ↦ absurd h List.not_mem_nil, rfl, rfl, fun n hn ↦ ?_⟩
    rw [hnone] at hn
    exact absurd hn List.not_mem_nil

/-- `owed_deliverable` where both of two changes are lost. -/
theorem owed_deliverable_resentRun : ∃ s : Protocol Bool ℕ,
    run (step (fun n ↦ 10 * n) fun _ _ ↦ true) {} (resentRun.take 5) = some s ∧
      (s.readers true).notified = [] ∧ s.owed true = [1, 2] ∧
      ∃ bs t, run (step (fun n ↦ 10 * n) fun _ _ ↦ true) s bs = some t ∧
        (∀ b ∈ bs, accepts b = true) ∧ ∀ n ∈ s.owed true, ⟨n, 10 * n⟩ ∈ (t.readers true).notified := by
  obtain ⟨s, hs, hnotified, howed, hlast⟩ : ∃ s : Protocol Bool ℕ,
    run (step (fun n ↦ 10 * n) fun _ _ ↦ true) {} (resentRun.take 5) = some s ∧
      (s.readers true).notified = [] ∧ s.owed true = [1, 2] ∧ s.writer.lastCacheChangeSeqNum = 2 :=
    ⟨_, rfl, rfl, rfl, rfl⟩
  have haccepts : ∀ a ∈ resentRun.take 5, accepts a = true := by decide
  have hkeeps : AllSteps (step (fun n ↦ 10 * n) fun _ _ ↦ true) KeepsAll {} (resentRun.take 5) :=
    fun bs a t t' hbs _ _ ↦ keepsAll_of_accepts
      (haccepts a (hbs.subset (List.mem_append_right bs (List.mem_singleton_self a))))
  have hroom : (resentRun.take 5).countP counts + 2 * s.writer.lastCacheChangeSeqNum < 2 ^ 32 := by
    rw [hlast]
    decide
  obtain ⟨bs, t, hbs, hall, -, -, hdelivered⟩ := owed_deliverable hkeeps hs hroom true
  exact ⟨s, hs, hnotified, howed, bs, t, hbs, hall, hdelivered⟩

end Protocol

end HzjDds.Rtps
