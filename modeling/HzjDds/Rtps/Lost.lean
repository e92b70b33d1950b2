import HzjDds.Rtps.Reading

/-!
# The samples that a reader reports lost

Library `Rtps`. Source: `vendor/Fast-DDS/src/cpp/rtps/reader/WriterProxy.cpp` (231–275, 562–625) and
`StatefulReader.cpp` (879–990). The number of lost samples is a difference of sequence numbers, less
what has been received out of order. It is the number of the changes that the writer no longer had
when the reader missed them, each counted once; the first heartbeat reports none.
-/

namespace HzjDds.Rtps

open HzjDds.Cpp HzjDds.Transition

universe u

/-- What a reader knows of the heartbeats of a writer. -/
def WriterProxy.heartbeats (p : WriterProxy) : ℕ × Bool :=
  (p.last_heartbeat_count, p.received_at_least_one_heartbeat)

namespace StatefulReader

variable {α : Type u}

private theorem heartbeats_nextCacheChange (p : WriterProxy) :
    p.nextCacheChangeToBeNotified.2.heartbeats = p.heartbeats := by
  rw [WriterProxy.nextCacheChangeToBeNotified]
  split <;> rfl

private theorem heartbeats_skipNotified (seq fuel : ℕ) (p : WriterProxy) :
    (skipNotified seq fuel p).2.heartbeats = p.heartbeats := by
  induction fuel generalizing p with
  | zero => exact heartbeats_nextCacheChange p
  | succ fuel ih =>
    have hnext := heartbeats_nextCacheChange p
    rw [skipNotified]
    split
    · next heq => rwa [heq] at hnext
    · next heq =>
      rw [heq] at hnext
      split
      · exact (ih _).trans hnext
      · exact hnext

private theorem heartbeats_notifyFrom (max_seq : ℕ) (changes : List (CacheChange α)) (next : Option ℕ)
    (p : WriterProxy) : (notifyFrom max_seq changes next p).2.heartbeats = p.heartbeats := by
  induction changes generalizing next p with
  | nil => cases next <;> rfl
  | cons change rest ih =>
    cases next with
    | none => rfl
    | some next =>
      rw [notifyFrom]
      split
      · exact ih (some next) p
      split
      · exact (ih _ _).trans (heartbeats_skipNotified ..)
      · rfl

/-- `NotifyChanges` leaves alone what is known of the heartbeats. -/
@[simp] theorem heartbeats_notifyChanges (r : StatefulReader α) :
    r.notifyChanges.2.proxy.heartbeats = r.proxy.heartbeats := by
  have hloop := heartbeats_notifyFrom r.proxy.changes_from_writer_low_mark r.changes
    r.proxy.nextCacheChangeToBeNotified.1 r.proxy.nextCacheChangeToBeNotified.2
  refine Eq.trans ?_ (hloop.trans (heartbeats_nextCacheChange r.proxy))
  simp only [notifyChanges, WriterProxy.considerAllNotified]
  split <;> rfl

end StatefulReader

namespace Reading

variable {α : Type u} {s t : Reading α} {a : ReaderAction α} {as : List (ReaderAction α)} {n : ℕ}

/-- The first change of the heartbeat, if it is one that a new reader takes in. -/
def firstSeq : ReaderAction α → Option ℕ
  | .heartbeat count first_seq _ => if 0 < count then some first_seq else none
  | _ => none

/-- The first change of the first heartbeat that is taken in. -/
def firstHeartbeat (as : List (ReaderAction α)) : Option ℕ := as.findSome? firstSeq

private theorem heartbeats_of_adds {p p' : WriterProxy} {S : ℕ → Prop} {k : ℕ}
    (h : WriterProxy.Adds p p' S k) : p'.heartbeats = p.heartbeats :=
  Prod.ext h.count_eq h.heard_eq

/-- What is no heartbeat does not change what is known of the heartbeats, and loses nothing. -/
theorem heartbeats_of_step (h : s.reader.Valid) (hs : s.step a = some t)
    (ha : ∀ count first_seq last_seq, a ≠ .heartbeat count first_seq last_seq) :
    t.reader.proxy.heartbeats = s.reader.proxy.heartbeats ∧
      t.lost = s.lost ∧ t.lost_changes = s.lost_changes := by
  obtain ⟨⟨lost, notified, acknack, reader⟩, hhandle, rfl⟩ := Option.map_eq_some_iff.mp hs
  cases a with
  | data change reception =>
    cases hhandle
    refine ⟨?_, rfl, Finset.union_empty _⟩
    have hadds : WriterProxy.Adds s.reader.proxy
        (s.reader.proxy.receivedChangeSet change.sequenceNumber).2
        (· = change.sequenceNumber) change.sequenceNumber := h.proxy.receivedChangeSet.1
    simp only [StatefulReader.processDataMsg]
    split
    · rfl
    cases reception with
    | rejected => rfl
    | accepted stored =>
      exact (StatefulReader.heartbeats_notifyChanges _).trans (heartbeats_of_adds hadds)
    | irrelevant =>
      exact (StatefulReader.heartbeats_notifyChanges _).trans (heartbeats_of_adds hadds)
  | heartbeat count first_seq last_seq => exact absurd rfl (ha count first_seq last_seq)
  | gap gap_start gap_list =>
    cases hhandle
    refine ⟨?_, rfl, Finset.union_empty _⟩
    obtain ⟨ns, -, hadds⟩ := h.proxy.processGap gap_start gap_list
    simp only [StatefulReader.processGapMsg]
    split
    · rfl
    · exact (StatefulReader.heartbeats_notifyChanges _).trans (heartbeats_of_adds hadds)
  | acknack heartbeat_was_final =>
    obtain ⟨sent, hsent, heq⟩ := Option.map_eq_some_iff.mp hhandle
    cases heq
    rw [StatefulReader.sendAcknack] at hsent
    split at hsent <;> cases hsent
    exact ⟨rfl, rfl, Finset.union_empty _⟩
  | initialAcknack =>
    obtain ⟨sent, hsent, heq⟩ := Option.map_eq_some_iff.mp hhandle
    cases heq
    rw [StatefulReader.sendInitialAcknack] at hsent
    split at hsent <;> cases hsent
    exact ⟨rfl, rfl, Finset.union_empty _⟩
  | remove seq =>
    cases hhandle
    exact ⟨rfl, rfl, Finset.union_empty _⟩

private theorem heartbeats_processHeartbeat {p p' : WriterProxy} (h : p.Valid)
    {count first_seq last_seq lost : ℕ}
    (hp : p.processHeartbeat count first_seq last_seq = some (lost, p')) :
    p'.heartbeats = (count, true) := by
  rw [WriterProxy.processHeartbeat] at hp
  split at hp
  · cases hp
    have hvalid : WriterProxy.Valid { p with last_heartbeat_count := count } :=
      ⟨h.ascending, h.above, h.below, h.low_le, h.notified_le⟩
    have hlost := (@WriterProxy.Valid.lostChangesUpdate _ first_seq hvalid).1
    have hboth := hlost.trans (@WriterProxy.Valid.missingChangesUpdate _ last_seq hlost.valid)
    exact Prod.ext hboth.count_eq rfl
  · contradiction

/-- A heartbeat that is not newer than the last one is ignored; another one loses what it passes over,
unless it is the first. -/
theorem heartbeats_of_heartbeat (h : s.reader.Valid) {count first_seq last_seq : ℕ}
    (hs : s.step (.heartbeat count first_seq last_seq) = some t) :
    (count ≤ s.reader.proxy.last_heartbeat_count ∧
        t.reader.proxy = s.reader.proxy ∧ t.lost = s.lost ∧ t.lost_changes = s.lost_changes) ∨
      s.reader.proxy.last_heartbeat_count < count ∧
        t.reader.proxy.heartbeats = (count, true) ∧
        (∀ n, t.reader.proxy.Settled n ↔ s.reader.proxy.Settled n ∨ n < first_seq) ∧
        if s.reader.proxy.received_at_least_one_heartbeat then
          t.lost = s.lost + min (s.reader.proxy.unsettled first_seq).card int32Max ∧
            t.lost_changes = s.lost_changes ∪ s.reader.proxy.unsettled first_seq
        else t.lost = s.lost ∧ t.lost_changes = s.lost_changes := by
  obtain ⟨⟨lost, notified, acknack, reader⟩, hhandle, rfl⟩ := Option.map_eq_some_iff.mp hs
  cases hhandle
  simp only [lostBy, StatefulReader.processHeartbeatMsg]
  split
  · next hignored =>
    rw [WriterProxy.processHeartbeat] at hignored
    split at hignored
    · contradiction
    · next hold =>
      refine .inl ⟨not_lt.mp hold, rfl, rfl, ?_⟩
      rw [if_neg fun hnew ↦ hold hnew.1, Finset.union_empty]
  · next lost' proxy hproxy =>
    obtain ⟨hvalid, hsettled, -, -, hnew, -, hlost⟩ := h.proxy.processHeartbeat hproxy
    have hnotify := @StatefulReader.notifyChanges_eq _ { s.reader with proxy } h.ascending
      hvalid.notified_le
    refine .inr ⟨hnew, ?_, fun n ↦ ?_, ?_⟩
    · exact (StatefulReader.heartbeats_notifyChanges _).trans
        (heartbeats_processHeartbeat h.proxy hproxy)
    · simp only [hnotify]
      exact hsettled n
    · split
      · next hheard => simp only [hlost, hheard, hnew, and_self, if_true]
      · next hheard => simp only [hlost, hheard, and_false, if_false, Finset.union_empty,
          Nat.add_zero, and_self, Bool.false_eq_true]

/-! ## Whole runs -/

/-- A message, but not a heartbeat, settles a change. -/
def SettledBy (as : List (ReaderAction α)) (n : ℕ) : Prop :=
  ∃ a ∈ as, (∀ count first_seq last_seq, a ≠ .heartbeat count first_seq last_seq) ∧ a.Settles n

/-- What a reader has reported lost after some actions. -/
structure Counted (as : List (ReaderAction α)) (s : Reading α) : Prop where
  sound : Sound as s
  heard : s.reader.proxy.received_at_least_one_heartbeat = (firstHeartbeat as).isSome
  unheard : s.reader.proxy.received_at_least_one_heartbeat = false →
    s.reader.proxy.last_heartbeat_count = 0
  lost_eq : s.lost = s.lost_changes.card
  settled : ∀ n ∈ s.lost_changes, s.reader.proxy.Settled n
  missed : ∀ change ∈ s.stored, change.sequenceNumber ∉ s.lost_changes
  accounted : ∀ n, 1 ≤ n → s.reader.proxy.Settled n →
    n ∈ s.lost_changes ∨ SettledBy as n ∨ ∃ first_seq ∈ firstHeartbeat as, n < first_seq

/-- What is settled by a message stays so. -/
theorem SettledBy.append (h : SettledBy as n) : SettledBy (as ++ [a]) n := by
  obtain ⟨b, hb, hsettles⟩ := h
  exact ⟨b, List.mem_append_left [a] hb, hsettles⟩

private theorem firstHeartbeat_concat :
    firstHeartbeat (as ++ [a]) = (firstHeartbeat as).or (firstSeq a) := by
  simp only [firstHeartbeat, List.findSome?_append, List.findSome?_cons, List.findSome?_nil]
  cases firstSeq a <;> rfl

private theorem mem_firstHeartbeat_concat {first_seq : ℕ} (h : first_seq ∈ firstHeartbeat as) :
    first_seq ∈ firstHeartbeat (as ++ [a]) := by
  rw [firstHeartbeat_concat, Option.mem_def, Option.mem_def.mp h, Option.some_or]

private theorem Counted.accounted_concat (h : Counted as s) (hn : 1 ≤ n)
    (hsettled : s.reader.proxy.Settled n) (hlost : s.lost_changes ⊆ t.lost_changes) :
    n ∈ t.lost_changes ∨ SettledBy (as ++ [a]) n ∨
      ∃ first_seq ∈ firstHeartbeat (as ++ [a]), n < first_seq := by
  rcases h.accounted n hn hsettled with hmem | hby | ⟨first_seq, hfirst, hlt⟩
  · exact .inl (hlost hmem)
  · exact .inr (.inl hby.append)
  · exact .inr (.inr ⟨first_seq, mem_firstHeartbeat_concat hfirst, hlt⟩)

/-- A step that loses nothing keeps it. -/
theorem Counted.step_of_eq (h : Counted as s) (hs : s.step a = some t)
    (hheartbeats : t.reader.proxy.heartbeats = s.reader.proxy.heartbeats) (hlost : t.lost = s.lost)
    (hchanges : t.lost_changes = s.lost_changes)
    (hfirst : (firstHeartbeat (as ++ [a])).isSome = (firstHeartbeat as).isSome)
    (hby : ∀ n, t.reader.proxy.Settled n → s.reader.proxy.Settled n ∨ SettledBy (as ++ [a]) n) :
    Counted (as ++ [a]) t := by
  obtain ⟨notified, S, bound, hstep⟩ := stepped_of_step h.sound.valid hs
  obtain ⟨hcount, hheard⟩ := Prod.mk.inj hheartbeats
  constructor
  case sound => exact h.sound.step hs
  case heard => rw [hheard, hfirst, h.heard]
  case unheard =>
    rw [hheard, hcount]
    exact h.unheard
  case lost_eq => rw [hlost, hchanges, h.lost_eq]
  case settled =>
    rw [hchanges]
    exact fun n hn ↦ hstep.handled.mono (h.settled n hn)
  case missed =>
    intro change hchange
    rw [hstep.stored_eq, List.mem_append] at hchange
    rw [hchanges]
    rcases hchange with hold | hnew
    · exact h.missed change hold
    · exact fun hmem ↦ (mem_storedBy.mp hnew).2 (h.settled _ hmem)
  case accounted =>
    intro n hn hsettled
    rcases hby n hsettled with hold | hnew
    · exact h.accounted_concat hn hold hchanges.ge
    · exact .inr (.inl hnew)

/-- A heartbeat that is taken in keeps it. -/
theorem Counted.step_heartbeat (h : Counted as s) {count first_seq last_seq : ℕ}
    (hfits : (s.lostBy (.heartbeat count first_seq last_seq)).card ≤ int32Max)
    (hs : s.step (.heartbeat count first_seq last_seq) = some t)
    (hnew : s.reader.proxy.last_heartbeat_count < count)
    (hheartbeats : t.reader.proxy.heartbeats = (count, true))
    (hsettled : ∀ n, t.reader.proxy.Settled n ↔ s.reader.proxy.Settled n ∨ n < first_seq)
    (hlost : if s.reader.proxy.received_at_least_one_heartbeat then
        t.lost = s.lost + min (s.reader.proxy.unsettled first_seq).card int32Max ∧
          t.lost_changes = s.lost_changes ∪ s.reader.proxy.unsettled first_seq
      else t.lost = s.lost ∧ t.lost_changes = s.lost_changes) :
    Counted (as ++ [.heartbeat count first_seq last_seq]) t := by
  obtain ⟨notified, S, bound, hstep⟩ := stepped_of_step h.sound.valid hs
  obtain ⟨hcount, hheard⟩ := Prod.mk.inj hheartbeats
  have hsound := h.sound.step hs
  have hstored : t.stored = s.stored := hstep.stored_eq.trans (List.append_nil _)
  have hfirst : firstSeq (.heartbeat count first_seq last_seq : ReaderAction α) = some first_seq :=
    if_pos (Nat.zero_lt_of_lt hnew)
  have hisSome : t.reader.proxy.received_at_least_one_heartbeat =
      (firstHeartbeat (as ++ [.heartbeat count first_seq last_seq])).isSome := by
    rw [hheard, firstHeartbeat_concat, hfirst, Option.isSome_or, Option.isSome_some, Bool.or_true]
  have hunheard : t.reader.proxy.received_at_least_one_heartbeat = false →
      t.reader.proxy.last_heartbeat_count = 0 := by simp [hheard]
  split at hlost
  · next hbefore =>
    obtain ⟨hlost, hchanges⟩ := hlost
    rw [lostBy, if_pos ⟨hnew, hbefore⟩] at hfits
    have hdisjoint : Disjoint s.lost_changes (s.reader.proxy.unsettled first_seq) :=
      Finset.disjoint_left.mpr fun n hn hmem ↦ (Finset.mem_filter.mp hmem).2 (h.settled n hn)
    constructor
    case sound => exact hsound
    case heard => exact hisSome
    case unheard => exact hunheard
    case lost_eq =>
      rw [hlost, hchanges, Finset.card_union_of_disjoint hdisjoint, min_eq_left hfits, h.lost_eq]
    case settled =>
      intro n hn
      rw [hchanges, Finset.mem_union] at hn
      rw [hsettled]
      refine hn.imp (h.settled n) fun hmem ↦ ?_
      exact Finset.mem_range.mp (Finset.mem_filter.mp hmem).1
    case missed =>
      intro change hchange hmem
      rw [hstored] at hchange
      rw [hchanges, Finset.mem_union] at hmem
      rcases hmem with hmem | hmem
      · exact h.missed change hchange hmem
      · exact (Finset.mem_filter.mp hmem).2 (h.sound.stored change hchange).2.2
    case accounted =>
      intro n hn hn'
      by_cases hold : s.reader.proxy.Settled n
      · exact h.accounted_concat hn hold (hchanges ▸ Finset.subset_union_left)
      · left
        have hlt : n < first_seq := ((hsettled n).mp hn').resolve_left hold
        rw [hchanges, Finset.mem_union]
        exact .inr (Finset.mem_filter.mpr ⟨Finset.mem_range.mpr hlt, hold⟩)
  · next hbefore =>
    obtain ⟨hlost, hchanges⟩ := hlost
    have hnone : firstHeartbeat as = none := by
      rw [← Option.not_isSome_iff_eq_none, ← h.heard]
      exact hbefore
    constructor
    case sound => exact hsound
    case heard => exact hisSome
    case unheard => exact hunheard
    case lost_eq => rw [hlost, hchanges, h.lost_eq]
    case settled =>
      rw [hchanges]
      exact fun n hn ↦ hstep.handled.mono (h.settled n hn)
    case missed =>
      rw [hchanges, hstored]
      exact h.missed
    case accounted =>
      intro n hn hn'
      by_cases hold : s.reader.proxy.Settled n
      · exact h.accounted_concat hn hold hchanges.ge
      · have hlt : n < first_seq := ((hsettled n).mp hn').resolve_left hold
        refine .inr (.inr ⟨first_seq, ?_, hlt⟩)
        rw [firstHeartbeat_concat, hnone, hfirst]
        rfl

/-- A step whose number of lost samples fits keeps it. -/
theorem Counted.step (h : Counted as s) (hfits : (s.lostBy a).card ≤ int32Max)
    (hs : s.step a = some t) : Counted (as ++ [a]) t := by
  obtain ⟨notified, S, bound, hstep⟩ := stepped_of_step h.sound.valid hs
  by_cases ha : ∀ count first_seq last_seq, a ≠ .heartbeat count first_seq last_seq
  · obtain ⟨hheartbeats, hlost, hchanges⟩ := heartbeats_of_step h.sound.valid hs ha
    refine h.step_of_eq hs hheartbeats hlost hchanges ?_ fun n hn ↦ ?_
    · have hnone : firstSeq a = none := by
        cases a with
        | heartbeat count first_seq last_seq => exact absurd rfl (ha count first_seq last_seq)
        | _ => rfl
      rw [firstHeartbeat_concat, hnone, Option.or_none]
    · refine ((hstep.handled.settled n).mp hn).imp_right fun hS ↦ ?_
      exact ⟨a, List.mem_append_right as (List.mem_singleton_self a), ha, hstep.settles n hS⟩
  · push Not at ha
    obtain ⟨count, first_seq, last_seq, rfl⟩ := ha
    rcases heartbeats_of_heartbeat h.sound.valid hs with
      ⟨hold, hproxy, hlost, hchanges⟩ | ⟨hnew, hheartbeats, hsettled, hlost⟩
    · refine h.step_of_eq hs (congrArg _ hproxy) hlost hchanges ?_ fun n hn ↦ .inl (hproxy ▸ hn)
      rw [firstHeartbeat_concat, Option.isSome_or, ← h.heard]
      cases hheard : s.reader.proxy.received_at_least_one_heartbeat with
      | true => rfl
      | false =>
        have hzero := h.unheard hheard
        rw [firstSeq, if_neg (by omega)]
        rfl
    · exact h.step_heartbeat hfits hs hnew hheartbeats hsettled hlost

private theorem counted_run (hfits : AllSteps step (fun s a ↦ (s.lostBy a).card ≤ int32Max) {} as)
    (hs : run step {} as = some s) : Counted as s := by
  induction as using List.reverseRecOn generalizing s with
  | nil =>
    cases hs
    refine ⟨sound_new, rfl, fun _ ↦ rfl, rfl, ?_, fun _ h ↦ absurd h List.not_mem_nil, ?_⟩
    · exact fun n hn ↦ absurd hn (Finset.notMem_empty n)
    · rintro n hn (hle | hmem)
      · exact absurd hle (Nat.not_le.mpr hn)
      · exact absurd hmem List.not_mem_nil
  | append_singleton as a ih =>
    obtain ⟨m, hm, hlast⟩ := run_concat_eq_some.mp hs
    have hbefore := ih (hfits.of_prefix (List.prefix_append as [a])) hm
    exact hbefore.step (hfits as a m s (List.prefix_refl _) hm hlast) hlast

/-- The samples that are reported lost are counted exactly, as long as each report fits into 32 bits:
there are as many as changes that heartbeats have taken away, none of which has been stored, before or
after. No change is given up silently: what is settled has been lost in this way, has been settled by
a change or a gap, or was gone when the first heartbeat came. -/
theorem lost_accounted (hfits : AllSteps step (fun s a ↦ (s.lostBy a).card ≤ int32Max) {} as)
    (hs : run step {} as = some s) :
    s.lost = s.lost_changes.card ∧
      (∀ change ∈ s.stored, change.sequenceNumber ∉ s.lost_changes) ∧
      (∀ n ∈ s.lost_changes, s.reader.proxy.Settled n) ∧
      ∀ n, 1 ≤ n → s.reader.proxy.Settled n →
        n ∈ s.lost_changes ∨ SettledBy as n ∨ ∃ first_seq ∈ firstHeartbeat as, n < first_seq := by
  have h := counted_run hfits hs
  exact ⟨h.lost_eq, h.missed, h.settled, h.accounted⟩

/-- A heartbeat takes away the first four changes; one of them has come, another comes too late. -/
def lossRun : List (ReaderAction ℕ) :=
  [.heartbeat 1 2 4, .data ⟨3, 30⟩ (.accepted true), .heartbeat 2 5 6,
    .data ⟨4, 40⟩ (.accepted true), .heartbeat 2 7 7]

/-- `lost_accounted` where two samples are lost. -/
theorem lost_accounted_lossRun : ∃ s : Reading ℕ, run step {} lossRun = some s ∧
    s.lost = 2 ∧ s.lost_changes = {2, 4} ∧ s.lost = s.lost_changes.card := by
  obtain ⟨s, hs, hlost, hchanges⟩ : ∃ s : Reading ℕ, run step {} lossRun = some s ∧
    s.lost = 2 ∧ s.lost_changes = {2, 4} := ⟨_, rfl, rfl, by decide⟩
  have hfits : AllSteps step (fun s a ↦ (s.lostBy a).card ≤ int32Max) {} lossRun := by decide
  exact ⟨s, hs, hlost, hchanges, (lost_accounted hfits hs).1⟩

end Reading

end HzjDds.Rtps
