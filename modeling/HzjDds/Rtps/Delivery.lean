import HzjDds.Rtps.Reading

/-!
# What a reader has acknowledged has been delivered

Library `Rtps`. Source: `vendor/Fast-DDS/src/cpp/rtps/reader/StatefulReader.cpp` (568–704, 879–990,
1091–1317, 1588–1691) and `WriterProxy.cpp` (171–573). A history that does not remove what the
listener has not been told of delivers all that it stores. If moreover the writer tells the truth, and
neither drops nor skips a change that it owes the reader before this is settled there, then the
listener is told of every owed change that is acknowledged.
-/

namespace HzjDds.Rtps

open HzjDds.Cpp HzjDds.Transition

universe u

namespace Reading

variable {α : Type u} {s t : Reading α} {a : ReaderAction α} {as : List (ReaderAction α)} {n : ℕ}
  {change : CacheChange α}

/-! ## What is stored is delivered -/

/-- The history removes only what the listener has been told of. -/
def Keeps (s : Reading α) (a : ReaderAction α) : Prop :=
  ∀ seq, a = .remove seq → seq ≤ s.reader.proxy.changes_from_writer_low_mark

/-- What is stored is still in the history, or the listener has been told of it. -/
structure Kept (as : List (ReaderAction α)) (s : Reading α) : Prop extends Sound as s where
  waiting : ∀ change ∈ s.stored,
    s.reader.proxy.changes_from_writer_low_mark < change.sequenceNumber → change ∈ s.reader.changes
  told : ∀ change ∈ s.stored,
    change.sequenceNumber ≤ s.reader.proxy.changes_from_writer_low_mark → change ∈ s.notified

/-- A step that removes nothing too early keeps it. -/
theorem Kept.step (h : Kept as s) (hkeeps : s.Keeps a) (hs : s.step a = some t) :
    Kept (as ++ [a]) t := by
  obtain ⟨notified, S, bound, hstep⟩ := stepped_of_step h.valid hs
  have hhandled := hstep.handled
  have hmono := hhandled.low_mark_mono
  have hwaiting : ∀ change ∈ t.stored,
      s.reader.proxy.changes_from_writer_low_mark < change.sequenceNumber →
        change ∈ t.reader.changes := by
    intro change hchange hlt
    rw [hstep.stored_eq, List.mem_append] at hchange
    refine (hstep.mem_changes change).mpr (hchange.imp_left fun hold ↦ ?_)
    refine ⟨h.waiting change hold hlt, fun hremove ↦ ?_⟩
    exact (hkeeps _ hremove).not_gt hlt
  constructor
  case toSound => exact h.toSound.step hs
  case waiting => exact fun change hchange hlt ↦ hwaiting change hchange (hmono.trans_lt hlt)
  case told =>
    intro change hchange hle
    rw [hstep.notified_eq, List.mem_append]
    by_cases hlt : s.reader.proxy.changes_from_writer_low_mark < change.sequenceNumber
    · exact .inr (hhandled.mem_notified.mpr ⟨hwaiting change hchange hlt, hlt, hle⟩)
    · left
      refine h.told change ?_ (not_lt.mp hlt)
      rw [hstep.stored_eq, List.mem_append] at hchange
      -- A change that is stored now was not settled before, so it is not below the old low mark.
      exact hchange.resolve_right fun hnew ↦ (mem_storedBy.mp hnew).2 (.inl (not_lt.mp hlt))

private theorem kept_run (hkeeps : AllSteps step Keeps {} as) (hs : run step {} as = some s) :
    Kept as s := by
  induction as using List.reverseRecOn generalizing s with
  | nil =>
    cases hs
    exact ⟨sound_new, fun _ h ↦ absurd h List.not_mem_nil, fun _ h ↦ absurd h List.not_mem_nil⟩
  | append_singleton as a ih =>
    obtain ⟨m, hm, hlast⟩ := run_concat_eq_some.mp hs
    have hbefore : Kept as m := ih (hkeeps.of_prefix (List.prefix_append as [a])) hm
    exact hbefore.step (hkeeps as a m s (List.prefix_refl _) hm hlast) hlast

/-- No change that is stored is skipped, late or early: the listener has been told of it exactly if all
changes up to it are settled. -/
theorem notified_iff (hkeeps : AllSteps step Keeps {} as) (hs : run step {} as = some s) :
    change ∈ s.notified ↔
      change ∈ s.stored ∧ ∀ m ≤ change.sequenceNumber, s.reader.proxy.Settled m := by
  have h := kept_run hkeeps hs
  rw [← h.valid.proxy.le_low_mark_iff]
  constructor
  · exact fun hchange ↦ ⟨h.notified change hchange, h.below change hchange⟩
  · exact fun ⟨hstored, hle⟩ ↦ h.told change hstored hle

/-- A run as `lateRun`, in which the history removes a change after the listener has been told of it. -/
def keepingRun : List (ReaderAction ℕ) := lateRun ++ [.remove 1]

private theorem keeps_keepingRun : AllSteps step Keeps ({} : Reading ℕ) keepingRun := by
  simp only [keepingRun, lateRun, List.cons_append, List.nil_append]
  repeat' first
    | exact allSteps_nil
    | refine allSteps_cons.mpr fun t ht ↦ ⟨by rintro seq ⟨⟩ <;> decide, ?_⟩; cases ht

/-- `notified_iff` where both changes that are stored are told. -/
theorem notified_iff_keepingRun : ∃ s : Reading ℕ, run step {} keepingRun = some s ∧
    s.stored = [⟨2, 20⟩, ⟨1, 10⟩] ∧ ∀ change, change ∈ s.notified ↔
      change ∈ s.stored ∧ ∀ m ≤ change.sequenceNumber, s.reader.proxy.Settled m := by
  obtain ⟨s, hs, hstored⟩ : ∃ s : Reading ℕ, run step {} keepingRun = some s ∧
    s.stored = [⟨2, 20⟩, ⟨1, 10⟩] := ⟨_, rfl, rfl⟩
  exact ⟨s, hs, hstored, fun _ ↦ notified_iff keeps_keepingRun hs⟩

/-! ## What is owed is delivered -/

/-- What a writer says that has the changes `written` and owes the reader some of them: a message has
the contents of its change, and no heartbeat or gap passes over a change that is owed and not settled
yet. The reader takes the changes that are owed, sooner or later. -/
def Honest (written : ℕ → α) (owed : ℕ → Prop) (s : Reading α) : ReaderAction α → Prop
  | .data change reception => change.serializedPayload = written change.sequenceNumber ∧
      (owed change.sequenceNumber → reception = .accepted true ∨ reception = .rejected)
  | .heartbeat count first_seq last_seq => ∀ n, owed n →
      (ReaderAction.heartbeat count first_seq last_seq : ReaderAction α).Settles n →
        s.reader.proxy.Settled n
  | .gap gap_start gap_list => ∀ n, owed n →
      (ReaderAction.gap gap_start gap_list : ReaderAction α).Settles n → s.reader.proxy.Settled n
  | .remove seq => seq ≤ s.reader.proxy.changes_from_writer_low_mark
  | _ => True

variable {written : ℕ → α} {owed : ℕ → Prop}

/-- An honest run removes nothing too early. -/
theorem Honest.keeps (h : s.Honest written owed a) : s.Keeps a := by
  rintro seq rfl
  exact h

/-- What is owed and settled is stored, with its contents. -/
structure Owing (written : ℕ → α) (owed : ℕ → Prop) (as : List (ReaderAction α)) (s : Reading α) :
    Prop extends Kept as s where
  contents : ∀ change ∈ s.stored, change.serializedPayload = written change.sequenceNumber
  owing : ∀ n, 1 ≤ n → owed n → s.reader.proxy.Settled n → ⟨n, written n⟩ ∈ s.stored

/-- An honest step keeps it. -/
theorem Owing.step (h : Owing written owed as s) (hhonest : s.Honest written owed a)
    (hs : s.step a = some t) : Owing written owed (as ++ [a]) t := by
  obtain ⟨notified, S, bound, hstep⟩ := stepped_of_step h.valid hs
  constructor
  case toKept => exact h.toKept.step hhonest.keeps hs
  case contents =>
    intro change hchange
    rw [hstep.stored_eq, List.mem_append] at hchange
    rcases hchange with hold | hnew
    · exact h.contents change hold
    · obtain ⟨rfl, -⟩ := mem_storedBy.mp hnew
      exact hhonest.1
  case owing =>
    intro n hn howed hsettled
    rw [hstep.stored_eq, List.mem_append]
    by_cases hold : s.reader.proxy.Settled n
    · exact .inl (h.owing n hn howed hold)
    right
    have hnew : a.Settles n :=
      hstep.settles n (((hstep.handled.settled n).mp hsettled).resolve_left hold)
    -- Only a change itself settles what is owed, and then it is accepted.
    cases a with
    | data change reception =>
      obtain ⟨rfl, haccepted⟩ := hnew
      obtain rfl := (hhonest.2 howed).resolve_right haccepted
      refine mem_storedBy.mpr ⟨?_, hold⟩
      rw [← hhonest.1]
    | heartbeat count first_seq last_seq => exact absurd (hhonest n howed hnew) hold
    | gap gap_start gap_list => exact absurd (hhonest n howed hnew) hold
    | acknack | initialAcknack | remove => exact hnew.elim

/-- It holds after every honest run. -/
theorem owing_run (hhonest : AllSteps step (Honest written owed) {} as)
    (hs : run step {} as = some s) : Owing written owed as s := by
  induction as using List.reverseRecOn generalizing s with
  | nil =>
    cases hs
    refine ⟨kept_run allSteps_nil rfl, fun _ h ↦ absurd h List.not_mem_nil, ?_⟩
    rintro n hn - (hle | hmem)
    · exact absurd hle (Nat.not_le.mpr hn)
    · exact absurd hmem List.not_mem_nil
  | append_singleton as a ih =>
    obtain ⟨m, hm, hlast⟩ := run_concat_eq_some.mp hs
    have hbefore := ih (hhonest.of_prefix (List.prefix_append as [a])) hm
    exact hbefore.step (hhonest as a m s (List.prefix_refl _) hm hlast) hlast

/-- What is owed, up to the low mark, has been told. -/
theorem Owing.mem_notified (h : Owing written owed as s) (hn : 1 ≤ n)
    (hle : n ≤ s.reader.proxy.changes_from_writer_low_mark) (howed : owed n) :
    ⟨n, written n⟩ ∈ s.notified :=
  h.told ⟨n, written n⟩ (h.owing n hn howed (.inl hle)) hle

/-- The listener has been told of what is owed up to the low mark, in order. -/
theorem Owing.filter_notified [DecidablePred owed] (h : Owing written owed as s) :
    s.notified.filter (owed ·.sequenceNumber) =
      ((List.range' 1 s.reader.proxy.changes_from_writer_low_mark).filter owed).map
        (fun n ↦ ⟨n, written n⟩) := by
  apply Ascending.eq_of_mem_iff (h.ascending.sublist List.filter_sublist)
  · refine List.pairwise_map.mpr (List.Pairwise.filter _ ?_)
    exact List.pairwise_lt_range'
  · rintro ⟨n, payload⟩
    simp only [List.mem_filter, List.mem_map, List.mem_range'_1, decide_eq_true_eq,
      CacheChange.mk.injEq]
    constructor
    · rintro ⟨hchange, howed⟩
      have hpos : 1 ≤ n := (h.stored _ (h.notified _ hchange)).2.1
      have hle : n ≤ s.reader.proxy.changes_from_writer_low_mark := h.below _ hchange
      have hcontents := h.contents _ (h.notified _ hchange)
      exact ⟨n, ⟨⟨hpos, by omega⟩, howed⟩, rfl, hcontents.symm⟩
    · rintro ⟨m, ⟨⟨hpos, hlt⟩, howed⟩, rfl, rfl⟩
      exact ⟨h.mem_notified hpos (by omega) howed, howed⟩

/-- Reliable delivery: in an honest run the listener has been told of the changes that are owed, up to
the low mark, each once, in order and with the contents that were written; and the low mark is where
the acknowledgements sent have come to, or beyond. -/
theorem delivered_owed [DecidablePred owed] (hhonest : AllSteps step (Honest written owed) {} as)
    (hs : run step {} as = some s) :
    s.notified.filter (owed ·.sequenceNumber) =
        ((List.range' 1 s.reader.proxy.changes_from_writer_low_mark).filter owed).map
          (fun n ↦ ⟨n, written n⟩) ∧
      ∀ acknack ∈ s.acknacks, ∀ n, 1 ≤ n → n < acknack.sns.base → owed n →
        ⟨n, written n⟩ ∈ s.notified := by
  have h := owing_run hhonest hs
  refine ⟨h.filter_notified, fun acknack hacknack n hn hlt howed ↦ h.mem_notified hn ?_ howed⟩
  exact h.valid.proxy.le_low_mark_iff.mpr fun m hm ↦
    h.acknowledged acknack hacknack m (hm.trans_lt hlt)

private theorem honest_keepingRun :
    AllSteps step (Honest (fun n ↦ 10 * n) (fun n ↦ n ≤ 2)) ({} : Reading ℕ) keepingRun := by
  simp only [keepingRun, lateRun, List.cons_append, List.nil_append]
  refine allSteps_cons.mpr fun t ht ↦ ⟨⟨rfl, fun _ ↦ .inl rfl⟩, ?_⟩; cases ht
  refine allSteps_cons.mpr fun t ht ↦ ⟨fun n _ hn ↦ .inl (Nat.le_of_lt_succ hn), ?_⟩; cases ht
  refine allSteps_cons.mpr fun t ht ↦ ⟨trivial, ?_⟩; cases ht
  refine allSteps_cons.mpr fun t ht ↦ ⟨⟨rfl, fun _ ↦ .inl rfl⟩, ?_⟩; cases ht
  refine allSteps_cons.mpr fun t ht ↦ ⟨⟨rfl, fun _ ↦ .inl rfl⟩, ?_⟩; cases ht
  refine allSteps_cons.mpr fun t ht ↦ ⟨fun n howed hn ↦ ?_, ?_⟩
  · rcases hn with ⟨hge, -⟩ | hmem
    · omega
    · exact absurd hmem List.not_mem_nil
  cases ht
  refine allSteps_cons.mpr fun t ht ↦ ⟨trivial, ?_⟩; cases ht
  refine allSteps_cons.mpr fun t ht ↦ ⟨(by decide : 1 ≤ 3), ?_⟩; cases ht
  exact allSteps_nil

/-- `delivered_owed` where two changes of three are owed. -/
theorem delivered_owed_keepingRun : ∃ s : Reading ℕ, run step {} keepingRun = some s ∧
    s.acknacks.map (·.sns.base) = [1, 4] ∧
      s.notified.filter (·.sequenceNumber ≤ 2) =
        ((List.range' 1 s.reader.proxy.changes_from_writer_low_mark).filter (· ≤ 2)).map
          fun n ↦ ⟨n, 10 * n⟩ := by
  obtain ⟨s, hs, hbases⟩ : ∃ s : Reading ℕ, run step {} keepingRun = some s ∧
    s.acknacks.map (·.sns.base) = [1, 4] := ⟨_, rfl, by decide⟩
  exact ⟨s, hs, hbases, (delivered_owed honest_keepingRun hs).1⟩

end Reading

end HzjDds.Rtps
