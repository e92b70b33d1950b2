import HzjDds.Rtps.WriterProxy
import Mathlib.Data.Finset.Card
import Mathlib.Order.Interval.Finset.Nat

/-!
# The settled changes of a writer

Library `Rtps`. Source: `WriterProxy.cpp:179–448` and `WriterProxy.h:155–215`. What the operations of a
proxy do is said by the set of settled changes: each operation adds some, none takes one away, and the
low mark is the last change up to which all are settled.
-/

namespace HzjDds.Rtps

open HzjDds.Cpp

namespace WriterProxy

variable {p p' p'' : WriterProxy} {n seq_num k l : ℕ} {S T : ℕ → Prop}

/-- A change has been received, has been found irrelevant or is lost. -/
def Settled (p : WriterProxy) (n : ℕ) : Prop :=
  n ≤ p.changes_from_writer_low_mark ∨ n ∈ p.changes_received

/-- Whether a change is settled is what `change_was_received` says. -/
theorem changeWasReceived_iff : p.changeWasReceived n = true ↔ p.Settled n := by
  simp [changeWasReceived, Settled]

instance : DecidablePred p.Settled := fun _ ↦ inferInstanceAs (Decidable (_ ∨ _))

/-- What holds of a proxy between two operations. -/
structure Valid (p : WriterProxy) : Prop where
  ascending : Ascending id p.changes_received
  above : ∀ n ∈ p.changes_received, p.changes_from_writer_low_mark + 1 < n
  below : ∀ n ∈ p.changes_received, n ≤ p.max_sequence_number
  low_le : p.changes_from_writer_low_mark ≤ p.max_sequence_number
  notified_le : p.last_notified ≤ p.changes_from_writer_low_mark

/-- A new proxy is valid. -/
theorem valid_new : Valid {} where
  ascending := List.Pairwise.nil
  above := fun _ h ↦ absurd h List.not_mem_nil
  below := fun _ h ↦ absurd h List.not_mem_nil
  low_le := le_rfl
  notified_le := le_rfl

/-- The low mark is the last change up to which all are settled. -/
theorem Valid.le_low_mark_iff (h : p.Valid) :
    n ≤ p.changes_from_writer_low_mark ↔ ∀ m ≤ n, p.Settled m := by
  constructor
  · exact fun hn m hm ↦ .inl (hm.trans hn)
  · intro hall
    by_contra hn
    rcases hall (p.changes_from_writer_low_mark + 1) (by omega) with hle | hmem
    · omega
    · exact (h.above _ hmem).ne rfl

/-- Number of settled changes. -/
def settledCount (p : WriterProxy) : ℕ := p.changes_from_writer_low_mark + p.changes_received.length

/-- Changes below a bound that are not settled. -/
def unsettled (p : WriterProxy) (seq_num : ℕ) : Finset ℕ :=
  (Finset.range seq_num).filter fun n ↦ ¬ p.Settled n

/-! ## One operation -/

/-- An operation settles the changes in `S` and learns of those up to `k`; what has been notified and
the heartbeats stay. -/
structure Adds (p p' : WriterProxy) (S : ℕ → Prop) (k : ℕ) : Prop where
  valid : p'.Valid
  settled : ∀ n, p'.Settled n ↔ p.Settled n ∨ S n
  max_eq : p'.max_sequence_number = max p.max_sequence_number k
  notified_eq : p'.last_notified = p.last_notified
  count_eq : p'.last_heartbeat_count = p.last_heartbeat_count
  heard_eq : p'.received_at_least_one_heartbeat = p.received_at_least_one_heartbeat

/-- An operation that settles nothing new. -/
theorem Adds.refl (h : p.Valid) (hS : ∀ n, S n → p.Settled n) (hk : k ≤ p.max_sequence_number) :
    Adds p p S k where
  valid := h
  settled := fun n ↦ (or_iff_left_of_imp (hS n)).symm
  max_eq := (max_eq_left hk).symm
  notified_eq := rfl
  count_eq := rfl
  heard_eq := rfl

/-- Two operations settle what either of them does. -/
theorem Adds.trans (h : Adds p p' S k) (h' : Adds p' p'' T l) :
    Adds p p'' (fun n ↦ S n ∨ T n) (max k l) where
  valid := h'.valid
  settled := fun n ↦ by rw [h'.settled, h.settled, or_assoc]
  max_eq := by rw [h'.max_eq, h.max_eq, max_assoc]
  notified_eq := h'.notified_eq.trans h.notified_eq
  count_eq := h'.count_eq.trans h.count_eq
  heard_eq := h'.heard_eq.trans h.heard_eq

/-- What is settled stays so. -/
theorem Adds.mono (h : Adds p p' S k) (hn : p.Settled n) : p'.Settled n := (h.settled n).mpr (.inl hn)

/-- Jumping over what follows the low mark settles nothing. -/
theorem cleanupFrom_spec {low_mark : ℕ} {seqs : List ℕ} (hasc : Ascending id seqs)
    (habove : ∀ n ∈ seqs, low_mark < n) :
    Ascending id (cleanupFrom low_mark seqs).2 ∧
      (∀ n ∈ (cleanupFrom low_mark seqs).2, (cleanupFrom low_mark seqs).1 + 1 < n ∧ n ∈ seqs) ∧
      (∀ n, n ≤ (cleanupFrom low_mark seqs).1 ∨ n ∈ (cleanupFrom low_mark seqs).2 ↔
        n ≤ low_mark ∨ n ∈ seqs) ∧
      low_mark ≤ (cleanupFrom low_mark seqs).1 ∧
      (cleanupFrom low_mark seqs).1 + (cleanupFrom low_mark seqs).2.length =
        low_mark + seqs.length := by
  induction seqs generalizing low_mark with
  | nil => simp [cleanupFrom, Ascending]
  | cons seq rest ih =>
    obtain ⟨hseq, hrest⟩ := List.pairwise_cons.mp hasc
    rw [cleanupFrom]
    split
    · next heq =>
      have hlt : ∀ n ∈ rest, low_mark + 1 < n := fun n hn ↦ heq ▸ hseq n hn
      obtain ⟨ihasc, ihabove, ihsettled, ihle, ihcount⟩ := ih hrest hlt
      refine ⟨ihasc, fun n hn ↦ ?_, fun n ↦ ?_, ?_, ?_⟩
      · exact ⟨(ihabove n hn).1, List.mem_cons_of_mem seq (ihabove n hn).2⟩
      · rw [ihsettled, List.mem_cons, ← or_assoc]
        refine or_congr_left ?_
        omega
      · exact (Nat.le_succ low_mark).trans ihle
      · rw [ihcount, List.length_cons]
        omega
    · next hne =>
      have hlt := habove seq List.mem_cons_self
      refine ⟨hasc, fun n hn ↦ ⟨?_, hn⟩, fun n ↦ Iff.rfl, le_rfl, rfl⟩
      rcases List.mem_cons.mp hn with rfl | hn
      · exact lt_of_le_of_ne hlt (Ne.symm hne)
      · have hlt' : seq < n := hseq n hn
        show low_mark + 1 < n
        omega

private theorem cleanup_spec (hasc : Ascending id p.changes_received)
    (habove : ∀ n ∈ p.changes_received, p.changes_from_writer_low_mark < n)
    (hbelow : ∀ n ∈ p.changes_received, n ≤ p.max_sequence_number)
    (hle : p.changes_from_writer_low_mark ≤ p.max_sequence_number)
    (hnotified : p.last_notified ≤ p.changes_from_writer_low_mark) :
    p.cleanup.Valid ∧ (∀ n, p.cleanup.Settled n ↔ p.Settled n) ∧
      p.cleanup.settledCount = p.settledCount := by
  obtain ⟨hasc', habove', hsettled, hle', hcount⟩ := cleanupFrom_spec hasc habove
  refine ⟨?_, hsettled, hcount⟩
  constructor
  case ascending => exact hasc'
  case above => exact fun n hn ↦ (habove' n hn).1
  case below => exact fun n hn ↦ hbelow n (habove' n hn).2
  case low_le =>
    rcases (hsettled _).mp (.inl le_rfl) with hlow | hmem
    · exact hlow.trans hle
    · exact hbelow _ hmem
  case notified_le => exact hnotified.trans hle'

/-- `missing_changes_update` learns of the changes up to a number. -/
theorem Valid.missingChangesUpdate (h : p.Valid) :
    Adds p (p.missingChangesUpdate seq_num) (fun _ ↦ False) seq_num := by
  rw [WriterProxy.missingChangesUpdate]
  split
  · next hlt =>
    constructor
    case valid =>
      exact ⟨h.ascending, h.above, fun n hn ↦ (h.below n hn).trans hlt.2.le,
        h.low_le.trans hlt.2.le, h.notified_le⟩
    case settled => exact fun n ↦ (or_iff_left id).symm
    case max_eq => exact (max_eq_right hlt.2.le).symm
    case notified_eq | count_eq | heard_eq => rfl
  · next hle =>
    have hlow := h.low_le
    exact .refl h (fun _ hn ↦ hn.elim) (by omega)

/-- `received_change_set` settles a change, and says whether it was not. -/
theorem Valid.receivedChangeSet (h : p.Valid) :
    Adds p (p.receivedChangeSet seq_num).2 (· = seq_num) seq_num ∧
      ((p.receivedChangeSet seq_num).1 = true ↔ ¬ p.Settled seq_num) ∧
      (p.receivedChangeSet seq_num).2.settledCount =
        p.settledCount + if (p.receivedChangeSet seq_num).1 then 1 else 0 := by
  have hlow := h.low_le
  have hnotified := h.notified_le
  have hlength : seq_num ∉ p.changes_received →
      (setInsert p.changes_received seq_num).length = p.changes_received.length + 1 := by
    intro hnew
    rw [setInsert, if_neg hnew]
    exact (sortedVectorInsert_perm ..).length_eq
  rw [WriterProxy.receivedChangeSet]
  split
  · next hle =>
    have hsettled : p.Settled seq_num := .inl hle
    refine ⟨.refl h (by rintro n rfl; exact hsettled) (hle.trans hlow), by simp [hsettled], rfl⟩
  next hlt =>
  split
  · next hmax =>
    have hnew : seq_num ∉ p.changes_received := fun hmem ↦ hmax.not_ge (h.below _ hmem)
    have hunsettled : ¬ p.Settled seq_num := by
      rintro (hle | hmem)
      · exact hlt hle
      · exact hnew hmem
    split
    · next heq =>
      -- nothing is received beyond the low mark
      have hnil : p.changes_received = [] := by
        refine List.eq_nil_iff_forall_not_mem.mpr fun n hn ↦ ?_
        have habove := h.above n hn
        have hbelow := h.below n hn
        omega
      refine ⟨?_, by simp [hunsettled], by simp [settledCount, hnil, heq]⟩
      constructor
      case valid =>
        refine ⟨h.ascending, ?_, ?_, le_rfl, ?_⟩
        · simp [hnil]
        · simp [hnil]
        · show p.last_notified ≤ seq_num
          omega
      case settled =>
        intro n
        simp only [Settled, hnil, List.not_mem_nil, or_false]
        omega
      case max_eq => exact (max_eq_right hmax.le).symm
      case notified_eq | count_eq | heard_eq => rfl
    · next hne =>
      refine ⟨?_, by simp [hunsettled], by simp [settledCount, hlength hnew, add_assoc]⟩
      constructor
      case valid =>
        refine ⟨h.ascending.setInsert, fun n hn ↦ ?_, fun n hn ↦ ?_, ?_, hnotified⟩
        · rcases mem_setInsert.mp hn with rfl | hn
          · show p.changes_from_writer_low_mark + 1 < n
            omega
          · exact h.above n hn
        · rcases mem_setInsert.mp hn with rfl | hn
          · exact le_rfl
          · exact (h.below n hn).trans hmax.le
        · exact hlow.trans hmax.le
      case settled =>
        intro n
        simp only [Settled, mem_setInsert]
        rw [or_assoc, or_comm (a := n = seq_num)]
      case max_eq => exact (max_eq_right hmax.le).symm
      case notified_eq | count_eq | heard_eq => rfl
  next hmax =>
  split
  · next heq =>
    have hunsettled : ¬ p.Settled seq_num := by
      rintro (hle | hmem)
      · exact hlt hle
      · exact (h.above _ hmem).ne heq
    obtain ⟨hvalid, hsettled, hcount⟩ :=
      cleanup_spec (p := { p with changes_from_writer_low_mark := seq_num }) h.ascending
        (fun n hn ↦ heq ▸ h.above n hn) h.below (not_lt.mp hmax) (by
          show p.last_notified ≤ seq_num
          omega)
    refine ⟨?_, by simp [hunsettled], ?_⟩
    · constructor
      case valid => exact hvalid
      case settled =>
        intro n
        rw [hsettled, Settled, Settled, or_right_comm]
        refine or_congr_left ?_
        show n ≤ seq_num ↔ _
        omega
      case max_eq => exact (max_eq_left (not_lt.mp hmax)).symm
      case notified_eq | count_eq | heard_eq => rfl
    · rw [hcount]
      simp only [settledCount, if_true]
      omega
  next hne =>
  split
  · next hmem =>
    have hsettled : p.Settled seq_num := .inr hmem
    exact ⟨.refl h (by rintro n rfl; exact hsettled) (h.below _ hmem), by simp [hsettled], rfl⟩
  · next hnew =>
    have hunsettled : ¬ p.Settled seq_num := by
      rintro (hle | hmem)
      · exact hlt hle
      · exact hnew hmem
    refine ⟨?_, by simp [hunsettled], by simp [settledCount, hlength hnew, add_assoc]⟩
    constructor
    case valid =>
      refine ⟨h.ascending.setInsert, fun n hn ↦ ?_, fun n hn ↦ ?_, hlow, hnotified⟩
      · rcases mem_setInsert.mp hn with rfl | hn
        · show p.changes_from_writer_low_mark + 1 < n
          omega
        · exact h.above n hn
      · rcases mem_setInsert.mp hn with rfl | hn
        · exact not_lt.mp hmax
        · exact h.below n hn
    case settled =>
      intro n
      simp only [Settled, mem_setInsert]
      rw [or_assoc, or_comm (a := n = seq_num)]
    case max_eq => exact (max_eq_left (not_lt.mp hmax)).symm
    case notified_eq | count_eq | heard_eq => rfl

/-! ## Lost and missing changes -/

/-- Below a bound beyond the low mark, the settled changes are those up to the mark and those received. -/
theorem Valid.card_unsettled (h : p.Valid) (hlt : p.changes_from_writer_low_mark < seq_num) :
    (p.unsettled seq_num).card + (p.changes_from_writer_low_mark + 1 +
      (p.changes_received.takeWhile (· < seq_num)).length) = seq_num := by
  have hwhile : ∀ n, n ∈ p.changes_received.takeWhile (· < seq_num) ↔
      n ∈ p.changes_received ∧ n < seq_num := fun n ↦ h.ascending.mem_takeWhile
  have hnodup : (p.changes_received.takeWhile (· < seq_num)).Nodup :=
    (h.ascending.sublist (List.takeWhile_sublist _)).imp fun hlt ↦ hlt.ne
  have hsettled : (Finset.range seq_num).filter p.Settled =
      Finset.range (p.changes_from_writer_low_mark + 1) ∪
        (p.changes_received.takeWhile (· < seq_num)).toFinset := by
    ext n
    simp only [Finset.mem_filter, Finset.mem_range, Finset.mem_union, List.mem_toFinset, hwhile,
      Settled]
    constructor
    · rintro ⟨hn, hle | hmem⟩
      · exact .inl (Nat.lt_succ_of_le hle)
      · exact .inr ⟨hmem, hn⟩
    · rintro (hle | ⟨hmem, hn⟩)
      · exact ⟨by omega, .inl (Nat.le_of_lt_succ hle)⟩
      · exact ⟨hn, .inr hmem⟩
  have hdisjoint : Disjoint (Finset.range (p.changes_from_writer_low_mark + 1))
      (p.changes_received.takeWhile (· < seq_num)).toFinset := by
    rw [Finset.disjoint_left]
    intro n hn hmem
    have habove := h.above n ((hwhile n).mp (List.mem_toFinset.mp hmem)).1
    have hle := Finset.mem_range.mp hn
    omega
  have hsplit := Finset.card_filter_add_card_filter_not (s := Finset.range seq_num) p.Settled
  rw [hsettled, Finset.card_union_of_disjoint hdisjoint, Finset.card_range, Finset.card_range,
    List.toFinset_card_of_nodup hnodup] at hsplit
  rw [unsettled]
  omega

private theorem unsettled_of_le (hle : seq_num ≤ p.changes_from_writer_low_mark + 1) :
    p.unsettled seq_num = ∅ := by
  refine Finset.filter_eq_empty_iff.mpr fun n hn ↦ not_not.mpr (.inl ?_)
  have hlt := Finset.mem_range.mp hn
  omega

/-- `lost_changes_update` settles the changes below a number, and counts those that were not. -/
theorem Valid.lostChangesUpdate (h : p.Valid) :
    Adds p (p.lostChangesUpdate seq_num).2 (· < seq_num) (seq_num - 1) ∧
      (p.lostChangesUpdate seq_num).1 = min (p.unsettled seq_num).card int32Max ∧
      (p.lostChangesUpdate seq_num).2.settledCount =
        p.settledCount + (p.unsettled seq_num).card := by
  have hlow := h.low_le
  rw [WriterProxy.lostChangesUpdate]
  split
  · next hlt =>
    have hcard := h.card_unsettled (show p.changes_from_writer_low_mark < seq_num by omega)
    have hwhile : (p.changes_received.takeWhile (· < seq_num)).length +
        (p.changes_received.dropWhile (· < seq_num)).length = p.changes_received.length := by
      rw [← List.length_append, List.takeWhile_append_dropWhile]
    have hmem : ∀ n, n ∈ p.changes_received.dropWhile (· < seq_num) ↔
        n ∈ p.changes_received ∧ seq_num ≤ n := fun n ↦ h.ascending.mem_dropWhile
    have hnotified := h.notified_le
    obtain ⟨hvalid, hsettled, hcount⟩ := cleanup_spec
      (p := { p with
        changes_received := p.changes_received.dropWhile (· < seq_num)
        changes_from_writer_low_mark := seq_num - 1
        max_sequence_number := max p.max_sequence_number (seq_num - 1) })
      (h.ascending.sublist (List.dropWhile_sublist _))
      (fun n hn ↦ by
        have hle := ((hmem n).mp hn).2
        show seq_num - 1 < n
        omega)
      (fun n hn ↦ le_max_of_le_left (h.below n ((hmem n).mp hn).1)) (le_max_right ..) (by
        show p.last_notified ≤ seq_num - 1
        omega)
    refine ⟨?_, ?_, ?_⟩
    · constructor
      case valid => exact hvalid
      case settled =>
        intro n
        rw [hsettled]
        simp only [Settled, hmem]
        constructor
        · rintro (hle | ⟨hn, -⟩)
          · exact .inr (by omega)
          · exact .inl (.inr hn)
        · rintro ((hle | hn) | hlt)
          · exact .inl (by omega)
          · exact (Nat.lt_or_ge n seq_num).elim (fun hlt ↦ .inl (by omega)) fun hge ↦ .inr ⟨hn, hge⟩
          · exact .inl (by omega)
      case max_eq | notified_eq | count_eq | heard_eq => rfl
    · have hlost : p.lostUpTo seq_num = (p.unsettled seq_num).card := by
        rw [lostUpTo]
        split
        · next hnil =>
          rw [hnil, List.takeWhile_nil, List.length_nil] at hcard
          omega
        · omega
      rw [hlost, Int.toNat_natCast]
    · rw [hcount]
      simp only [settledCount]
      omega
  · next hle =>
    rw [unsettled_of_le (not_lt.mp hle)]
    exact ⟨.refl h (fun n hn ↦ .inl (by omega)) (by omega), by simp, by simp⟩

private theorem Valid.foldl_irrelevantChangeSet (h : p.Valid) (ns : List ℕ) :
    Adds p (ns.foldl irrelevantChangeSet p) (· ∈ ns) (ns.foldr max 0) := by
  induction ns generalizing p with
  | nil => exact .refl h (fun n hn ↦ absurd hn List.not_mem_nil) (Nat.zero_le _)
  | cons n ns ih =>
    have hfirst : Adds p (p.irrelevantChangeSet n) (· = n) n := h.receivedChangeSet.1
    have hboth := hfirst.trans (ih hfirst.valid)
    simpa only [List.foldl_cons, List.foldr_cons, List.mem_cons] using hboth

/-- Numbers that a gap names. -/
def InGap (gap_start : ℕ) (gap_list : SequenceNumberSet) (n : ℕ) : Prop :=
  gap_start ≤ n ∧ n < gap_list.base ∨ n ∈ gap_list.items

/-- A maximum is no greater than a bound of all. -/
theorem foldr_max_le {ns : List ℕ} (h : ∀ n ∈ ns, n ≤ k) : ns.foldr max 0 ≤ k := by
  induction ns with
  | nil => exact Nat.zero_le k
  | cons n ns ih =>
    exact max_le (h n List.mem_cons_self) (ih fun m hm ↦ h m (List.mem_cons_of_mem n hm))

/-- `process_gap` settles some of the changes that the gap names. -/
theorem Valid.processGap (h : p.Valid) (gap_start : ℕ) (gap_list : SequenceNumberSet) :
    ∃ ns : List ℕ, (∀ n ∈ ns, InGap gap_start gap_list n) ∧
      Adds p (p.processGap gap_start gap_list) (· ∈ ns) (ns.foldr max 0) := by
  have hrange : ∀ n ∈ p.gapRange gap_start gap_list, InGap gap_start gap_list n := by
    intro n hn
    have hn := List.mem_range'_1.mp hn
    exact .inl (by omega)
  rw [WriterProxy.processGap]
  split
  · exact ⟨[], by simp, .refl h (by simp) (Nat.zero_le _)⟩
  split
  · exact ⟨_, hrange, h.foldl_irrelevantChangeSet _⟩
  · refine ⟨p.gapRange gap_start gap_list ++
      gap_list.items.filter (· < p.maxAllowedGap gap_start gap_list), fun n hn ↦ ?_, ?_⟩
    · rcases List.mem_append.mp hn with hn | hn
      · exact hrange n hn
      · exact .inr (List.mem_of_mem_filter hn)
    · rw [← List.foldl_append]
      exact h.foldl_irrelevantChangeSet _

/-- What the loop of `missing_changes` adds: what is not received, from the first missing change on. -/
theorem mem_missingFrom {max_missing first_missing m : ℕ} {seqs : List ℕ} {sns : SequenceNumberSet}
    (hasc : Ascending id seqs) (hfirst : ∀ n ∈ seqs, first_missing ≤ n)
    (hbase : sns.base ≤ first_missing) (hwindow : max_missing ≤ sns.base + 256) :
    m ∈ (missingFrom max_missing first_missing seqs sns).items ↔
      m ∈ sns.items ∨ first_missing ≤ m ∧ m < max_missing ∧ m ∉ seqs := by
  induction seqs generalizing first_missing sns with
  | nil =>
    rw [missingFrom]
    split
    · rw [BitmapRange.mem_addRange]
      simp only [List.not_mem_nil, not_false_eq_true, and_true]
      refine or_congr_right ?_
      omega
    · next hle => exact (or_iff_left fun hm ↦ hle (by omega)).symm
  | cons seq rest ih =>
    obtain ⟨hseq, hrest⟩ := List.pairwise_cons.mp hasc
    have hseq : ∀ n ∈ rest, seq < n := hseq
    have hle := hfirst seq List.mem_cons_self
    rw [missingFrom]
    split
    · next hlast =>
      rw [BitmapRange.mem_addRange]
      refine or_congr_right ?_
      constructor
      · rintro ⟨hm, -⟩
        refine ⟨hm.1, by omega, fun hmem ↦ ?_⟩
        rcases List.mem_cons.mp hmem with rfl | hmem
        · omega
        · have hlt := hseq m hmem
          omega
      · rintro ⟨hge, hlt, hmem⟩
        have hne : m ≠ seq := fun heq ↦ hmem (heq ▸ List.mem_cons_self)
        omega
    · next hmore =>
      have hmin : min seq max_missing = seq := by omega
      rw [hmin, ih hrest (fun n hn ↦ hseq n hn) (by rw [BitmapRange.addRange_base]; omega)
        (by rw [BitmapRange.addRange_base]; exact hwindow), BitmapRange.mem_addRange, or_assoc]
      refine or_congr_right ?_
      constructor
      · rintro (⟨hm, -⟩ | ⟨hge, hlt, hmem⟩)
        · refine ⟨hm.1, by omega, fun hmem ↦ ?_⟩
          rcases List.mem_cons.mp hmem with rfl | hmem
          · omega
          · have hlt := hseq m hmem
            omega
        · refine ⟨by omega, hlt, fun hmem' ↦ ?_⟩
          rcases List.mem_cons.mp hmem' with rfl | hmem'
          · omega
          · exact hmem hmem'
      · rintro ⟨hge, hlt, hmem⟩
        have hne : m ≠ seq := fun heq ↦ hmem (heq ▸ List.mem_cons_self)
        rcases Nat.lt_or_gt_of_ne hne with hbefore | hbehind
        · exact .inl ⟨⟨hge, hbefore⟩, by omega⟩
        · exact .inr ⟨by omega, hlt, fun hmem' ↦ hmem (List.mem_cons_of_mem seq hmem')⟩

private theorem base_missingFrom {max_missing first_missing : ℕ} {seqs : List ℕ} {sns : SequenceNumberSet} :
    (missingFrom max_missing first_missing seqs sns).base = sns.base := by
  induction seqs generalizing first_missing sns with
  | nil =>
    rw [missingFrom]
    split <;> simp
  | cons seq rest ih =>
    rw [missingFrom]
    split <;> simp [ih]

@[simp] theorem base_missingChanges : p.missingChanges.base = p.changes_from_writer_low_mark + 1 :=
  base_missingFrom

/-- `missing_changes` are those that are known and not settled, up to 256 behind the low mark. -/
theorem Valid.mem_missingChanges (h : p.Valid) : n ∈ p.missingChanges.items ↔
    ¬ p.Settled n ∧ n ≤ p.max_sequence_number ∧ n ≤ p.changes_from_writer_low_mark + 256 := by
  have hwindow : min (p.changes_from_writer_low_mark + 1 + 256) (p.max_sequence_number + 1) ≤
      (BitmapRange.empty 256 (p.changes_from_writer_low_mark + 1)).base + 256 := min_le_left ..
  rw [missingChanges, mem_missingFrom h.ascending (fun m hm ↦ (h.above m hm).le) le_rfl hwindow,
    BitmapRange.empty_items, Settled, not_or]
  simp only [List.not_mem_nil, false_or]
  constructor
  · rintro ⟨hge, hlt, hnew⟩
    exact ⟨⟨by omega, hnew⟩, by omega, by omega⟩
  · rintro ⟨⟨hlow, hnew⟩, hmax, hwindow⟩
    exact ⟨by omega, by omega, hnew⟩

/-- What a heartbeat that is accepted does. -/
theorem Valid.processHeartbeat (h : p.Valid) {count first_seq last_seq lost : ℕ}
    (hp : p.processHeartbeat count first_seq last_seq = some (lost, p')) :
    p'.Valid ∧ (∀ n, p'.Settled n ↔ p.Settled n ∨ n < first_seq) ∧
      p'.max_sequence_number = max p.max_sequence_number (max (first_seq - 1) last_seq) ∧
      p'.last_notified = p.last_notified ∧ p.last_heartbeat_count < count ∧
      p'.settledCount = p.settledCount + (p.unsettled first_seq).card ∧
      lost = if p.received_at_least_one_heartbeat then min (p.unsettled first_seq).card int32Max
        else 0 := by
  rw [WriterProxy.processHeartbeat] at hp
  split at hp
  · next hcount =>
    cases hp
    have hvalid : Valid { p with last_heartbeat_count := count } :=
      ⟨h.ascending, h.above, h.below, h.low_le, h.notified_le⟩
    obtain ⟨hlost, hnumber, hsettled⟩ := @Valid.lostChangesUpdate _ first_seq hvalid
    have hboth := hlost.trans (@Valid.missingChangesUpdate _ last_seq hlost.valid)
    refine ⟨?_, fun n ↦ ?_, hboth.max_eq, hboth.notified_eq, hcount, ?_, ?_⟩
    · exact ⟨hboth.valid.ascending, hboth.valid.above, hboth.valid.below, hboth.valid.low_le,
        hboth.valid.notified_le⟩
    · have hiff := hboth.settled n
      simp only [or_false] at hiff
      exact hiff
    · refine Eq.trans ?_ hsettled
      rw [WriterProxy.missingChangesUpdate]
      split <;> rfl
    · rw [hnumber]
      rfl
  · contradiction

end WriterProxy

end HzjDds.Rtps
