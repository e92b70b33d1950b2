import HzjDds.Bench.PingPong
import Mathlib.Data.List.NodupEquivFin

/-!
# Sample accounting of the ping-pong loop

Library `Bench`. Source: `scripts/bench/pingpong.py:278–320,442–483,722–776,861–916`. The lists that a
client loop hands on, against the pings that it has played. Only the pings after the warm-up are
measured.
-/

namespace HzjDds.Bench

open HzjDds.Transition

universe u

variable {M : Type u}

namespace Loop

/-- The pings after the warm-up, in the order in which they were published. -/
def measured (p : Params M) (s : Loop M) : List (Round M) :=
  s.rounds.filter (p.warmup ≤ ·.seq)

/-- Number of the measured pings that timed out. -/
def timedOut (p : Params M) (s : Loop M) : ℕ := (s.measured p).countP (·.found.isNone)

/-- What the lists of a finished loop say about its pings. -/
structure Accounting (p : Params M) (s : Loop M) : Prop where
  samples : s.rttNs.length + s.timedOut p = p.samples
  published : s.pubNs = (s.measured p).map Round.t0
  pings : (s.measured p).map Round.seq = List.range' p.warmup p.samples
  paired : s.rttNs.length = s.arrivalNs.length
  origin : ∃ f : Fin s.arrivalNs.length → Fin s.pubNs.length, StrictMono f ∧
    ∀ (k : Fin s.arrivalNs.length) (rtt : ℤ), s.rttNs[(k : ℕ)]? = some rtt →
      (s.arrivalNs[k] : ℤ) - rtt = s.pubNs[f k]
  publishOrder : s.pubNs.Pairwise (· ≤ ·)
  arrivalOrder : s.arrivalNs.Pairwise (· ≤ ·)

/-! ## The lists as functions of the pings -/

/-- Publish time and arrival of a ping with a pong. -/
def stamps (round : Round M) : Option (ℕ × ℕ) :=
  round.found.map fun stamp ↦ (round.t0, stamp.arrival)

/-- The publish times and the arrivals are those of the measured pings. -/
structure Lists (p : Params M) (s : Loop M) : Prop where
  published : s.pubNs = (s.measured p).map Round.t0
  arrived : s.arrivalNs = (s.measured p).filterMap fun round ↦ round.found.map Stamp.arrival

/-- There is nothing in the lists before the first ping. -/
theorem lists_start (p : Params M) (now : ℕ) : Lists p (start p now) := ⟨rfl, rfl⟩

/-- The lists depend on the pings only. -/
theorem Lists.congr {p : Params M} {s t : Loop M} (h : Lists p s) (hrounds : t.rounds = s.rounds)
    (hpub : t.pubNs = s.pubNs) (harrival : t.arrivalNs = s.arrivalNs) : Lists p t := by
  have hmeasured : t.measured p = s.measured p := by rw [measured, hrounds, measured]
  exact ⟨by rw [hpub, hmeasured, h.published], by rw [harrival, hmeasured, h.arrived]⟩

private theorem measured_concat (p : Params M) {s t : Loop M} {round : Round M}
    (h : t.rounds = s.rounds ++ [round]) :
    t.measured p = s.measured p ++ if p.warmup ≤ round.seq then [round] else [] := by
  rw [measured, h, List.filter_append, measured]
  simp [List.filter_singleton]

/-- A timeout leaves a publish time. -/
theorem Lists.miss {p : Params M} {s : Loop M} (h : Lists p s) (t0 mark : ℕ) (deadline : ℚ) :
    Lists p (s.miss p t0 mark deadline) := by
  have hmeasured := measured_concat p (s := s) (t := s.miss p t0 mark deadline) rfl
  constructor
  case published =>
    rw [hmeasured, List.map_append, ← h.published]
    by_cases hw : p.warmup ≤ s.i <;> simp [Loop.miss, finishRound, hw]
  case arrived =>
    rw [hmeasured, List.filterMap_append, ← h.arrived]
    by_cases hw : p.warmup ≤ s.i <;> simp [Loop.miss, finishRound, hw]

/-- A pong leaves a publish time and an arrival. -/
theorem Lists.hit {p : Params M} {s : Loop M} (h : Lists p s) (t0 mark : ℕ) (deadline : ℚ)
    (stamp : Stamp M) : Lists p (s.hit p t0 mark deadline stamp) := by
  have hmeasured := measured_concat p (s := s) (t := s.hit p t0 mark deadline stamp) rfl
  constructor
  case published =>
    rw [hmeasured, List.map_append, ← h.published]
    by_cases hw : p.warmup ≤ s.i <;> simp [Loop.hit, finishRound, hw]
  case arrived =>
    rw [hmeasured, List.filterMap_append, ← h.arrived]
    by_cases hw : p.warmup ≤ s.i <;> simp [Loop.hit, finishRound, hw]

/-- Every step keeps the lists. -/
theorem lists_step (p : Params M) (s : Loop M) (a : LoopAction M) (s' : Loop M) (h : Lists p s)
    (hs : s.step p a = some s') : Lists p s' := by
  cases a with
  | tick elapsed =>
    cases hs
    exact h.congr rfl rfl rfl
  | client woken =>
    cases client_cases hs with
    | expired t0 mark deadline => exact h.miss t0 mark deadline
    | missing t0 mark deadline => exact h.miss t0 mark deadline
    | found t0 mark deadline stamp => exact h.hit t0 mark deadline stamp
    | _ => exact h.congr rfl rfl rfl
  | arrive message =>
    obtain ⟨-, rfl⟩ := step_arrive hs
    exact h.congr rfl rfl rfl
  | onPong => cases onPong_cases hs <;> exact h.congr rfl rfl rfl

/-! ## The order of the times -/

/-- The stamp that an `on_pong` call has taken and not stored. -/
def taken? : PongPc M → Option ℕ
  | .compare arrival _ => some arrival
  | .store arrival _ _ => some arrival
  | _ => none

/-- The publish time of the ping that is under way. -/
def t0? : LoopPc → Option ℕ
  | .publish t0 => some t0
  | .wait t0 _ => some t0
  | .waiting t0 _ _ => some t0
  | .readGot t0 _ _ => some t0
  | _ => none

/-- The loop has dropped the old entry of the ping, and not read the new one. -/
def dropped : LoopPc → Bool
  | .takeT0 => true
  | pc => (t0? pc).isSome

private theorem dropped_of_t0? {pc : LoopPc} {t0 : ℕ} (h : t0? pc = some t0) : dropped pc = true := by
  cases pc <;> first | rfl | contradiction

/-- Stamps that are stored from now on are not before this. -/
def frontier (s : Loop M) : ℕ := (taken? s.handler).getD s.now

/-- The lists are ordered, and what may be added to them is not before their last entries. -/
structure Ordered (s : Loop M) : Prop where
  published : s.pubNs.Pairwise (· ≤ ·)
  arrived : s.arrivalNs.Pairwise (· ≤ ·)
  publishedPast : ∀ t ∈ s.pubNs, t ≤ s.now
  frontierPast : s.frontier ≤ s.now
  publishing : ∀ t0, t0? s.pc = some t0 → t0 ≤ s.now ∧ ∀ t ∈ s.pubNs, t ≤ t0
  stored : ∀ seq stamp, s.got seq = some stamp → stamp.arrival ≤ s.frontier
  recorded : ∀ t ∈ s.arrivalNs, t ≤ s.frontier
  current : dropped s.pc = true → ∀ stamp, s.got s.i = some stamp →
    ∀ t ∈ s.arrivalNs, t ≤ stamp.arrival

private theorem ordered_start (p : Params M) (now : ℕ) : Ordered (start p now) := by
  constructor
  case published => exact List.Pairwise.nil
  case arrived => exact List.Pairwise.nil
  case publishedPast => exact fun _ h ↦ by contradiction
  case frontierPast => exact le_rfl
  case publishing =>
    intro t0 ht0
    simp only [start] at ht0
    split at ht0 <;> contradiction
  case stored => exact fun _ _ h ↦ by contradiction
  case recorded => exact fun _ h ↦ by contradiction
  case current => exact fun _ _ h ↦ by contradiction

/-- A step that leaves the lists and the entries alone and lets no time go back. -/
theorem Ordered.congr {s t : Loop M} (h : Ordered s) (hpub : t.pubNs = s.pubNs)
    (harrival : t.arrivalNs = s.arrivalNs) (hgot : t.got = s.got) (hi : t.i = s.i)
    (hnow : s.now ≤ t.now) (hfrontier : s.frontier ≤ t.frontier) (hpast : t.frontier ≤ t.now)
    (ht0 : ∀ t0, t0? t.pc = some t0 → t0? s.pc = some t0 ∨ t0 = s.now)
    (hdropped : dropped t.pc = true → dropped s.pc = true) : Ordered t := by
  constructor
  case published =>
    rw [hpub]
    exact h.published
  case arrived =>
    rw [harrival]
    exact h.arrived
  case publishedPast =>
    rw [hpub]
    exact fun t ht ↦ (h.publishedPast t ht).trans hnow
  case frontierPast => exact hpast
  case publishing =>
    intro t0 hpc
    rw [hpub]
    rcases ht0 t0 hpc with hsame | rfl
    · exact ⟨(h.publishing t0 hsame).1.trans hnow, (h.publishing t0 hsame).2⟩
    · exact ⟨hnow, h.publishedPast⟩
  case stored =>
    rw [hgot]
    exact fun seq stamp hstamp ↦ (h.stored seq stamp hstamp).trans hfrontier
  case recorded =>
    rw [harrival]
    exact fun t ht ↦ (h.recorded t ht).trans hfrontier
  case current =>
    rw [hgot, hi, harrival]
    exact fun hpc ↦ h.current (hdropped hpc)

/-- A ping is over: its publish time, and after a pong its arrival, are the latest. -/
theorem Ordered.finishRound {p : Params M} {s : Loop M} (h : Ordered s) {t0 : ℕ}
    (ht0 : t0? s.pc = some t0) {timeouts : ℕ} {rttNs : List ℤ} {pubNs arrivalNs : List ℕ}
    {round : Round M} (hpub : pubNs = s.pubNs ∨ pubNs = s.pubNs ++ [t0])
    (harrival : arrivalNs = s.arrivalNs ∨ ∃ stamp, s.got s.i = some stamp ∧
      arrivalNs = s.arrivalNs ++ [stamp.arrival]) :
    Ordered (finishRound p { s with timeouts, rttNs, pubNs, arrivalNs } round) := by
  obtain ⟨hpast, hlatest⟩ := h.publishing t0 ht0
  have hdropped : dropped s.pc = true := dropped_of_t0? ht0
  have hover : t0? (Loop.finishRound p { s with timeouts, rttNs, pubNs, arrivalNs } round).pc = none ∧
      dropped (Loop.finishRound p { s with timeouts, rttNs, pubNs, arrivalNs } round).pc = false := by
    simp only [Loop.finishRound]
    split <;> exact ⟨rfl, rfl⟩
  constructor
  case published =>
    rcases hpub with rfl | rfl
    · exact h.published
    · exact List.pairwise_append.mpr ⟨h.published, List.pairwise_singleton .., by simpa using hlatest⟩
  case arrived =>
    rcases harrival with rfl | ⟨stamp, hstamp, rfl⟩
    · exact h.arrived
    · exact List.pairwise_append.mpr ⟨h.arrived, List.pairwise_singleton ..,
        by simpa using h.current hdropped stamp hstamp⟩
  case publishedPast =>
    rcases hpub with rfl | rfl
    · exact h.publishedPast
    · exact List.forall_mem_append.mpr ⟨h.publishedPast, List.forall_mem_singleton.mpr hpast⟩
  case frontierPast => exact h.frontierPast
  case publishing =>
    intro t hpc
    rw [hover.1] at hpc
    contradiction
  case stored => exact h.stored
  case recorded =>
    rcases harrival with rfl | ⟨stamp, hstamp, rfl⟩
    · exact h.recorded
    · have hlast := h.stored s.i stamp hstamp
      exact List.forall_mem_append.mpr ⟨h.recorded, List.forall_mem_singleton.mpr hlast⟩
  case current =>
    intro hpc
    rw [hover.2] at hpc
    contradiction

/-- A timeout. -/
theorem Ordered.miss {p : Params M} {s : Loop M} (h : Ordered s) {t0 : ℕ} (mark : ℕ) (deadline : ℚ)
    (ht0 : t0? s.pc = some t0) : Ordered (s.miss p t0 mark deadline) := by
  refine h.finishRound ht0 ?_ (Or.inl rfl)
  split
  · exact Or.inr rfl
  · exact Or.inl rfl

/-- A pong. -/
theorem Ordered.hit {p : Params M} {s : Loop M} (h : Ordered s) {t0 : ℕ} (mark : ℕ) (deadline : ℚ)
    {stamp : Stamp M} (ht0 : t0? s.pc = some t0) (hstamp : s.got s.i = some stamp) :
    Ordered (s.hit p t0 mark deadline stamp) := by
  refine h.finishRound ht0 ?_ ?_
  · split
    · exact Or.inr rfl
    · exact Or.inl rfl
  · split
    · exact Or.inr ⟨stamp, hstamp, rfl⟩
    · exact Or.inl rfl

/-- The loop goes on with the ping whose publish time it has. -/
theorem Ordered.onward {s : Loop M} (h : Ordered s) {t0 : ℕ} {pc : LoopPc}
    (hbefore : t0? s.pc = some t0) (hafter : t0? pc = some t0) : Ordered { s with pc } := by
  refine h.congr rfl rfl rfl rfl le_rfl le_rfl h.frontierPast (fun t ht ↦ Or.inl ?_) fun _ ↦
    dropped_of_t0? hbefore
  rw [hbefore, ← hafter]
  exact ht

/-- A statement of the loop. -/
theorem Ordered.client {p : Params M} {s s' : Loop M} (h : Ordered s) (hs : ClientStep p s s') :
    Ordered s' := by
  have hgoto : ∀ pc event expectSeq lastPub,
      (∀ t0, t0? pc = some t0 → t0? s.pc = some t0 ∨ t0 = s.now) →
      (dropped pc = true → dropped s.pc = true) →
      Ordered { s with pc, event, expectSeq, lastPub } := fun _ _ _ _ ht0 hdropped ↦
    h.congr rfl rfl rfl rfl le_rfl le_rfl h.frontierPast ht0 hdropped
  cases hs with
  | noGap | gap | awake | clearEvent | setExpect =>
    exact hgoto _ _ _ _ (fun _ ht0 ↦ by contradiction) fun hpc ↦ by contradiction
  | dropEntry hpc =>
    refine ⟨h.published, h.arrived, h.publishedPast, h.frontierPast, fun t0 ht0 ↦ by contradiction,
      fun seq stamp hstamp ↦ ?_, h.recorded, fun _ stamp hstamp ↦ ?_⟩
    · by_cases heq : seq = s.i
      · simp [heq] at hstamp
      · exact h.stored seq stamp ((Function.update_of_ne heq ..).symm.trans hstamp)
    · simp at hstamp
  | takeT0 hpc =>
    refine hgoto _ _ _ _ (fun t0 ht0 ↦ Or.inr (Option.some.inj ht0).symm) fun _ ↦ ?_
    rw [hpc]
    rfl
  | publish t0 hpc => exact h.onward (by rw [hpc]; rfl) rfl
  | waitSet t0 mark deadline hpc => exact h.onward (by rw [hpc]; rfl) rfl
  | waitUnset t0 mark deadline hpc => exact h.onward (by rw [hpc]; rfl) rfl
  | woken t0 mark deadline hpc => exact h.onward (by rw [hpc]; rfl) rfl
  | expired t0 mark deadline hpc => exact h.miss mark deadline (by rw [hpc]; rfl)
  | missing t0 mark deadline hpc => exact h.miss mark deadline (by rw [hpc]; rfl)
  | found t0 mark deadline stamp hpc hgot => exact h.hit mark deadline (by rw [hpc]; rfl) hgot

/-- A statement of `on_pong`. -/
theorem Ordered.onPong {p : Params M} {s s' : Loop M} (h : Ordered s) (hs : PongStep p s s') :
    Ordered s' := by
  -- the next stamp is taken later
  have hidle : ∀ event processed, Ordered { s with handler := .idle, event, processed } :=
    fun _ _ ↦ h.congr rfl rfl rfl rfl le_rfl h.frontierPast le_rfl (fun _ ↦ Or.inl) id
  have htaken : ∀ arrival, taken? s.handler = some arrival → s.frontier = arrival := by
    intro arrival htaken
    rw [frontier, htaken]
    rfl
  cases hs with
  | discard => exact hidle _ _
  | accept arrival message seq hpc =>
    have hfrontier := htaken arrival (by rw [hpc]; rfl)
    have hpast := h.frontierPast
    rw [hfrontier] at hpast
    exact h.congr rfl rfl rfl rfl le_rfl hfrontier.le hpast (fun _ ↦ Or.inl) id
  | reject => exact hidle _ _
  | store arrival message seq hpc =>
    have hfrontier := htaken arrival (by rw [hpc]; rfl)
    have hlater := h.frontierPast
    refine ⟨h.published, h.arrived, h.publishedPast, le_rfl, h.publishing,
      fun other stamp hstamp ↦ ?_, fun t ht ↦ (h.recorded t ht).trans hlater, fun hdrop stamp hstamp ↦ ?_⟩
    · by_cases heq : other = seq
      · simp only [heq, Function.update_self] at hstamp
        cases hstamp
        exact hfrontier.symm.le.trans hlater
      · exact (h.stored other stamp ((Function.update_of_ne heq ..).symm.trans hstamp)).trans hlater
    · by_cases heq : s.i = seq
      · simp only [heq, Function.update_self] at hstamp
        cases hstamp
        exact fun t ht ↦ (h.recorded t ht).trans hfrontier.le
      · exact h.current hdrop stamp ((Function.update_of_ne heq ..).symm.trans hstamp)
  | setEvent => exact hidle _ _

/-- Every step keeps the order. -/
theorem ordered_step (p : Params M) (s : Loop M) (a : LoopAction M) (s' : Loop M) (h : Ordered s)
    (hs : s.step p a = some s') : Ordered s' := by
  cases a with
  | tick elapsed =>
    cases hs
    have hlater : s.now ≤ s.now + elapsed := Nat.le_add_right ..
    refine h.congr rfl rfl rfl rfl hlater ?_ ?_ (fun _ ↦ Or.inl) id
    · simp only [frontier]
      cases taken? s.handler with
      | none => exact hlater
      | some arrival => exact le_rfl
    · have hpast := h.frontierPast
      simp only [frontier] at hpast ⊢
      cases htaken : taken? s.handler with
      | none => exact le_rfl
      | some arrival =>
        rw [htaken] at hpast
        exact hpast.trans hlater
  | client woken => exact h.client (client_cases hs)
  | arrive message =>
    obtain ⟨-, rfl⟩ := step_arrive hs
    exact h.congr rfl rfl rfl rfl le_rfl h.frontierPast le_rfl (fun _ ↦ Or.inl) id
  | onPong => exact h.onPong (onPong_cases hs)

/-! ## The accounts of a finished loop -/

/-- Every finished ping has its number. -/
theorem Accounts.pings {p : Params M} {s : Loop M} (h : Accounts p s)
    (hi : s.i = p.warmup + p.samples) :
    (s.measured p).map Round.seq = List.range' p.warmup p.samples := by
  have hmap : (s.measured p).map Round.seq =
      (s.rounds.map Round.seq).filter (p.warmup ≤ ·) := by
    rw [measured, List.filter_map]
    rfl
  rw [hmap, h.covered, hi, List.range_eq_range', ← List.range'_append_1, List.filter_append]
  have hwarmup : (List.range' 0 p.warmup).filter (p.warmup ≤ ·) = [] := by
    simp [List.filter_eq_nil_iff]
  have hrest : (List.range' p.warmup p.samples).filter (p.warmup ≤ ·) =
      List.range' p.warmup p.samples := by
    simp only [List.filter_eq_self, List.mem_range'_1, decide_eq_true_eq]
    exact fun seq hseq ↦ hseq.1
  rw [hwarmup, Nat.zero_add, hrest, List.nil_append]

/-- The samples are those of the measured pings with a pong. -/
theorem Accounts.rttNs {p : Params M} {s : Loop M} (h : Accounts p s) :
    s.rttNs = ((s.measured p).filterMap stamps).map fun times ↦ (times.2 : ℤ) - times.1 := by
  rw [h.recorded, measured, List.map_filterMap, List.filterMap_filter]
  congr
  funext round
  simp [Round.rtt, stamps, Function.comp_def]

/-- So are the arrivals. -/
theorem Lists.arrivalNs {p : Params M} {s : Loop M} (h : Lists p s) :
    s.arrivalNs = ((s.measured p).filterMap stamps).map Prod.snd := by
  rw [h.arrived, List.map_filterMap]
  congr
  funext round
  simp [stamps, Function.comp_def]

private theorem stamps_sublist (rounds : List (Round M)) :
    ((rounds.filterMap stamps).map Prod.fst).Sublist (rounds.map Round.t0) := by
  induction rounds with
  | nil => exact List.Sublist.slnil
  | cons round rest ih =>
    rw [List.filterMap_cons, stamps]
    cases round.found with
    | none => exact ih.cons _
    | some stamp => exact ih.cons_cons _

private theorem length_stamps (rounds : List (Round M)) :
    (rounds.filterMap stamps).length + rounds.countP (·.found.isNone) = rounds.length := by
  induction rounds with
  | nil => rfl
  | cons round rest ih =>
    rw [List.filterMap_cons, stamps, List.countP_cons, List.length_cons]
    cases round.found with
    | none =>
      simp only [Option.map_none, Option.isNone_none, if_true]
      omega
    | some stamp =>
      simp only [Option.map_some, List.length_cons, Option.isNone_some, Bool.false_eq_true, if_false]
      omega

/-- The accounts of a loop that has played all its pings. -/
theorem Accounts.accounting {p : Params M} {s : Loop M} (h : Accounts p s) (hlists : Lists p s)
    (hordered : Ordered s) (hi : s.i = p.warmup + p.samples) : Accounting p s := by
  constructor
  case samples =>
    have hlength := congrArg List.length (h.pings hi)
    rw [List.length_map, List.length_range'] at hlength
    rw [h.rttNs, List.length_map, timedOut, length_stamps, hlength]
  case published => exact hlists.published
  case pings => exact h.pings hi
  case paired => rw [h.rttNs, hlists.arrivalNs, List.length_map, List.length_map]
  case origin =>
    obtain ⟨f, hf⟩ := List.sublist_iff_exists_orderEmbedding_getElem?_eq.mp
      (stamps_sublist (s.measured p))
    have hsample : ∀ k : Fin s.arrivalNs.length, ∃ t0, s.pubNs[f k]? = some t0 ∧
        s.rttNs[(k : ℕ)]? = some ((s.arrivalNs[k] : ℤ) - t0) := by
      intro k
      have harrival : s.arrivalNs[(k : ℕ)]? = some s.arrivalNs[k] := List.getElem?_eq_getElem k.2
      have hmap := congrArg (fun times ↦ times[(k : ℕ)]?) hlists.arrivalNs
      simp only [harrival, List.getElem?_map] at hmap
      obtain ⟨times, htimes, heq⟩ := Option.map_eq_some_iff.mp hmap.symm
      refine ⟨times.1, ?_, ?_⟩
      · rw [hlists.published, ← hf, List.getElem?_map, htimes]
        rfl
      · rw [h.rttNs, List.getElem?_map, htimes, ← heq]
        rfl
    choose t0 hpub hrtt using hsample
    refine ⟨fun k ↦ ⟨f k, (List.getElem?_eq_some_iff.mp (hpub k)).1⟩, fun a b hab ↦ f.strictMono hab,
      fun k rtt hk ↦ ?_⟩
    obtain ⟨_, hget⟩ := List.getElem?_eq_some_iff.mp (hpub k)
    cases (hrtt k).symm.trans hk
    rw [sub_sub_cancel]
    exact_mod_cast hget.symm
  case publishOrder => exact hordered.published
  case arrivalOrder => exact hordered.arrived

/-- The loop is finished when it has played all its pings, and not before. -/
def Counted (p : Params M) (s : Loop M) : Prop :=
  s.i ≤ p.warmup + p.samples ∧ (s.pc = .finished ↔ s.i = p.warmup + p.samples)

private theorem counted_start (p : Params M) (now : ℕ) : Counted p (start p now) := by
  refine ⟨Nat.zero_le _, ?_⟩
  simp only [start]
  split
  · next hpos => exact iff_of_false (by simp) hpos.ne
  · next hzero => exact iff_of_true rfl (by omega)

/-- The loop stays at its ping. -/
theorem Counted.congr {p : Params M} {s t : Loop M} (h : Counted p s) (hi : t.i = s.i)
    (hpc : t.pc = .finished ↔ s.pc = .finished) : Counted p t := by
  rw [Counted, hi, hpc]
  exact h

/-- The loop goes on to the next ping. -/
theorem Counted.finishRound {p : Params M} {s t : Loop M} (h : Counted p s)
    (hpc : s.pc ≠ .finished) (hi : t.i = s.i) (round : Round M) :
    Counted p (t.finishRound p round) := by
  have hlt : s.i < p.warmup + p.samples := lt_of_le_of_ne h.1 (hpc ∘ h.2.mpr)
  simp only [Counted, Loop.finishRound, hi]
  refine ⟨hlt, ?_⟩
  split
  · next hnext => exact iff_of_false (by simp) hnext.ne
  · next hlast => exact iff_of_true rfl (by omega)

/-- Every step keeps the count. -/
theorem counted_step (p : Params M) (s : Loop M) (a : LoopAction M) (s' : Loop M) (h : Counted p s)
    (hs : s.step p a = some s') : Counted p s' := by
  cases a with
  | tick elapsed =>
    cases hs
    exact h.congr rfl Iff.rfl
  | client woken =>
    cases client_cases hs with
    | expired t0 mark deadline hpc =>
      exact h.finishRound (by simp [hpc]) rfl ⟨s.i, t0, mark, deadline, none⟩
    | missing t0 mark deadline hpc =>
      exact h.finishRound (by simp [hpc]) rfl ⟨s.i, t0, mark, deadline, none⟩
    | found t0 mark deadline stamp hpc =>
      exact h.finishRound (by simp [hpc]) rfl ⟨s.i, t0, mark, deadline, some stamp⟩
    | noGap hpc | gap hpc | awake _ hpc | clearEvent hpc | setExpect hpc | dropEntry hpc
    | takeT0 hpc | publish _ hpc | waitSet _ _ _ hpc | waitUnset _ _ _ hpc | woken _ _ _ hpc =>
      exact h.congr rfl (by simp [hpc])
  | arrive message =>
    obtain ⟨-, rfl⟩ := step_arrive hs
    exact h.congr rfl Iff.rfl
  | onPong => cases onPong_cases hs <;> exact h.congr rfl Iff.rfl

/-- At the end of each loop its lists account for every ping. -/
theorem accounting_of_run (p : Params M) (now : ℕ) (actions : List (LoopAction M)) {s : Loop M}
    (hs : run (step p) (start p now) actions = some s) (hend : s.pc = .finished) :
    Accounting p s := by
  have haccounts : Accounts p s :=
    Reachable.invariant (accounts_start p now) (accounts_step p) ⟨actions, hs⟩
  have hlists : Lists p s := Reachable.invariant (lists_start p now) (lists_step p) ⟨actions, hs⟩
  have hordered : Ordered s :=
    Reachable.invariant (ordered_start p now) (ordered_step p) ⟨actions, hs⟩
  have hcounted : Counted p s :=
    Reachable.invariant (counted_start p now) (counted_step p) ⟨actions, hs⟩
  exact haccounts.accounting hlists hordered (hcounted.2.mp hend)

/-- A loop of one ping to warm up and three that are measured. -/
private def fourPings : Params ℕ := ⟨1, 3, 1, 0, some⟩

/-- A ping is sent and waited for. -/
private def ping : List (LoopAction ℕ) := List.replicate 7 (.client false)

/-- Its pong comes. -/
private def pong (seq elapsed : ℕ) : List (LoopAction ℕ) :=
  [.tick elapsed, .arrive seq, .onPong, .onPong, .onPong, .client true, .client false]

/-- The second ping times out, and its pong comes when the third has been sent. -/
private def latePongRun : List (LoopAction ℕ) :=
  ping ++ pong 0 7 ++ ping ++ [.tick 1000000000, .client false] ++
    ping ++ [.arrive 1, .onPong] ++ pong 2 5 ++ ping ++ pong 3 9

/-- `accounting_of_run` for a loop with a ping to warm up, a timeout and a late pong. -/
theorem accounting_of_run_pong : ∃ s,
    run (step fourPings) (start fourPings 0) latePongRun = some s ∧ s.rttNs = [5, 9] ∧
      s.pubNs = [7, 1000000007, 1000000012] ∧ s.arrivalNs = [1000000012, 1000000021] ∧
      Accounting fourPings s := by
  have hrun : (run (step fourPings) (start fourPings 0) latePongRun).map
      (fun s ↦ (s.rttNs, s.pubNs, s.arrivalNs, s.pc)) = some ([5, 9],
        [7, 1000000007, 1000000012], [1000000012, 1000000021], .finished) := by decide +kernel
  obtain ⟨s, hs, hlists⟩ := Option.map_eq_some_iff.mp hrun
  simp only [Prod.mk.injEq] at hlists
  obtain ⟨hrtt, hpub, harrival, hend⟩ := hlists
  exact ⟨s, hs, hrtt, hpub, harrival, accounting_of_run fourPings 0 latePongRun hs hend⟩

end Loop

end HzjDds.Bench
