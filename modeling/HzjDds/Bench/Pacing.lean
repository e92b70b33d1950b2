import HzjDds.Bench.Accounting
import HzjDds.Bench.Statistics
import Mathlib.Data.List.Chain

/-!
# Pacing of the ping-pong loop

Library `Bench`. Source: `scripts/bench/pingpong.py:114–122,749–776`. The next ping waits for the gap
from the last publish time on, which the loop keeps apart from the lists that it records.
-/

namespace HzjDds.Bench

open HzjDds.Transition

universe u

variable {M : Type u}

namespace Loop

/-- Publish times of all pings so far, timeouts and warm-up included, the one under way last. -/
def publishTimes (s : Loop M) : List ℕ := s.rounds.map Round.t0 ++ (t0? s.pc).toList

/-- Two times are at least `interval_ms` apart. -/
def Apart (p : Params M) (earlier later : ℚ) : Prop := earlier + p.intervalMs * 1000000 ≤ later

/-- The loop has waited for the gap, and not published yet. -/
def waited : LoopPc → Bool
  | .clearEvent => true
  | .setExpect => true
  | .dropEntry => true
  | .takeT0 => true
  | _ => false

/-- The publish times keep the gap; the last of them is the one that the loop counts from, and
after its wait the gap from it is over. -/
structure Paced (p : Params M) (s : Loop M) : Prop where
  apart : s.publishTimes.IsChain fun earlier later : ℕ ↦ Apart p earlier later
  last : s.lastPub = s.publishTimes.getLast?
  past : ∀ last ∈ s.lastPub, last ≤ s.now
  slept : ∀ wake, s.pc = .sleep wake → ∀ last ∈ s.lastPub, Apart p last wake
  due : waited s.pc = true → ∀ last ∈ s.lastPub, Apart p last s.now

private theorem paced_start (p : Params M) (now : ℕ) : Paced p (start p now) := by
  have hpc : t0? (start p now).pc = none ∧ waited (start p now).pc = false := by
    simp only [start]
    split <;> exact ⟨rfl, rfl⟩
  have htimes : (start p now).publishTimes = [] := by
    rw [publishTimes, hpc.1]
    rfl
  constructor
  case apart =>
    rw [htimes]
    exact List.IsChain.nil
  case last =>
    rw [htimes]
    rfl
  case past => exact fun _ hlast ↦ by contradiction
  case slept => exact fun _ _ _ hlast ↦ by contradiction
  case due => exact fun _ _ hlast ↦ by contradiction

private theorem waitInterval_some {p : Params M} {s : Loop M} {wake : ℚ}
    (hwake : s.waitInterval p = some wake) : ∀ last ∈ s.lastPub, Apart p last wake := by
  intro last hlast
  rw [Option.mem_def] at hlast
  simp only [waitInterval, hlast] at hwake
  split at hwake
  · contradiction
  · split at hwake
    · cases hwake
      unfold Apart
      linarith
    · contradiction

private theorem waitInterval_none {p : Params M} {s : Loop M} (hwake : s.waitInterval p = none)
    (hpast : ∀ last ∈ s.lastPub, last ≤ s.now) : ∀ last ∈ s.lastPub, Apart p last s.now := by
  intro last hlast
  have hnow : (last : ℚ) ≤ s.now := by exact_mod_cast hpast last hlast
  rw [Option.mem_def] at hlast
  simp only [waitInterval, hlast] at hwake
  unfold Apart
  split at hwake
  · next hnone => linarith
  · split at hwake
    · contradiction
    · next hremain => linarith

private theorem waitInterval_of_client {p : Params M} {s : Loop M} {woken : Bool}
    (hpc : s.pc = .waitInterval) (hs : s.client p woken = some { s with pc := .clearEvent }) :
    s.waitInterval p = none := by
  simp only [Loop.client, hpc, Option.some.injEq] at hs
  have hgoto := congrArg Loop.pc hs
  cases hwake : s.waitInterval p with
  | none => rfl
  | some wake =>
    rw [hwake] at hgoto
    contradiction

/-- A step that publishes nothing, lets no time go back and waits as it should. -/
theorem Paced.congr {p : Params M} {s t : Loop M} (h : Paced p s)
    (htimes : t.publishTimes = s.publishTimes) (hlast : t.lastPub = s.lastPub) (hnow : s.now ≤ t.now)
    (hslept : ∀ wake, t.pc = .sleep wake → ∀ last ∈ s.lastPub, Apart p last wake)
    (hdue : waited t.pc = true → ∀ last ∈ s.lastPub, Apart p last s.now) : Paced p t := by
  have hlater : (s.now : ℚ) ≤ t.now := by exact_mod_cast hnow
  constructor
  case apart =>
    rw [htimes]
    exact h.apart
  case last =>
    rw [hlast, htimes]
    exact h.last
  case past =>
    rw [hlast]
    exact fun last hmem ↦ (h.past last hmem).trans hnow
  case slept =>
    rw [hlast]
    exact hslept
  case due =>
    rw [hlast]
    exact fun hpc last hmem ↦ le_trans (hdue hpc last hmem) hlater

/-- A step that leaves the loop where it is, or moves it on while its ping is under way. -/
theorem Paced.onward {p : Params M} {s t : Loop M} (h : Paced p s) {t0 : ℕ}
    (hbefore : t0? s.pc = some t0) (hafter : t0? t.pc = some t0) (hrounds : t.rounds = s.rounds)
    (hlast : t.lastPub = s.lastPub) (hnow : s.now ≤ t.now) : Paced p t := by
  refine h.congr ?_ hlast hnow ?_ ?_
  · rw [publishTimes, publishTimes, hbefore, hafter, hrounds]
  · intro wake hpc
    rw [hpc] at hafter
    contradiction
  · intro hpc
    cases hcase : t.pc <;> rw [hcase] at hafter hpc <;> contradiction

/-- A ping that is over keeps its publish time. -/
theorem Paced.finishRound {p : Params M} {s t : Loop M} (h : Paced p s) {t0 : ℕ}
    (ht0 : t0? s.pc = some t0) (hrounds : t.rounds = s.rounds) (hlast : t.lastPub = s.lastPub)
    (hnow : t.now = s.now) (seq mark : ℕ) (deadline : ℚ) (found : Option (Stamp M)) :
    Paced p (t.finishRound p ⟨seq, t0, mark, deadline, found⟩) := by
  generalize hround : (⟨seq, t0, mark, deadline, found⟩ : Round M) = round
  have hpc : t0? (t.finishRound p round).pc = none ∧ waited (t.finishRound p round).pc = false ∧
      ∀ wake, (t.finishRound p round).pc ≠ .sleep wake := by
    simp only [Loop.finishRound]
    split <;> exact ⟨rfl, rfl, by simp⟩
  refine h.congr ?_ hlast hnow.ge ?_ ?_
  · rw [publishTimes, publishTimes, hpc.1, ht0]
    simp [Loop.finishRound, hrounds, ← hround]
  · exact fun wake hwake ↦ absurd hwake (hpc.2.2 wake)
  · intro hwaited
    rw [hpc.2.1] at hwaited
    contradiction

/-- A timeout. -/
theorem Paced.miss {p : Params M} {s : Loop M} (h : Paced p s) {t0 : ℕ} (mark : ℕ) (deadline : ℚ)
    (ht0 : t0? s.pc = some t0) : Paced p (s.miss p t0 mark deadline) := by
  unfold Loop.miss
  refine h.finishRound ht0 ?_ ?_ ?_ s.i mark deadline none <;> rfl

/-- A pong. -/
theorem Paced.hit {p : Params M} {s : Loop M} (h : Paced p s) {t0 : ℕ} (mark : ℕ) (deadline : ℚ)
    (stamp : Stamp M) (ht0 : t0? s.pc = some t0) : Paced p (s.hit p t0 mark deadline stamp) := by
  unfold Loop.hit
  refine h.finishRound ht0 ?_ ?_ ?_ s.i mark deadline (some stamp) <;> rfl

/-- The publish time is taken after the wait. -/
theorem Paced.takeT0 {p : Params M} {s : Loop M} (h : Paced p s) (hpc : s.pc = .takeT0) :
    Paced p { s with lastPub := some s.now, pc := .publish s.now } := by
  have hbefore : s.publishTimes = s.rounds.map Round.t0 := by simp [publishTimes, hpc, t0?]
  have hdue := h.due (by rw [hpc]; rfl)
  have hchain := h.apart
  rw [h.last, hbefore] at hdue
  rw [hbefore] at hchain
  constructor
  case apart =>
    refine List.isChain_append.mpr ⟨hchain, List.isChain_singleton _, ?_⟩
    intro earlier hearlier later hlater
    cases hlater
    exact hdue earlier hearlier
  case last => simp [publishTimes, t0?]
  case past =>
    rintro last hlast
    cases hlast
    exact le_rfl
  case slept => exact fun _ hslept ↦ by contradiction
  case due => exact fun hwaited ↦ by contradiction

/-- A statement of the loop. -/
theorem Paced.client {p : Params M} {s s' : Loop M} {woken : Bool} (h : Paced p s)
    (hs : s.client p woken = some s') : Paced p s' := by
  -- a statement outside a ping moves on to another one
  have hgoto : ∀ pc event expectSeq got, t0? s.pc = none → t0? pc = none →
      (∀ wake, pc = .sleep wake → ∀ last ∈ s.lastPub, Apart p last wake) →
      (waited pc = true → ∀ last ∈ s.lastPub, Apart p last s.now) →
      Paced p { s with pc, event, expectSeq, got } := by
    intro pc event expectSeq got hbefore hafter hslept hdue
    refine h.congr ?_ rfl le_rfl hslept hdue
    rw [publishTimes, publishTimes, hbefore, hafter]
  cases client_cases hs with
  | noGap hpc =>
    exact hgoto _ _ _ _ (by rw [hpc]; rfl) rfl (fun _ hslept ↦ by contradiction)
      fun _ ↦ waitInterval_none (waitInterval_of_client hpc hs) h.past
  | gap hpc wake hwake =>
    refine hgoto _ _ _ _ (by rw [hpc]; rfl) rfl ?_ fun hwaited ↦ by contradiction
    rintro _ ⟨⟩
    exact waitInterval_some hwake
  | awake wake hpc hnow =>
    refine hgoto _ _ _ _ (by rw [hpc]; rfl) rfl (fun _ hslept ↦ by contradiction) fun _ ↦ ?_
    exact fun last hlast ↦ le_trans (h.slept wake hpc last hlast) hnow
  | clearEvent hpc | setExpect hpc | dropEntry hpc =>
    exact hgoto _ _ _ _ (by rw [hpc]; rfl) rfl (fun _ hslept ↦ by contradiction)
      fun _ ↦ h.due (by rw [hpc]; rfl)
  | takeT0 hpc => exact h.takeT0 hpc
  | publish t0 hpc => exact h.onward (by rw [hpc]; rfl) rfl rfl rfl le_rfl
  | waitSet t0 mark deadline hpc => exact h.onward (by rw [hpc]; rfl) rfl rfl rfl le_rfl
  | waitUnset t0 mark deadline hpc => exact h.onward (by rw [hpc]; rfl) rfl rfl rfl le_rfl
  | woken t0 mark deadline hpc => exact h.onward (by rw [hpc]; rfl) rfl rfl rfl le_rfl
  | expired t0 mark deadline hpc => exact h.miss mark deadline (by rw [hpc]; rfl)
  | missing t0 mark deadline hpc => exact h.miss mark deadline (by rw [hpc]; rfl)
  | found t0 mark deadline stamp hpc => exact h.hit mark deadline stamp (by rw [hpc]; rfl)

private theorem paced_step (p : Params M) (s : Loop M) (a : LoopAction M) (s' : Loop M) (h : Paced p s)
    (hs : s.step p a = some s') : Paced p s' := by
  cases a with
  | tick elapsed =>
    cases hs
    exact h.congr rfl rfl (Nat.le_add_right ..) h.slept h.due
  | client woken => exact h.client hs
  | arrive message =>
    obtain ⟨-, rfl⟩ := step_arrive hs
    exact h.congr rfl rfl le_rfl h.slept h.due
  | onPong => cases onPong_cases hs <;> exact h.congr rfl rfl le_rfl h.slept h.due

/-! ## What is recorded and reported -/

/-- A gap that is not negative keeps any two pings apart. -/
theorem Paced.pairwise {p : Params M} {s : Loop M} (h : Paced p s) (hinterval : 0 ≤ p.intervalMs) :
    s.publishTimes.Pairwise fun earlier later : ℕ ↦ Apart p earlier later := by
  have htrans : IsTrans ℕ fun earlier later : ℕ ↦ Apart p earlier later := by
    constructor
    intro a b c hab hbc
    unfold Apart at hab hbc ⊢
    linarith
  exact List.isChain_iff_pairwise.mp h.apart

/-- The recorded publish times are among those of all pings. -/
theorem Lists.sublist {p : Params M} {s : Loop M} (h : Lists p s) :
    s.pubNs.Sublist s.publishTimes := by
  rw [h.published, publishTimes]
  exact (List.filter_sublist.map Round.t0).trans (List.sublist_append_left _ _)

private theorem le_gaps {p : Params M} {times : List ℕ}
    (htimes : times.IsChain fun earlier later : ℕ ↦ Apart p earlier later) :
    ∀ d ∈ Series.gaps (times.map Int.ofNat), p.intervalMs * 1000000 ≤ d := by
  rw [Series.forall_gaps_iff _ fun d : ℤ ↦ p.intervalMs * 1000000 ≤ (d : ℚ), List.isChain_map]
  refine htimes.imp fun earlier later hapart ↦ ?_
  unfold Apart at hapart
  push_cast [Int.ofNat_eq_natCast]
  linarith

/-- The jitter that the case reports of its lists. -/
def jitter (sqrt : ℚ → ℚ) (p : Params M) (s : Loop M) : JitterFields :=
  jitterFields sqrt s.rttNs (s.pubNs.map Int.ofNat) (s.arrivalNs.map Int.ofNat) p.intervalMs

/-- In every state of every run consecutive publish times are at least the gap apart, in the loop,
in the recorded series and in what is reported of it. -/
theorem publishes_paced (sqrt : ℚ → ℚ) (p : Params M) (now : ℕ) (s : Loop M)
    (hinterval : 0 ≤ p.intervalMs) (hreach : Reachable (step p) (start p now) s) :
    (∀ d ∈ Series.gaps (s.publishTimes.map Int.ofNat), p.intervalMs * 1000000 ≤ d) ∧
    (∀ d ∈ Series.gaps (s.pubNs.map Int.ofNat), p.intervalMs * 1000000 ≤ d) ∧
    ∀ values ∈ (s.jitter sqrt p).pub_interval.values, p.intervalMs * 1000 ≤ values.min_us := by
  have hpaced : Paced p s := hreach.invariant (paced_start p now) (paced_step p)
  have hlists : Lists p s := hreach.invariant (lists_start p now) (lists_step p)
  have hrecorded : ∀ d ∈ Series.gaps (s.pubNs.map Int.ofNat), p.intervalMs * 1000000 ≤ d :=
    le_gaps ((hpaced.pairwise hinterval).sublist hlists.sublist).isChain
  refine ⟨le_gaps hpaced.apart, hrecorded, ?_⟩
  intro values hvalues
  obtain ⟨gap, hgap, hleast⟩ := min_of_values hvalues
  rw [hleast]
  linarith [hrecorded gap hgap]

/-- A warm-up ping and two measured ones, five milliseconds apart, each answered after 20 ns. -/
private def threePings : Params ℕ :=
  { warmup := 1, samples := 2, timeoutS := 1, intervalMs := 5, seqOf := some }

/-- The statements of one ping after its wait, with its pong. -/
private def pinged (seq : ℕ) : List (LoopAction ℕ) :=
  List.replicate 6 (.client true) ++ [.tick 20, .arrive seq, .onPong, .onPong, .onPong] ++
    List.replicate 2 (.client true)

private def threePinged : List (LoopAction ℕ) :=
  .client true :: pinged 0 ++ .client true :: .tick 5000000 :: .client true :: pinged 1 ++
    .client true :: .tick 5000000 :: .client true :: pinged 2

theorem publishes_paced_three : ∃ s,
    run (step threePings) (start threePings 0) threePinged = some s ∧
    s.pubNs = [5000020, 10000040] ∧
    ∀ values ∈ (s.jitter id threePings).pub_interval.values,
      threePings.intervalMs * 1000 ≤ values.min_us := by
  have hrun : (run (step threePings) (start threePings 0) threePinged).map Loop.pubNs =
      some [5000020, 10000040] := by decide +kernel
  obtain ⟨s, hs, hpub⟩ := Option.map_eq_some_iff.mp hrun
  exact ⟨s, hs, hpub, (publishes_paced id threePings 0 s (by decide) ⟨threePinged, hs⟩).2.2⟩

end Loop

end HzjDds.Bench
