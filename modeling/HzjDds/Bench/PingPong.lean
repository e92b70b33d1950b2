import Mathlib.Algebra.Order.Ring.Rat
import Mathlib.Logic.Function.Basic
import HzjDds.Transition.Run

/-!
# Ping-pong loop of the benchmark

Library `Bench`. Source: `scripts/bench/pingpong.py:114–122,273–320,437–483,711–776,854–916`.
The four client loops of the benchmark are one loop that differs in how `on_pong` reads the
sequence number of a message. A step is one statement of the loop or of the thread that runs
`on_pong`; time passes in between. Pongs of any kind may arrive at any point.
-/

namespace HzjDds.Bench

open HzjDds.Transition

universe u

/-- Arguments of a client loop: ping counts, `timeout_s` in seconds, `interval_ms` in
milliseconds, and the sequence number `on_pong` reads, if the message is long enough. -/
structure Params (M : Type u) where
  warmup : ℕ
  samples : ℕ
  timeoutS : ℚ
  intervalMs : ℚ
  seqOf : M → Option ℕ

/-- An entry of `got`: the arrival time, and the message it was taken from. -/
structure Stamp (M : Type u) where
  arrival : ℕ
  message : M
  deriving DecidableEq, Repr

/-- Next statement of the loop for ping `i`. From the publish on, `mark` is the number of
`on_pong` calls that were over by then; from the wait on, `deadline` is the end of its
timeout. -/
inductive LoopPc where
  | waitInterval
  | sleep (wake : ℚ)
  | clearEvent
  | setExpect
  | dropEntry
  | takeT0
  | publish (t0 : ℕ)
  | wait (t0 mark : ℕ)
  | waiting (t0 mark : ℕ) (deadline : ℚ)
  | readGot (t0 mark : ℕ) (deadline : ℚ)
  | finished
  deriving DecidableEq, Repr

/-- Next statement of an `on_pong` call; `store` and `setEvent` are inside its lock. -/
inductive PongPc (M : Type u) where
  | idle
  | compare (arrival : ℕ) (message : M)
  | store (arrival : ℕ) (message : M) (seq : ℕ)
  | setEvent (seq : ℕ)
  deriving DecidableEq, Repr

/-- What became of one ping: its stamps, and the entry the loop found for it, if any. -/
structure Round (M : Type u) where
  seq : ℕ
  t0 : ℕ
  mark : ℕ
  deadline : ℚ
  found : Option (Stamp M)
  deriving DecidableEq, Repr

/-- The value a ping contributes to `rtt_ns`. -/
def Round.rtt {M : Type u} (warmup : ℕ) (round : Round M) : Option ℤ :=
  if warmup ≤ round.seq then round.found.map fun stamp ↦ (stamp.arrival : ℤ) - round.t0 else none

/-- Variables of the loop and of `on_pong`. The event is kept as the time it was set.
`rounds` and `processed` are history: the pings that are over, and the sequence number and
end of every `on_pong` call that took the lock. -/
structure Loop (M : Type u) where
  now : ℕ := 0
  i : ℕ := 0
  pc : LoopPc := .waitInterval
  lastPub : Option ℕ := none
  event : Option ℕ := none
  expectSeq : ℤ := -1
  got : ℕ → Option (Stamp M) := fun _ ↦ none
  handler : PongPc M := .idle
  timeouts : ℕ := 0
  rttNs : List ℤ := []
  pubNs : List ℕ := []
  arrivalNs : List ℕ := []
  rounds : List (Round M) := []
  processed : List (ℕ × ℕ) := []

/-- What can happen next: time passes, the loop executes a statement (`woken` says how a
wait in progress ends), a pong arrives, or `on_pong` executes a statement. -/
inductive LoopAction (M : Type u) where
  | tick (elapsed : ℕ)
  | client (woken : Bool)
  | arrive (message : M)
  | onPong
  deriving DecidableEq, Repr

variable {M : Type u}

namespace PongPc

/-- The call holds the lock. -/
def locked : PongPc M → Bool
  | store .. => true
  | setEvent _ => true
  | _ => false

/-- The call is about to set the event. -/
def setting : PongPc M → Bool
  | setEvent _ => true
  | _ => false

end PongPc

namespace Loop

/-- The loop goes on after ping `i` (`for i in range(total)`). -/
def finishRound (p : Params M) (s : Loop M) (round : Round M) : Loop M :=
  { s with
    i := s.i + 1
    pc := if s.i + 1 < p.warmup + p.samples then .waitInterval else .finished
    rounds := s.rounds ++ [round] }

/-- A ping counted as a timeout. -/
def miss (p : Params M) (s : Loop M) (t0 mark : ℕ) (deadline : ℚ) : Loop M :=
  finishRound p { s with
    timeouts := s.timeouts + 1
    pubNs := if p.warmup ≤ s.i then s.pubNs ++ [t0] else s.pubNs } ⟨s.i, t0, mark, deadline, none⟩

/-- A ping with a pong; warm-up pings are not recorded. -/
def hit (p : Params M) (s : Loop M) (t0 mark : ℕ) (deadline : ℚ) (stamp : Stamp M) : Loop M :=
  finishRound p { s with
    rttNs := if p.warmup ≤ s.i then s.rttNs ++ [(stamp.arrival : ℤ) - t0] else s.rttNs
    pubNs := if p.warmup ≤ s.i then s.pubNs ++ [t0] else s.pubNs
    arrivalNs := if p.warmup ≤ s.i then s.arrivalNs ++ [stamp.arrival] else s.arrivalNs }
    ⟨s.i, t0, mark, deadline, some stamp⟩

/-- `_wait_interval` (`pingpong.py:114–122`): the time to sleep until, if any. -/
def waitInterval (p : Params M) (s : Loop M) : Option ℚ :=
  match s.lastPub with
  | none => none
  | some last =>
    if p.intervalMs ≤ 0 then none
    else
      let remain := p.intervalMs - ((s.now : ℚ) - last) / 1000000
      if 0 < remain then some (s.now + remain * 1000000) else none

/-- Next statement of the loop. `Event.wait` returns at once when the event is set; else it
returns true once it is set, and false once the timeout is over without that. -/
def client (p : Params M) (s : Loop M) (woken : Bool) : Option (Loop M) :=
  match s.pc with
  | .waitInterval => some { s with pc := (s.waitInterval p).elim .clearEvent .sleep }
  | .sleep wake => if wake ≤ s.now then some { s with pc := .clearEvent } else none
  | .clearEvent => some { s with event := none, pc := .setExpect }
  | .setExpect =>
    if s.handler.locked then none else some { s with expectSeq := s.i, pc := .dropEntry }
  | .dropEntry => some { s with got := Function.update s.got s.i none, pc := .takeT0 }
  | .takeT0 => some { s with lastPub := some s.now, pc := .publish s.now }
  | .publish t0 => some { s with pc := .wait t0 s.processed.length }
  | .wait t0 mark =>
    let deadline := s.now + p.timeoutS * 1000000000
    some { s with
      pc := if s.event.isSome then .readGot t0 mark deadline else .waiting t0 mark deadline }
  | .waiting t0 mark deadline =>
    if woken then
      if s.event.isSome then some { s with pc := .readGot t0 mark deadline } else none
    else if deadline ≤ s.now ∧ ∀ set ∈ s.event, deadline ≤ set then
      some (s.miss p t0 mark deadline)
    else none
  | .readGot t0 mark deadline =>
    if s.handler.locked then none
    else match s.got s.i with
      | none => some (s.miss p t0 mark deadline)
      | some stamp => some (s.hit p t0 mark deadline stamp)
  | .finished => none

/-- Next statement of an `on_pong` call. -/
def onPong (p : Params M) (s : Loop M) : Option (Loop M) :=
  match s.handler with
  | .idle => none
  | .compare arrival message =>
    match p.seqOf message with
    | none => some { s with handler := .idle }
    | some seq =>
      -- the loop holds the lock between its two statements on `expect_seq` and `got`
      if s.pc = .dropEntry then none
      else if (seq : ℤ) = s.expectSeq then some { s with handler := .store arrival message seq }
      else some { s with handler := .idle, processed := s.processed ++ [(seq, s.now)] }
  | .store arrival message seq => some { s with
      got := Function.update s.got seq (some ⟨arrival, message⟩)
      handler := .setEvent seq }
  | .setEvent seq => some { s with
      event := some (s.event.getD s.now)
      handler := .idle
      processed := s.processed ++ [(seq, s.now)] }

/-- One step of the loop, of `on_pong`, or of the clock. -/
def step (p : Params M) (s : Loop M) : LoopAction M → Option (Loop M)
  | .tick elapsed => some { s with now := s.now + elapsed }
  | .client woken => s.client p woken
  | .arrive message =>
    match s.handler with
    | .idle => some { s with handler := .compare s.now message }
    | _ => none
  | .onPong => s.onPong p

/-- The loop before its first ping, at some time. -/
def start (p : Params M) (now : ℕ) : Loop M :=
  { now := now, pc := if 0 < p.warmup + p.samples then .waitInterval else .finished }

/-! ## What one statement does -/

/-- The statements of the loop, each with what it finds and what it leaves. -/
inductive ClientStep (p : Params M) (s : Loop M) : Loop M → Prop where
  | noGap (hpc : s.pc = .waitInterval) : ClientStep p s { s with pc := .clearEvent }
  | gap (hpc : s.pc = .waitInterval) (wake : ℚ) (hwake : s.waitInterval p = some wake) :
      ClientStep p s { s with pc := .sleep wake }
  | awake (wake : ℚ) (hpc : s.pc = .sleep wake) (hnow : wake ≤ s.now) :
      ClientStep p s { s with pc := .clearEvent }
  | clearEvent (hpc : s.pc = .clearEvent) :
      ClientStep p s { s with event := none, pc := .setExpect }
  | setExpect (hpc : s.pc = .setExpect) (hfree : s.handler.locked = false) :
      ClientStep p s { s with expectSeq := s.i, pc := .dropEntry }
  | dropEntry (hpc : s.pc = .dropEntry) :
      ClientStep p s { s with got := Function.update s.got s.i none, pc := .takeT0 }
  | takeT0 (hpc : s.pc = .takeT0) :
      ClientStep p s { s with lastPub := some s.now, pc := .publish s.now }
  | publish (t0 : ℕ) (hpc : s.pc = .publish t0) :
      ClientStep p s { s with pc := .wait t0 s.processed.length }
  | waitSet (t0 mark : ℕ) (deadline : ℚ) (hpc : s.pc = .wait t0 mark) (hset : s.event.isSome) :
      ClientStep p s { s with pc := .readGot t0 mark deadline }
  | waitUnset (t0 mark : ℕ) (deadline : ℚ) (hpc : s.pc = .wait t0 mark) :
      ClientStep p s { s with pc := .waiting t0 mark deadline }
  | woken (t0 mark : ℕ) (deadline : ℚ) (hpc : s.pc = .waiting t0 mark deadline)
      (hset : s.event.isSome) : ClientStep p s { s with pc := .readGot t0 mark deadline }
  | expired (t0 mark : ℕ) (deadline : ℚ) (hpc : s.pc = .waiting t0 mark deadline)
      (hnow : deadline ≤ s.now) (hset : ∀ set ∈ s.event, deadline ≤ set) :
      ClientStep p s (s.miss p t0 mark deadline)
  | missing (t0 mark : ℕ) (deadline : ℚ) (hpc : s.pc = .readGot t0 mark deadline)
      (hgot : s.got s.i = none) : ClientStep p s (s.miss p t0 mark deadline)
  | found (t0 mark : ℕ) (deadline : ℚ) (stamp : Stamp M) (hpc : s.pc = .readGot t0 mark deadline)
      (hgot : s.got s.i = some stamp) : ClientStep p s (s.hit p t0 mark deadline stamp)

/-- A statement of the loop is one of these. -/
theorem client_cases {p : Params M} {s s' : Loop M} {woken : Bool}
    (hs : s.client p woken = some s') : ClientStep p s s' := by
  unfold Loop.client at hs
  cases hpc : s.pc with
  | waitInterval =>
    simp only [hpc, Option.some.injEq] at hs
    subst hs
    cases hwake : s.waitInterval p with
    | none => exact .noGap hpc
    | some wake => exact .gap hpc wake hwake
  | sleep wake =>
    simp only [hpc] at hs
    split at hs
    · next hnow =>
      cases hs
      exact .awake wake hpc hnow
    · contradiction
  | clearEvent =>
    simp only [hpc, Option.some.injEq] at hs
    subst hs
    exact .clearEvent hpc
  | setExpect =>
    simp only [hpc] at hs
    split at hs
    · contradiction
    · next hfree =>
      cases hs
      exact .setExpect hpc (Bool.eq_false_iff.mpr hfree)
  | dropEntry =>
    simp only [hpc, Option.some.injEq] at hs
    subst hs
    exact .dropEntry hpc
  | takeT0 =>
    simp only [hpc, Option.some.injEq] at hs
    subst hs
    exact .takeT0 hpc
  | publish t0 =>
    simp only [hpc, Option.some.injEq] at hs
    subst hs
    exact .publish t0 hpc
  | wait t0 mark =>
    simp only [hpc, Option.some.injEq] at hs
    subst hs
    split
    · next hset => exact .waitSet t0 mark _ hpc hset
    · exact .waitUnset t0 mark _ hpc
  | waiting t0 mark deadline =>
    simp only [hpc] at hs
    split at hs
    · split at hs
      · next hset =>
        cases hs
        exact .woken t0 mark deadline hpc hset
      · contradiction
    · split at hs
      · next hend =>
        cases hs
        exact .expired t0 mark deadline hpc hend.1 hend.2
      · contradiction
  | readGot t0 mark deadline =>
    simp only [hpc] at hs
    split at hs
    · contradiction
    · split at hs
      · next hgot =>
        cases hs
        exact .missing t0 mark deadline hpc hgot
      · next stamp hgot =>
        cases hs
        exact .found t0 mark deadline stamp hpc hgot
  | finished => simp [hpc] at hs

/-- The statements of `on_pong`, each with what it finds and what it leaves. -/
inductive PongStep (p : Params M) (s : Loop M) : Loop M → Prop where
  | discard (arrival : ℕ) (message : M) (hpc : s.handler = .compare arrival message)
      (hseq : p.seqOf message = none) : PongStep p s { s with handler := .idle }
  | accept (arrival : ℕ) (message : M) (seq : ℕ) (hpc : s.handler = .compare arrival message)
      (hseq : p.seqOf message = some seq) (hloop : s.pc ≠ .dropEntry)
      (hexpect : (seq : ℤ) = s.expectSeq) :
      PongStep p s { s with handler := .store arrival message seq }
  | reject (arrival : ℕ) (message : M) (seq : ℕ) (hpc : s.handler = .compare arrival message)
      (hseq : p.seqOf message = some seq) (hexpect : (seq : ℤ) ≠ s.expectSeq) :
      PongStep p s { s with handler := .idle, processed := s.processed ++ [(seq, s.now)] }
  | store (arrival : ℕ) (message : M) (seq : ℕ) (hpc : s.handler = .store arrival message seq) :
      PongStep p s { s with
        got := Function.update s.got seq (some ⟨arrival, message⟩)
        handler := .setEvent seq }
  | setEvent (seq : ℕ) (hpc : s.handler = .setEvent seq) :
      PongStep p s { s with
        event := some (s.event.getD s.now)
        handler := .idle
        processed := s.processed ++ [(seq, s.now)] }

/-- A statement of `on_pong` is one of these. -/
theorem onPong_cases {p : Params M} {s s' : Loop M} (hs : s.onPong p = some s') :
    PongStep p s s' := by
  unfold Loop.onPong at hs
  cases hpc : s.handler with
  | idle => simp [hpc] at hs
  | compare arrival message =>
    simp only [hpc] at hs
    split at hs
    · next hseq =>
      cases hs
      exact .discard arrival message hpc hseq
    · next seq hseq =>
      split at hs
      · contradiction
      · next hloop =>
        split at hs
        · next hexpect =>
          cases hs
          exact .accept arrival message seq hpc hseq hloop hexpect
        · next hexpect =>
          cases hs
          exact .reject arrival message seq hpc hseq hexpect
  | store arrival message seq =>
    simp only [hpc, Option.some.injEq] at hs
    subst hs
    exact .store arrival message seq hpc
  | setEvent seq =>
    simp only [hpc, Option.some.injEq] at hs
    subst hs
    exact .setEvent seq hpc

/-- An arriving pong finds `on_pong` idle and takes its stamp. -/
theorem step_arrive {p : Params M} {s s' : Loop M} {message : M}
    (hs : s.step p (.arrive message) = some s') :
    s.handler = .idle ∧ s' = { s with handler := .compare s.now message } := by
  simp only [step] at hs
  split at hs
  · next hpc =>
    cases hs
    exact ⟨hpc, rfl⟩
  · contradiction

/-! ## Accounts of a run -/

/-- The loop keeps its books: one round for each ping so far, a timeout for each round that
found nothing, and a sample for each later round that found a pong. -/
structure Accounts (p : Params M) (s : Loop M) : Prop where
  covered : s.rounds.map Round.seq = List.range s.i
  counted : s.timeouts = s.rounds.countP (·.found.isNone)
  recorded : s.rttNs = s.rounds.filterMap (Round.rtt p.warmup)

/-- No ping has been played before the loop starts. -/
theorem accounts_start (p : Params M) (now : ℕ) : Accounts p (start p now) := ⟨rfl, rfl, rfl⟩

/-- Books depend on the history and the counters only. -/
theorem Accounts.congr {p : Params M} {s t : Loop M} (h : Accounts p s)
    (hrounds : t.rounds = s.rounds) (hi : t.i = s.i) (htimeouts : t.timeouts = s.timeouts)
    (hrtt : t.rttNs = s.rttNs) : Accounts p t := by
  constructor
  case covered =>
    rw [hrounds, hi]
    exact h.covered
  case counted =>
    rw [hrounds, htimeouts]
    exact h.counted
  case recorded =>
    rw [hrounds, hrtt]
    exact h.recorded

/-- A timeout is one more round without a pong. -/
theorem Accounts.miss {p : Params M} {s : Loop M} (h : Accounts p s) (t0 mark : ℕ)
    (deadline : ℚ) : Accounts p (s.miss p t0 mark deadline) := by
  constructor
  case covered => simp [Loop.miss, finishRound, h.covered, List.range_succ]
  case counted => simp [Loop.miss, finishRound, h.counted]
  case recorded => simp [Loop.miss, finishRound, h.recorded, Round.rtt]

/-- A pong is one more round, and one more sample after the warm-up. -/
theorem Accounts.hit {p : Params M} {s : Loop M} (h : Accounts p s) (t0 mark : ℕ)
    (deadline : ℚ) (stamp : Stamp M) : Accounts p (s.hit p t0 mark deadline stamp) := by
  constructor
  case covered => simp [Loop.hit, finishRound, h.covered, List.range_succ]
  case counted => simp [Loop.hit, finishRound, h.counted]
  case recorded =>
    by_cases hw : p.warmup ≤ s.i
    · simp [Loop.hit, finishRound, h.recorded, Round.rtt, hw]
    · simp [Loop.hit, finishRound, h.recorded, Round.rtt, hw]

/-- Every step keeps the books. -/
theorem accounts_step (p : Params M) (s : Loop M) (a : LoopAction M) (s' : Loop M)
    (h : Accounts p s) (hs : s.step p a = some s') : Accounts p s' := by
  cases a with
  | tick elapsed =>
    cases hs
    exact h.congr rfl rfl rfl rfl
  | client woken =>
    cases client_cases hs with
    | expired t0 mark deadline => exact h.miss t0 mark deadline
    | missing t0 mark deadline => exact h.miss t0 mark deadline
    | found t0 mark deadline stamp => exact h.hit t0 mark deadline stamp
    | _ => exact h.congr rfl rfl rfl rfl
  | arrive message =>
    obtain ⟨-, rfl⟩ := step_arrive hs
    exact h.congr rfl rfl rfl rfl
  | onPong => cases onPong_cases hs <;> exact h.congr rfl rfl rfl rfl

end Loop

end HzjDds.Bench
