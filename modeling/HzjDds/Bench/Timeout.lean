import Mathlib.Data.List.Basic
import HzjDds.Bench.PingPong

/-!
# Timeouts of the ping-pong loop

Library `Bench`. Source: `scripts/bench/pingpong.py:278–315` and the same lines of the other
three client loops. A ping may count as a timeout only if no pong with its number was
processed before its timeout was over. The loop clears the event outside the lock that
guards `expect_seq`, so the guarantee depends on what `on_pong` does in between.
-/

namespace HzjDds.Bench

open HzjDds.Transition

universe u

variable {M : Type u}

namespace Loop

/-- No ping counts as a timeout although its pong was there: every `on_pong` call for a ping
that found nothing, made after the ping was published, ended after the ping's timeout. -/
def NoSpuriousTimeout (s : Loop M) : Prop :=
  ∀ round ∈ s.rounds, round.found = none →
    ∀ call ∈ s.processed.drop round.mark, call.1 = round.seq → round.deadline ≤ call.2

instance : DecidablePred (NoSpuriousTimeout (M := M)) := fun _ ↦
  inferInstanceAs (Decidable (∀ round ∈ _, _ → ∀ call ∈ _, _ → _))

/-- `on_pong` does not set the event between the loop's `ev.clear()` and its `expect_seq = i`. -/
def ClearWindow (s : Loop M) : LoopAction M → Prop
  | .onPong => s.handler.setting → s.pc ≠ .setExpect
  | _ => True

instance (s : Loop M) : ∀ a, Decidable (ClearWindow s a)
  | .tick _ => isTrue trivial
  | .client _ => isTrue trivial
  | .arrive _ => isTrue trivial
  | .onPong => inferInstanceAs (Decidable (_ → _))

/-- The loop expects the current ping, and a set event means that its pong is stored. -/
def Armed (s : Loop M) : Prop :=
  s.expectSeq = s.i ∧ (s.event.isSome → (s.got s.i).isSome)

/-- Every call for the current ping since `mark` has left the event set. -/
def Answered (s : Loop M) (mark : ℕ) : Prop :=
  ∀ call ∈ s.processed.drop mark, call.1 = s.i → ∃ set ∈ s.event, set ≤ call.2

/-- What the loop relies on at a statement. -/
def AtPc (s : Loop M) : LoopPc → Prop
  | .setExpect => s.event = none
  | .dropEntry => s.event = none ∧ s.expectSeq = s.i ∧ s.handler.locked = false
  | .takeT0 => s.Armed
  | .publish _ => s.Armed
  | .wait _ mark => s.Armed ∧ s.Answered mark
  | .waiting _ mark _ => s.Armed ∧ s.Answered mark
  | .readGot _ mark _ => s.Armed ∧ s.Answered mark ∧ s.event.isSome
  | _ => True

/-- What `on_pong` relies on at a statement. -/
def AtPong (s : Loop M) : PongPc M → Prop
  | .store _ _ seq => (seq : ℤ) = s.expectSeq
  | .setEvent seq => (seq : ℤ) = s.expectSeq ∧ (s.got seq).isSome
  | _ => True

/-- Loop, `on_pong` and history in a run with clear windows. -/
structure Inv (s : Loop M) : Prop where
  stamp : ∀ set ∈ s.event, set ≤ s.now
  loop : s.AtPc s.pc
  pong : s.AtPong s.handler
  past : ∀ round ∈ s.rounds, round.found = none → round.deadline ≤ s.now
  timely : s.NoSpuriousTimeout

/-- The loop before its first ping. -/
theorem inv_start (p : Params M) (now : ℕ) : Inv (start p now) := by
  constructor
  case stamp => exact fun _ h ↦ by contradiction
  case loop =>
    unfold start
    split <;> trivial
  case pong => trivial
  case past => exact fun _ h ↦ by contradiction
  case timely => exact fun _ h ↦ by contradiction

private theorem mem_drop_concat {α : Type*} {l : List α} {x y : α} {n : ℕ}
    (h : y ∈ (l ++ [x]).drop n) : y ∈ l.drop n ∨ y = x := by
  rw [List.drop_append] at h
  rcases List.mem_append.mp h with h | h
  · exact Or.inl h
  · exact Or.inr (List.mem_singleton.mp (List.mem_of_mem_drop h))

private theorem Inv.timely_concat {s t : Loop M} (h : Inv s) (seq : ℕ) (hrounds : t.rounds = s.rounds)
    (hprocessed : t.processed = s.processed ++ [(seq, s.now)]) : t.NoSpuriousTimeout := by
  intro round hround hfound call hcall hseq
  rw [hrounds] at hround
  rw [hprocessed] at hcall
  rcases mem_drop_concat hcall with hold | rfl
  · exact h.timely round hround hfound call hold hseq
  · exact h.past round hround hfound

/-- The call for the current ping has been answered, or is none of its business. -/
theorem Answered.concat {s t : Loop M} {mark seq : ℕ} (h : s.Answered mark) (hi : t.i = s.i)
    (hevent : ∀ set ∈ s.event, set ∈ t.event)
    (hprocessed : t.processed = s.processed ++ [(seq, s.now)])
    (hnew : seq = s.i → ∃ set ∈ t.event, set ≤ s.now) : t.Answered mark := by
  intro call hcall hseq
  rw [hprocessed] at hcall
  rw [hi] at hseq
  rcases mem_drop_concat hcall with hold | rfl
  · obtain ⟨set, hset, hle⟩ := h call hold hseq
    exact ⟨set, hevent set hset, hle⟩
  · exact hnew hseq

private theorem atPc_finishRound (p : Params M) (s : Loop M) (round : Round M) :
    (s.finishRound p round).AtPc (s.finishRound p round).pc := by
  simp only [finishRound]
  split <;> trivial

/-- A ping is over: it found a pong, or its timeout is over and no pong for it was in time. -/
theorem Inv.finishRound {p : Params M} {s : Loop M} {round : Round M} (h : Inv s)
    (hround : round.found = none → round.deadline ≤ s.now ∧
      ∀ call ∈ s.processed.drop round.mark, call.1 = round.seq → round.deadline ≤ call.2) :
    Inv (s.finishRound p round) := by
  constructor
  case stamp => exact h.stamp
  case loop => exact atPc_finishRound ..
  case pong => exact h.pong
  case past =>
    intro other hother hfound
    rcases List.mem_append.mp hother with hold | hnew
    · exact h.past other hold hfound
    · obtain rfl := List.mem_singleton.mp hnew
      exact (hround hfound).1
  case timely =>
    intro other hother hfound
    rcases List.mem_append.mp hother with hold | hnew
    · exact h.timely other hold hfound
    · obtain rfl := List.mem_singleton.mp hnew
      exact (hround hfound).2

/-- A timeout that is over when no pong for the ping was in time. -/
theorem Inv.miss {p : Params M} {s : Loop M} (h : Inv s) {t0 mark : ℕ} {deadline : ℚ}
    (hnow : deadline ≤ s.now)
    (hcalls : ∀ call ∈ s.processed.drop mark, call.1 = s.i → deadline ≤ call.2) :
    Inv (s.miss p t0 mark deadline) :=
  Inv.finishRound ⟨h.stamp, h.loop, h.pong, h.past, h.timely⟩ fun _ ↦ ⟨hnow, hcalls⟩

/-- A ping with a pong does not time out. -/
theorem Inv.hit {p : Params M} {s : Loop M} (h : Inv s) {t0 mark : ℕ} {deadline : ℚ}
    {stamp : Stamp M} : Inv (s.hit p t0 mark deadline stamp) :=
  Inv.finishRound ⟨h.stamp, h.loop, h.pong, h.past, h.timely⟩ fun hnone ↦ by contradiction

/-- A statement of the loop. -/
theorem Inv.client {p : Params M} {s s' : Loop M} (h : Inv s) (hs : ClientStep p s s') :
    Inv s' := by
  have hloop := h.loop
  cases hs with
  | noGap => exact ⟨h.stamp, trivial, h.pong, h.past, h.timely⟩
  | gap => exact ⟨h.stamp, trivial, h.pong, h.past, h.timely⟩
  | awake => exact ⟨h.stamp, trivial, h.pong, h.past, h.timely⟩
  | clearEvent => exact ⟨fun _ h ↦ by contradiction, rfl, h.pong, h.past, h.timely⟩
  | setExpect hpc hfree =>
    rw [hpc] at hloop
    refine ⟨h.stamp, ⟨hloop, rfl, hfree⟩, ?_, h.past, h.timely⟩
    cases hhandler : s.handler with
    | store => simp [hhandler, PongPc.locked] at hfree
    | setEvent => simp [hhandler, PongPc.locked] at hfree
    | _ => trivial
  | dropEntry hpc =>
    rw [hpc] at hloop
    obtain ⟨hevent, hexpect, hfree⟩ := hloop
    refine ⟨h.stamp, ⟨hexpect, fun hset ↦ by simp [hevent] at hset⟩, ?_, h.past, h.timely⟩
    cases hhandler : s.handler with
    | store => simp [hhandler, PongPc.locked] at hfree
    | setEvent => simp [hhandler, PongPc.locked] at hfree
    | _ => trivial
  | takeT0 hpc =>
    rw [hpc] at hloop
    exact ⟨h.stamp, hloop, h.pong, h.past, h.timely⟩
  | publish t0 hpc =>
    rw [hpc] at hloop
    refine ⟨h.stamp, ⟨hloop, fun call hcall ↦ ?_⟩, h.pong, h.past, h.timely⟩
    simp at hcall
  | waitSet t0 mark deadline hpc hset =>
    rw [hpc] at hloop
    exact ⟨h.stamp, ⟨hloop.1, hloop.2, hset⟩, h.pong, h.past, h.timely⟩
  | waitUnset t0 mark deadline hpc =>
    rw [hpc] at hloop
    exact ⟨h.stamp, hloop, h.pong, h.past, h.timely⟩
  | woken t0 mark deadline hpc hset =>
    rw [hpc] at hloop
    exact ⟨h.stamp, ⟨hloop.1, hloop.2, hset⟩, h.pong, h.past, h.timely⟩
  | expired t0 mark deadline hpc hnow hset =>
    rw [hpc] at hloop
    apply h.miss hnow
    intro call hcall hseq
    obtain ⟨set, hevent, hle⟩ := hloop.2 call hcall hseq
    exact (hset set hevent).trans (by exact_mod_cast hle)
  | missing t0 mark deadline hpc hgot =>
    rw [hpc] at hloop
    obtain ⟨⟨-, hstored⟩, -, hset⟩ := hloop
    simp [hgot] at hstored
    simp [hstored] at hset
  | found => exact h.hit

/-- What the loop relies on survives a call that ends without touching the event. -/
theorem AtPc.reject {s : Loop M} {seq : ℕ} (h : s.AtPc s.pc) (hexpect : (seq : ℤ) ≠ s.expectSeq) :
    AtPc { s with handler := .idle, processed := s.processed ++ [(seq, s.now)] } s.pc := by
  have hnew : ∀ {mark}, s.Armed → s.Answered mark →
      Answered { s with handler := .idle, processed := s.processed ++ [(seq, s.now)] } mark := by
    intro mark harmed hanswered
    have hother : seq ≠ s.i := by
      rintro rfl
      exact hexpect harmed.1.symm
    exact hanswered.concat rfl (fun _ h ↦ h) rfl fun hseq ↦ absurd hseq hother
  cases hpc : s.pc <;> rw [hpc] at h
  case dropEntry => exact ⟨h.1, h.2.1, rfl⟩
  case wait => exact ⟨h.1, hnew h.1 h.2⟩
  case waiting => exact ⟨h.1, hnew h.1 h.2⟩
  case readGot => exact ⟨h.1, hnew h.1 h.2.1, h.2.2⟩
  all_goals exact h

/-- What the loop relies on survives an entry that `on_pong` stores. -/
theorem AtPc.store {s : Loop M} {arrival seq : ℕ} {message : M} (h : s.AtPc s.pc)
    (hpong : s.handler = .store arrival message seq) :
    AtPc { s with
      got := Function.update s.got seq (some ⟨arrival, message⟩)
      handler := .setEvent seq } s.pc := by
  have hnew : s.Armed → Armed { s with
      got := Function.update s.got seq (some ⟨arrival, message⟩), handler := .setEvent seq } := by
    rintro ⟨hexpect, hstored⟩
    constructor
    · exact hexpect
    · intro hset
      by_cases hi : s.i = seq
      · simp [hi]
      · simp only [Function.update_of_ne hi]
        exact hstored hset
  cases hpc : s.pc <;> rw [hpc] at h
  case dropEntry => simp [AtPc, hpong, PongPc.locked] at h
  case takeT0 => exact hnew h
  case publish => exact hnew h
  case wait => exact ⟨hnew h.1, h.2⟩
  case waiting => exact ⟨hnew h.1, h.2⟩
  case readGot => exact ⟨hnew h.1, h.2⟩
  all_goals exact h

/-- What the loop relies on survives `ev.set()` outside the window: the event is set for the
ping the loop expects, whose pong is stored. -/
theorem AtPc.setEvent {s : Loop M} {seq : ℕ} (h : s.AtPc s.pc)
    (hpong : s.handler = .setEvent seq) (hok : s.pc ≠ .setExpect)
    (hexpect : (seq : ℤ) = s.expectSeq) (hstored : (s.got seq).isSome)
    (hstamp : ∀ set ∈ s.event, set ≤ s.now) :
    AtPc { s with
      event := some (s.event.getD s.now)
      handler := .idle
      processed := s.processed ++ [(seq, s.now)] } s.pc := by
  have harmed : s.Armed → Armed { s with
      event := some (s.event.getD s.now), handler := .idle,
      processed := s.processed ++ [(seq, s.now)] } := by
    rintro ⟨hi, -⟩
    have hseq : seq = s.i := by
      rw [hi] at hexpect
      exact_mod_cast hexpect
    constructor
    · exact hi
    · intro _
      rw [hseq] at hstored
      exact hstored
  have hanswered : ∀ {mark}, s.Answered mark → Answered { s with
      event := some (s.event.getD s.now), handler := .idle,
      processed := s.processed ++ [(seq, s.now)] } mark := by
    refine fun h ↦ h.concat rfl (fun set hset ↦ ?_) rfl fun _ ↦ ⟨_, rfl, ?_⟩
    · rw [Option.mem_def.mp hset]
      rfl
    · cases hevent : s.event with
      | none => exact le_rfl
      | some set => exact hstamp set hevent
  cases hpc : s.pc <;> rw [hpc] at h
  case setExpect => exact absurd hpc hok
  case dropEntry => simp [AtPc, hpong, PongPc.locked] at h
  case takeT0 => exact harmed h
  case publish => exact harmed h
  case wait => exact ⟨harmed h.1, hanswered h.2⟩
  case waiting => exact ⟨harmed h.1, hanswered h.2⟩
  case readGot => exact ⟨harmed h.1, hanswered h.2.1, rfl⟩
  all_goals trivial

/-- A statement of `on_pong` outside the window. -/
theorem Inv.onPong {p : Params M} {s s' : Loop M} (h : Inv s) (hok : ClearWindow s .onPong)
    (hs : PongStep p s s') : Inv s' := by
  have hpong := h.pong
  cases hs with
  | discard arrival message hpc =>
    refine ⟨h.stamp, ?_, trivial, h.past, h.timely⟩
    have hloop := h.loop
    cases hloc : s.pc <;> rw [hloc] at hloop
    case dropEntry => exact ⟨hloop.1, hloop.2.1, rfl⟩
    all_goals exact hloop
  | accept arrival message seq hpc hseq hloc hexpect =>
    refine ⟨h.stamp, ?_, hexpect, h.past, h.timely⟩
    have hloop := h.loop
    cases hcase : s.pc <;> rw [hcase] at hloop
    case dropEntry => exact absurd hcase hloc
    all_goals exact hloop
  | reject arrival message seq hpc hseq hexpect =>
    exact ⟨h.stamp, AtPc.reject h.loop hexpect, trivial, h.past, h.timely_concat seq rfl rfl⟩
  | store arrival message seq hpc =>
    rw [hpc] at hpong
    exact ⟨h.stamp, AtPc.store h.loop hpc, ⟨hpong, by simp⟩, h.past, h.timely⟩
  | setEvent seq hpc =>
    rw [hpc] at hpong
    have hloop := AtPc.setEvent h.loop hpc (hok (by rw [hpc]; rfl)) hpong.1 hpong.2 h.stamp
    refine ⟨?_, hloop, trivial, h.past, h.timely_concat seq rfl rfl⟩
    rintro set ⟨⟩
    cases hevent : s.event with
    | none => exact le_rfl
    | some set => exact h.stamp set hevent

/-- Every step with a clear window keeps the invariant. -/
theorem inv_step (p : Params M) (s : Loop M) (a : LoopAction M) (s' : Loop M) (h : Inv s)
    (hok : ClearWindow s a) (hs : s.step p a = some s') : Inv s' := by
  cases a with
  | tick elapsed =>
    cases hs
    refine ⟨fun set hset ↦ (h.stamp set hset).trans (Nat.le_add_right ..), h.loop, h.pong, ?_,
      h.timely⟩
    intro round hround hfound
    exact (h.past round hround hfound).trans (by exact_mod_cast Nat.le_add_right ..)
  | client woken => exact h.client (client_cases hs)
  | arrive message =>
    obtain ⟨hidle, rfl⟩ := step_arrive hs
    refine ⟨h.stamp, ?_, trivial, h.past, h.timely⟩
    have hloop := h.loop
    cases hpc : s.pc <;> rw [hpc] at hloop
    case dropEntry => exact ⟨hloop.1, hloop.2.1, rfl⟩
    all_goals exact hloop
  | onPong => exact h.onPong hok (onPong_cases hs)

/-- In every run in which `on_pong` never sets the event between the loop's clear and its
`expect_seq = i`, the books are right and no timeout is spurious. -/
theorem noSpuriousTimeout_of_clearWindow {p : Params M} {now : ℕ} {actions : List (LoopAction M)}
    (hok : AllSteps (step p) ClearWindow (start p now) actions) :
    AllStates (step p) (fun s ↦ Accounts p s ∧ NoSpuriousTimeout s) (start p now) actions :=
  hok.allStates (I := fun s ↦ Accounts p s ∧ Inv s) ⟨accounts_start p now, inv_start p now⟩
    (fun s a s' h hok hs ↦ ⟨accounts_step p s a s' h.1 hs, inv_step p s a s' h.2 hok hs⟩)
    fun _ h ↦ ⟨h.1, h.2.timely⟩

/-- Two pings with a timeout of one second. -/
private def twoPings : Params ℕ := ⟨0, 2, 1, 0, some⟩

private def nextPublish : List (LoopAction ℕ) := List.replicate 6 (.client false)

/-- A ping whose pong comes while the loop waits. -/
theorem noSpuriousTimeout_of_clearWindow_pong :
    AllStates (step twoPings) (fun s ↦ Accounts twoPings s ∧ NoSpuriousTimeout s)
      (start twoPings 0) (nextPublish ++ [.client false, .tick 5, .arrive 0, .onPong, .onPong,
        .onPong, .client true, .client false]) :=
  noSpuriousTimeout_of_clearWindow (by decide +kernel)

/-- The pong of ping 0 is late and sets the event after the loop's clear for ping 1: the wait
for ping 1 ends at once and counts a timeout, long before its second is over, and the pong of
ping 1 is processed in time. -/
theorem late_pong_times_out_next_ping :
    ¬ ∀ p : Params ℕ, ∀ actions, AllStates (step p)
      (fun s ↦ Accounts p s ∧ NoSpuriousTimeout s) (start p 0) actions := by
  intro h
  have hbad : ¬ AllStates (step twoPings) NoSpuriousTimeout (start twoPings 0)
      (nextPublish ++ [.client false, .tick 1000000000, .client false, .client false, .arrive 0,
        .onPong, .onPong, .client false, .onPong, .client false, .client false, .client false,
        .client false, .client false, .client false, .arrive 1, .onPong, .onPong, .onPong]) := by
    decide +kernel
  exact hbad fun bs t hbs ht ↦ (h twoPings _ bs t hbs ht).2

end Loop

end HzjDds.Bench
