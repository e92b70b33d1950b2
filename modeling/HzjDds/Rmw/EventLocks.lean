import HzjDds.Rmw.Events
import HzjDds.Transition.LockOrder
import Mathlib.Algebra.Order.BigOperators.Group.Finset

/-!
# The mutexes of a subscription and its reader

Library `Rmw`. Source: `custom_subscriber_info.cpp:131–138,281–289`. `on_new_event_m_` is not held
across a call of the reader, whose threads take it while they hold the mutex of the reader. So the
mutexes are taken in one order, and every call of the subscription and of its listener returns.
-/

namespace HzjDds.Rmw

open HzjDds.Transition

universe u

namespace EventPc

/-- Mutexes that a call has. -/
def holds : EventPc → EventMutex → Bool
  | record o, m | dispatch o, m | get o, m | lockEvent o _, m | finish o, m => o.mutex = some m
  | update o _, m => o.mutex = some m || m = .on_new_event
  | check _ _, m | adopt _ _ _, m | report _, m | tell _ _, m | install _ _, m => m = .on_new_event
  | _, _ => false

/-- Mutex that a call needs next and does not have. -/
def waits : EventPc → Option EventMutex
  | enter o => o.mutex
  | get o => if o.mutex = some .reader then none else some .reader
  | query _ _ => some .reader
  | lockEvent _ _ | lock _ _ | relock _ _ _ => some .on_new_event
  | _ => none

/-- Bound on the steps that a call has to go. -/
def left : EventPc → ℕ
  | enter _ => 7
  | record _ => 6
  | dispatch _ => 5
  | get _ => 4
  | lockEvent _ _ => 3
  | update _ _ => 2
  | finish _ => 1
  | getMask _ _ => 9
  | lock _ _ => 8
  | check _ _ => 7
  | query _ _ => 6
  | relock _ _ _ => 5
  | adopt _ _ _ => 4
  | report _ => 3
  | tell _ _ => 3
  | install _ _ => 2
  | setListener _ => 1

end EventPc

/-- Rank of a mutex in the order in which they are taken. -/
def EventMutex.rank : EventMutex → ℕ
  | matching_info => 0
  | reader => 1
  | on_new_event => 2

private theorem EventPc.rank_lt {pc : EventPc} {m m' : EventMutex} (hholds : pc.holds m = true)
    (hwaits : pc.waits = some m') : m.rank < m'.rank := by
  cases pc with
  | get o =>
    simp only [holds, decide_eq_true_eq] at hholds
    simp only [waits] at hwaits
    cases o <;> cases hholds <;> cases hwaits
    decide
  | lockEvent o status =>
    simp only [holds, decide_eq_true_eq] at hholds
    cases hwaits
    cases o <;> cases hholds <;> decide
  | enter _ | query _ _ | lock _ _ | relock _ _ _ => cases hholds
  | _ => cases hwaits

namespace RMWSubscriptionEvent

variable {θ : Type u} [DecidableEq θ] {s s' : RMWSubscriptionEvent θ} {t : θ} {pc : EventPc}

/-! ## Who has the mutexes -/

omit [DecidableEq θ] in
/-- In a reachable state the mutexes belong to the calls that are inside them. -/
def Locked (s : RMWSubscriptionEvent θ) : Prop :=
  ∀ m t, s.mutexes m = some t ↔ (s.calls t).elim false (·.holds m) = true

/-- A thread goes on with the mutexes that it has. -/
theorem Locked.goto (h : Locked s) (hpc : s.calls t = some pc) {after : Option EventPc}
    (hmutexes : s'.mutexes = s.mutexes) (hcalls : s'.calls = Function.update s.calls t after)
    (hholds : ∀ m, after.elim false (·.holds m) = pc.holds m) : Locked s' := by
  intro m u
  rw [hmutexes, h m u, hcalls, Function.update_apply]
  split
  · next hut => rw [hut, hpc, hholds, Option.elim_some]
  · rfl

/-- A thread takes a mutex. -/
theorem Locked.acquire (h : Locked s) (hpc : s.calls t = some pc) {m : EventMutex} {next : EventPc}
    (hfree : s.mutexes m = none)
    (hholds : ∀ m', next.holds m' = true ↔ pc.holds m' = true ∨ m' = m) :
    Locked ((s.setMutex m (some t)).goto t (some next)) := by
  intro m' u
  simp only [goto_mutexes, setMutex_mutexes, goto_calls, setMutex_calls, Function.update_apply]
  by_cases hut : u = t
  · rw [if_pos hut, Option.elim_some, hholds, hut]
    split
    · next hm => simp [hm]
    · next hm => rw [h m' t, hpc, Option.elim_some, or_iff_left hm]
  · rw [if_neg hut, ← h m' u]
    split
    · next hm =>
      rw [hm, hfree, Option.some_inj]
      exact ⟨fun htu ↦ absurd htu.symm hut, fun hnone ↦ by cases hnone⟩
    · rfl

/-- A thread gives a mutex back. -/
theorem Locked.release (h : Locked s) (hpc : s.calls t = some pc) {m : EventMutex}
    {after : Option EventPc} (hmutexes : s'.mutexes = Function.update s.mutexes m none)
    (hcalls : s'.calls = Function.update s.calls t after) (hhas : pc.holds m = true)
    (hholds : ∀ m', after.elim false (·.holds m') = true ↔ pc.holds m' = true ∧ m' ≠ m) :
    Locked s' := by
  have hheld : s.mutexes m = some t := (h m t).mpr (by rw [hpc]; exact hhas)
  intro m' u
  rw [hmutexes, hcalls]
  simp only [Function.update_apply]
  by_cases hut : u = t
  · rw [if_pos hut, hholds, hut]
    split
    · next hm => simp [hm]
    · next hm => rw [h m' t, hpc, Option.elim_some, and_iff_left hm]
  · rw [if_neg hut, ← h m' u]
    split
    · next hm =>
      rw [hm, hheld, Option.some_inj]
      exact ⟨fun hnone ↦ (by cases hnone), fun htu ↦ absurd htu.symm hut⟩
    · rfl

omit [DecidableEq θ] in
/-- A mutex that is given back is one that the call has. -/
theorem Locked.of_calls (h : Locked s) (hpc : s.calls t = some pc) {m : EventMutex}
    (hholds : pc.holds m = true) : s.mutexes m = some t :=
  (h m t).mpr (by rw [hpc]; exact hholds)

/-- What `acquire` needs and does. -/
theorem acquire_eq_some {m : EventMutex} : s.acquire t m pc = some s' ↔
    s.mutexes m = none ∧ (s.setMutex m (some t)).goto t (some pc) = s' := by
  rw [acquire, Option.ite_none_right_eq_some, Option.some_inj]

/-- The mutexes stay with the calls that are inside them. -/
theorem Locked.next (h : Locked s) (hpc : s.calls t = some pc) (hs : s.next t pc = some s') :
    Locked s' := by
  cases pc with
  | enter o =>
    cases hm : o.mutex with
    | none =>
      simp only [RMWSubscriptionEvent.next, hm] at hs
      cases hs
      exact h.goto hpc rfl rfl (by simp [EventPc.holds, hm])
    | some m =>
      simp only [RMWSubscriptionEvent.next, hm, Option.elim_some] at hs
      obtain ⟨hfree, rfl⟩ := acquire_eq_some.mp hs
      exact h.acquire hpc hfree (by simp [EventPc.holds, hm, eq_comm])
  | record o =>
    cases hs
    refine h.goto hpc rfl rfl fun m ↦ ?_
    split <;> rfl
  | dispatch o =>
    cases hs
    refine h.goto hpc rfl rfl fun m ↦ ?_
    split_ifs <;> rfl
  | get o =>
    simp only [RMWSubscriptionEvent.next] at hs
    split at hs
    · cases hs
      refine h.goto hpc rfl rfl fun m ↦ ?_
      split_ifs <;> rfl
    · contradiction
  | lockEvent o status =>
    obtain ⟨hfree, rfl⟩ := acquire_eq_some.mp hs
    exact h.acquire hpc hfree (by simp [EventPc.holds])
  | update o status =>
    have hmutex : o.mutex ≠ some .on_new_event := by cases o <;> simp [Occurrence.mutex]
    cases hs
    refine h.release hpc (m := .on_new_event) rfl rfl (by simp [EventPc.holds]) fun m ↦ ?_
    simp only [EventPc.holds, Option.elim_some, decide_eq_true_eq, Bool.or_eq_true, or_and_right,
      and_not_self, or_false, ne_eq]
    exact ⟨fun hm ↦ ⟨hm, fun heq ↦ hmutex (heq ▸ hm)⟩, And.left⟩
  | finish o =>
    cases hm : o.mutex with
    | none =>
      simp only [RMWSubscriptionEvent.next, hm] at hs
      cases hs
      exact h.goto hpc rfl rfl (by simp [EventPc.holds, hm])
    | some m =>
      simp only [RMWSubscriptionEvent.next, hm, Option.elim_some] at hs
      cases hs
      exact h.release hpc (m := m) rfl rfl (by simp [EventPc.holds, hm])
        (by simp [EventPc.holds, hm, eq_comm])
  | getMask e callback =>
    cases hs
    exact h.goto hpc rfl rfl fun _ ↦ rfl
  | lock e use | relock e use current =>
    obtain ⟨hfree, rfl⟩ := acquire_eq_some.mp hs
    exact h.acquire hpc hfree (by simp [EventPc.holds])
  | check e use =>
    rcases use with _ | ⟨_ | _, status_mask⟩
    · simp only [RMWSubscriptionEvent.next] at hs
      split at hs <;> cases hs
      · exact h.release hpc (m := .on_new_event) rfl rfl rfl (by simp [EventPc.holds])
      · exact h.goto hpc rfl rfl fun _ ↦ rfl
    · cases hs
      exact h.release hpc (m := .on_new_event) rfl rfl rfl (by simp [EventPc.holds])
    · simp only [RMWSubscriptionEvent.next] at hs
      split at hs <;> cases hs
      · exact h.release hpc (m := .on_new_event) rfl rfl rfl (by simp [EventPc.holds])
      · refine h.goto hpc rfl rfl fun m ↦ ?_
        split <;> rfl
  | query e use =>
    simp only [RMWSubscriptionEvent.next] at hs
    split at hs
    · cases hs
      exact h.goto hpc rfl rfl fun _ ↦ rfl
    · contradiction
  | adopt e use current =>
    cases use with
    | take =>
      simp only [RMWSubscriptionEvent.next] at hs
      split at hs <;> cases hs
      · exact h.release hpc (m := .on_new_event) rfl rfl rfl (by simp [EventPc.holds])
      · exact h.goto hpc rfl rfl fun _ ↦ rfl
    | set callback status_mask =>
      simp only [RMWSubscriptionEvent.next] at hs
      split at hs <;> cases hs
      · exact h.goto hpc rfl rfl fun _ ↦ rfl
      · exact h.goto hpc rfl rfl fun _ ↦ rfl
  | report e =>
    cases hs
    exact h.release hpc (m := .on_new_event) rfl rfl rfl (by simp [EventPc.holds])
  | tell e status_mask =>
    cases hs
    exact h.goto hpc rfl rfl fun _ ↦ rfl
  | install e status_mask =>
    cases hs
    exact h.release hpc (m := .on_new_event) rfl rfl rfl (by simp [EventPc.holds])
  | setListener status_mask =>
    cases hs
    exact h.goto hpc rfl rfl fun _ ↦ rfl

/-- The mutexes belong to the calls after every step. -/
theorem locked_step (s : RMWSubscriptionEvent θ) (a : EventAction θ) (s' : RMWSubscriptionEvent θ)
    (h : Locked s) (hs : s.step a = some s') : Locked s' := by
  cases a with
  | call t call =>
    simp only [step] at hs
    split at hs
    · next hnone =>
      cases hs
      intro m u
      rw [goto_mutexes, h m u, goto_calls, Function.update_apply]
      split
      · next hut =>
        rw [hut, hnone]
        cases call <;> simp [EventCall.first, EventPc.holds]
      · rfl
    · contradiction
  | next t =>
    obtain ⟨pc, hpc, hs⟩ := Option.bind_eq_some_iff.mp hs
    exact h.next hpc hs

/-! ## Every call returns -/

/-- A call that finds its mutex free goes on. -/
theorem Locked.isSome_next (h : Locked s) (hpc : s.calls t = some pc)
    (hfree : ∀ m, pc.waits = some m → s.mutexes m = none) : (s.next t pc).isSome := by
  have hacquire : ∀ m next, pc.waits = some m → (s.acquire t m next).isSome := fun m next hm ↦ by
    rw [RMWSubscriptionEvent.acquire, if_pos (hfree m hm), Option.isSome_some]
  cases pc with
  | enter o =>
    cases hm : o.mutex with
    | none => simp [RMWSubscriptionEvent.next, hm]
    | some m =>
      simp only [RMWSubscriptionEvent.next, hm, Option.elim_some]
      exact hacquire m _ hm
  | get o =>
    have hreader : s.mutexes .reader = none ∨ s.mutexes .reader = some t := by
      by_cases hm : o.mutex = some .reader
      · exact .inr (h.of_calls hpc (by simp [EventPc.holds, hm]))
      · exact .inl (hfree .reader (by simp [EventPc.waits, hm]))
    simp [RMWSubscriptionEvent.next, hreader]
  | lockEvent o status | lock e use | relock e use current => exact hacquire _ _ rfl
  | query e use => simp [RMWSubscriptionEvent.next, hfree .reader rfl]
  | check e use =>
    rcases use with _ | ⟨_ | _, status_mask⟩
    · simp only [RMWSubscriptionEvent.next]
      split <;> rfl
    · rfl
    · simp only [RMWSubscriptionEvent.next]
      split <;> rfl
  | adopt e use current =>
    cases use <;> simp only [RMWSubscriptionEvent.next] <;> split <;> rfl
  | _ => rfl

/-- While a call is in progress, some call can go on. -/
theorem Locked.exists_next (h : Locked s) (hcall : s.calls t ≠ none) :
    ∃ u, (s.step (.next u)).isSome := by
  have horder : ∀ m m' u, s.mutexes m = some u → (s.calls u).bind EventPc.waits = some m' →
      m.rank < m'.rank := by
    intro m m' u hheld hwaits
    obtain ⟨pc, hpc, hwaits⟩ := Option.bind_eq_some_iff.mp hwaits
    have hholds := (h m u).mp hheld
    rw [hpc] at hholds
    exact EventPc.rank_lt hholds hwaits
  obtain ⟨u, hu, hfree⟩ := exists_unblocked (n := 2) (fun m ↦ by cases m <;> decide) horder t
  have hcall : s.calls u ≠ none := by
    rcases hu with rfl | ⟨m, hheld⟩
    · exact hcall
    · intro hnone
      have hholds := (h m u).mp hheld
      rw [hnone] at hholds
      cases hholds
  obtain ⟨pc, hpc⟩ := Option.ne_none_iff_exists'.mp hcall
  refine ⟨u, ?_⟩
  rw [step, hpc, Option.bind_some]
  exact h.isSome_next hpc fun m hm ↦ hfree m (by rw [hpc]; exact hm)

/-- A step of a call brings it closer to its end. -/
theorem left_lt_of_next (hs : s.next t pc = some s') : ∃ after : Option EventPc,
    s'.calls = Function.update s.calls t after ∧ after.elim 0 EventPc.left < pc.left := by
  cases pc with
  | enter o =>
    cases hm : o.mutex with
    | none =>
      simp only [next, hm] at hs
      cases hs
      exact ⟨some (.record o), rfl, by simp [EventPc.left]⟩
    | some m =>
      simp only [next, hm, Option.elim_some] at hs
      obtain ⟨-, rfl⟩ := acquire_eq_some.mp hs
      exact ⟨some (.record o), rfl, by simp [EventPc.left]⟩
  | record o =>
    cases hs
    refine ⟨_, rfl, ?_⟩
    split <;> simp [EventPc.left]
  | dispatch o =>
    cases hs
    refine ⟨_, rfl, ?_⟩
    split_ifs <;> simp [EventPc.left]
  | get o =>
    simp only [next] at hs
    split at hs
    · cases hs
      refine ⟨_, rfl, ?_⟩
      split <;> simp [EventPc.left]
    · contradiction
  | lockEvent o status | lock e use | relock e use current =>
    obtain ⟨-, rfl⟩ := acquire_eq_some.mp hs
    exact ⟨_, rfl, Nat.lt_succ_self _⟩
  | finish o =>
    cases hm : o.mutex <;> simp only [next, hm] at hs <;> cases hs <;>
      exact ⟨none, rfl, by simp [EventPc.left]⟩
  | check e use =>
    rcases use with _ | ⟨_ | _, status_mask⟩
    · simp only [next] at hs
      split at hs <;> cases hs <;> exact ⟨_, rfl, by simp [EventPc.left]⟩
    · cases hs
      exact ⟨_, rfl, by simp [EventPc.left]⟩
    · simp only [next] at hs
      split at hs <;> cases hs
      · exact ⟨_, rfl, Nat.lt_succ_self _⟩
      · refine ⟨_, rfl, ?_⟩
        split <;> simp [EventPc.left]
  | query e use =>
    simp only [next] at hs
    split at hs
    · cases hs
      exact ⟨_, rfl, Nat.lt_succ_self _⟩
    · contradiction
  | adopt e use current =>
    cases use <;> simp only [next] at hs <;> split at hs <;> cases hs
    · exact ⟨none, rfl, by simp [EventPc.left]⟩
    · exact ⟨_, rfl, by simp [EventPc.left]⟩
    · exact ⟨_, rfl, by simp [EventPc.left]⟩
    · exact ⟨_, rfl, by simp [EventPc.left]⟩
  | _ =>
    cases hs
    exact ⟨_, rfl, by simp [EventPc.left]⟩

variable [Fintype θ]

omit [DecidableEq θ] in
/-- Bound on the steps that the calls in progress have to go. -/
def toGo (s : RMWSubscriptionEvent θ) : ℕ := ∑ t, (s.calls t).elim 0 EventPc.left

/-- A step without a new call brings the calls closer to their end. -/
theorem toGo_lt (hs : s.step (.next t) = some s') : s'.toGo < s.toGo := by
  obtain ⟨pc, hpc, hs⟩ := Option.bind_eq_some_iff.mp hs
  obtain ⟨after, hcalls, hlt⟩ := left_lt_of_next hs
  refine Finset.sum_lt_sum (fun u _ ↦ ?_) ⟨t, Finset.mem_univ t, ?_⟩
  · rw [hcalls, Function.update_apply]
    split
    · next hut => rw [hut, hpc]; exact hlt.le
    · exact le_rfl
  · rw [hcalls, Function.update_self, hpc]
    exact hlt

private theorem Locked.exists_returned (h : Locked s) :
    ∃ (ts : List θ) (s' : _), run step s (ts.map .next) = some s' ∧ ∀ t, s'.calls t = none := by
  induction hn : s.toGo using Nat.strongRecOn generalizing s with
  | ind n ih =>
    by_cases hdone : ∀ t, s.calls t = none
    · exact ⟨[], s, rfl, hdone⟩
    · push Not at hdone
      obtain ⟨t, ht⟩ := hdone
      obtain ⟨u, hu⟩ := h.exists_next ht
      obtain ⟨m, hm⟩ := Option.isSome_iff_exists.mp hu
      obtain ⟨ts, s', hs', hdone⟩ := ih m.toGo (hn ▸ toGo_lt hm) (locked_step s _ m h hm) rfl
      exact ⟨u :: ts, s', by rw [List.map_cons, run_cons, hm]; exact hs', hdone⟩

/-- No deadlock: in whatever order the calls in progress go on, they take a bounded number of steps,
and at every point they can go on until all have returned. -/
theorem event_calls_return {init : RMWSubscriptionEvent θ} (hcalls : init.calls = fun _ ↦ none)
    (hmutexes : init.mutexes = fun _ ↦ none) (hs : Reachable step init s) {ts : List θ}
    (hts : run step s (ts.map .next) = some s') :
    ts.length ≤ s.toGo ∧
      ∃ (us : List θ) (s'' : _), run step s' (us.map .next) = some s'' ∧
        ∀ t, s''.calls t = none := by
  have hinit : Locked init := fun m t ↦ by simp [hcalls, hmutexes]
  have hlocked : Locked s := hs.invariant hinit locked_step
  constructor
  · clear hlocked hs
    induction ts generalizing s with
    | nil => exact Nat.zero_le _
    | cons t ts ih =>
      rw [List.map_cons, run_cons] at hts
      obtain ⟨m, hm, hts⟩ := Option.bind_eq_some_iff.mp hts
      have hle := ih hts
      have hlt := toGo_lt hm
      rw [List.length_cons]
      omega
  · have hlocked' : Locked s' := Reachable.invariant hlocked locked_step ⟨_, hts⟩
    exact hlocked'.exists_returned

/-- A subscription whose reader tells the listener of lost samples. -/
def crossedInit : RMWSubscriptionEvent Bool := { status_mask := {.sample_lost} }

/-- The reader waits for `on_new_event_m_` of a `take_event`, which gives it back to wait for the mutex
of the reader. -/
def crossedRun : List (EventAction Bool) :=
  .call true (.take_event .message_lost) :: .next true ::
    .call false (.occur (.sample_lost 2)) :: List.replicate 4 (.next false) ++ [.next true]

/-- `event_calls_return` where the calls need the mutexes of each other. -/
theorem event_calls_return_crossedRun : ∃ s, run step crossedInit crossedRun = some s ∧
    (s.step (.next true)).isNone ∧ ∃ m, run step s ([false].map .next) = some m ∧
      [false].length ≤ s.toGo ∧ ∃ (us : List Bool) (s' : _),
        run step m (us.map .next) = some s' ∧ ∀ t, s'.calls t = none := by
  have hcalls : crossedInit.calls = fun _ ↦ none := rfl
  have hmutexes : crossedInit.mutexes = fun _ ↦ none := rfl
  obtain ⟨s, hs, hblocked, m, hm⟩ : ∃ s, run step crossedInit crossedRun = some s ∧
      (s.step (.next true)).isNone ∧ ∃ m, run step s ([false].map .next) = some m :=
    ⟨_, rfl, rfl, _, rfl⟩
  exact ⟨s, hs, hblocked, m, hm, event_calls_return hcalls hmutexes ⟨crossedRun, hs⟩ hm⟩

end RMWSubscriptionEvent

end HzjDds.Rmw
