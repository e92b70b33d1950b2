import HzjDds.Transition.Run
import Mathlib.Data.List.Count
import Mathlib.Logic.Function.Basic

/-!
# New topics of `AllPubSub`

Library `PubSub`. Source: `spec.py:121–144`. Threads deliver messages to the handler of
`subscribe_new_topics`. The callback is user code: while it runs, a message that it publishes on the
same bus may be delivered on its own thread, and the callback goes on when that delivery is over.
-/

namespace HzjDds.PubSub

open HzjDds.Transition

universe u v

/-- Next statement of `on_msg` (`spec.py:138–142`); from `check` on the delivery holds the lock. -/
inductive OnMsgPc where
  | acquire
  | check
  | callback
  | release
  deriving DecidableEq, Repr

/-- The variables of a `subscribe_new_topics` and the deliveries in progress: for each thread those
that are nested in one another, the innermost first. `notified` are the calls of the callback and
`completed` the topics of the deliveries that are over. -/
structure NewTopics (τ : Type u) (α : Type v) where
  seen : List α := []
  lock : Option τ := none
  deliveries : τ → List (α × OnMsgPc) := fun _ ↦ []
  notified : List α := []
  completed : List α := []

/-- A message is delivered on a thread, or the innermost delivery of a thread executes its next
statement. -/
inductive NewTopicsAction (τ : Type u) (α : Type v) where
  | deliver (thread : τ) (topic : α)
  | next (thread : τ)
  deriving DecidableEq, Repr

variable {τ : Type u} {α : Type v} [DecidableEq τ] [DecidableEq α]

namespace NewTopics

/-- The deliveries of a thread after a step of it. -/
def goto (s : NewTopics τ α) (thread : τ) (stack : List (α × OnMsgPc)) : NewTopics τ α :=
  { s with deliveries := Function.update s.deliveries thread stack }

omit [DecidableEq α] in
@[simp] theorem deliveries_goto_self (s : NewTopics τ α) (thread : τ)
    (stack : List (α × OnMsgPc)) : (s.goto thread stack).deliveries thread = stack :=
  Function.update_self ..

omit [DecidableEq α] in
private theorem deliveries_goto_of_ne (s : NewTopics τ α) {thread other : τ} (h : other ≠ thread)
    (stack : List (α × OnMsgPc)) : (s.goto thread stack).deliveries other = s.deliveries other :=
  Function.update_of_ne h ..

/-- `seen.add(topic)` and the call of the callback. -/
def notify (s : NewTopics τ α) (topic : α) : NewTopics τ α :=
  { s with seen := s.seen ++ [topic], notified := s.notified ++ [topic] }

/-- Next statement of the innermost delivery of a thread. -/
def next (s : NewTopics τ α) (thread : τ) : List (α × OnMsgPc) → Option (NewTopics τ α)
  | [] => none
  | (topic, .acquire) :: rest =>
    if s.lock.isNone then some { s.goto thread ((topic, .check) :: rest) with lock := some thread }
    else none
  | (topic, .check) :: rest =>
    if topic ∈ s.seen then some (s.goto thread ((topic, .release) :: rest))
    else some ((s.notify topic).goto thread ((topic, .callback) :: rest))
  | (topic, .callback) :: rest => some (s.goto thread ((topic, .release) :: rest))
  | (topic, .release) :: rest => some { s.goto thread rest with
      lock := none
      completed := s.completed ++ [topic] }

omit [DecidableEq τ] [DecidableEq α] in
/-- A message can be delivered on a thread that delivers nothing, or whose callback publishes it. -/
def accepts : List (α × OnMsgPc) → Bool
  | [] => true
  | (_, .callback) :: _ => true
  | _ => false

/-- One step. -/
def step (s : NewTopics τ α) : NewTopicsAction τ α → Option (NewTopics τ α)
  | .deliver thread topic =>
    if accepts (s.deliveries thread) then
      some (s.goto thread ((topic, .acquire) :: s.deliveries thread))
    else none
  | .next thread => s.next thread (s.deliveries thread)

omit [DecidableEq τ] in
/-- The callback has been called once for every topic with a completed delivery, and no delivery
waits for the lock on the thread that holds it: that thread would go on only after the delivery. -/
structure Notified (s : NewTopics τ α) : Prop where
  once : ∀ topic ∈ s.completed, s.notified.count topic = 1
  free : ∀ thread topic rest, s.deliveries thread = (topic, .acquire) :: rest →
    s.lock ≠ some thread

omit [DecidableEq τ] [DecidableEq α] in
/-- No message is delivered on a thread while the callback runs on it. -/
def NotNested (s : NewTopics τ α) : NewTopicsAction τ α → Prop
  | .deliver thread _ => s.deliveries thread = []
  | _ => True

omit [DecidableEq τ] [DecidableEq α] in
/-- A thread has one delivery, or one that waits and is nested in its callback. -/
def Shape : List (α × OnMsgPc) → Prop
  | [] => True
  | [_] => True
  | [(_, inner), (_, outer)] => inner = .acquire ∧ outer = .callback
  | _ => False

omit [DecidableEq τ] [DecidableEq α] in
/-- A delivery of the thread is past the lock. -/
def Holds (stack : List (α × OnMsgPc)) : Prop := ∃ delivery ∈ stack, delivery.2 ≠ .acquire

omit [DecidableEq τ] in
/-- Lock, deliveries and the set of seen topics in any interleaving. -/
structure Inv (s : NewTopics τ α) : Prop where
  locked : ∀ thread, s.lock = some thread ↔ Holds (s.deliveries thread)
  shape : ∀ thread, Shape (s.deliveries thread)
  seen : ∀ thread, ∀ delivery ∈ s.deliveries thread,
    delivery.2 = .callback ∨ delivery.2 = .release → delivery.1 ∈ s.seen
  counted : ∀ topic, s.notified.count topic = if topic ∈ s.seen then 1 else 0
  completed : ∀ topic ∈ s.completed, topic ∈ s.seen

/-! ## What a step keeps -/

omit [DecidableEq τ] in
/-- Before the first delivery. -/
theorem inv_init : Inv ({} : NewTopics τ α) := by
  constructor
  case locked => simp [Holds]
  case shape => exact fun _ ↦ trivial
  case seen => exact fun _ _ h ↦ by contradiction
  case counted => simp
  case completed => exact fun _ h ↦ by contradiction

/-- A thread goes on, and may take the lock or give it back. -/
theorem Inv.goto {s : NewTopics τ α} (h : Inv s) {thread : τ} {stack : List (α × OnMsgPc)}
    {lock : Option τ} (hothers : ∀ other, other ≠ thread → (lock = some other ↔ s.lock = some other))
    (hholds : lock = some thread ↔ Holds stack) (hshape : Shape stack)
    (hseen : ∀ delivery ∈ stack, delivery.2 = .callback ∨ delivery.2 = .release →
      delivery.1 ∈ s.seen) : Inv { s.goto thread stack with lock } := by
  have hdeliveries : ∀ other, (s.goto thread stack).deliveries other =
      if other = thread then stack else s.deliveries other := fun other ↦ Function.update_apply ..
  constructor
  case locked =>
    intro other
    change lock = some other ↔ Holds ((s.goto thread stack).deliveries other)
    rw [hdeliveries]
    split
    · next heq =>
      rw [heq]
      exact hholds
    · next hne => exact (hothers other hne).trans (h.locked other)
  case shape =>
    intro other
    change Shape ((s.goto thread stack).deliveries other)
    rw [hdeliveries]
    split
    · exact hshape
    · exact h.shape other
  case seen =>
    intro other
    change ∀ delivery ∈ (s.goto thread stack).deliveries other, _
    rw [hdeliveries]
    split
    · exact hseen
    · exact h.seen other
  case counted => exact h.counted
  case completed => exact h.completed

omit [DecidableEq τ] in
/-- A topic that has not been seen is added, and the callback called. -/
theorem Inv.notify {s : NewTopics τ α} (h : Inv s) {topic : α} (hnew : topic ∉ s.seen) :
    Inv (s.notify topic) := by
  constructor
  case locked => exact h.locked
  case shape => exact h.shape
  case seen =>
    intro thread delivery hdelivery hpc
    exact List.mem_append_left _ (h.seen thread delivery hdelivery hpc)
  case counted =>
    intro other
    change (s.notified ++ [topic]).count other = if other ∈ s.seen ++ [topic] then 1 else 0
    rw [List.count_append, h.counted]
    by_cases heq : other = topic
    · subst heq
      simp [hnew]
    · simp [heq, Ne.symm heq]
  case completed =>
    intro other hother
    exact List.mem_append_left _ (h.completed other hother)

omit [DecidableEq τ] in
/-- A delivery of a seen topic is over. -/
theorem Inv.complete {s : NewTopics τ α} (h : Inv s) {topic : α} (hseen : topic ∈ s.seen) :
    Inv { s with completed := s.completed ++ [topic] } := by
  constructor
  case locked => exact h.locked
  case shape => exact h.shape
  case seen => exact h.seen
  case counted => exact h.counted
  case completed =>
    intro other hother
    rcases List.mem_append.mp hother with hother | hother
    · exact h.completed other hother
    · obtain rfl := List.mem_singleton.mp hother
      exact hseen

omit [DecidableEq τ] in
/-- The innermost delivery is past the lock: it is the only one, and its thread has the lock. -/
theorem Inv.inside {s : NewTopics τ α} (h : Inv s) {thread : τ} {topic : α} {pc : OnMsgPc}
    {rest : List (α × OnMsgPc)} (hstack : s.deliveries thread = (topic, pc) :: rest)
    (hpc : pc ≠ .acquire) : rest = [] ∧ s.lock = some thread := by
  have hlock : s.lock = some thread := by
    rw [h.locked, hstack]
    exact ⟨_, List.mem_cons_self, hpc⟩
  refine ⟨?_, hlock⟩
  have hshape := h.shape thread
  rw [hstack] at hshape
  match rest, hshape with
  | [], _ => rfl
  | [_], hshape => exact (hpc hshape.1).elim

omit [DecidableEq τ] in
/-- While the lock is free, a waiting delivery is the only one of its thread. -/
theorem Inv.outside {s : NewTopics τ α} (h : Inv s) {thread : τ} {topic : α}
    {rest : List (α × OnMsgPc)} (hstack : s.deliveries thread = (topic, .acquire) :: rest)
    (hfree : s.lock = none) : rest = [] := by
  have hholds : ¬ Holds ((topic, .acquire) :: rest) := by
    rw [← hstack, ← h.locked, hfree]
    exact Option.some_ne_none thread ∘ Eq.symm
  have hshape := h.shape thread
  rw [hstack] at hshape
  match rest, hshape with
  | [], _ => rfl
  | [outer], hshape => exact (hholds ⟨outer, by simp, by simp [hshape.2]⟩).elim

/-- Next statement of a delivery. -/
theorem Inv.next {s s' : NewTopics τ α} (h : Inv s) {thread : τ}
    (hs : s.next thread (s.deliveries thread) = some s') : Inv s' := by
  cases hstack : s.deliveries thread with
  | nil =>
    rw [hstack] at hs
    contradiction
  | cons delivery rest =>
    obtain ⟨topic, pc⟩ := delivery
    rw [hstack] at hs
    have hseen := h.seen thread (topic, pc) (by rw [hstack]; exact List.mem_cons_self)
    cases pc with
    | acquire =>
      obtain ⟨hfree, heq⟩ := Option.ite_none_right_eq_some.mp hs
      rw [Option.isNone_iff_eq_none] at hfree
      obtain rfl := h.outside hstack hfree
      cases heq
      refine h.goto (fun other hother ↦ ?_) ?_ trivial ?_
      · rw [hfree]
        exact iff_of_false (fun heq ↦ hother (Option.some.inj heq).symm) (by simp)
      · exact iff_of_true rfl ⟨_, List.mem_cons_self, by simp⟩
      · simp
    | check =>
      obtain ⟨rfl, hlock⟩ := h.inside hstack (by simp)
      simp only [NewTopics.next] at hs
      split at hs
      · next hold =>
        cases hs
        refine h.goto (fun _ _ ↦ Iff.rfl) ?_ trivial (by simpa using hold)
        exact iff_of_true hlock ⟨_, List.mem_cons_self, by simp⟩
      · next hnew =>
        cases hs
        have hadded : topic ∈ (s.notify topic).seen := List.mem_append_right _ (by simp)
        refine (h.notify hnew).goto (fun _ _ ↦ Iff.rfl) ?_ trivial (by simpa using hadded)
        exact iff_of_true hlock ⟨_, List.mem_cons_self, by simp⟩
    | callback =>
      obtain ⟨rfl, hlock⟩ := h.inside hstack (by simp)
      cases hs
      refine h.goto (fun _ _ ↦ Iff.rfl) ?_ trivial (by simpa using hseen)
      exact iff_of_true hlock ⟨_, List.mem_cons_self, by simp⟩
    | release =>
      obtain ⟨rfl, hlock⟩ := h.inside hstack (by simp)
      cases hs
      have hreleased : Inv { s.goto thread [] with lock := none } := by
        refine h.goto (fun other hother ↦ ?_) (by simp [Holds]) trivial (by simp)
        rw [hlock]
        exact iff_of_false (by simp) fun heq ↦ hother (Option.some.inj heq).symm
      exact hreleased.complete (hseen (Or.inr rfl))

/-- A message is delivered on a thread. -/
theorem Inv.deliver {s : NewTopics τ α} (h : Inv s) {thread : τ} {topic : α}
    (haccepts : accepts (s.deliveries thread) = true) :
    Inv (s.goto thread ((topic, .acquire) :: s.deliveries thread)) := by
  have hseen := h.seen thread
  cases hstack : s.deliveries thread with
  | nil =>
    refine h.goto (fun _ _ ↦ Iff.rfl) ?_ trivial (by simp)
    rw [h.locked, hstack]
    simp [Holds]
  | cons delivery rest =>
    obtain ⟨outer, pc⟩ := delivery
    rw [hstack] at haccepts hseen
    cases pc with
    | callback =>
      obtain ⟨rfl, hlock⟩ := h.inside hstack (by simp)
      refine h.goto (fun _ _ ↦ Iff.rfl) ?_ ⟨rfl, rfl⟩ (by simpa using hseen)
      exact iff_of_true hlock ⟨(outer, .callback), by simp, by simp⟩
    | _ => contradiction

/-- Every step keeps the invariant. -/
theorem inv_step (s : NewTopics τ α) (a : NewTopicsAction τ α) (s' : NewTopics τ α) (h : Inv s)
    (hs : step s a = some s') : Inv s' := by
  cases a with
  | deliver thread topic =>
    obtain ⟨haccepts, heq⟩ := Option.ite_none_right_eq_some.mp hs
    cases heq
    exact h.deliver haccepts
  | next thread => exact h.next hs

/-! ## When no delivery waits for its own thread -/

omit [DecidableEq τ] in
/-- The callback has been called once for every topic with a completed delivery. -/
theorem Inv.once {s : NewTopics τ α} (h : Inv s) {topic : α} (htopic : topic ∈ s.completed) :
    s.notified.count topic = 1 := by
  rw [h.counted, if_pos (h.completed topic htopic)]

/-- A delivery does not wait on its own thread unless it is nested in the callback. -/
theorem notified_deliver_iff {s : NewTopics τ α} (h : Inv s) (hn : Notified s) {thread : τ}
    {topic : α} (haccepts : accepts (s.deliveries thread) = true) :
    Notified (s.goto thread ((topic, .acquire) :: s.deliveries thread)) ↔
      s.deliveries thread = [] := by
  have hlock : s.lock = some thread ↔ s.deliveries thread ≠ [] := by
    rw [h.locked]
    cases hstack : s.deliveries thread with
    | nil => simp [Holds]
    | cons delivery rest =>
      refine iff_of_true ⟨delivery, List.mem_cons_self, fun hpc ↦ ?_⟩ (List.cons_ne_nil _ _)
      obtain ⟨outer, pc⟩ := delivery
      subst hpc
      rw [hstack] at haccepts
      contradiction
  constructor
  · intro hnext
    by_contra hne
    exact hnext.free thread topic _ (deliveries_goto_self ..) (hlock.mpr hne)
  · intro hnil
    refine ⟨hn.once, fun other topic' rest hother ↦ ?_⟩
    by_cases heq : other = thread
    · rw [heq]
      exact fun hheld ↦ hlock.mp hheld hnil
    · exact hn.free other topic' rest ((deliveries_goto_of_ne s heq _).symm.trans hother)

/-- A delivery that goes on is not waiting afterwards, and no other thread has got the lock. -/
theorem Inv.frame {s s' : NewTopics τ α} (h : Inv s) {thread : τ}
    (hs : s.next thread (s.deliveries thread) = some s') :
    (∀ other, other ≠ thread → s'.deliveries other = s.deliveries other ∧
      (s'.lock = some other → s.lock = some other)) ∧
    ∀ topic rest, s'.deliveries thread ≠ (topic, .acquire) :: rest := by
  cases hstack : s.deliveries thread with
  | nil =>
    rw [hstack] at hs
    contradiction
  | cons delivery rest =>
    obtain ⟨topic, pc⟩ := delivery
    rw [hstack] at hs
    cases pc with
    | acquire =>
      obtain ⟨-, heq⟩ := Option.ite_none_right_eq_some.mp hs
      cases heq
      refine ⟨fun other hother ↦ ⟨deliveries_goto_of_ne _ hother _, fun hlock ↦ ?_⟩, by simp⟩
      exact (hother (Option.some.inj hlock).symm).elim
    | check =>
      simp only [NewTopics.next] at hs
      split at hs
      · cases hs
        exact ⟨fun other hother ↦ ⟨deliveries_goto_of_ne _ hother _, id⟩, by simp⟩
      · cases hs
        exact ⟨fun other hother ↦ ⟨deliveries_goto_of_ne _ hother _, id⟩, by simp⟩
    | callback =>
      cases hs
      exact ⟨fun other hother ↦ ⟨deliveries_goto_of_ne _ hother _, id⟩, by simp⟩
    | release =>
      obtain ⟨rfl, -⟩ := h.inside hstack (by simp)
      cases hs
      refine ⟨fun other hother ↦ ⟨deliveries_goto_of_ne _ hother _, fun hlock ↦ ?_⟩, by simp⟩
      contradiction

/-- A delivery that goes on does not make another one wait on its own thread. -/
theorem Notified.next {s s' : NewTopics τ α} (hn : Notified s) (h : Inv s) {thread : τ}
    (hs : s.next thread (s.deliveries thread) = some s') : Notified s' := by
  obtain ⟨hothers, hself⟩ := h.frame hs
  refine ⟨fun topic htopic ↦ (h.next hs).once htopic, fun other topic rest hother hlock ↦ ?_⟩
  by_cases heq : other = thread
  · rw [heq] at hother
    exact hself topic rest hother
  · obtain ⟨hsame, hheld⟩ := hothers other heq
    exact hn.free other topic rest (hsame.symm.trans hother) (hheld hlock)

private theorem notified_step (s : NewTopics τ α) (a : NewTopicsAction τ α) (s' : NewTopics τ α)
    (h : Inv s) (hn : Notified s) (hs : step s a = some s') : Notified s' ↔ NotNested s a := by
  cases a with
  | deliver thread topic =>
    obtain ⟨haccepts, heq⟩ := Option.ite_none_right_eq_some.mp hs
    cases heq
    exact notified_deliver_iff h hn haccepts
  | next thread => exact iff_of_true (hn.next h hs) trivial

/-- The callback is called once for every topic, and no delivery waits for its own thread, in exactly
the runs that deliver no message on a thread while the callback runs on it. -/
theorem notified_iff_notNested (actions : List (NewTopicsAction τ α)) :
    AllStates step Notified ({} : NewTopics τ α) actions ↔
      AllSteps step NotNested ({} : NewTopics τ α) actions := by
  have hstart : Notified ({} : NewTopics τ α) :=
    ⟨fun _ h ↦ by contradiction, fun _ _ _ h ↦ by contradiction⟩
  exact allStates_iff_allSteps inv_init hstart inv_step notified_step actions

/-- A callback that publishes on the bus waits for the lock of its own delivery. -/
theorem nested_delivery_waits : ¬ ∀ actions,
    AllStates step Notified ({} : NewTopics Unit String) actions := by
  intro h
  have hnotified := h [.deliver () "chatter", .next (), .next (), .deliver () "seen"] _ _
    (List.prefix_refl _) rfl
  exact hnotified.free () "seen" [("chatter", .callback)] rfl rfl

end NewTopics

end HzjDds.PubSub
