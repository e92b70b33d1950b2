import HzjDds.PubSub.RawRos

/-!
# Spin loop of raw ROS pubsub

Library `PubSub`. Source: `rospubsub.py:169–178,206–246`. The thread that `start` makes calls
`spin_once` until it is told to stop, and `spin_once` runs at most one ready callback and lets
through what that callback raises. No inner step of `start` and `stop` fails here.
-/

namespace HzjDds.PubSub

open HzjDds.Transition

/-- What a `subscribe` call closes over: `ros_callback` and `unsubscribe` share it. -/
structure RosClosure (ρ θ κ : Type) where
  subscription : RosEntity ρ θ
  topic : RawROSTopic ρ θ
  callback : κ
  deriving DecidableEq, Repr

/-- A raw ROS pubsub object and its spin loop. `ready` are the messages that wait for their
subscription's callback, `delivered` the arguments of every callback invocation in order.
`started` says that `start` has been called and `stop` has not been called since. -/
structure Spin (ρ θ κ μ : Type) where
  ros : RawROS ρ θ κ
  closures : List (RosClosure ρ θ κ) := []
  ready : List (RosClosure ρ θ κ × μ) := []
  delivered : List (κ × μ × RawROSTopic ρ θ) := []
  started : Bool := false

/-- A call on the object, a message that arrives for the subscription of a closure, or an
iteration of the spin loop: the ready message that `spin_once` takes, if it takes one, and
whether its callback raises. -/
inductive SpinAction (ρ θ κ μ : Type) where
  | start
  | stop
  | publish (topic : RawROSTopic ρ θ)
  | subscribe (topic : RawROSTopic ρ θ) (callback : κ)
  | unsubscribe (handle : ℕ)
  | arrive (handle : ℕ) (msg : μ)
  | spin (taken : Option (ℕ × Bool))

variable {ρ θ κ μ : Type}

/-- `unsubscribe` (`rospubsub.py:234–244`): the map loses every entry with the callback, `rclpy`
the one subscription. -/
def RawROS.unsubscribe [DecidableEq κ] (s : RawROS ρ θ κ) (closure : RosClosure ρ θ κ) :
    RawROS ρ θ κ :=
  if (s.subscriptions.lookup closure.topic.topic).isSome then
    let s := { s with subscriptions := s.subscriptions.map fun item ↦
      if item.1 = closure.topic.topic then (item.1, item.2.filter (·.2 ≠ closure.callback))
      else item }
    if s.node.isSome then destroySubscription closure.subscription s else s
  else s

namespace Spin

/-- The ROS subscription of a closure has not been destroyed. -/
def alive (s : Spin ρ θ κ μ) (closure : RosClosure ρ θ κ) : Bool :=
  s.ros.rclpy.subscriptions.any (·.handle = closure.subscription.handle)

/-- Messages of a destroyed subscription are not ready any more. -/
def dropDestroyed (s : Spin ρ θ κ μ) : Spin ρ θ κ μ :=
  { s with ready := s.ready.filter fun entry ↦ s.alive entry.1 }

/-- `self._spin_thread` is over. -/
def finish (s : Spin ρ θ κ μ) : Spin ρ θ κ μ :=
  { s with ros := { s.ros with spin_thread := some .finished } }

/-- `callback(msg, topic)` in `ros_callback` (`rospubsub.py:223–224`). -/
def rosCallback (s : Spin ρ θ κ μ) (closure : RosClosure ρ θ κ) (msg : μ) : Spin ρ θ κ μ :=
  { s with delivered := s.delivered ++ [(closure.callback, msg, closure.topic)] }

/-- An iteration of `_spin` (`rospubsub.py:169–178`). -/
def spin (s : Spin ρ θ κ μ) (taken : Option (ℕ × Bool)) : Option (Spin ρ θ κ μ) :=
  if s.ros.spin_thread = some .running then
    if s.ros.stop_event then some s.finish
    else if s.ros.executor.isNone then some s.finish
    else match taken with
      | none => some s
      | some (i, raises) => s.ready[i]?.map fun (closure, msg) ↦
          let s := { s with ready := s.ready.eraseIdx i }.rosCallback closure msg
          if raises then s.finish else s
  else none

/-- One action. A `subscribe` that raises returns no handle. -/
def step [DecidableEq κ] (s : Spin ρ θ κ μ) : SpinAction ρ θ κ μ → Option (Spin ρ θ κ μ)
  | .start => some { s with ros := s.ros.restart, started := true }
  | .stop => some (dropDestroyed { s with
      ros := ((RawROS.stop fun _ ↦ false).run.run s.ros).2
      started := false })
  | .publish topic => some { s with ros := ((s.ros.publish topic).map Prod.snd).getD s.ros }
  | .subscribe topic callback =>
    match s.ros.subscribe topic callback with
    | none => some s
    | some (subscription, ros) => some { s with
        ros
        closures := s.closures ++ [⟨subscription, topic, callback⟩] }
  | .unsubscribe handle => s.closures[handle]?.map fun closure ↦
      dropDestroyed { s with ros := s.ros.unsubscribe closure }
  | .arrive handle msg => s.closures[handle]?.bind fun closure ↦
      if s.alive closure then some { s with ready := s.ready ++ [(closure, msg)] } else none
  | .spin taken => s.spin taken

/-- While the object is started its loop runs, and the next iteration can hand any ready
message to the callback of its subscription. -/
def Isolated [DecidableEq κ] (s : Spin ρ θ κ μ) : Prop := s.started = true →
  s.ros.Live ∧ ∀ entry ∈ s.ready, ∃ i, s.ready[i]? = some entry ∧ ∀ raises, ∃ s',
    step s (.spin (some (i, raises))) = some s' ∧
      s'.delivered = s.delivered ++ [(entry.1.callback, entry.2, entry.1.topic)]

/-- No callback invocation raises. -/
def NoRaise (_ : Spin ρ θ κ μ) : SpinAction ρ θ κ μ → Prop
  | .spin (some (_, raises)) => raises = false
  | _ => True

/-- The object is not started, or it is and has not been told to stop. -/
def Inv (s : Spin ρ θ κ μ) : Prop :=
  (s.started = false ∧ s.ros.spin_thread = none) ∨
    (s.started = true ∧ s.ros.Started ∧ s.ros.stop_event = false)

end Spin

namespace RawROS

/-- A call leaves the fields that `start` sets alone. -/
structure SameLoop (s s' : RawROS ρ θ κ) : Prop where
  node : s'.node = s.node
  executor : s'.executor = s.executor
  spin_thread : s'.spin_thread = s.spin_thread
  stop_event : s'.stop_event = s.stop_event

/-- A started object stays started. -/
theorem SameLoop.started {s s' : RawROS ρ θ κ} (h : SameLoop s s') (hs : Started s) :
    Started s' := by
  constructor
  case node => exact h.node ▸ hs.node
  case executor => exact h.executor ▸ hs.executor
  case thread => exact h.spin_thread ▸ hs.thread

private theorem SameLoop.live_iff {s s' : RawROS ρ θ κ} (h : SameLoop s s') : Live s' ↔ Live s := by
  rw [Live, Live, h.spin_thread, h.stop_event]

private theorem sameLoop_publish (s : RawROS ρ θ κ) (topic : RawROSTopic ρ θ) :
    SameLoop s (((s.publish topic).map Prod.snd).getD s) := by
  unfold publish getOrCreatePublisher
  split
  · exact ⟨rfl, rfl, rfl, rfl⟩
  · split
    · exact ⟨rfl, rfl, rfl, rfl⟩
    · cases hnode : s.node with
      | none => exact ⟨rfl, rfl, rfl, rfl⟩
      | some n => exact ⟨hnode.symm, rfl, rfl, rfl⟩

/-- Subscribing touches the subscriptions only. -/
theorem sameLoop_subscribe {s s' : RawROS ρ θ κ} {topic : RawROSTopic ρ θ} {callback : κ}
    {subscription : RosEntity ρ θ} (h : s.subscribe topic callback = some (subscription, s')) :
    SameLoop s s' := by
  obtain ⟨n, -, heq⟩ := Option.map_eq_some_iff.mp h
  cases heq
  exact ⟨rfl, rfl, rfl, rfl⟩

/-- Unsubscribing touches the subscriptions only. -/
theorem sameLoop_unsubscribe [DecidableEq κ] (s : RawROS ρ θ κ) (closure : RosClosure ρ θ κ) :
    SameLoop s (s.unsubscribe closure) := by
  unfold unsubscribe
  split
  · dsimp only
    split <;> exact ⟨rfl, rfl, rfl, rfl⟩
  · exact ⟨rfl, rfl, rfl, rfl⟩

end RawROS

namespace Spin

/-- A started object whose loop is live isolates failures. -/
theorem Inv.isolated_iff [DecidableEq κ] {s : Spin ρ θ κ μ} (h : Inv s) :
    Isolated s ↔ (s.started = true → s.ros.Live) := by
  constructor
  · exact fun hisolated hstarted ↦ (hisolated hstarted).1
  · intro hlive hstarted
    refine ⟨hlive hstarted, fun entry hentry ↦ ?_⟩
    obtain ⟨i, hi⟩ := List.mem_iff_getElem?.mp hentry
    refine ⟨i, hi, fun raises ↦ ?_⟩
    have hexecutor : s.ros.executor ≠ none := by
      rcases h with ⟨hnot, -⟩ | ⟨-, hros, -⟩
      · simp [hnot] at hstarted
      · exact hros.executor
    have hspin : s.spin (some (i, raises)) = some (
        let t := { s with ready := s.ready.eraseIdx i }.rosCallback entry.1 entry.2
        if raises then t.finish else t) := by
      unfold spin
      rw [if_pos (hlive hstarted).1, if_neg (by simp [(hlive hstarted).2]),
        if_neg (by simpa using hexecutor)]
      simp [hi]
    refine ⟨_, hspin, ?_⟩
    cases raises <;> rfl

/-- A new object is not started. -/
theorem inv_new (qos : θ) : Inv ({ ros := { qos } } : Spin ρ θ κ μ) := Or.inl ⟨rfl, rfl⟩

private theorem Inv.sameLoop {s s' : Spin ρ θ κ μ} (h : Inv s) (hros : s.ros.SameLoop s'.ros)
    (hstarted : s'.started = s.started) : Inv s' := by
  rcases h with ⟨hnot, hthread⟩ | ⟨hyes, hs, hevent⟩
  · exact Or.inl ⟨hstarted.trans hnot, hros.spin_thread.trans hthread⟩
  · exact Or.inr ⟨hstarted.trans hyes, hros.started hs, hros.stop_event.trans hevent⟩

private theorem sameLoop_live {s s' : Spin ρ θ κ μ} (hros : s.ros.SameLoop s'.ros)
    (hstarted : s'.started = s.started) (h : s.started = true → s.ros.Live) :
    s'.started = true → s'.ros.Live := by
  rw [hstarted, hros.live_iff]
  exact h

/-- After `start` the object is started; its loop is live if it was so before, or if there was
no loop. -/
theorem Inv.start {s : Spin ρ θ κ μ} (h : Inv s) :
    s.ros.restart.Started ∧ s.ros.restart.stop_event = false ∧
      ((s.started = true → s.ros.Live) → s.ros.restart.Live) := by
  rcases h with ⟨hnot, hthread⟩ | ⟨hyes, hros, hevent⟩
  · rw [RawROS.restart_of_none hthread]
    refine ⟨⟨?_, ?_, Or.inl rfl⟩, rfl, fun _ ↦ ⟨rfl, rfl⟩⟩
    · exact Option.some_ne_none _
    · exact Option.some_ne_none _
  · rw [RawROS.restart_of_some hros.thread_ne.1]
    exact ⟨hros, hevent, fun hlive ↦ hlive hyes⟩

/-- After `stop` there is no thread. -/
theorem Inv.stop {s : Spin ρ θ κ μ} (h : Inv s) :
    ((RawROS.stop fun _ ↦ false).run.run s.ros).2.spin_thread = none := by
  rcases h with ⟨-, hthread⟩ | ⟨-, hros, -⟩
  · rwa [RawROS.stop_of_none hthread]
  · have hok : ¬ ∃ step ∈ s.ros.stopSteps, (fun _ ↦ false) step = true := by simp
    obtain ⟨alive, -, hrun⟩ := RawROS.stop_returns hros hok
    rw [hrun]
    rfl

/-- An iteration of the loop of a started object: it goes on unless a callback raises. -/
theorem Inv.spin_cases {s s' : Spin ρ θ κ μ} (h : Inv s) {taken : Option (ℕ × Bool)}
    (hs : s.spin taken = some s') :
    s'.started = true ∧ s.started = true ∧ s.ros.Started ∧ s.ros.stop_event = false ∧
      ((NoRaise s (.spin taken) ∧ s'.ros = s.ros ∧ s.ros.Live) ∨
        (¬ NoRaise s (.spin taken) ∧ s'.ros = { s.ros with spin_thread := some .finished })) := by
  unfold spin at hs
  split at hs
  · next hrunning =>
    obtain ⟨hstarted, hros, hevent⟩ : s.started = true ∧ s.ros.Started ∧
        s.ros.stop_event = false := by
      rcases h with ⟨-, hthread⟩ | hstarted
      · rw [hthread] at hrunning
        contradiction
      · exact hstarted
    rw [if_neg (by simp [hevent]), if_neg (by simpa using hros.executor)] at hs
    cases taken with
    | none =>
      cases hs
      exact ⟨hstarted, hstarted, hros, hevent, Or.inl ⟨trivial, rfl, hrunning, hevent⟩⟩
    | some invocation =>
      obtain ⟨i, raises⟩ := invocation
      obtain ⟨⟨closure, msg⟩, -, heq⟩ := Option.map_eq_some_iff.mp hs
      subst heq
      cases raises with
      | false =>
        exact ⟨hstarted, hstarted, hros, hevent, Or.inl ⟨rfl, rfl, hrunning, hevent⟩⟩
      | true =>
        exact ⟨hstarted, hstarted, hros, hevent, Or.inr ⟨Bool.noConfusion, rfl⟩⟩
  · contradiction

variable [DecidableEq κ]

/-- A call or an arrival other than `start` and `stop`, and no iteration of the loop. -/
def Plain : SpinAction ρ θ κ μ → Prop
  | .start | .stop | .spin _ => False
  | _ => True

/-- Those leave the loop alone. -/
theorem sameLoop_step {s s' : Spin ρ θ κ μ} {a : SpinAction ρ θ κ μ} (ha : Plain a)
    (hs : step s a = some s') : s.ros.SameLoop s'.ros ∧ s'.started = s.started := by
  have hrefl : s.ros.SameLoop s.ros := ⟨rfl, rfl, rfl, rfl⟩
  cases a with
  | start => contradiction
  | stop => contradiction
  | spin taken => contradiction
  | publish topic =>
    cases hs
    exact ⟨RawROS.sameLoop_publish s.ros topic, rfl⟩
  | subscribe topic callback =>
    simp only [step] at hs
    split at hs
    · cases hs
      exact ⟨hrefl, rfl⟩
    · next hsubscribe =>
      cases hs
      exact ⟨RawROS.sameLoop_subscribe hsubscribe, rfl⟩
  | unsubscribe handle =>
    obtain ⟨closure, -, rfl⟩ := Option.map_eq_some_iff.mp hs
    exact ⟨RawROS.sameLoop_unsubscribe s.ros closure, rfl⟩
  | arrive handle msg =>
    obtain ⟨closure, -, hs⟩ := Option.bind_eq_some_iff.mp hs
    split at hs
    · cases hs
      exact ⟨hrefl, rfl⟩
    · contradiction

/-- One action keeps the invariant. -/
theorem inv_step (s : Spin ρ θ κ μ) (a : SpinAction ρ θ κ μ) (s' : Spin ρ θ κ μ) (h : Inv s)
    (hs : step s a = some s') : Inv s' := by
  have hplain : Plain a → Inv s' := fun ha ↦
    h.sameLoop (sameLoop_step ha hs).1 (sameLoop_step ha hs).2
  cases a with
  | start =>
    cases hs
    exact Or.inr ⟨rfl, h.start.1, h.start.2.1⟩
  | stop =>
    cases hs
    exact Or.inl ⟨rfl, h.stop⟩
  | spin taken =>
    obtain ⟨hstarted', hstarted, hros, hevent, ⟨-, heq, -⟩ | ⟨-, heq⟩⟩ := h.spin_cases hs
    · refine Or.inr ⟨hstarted', ?_⟩
      rw [heq]
      exact ⟨hros, hevent⟩
    · refine Or.inr ⟨hstarted', ?_⟩
      rw [heq]
      exact ⟨⟨hros.node, hros.executor, Or.inr rfl⟩, hevent⟩
  | publish topic => exact hplain trivial
  | subscribe topic callback => exact hplain trivial
  | unsubscribe handle => exact hplain trivial
  | arrive handle msg => exact hplain trivial

/-- One action out of a state that isolates failures ends in such a state exactly when it is no
callback invocation that raises. -/
theorem isolated_step (s : Spin ρ θ κ μ) (a : SpinAction ρ θ κ μ) (s' : Spin ρ θ κ μ) (h : Inv s)
    (hs : Isolated s) (ha : step s a = some s') : Isolated s' ↔ NoRaise s a := by
  rw [(inv_step s a s' h ha).isolated_iff]
  rw [h.isolated_iff] at hs
  have hplain : Plain a → s'.started = true → s'.ros.Live := fun hplain ↦
    sameLoop_live (sameLoop_step hplain ha).1 (sameLoop_step hplain ha).2 hs
  cases a with
  | start =>
    cases ha
    exact iff_of_true (fun _ ↦ h.start.2.2 hs) trivial
  | stop =>
    cases ha
    exact iff_of_true (fun hstarted ↦ by contradiction) trivial
  | spin taken =>
    obtain ⟨hstarted', -, -, -, ⟨hok, heq, hlive⟩ | ⟨hraise, heq⟩⟩ := h.spin_cases ha
    · rw [heq]
      exact iff_of_true (fun _ ↦ hlive) hok
    · refine iff_of_false (fun hlive ↦ ?_) hraise
      have hthread := (hlive hstarted').1
      rw [heq] at hthread
      cases hthread
  | publish topic => exact iff_of_true (hplain trivial) trivial
  | subscribe topic callback => exact iff_of_true (hplain trivial) trivial
  | unsubscribe handle => exact iff_of_true (hplain trivial) trivial
  | arrive handle msg => exact iff_of_true (hplain trivial) trivial

/-- Callback failures are isolated in every state exactly when there are none. -/
theorem spin_isolated_iff (qos : θ) (actions : List (SpinAction ρ θ κ μ)) :
    AllStates step Isolated ({ ros := { qos } } : Spin ρ θ κ μ) actions ↔
      AllSteps step NoRaise ({ ros := { qos } } : Spin ρ θ κ μ) actions := by
  have hnew : Isolated ({ ros := { qos } } : Spin ρ θ κ μ) := fun hstarted ↦ by contradiction
  exact allStates_iff_allSteps (inv_new qos) hnew inv_step isolated_step actions

/-- A raising callback ends the loop for every subscription. -/
theorem raising_callback_stops_delivery :
    ¬ ∀ actions, AllStates step Isolated ({ ros := { qos := () } } : Spin Unit Unit ℕ ℕ)
      actions := by
  intro h
  have hbad := h [.start, .subscribe ⟨"chatter", (), none⟩ 7, .arrive 0 1, .spin (some (0, true))]
    _ _ (List.prefix_refl _) rfl rfl
  exact absurd hbad.1.1 (by decide)

end Spin

end HzjDds.PubSub
