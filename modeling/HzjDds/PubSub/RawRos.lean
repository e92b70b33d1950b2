import HzjDds.Transition.Run
import Mathlib.Data.Nat.Notation

/-!
# Raw ROS pubsub

Library `PubSub`. Source: `rospubsub.py:57–246`. The object owns a node, an executor, a spin thread
and two maps of ROS entities. `rclpy` is outside the repository: what exists on its side is a
state of its own, and whether one of its calls raises is chosen by the environment.
-/

namespace HzjDds.PubSub

open HzjDds.Transition

/-- `RawROSTopic`: a topic name, a ROS type and an optional QoS profile. -/
structure RawROSTopic (ρ θ : Type) where
  topic : String
  ros_type : ρ
  qos : Option θ := none
  deriving DecidableEq, Repr

/-- A ROS publisher or subscription, with what it was created from and on. -/
structure RosEntity (ρ θ : Type) where
  handle : ℕ
  node : ℕ
  topic : String
  ros_type : ρ
  qos : θ
  deriving DecidableEq, Repr

/-- State of a `threading.Thread` that runs `_spin`. -/
inductive SpinThread where
  | created
  | running
  | finished
  deriving DecidableEq, Repr

/-- What exists on the side of `rclpy`: nodes and subscriptions that have not been destroyed.
`made` numbers nodes and entities. -/
structure Rclpy (ρ θ : Type) where
  ok : Bool := false
  nodes : List ℕ := []
  subscriptions : List (RosEntity ρ θ) := []
  made : ℕ := 0
  deriving DecidableEq, Repr

/-- `RawROS`. An executor is the nodes added to it; `qos` is the default profile. -/
structure RawROS (ρ θ κ : Type) where
  qos : θ
  node : Option ℕ := none
  executor : Option (List ℕ) := none
  spin_thread : Option SpinThread := none
  stop_event : Bool := false
  publishers : List (String × RosEntity ρ θ) := []
  subscriptions : List (String × List (RosEntity ρ θ × κ)) := []
  rclpy : Rclpy ρ θ := {}
  deriving DecidableEq, Repr

/-- The inner steps of `start` and `stop` that may raise. -/
inductive InnerStep where
  | init
  | node
  | executor
  | addNode
  | threadStart
  | shutdown
  | join
  | destroySubscription (handle : ℕ)
  | destroyPublisher (handle : ℕ)
  | destroyNode
  deriving DecidableEq, Repr

variable {ρ θ κ : Type}

namespace RawROS

/-- Statements of a method: they change the object and may raise. -/
abbrev RosM (ρ θ κ : Type) :=
  ExceptT Unit (StateM (RawROS ρ θ κ))

variable (fails : InnerStep → Bool)

/-- An inner step: its effect, unless it raises. -/
def inner (step : InnerStep) (effect : RawROS ρ θ κ → RawROS ρ θ κ) : RosM ρ θ κ Unit := do
  if fails step then throw () else modify effect

/-- `if not rclpy.ok(): rclpy.init()`. -/
def ensureInit : RosM ρ θ κ Unit := do
  if (← get).rclpy.ok then return ()
  else inner fails .init fun s ↦ { s with rclpy := { s.rclpy with ok := true } }

/-- `self._node = Node(self._node_name)`. -/
def newNode (s : RawROS ρ θ κ) : RawROS ρ θ κ :=
  { s with
    node := some s.rclpy.made
    rclpy := { s.rclpy with
      nodes := s.rclpy.nodes ++ [s.rclpy.made]
      made := s.rclpy.made + 1 } }

/-- `self._executor.add_node(self._node)`. -/
def addNode (s : RawROS ρ θ κ) : RawROS ρ θ κ :=
  { s with executor := s.executor.map (· ++ s.node.toList) }

/-- `start` (`rospubsub.py:118–132`). -/
def start : RosM ρ θ κ Unit := do
  if (← get).spin_thread.isSome then return ()
  else
    ensureInit fails
    modify fun s ↦ { s with stop_event := false }
    inner fails .node newNode
    inner fails .executor fun s ↦ { s with executor := some [] }
    inner fails .addNode addNode
    modify fun s ↦ { s with spin_thread := some .created }
    inner fails .threadStart fun s ↦ { s with spin_thread := some .running }

/-- `if self._executor: self._executor.shutdown()`. -/
def shutdown : RosM ρ θ κ Unit := do
  if (← get).executor.isSome then inner fails .shutdown id else return ()

/-- `self._spin_thread.join(timeout=…)`; joining a thread that was never started raises. The
call goes on whether the thread is over or the timeout is. -/
def join : RosM ρ θ κ Unit := do
  if (← get).spin_thread = some .created then throw () else inner fails .join id

/-- `destroy_subscription`. -/
def destroySubscription (sub : RosEntity ρ θ) (s : RawROS ρ θ κ) : RawROS ρ θ κ :=
  { s with rclpy := { s.rclpy with
    subscriptions := s.rclpy.subscriptions.filter (·.handle ≠ sub.handle) } }

/-- The loop that destroys the subscriptions grabbed from the map. -/
def destroySubscriptions : List (RosEntity ρ θ) → RosM ρ θ κ Unit
  | [] => return ()
  | sub :: subs => do
    inner fails (.destroySubscription sub.handle) (destroySubscription sub)
    destroySubscriptions subs

/-- The loop that destroys the publishers grabbed from the map. -/
def destroyPublishers : List (RosEntity ρ θ) → RosM ρ θ κ Unit
  | [] => return ()
  | pub :: pubs => do
    inner fails (.destroyPublisher pub.handle) id
    destroyPublishers pubs

/-- `self._node.destroy_node(); self._node = None`: the entities of a node go with it. -/
def destroyNode (node : ℕ) (s : RawROS ρ θ κ) : RawROS ρ θ κ :=
  { s with
    node := none
    rclpy := { s.rclpy with
      nodes := s.rclpy.nodes.filter (· ≠ node)
      subscriptions := s.rclpy.subscriptions.filter (·.node ≠ node) } }

/-- The part of `stop` that talks to the node, if there is one (`rospubsub.py:156–164`). -/
def releaseNode (subs pubs : List (RosEntity ρ θ)) : RosM ρ θ κ Unit := do
  match (← get).node with
  | none => return ()
  | some node =>
    destroySubscriptions fails subs
    destroyPublishers fails pubs
    inner fails .destroyNode (destroyNode node)

/-- `stop` (`rospubsub.py:134–167`). -/
def stop : RosM ρ θ κ Unit := do
  if (← get).spin_thread.isNone then return ()
  else
    modify fun s ↦ { s with stop_event := true }
    shutdown fails
    join fails
    let s ← get
    modify fun s ↦ { s with subscriptions := [], publishers := [] }
    releaseNode fails (s.subscriptions.flatMap (·.2.map Prod.fst)) (s.publishers.map Prod.snd)
    modify fun s ↦ { s with executor := none, spin_thread := none }

omit fails

/-- `_get_or_create_publisher` (`rospubsub.py:180–191`): the publisher, with the object after the
call. -/
def getOrCreatePublisher (s : RawROS ρ θ κ) (topic : RawROSTopic ρ θ) :
    Option (RosEntity ρ θ × RawROS ρ θ κ) :=
  match s.publishers.lookup topic.topic with
  | some pub => some (pub, s)
  | none => s.node.map fun node ↦
      let pub := ⟨s.rclpy.made, node, topic.topic, topic.ros_type, topic.qos.getD s.qos⟩
      (pub, { s with
        publishers := s.publishers ++ [(topic.topic, pub)]
        rclpy := { s.rclpy with made := s.rclpy.made + 1 } })

/-- `publish` (`rospubsub.py:193–204`): the publisher the message is handed to, if there is a
node. -/
def publish (s : RawROS ρ θ κ) (topic : RawROSTopic ρ θ) : Option (RosEntity ρ θ × RawROS ρ θ κ) :=
  if s.node.isNone then none else s.getOrCreatePublisher topic

/-- `self._subscriptions[topic.topic].append((subscription, callback))`. -/
def appendSubscription (subs : List (String × List (RosEntity ρ θ × κ))) (topic : String)
    (entry : RosEntity ρ θ × κ) : List (String × List (RosEntity ρ θ × κ)) :=
  if (subs.lookup topic).isSome then
    subs.map fun item ↦ if item.1 = topic then (topic, item.2 ++ [entry]) else item
  else subs ++ [(topic, [entry])]

/-- `subscribe` (`rospubsub.py:206–233`): the subscription created; without a node the call
raises. -/
def subscribe (s : RawROS ρ θ κ) (topic : RawROSTopic ρ θ) (callback : κ) :
    Option (RosEntity ρ θ × RawROS ρ θ κ) :=
  s.node.map fun node ↦
    let sub := ⟨s.rclpy.made, node, topic.topic, topic.ros_type, topic.qos.getD s.qos⟩
    (sub, { s with
      subscriptions := appendSubscription s.subscriptions topic.topic (sub, callback)
      rclpy := { s.rclpy with
        subscriptions := s.rclpy.subscriptions ++ [sub]
        made := s.rclpy.made + 1 } })

/-- A call on the object, with the inner steps that raise in it. -/
inductive Call (ρ θ κ : Type) where
  | start (fails : InnerStep → Bool)
  | stop (fails : InnerStep → Bool)
  | publish (topic : RawROSTopic ρ θ)
  | subscribe (topic : RawROSTopic ρ θ) (callback : κ)

/-- The object after a call, whether it returned or raised. -/
def step (s : RawROS ρ θ κ) : Call ρ θ κ → Option (RawROS ρ θ κ)
  | .start fails => some ((start fails).run.run s).2
  | .stop fails => some ((stop fails).run.run s).2
  | .publish topic => some (((s.publish topic).map Prod.snd).getD s)
  | .subscribe topic callback => some (((s.subscribe topic callback).map Prod.snd).getD s)

/-! ## Atomicity -/

/-- The spin loop is live: its thread runs and has not been told to stop. -/
def Live (s : RawROS ρ θ κ) : Prop := s.spin_thread = some .running ∧ s.stop_event = false

/-- All three fields are set, to a live node, an executor of it and a live spin loop. -/
structure AllSet (s : RawROS ρ θ κ) (n : ℕ) : Prop where
  node : s.node = some n
  executor : s.executor = some [n]
  live : s.Live
  nodes : s.rclpy.nodes = [n]

/-- All three fields are `None`, and no node is left behind. -/
structure AllNone (s : RawROS ρ θ κ) : Prop where
  node : s.node = none
  executor : s.executor = none
  spin_thread : s.spin_thread = none
  nodes : s.rclpy.nodes = []

/-- Either all is set or all is `None`. -/
def Consistent (s : RawROS ρ θ κ) : Prop := (∃ n, AllSet s n) ∨ AllNone s

/-- A live spin loop serves the node. -/
def Serves (s : RawROS ρ θ κ) (node : ℕ) : Prop :=
  node ∈ s.rclpy.nodes ∧ (∃ nodes, s.executor = some nodes ∧ node ∈ nodes) ∧ s.Live

/-- Publish and subscribe work: a message is handed to a publisher of a live node, and a
subscription is made on a node that is served. -/
def Works (s : RawROS ρ θ κ) : Prop :=
  (∀ topic, ∃ pub s', s.publish topic = some (pub, s') ∧ pub.node ∈ s'.rclpy.nodes) ∧
    ∀ topic callback, ∃ sub s', s.subscribe topic callback = some (sub, s') ∧ Serves s' sub.node

/-- The object after a `start` in which nothing raises. -/
def restart (s : RawROS ρ θ κ) : RawROS ρ θ κ := ((start fun _ ↦ false).run.run s).2

/-- Between two calls: a consistent object that works after its next successful `start`. -/
def Atomic (s : RawROS ρ θ κ) : Prop := Consistent s ∧ Works s.restart

/-- The inner steps of a `stop` of a started object. -/
def stopSteps (s : RawROS ρ θ κ) : List InnerStep :=
  [.shutdown, .join] ++
    (s.subscriptions.flatMap (·.2.map Prod.fst)).map (.destroySubscription ·.handle) ++
    (s.publishers.map Prod.snd).map (.destroyPublisher ·.handle) ++ [.destroyNode]

/-- No step fails from which the call does not recover: a `start` that does something may only
fail before it has a node, a `stop` that does something not at all. -/
def FailsEarly (s : RawROS ρ θ κ) : Call ρ θ κ → Prop
  | .start fails => s.spin_thread = none →
      (s.rclpy.ok = false ∧ fails .init = true) ∨ fails .node = true ∨
        (fails .executor = false ∧ fails .addNode = false ∧ fails .threadStart = false)
  | .stop fails => s.spin_thread ≠ none → ∀ step ∈ s.stopSteps, fails step = false
  | _ => True

/-- An inner step that raises ends the method; another one has its effect. -/
@[simp] theorem inner_bind (fails : InnerStep → Bool) (step : InnerStep)
    (effect : RawROS ρ θ κ → RawROS ρ θ κ) (f : Unit → RosM ρ θ κ Unit) (s : RawROS ρ θ κ) :
    (inner fails step effect >>= f).run.run s =
      if fails step then (.error (), s) else (f ()).run.run (effect s) := by
  unfold inner
  split <;> rfl

/-- An inner step at the end of a method. -/
@[simp] theorem inner_run (fails : InnerStep → Bool) (step : InnerStep)
    (effect : RawROS ρ θ κ → RawROS ρ θ κ) (s : RawROS ρ θ κ) :
    (inner fails step effect).run.run s =
      if fails step then (.error (), s) else (.ok (), effect s) := by
  unfold inner
  split <;> rfl

/-- The object after the assignments of a `start` that returns. -/
def started (s : RawROS ρ θ κ) : RawROS ρ θ κ :=
  { addNode { newNode { s with stop_event := false, rclpy := { s.rclpy with ok := true } } with
      executor := some [] } with spin_thread := some .running }

private theorem ensureInit_bind (fails : InnerStep → Bool) (f : Unit → RosM ρ θ κ Unit)
    (s : RawROS ρ θ κ) : (ensureInit fails >>= f).run.run s =
      if s.rclpy.ok = false ∧ fails .init = true then (.error (), s)
      else (f ()).run.run { s with rclpy := { s.rclpy with ok := true } } := by
  change ((if s.rclpy.ok = true then pure ()
    else inner fails .init fun s ↦ { s with rclpy := { s.rclpy with ok := true } }) >>= f).run.run
      s = _
  cases hok : s.rclpy.ok with
  | true =>
    simp only [if_true, Bool.true_eq_false, false_and, if_false, pure_bind]
    rw [← hok]
  | false =>
    rw [if_neg Bool.false_ne_true, inner_bind]
    simp only [true_and]

/-- A `start` of an object that is not started, one inner step after the other. -/
theorem start_run {s : RawROS ρ θ κ} (h : s.spin_thread = none) (fails : InnerStep → Bool) :
    (start fails).run.run s =
      if s.rclpy.ok = false ∧ fails .init = true then (.error (), s)
      else
        let s := { s with stop_event := false, rclpy := { s.rclpy with ok := true } }
        if fails .node then (.error (), s)
        else if fails .executor then (.error (), s.newNode)
        else if fails .addNode then (.error (), { s.newNode with executor := some [] })
        else if fails .threadStart then
          (.error (), { addNode { s.newNode with executor := some [] } with
            spin_thread := some .created })
        else (.ok (), s.started) := by
  change ((if s.spin_thread.isSome = true then pure ()
    else (ensureInit fails >>= fun _ ↦ _) : RosM ρ θ κ Unit)).run.run s = _
  rw [if_neg (by simp [h]), ensureInit_bind]
  split
  · rfl
  · change (inner fails .node newNode >>= fun _ ↦ _).run.run _ = _
    rw [inner_bind]
    split
    · rfl
    · rw [inner_bind]
      split
      · rfl
      · rw [inner_bind]
        split
        · rfl
        · exact inner_run ..

/-- A method goes on after a part of it that returns, and ends with one that raises. -/
theorem run_bind (m f : RosM ρ θ κ Unit) (s : RawROS ρ θ κ) :
    (m >>= fun _ ↦ f).run.run s =
      match m.run.run s with
      | (.ok _, s) => f.run.run s
      | (.error e, s) => (.error e, s) := by
  change (ExceptT.bindCont (fun _ ↦ f) (m.run.run s).1).run (m.run.run s).2 = _
  split
  · next heq => rw [heq]; rfl
  · next heq => rw [heq]; rfl

/-- Destroying subscriptions leaves some of those alive, and raises if one of the calls does. -/
theorem destroySubscriptions_run (fails : InnerStep → Bool) (subs : List (RosEntity ρ θ))
    (s : RawROS ρ θ κ) : ∃ alive, alive ⊆ s.rclpy.subscriptions ∧
      (destroySubscriptions fails subs).run.run s =
        (if subs.any fun sub ↦ fails (.destroySubscription sub.handle) then .error () else .ok (),
          { s with rclpy := { s.rclpy with subscriptions := alive } }) := by
  induction subs generalizing s with
  | nil => exact ⟨s.rclpy.subscriptions, List.Subset.refl _, rfl⟩
  | cons sub subs ih =>
    rw [destroySubscriptions, inner_bind]
    cases hfails : fails (.destroySubscription sub.handle) with
    | true => exact ⟨s.rclpy.subscriptions, List.Subset.refl _, by simp [hfails]⟩
    | false =>
      obtain ⟨alive, hsubset, hrun⟩ := ih (destroySubscription sub s)
      refine ⟨alive, List.Subset.trans hsubset (List.filter_subset_self _), ?_⟩
      rw [if_neg Bool.false_ne_true, List.any_cons, hfails, Bool.false_or]
      exact hrun

private theorem destroyPublishers_run (fails : InnerStep → Bool) (pubs : List (RosEntity ρ θ))
    (s : RawROS ρ θ κ) : (destroyPublishers fails pubs).run.run s =
      (if pubs.any fun pub ↦ fails (.destroyPublisher pub.handle) then .error () else .ok (),
        s) := by
  induction pubs with
  | nil => rfl
  | cons pub pubs ih =>
    rw [destroyPublishers, inner_bind]
    cases hfails : fails (.destroyPublisher pub.handle) with
    | true => simp [hfails]
    | false => simpa [hfails] using ih

/-- The object after a `stop` that returns, with the ROS subscriptions still alive. -/
def stopped (s : RawROS ρ θ κ) (alive : List (RosEntity ρ θ)) : RawROS ρ θ κ :=
  { s with
    node := none
    executor := none
    spin_thread := none
    stop_event := true
    publishers := []
    subscriptions := []
    rclpy := { s.rclpy with
      nodes := s.rclpy.nodes.filter (some · ≠ s.node)
      subscriptions := alive } }

/-- The destroy calls of a `stop`: the node goes last, and only if no call before it raises. -/
theorem releaseNode_run {s : RawROS ρ θ κ} {n : ℕ} (hnode : s.node = some n)
    (fails : InnerStep → Bool) (subs pubs : List (RosEntity ρ θ)) :
    ∃ alive, alive ⊆ s.rclpy.subscriptions ∧ (releaseNode fails subs pubs).run.run s =
      if (subs.any fun sub ↦ fails (.destroySubscription sub.handle)) = true ∨
          (pubs.any fun pub ↦ fails (.destroyPublisher pub.handle)) = true ∨
          fails .destroyNode = true then
        (.error (), { s with rclpy := { s.rclpy with subscriptions := alive } })
      else (.ok (), destroyNode n { s with rclpy := { s.rclpy with subscriptions := alive } }) := by
  obtain ⟨alive, hsubset, hsubs⟩ := destroySubscriptions_run fails subs s
  have hcalls : (releaseNode fails subs pubs).run.run s =
      (destroySubscriptions fails subs >>= fun _ ↦ destroyPublishers fails pubs >>= fun _ ↦
        inner fails .destroyNode (destroyNode n)).run.run s := by
    change (match s.node with
      | none => (pure () : RosM ρ θ κ Unit)
      | some node => _).run.run s = _
    rw [hnode]
  refine ⟨alive, hsubset, ?_⟩
  rw [hcalls, run_bind, hsubs]
  cases subs.any fun sub ↦ fails (.destroySubscription sub.handle) with
  | true => simp
  | false =>
    simp only [Bool.false_eq_true, if_false, false_or]
    rw [run_bind, destroyPublishers_run]
    cases pubs.any fun pub ↦ fails (.destroyPublisher pub.handle) with
    | true => simp
    | false => simp

/-- The object has been started: it has a node, an executor and a thread that was started. -/
structure Started (s : RawROS ρ θ κ) : Prop where
  node : s.node ≠ none
  executor : s.executor ≠ none
  thread : s.spin_thread = some .running ∨ s.spin_thread = some .finished

/-- A started object has a thread, and it can be joined. -/
theorem Started.thread_ne {s : RawROS ρ θ κ} (h : Started s) :
    s.spin_thread ≠ none ∧ s.spin_thread ≠ some .created := by
  rcases h.thread with hthread | hthread <;> simp [hthread]

/-- A `stop` of a started object up to its destroy calls. -/
theorem stop_begin {s : RawROS ρ θ κ} (h : Started s) (fails : InnerStep → Bool) :
    (stop fails).run.run s =
      if fails .shutdown = true ∨ fails .join = true then
        (.error (), { s with stop_event := true })
      else (releaseNode fails (s.subscriptions.flatMap (·.2.map Prod.fst))
          (s.publishers.map Prod.snd) >>= fun _ ↦
          modify fun s ↦ { s with executor := none, spin_thread := none }).run.run
        { s with stop_event := true, subscriptions := [], publishers := [] } := by
  change ((if s.spin_thread.isNone = true then pure ()
    else (modify fun s ↦ { s with stop_event := true }) >>= fun _ ↦ _ :
      RosM ρ θ κ Unit)).run.run s = _
  rw [if_neg (by simpa using h.thread_ne.1)]
  change (shutdown fails >>= fun _ ↦ _).run.run { s with stop_event := true } = _
  have hshutdown : (shutdown fails).run.run { s with stop_event := true } =
      if fails .shutdown then (.error (), { s with stop_event := true })
      else (.ok (), { s with stop_event := true }) := by
    change ((if s.executor.isSome = true then inner fails .shutdown id
      else pure () : RosM ρ θ κ Unit)).run.run { s with stop_event := true } = _
    rw [if_pos (Option.isSome_iff_ne_none.mpr h.executor), inner_run]
    rfl
  have hjoin : (join fails).run.run { s with stop_event := true } =
      if fails .join then (.error (), { s with stop_event := true })
      else (.ok (), { s with stop_event := true }) := by
    change ((if s.spin_thread = some .created then throw ()
      else inner fails .join id : RosM ρ θ κ Unit)).run.run { s with stop_event := true } = _
    rw [if_neg h.thread_ne.2, inner_run]
    rfl
  rw [run_bind, hshutdown]
  cases fails .shutdown with
  | true => rfl
  | false =>
    simp only [Bool.false_eq_true, if_false, false_or]
    rw [run_bind, hjoin]
    cases fails .join with
    | true => rfl
    | false => rfl

private theorem exists_stopSteps_iff (s : RawROS ρ θ κ) (fails : InnerStep → Bool) :
    (∃ step ∈ s.stopSteps, fails step = true) ↔
      (fails .shutdown = true ∨ fails .join = true) ∨
        ((s.subscriptions.flatMap (·.2.map Prod.fst)).any fun sub ↦
          fails (.destroySubscription sub.handle)) = true ∨
        ((s.publishers.map Prod.snd).any fun pub ↦ fails (.destroyPublisher pub.handle)) = true ∨
        fails .destroyNode = true := by
  rw [stopSteps, ← List.any_eq_true, List.any_append, List.any_append, List.any_append,
    List.any_map, List.any_map]
  simp [Function.comp_def, or_assoc]

/-- A `stop` of a started object returns if no inner step raises; what is alive then is on
other nodes. -/
theorem stop_returns {s : RawROS ρ θ κ} (h : Started s) {fails : InnerStep → Bool}
    (hok : ¬ ∃ step ∈ s.stopSteps, fails step = true) :
    ∃ alive, (∀ sub ∈ alive, sub ∈ s.rclpy.subscriptions ∧ s.node ≠ some sub.node) ∧
      (stop fails).run.run s = (.ok (), s.stopped alive) := by
  obtain ⟨n, hnode⟩ := Option.ne_none_iff_exists'.mp h.node
  rw [exists_stopSteps_iff, not_or] at hok
  obtain ⟨alive, hsubset, hrelease⟩ := releaseNode_run
    (s := { s with stop_event := true, subscriptions := [], publishers := [] }) hnode fails
    (s.subscriptions.flatMap (·.2.map Prod.fst)) (s.publishers.map Prod.snd)
  refine ⟨alive.filter (·.node ≠ n), fun sub hsub ↦ ?_, ?_⟩
  · obtain ⟨hmem, hne⟩ := List.mem_filter.mp hsub
    refine ⟨hsubset hmem, ?_⟩
    rw [hnode]
    exact fun heq ↦ of_decide_eq_true hne (Option.some.inj heq).symm
  · rw [stop_begin h, if_neg hok.1, run_bind, hrelease, if_neg hok.2]
    simp [stopped, hnode, destroyNode]
    rfl

private theorem stop_raises {s : RawROS ρ θ κ} (h : Started s) {fails : InnerStep → Bool}
    (hfails : ∃ step ∈ s.stopSteps, fails step = true) :
    ((stop fails).run.run s).2.stop_event = true ∧
      ((stop fails).run.run s).2.spin_thread = s.spin_thread := by
  obtain ⟨n, hnode⟩ := Option.ne_none_iff_exists'.mp h.node
  rw [exists_stopSteps_iff] at hfails
  rw [stop_begin h]
  split
  · exact ⟨rfl, rfl⟩
  · next hbegun =>
    obtain ⟨alive, -, hrelease⟩ := releaseNode_run
      (s := { s with stop_event := true, subscriptions := [], publishers := [] }) hnode fails
      (s.subscriptions.flatMap (·.2.map Prod.fst)) (s.publishers.map Prod.snd)
    rw [run_bind, hrelease, if_pos (hfails.resolve_left hbegun)]
    exact ⟨rfl, rfl⟩

/-- A `start` of a started object does nothing. -/
theorem start_of_some {s : RawROS ρ θ κ} (h : s.spin_thread ≠ none) (fails : InnerStep → Bool) :
    ((start fails).run.run s).2 = s := by
  change (((if s.spin_thread.isSome = true then pure ()
    else _ : RosM ρ θ κ Unit)).run.run s).2 = s
  rw [if_pos (Option.isSome_iff_ne_none.mpr h)]
  rfl

/-- A `stop` of an object that is not started does nothing. -/
theorem stop_of_none {s : RawROS ρ θ κ} (h : s.spin_thread = none) (fails : InnerStep → Bool) :
    ((stop fails).run.run s).2 = s := by
  change (((if s.spin_thread.isNone = true then pure ()
    else _ : RosM ρ θ κ Unit)).run.run s).2 = s
  rw [if_pos (by simp [h])]
  rfl

/-- The next successful `start` of an object that is not started. -/
theorem restart_of_none {s : RawROS ρ θ κ} (h : s.spin_thread = none) : s.restart = s.started := by
  rw [restart, start_run h]
  simp only [Bool.false_eq_true, and_false, if_false]
  rfl

/-- The next `start` of a started object. -/
theorem restart_of_some {s : RawROS ρ θ κ} (h : s.spin_thread ≠ none) : s.restart = s :=
  start_of_some h _

/-- A thread is stored. -/
theorem AllSet.thread {s : RawROS ρ θ κ} {n : ℕ} (h : AllSet s n) : s.spin_thread ≠ none := by
  rw [h.live.1]
  exact Option.some_ne_none _

/-- With everything set the object has been started. -/
theorem AllSet.started {s : RawROS ρ θ κ} {n : ℕ} (h : AllSet s n) : Started s :=
  ⟨by simp [h.node], by simp [h.executor], Or.inl h.live.1⟩

/-- A successful `start` sets everything. -/
theorem AllNone.started {s : RawROS ρ θ κ} (h : AllNone s) : AllSet s.started s.rclpy.made :=
  ⟨rfl, rfl, ⟨rfl, rfl⟩, by simp [RawROS.started, addNode, newNode, h.nodes]⟩

/-- The publishers in the map are on the node. -/
def OnNode (s : RawROS ρ θ κ) (n : ℕ) : Prop :=
  ∀ topic pub, s.publishers.lookup topic = some pub → pub.node = n

/-- An object with everything set works if its publishers are on its node. -/
theorem AllSet.works_iff {s : RawROS ρ θ κ} {n : ℕ} (h : AllSet s n) : Works s ↔ OnNode s n := by
  constructor
  · rintro ⟨hpublish, -⟩ topic pub hlookup
    obtain ⟨pub', s', hpub, hmem⟩ := hpublish ⟨topic, pub.ros_type, none⟩
    simp only [publish, h.node, Option.isNone_some, Bool.false_eq_true, if_false,
      getOrCreatePublisher, hlookup, Option.some.injEq, Prod.mk.injEq] at hpub
    obtain ⟨rfl, rfl⟩ := hpub
    rwa [h.nodes, List.mem_singleton] at hmem
  · intro hon
    constructor
    · intro topic
      simp only [publish, h.node, Option.isNone_some, Bool.false_eq_true, if_false,
        getOrCreatePublisher]
      cases hlookup : s.publishers.lookup topic.topic with
      | some pub => exact ⟨pub, s, rfl, by simp [h.nodes, hon _ _ hlookup]⟩
      | none => exact ⟨_, _, rfl, by simp [h.nodes]⟩
    · intro topic callback
      refine ⟨_, _, by rw [subscribe, h.node]; rfl, ?_⟩
      exact ⟨by simp [h.nodes], ⟨_, h.executor, List.mem_singleton_self n⟩, h.live⟩

private theorem AllSet.atomic_iff {s : RawROS ρ θ κ} {n : ℕ} (h : AllSet s n) : Atomic s ↔ OnNode s n := by
  rw [Atomic, restart_of_some h.thread, h.works_iff]
  exact and_iff_right (Or.inl ⟨n, h⟩)

private theorem not_atomic_of_node {s : RawROS ρ θ κ} (hnode : s.node ≠ none)
    (hthread : s.spin_thread ≠ some .running) : ¬ Atomic s := by
  rintro ⟨⟨n, hall⟩ | hnone, -⟩
  · exact hthread hall.live.1
  · exact hnode hnone.node

/-- A `start` of an object that is not started leaves it atomic exactly when it returns or fails
before it has a node. -/
theorem atomic_start_iff {s : RawROS ρ θ κ} (h : AllNone s) (hs : Atomic s)
    (fails : InnerStep → Bool) :
    Atomic ((start fails).run.run s).2 ↔ FailsEarly s (.start fails) := by
  have hworks : Works s.started := by
    rw [← restart_of_none h.spin_thread]
    exact hs.2
  simp only [FailsEarly, h.spin_thread, forall_const]
  rw [start_run h.spin_thread]
  split
  · next hinit => exact iff_of_true hs (Or.inl hinit)
  · next hinit =>
    rw [or_iff_right hinit]
    cases fails .node with
    | true =>
      have hnone : AllNone { s with
          stop_event := false, rclpy := { s.rclpy with ok := true } } := ⟨h.1, h.2, h.3, h.4⟩
      refine iff_of_true ⟨Or.inr hnone, ?_⟩ (Or.inl rfl)
      rwa [if_pos rfl, restart_of_none hnone.spin_thread]
    | false =>
      cases fails .executor with
      | true =>
        apply iff_of_false _ (by simp)
        exact not_atomic_of_node (by simp [newNode]) (by simp [newNode, h.spin_thread])
      | false =>
        cases fails .addNode with
        | true =>
          apply iff_of_false _ (by simp)
          exact not_atomic_of_node (by simp [newNode]) (by simp [newNode, h.spin_thread])
        | false =>
          cases fails .threadStart with
          | true =>
            apply iff_of_false _ (by simp)
            exact not_atomic_of_node (by simp [newNode, addNode]) (by simp)
          | false =>
            apply iff_of_true _ (by simp)
            change Atomic s.started
            refine ⟨Or.inl ⟨_, h.started⟩, ?_⟩
            rwa [restart_of_some h.started.thread]

/-- A `stop` of an object with everything set leaves it atomic exactly when nothing raises. -/
theorem atomic_stop_iff {s : RawROS ρ θ κ} {n : ℕ} (h : AllSet s n) (fails : InnerStep → Bool) :
    Atomic ((stop fails).run.run s).2 ↔ FailsEarly s (.stop fails) := by
  have hcond : FailsEarly s (.stop fails) ↔ ¬ ∃ step ∈ s.stopSteps, fails step = true := by
    simp [FailsEarly, h.thread]
  rw [hcond]
  by_cases hfails : ∃ step ∈ s.stopSteps, fails step = true
  · apply iff_of_false _ (not_not.mpr hfails)
    obtain ⟨hevent, hthread⟩ := stop_raises h.started hfails
    rintro ⟨⟨m, hall⟩ | hnone, -⟩
    · rw [hall.live.2] at hevent
      contradiction
    · exact h.thread (hthread.symm.trans hnone.spin_thread)
  · apply iff_of_true _ hfails
    obtain ⟨alive, -, hrun⟩ := stop_returns h.started hfails
    rw [hrun]
    have hnone : AllNone (s.stopped alive) := ⟨rfl, rfl, rfl, by simp [stopped, h.nodes, h.node]⟩
    refine ⟨Or.inr hnone, ?_⟩
    rw [restart_of_none hnone.spin_thread, hnone.started.works_iff]
    intro topic pub hlookup
    simp [RawROS.started, addNode, newNode, stopped] at hlookup

/-- Publishing keeps an atomic object atomic. -/
theorem Atomic.publish {s : RawROS ρ θ κ} (h : Atomic s) (topic : RawROSTopic ρ θ) :
    Atomic (((s.publish topic).map Prod.snd).getD s) := by
  rcases h.1 with ⟨n, hall⟩ | hnone
  · have hon := hall.atomic_iff.mp h
    simp only [RawROS.publish, hall.node, Option.isNone_some, Bool.false_eq_true, if_false,
      getOrCreatePublisher]
    cases hlookup : s.publishers.lookup topic.topic with
    | some pub => exact h
    | none =>
      simp only [Option.map_some, Option.getD_some]
      refine (AllSet.atomic_iff (n := n) ?_).mpr ?_
      · exact ⟨rfl, hall.executor, hall.live, hall.nodes⟩
      · intro name pub hpub
        rw [List.lookup_append] at hpub
        rcases Option.or_eq_some_iff.mp hpub with hold | ⟨-, hnew⟩
        · exact hon name pub hold
        · rw [List.lookup_cons] at hnew
          split at hnew
          · cases hnew
            rfl
          · simp at hnew
  · rwa [RawROS.publish, hnone.node]

/-- Subscribing keeps an atomic object atomic. -/
theorem Atomic.subscribe {s : RawROS ρ θ κ} (h : Atomic s) (topic : RawROSTopic ρ θ)
    (callback : κ) : Atomic (((s.subscribe topic callback).map Prod.snd).getD s) := by
  rcases h.1 with ⟨n, hall⟩ | hnone
  · have hon := hall.atomic_iff.mp h
    rw [RawROS.subscribe, hall.node]
    refine (AllSet.atomic_iff (n := n) ?_).mpr hon
    exact ⟨rfl, hall.executor, hall.live, hall.nodes⟩
  · rwa [RawROS.subscribe, hnone.node]

/-- One call out of an atomic state ends in an atomic state exactly when none of its inner steps
raises too late. -/
theorem atomic_step (s : RawROS ρ θ κ) (call : Call ρ θ κ) (s' : RawROS ρ θ κ) (_ : True)
    (h : Atomic s) (hs : step s call = some s') : Atomic s' ↔ FailsEarly s call := by
  cases call with
  | start fails =>
    cases hs
    rcases h.1 with ⟨n, hall⟩ | hnone
    · rw [start_of_some hall.thread]
      exact iff_of_true h fun hthread ↦ absurd hthread hall.thread
    · exact atomic_start_iff hnone h fails
  | stop fails =>
    cases hs
    rcases h.1 with ⟨n, hall⟩ | hnone
    · exact atomic_stop_iff hall fails
    · rw [stop_of_none hnone.spin_thread]
      exact iff_of_true h fun hthread ↦ absurd hnone.spin_thread hthread
  | publish topic =>
    cases hs
    exact iff_of_true (h.publish topic) trivial
  | subscribe topic callback =>
    cases hs
    exact iff_of_true (h.subscribe topic callback) trivial

private theorem atomic_new (qos : θ) : Atomic ({ qos } : RawROS ρ θ κ) := by
  have hnone : AllNone ({ qos } : RawROS ρ θ κ) := ⟨rfl, rfl, rfl, rfl⟩
  refine ⟨Or.inr hnone, ?_⟩
  rw [restart_of_none hnone.spin_thread, hnone.started.works_iff]
  intro topic pub hlookup
  simp [started, addNode, newNode] at hlookup

/-- `start` and `stop` are atomic in every state between two calls exactly when no `start` fails
once it has a node and no `stop` of a started object fails at all. -/
theorem startStop_atomic_iff (qos : θ) (calls : List (Call ρ θ κ)) :
    AllStates step Atomic ({ qos } : RawROS ρ θ κ) calls ↔
      AllSteps step FailsEarly ({ qos } : RawROS ρ θ κ) calls :=
  allStates_iff_allSteps trivial (atomic_new qos) (fun _ _ _ _ _ ↦ trivial) atomic_step calls

/-- A `start` that fails to make its executor leaves a live node that no call cleans up. -/
theorem failed_start_leaves_node :
    ¬ ∀ calls, AllStates step Atomic ({ qos := () } : RawROS Unit Unit Unit) calls := by
  intro h
  have hafter := h [.start fun step ↦ step == .executor] _ _ (List.prefix_refl _) rfl
  have hearly := (atomic_start_iff ⟨rfl, rfl, rfl, rfl⟩ (atomic_new ()) _).mp hafter rfl
  simp at hearly

end RawROS

end HzjDds.PubSub
