import HzjDds.PubSub.Spin

/-!
# Subscription bookkeeping of raw ROS pubsub

Library `PubSub`. Source: `rospubsub.py:118–167,206–246`. The map of subscriptions is compared with
the subscriptions that exist in `rclpy`, over any sequence of calls of the object and of the handles
it has returned. No inner step of `start` and `stop` fails here.
-/

namespace HzjDds.PubSub

open HzjDds.Transition

/-- A raw ROS pubsub object and what its handles close over. `called` and `destroyed` are history:
the handles called so far, and the `destroy_subscription` calls that handles have made, each with
its handle, the node and the subscription. -/
structure Handles (ρ θ κ : Type) where
  ros : RawROS ρ θ κ
  closures : List (RosClosure ρ θ κ) := []
  called : List ℕ := []
  destroyed : List (ℕ × ℕ × RosEntity ρ θ) := []

/-- A call of the object or of a handle. -/
inductive HandleCall (ρ θ κ : Type) where
  | start
  | stop
  | subscribe (topic : RawROSTopic ρ θ) (callback : κ)
  | unsubscribe (handle : ℕ)

variable {ρ θ κ : Type}

namespace RawROS

/-- An entry of the map of subscriptions. -/
def Entry (s : RawROS ρ θ κ) (name : String) (entry : RosEntity ρ θ × κ) : Prop :=
  ∃ item ∈ s.subscriptions, item.1 = name ∧ entry ∈ item.2

/-- A subscription listed in the map. -/
def Listed (s : RawROS ρ θ κ) (sub : RosEntity ρ θ) : Prop :=
  ∃ name callback, s.Entry name (sub, callback)

/-- The node on which a handle destroys its subscription, if it does
(`rospubsub.py:237,243–244`). -/
def destroysOn (s : RawROS ρ θ κ) (closure : RosClosure ρ θ κ) : Option ℕ :=
  if (s.subscriptions.lookup closure.topic.topic).isSome then s.node else none

end RawROS

namespace Handles

/-- The object after a handle has been called. -/
def call [DecidableEq κ] (s : Handles ρ θ κ) (handle : ℕ) (closure : RosClosure ρ θ κ) : Handles ρ θ κ :=
  { s with
    ros := s.ros.unsubscribe closure
    called := s.called ++ [handle]
    destroyed := s.destroyed ++
      ((s.ros.destroysOn closure).map fun node ↦ (handle, node, closure.subscription)).toList }

/-- One call. A `subscribe` that raises returns no handle. -/
def step [DecidableEq κ] (s : Handles ρ θ κ) : HandleCall ρ θ κ → Option (Handles ρ θ κ)
  | .start => some { s with ros := s.ros.restart }
  | .stop => some { s with ros := ((RawROS.stop fun _ ↦ false).run.run s.ros).2 }
  | .subscribe topic callback =>
    match s.ros.subscribe topic callback with
    | none => some s
    | some (subscription, ros) => some { s with
        ros
        closures := s.closures ++ [⟨subscription, topic, callback⟩] }
  | .unsubscribe handle => s.closures[handle]?.map (s.call handle)

/-- The subscription was made in the current session. -/
def InSession (s : Handles ρ θ κ) (sub : RosEntity ρ θ) : Prop := s.ros.node = some sub.node

/-- The handle of the subscription has been called. -/
def Unsubscribed (s : Handles ρ θ κ) (sub : RosEntity ρ θ) : Prop :=
  ∃ handle closure, s.closures[handle]? = some closure ∧ closure.subscription = sub ∧
    handle ∈ s.called

/-- The bookkeeping is right: the map lists the live subscriptions of the session that have not been
unsubscribed, a handle destroys its own subscription, through the node it was made on and at most
once, and nothing outlives `stop`. -/
structure Kept (s : Handles ρ θ κ) : Prop where
  listed : ∀ sub, s.ros.Listed sub ↔
    sub ∈ s.ros.rclpy.subscriptions ∧ s.InSession sub ∧ ¬ s.Unsubscribed sub
  own : ∀ handle node sub, (handle, node, sub) ∈ s.destroyed →
    (∃ closure, s.closures[handle]? = some closure ∧ closure.subscription = sub) ∧ node = sub.node
  once : (s.destroyed.map Prod.fst).Nodup
  stopped : s.ros.spin_thread = none → s.ros.rclpy.subscriptions = []

/-- A handle is called for the first time, in its own session, and when no other subscription of its
topic and callback is left; or the session has made no subscription of its topic. -/
def Alone (s : Handles ρ θ κ) : HandleCall ρ θ κ → Prop
  | .unsubscribe handle => ∀ closure, s.closures[handle]? = some closure →
      (∃ other ∈ s.closures, s.InSession other.subscription ∧
        other.topic.topic = closure.topic.topic) →
      s.InSession closure.subscription ∧ handle ∉ s.called ∧
        ∀ j other, s.closures[j]? = some other → s.InSession other.subscription →
          other.topic.topic = closure.topic.topic → other.callback = closure.callback →
          j = handle ∨ j ∈ s.called
  | _ => True

/-- What holds between two calls, whatever the handles do. -/
structure Inv (s : Handles ρ θ κ) : Prop where
  loop : (s.ros.spin_thread = none ∧ s.ros.node = none ∧ s.ros.subscriptions = [] ∧
    s.ros.rclpy.subscriptions = []) ∨ s.ros.Started
  fresh : (∀ n, s.ros.node = some n → n < s.ros.rclpy.made) ∧ ∀ closure ∈ s.closures,
    closure.subscription.node < s.ros.rclpy.made ∧ closure.subscription.handle < s.ros.rclpy.made
  distinct : (s.closures.map (·.subscription.handle)).Nodup
  keys : ∀ name, name ∈ s.ros.subscriptions.map Prod.fst ↔
    ∃ closure ∈ s.closures, s.InSession closure.subscription ∧ closure.topic.topic = name
  entries : ∀ name sub callback, s.ros.Entry name (sub, callback) →
    ∃ handle closure, s.closures[handle]? = some closure ∧ s.InSession sub ∧
      closure.topic.topic = name ∧ closure.subscription = sub ∧ closure.callback = callback ∧
      handle ∉ s.called
  made : ∀ sub ∈ s.ros.rclpy.subscriptions,
    s.InSession sub ∧ ∃ closure ∈ s.closures, closure.subscription = sub
  alive : ∀ handle closure, s.closures[handle]? = some closure →
    s.InSession closure.subscription →
    (closure.subscription ∈ s.ros.rclpy.subscriptions ↔ handle ∉ s.called)
  valid : ∀ handle ∈ s.called, handle < s.closures.length
  recorded : ∀ handle ∈ s.called, ∀ closure, s.closures[handle]? = some closure →
    s.InSession closure.subscription → handle ∈ s.destroyed.map Prod.fst
  records : ∀ handle ∈ s.destroyed.map Prod.fst, handle ∈ s.called

end Handles

namespace RawROS

/-! ## The map and the live subscriptions after a call -/

private theorem not_entry_of_empty {s : RawROS ρ θ κ} (h : s.subscriptions = []) (name : String)
    (entry : RosEntity ρ θ × κ) : ¬ s.Entry name entry := by
  rintro ⟨item, hitem, -⟩
  rw [h] at hitem
  contradiction

/-- An entry is stored under a key. -/
theorem Entry.key {s : RawROS ρ θ κ} {name : String} {entry : RosEntity ρ θ × κ}
    (h : s.Entry name entry) : name ∈ s.subscriptions.map Prod.fst := by
  obtain ⟨item, hitem, rfl, -⟩ := h
  exact List.mem_map_of_mem hitem

private theorem isSome_lookup_iff {s : RawROS ρ θ κ} {name : String} :
    (s.subscriptions.lookup name).isSome ↔ name ∈ s.subscriptions.map Prod.fst := by
  simp only [List.lookup_isSome_iff, beq_iff_eq, List.mem_map]
  exact ⟨fun ⟨item, hitem, heq⟩ ↦ ⟨item, hitem, heq.symm⟩,
    fun ⟨item, hitem, heq⟩ ↦ ⟨item, hitem, heq.symm⟩⟩

private theorem keys_map {α : Type} (subs : List (String × α)) {f : String × α → String × α}
    (hf : ∀ item, (f item).1 = item.1) : (subs.map f).map Prod.fst = subs.map Prod.fst := by
  rw [List.map_map]
  exact List.map_congr_left fun item _ ↦ hf item

private theorem keys_appendSubscription (subs : List (String × List (RosEntity ρ θ × κ)))
    (topic name : String) (entry : RosEntity ρ θ × κ) :
    name ∈ (appendSubscription subs topic entry).map Prod.fst ↔
      name ∈ subs.map Prod.fst ∨ name = topic := by
  unfold appendSubscription
  split
  · next hkey =>
    obtain ⟨item, hitem, heq⟩ := List.lookup_isSome_iff.mp hkey
    rw [keys_map subs fun item ↦ by split <;> simp_all]
    refine ⟨Or.inl, fun h ↦ h.elim id ?_⟩
    rintro rfl
    rw [beq_iff_eq.mp heq]
    exact List.mem_map_of_mem hitem
  · simp

/-- Appending to the list of a topic adds one entry. -/
theorem entries_appendSubscription (subs : List (String × List (RosEntity ρ θ × κ)))
    (topic name : String) (entry e : RosEntity ρ θ × κ) :
    (∃ item ∈ appendSubscription subs topic entry, item.1 = name ∧ e ∈ item.2) ↔
      (∃ item ∈ subs, item.1 = name ∧ e ∈ item.2) ∨ name = topic ∧ e = entry := by
  unfold appendSubscription
  split
  · next hkey =>
    obtain ⟨old, hold, heq⟩ := List.lookup_isSome_iff.mp hkey
    have heq : topic = old.1 := beq_iff_eq.mp heq
    constructor
    · rintro ⟨item, hitem, rfl, he⟩
      obtain ⟨before, hbefore, rfl⟩ := List.mem_map.mp hitem
      by_cases h : before.1 = topic
      · rw [if_pos h] at he ⊢
        rcases List.mem_append.mp he with he | he
        · exact Or.inl ⟨before, hbefore, h, he⟩
        · exact Or.inr ⟨rfl, List.mem_singleton.mp he⟩
      · rw [if_neg h] at he ⊢
        exact Or.inl ⟨before, hbefore, rfl, he⟩
    · rintro (⟨item, hitem, rfl, he⟩ | ⟨rfl, rfl⟩)
      · refine ⟨_, List.mem_map_of_mem hitem, ?_⟩
        by_cases h : item.1 = topic
        · simp [h, he]
        · simp [h, he]
      · refine ⟨_, List.mem_map_of_mem hold, ?_⟩
        simp [heq]
  · constructor
    · rintro ⟨item, hitem, rfl, he⟩
      rcases List.mem_append.mp hitem with hitem | hitem
      · exact Or.inl ⟨item, hitem, rfl, he⟩
      · obtain rfl := List.mem_singleton.mp hitem
        exact Or.inr ⟨rfl, List.mem_singleton.mp he⟩
    · rintro (⟨item, hitem, rfl, he⟩ | ⟨rfl, rfl⟩)
      · exact ⟨item, List.mem_append_left _ hitem, rfl, he⟩
      · exact ⟨_, List.mem_append_right _ (List.mem_singleton_self _), rfl,
          List.mem_singleton_self _⟩

private theorem subscribe_spec {s s' : RawROS ρ θ κ} {topic : RawROSTopic ρ θ} {callback : κ}
    {sub : RosEntity ρ θ} (h : s.subscribe topic callback = some (sub, s')) :
    s.node = some sub.node ∧ sub.handle = s.rclpy.made ∧ s'.rclpy.made = s.rclpy.made + 1 ∧
      s'.rclpy.subscriptions = s.rclpy.subscriptions ++ [sub] ∧
      s'.subscriptions = appendSubscription s.subscriptions topic.topic (sub, callback) := by
  obtain ⟨n, hnode, heq⟩ := Option.map_eq_some_iff.mp h
  cases heq
  exact ⟨hnode, rfl, rfl, rfl, rfl⟩

variable [DecidableEq κ]

private theorem keys_unsubscribe (s : RawROS ρ θ κ) (closure : RosClosure ρ θ κ) :
    (s.unsubscribe closure).subscriptions.map Prod.fst = s.subscriptions.map Prod.fst := by
  unfold unsubscribe
  split
  · dsimp only
    split <;> exact keys_map _ fun item ↦ by split <;> rfl
  · rfl

/-- A handle takes every entry with its callback out of the list of its topic. -/
theorem entry_unsubscribe {s : RawROS ρ θ κ} {closure : RosClosure ρ θ κ} {name : String}
    {entry : RosEntity ρ θ × κ} : (s.unsubscribe closure).Entry name entry ↔
      s.Entry name entry ∧ (name = closure.topic.topic → entry.2 ≠ closure.callback) := by
  have hfilter : (∃ item ∈ s.subscriptions.map fun item ↦
      if item.1 = closure.topic.topic then (item.1, item.2.filter (·.2 ≠ closure.callback))
      else item, item.1 = name ∧ entry ∈ item.2) ↔
      s.Entry name entry ∧ (name = closure.topic.topic → entry.2 ≠ closure.callback) := by
    constructor
    · rintro ⟨item, hitem, rfl, he⟩
      obtain ⟨before, hbefore, rfl⟩ := List.mem_map.mp hitem
      by_cases h : before.1 = closure.topic.topic
      · rw [if_pos h] at he ⊢
        obtain ⟨he, hne⟩ := List.mem_filter.mp he
        exact ⟨⟨before, hbefore, rfl, he⟩, fun _ ↦ of_decide_eq_true hne⟩
      · rw [if_neg h] at he ⊢
        exact ⟨⟨before, hbefore, rfl, he⟩, fun heq ↦ absurd heq h⟩
    · rintro ⟨⟨item, hitem, rfl, he⟩, hne⟩
      refine ⟨_, List.mem_map_of_mem hitem, ?_⟩
      by_cases h : item.1 = closure.topic.topic
      · rw [if_pos h]
        exact ⟨rfl, List.mem_filter.mpr ⟨he, decide_eq_true (hne h)⟩⟩
      · rw [if_neg h]
        exact ⟨rfl, he⟩
  unfold unsubscribe
  split
  · dsimp only
    split <;> exact hfilter
  · next hkey =>
    refine ⟨fun h ↦ ⟨h, fun heq ↦ ?_⟩, And.left⟩
    exact absurd (isSome_lookup_iff.mpr (heq ▸ h.key)) hkey

private theorem alive_unsubscribe {s : RawROS ρ θ κ} {closure : RosClosure ρ θ κ} {sub : RosEntity ρ θ} :
    sub ∈ (s.unsubscribe closure).rclpy.subscriptions ↔ sub ∈ s.rclpy.subscriptions ∧
      (s.destroysOn closure = none ∨ sub.handle ≠ closure.subscription.handle) := by
  unfold unsubscribe destroysOn
  split
  · dsimp only
    cases s.node with
    | none => simp
    | some n => simp [destroySubscription]
  · simp

end RawROS

namespace Handles

/-! ## What every call keeps -/

private theorem getElem?_concat_eq_some {α : Type} {l : List α} {a b : α} {i : ℕ} :
    (l ++ [a])[i]? = some b ↔ l[i]? = some b ∨ i = l.length ∧ b = a := by
  rcases lt_trichotomy i l.length with hlt | rfl | hgt
  · rw [List.getElem?_append_left hlt, or_iff_left fun h ↦ hlt.ne h.1]
  · rw [List.getElem?_concat_length]
    simp [eq_comm]
  · have hout : ∀ {m : List α}, m.length ≤ i → m[i]? = none := List.getElem?_eq_none
    rw [hout (by simpa [Nat.succ_le_iff] using hgt), hout hgt.le]
    simp [hgt.ne']

/-- A new object. -/
theorem inv_new (qos : θ) : Inv ({ ros := { qos } } : Handles ρ θ κ) := by
  constructor
  case loop => exact Or.inl ⟨rfl, rfl, rfl, rfl⟩
  case fresh => exact ⟨fun _ h ↦ by contradiction, fun _ h ↦ by contradiction⟩
  case distinct => exact List.nodup_nil
  case keys => simp
  case entries =>
    intro name sub callback h
    exact (RawROS.not_entry_of_empty rfl _ _ h).elim
  case made => simp
  case alive => simp
  case valid => simp
  case recorded => simp
  case records => simp

/-- A call that ends the session, or begins one, with nothing listed and nothing alive. -/
theorem Inv.newSession {s : Handles ρ θ κ} (h : Inv s) {ros : RawROS ρ θ κ}
    (hloop : (ros.spin_thread = none ∧ ros.node = none) ∨ ros.Started)
    (hlisted : ros.subscriptions = []) (halive : ros.rclpy.subscriptions = [])
    (hmade : s.ros.rclpy.made ≤ ros.rclpy.made)
    (hnode : ∀ n, ros.node = some n → s.ros.rclpy.made ≤ n ∧ n < ros.rclpy.made) :
    Inv { s with ros } := by
  have hout : ∀ closure ∈ s.closures,
      ¬ InSession { s with ros } closure.subscription := fun closure hclosure hin ↦ by
    have hold := (h.fresh.2 closure hclosure).1
    have hnew := (hnode _ hin).1
    omega
  constructor
  case loop => exact hloop.imp (fun h ↦ ⟨h.1, h.2, hlisted, halive⟩) id
  case fresh =>
    refine ⟨fun n hn ↦ (hnode n hn).2, fun closure hclosure ↦ ?_⟩
    have hold := h.fresh.2 closure hclosure
    exact ⟨hold.1.trans_le hmade, hold.2.trans_le hmade⟩
  case distinct => exact h.distinct
  case keys =>
    intro name
    change name ∈ ros.subscriptions.map Prod.fst ↔ _
    rw [hlisted]
    refine iff_of_false (by simp) ?_
    rintro ⟨closure, hclosure, hin, -⟩
    exact hout closure hclosure hin
  case entries =>
    intro name sub callback hentry
    exact (RawROS.not_entry_of_empty hlisted _ _ hentry).elim
  case made =>
    change ∀ sub ∈ ros.rclpy.subscriptions, _
    rw [halive]
    exact fun _ hsub ↦ by contradiction
  case alive =>
    intro handle closure hclosure hin
    exact absurd hin (hout closure (List.mem_of_getElem? hclosure))
  case valid => exact h.valid
  case recorded =>
    intro handle _ closure hclosure hin
    exact absurd hin (hout closure (List.mem_of_getElem? hclosure))
  case records => exact h.records

private theorem Kept.newSession {s : Handles ρ θ κ} (h : Kept s) {ros : RawROS ρ θ κ}
    (hlisted : ros.subscriptions = []) (halive : ros.rclpy.subscriptions = []) :
    Kept { s with ros } := by
  constructor
  case listed =>
    intro sub
    refine iff_of_false ?_ ?_
    · rintro ⟨name, callback, hentry⟩
      exact RawROS.not_entry_of_empty hlisted _ _ hentry
    · rintro ⟨hsub, -⟩
      change sub ∈ ros.rclpy.subscriptions at hsub
      rw [halive] at hsub
      contradiction
  case own => exact h.own
  case once => exact h.once
  case stopped => exact fun _ ↦ halive

/-- `start` begins a session, or does nothing. -/
theorem Inv.start {s : Handles ρ θ κ} (h : Inv s) :
    Inv { s with ros := s.ros.restart } ∧ (Kept s → Kept { s with ros := s.ros.restart }) := by
  rcases h.loop with ⟨hthread, -, hlisted, halive⟩ | hstarted
  · have hstart := RawROS.restart_of_none hthread
    rw [hstart]
    refine ⟨h.newSession (Or.inr ⟨?_, ?_, Or.inl rfl⟩) hlisted halive (Nat.le_succ _) ?_, ?_⟩
    · exact Option.some_ne_none _
    · exact Option.some_ne_none _
    · intro n hn
      cases hn
      exact ⟨le_rfl, Nat.lt_succ_self _⟩
    · exact fun hk ↦ hk.newSession hlisted halive
  · rw [RawROS.restart_of_some hstarted.thread_ne.1]
    exact ⟨h, id⟩

/-- `stop` ends the session, or does nothing. -/
theorem Inv.stop {s : Handles ρ θ κ} (h : Inv s) :
    Inv { s with ros := ((RawROS.stop fun _ ↦ false).run.run s.ros).2 } ∧
      (Kept s → Kept { s with ros := ((RawROS.stop fun _ ↦ false).run.run s.ros).2 }) := by
  rcases h.loop with ⟨hthread, -, -⟩ | hstarted
  · rw [RawROS.stop_of_none hthread]
    exact ⟨h, id⟩
  · have hok : ¬ ∃ step ∈ s.ros.stopSteps, (fun _ ↦ false) step = true := by simp
    obtain ⟨alive, hothers, hrun⟩ := RawROS.stop_returns hstarted hok
    rw [hrun]
    have halive : alive = [] := List.eq_nil_iff_forall_not_mem.mpr fun sub hsub ↦
      (hothers sub hsub).2 (h.made sub (hothers sub hsub).1).1
    subst halive
    exact ⟨h.newSession (Or.inl ⟨rfl, rfl⟩) rfl rfl le_rfl fun _ hn ↦ by contradiction,
      fun hk ↦ hk.newSession rfl rfl⟩

private theorem Inv.handle_eq {s : Handles ρ θ κ} (h : Inv s) {i j : ℕ} {closure other : RosClosure ρ θ κ}
    (hi : s.closures[i]? = some closure) (hj : s.closures[j]? = some other)
    (heq : closure.subscription.handle = other.subscription.handle) : i = j := by
  obtain ⟨hlt, -⟩ := List.getElem?_eq_some_iff.mp hi
  refine (List.getElem?_inj (by simpa using hlt) h.distinct).mp ?_
  rw [List.getElem?_map, List.getElem?_map, hi, hj]
  exact congrArg some heq

/-- In a session the object is started. -/
theorem Inv.started {s : Handles ρ θ κ} (h : Inv s) {n : ℕ} (hnode : s.ros.node = some n) :
    s.ros.Started := by
  rcases h.loop with ⟨-, hnone, -⟩ | hstarted
  · rw [hnone] at hnode
    contradiction
  · exact hstarted

/-- A listed subscription is live, of this session and not unsubscribed. -/
theorem Inv.listed {s : Handles ρ θ κ} (h : Inv s) {sub : RosEntity ρ θ} (hsub : s.ros.Listed sub) :
    sub ∈ s.ros.rclpy.subscriptions ∧ s.InSession sub ∧ ¬ s.Unsubscribed sub := by
  obtain ⟨name, callback, hentry⟩ := hsub
  obtain ⟨j, closure, hj, hin, -, rfl, -, hcalled⟩ := h.entries name sub callback hentry
  refine ⟨(h.alive j closure hj hin).mpr hcalled, hin, ?_⟩
  rintro ⟨i, other, hi, heq, hcalled'⟩
  obtain rfl := h.handle_eq hi hj (congrArg RosEntity.handle heq)
  exact hcalled hcalled'

private theorem Inv.destroysOn_eq_some {s : Handles ρ θ κ} (h : Inv s) {closure : RosClosure ρ θ κ}
    {n : ℕ} : s.ros.destroysOn closure = some n ↔ s.ros.node = some n ∧
      ∃ other ∈ s.closures, s.InSession other.subscription ∧
        other.topic.topic = closure.topic.topic := by
  rw [RawROS.destroysOn, ← h.keys, ← RawROS.isSome_lookup_iff]
  split
  · next hkey => exact (and_iff_left hkey).symm
  · next hkey => exact iff_of_false (Option.some_ne_none n).symm fun hand ↦ hkey hand.2

private theorem Inv.destroysOn_ne_none {s : Handles ρ θ κ} (h : Inv s) {closure other : RosClosure ρ θ κ}
    (hother : other ∈ s.closures) (hin : s.InSession other.subscription)
    (htopic : other.topic.topic = closure.topic.topic) : s.ros.destroysOn closure ≠ none := by
  rw [h.destroysOn_eq_some.mpr ⟨hin, other, hother, hin, htopic⟩]
  exact Option.some_ne_none _

/-- Subscribing adds one subscription to the map and to those alive. -/
theorem Inv.subscribe {s : Handles ρ θ κ} (h : Inv s) {topic : RawROSTopic ρ θ} {callback : κ}
    {sub : RosEntity ρ θ} {ros : RawROS ρ θ κ}
    (hs : s.ros.subscribe topic callback = some (sub, ros)) :
    Inv { s with ros, closures := s.closures ++ [⟨sub, topic, callback⟩] } := by
  obtain ⟨hnode, hhandle, hmade, halive, hlisted⟩ := RawROS.subscribe_spec hs
  have hloop := RawROS.sameLoop_subscribe hs
  have hin : ∀ x, Handles.InSession
      { s with ros, closures := s.closures ++ [⟨sub, topic, callback⟩] } x ↔ s.InSession x :=
    fun x ↦ by rw [InSession, InSession, hloop.node]
  have hnew : s.closures.length ∉ s.called := fun hmem ↦ (h.valid _ hmem).false
  have hne : ∀ closure ∈ s.closures, closure.subscription ≠ sub := by
    rintro closure hclosure rfl
    have hlt := (h.fresh.2 closure hclosure).2
    omega
  constructor
  case loop => exact Or.inr (hloop.started (h.started hnode))
  case fresh =>
    change (∀ n, ros.node = some n → n < ros.rclpy.made) ∧ ∀ closure ∈ s.closures ++ _, _
    rw [hloop.node, hmade]
    refine ⟨fun n hn ↦ (h.fresh.1 n hn).trans (Nat.lt_succ_self _), fun closure hclosure ↦ ?_⟩
    rcases List.mem_append.mp hclosure with hclosure | hclosure
    · have hold := h.fresh.2 closure hclosure
      omega
    · obtain rfl := List.mem_singleton.mp hclosure
      have hn := h.fresh.1 _ hnode
      exact ⟨hn.trans (Nat.lt_succ_self _), by rw [hhandle]; exact Nat.lt_succ_self _⟩
  case distinct =>
    rw [List.map_append, List.nodup_append]
    refine ⟨h.distinct, List.pairwise_singleton .., ?_⟩
    rintro a ha b hb rfl
    obtain ⟨closure, hclosure, heq⟩ := List.mem_map.mp ha
    have hlt := (h.fresh.2 closure hclosure).2
    have hb := List.mem_singleton.mp hb
    change a = sub.handle at hb
    omega
  case keys =>
    intro name
    change name ∈ ros.subscriptions.map Prod.fst ↔ _
    rw [hlisted, RawROS.keys_appendSubscription, h.keys]
    simp only [List.mem_append, List.mem_singleton, or_and_right, exists_or, exists_eq_left, hin]
    exact or_congr_right ⟨fun heq ↦ ⟨hnode, heq.symm⟩, fun heq ↦ heq.2.symm⟩
  case entries =>
    rintro name x cb ⟨item, hitem, hname, hentry⟩
    change item ∈ ros.subscriptions at hitem
    rw [hlisted] at hitem
    rcases (RawROS.entries_appendSubscription ..).mp ⟨item, hitem, hname, hentry⟩ with
      hold | ⟨rfl, heq⟩
    · obtain ⟨j, closure, hj, hx, hrest⟩ := h.entries name x cb hold
      have hlt := (List.getElem?_eq_some_iff.mp hj).1
      exact ⟨j, closure, (List.getElem?_append_left hlt).trans hj, (hin x).mpr hx, hrest⟩
    · cases heq
      exact ⟨s.closures.length, _, List.getElem?_concat_length, (hin _).mpr hnode, rfl, rfl, rfl,
        hnew⟩
  case made =>
    change ∀ x ∈ ros.rclpy.subscriptions, _
    rw [halive]
    intro x hx
    rcases List.mem_append.mp hx with hx | hx
    · obtain ⟨hsession, closure, hclosure, heq⟩ := h.made x hx
      exact ⟨(hin x).mpr hsession, closure, List.mem_append_left _ hclosure, heq⟩
    · obtain rfl := List.mem_singleton.mp hx
      exact ⟨(hin x).mpr hnode, _, List.mem_append_right _ (List.mem_singleton_self _), rfl⟩
  case alive =>
    intro j closure hj hsession
    change closure.subscription ∈ ros.rclpy.subscriptions ↔ _
    rw [halive, List.mem_append, List.mem_singleton]
    rcases getElem?_concat_eq_some.mp hj with hold | ⟨rfl, rfl⟩
    · rw [or_iff_left (hne closure (List.mem_of_getElem? hold))]
      exact h.alive j closure hold ((hin _).mp hsession)
    · exact iff_of_true (Or.inr rfl) hnew
  case valid =>
    intro j hj
    have hlt := h.valid j hj
    simp only [List.length_append, List.length_singleton]
    omega
  case recorded =>
    intro j hj closure hclosure hsession
    rw [List.getElem?_append_left (h.valid j hj)] at hclosure
    exact h.recorded j hj closure hclosure ((hin _).mp hsession)
  case records => exact h.records

/-- Subscribing keeps the bookkeeping right. -/
theorem Kept.subscribe {s : Handles ρ θ κ} (hk : Kept s) (h : Inv s) {topic : RawROSTopic ρ θ}
    {callback : κ} {sub : RosEntity ρ θ} {ros : RawROS ρ θ κ}
    (hs : s.ros.subscribe topic callback = some (sub, ros)) :
    Kept { s with ros, closures := s.closures ++ [⟨sub, topic, callback⟩] } := by
  obtain ⟨hnode, -, -, halive, hlisted⟩ := RawROS.subscribe_spec hs
  have hloop := RawROS.sameLoop_subscribe hs
  have hinv := h.subscribe hs
  constructor
  case listed =>
    intro x
    refine ⟨hinv.listed, ?_⟩
    rintro ⟨hx, hin, hcalled⟩
    change x ∈ ros.rclpy.subscriptions at hx
    rw [halive] at hx
    have hentry : ∀ name cb, s.ros.Entry name (x, cb) ∨
        name = topic.topic ∧ (x, cb) = (sub, callback) → ros.Entry name (x, cb) := by
      intro name cb hold
      rw [RawROS.Entry, hlisted]
      exact (RawROS.entries_appendSubscription ..).mpr hold
    rcases List.mem_append.mp hx with hx | hx
    · rw [InSession, hloop.node] at hin
      have hold : ¬ s.Unsubscribed x := by
        rintro ⟨j, closure, hj, heq, hmem⟩
        exact hcalled ⟨j, closure, getElem?_concat_eq_some.mpr (Or.inl hj), heq, hmem⟩
      obtain ⟨name, cb, hlisted⟩ := (hk.listed x).mpr ⟨hx, hin, hold⟩
      exact ⟨name, cb, hentry name cb (Or.inl hlisted)⟩
    · obtain rfl := List.mem_singleton.mp hx
      exact ⟨_, _, hentry _ callback (Or.inr ⟨rfl, rfl⟩)⟩
  case own =>
    intro handle n x hx
    obtain ⟨⟨closure, hclosure, heq⟩, hn⟩ := hk.own handle n x hx
    exact ⟨⟨closure, getElem?_concat_eq_some.mpr (Or.inl hclosure), heq⟩, hn⟩
  case once => exact hk.once
  case stopped =>
    intro hnone
    exact absurd (hloop.spin_thread.symm.trans hnone) (h.started hnode).thread_ne.1

variable [DecidableEq κ]

private theorem inSession_call {s : Handles ρ θ κ} {handle : ℕ} {closure : RosClosure ρ θ κ}
    {sub : RosEntity ρ θ} : (s.call handle closure).InSession sub ↔ s.InSession sub := by
  change (s.ros.unsubscribe closure).node = _ ↔ _
  rw [(RawROS.sameLoop_unsubscribe s.ros closure).node, InSession]

private theorem mem_destroyed_call {s : Handles ρ θ κ} {handle j : ℕ} {closure : RosClosure ρ θ κ} :
    j ∈ (s.call handle closure).destroyed.map Prod.fst ↔
      j ∈ s.destroyed.map Prod.fst ∨ j = handle ∧ s.ros.destroysOn closure ≠ none := by
  change j ∈ (s.destroyed ++ _).map Prod.fst ↔ _
  rw [List.map_append, List.mem_append]
  cases s.ros.destroysOn closure <;> simp

private theorem made_unsubscribe (s : RawROS ρ θ κ) (closure : RosClosure ρ θ κ) :
    (s.unsubscribe closure).rclpy.made = s.rclpy.made := by
  unfold RawROS.unsubscribe
  split
  · dsimp only
    split <;> rfl
  · rfl

/-- A call of a handle keeps the invariant. -/
theorem Inv.call {s : Handles ρ θ κ} (h : Inv s) {handle : ℕ} {closure : RosClosure ρ θ κ}
    (hclosure : s.closures[handle]? = some closure) : Inv (s.call handle closure) := by
  have hmem : ∀ {j : ℕ}, j ∈ (s.call handle closure).called ↔ j ∈ s.called ∨ j = handle := by
    intro j
    exact List.mem_append.trans (or_congr_right List.mem_singleton)
  have hloop := RawROS.sameLoop_unsubscribe s.ros closure
  have hdestroys : s.InSession closure.subscription → s.ros.destroysOn closure ≠ none :=
    fun hin ↦ h.destroysOn_ne_none (List.mem_of_getElem? hclosure) hin rfl
  constructor
  case loop =>
    rcases h.loop with ⟨hthread, hnode, hlisted, halive⟩ | hstarted
    · have hsame : (s.call handle closure).ros = s.ros := by
        simp [Handles.call, RawROS.unsubscribe, hlisted]
      rw [hsame]
      exact Or.inl ⟨hthread, hnode, hlisted, halive⟩
    · exact Or.inr (hloop.started hstarted)
  case fresh =>
    change (∀ n, (s.ros.unsubscribe closure).node = some n → n < _) ∧ ∀ closure ∈ s.closures, _
    rw [hloop.node]
    change (∀ n, _ → n < (s.ros.unsubscribe _).rclpy.made) ∧ ∀ closure ∈ s.closures,
      _ < (s.ros.unsubscribe _).rclpy.made ∧ _ < (s.ros.unsubscribe _).rclpy.made
    rw [made_unsubscribe]
    exact h.fresh
  case distinct => exact h.distinct
  case keys =>
    intro name
    change name ∈ (s.ros.unsubscribe closure).subscriptions.map Prod.fst ↔ _
    rw [RawROS.keys_unsubscribe, h.keys]
    simp only [inSession_call]
    rfl
  case entries =>
    intro name x cb hentry
    obtain ⟨hold, hne⟩ := RawROS.entry_unsubscribe.mp hentry
    obtain ⟨j, other, hj, hin, htopic, hx, hcb, hcalled⟩ := h.entries name x cb hold
    refine ⟨j, other, hj, inSession_call.mpr hin, htopic, hx, hcb, ?_⟩
    rw [hmem, not_or]
    refine ⟨hcalled, ?_⟩
    rintro rfl
    rw [hclosure] at hj
    cases hj
    exact hne htopic.symm hcb.symm
  case made =>
    intro x hx
    obtain ⟨hin, hmade⟩ := h.made x (RawROS.alive_unsubscribe.mp hx).1
    exact ⟨inSession_call.mpr hin, hmade⟩
  case alive =>
    intro j other hj hin
    rw [inSession_call] at hin
    refine RawROS.alive_unsubscribe.trans ?_
    rw [h.alive j other hj hin, hmem, not_or]
    refine and_congr_right fun _ ↦ ?_
    by_cases hjh : j = handle
    · subst hjh
      cases hclosure.symm.trans hj
      exact iff_of_false (not_or.mpr ⟨hdestroys hin, not_not.mpr rfl⟩) (not_not.mpr rfl)
    · exact iff_of_true (Or.inr fun heq ↦ hjh (h.handle_eq hj hclosure heq)) hjh
  case valid =>
    intro j hj
    rcases hmem.mp hj with hj | rfl
    · exact h.valid j hj
    · exact (List.getElem?_eq_some_iff.mp hclosure).1
  case recorded =>
    intro j hj other hother hin
    rw [inSession_call] at hin
    rw [mem_destroyed_call]
    rcases hmem.mp hj with hj | rfl
    · exact Or.inl (h.recorded j hj other hother hin)
    · cases hclosure.symm.trans hother
      exact Or.inr ⟨rfl, hdestroys hin⟩
  case records =>
    intro j hj
    rcases mem_destroyed_call.mp hj with hj | ⟨rfl, -⟩
    · exact hmem.mpr (Or.inl (h.records j hj))
    · exact hmem.mpr (Or.inr rfl)

/-! ## The bookkeeping after a call of a handle -/

private theorem destroyed_call {s : Handles ρ θ κ} {n : ℕ} {closure : RosClosure ρ θ κ} (handle : ℕ)
    (hdestroys : s.ros.destroysOn closure = some n) : (s.call handle closure).destroyed =
      s.destroyed ++ [(handle, n, closure.subscription)] := by
  simp [Handles.call, hdestroys]

private theorem Kept.listed_before {s : Handles ρ θ κ} (hk : Kept s) {handle : ℕ}
    {closure : RosClosure ρ θ κ} {sub : RosEntity ρ θ}
    (hsub : sub ∈ (s.call handle closure).ros.rclpy.subscriptions)
    (hin : (s.call handle closure).InSession sub)
    (hcalled : ¬ (s.call handle closure).Unsubscribed sub) : s.ros.Listed sub := by
  refine (hk.listed sub).mpr
    ⟨(RawROS.alive_unsubscribe.mp hsub).1, inSession_call.mp hin, ?_⟩
  rintro ⟨j, other, hj, heq, hmem⟩
  exact hcalled ⟨j, other, hj, heq, List.mem_append_left _ hmem⟩

private theorem Kept.stopped_call {s : Handles ρ θ κ} (hk : Kept s) {handle : ℕ}
    {closure : RosClosure ρ θ κ} (hthread : (s.call handle closure).ros.spin_thread = none) :
    (s.call handle closure).ros.rclpy.subscriptions = [] := by
  change (s.ros.unsubscribe closure).spin_thread = none at hthread
  rw [(RawROS.sameLoop_unsubscribe s.ros closure).spin_thread] at hthread
  refine List.eq_nil_iff_forall_not_mem.mpr fun sub hsub ↦ ?_
  have hold := (RawROS.alive_unsubscribe.mp hsub).1
  rw [hk.stopped hthread] at hold
  contradiction

private theorem Kept.call_of_none {s : Handles ρ θ κ} (hk : Kept s) (h : Inv s) {handle : ℕ}
    {closure : RosClosure ρ θ κ} (hclosure : s.closures[handle]? = some closure)
    (hnone : s.ros.destroysOn closure = none) : Kept (s.call handle closure) := by
  have hdestroyed : (s.call handle closure).destroyed = s.destroyed := by
    simp [Handles.call, hnone]
  constructor
  case listed =>
    intro x
    refine ⟨(h.call hclosure).listed, ?_⟩
    rintro ⟨hx, hin, hcalled⟩
    obtain ⟨name, cb, hentry⟩ := hk.listed_before hx hin hcalled
    obtain ⟨j, other, hj, hsession, htopic, rfl, -⟩ := h.entries name x cb hentry
    refine ⟨name, cb, RawROS.entry_unsubscribe.mpr ⟨hentry, fun heq ↦ ?_⟩⟩
    exact absurd hnone
      (h.destroysOn_ne_none (List.mem_of_getElem? hj) hsession (htopic.trans heq))
  case own =>
    rw [hdestroyed]
    exact hk.own
  case once =>
    rw [hdestroyed]
    exact hk.once
  case stopped => exact hk.stopped_call

/-- A handle that destroys its subscription leaves the bookkeeping right if it is called alone. -/
theorem Kept.call_of_alone {s : Handles ρ θ κ} (hk : Kept s) (h : Inv s) {handle n : ℕ}
    {closure : RosClosure ρ θ κ} (hclosure : s.closures[handle]? = some closure)
    (hdestroys : s.ros.destroysOn closure = some n) (hin : s.InSession closure.subscription)
    (hfirst : handle ∉ s.called)
    (hothers : ∀ j other, s.closures[j]? = some other → s.InSession other.subscription →
      other.topic.topic = closure.topic.topic → other.callback = closure.callback →
      j = handle ∨ j ∈ s.called) : Kept (s.call handle closure) := by
  have hnode := (h.destroysOn_eq_some.mp hdestroys).1
  have hdestroyed := destroyed_call handle hdestroys
  constructor
  case listed =>
    intro x
    refine ⟨(h.call hclosure).listed, ?_⟩
    rintro ⟨hx, hsession, hcalled⟩
    obtain ⟨name, cb, hentry⟩ := hk.listed_before hx hsession hcalled
    refine ⟨name, cb, RawROS.entry_unsubscribe.mpr ⟨hentry, ?_⟩⟩
    rintro rfl hcb
    -- the entry has the callback of the handle: it is the handle's own
    obtain ⟨j, other, hj, hjin, htopic, rfl, hcb', hjcalled⟩ := h.entries _ x cb hentry
    rcases hothers j other hj hjin htopic (hcb'.trans hcb) with rfl | hmem
    · exact hcalled ⟨j, other, hj, rfl, List.mem_append_right _ (List.mem_singleton_self _)⟩
    · exact hjcalled hmem
  case own =>
    rw [hdestroyed]
    intro j m x hx
    rcases List.mem_append.mp hx with hx | hx
    · exact hk.own j m x hx
    · cases List.mem_singleton.mp hx
      refine ⟨⟨closure, hclosure, rfl⟩, ?_⟩
      rw [InSession, hnode] at hin
      exact Option.some.inj hin
  case once =>
    rw [hdestroyed, List.map_append, List.nodup_append]
    refine ⟨hk.once, List.pairwise_singleton .., ?_⟩
    rintro a ha b hb rfl
    obtain rfl := List.mem_singleton.mp hb
    exact hfirst (h.records _ ha)
  case stopped => exact hk.stopped_call

/-- A handle that destroys its subscription is called alone if the bookkeeping stays right. -/
theorem Kept.alone {s : Handles ρ θ κ} (h : Inv s) {handle n : ℕ} {closure : RosClosure ρ θ κ}
    (hclosure : s.closures[handle]? = some closure) (hdestroys : s.ros.destroysOn closure = some n)
    (hk : Kept (s.call handle closure)) :
    s.InSession closure.subscription ∧ handle ∉ s.called ∧
      ∀ j other, s.closures[j]? = some other → s.InSession other.subscription →
        other.topic.topic = closure.topic.topic → other.callback = closure.callback →
        j = handle ∨ j ∈ s.called := by
  have hdestroyed := destroyed_call handle hdestroys
  have hin : s.InSession closure.subscription := by
    have hn : n = closure.subscription.node := by
      refine (hk.own handle n closure.subscription ?_).2
      rw [hdestroyed]
      exact List.mem_append_right _ (List.mem_singleton_self _)
    rw [InSession, (h.destroysOn_eq_some.mp hdestroys).1, hn]
  refine ⟨hin, fun hcalled ↦ ?_, fun j other hj hjin htopic hcb ↦ ?_⟩
  · have hrecorded := h.recorded handle hcalled closure hclosure hin
    have honce := hk.once
    rw [hdestroyed, List.map_append, List.nodup_append] at honce
    exact honce.2.2 handle hrecorded handle (List.mem_singleton_self _) rfl
  · by_contra hnot
    obtain ⟨hne, hjcalled⟩ := not_or.mp hnot
    -- the other subscription is still alive, but its entry has the callback of the handle
    have hx : other.subscription ∈ (s.call handle closure).ros.rclpy.subscriptions :=
      RawROS.alive_unsubscribe.mpr ⟨(h.alive j other hj hjin).mpr hjcalled,
        Or.inr fun heq ↦ hne (h.handle_eq hj hclosure heq)⟩
    have hold : ¬ (s.call handle closure).Unsubscribed other.subscription := by
      rintro ⟨i, third, hi, heq, hmem⟩
      obtain rfl := h.handle_eq hi hj (congrArg RosEntity.handle heq)
      rcases List.mem_append.mp hmem with hmem | hmem
      · exact hjcalled hmem
      · exact hne (List.mem_singleton.mp hmem)
    obtain ⟨name, cb, hentry⟩ := (hk.listed _).mpr ⟨hx, inSession_call.mpr hjin, hold⟩
    obtain ⟨hentry, hcb'⟩ := RawROS.entry_unsubscribe.mp hentry
    obtain ⟨i, third, hi, -, hname, heq, hthird, -⟩ := h.entries _ _ _ hentry
    obtain rfl := h.handle_eq hi hj (congrArg RosEntity.handle heq)
    cases hi.symm.trans hj
    exact hcb' (hname.symm.trans htopic) (hthird.symm.trans hcb)

/-- A call of a handle keeps the bookkeeping right exactly when the handle is called alone. -/
theorem kept_call_iff {s : Handles ρ θ κ} (h : Inv s) (hk : Kept s) {handle : ℕ}
    {closure : RosClosure ρ θ κ} (hclosure : s.closures[handle]? = some closure) :
    Kept (s.call handle closure) ↔ Alone s (.unsubscribe handle) := by
  cases hdestroys : s.ros.destroysOn closure with
  | none =>
    refine iff_of_true (hk.call_of_none h hclosure hdestroys) ?_
    intro c hc hother
    cases hclosure.symm.trans hc
    obtain ⟨other, hmem, hin, htopic⟩ := hother
    exact absurd hdestroys (h.destroysOn_ne_none hmem hin htopic)
  | some n =>
    constructor
    · intro hkept c hc _
      cases hclosure.symm.trans hc
      exact hkept.alone h hclosure hdestroys
    · intro halone
      obtain ⟨hin, hfirst, hothers⟩ :=
        halone closure hclosure (h.destroysOn_eq_some.mp hdestroys).2
      exact hk.call_of_alone h hclosure hdestroys hin hfirst hothers

/-- One call keeps the invariant. -/
theorem inv_step (s : Handles ρ θ κ) (a : HandleCall ρ θ κ) (s' : Handles ρ θ κ) (h : Inv s)
    (hs : step s a = some s') : Inv s' := by
  cases a with
  | start =>
    cases hs
    exact h.start.1
  | stop =>
    cases hs
    exact h.stop.1
  | subscribe topic callback =>
    simp only [step] at hs
    split at hs
    · cases hs
      exact h
    · next hsubscribe =>
      cases hs
      exact h.subscribe hsubscribe
  | unsubscribe handle =>
    obtain ⟨closure, hclosure, rfl⟩ := Option.map_eq_some_iff.mp hs
    exact h.call hclosure

/-- One call out of a state with the right bookkeeping ends in such a state exactly when it is no
handle, or one that is called alone. -/
theorem kept_step (s : Handles ρ θ κ) (a : HandleCall ρ θ κ) (s' : Handles ρ θ κ) (h : Inv s)
    (hk : Kept s) (hs : step s a = some s') : Kept s' ↔ Alone s a := by
  cases a with
  | start =>
    cases hs
    exact iff_of_true (h.start.2 hk) trivial
  | stop =>
    cases hs
    exact iff_of_true (h.stop.2 hk) trivial
  | subscribe topic callback =>
    simp only [step] at hs
    split at hs
    · cases hs
      exact iff_of_true hk trivial
    · next hsubscribe =>
      cases hs
      exact iff_of_true (hk.subscribe h hsubscribe) trivial
  | unsubscribe handle =>
    obtain ⟨closure, hclosure, rfl⟩ := Option.map_eq_some_iff.mp hs
    exact kept_call_iff h hk hclosure

omit [DecidableEq κ] in
private theorem kept_new (qos : θ) : Kept ({ ros := { qos } } : Handles ρ θ κ) := by
  have hinv := inv_new (ρ := ρ) (κ := κ) qos
  constructor
  case listed => exact fun x ↦ ⟨hinv.listed, fun hx ↦ by simp at hx⟩
  case own => exact fun _ _ _ hx ↦ by contradiction
  case once => exact List.nodup_nil
  case stopped => exact fun _ ↦ rfl

/-- The bookkeeping is right between all calls exactly when every handle is called alone. -/
theorem bookkeeping_iff (qos : θ) (calls : List (HandleCall ρ θ κ)) :
    AllStates step Kept ({ ros := { qos } } : Handles ρ θ κ) calls ↔
      AllSteps step Alone ({ ros := { qos } } : Handles ρ θ κ) calls :=
  allStates_iff_allSteps (inv_new qos) (kept_new qos) inv_step kept_step calls

/-- Of two subscriptions with one callback, the handle of one takes both off the list. -/
theorem same_callback_leaks :
    ¬ ∀ calls, AllStates step Kept ({ ros := { qos := () } } : Handles Unit Unit ℕ) calls := by
  intro h
  have hkept := h [.start, .subscribe ⟨"chatter", (), none⟩ 7, .subscribe ⟨"chatter", (), none⟩ 7,
    .unsubscribe 0] _ _ (List.prefix_refl _) rfl
  obtain ⟨name, callback, item, hitem, -, hentry⟩ :=
    (hkept.listed ⟨2, 0, "chatter", (), ()⟩).mpr ⟨by decide, rfl, by
      rintro ⟨j, closure, hj, heq, hmem⟩
      obtain rfl := List.mem_singleton.mp hmem
      cases hj
      exact absurd heq (by decide)⟩
  obtain rfl := List.mem_singleton.mp hitem
  contradiction

end Handles

end HzjDds.PubSub
