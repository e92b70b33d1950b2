import HzjDds.PubSub.RawRos

/-!
# Publisher cache of raw ROS pubsub

Library `PubSub`. Source: `rospubsub.py:56–63,118–167,180–204`. Publishers are kept under the name of
their topic. Every message handed to ROS is recorded with the publisher it went through, over any
sequence of calls, `start` and `stop` calls with failing inner steps included.
-/

namespace HzjDds.PubSub

open HzjDds.Transition

/-- A message handed to ROS: its publisher, the descriptor it was published with, and the node of
the object at that time. -/
structure Handed (ρ θ : Type) where
  publisher : RosEntity ρ θ
  topic : RawROSTopic ρ θ
  node : Option ℕ
  deriving DecidableEq, Repr

/-- A raw ROS object with the messages it has handed over; `recent` are those since the map of
publishers was last cleared. -/
structure Publishing (ρ θ κ : Type) where
  ros : RawROS ρ θ κ
  handed : List (Handed ρ θ) := []
  recent : List (Handed ρ θ) := []

variable {ρ θ κ : Type}

namespace Publishing

/-- The object after a message has been handed to a publisher. -/
def hand (s : Publishing ρ θ κ) (topic : RawROSTopic ρ θ) (publisher : RosEntity ρ θ)
    (ros : RawROS ρ θ κ) : Publishing ρ θ κ :=
  { ros
    handed := s.handed ++ [⟨publisher, topic, s.ros.node⟩]
    recent := s.recent ++ [⟨publisher, topic, s.ros.node⟩] }

/-- The object after a `stop`. -/
def halt (s : Publishing ρ θ κ) (ros : RawROS ρ θ κ) : Publishing ρ θ κ :=
  { s with ros, recent := if ros.publishers.isEmpty then [] else s.recent }

/-- One call. -/
def step (s : Publishing ρ θ κ) : RawROS.Call ρ θ κ → Option (Publishing ρ θ κ)
  | .start fails => some { s with ros := ((RawROS.start fails).run.run s.ros).2 }
  | .stop fails => some (s.halt ((RawROS.stop fails).run.run s.ros).2)
  | .publish topic =>
    match s.ros.publish topic with
    | none => some s
    | some (publisher, ros) => some (s.hand topic publisher ros)
  | .subscribe topic callback =>
    some { s with ros := ((s.ros.subscribe topic callback).map Prod.snd).getD s.ros }

/-- The QoS profile of a descriptor (`rospubsub.py:187`). -/
def effectiveQos (s : Publishing ρ θ κ) (topic : RawROSTopic ρ θ) : θ := topic.qos.getD s.ros.qos

/-- Every message went through a publisher of the node of its time, made with the name, the type and
the QoS profile of its descriptor. -/
def Matched (s : Publishing ρ θ κ) : Prop :=
  ∀ message ∈ s.handed, message.node = some message.publisher.node ∧
    message.publisher.topic = message.topic.topic ∧
    message.publisher.ros_type = message.topic.ros_type ∧
    message.publisher.qos = s.effectiveQos message.topic

/-- A message agrees with the earlier ones on its topic since the map was cleared: they had the same
type and QoS profile, and were published on the same node. -/
def Agrees (s : Publishing ρ θ κ) : RawROS.Call ρ θ κ → Prop
  | .publish topic => s.ros.node ≠ none →
      ∀ message ∈ s.recent, message.topic.topic = topic.topic →
        message.node = s.ros.node ∧ message.topic.ros_type = topic.ros_type ∧
          s.effectiveQos message.topic = s.effectiveQos topic
  | _ => True

/-- The map holds the publishers of the recent messages, each under the name of its topic. -/
structure Inv (s : Publishing ρ θ κ) : Prop where
  recent : s.recent ⊆ s.handed
  cached : ∀ message ∈ s.recent,
    s.ros.publishers.lookup message.topic.topic = some message.publisher
  used : ∀ name publisher, s.ros.publishers.lookup name = some publisher →
    ∃ message ∈ s.recent, message.topic.topic = name ∧ message.publisher = publisher

end Publishing

namespace RawROS

/-! ## What methods keep -/

/-- A method keeps a property of the object, whether it returns or raises. -/
def Keeps (P : RawROS ρ θ κ → Prop) (m : RosM ρ θ κ Unit) : Prop :=
  ∀ s, P s → P (m.run.run s).2

variable {P : RawROS ρ θ κ → Prop}

/-- A method keeps what its parts keep. -/
theorem Keeps.bind {m f : RosM ρ θ κ Unit} (hm : Keeps P m) (hf : Keeps P f) :
    Keeps P (m >>= fun _ ↦ f) := by
  intro s hs
  have hnext := hm s hs
  rw [run_bind]
  split
  · next heq =>
    rw [heq] at hnext
    exact hf _ hnext
  · next heq =>
    rw [heq] at hnext
    exact hnext

private theorem keeps_modify {f : RawROS ρ θ κ → RawROS ρ θ κ} (hf : ∀ s, P s → P (f s)) :
    Keeps P (modify f) := hf

private theorem keeps_inner (fails : InnerStep → Bool) (step : InnerStep)
    {effect : RawROS ρ θ κ → RawROS ρ θ κ} (heffect : ∀ s, P s → P (effect s)) :
    Keeps P (inner fails step effect) := by
  intro s hs
  rw [inner_run]
  split
  · exact hs
  · exact heffect s hs

private theorem keeps_get {f : RawROS ρ θ κ → RosM ρ θ κ Unit} (hf : ∀ s, Keeps P (f s)) :
    Keeps P (get >>= f) := fun s hs ↦ hf s s hs

/-- The publishers are untouched or gone, and the default profile is untouched. -/
def SamePublishers (s s' : RawROS ρ θ κ) : Prop :=
  (s'.publishers = s.publishers ∨ s'.publishers = []) ∧ s'.qos = s.qos

private theorem keeps_pure : Keeps P (pure () : RosM ρ θ κ Unit) := fun _ hs ↦ hs

private theorem keeps_throw : Keeps P (throw () : RosM ρ θ κ Unit) := fun _ hs ↦ hs

private theorem keeps_releaseNode (fails : InnerStep → Bool) (subs pubs : List (RosEntity ρ θ))
    (hsub : ∀ sub s, P s → P (destroySubscription sub s)) (hnode : ∀ n s, P s → P (destroyNode n s)) :
    Keeps P (releaseNode fails subs pubs) := by
  have hsubs : Keeps P (destroySubscriptions fails subs) := by
    induction subs with
    | nil => exact keeps_pure
    | cons sub subs ih => exact (keeps_inner fails _ (hsub sub)).bind ih
  have hpubs : Keeps P (destroyPublishers fails pubs) := by
    induction pubs with
    | nil => exact keeps_pure
    | cons pub pubs ih => exact (keeps_inner fails _ fun _ hs ↦ hs).bind ih
  refine keeps_get fun s ↦ ?_
  cases s.node with
  | none => exact keeps_pure
  | some n => exact hsubs.bind (hpubs.bind (keeps_inner fails _ (hnode n)))

private theorem samePublishers_stop (s : RawROS ρ θ κ) (fails : InnerStep → Bool) :
    SamePublishers s ((stop fails).run.run s).2 := by
  have hshutdown : Keeps (SamePublishers s) (shutdown fails) := by
    refine keeps_get fun t ↦ ?_
    split
    · exact keeps_inner fails _ fun _ ht ↦ ht
    · exact keeps_pure
  have hjoin : Keeps (SamePublishers s) (join fails) := by
    refine keeps_get fun t ↦ ?_
    split
    · exact keeps_throw
    · exact keeps_inner fails _ fun _ ht ↦ ht
  have hkeeps : Keeps (SamePublishers s) (stop fails) := by
    refine keeps_get fun t ↦ ?_
    split
    · exact keeps_pure
    · refine Keeps.bind ?_ (hshutdown.bind (hjoin.bind (keeps_get fun u ↦ ?_)))
      · exact keeps_modify fun _ ht ↦ ht
      · refine Keeps.bind ?_ (Keeps.bind ?_ ?_)
        · exact keeps_modify fun _ hv ↦ ⟨Or.inr rfl, hv.2⟩
        · exact keeps_releaseNode fails _ _ (fun _ _ hv ↦ hv) fun _ _ hv ↦ hv
        · exact keeps_modify fun _ hv ↦ hv
  exact hkeeps s ⟨Or.inl rfl, rfl⟩

private theorem publishers_start (s : RawROS ρ θ κ) (fails : InnerStep → Bool) :
    ((start fails).run.run s).2.publishers = s.publishers ∧
      ((start fails).run.run s).2.qos = s.qos := by
  by_cases hthread : s.spin_thread = none
  · rw [start_run hthread]
    dsimp only
    split_ifs <;> exact ⟨rfl, rfl⟩
  · rw [start_of_some hthread]
    exact ⟨rfl, rfl⟩

end RawROS

namespace RawROS

private theorem publish_cases {s s' : RawROS ρ θ κ} {topic : RawROSTopic ρ θ} {publisher : RosEntity ρ θ}
    (h : s.publish topic = some (publisher, s')) : ∃ n, s.node = some n ∧ s'.qos = s.qos ∧
      ((s.publishers.lookup topic.topic = some publisher ∧ s' = s) ∨
        (s.publishers.lookup topic.topic = none ∧
          s'.publishers = s.publishers ++ [(topic.topic, publisher)] ∧ publisher.node = n ∧
          publisher.topic = topic.topic ∧ publisher.ros_type = topic.ros_type ∧
          publisher.qos = topic.qos.getD s.qos)) := by
  unfold publish getOrCreatePublisher at h
  split at h
  · contradiction
  · next hnode =>
    obtain ⟨n, hn⟩ := Option.ne_none_iff_exists'.mp (by simpa using hnode)
    refine ⟨n, hn, ?_⟩
    cases hlookup : s.publishers.lookup topic.topic with
    | some pub =>
      simp only [hlookup, Option.some.injEq, Prod.mk.injEq] at h
      obtain ⟨rfl, rfl⟩ := h
      exact ⟨rfl, Or.inl ⟨rfl, rfl⟩⟩
    | none =>
      simp only [hlookup, hn, Option.map_some, Option.some.injEq, Prod.mk.injEq] at h
      obtain ⟨rfl, rfl⟩ := h
      exact ⟨rfl, Or.inr ⟨rfl, rfl, rfl, rfl, rfl, rfl⟩⟩

private theorem publish_eq_none_iff {s : RawROS ρ θ κ} {topic : RawROSTopic ρ θ} :
    s.publish topic = none ↔ s.node = none := by
  unfold publish getOrCreatePublisher
  cases s.node with
  | none => simp
  | some n => cases s.publishers.lookup topic.topic <;> simp

private theorem publishers_subscribe (s : RawROS ρ θ κ) (topic : RawROSTopic ρ θ) (callback : κ) :
    (((s.subscribe topic callback).map Prod.snd).getD s).publishers = s.publishers ∧
      (((s.subscribe topic callback).map Prod.snd).getD s).qos = s.qos := by
  unfold subscribe
  cases s.node <;> exact ⟨rfl, rfl⟩

end RawROS

namespace Publishing

/-! ## The map and the recent messages -/

/-- Nothing has been published on a new object. -/
theorem inv_new (qos : θ) : Inv ({ ros := { qos } } : Publishing ρ θ κ) := by
  constructor
  case recent => exact List.Subset.refl _
  case cached => exact fun _ h ↦ by contradiction
  case used => exact fun _ _ h ↦ by contradiction

/-- A call that leaves the publishers alone leaves what is known of them. -/
theorem Inv.congr {s : Publishing ρ θ κ} (h : Inv s) {ros : RawROS ρ θ κ}
    (hsame : ros.publishers = s.ros.publishers) : Inv { s with ros } := by
  constructor
  case recent => exact h.recent
  case cached =>
    change ∀ message ∈ s.recent, ros.publishers.lookup _ = _
    rw [hsame]
    exact h.cached
  case used =>
    change ∀ name publisher, ros.publishers.lookup name = _ → _
    rw [hsame]
    exact h.used

/-- A cleared map goes with no recent messages. -/
theorem Inv.halt {s : Publishing ρ θ κ} (h : Inv s) {ros : RawROS ρ θ κ}
    (hsame : ros.publishers = s.ros.publishers ∨ ros.publishers = []) : Inv (s.halt ros) := by
  by_cases hcleared : ros.publishers = []
  · have hrecent : (s.halt ros).recent = [] := if_pos (List.isEmpty_iff.mpr hcleared)
    constructor
    case recent =>
      rw [hrecent]
      exact List.nil_subset _
    case cached =>
      rw [hrecent]
      exact fun _ hmessage ↦ by contradiction
    case used =>
      intro name publisher hlookup
      change ros.publishers.lookup name = _ at hlookup
      rw [hcleared] at hlookup
      contradiction
  · have hkept : s.halt ros = { s with ros } := by
      rw [Publishing.halt, if_neg (by simpa using hcleared)]
    rw [hkept]
    exact h.congr (hsame.resolve_right hcleared)

/-- After a message the map holds its publisher. -/
theorem Inv.hand {s : Publishing ρ θ κ} (h : Inv s) {topic : RawROSTopic ρ θ}
    {publisher : RosEntity ρ θ} {ros : RawROS ρ θ κ}
    (hs : s.ros.publish topic = some (publisher, ros)) : Inv (s.hand topic publisher ros) := by
  obtain ⟨n, -, -, hcase⟩ := RawROS.publish_cases hs
  have hfound : ros.publishers.lookup topic.topic = some publisher := by
    rcases hcase with ⟨hlookup, rfl⟩ | ⟨hlookup, hadded, -⟩
    · exact hlookup
    · rw [hadded, List.lookup_append, hlookup]
      simp
  have hold : ∀ name other, s.ros.publishers.lookup name = some other →
      ros.publishers.lookup name = some other := by
    intro name other hother
    rcases hcase with ⟨-, rfl⟩ | ⟨-, hadded, -⟩
    · exact hother
    · rw [hadded, List.lookup_append, hother, Option.some_or]
  constructor
  case recent =>
    exact List.append_subset.mpr
      ⟨List.Subset.trans h.recent (List.subset_append_left _ _), List.subset_append_right _ _⟩
  case cached =>
    intro message hmessage
    rcases List.mem_append.mp hmessage with hmessage | hmessage
    · exact hold _ _ (h.cached message hmessage)
    · obtain rfl := List.mem_singleton.mp hmessage
      exact hfound
  case used =>
    intro name other hother
    by_cases hname : name = topic.topic
    · subst hname
      cases hfound.symm.trans hother
      exact ⟨_, List.mem_append_right _ (List.mem_singleton_self _), rfl, rfl⟩
    · have hbefore : s.ros.publishers.lookup name = some other := by
        rcases hcase with ⟨-, rfl⟩ | ⟨-, hadded, -⟩
        · exact hother
        · change ros.publishers.lookup name = _ at hother
          have hnew : [(topic.topic, publisher)].lookup name = none := by simp [hname]
          rwa [hadded, List.lookup_append, hnew, Option.or_none] at hother
      obtain ⟨message, hmessage, heq⟩ := h.used name other hbefore
      exact ⟨message, List.mem_append_left _ hmessage, heq⟩

private theorem matched_hand_iff_last {s : Publishing ρ θ κ} (hm : Matched s)
    {topic : RawROSTopic ρ θ} {publisher : RosEntity ρ θ} {ros : RawROS ρ θ κ}
    (hqos : ros.qos = s.ros.qos) : Matched (s.hand topic publisher ros) ↔
      s.ros.node = some publisher.node ∧ publisher.topic = topic.topic ∧
        publisher.ros_type = topic.ros_type ∧ publisher.qos = s.effectiveQos topic := by
  have heffective : ∀ t, (s.hand topic publisher ros).effectiveQos t = s.effectiveQos t := fun t ↦
    congrArg t.qos.getD hqos
  constructor
  · intro hall
    have hnew := hall ⟨publisher, topic, s.ros.node⟩
      (List.mem_append_right _ (List.mem_singleton_self _))
    rwa [heffective] at hnew
  · intro hnew message hmessage
    rw [heffective]
    rcases List.mem_append.mp hmessage with hmessage | hmessage
    · exact hm message hmessage
    · obtain rfl := List.mem_singleton.mp hmessage
      exact hnew

/-- A message goes through a matching publisher exactly when it agrees with the recent ones. -/
theorem matched_hand_iff {s : Publishing ρ θ κ} (h : Inv s) (hm : Matched s)
    {topic : RawROSTopic ρ θ} {publisher : RosEntity ρ θ} {ros : RawROS ρ θ κ}
    (hs : s.ros.publish topic = some (publisher, ros)) :
    Matched (s.hand topic publisher ros) ↔ Agrees s (.publish topic) := by
  obtain ⟨n, hnode, hqos, hcase⟩ := RawROS.publish_cases hs
  have hagrees : Agrees s (.publish topic) ↔ ∀ message ∈ s.recent,
      message.topic.topic = topic.topic → message.node = some n ∧
        message.topic.ros_type = topic.ros_type ∧
          s.effectiveQos message.topic = s.effectiveQos topic := by
    rw [Agrees, hnode]
    exact forall_prop_of_true (Option.some_ne_none n)
  rw [matched_hand_iff_last hm hqos, hagrees, hnode]
  rcases hcase with ⟨hlookup, -⟩ | ⟨hlookup, -, hn, htopic, htype, hprofile⟩
  · obtain ⟨first, hfirst, hname, heq⟩ := h.used _ _ hlookup
    obtain ⟨hfnode, hftopic, hftype, hfqos⟩ := hm first (h.recent hfirst)
    rw [heq] at hfnode hftopic hftype hfqos
    constructor
    · rintro ⟨hn, -, htype, hprofile⟩ message hmessage hsame
      have hpublisher : message.publisher = publisher := by
        have hcached := h.cached message hmessage
        rw [hsame, hlookup] at hcached
        exact (Option.some.inj hcached).symm
      obtain ⟨hmnode, -, hmtype, hmqos⟩ := hm message (h.recent hmessage)
      rw [hpublisher] at hmnode hmtype hmqos
      exact ⟨hmnode.trans hn.symm, hmtype.symm.trans htype, hmqos.symm.trans hprofile⟩
    · intro hall
      obtain ⟨hn, htype, hprofile⟩ := hall first hfirst hname
      exact ⟨hn.symm.trans hfnode, hftopic.trans hname, hftype.trans htype,
        hfqos.trans hprofile⟩
  · refine iff_of_true ⟨congrArg some hn.symm, htopic, htype, hprofile⟩ ?_
    intro message hmessage hsame
    have hcached := h.cached message hmessage
    rw [hsame, hlookup] at hcached
    contradiction

/-- One call keeps the invariant. -/
theorem inv_step (s : Publishing ρ θ κ) (a : RawROS.Call ρ θ κ) (s' : Publishing ρ θ κ) (h : Inv s)
    (hs : step s a = some s') : Inv s' := by
  cases a with
  | start fails =>
    cases hs
    exact h.congr (RawROS.publishers_start s.ros fails).1
  | stop fails =>
    cases hs
    exact h.halt (RawROS.samePublishers_stop s.ros fails).1
  | publish topic =>
    simp only [step] at hs
    split at hs
    · cases hs
      exact h
    · next hpublish =>
      cases hs
      exact h.hand hpublish
  | subscribe topic callback =>
    cases hs
    exact h.congr (RawROS.publishers_subscribe s.ros topic callback).1

/-- Calls that hand nothing over and keep the default profile keep what is matched. -/
theorem Matched.congr {s s' : Publishing ρ θ κ} (h : Matched s) (hhanded : s'.handed = s.handed)
    (hqos : s'.ros.qos = s.ros.qos) : Matched s' := by
  have heffective : s'.effectiveQos = s.effectiveQos :=
    funext fun topic ↦ congrArg topic.qos.getD hqos
  rw [Matched, hhanded, heffective]
  exact h

/-- One call out of a state in which everything is matched ends in such a state exactly when it is
no publish, or one that agrees with the recent ones. -/
theorem matched_step (s : Publishing ρ θ κ) (a : RawROS.Call ρ θ κ) (s' : Publishing ρ θ κ)
    (h : Inv s) (hm : Matched s) (hs : step s a = some s') : Matched s' ↔ Agrees s a := by
  cases a with
  | start fails =>
    cases hs
    exact iff_of_true (hm.congr rfl (RawROS.publishers_start s.ros fails).2) trivial
  | stop fails =>
    cases hs
    exact iff_of_true (hm.congr rfl (RawROS.samePublishers_stop s.ros fails).2) trivial
  | publish topic =>
    simp only [step] at hs
    split at hs
    · next hnone =>
      cases hs
      exact iff_of_true hm fun hnode ↦ absurd (RawROS.publish_eq_none_iff.mp hnone) hnode
    · next hpublish =>
      cases hs
      exact matched_hand_iff h hm hpublish
  | subscribe topic callback =>
    cases hs
    exact iff_of_true (hm.congr rfl (RawROS.publishers_subscribe s.ros topic callback).2) trivial

/-- Every message goes through a publisher that matches its descriptor exactly when every message
agrees with the earlier ones on its topic. -/
theorem publishers_match_iff (qos : θ) (calls : List (RawROS.Call ρ θ κ)) :
    AllStates step Matched ({ ros := { qos } } : Publishing ρ θ κ) calls ↔
      AllSteps step Agrees ({ ros := { qos } } : Publishing ρ θ κ) calls := by
  have hnew : Matched ({ ros := { qos } } : Publishing ρ θ κ) := fun _ h ↦ by contradiction
  exact allStates_iff_allSteps (inv_new qos) hnew inv_step matched_step calls

/-- A message of a second type goes through the publisher made for the first. -/
theorem second_type_shares_publisher :
    ¬ ∀ calls, AllStates step Matched ({ ros := { qos := () } } : Publishing ℕ Unit Unit)
      calls := by
  intro h
  have hmatched := h [.start fun _ ↦ false, .publish ⟨"chatter", 0, none⟩,
    .publish ⟨"chatter", 1, none⟩] _ _ (List.prefix_refl _) rfl
  have hsecond := hmatched ⟨⟨1, 0, "chatter", 0, ()⟩, ⟨"chatter", 1, none⟩, some 0⟩ (by decide)
  exact absurd hsecond.2.2.1 (by decide)

end Publishing

end HzjDds.PubSub
