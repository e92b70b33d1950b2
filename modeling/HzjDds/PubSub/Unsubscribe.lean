import HzjDds.PubSub.Listener
import HzjDds.Transition.Run
import Mathlib.Logic.Function.Basic

/-!
# Unsubscribing from DDS topics

Library `PubSub`. Source: `ddspubsub.py:63–71,88–152`. One thread calls the methods of a DDS object
and the handles that `subscribe` has returned. A handle knows its topic and its callback, not the
subscription it was made for; the registry beside the object knows them all.
-/

namespace HzjDds.PubSub

open HzjDds.Transition

universe u v w

/-- A `subscribe` call of the current session whose handle has not been called yet. -/
structure Registration (τ : Type w) (κ : Type v) where
  handle : ℕ
  topic : τ
  callback : κ
  deriving DecidableEq, Repr

/-- A DDS object: its reader and listener maps. `handles` are the handles returned so far, each
with what it closes over; `live` is the registry the handles should act on. -/
structure DDS (τ : Type w) (α : Type u) (κ : Type v) where
  readers : τ → Bool := fun _ ↦ false
  listeners : τ → Option (Listener α κ) := fun _ ↦ none
  handles : List (τ × κ) := []
  live : List (Registration τ κ) := []

/-- What the thread does next. `opens` says whether the reader of a new topic can be made; a
`subscribe` that raises registers nothing and returns no handle. -/
inductive DDSAction (τ : Type w) (κ : Type v) where
  | start
  | stop
  | subscribe (topic : τ) (callback : κ) (opens : Bool)
  | unsubscribe (handle : ℕ)
  deriving DecidableEq, Repr

variable {τ : Type w} {α : Type u} {κ : Type v} [DecidableEq τ] [DecidableEq κ]

namespace DDS

omit [DecidableEq κ] in
/-- `_get_listener` (`ddspubsub.py:120–130`): the listener, with the maps after the call. -/
def getListener (s : DDS τ α κ) (topic : τ) (opens : Bool) : Option (Listener α κ × DDS τ α κ) :=
  if s.readers topic then (s.listeners topic).map fun l ↦ (l, s)
  else if opens then some ({}, { s with
    readers := Function.update s.readers topic true
    listeners := Function.update s.listeners topic (some {}) })
  else none

omit [DecidableEq κ] in
/-- `subscribe` (`ddspubsub.py:132–136`). -/
def subscribe (s : DDS τ α κ) (topic : τ) (callback : κ) (opens : Bool) : DDS τ α κ :=
  match s.getListener topic opens with
  | none => s
  | some (l, s) => { s with
      listeners := Function.update s.listeners topic (some (l.addCallback callback))
      handles := s.handles ++ [(topic, callback)]
      live := s.live ++ [⟨s.handles.length, topic, callback⟩] }

/-- `_unsubscribe_callback` (`ddspubsub.py:138–143`). -/
def unsubscribeCallback (s : DDS τ α κ) (topic : τ) (callback : κ) : DDS τ α κ :=
  match s.listeners topic with
  | none => s
  | some l => { s with
      listeners := Function.update s.listeners topic (some (l.removeCallback callback)) }

omit [DecidableEq τ] [DecidableEq κ] in
/-- `stop` (`ddspubsub.py:145–152`). -/
def stop (s : DDS τ α κ) : DDS τ α κ :=
  { s with readers := fun _ ↦ false, listeners := fun _ ↦ none, live := [] }

/-- One call. Starting the service touches no listener (`ddsservice.py:50–57`). -/
def step (s : DDS τ α κ) : DDSAction τ κ → Option (DDS τ α κ)
  | .start => some s
  | .stop => some s.stop
  | .subscribe topic callback opens => some (s.subscribe topic callback opens)
  | .unsubscribe handle => s.handles[handle]?.map fun (topic, callback) ↦
      { s.unsubscribeCallback topic callback with
        live := s.live.filter (·.handle ≠ handle) }

omit [DecidableEq τ] [DecidableEq κ] in
/-- Callbacks registered on a topic's listener. -/
def registered (s : DDS τ α κ) (topic : τ) : List κ :=
  (s.listeners topic).elim [] Listener.callbacks

/-- The registrations of a callback on a topic. -/
def registrations (s : DDS τ α κ) (topic : τ) (callback : κ) : List (Registration τ κ) :=
  s.live.filter fun r ↦ r.topic = topic ∧ r.callback = callback

/-- Listeners and registry agree, with multiplicity. -/
def Exact (s : DDS τ α κ) : Prop :=
  ∀ topic callback, (s.registered topic).count callback = (s.registrations topic callback).length

/-- A handle is called only when no other registration of its callback on its topic is live. -/
def OwnOnly (s : DDS τ α κ) : DDSAction τ κ → Prop
  | .unsubscribe handle => ∀ topic callback, s.handles[handle]? = some (topic, callback) →
      ∀ r ∈ s.registrations topic callback, r.handle = handle
  | _ => True

/-- Maps and registry of a reachable state: a listener for every reader, and a registration for
what its handle closes over. -/
structure Inv (s : DDS τ α κ) : Prop where
  listener : ∀ topic, s.readers topic = (s.listeners topic).isSome
  live : ∀ r ∈ s.live, s.handles[r.handle]? = some (r.topic, r.callback)

omit [DecidableEq τ] [DecidableEq κ] in
/-- A new object. -/
theorem inv_init : Inv ({} : DDS τ α κ) := ⟨fun _ ↦ rfl, fun _ h ↦ by simp at h⟩

omit [DecidableEq κ] in
/-- A listener that could be had is stored, and it holds what its topic had registered. -/
theorem Inv.getListener {s s' : DDS τ α κ} {topic : τ} {opens : Bool} {l : Listener α κ}
    (h : Inv s) (hs : s.getListener topic opens = some (l, s')) :
    l.callbacks = s.registered topic ∧ s'.readers topic = true ∧ s'.handles = s.handles ∧
      s'.live = s.live ∧ ∀ other, other ≠ topic →
        s'.readers other = s.readers other ∧ s'.listeners other = s.listeners other := by
  unfold DDS.getListener at hs
  split at hs
  · next hreader =>
    obtain ⟨k, hk, heq⟩ := Option.map_eq_some_iff.mp hs
    obtain ⟨rfl, rfl⟩ := Prod.mk.inj heq
    refine ⟨?_, hreader, rfl, rfl, fun _ _ ↦ ⟨rfl, rfl⟩⟩
    rw [registered, hk]
    rfl
  · next hreader =>
    split at hs
    · obtain ⟨rfl, rfl⟩ := Prod.mk.inj (Option.some.inj hs)
      have hnone : s.listeners topic = none := by
        have := h.listener topic
        rw [Bool.not_eq_true] at hreader
        rw [hreader] at this
        exact Option.not_isSome_iff_eq_none.mp (by simp [← this])
      refine ⟨?_, Function.update_self .., rfl, rfl, fun other hother ↦ ?_⟩
      · rw [registered, hnone]
        rfl
      · exact ⟨Function.update_of_ne hother .., Function.update_of_ne hother ..⟩
    · contradiction

omit [DecidableEq κ] in
private theorem Inv.subscribe_cases {s : DDS τ α κ} (h : Inv s) (topic : τ) (callback : κ)
    (opens : Bool) : s.subscribe topic callback opens = s ∨
    ∃ l : Listener α κ, l.callbacks = s.registered topic ++ [callback] ∧
      s.subscribe topic callback opens =
        { readers := Function.update s.readers topic true
          listeners := Function.update s.listeners topic (some l)
          handles := s.handles ++ [(topic, callback)]
          live := s.live ++ [⟨s.handles.length, topic, callback⟩] } := by
  unfold DDS.subscribe
  split
  · exact Or.inl rfl
  · next l s' hs =>
    obtain ⟨hl, hreader, hhandles, hlive, hothers⟩ := h.getListener hs
    refine Or.inr ⟨l.addCallback callback, by rw [← hl]; rfl, ?_⟩
    rw [hhandles, hlive]
    congr 1
    · funext other
      by_cases hother : other = topic
      · rw [hother, Function.update_self, hreader]
      · rw [Function.update_of_ne hother, (hothers other hother).1]
    · funext other
      by_cases hother : other = topic
      · rw [hother, Function.update_self, Function.update_self]
      · rw [Function.update_of_ne hother, Function.update_of_ne hother, (hothers other hother).2]

private theorem unsubscribeCallback_handles (s : DDS τ α κ) (topic : τ) (callback : κ) :
    (s.unsubscribeCallback topic callback).handles = s.handles := by
  unfold unsubscribeCallback
  split <;> rfl

/-- A handle takes every occurrence of its callback from its topic's listener. -/
theorem registered_unsubscribeCallback (s : DDS τ α κ) (topic : τ) (callback : κ) (other : τ) :
    (s.unsubscribeCallback topic callback).registered other =
      if other = topic then (s.registered topic).filter (· ≠ callback) else s.registered other := by
  unfold unsubscribeCallback
  split
  · next hl =>
    split
    · next heq =>
      rw [heq, registered, hl]
      rfl
    · rfl
  · next l hl =>
    simp only [registered]
    split
    · next heq =>
      rw [heq, Function.update_self, hl]
      rfl
    · next hne => rw [Function.update_of_ne hne]

/-- Calling a handle keeps a listener for every reader. -/
theorem Inv.unsubscribeCallback {s : DDS τ α κ} (h : Inv s) (topic : τ) (callback : κ) :
    Inv (s.unsubscribeCallback topic callback) := by
  unfold DDS.unsubscribeCallback
  split
  · exact h
  · next l hl =>
    constructor
    case listener =>
      intro other
      by_cases hother : other = topic
      · simp [hother, h.listener topic, hl]
      · simp [Function.update_of_ne hother, h.listener other]
    case live => exact h.live

/-- Maps and registry stay in order. -/
theorem inv_step (s : DDS τ α κ) (a : DDSAction τ κ) (s' : DDS τ α κ) (h : Inv s)
    (hs : step s a = some s') : Inv s' := by
  cases a with
  | start =>
    cases hs
    exact h
  | stop =>
    cases hs
    exact ⟨fun _ ↦ rfl, fun _ hr ↦ by simp [stop] at hr⟩
  | subscribe topic callback opens =>
    obtain rfl := Option.some.inj hs
    rcases h.subscribe_cases topic callback opens with heq | ⟨l, -, heq⟩
    · rw [heq]
      exact h
    · rw [heq]
      constructor
      case listener =>
        intro other
        by_cases hother : other = topic
        · simp [hother]
        · simp [Function.update_of_ne hother, h.listener other]
      case live =>
        intro r hr
        rcases List.mem_append.mp hr with hr | hr
        · have hget := h.live r hr
          rw [List.getElem?_append_left (List.getElem?_eq_some_iff.mp hget).1, hget]
        · obtain rfl := List.mem_singleton.mp hr
          simp
  | unsubscribe handle =>
    obtain ⟨⟨topic, callback⟩, hget, rfl⟩ := Option.map_eq_some_iff.mp hs
    have h' := h.unsubscribeCallback topic callback
    exact ⟨h'.listener, fun r hr ↦ by
      rw [unsubscribeCallback_handles]
      exact h.live r (List.mem_of_mem_filter hr)⟩

/-- A `subscribe` call keeps listeners and registry in agreement. -/
theorem Exact.subscribe {s : DDS τ α κ} (hinv : Inv s) (h : Exact s) (topic : τ) (callback : κ)
    (opens : Bool) : Exact (s.subscribe topic callback opens) := by
  rcases hinv.subscribe_cases topic callback opens with heq | ⟨l, hl, heq⟩
  · rwa [heq]
  · rw [heq]
    intro other k
    simp only [registered, registrations, List.filter_append, List.length_append]
    by_cases hother : other = topic
    · subst hother
      have hcount : (s.registered other).count k = (s.registrations other k).length := h other k
      rw [Function.update_self, Option.elim_some, hl, List.count_append, hcount]
      by_cases hk : callback = k
      · simp [registrations, hk]
      · simp [registrations, hk]
    · rw [Function.update_of_ne hother]
      simpa [registered, registrations, Ne.symm hother] using h other k

/-- The registry loses the registrations of a handle, which are of its topic and callback. -/
theorem registrations_unsubscribe {s : DDS τ α κ} (hinv : Inv s) {handle : ℕ} {topic : τ}
    {callback : κ} (hget : s.handles[handle]? = some (topic, callback))
    (hown : ∀ r ∈ s.registrations topic callback, r.handle = handle) (other : τ) (k : κ) :
    registrations { s.unsubscribeCallback topic callback with
        live := s.live.filter (·.handle ≠ handle) } other k =
      if other = topic ∧ k = callback then [] else s.registrations other k := by
  unfold registrations
  rw [List.filter_filter]
  split
  · next heq =>
    obtain ⟨rfl, rfl⟩ := heq
    apply List.filter_eq_nil_iff.mpr
    intro r hr hmatch
    simp only [ne_eq, decide_not, Bool.and_eq_true, decide_eq_true_eq,
      Bool.not_eq_true', decide_eq_false_iff_not] at hmatch
    exact hmatch.2 (hown r (List.mem_filter.mpr ⟨hr, by simpa using hmatch.1⟩))
  · next hne =>
    apply List.filter_congr
    intro r hr
    have hlive := hinv.live r hr
    by_cases hhandle : r.handle = handle
    · rw [hhandle, hget] at hlive
      obtain ⟨rfl, rfl⟩ := Prod.mk.inj (Option.some.inj hlive)
      have hboth : ¬ (r.topic = other ∧ r.callback = k) := fun hboth ↦
        hne ⟨hboth.1.symm, hboth.2.symm⟩
      simp [hboth]
    · simp [hhandle]

/-- Calling a handle keeps the agreement exactly when no other registration of its callback on
its topic is live. -/
theorem exact_unsubscribe_iff {s : DDS τ α κ} (hinv : Inv s) (h : Exact s) {handle : ℕ}
    {topic : τ} {callback : κ} (hget : s.handles[handle]? = some (topic, callback)) :
    Exact { s.unsubscribeCallback topic callback with
        live := s.live.filter (·.handle ≠ handle) } ↔
      ∀ r ∈ s.registrations topic callback, r.handle = handle := by
  have hregistered : ∀ other, registered { s.unsubscribeCallback topic callback with
      live := s.live.filter (·.handle ≠ handle) } other =
      if other = topic then (s.registered topic).filter (· ≠ callback) else s.registered other :=
    fun other ↦ registered_unsubscribeCallback s topic callback other
  constructor
  · intro hexact r hr
    have hzero := hexact topic callback
    rw [hregistered, if_pos rfl, List.count_eq_zero.mpr (by simp)] at hzero
    obtain ⟨hmem, heq⟩ := List.mem_filter.mp hr
    by_contra hne
    have hmem' : r ∈ registrations { s.unsubscribeCallback topic callback with
        live := s.live.filter (·.handle ≠ handle) } topic callback :=
      List.mem_filter.mpr ⟨List.mem_filter.mpr ⟨hmem, by simpa using hne⟩, heq⟩
    rw [List.eq_nil_of_length_eq_zero hzero.symm] at hmem'
    contradiction
  · intro hown other k
    rw [hregistered]
    have hlive := registrations_unsubscribe hinv hget hown other k
    rw [hlive]
    by_cases hother : other = topic
    · subst hother
      by_cases hk : k = callback
      · rw [if_pos rfl, if_pos ⟨rfl, hk⟩, hk, List.count_eq_zero.mpr (by simp)]
        rfl
      · rw [if_pos rfl, if_neg (fun hboth ↦ hk hboth.2), List.count_filter (by simpa using hk)]
        exact h other k
    · rw [if_neg hother, if_neg (fun hboth ↦ hother hboth.1)]
      exact h other k

/-- One call keeps listeners and registry in agreement exactly when it is no handle that shares
its callback and its topic with another live registration. -/
theorem exact_step (s : DDS τ α κ) (a : DDSAction τ κ) (s' : DDS τ α κ) (hinv : Inv s)
    (h : Exact s) (hs : step s a = some s') : Exact s' ↔ OwnOnly s a := by
  cases a with
  | start =>
    cases hs
    exact iff_of_true h trivial
  | stop =>
    cases hs
    exact iff_of_true (fun _ _ ↦ rfl) trivial
  | subscribe topic callback opens =>
    cases hs
    exact iff_of_true (h.subscribe hinv topic callback opens) trivial
  | unsubscribe handle =>
    obtain ⟨⟨topic, callback⟩, hget, rfl⟩ := Option.map_eq_some_iff.mp hs
    rw [exact_unsubscribe_iff hinv h hget]
    constructor
    · intro hown topic' callback' hget'
      obtain ⟨rfl, rfl⟩ := Prod.mk.inj (Option.some.inj (hget.symm.trans hget'))
      exact hown
    · exact fun hown ↦ hown topic callback hget

/-- The callbacks registered are those of the live subscriptions, with multiplicity, in every
state exactly when no handle is called that shares its callback and its topic with another live
subscription. -/
theorem unsubscribe_exact_iff (actions : List (DDSAction τ κ)) :
    AllStates step Exact ({} : DDS τ α κ) actions ↔
      AllSteps step OwnOnly ({} : DDS τ α κ) actions :=
  have hexact : Exact ({} : DDS τ α κ) := fun _ _ ↦ rfl
  allStates_iff_allSteps inv_init hexact inv_step exact_step actions

/-- A callback subscribed twice loses both subscriptions to the first handle. -/
theorem unsubscribe_removes_other_subscription :
    ¬ ∀ actions, AllStates step Exact ({} : DDS ℕ Unit ℕ) actions := by
  intro h
  have hbad := h [.subscribe 0 7 true, .subscribe 0 7 true, .unsubscribe 0] _ _
    (List.prefix_refl _) rfl 0 7
  exact absurd hbad (by decide)

end DDS

end HzjDds.PubSub
