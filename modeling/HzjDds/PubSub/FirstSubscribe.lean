import HzjDds.PubSub.Listener
import HzjDds.Transition.Run

/-!
# First subscription to a DDS topic

Library `PubSub`. Source: `ddspubsub.py:120–136`. One thread executes the statements of a
first `subscribe`; the reader is live from its construction, so samples arrive and the
listener thread runs `on_data_available` at any point after it. Nobody unsubscribes.
-/

namespace HzjDds.PubSub

open HzjDds.Transition

universe u v

/-- Next statement of `_get_listener` and `subscribe` (`ddspubsub.py:124–135`). -/
inductive SubscribePc where
  | createListener
  | createReader
  | storeReader
  | storeListener
  | addCallback
  | finished
  deriving DecidableEq, Repr

/-- A first subscription in progress. `queue` holds the samples waiting in the reader, once
there is one; `taken` records every sample the listener took from it. -/
structure FirstSubscribe (α : Type u) (κ : Type v) where
  pc : SubscribePc := .createListener
  listener : Listener α κ := {}
  queue : Option (List (Option α)) := none
  readerStored : Bool := false
  listenerStored : Bool := false
  taken : List (Option α) := []
  deriving DecidableEq, Repr

/-- What can happen next: a statement of the subscribing thread, a sample arriving at the
reader, a run of `on_data_available` whose `take` gets up to `count` samples or raises, and a
step of the run in progress, whose callback may raise an `Exception`. -/
inductive SubscribeAction (α : Type u) where
  | subscribe
  | arrive (sample : Option α)
  | onDataAvailable (count : Option ℕ)
  | dispatch (raises : Bool)
  deriving DecidableEq, Repr

variable {α : Type u} {κ : Type v}

namespace FirstSubscribe

/-- Next statement of the subscribing thread. -/
def subscribe (callback : κ) (s : FirstSubscribe α κ) : Option (FirstSubscribe α κ) :=
  match s.pc with
  | .createListener => some { s with listener := {}, pc := .createReader }
  | .createReader => some { s with queue := some [], pc := .storeReader }
  | .storeReader => some { s with readerStored := true, pc := .storeListener }
  | .storeListener => some { s with listenerStored := true, pc := .addCallback }
  | .addCallback => some { s with listener := s.listener.addCallback callback, pc := .finished }
  | .finished => none

/-- `on_data_available` begins: the samples it takes leave the reader. -/
def onDataAvailable (s : FirstSubscribe α κ) (count : Option ℕ) : Option (FirstSubscribe α κ) :=
  match s.queue, count with
  | none, _ => none
  | some _, none => (s.listener.onDataAvailable none).map fun l ↦ { s with listener := l }
  | some queue, some n => (s.listener.onDataAvailable (some (queue.take n))).map fun l ↦
      { s with listener := l, queue := some (queue.drop n), taken := s.taken ++ queue.take n }

/-- One step of one of the threads, or an arrival. -/
def step (callback : κ) (s : FirstSubscribe α κ) :
    SubscribeAction α → Option (FirstSubscribe α κ)
  | .subscribe => s.subscribe callback
  | .arrive sample => s.queue.map fun queue ↦ { s with queue := some (queue ++ [sample]) }
  | .onDataAvailable count => s.onDataAvailable count
  | .dispatch raises => (s.listener.advance (if raises then .exception else .returned)).map fun l ↦
      { s with listener := l }

variable [DecidableEq κ]

/-- Nothing is lost so far: what the callback was called with, and what the run in progress
still owes it, are the non-None samples taken from the reader. -/
def NoneLost (callback : κ) (s : FirstSubscribe α κ) : Prop :=
  s.listener.deliveredTo callback ++ s.listener.dispatch.owed callback = s.taken.reduceOption

instance [DecidableEq α] (callback : κ) (s : FirstSubscribe α κ) :
    Decidable (NoneLost callback s) := inferInstanceAs (Decidable (_ = _))

/-- The listener thread does not look up the callbacks for a sample before the subscribing
thread has executed `add_callback`. -/
def CallbackFirst (s : FirstSubscribe α κ) : SubscribeAction α → Prop
  | .dispatch _ => ∀ sample rest, s.listener.dispatch = .samples (some sample :: rest) →
      s.pc = .finished
  | _ => True

/-- What every interleaving keeps: the tuple holds the callback once the call has finished,
and nothing has happened to the listener before the reader exists. -/
structure Inv (callback : κ) (s : FirstSubscribe α κ) : Prop where
  callbacks : s.listener.callbacks = if s.pc = .finished then [callback] else []
  reader : s.queue = none ↔ s.pc = .createListener ∨ s.pc = .createReader
  unread : s.queue = none → s.listener = {} ∧ s.taken = []

omit [DecidableEq κ] in
/-- A subscription that has not begun. -/
theorem inv_init (callback : κ) : Inv callback ({} : FirstSubscribe α κ) :=
  ⟨rfl, ⟨fun _ ↦ Or.inl rfl, fun _ ↦ rfl⟩, fun _ ↦ ⟨rfl, rfl⟩⟩

omit [DecidableEq κ] in
/-- Once there is a reader, its listener may run. -/
theorem Inv.withListener {callback : κ} {s t : FirstSubscribe α κ} (h : Inv callback s)
    (hreader : s.queue ≠ none) (hpc : t.pc = s.pc) (hqueue : t.queue ≠ none)
    (hl : t.listener.callbacks = s.listener.callbacks) : Inv callback t := by
  constructor
  case callbacks =>
    rw [hl, hpc]
    exact h.callbacks
  case reader =>
    apply iff_of_false hqueue
    rw [hpc]
    exact fun hpc ↦ hreader (h.reader.mpr hpc)
  case unread => exact fun hnone ↦ absurd hnone hqueue

omit [DecidableEq κ] in
/-- The subscribing thread adds the callback last. -/
theorem Inv.subscribe {callback : κ} {s s' : FirstSubscribe α κ} (h : Inv callback s)
    (hs : s.subscribe callback = some s') : Inv callback s' := by
  obtain ⟨hcallbacks, hreader, hunread⟩ := h
  unfold FirstSubscribe.subscribe at hs
  split at hs
  · next hpc =>
    cases hs
    have hq : s.queue = none := hreader.mpr (Or.inl hpc)
    exact ⟨rfl, iff_of_true hq (Or.inr rfl), fun hq ↦ ⟨rfl, (hunread hq).2⟩⟩
  · next hpc =>
    cases hs
    rw [hpc] at hcallbacks
    exact ⟨hcallbacks, by simp, fun hq ↦ by contradiction⟩
  · next hpc =>
    cases hs
    rw [hpc] at hcallbacks hreader
    exact ⟨hcallbacks, by simpa using hreader, hunread⟩
  · next hpc =>
    cases hs
    rw [hpc] at hcallbacks hreader
    exact ⟨hcallbacks, by simpa using hreader, hunread⟩
  · next hpc =>
    cases hs
    rw [hpc] at hcallbacks hreader
    have hq : s.queue ≠ none := by simpa using hreader
    exact ⟨by simp [Listener.addCallback, hcallbacks], by simpa using hreader,
      fun hnone ↦ absurd hnone hq⟩
  · contradiction

omit [DecidableEq κ] in
private theorem Inv.reader_of_advance {callback : κ} {s : FirstSubscribe α κ} (h : Inv callback s)
    {l : Listener α κ} {ending : CallbackEnd} (hl : s.listener.advance ending = some l) :
    s.queue ≠ none := by
  intro hq
  rw [(h.unread hq).1] at hl
  contradiction

/-- Beginning a run of `on_data_available` adds the samples taken to what is owed. -/
theorem Inv.onDataAvailable {callback : κ} {s s' : FirstSubscribe α κ} (h : Inv callback s)
    {count : Option ℕ} (hs : s.onDataAvailable count = some s') :
    Inv callback s' ∧ (NoneLost callback s → NoneLost callback s') := by
  unfold FirstSubscribe.onDataAvailable at hs
  split at hs
  · contradiction
  · next queue hq =>
    obtain ⟨l, hl, rfl⟩ := Option.map_eq_some_iff.mp hs
    obtain ⟨hcallbacks, howed⟩ := Listener.owed_onDataAvailable hl callback
    constructor
    · exact h.withListener (by simp [hq]) rfl (by simp [hq]) hcallbacks
    · intro hlost
      exact howed.trans ((List.append_nil _).trans hlost)
  · next queue n hq =>
    obtain ⟨l, hl, rfl⟩ := Option.map_eq_some_iff.mp hs
    obtain ⟨hcallbacks, howed⟩ := Listener.owed_onDataAvailable hl callback
    constructor
    · exact h.withListener (by simp [hq]) rfl (by simp) hcallbacks
    · intro hlost
      change _ = (s.taken ++ queue.take n).reduceOption
      rw [List.reduceOption_append, ← hlost]
      exact howed

/-- Every step keeps the invariant. -/
theorem inv_step (callback : κ) (s : FirstSubscribe α κ) (a : SubscribeAction α)
    (s' : FirstSubscribe α κ) (h : Inv callback s) (hs : step callback s a = some s') :
    Inv callback s' := by
  cases a with
  | subscribe => exact h.subscribe hs
  | arrive sample =>
    obtain ⟨queue, hq, rfl⟩ := Option.map_eq_some_iff.mp hs
    exact h.withListener (by simp [hq]) rfl (by simp) rfl
  | onDataAvailable count => exact (h.onDataAvailable hs).1
  | dispatch raises =>
    obtain ⟨l, hl, rfl⟩ := Option.map_eq_some_iff.mp hs
    have hreader := h.reader_of_advance hl
    exact h.withListener hreader rfl hreader (Listener.callbacks_advance hl)

/-- A step of the listener's run loses a sample exactly when it looks the callbacks up for
one before the callback is among them. -/
theorem noneLost_dispatch {callback : κ} {s : FirstSubscribe α κ} (h : Inv callback s)
    (hlost : NoneLost callback s) {l : Listener α κ} {raises : Bool}
    (hl : s.listener.advance (if raises then .exception else .returned) = some l) :
    NoneLost callback { s with listener := l } ↔ CallbackFirst s (.dispatch raises) := by
  by_cases hfirst : CallbackFirst s (.dispatch raises)
  · have honce : ∀ sample rest, s.listener.dispatch = .samples (some sample :: rest) →
        s.listener.callbacks.count callback = 1 := by
      intro sample rest hd
      rw [h.callbacks, if_pos (hfirst sample rest hd)]
      exact List.count_singleton_self
    have hending : (if raises then CallbackEnd.exception else .returned) ≠ .baseException := by
      cases raises <;> exact CallbackEnd.noConfusion
    exact iff_of_true ((Listener.deliveredTo_append_owed hl hending callback honce).trans hlost)
      hfirst
  · apply iff_of_false _ hfirst
    intro hafter
    simp only [CallbackFirst, not_forall] at hfirst
    obtain ⟨sample, rest, hd, hpc⟩ := hfirst
    have hempty : s.listener.callbacks = [] := by rw [h.callbacks, if_neg hpc]
    simp only [Listener.advance, hd, hempty, Option.some.injEq] at hl
    subst hl
    -- the sample is owed before the step and not after it
    have hbefore : s.listener.deliveredTo callback ++ sample :: rest.reduceOption =
        s.taken.reduceOption := by
      have := hlost
      rwa [NoneLost, hd, Dispatch.owed, List.reduceOption_cons_of_some] at this
    have hgone : s.listener.deliveredTo callback ++ rest.reduceOption =
        s.taken.reduceOption := hafter
    have hlength := congrArg List.length (hbefore.trans hgone.symm)
    simp at hlength

/-- One step loses no sample exactly when it does not look up callbacks too early. -/
theorem noneLost_step (callback : κ) (s : FirstSubscribe α κ) (a : SubscribeAction α)
    (s' : FirstSubscribe α κ) (h : Inv callback s) (hlost : NoneLost callback s)
    (hs : step callback s a = some s') : NoneLost callback s' ↔ CallbackFirst s a := by
  cases a with
  | subscribe =>
    apply iff_of_true _ trivial
    simp only [step, FirstSubscribe.subscribe] at hs
    split at hs
    · next hpc =>
      cases hs
      rw [NoneLost, (h.unread (h.reader.mpr (Or.inl hpc))).2]
      rfl
    all_goals cases hs
    all_goals exact hlost
  | arrive sample =>
    obtain ⟨queue, hq, rfl⟩ := Option.map_eq_some_iff.mp hs
    exact iff_of_true hlost trivial
  | onDataAvailable count => exact iff_of_true ((h.onDataAvailable hs).2 hlost) trivial
  | dispatch raises =>
    obtain ⟨l, hl, rfl⟩ := Option.map_eq_some_iff.mp hs
    exact noneLost_dispatch h hlost hl

/-- A first subscription loses no sample exactly when the listener thread never looks up the
callbacks for a sample before `add_callback` has been executed. -/
theorem firstSubscribe_noneLost_iff (callback : κ) (actions : List (SubscribeAction α)) :
    AllStates (step callback) (NoneLost callback) {} actions ↔
      AllSteps (step callback) CallbackFirst ({} : FirstSubscribe α κ) actions :=
  have hlost : NoneLost callback ({} : FirstSubscribe α κ) := rfl
  allStates_iff_allSteps (inv_init callback) hlost (inv_step callback) (noneLost_step callback)
    actions

/-- The reader is live before the callback is registered: a sample that arrives in between is
taken, and dropped because the tuple is still empty. -/
theorem firstSubscribe_loses_early_sample :
    ¬ ∀ actions, AllStates (step 0) (NoneLost 0) ({} : FirstSubscribe ℕ ℕ) actions := by
  intro h
  have hbad := h [.subscribe, .subscribe, .arrive (some 7), .onDataAvailable (some 1),
    .dispatch false] _ _ (List.prefix_refl _) rfl
  exact absurd hbad (by decide)

end FirstSubscribe

end HzjDds.PubSub
