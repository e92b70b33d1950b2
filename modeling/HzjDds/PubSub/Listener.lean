import Mathlib.Data.List.ReduceOption

/-!
# Message listener of a DDS reader

Library `PubSub`. Source: `ddspubsub.py:52–86`. The listener keeps its callbacks in a tuple
that it replaces as a whole; `on_data_available` takes samples from the reader and hands
each of them to the callbacks the tuple holds when it reaches that sample.
-/

namespace HzjDds.PubSub

universe u v

/-- Where a run of `on_data_available` stands: outside, before the next sample, or handing
one sample to the callbacks of the tuple it has read (`ddspubsub.py:79–86`). -/
inductive Dispatch (α : Type u) (κ : Type v) where
  | idle
  | samples (rest : List (Option α))
  | callbacks (sample : α) (snapshot : List κ) (rest : List (Option α))
  deriving DecidableEq, Repr

/-- How a callback invocation ends: it returns, it raises an `Exception`, or it raises something
that is none, such as `SystemExit`. -/
inductive CallbackEnd where
  | returned
  | exception
  | baseException
  deriving DecidableEq, Repr

/-- `_DDSMessageListener`: its callbacks and its run of `on_data_available`. `dispatched`
records every callback invocation in order, `errors` those whose exception was logged. -/
structure Listener (α : Type u) (κ : Type v) where
  callbacks : List κ := []
  dispatch : Dispatch α κ := .idle
  dispatched : List (κ × α) := []
  errors : List (κ × α) := []
  deriving DecidableEq, Repr

variable {α : Type u} {κ : Type v}

/-- Samples that a run of `on_data_available` still owes a callback: the current one for each
time it stands in the rest of the tuple read, and every later one. -/
def Dispatch.owed [DecidableEq κ] (callback : κ) : Dispatch α κ → List α
  | .idle => []
  | .samples rest => rest.reduceOption
  | .callbacks sample snapshot rest =>
    List.replicate (snapshot.count callback) sample ++ rest.reduceOption

/-- The rest of the tuple read does not hold the callback. -/
def Dispatch.NotNext (callback : κ) : Dispatch α κ → Prop
  | .callbacks _ snapshot _ => callback ∉ snapshot
  | _ => True

namespace Listener

/-- `add_callback` (`ddspubsub.py:63–66`). -/
def addCallback (l : Listener α κ) (callback : κ) : Listener α κ :=
  { l with callbacks := l.callbacks ++ [callback] }

/-- `remove_callback` (`ddspubsub.py:68–71`): every occurrence of the callback goes. -/
def removeCallback [DecidableEq κ] (l : Listener α κ) (callback : κ) : Listener α κ :=
  { l with callbacks := l.callbacks.filter (· ≠ callback) }

/-- Entry of `on_data_available`: `reader.take()` hands over samples or raises (`none`), and
then the call is over. The listener thread makes one call at a time. -/
def onDataAvailable (l : Listener α κ) (taken : Option (List (Option α))) :
    Option (Listener α κ) :=
  match l.dispatch with
  | .idle => some { l with dispatch := taken.elim .idle .samples }
  | _ => none

/-- Next step of a running `on_data_available`; `ending` is how a callback ends. An `Exception` is
logged and goes no further; anything else leaves `on_data_available` and ends the run. -/
def advance (l : Listener α κ) (ending : CallbackEnd) : Option (Listener α κ) :=
  match l.dispatch with
  | .idle => none
  | .samples [] => some { l with dispatch := .idle }
  | .samples (none :: rest) => some { l with dispatch := .samples rest }
  | .samples (some sample :: rest) =>
    some { l with dispatch := .callbacks sample l.callbacks rest }
  | .callbacks _ [] rest => some { l with dispatch := .samples rest }
  | .callbacks sample (callback :: snapshot) rest =>
    some { l with
      dispatch := if ending = .baseException then .idle else .callbacks sample snapshot rest
      dispatched := l.dispatched ++ [(callback, sample)]
      errors := if ending = .exception then l.errors ++ [(callback, sample)] else l.errors }

variable [DecidableEq κ]

/-- Samples a callback has been called with, in order. -/
def deliveredTo (l : Listener α κ) (callback : κ) : List α :=
  (l.dispatched.filter (·.1 = callback)).map Prod.snd

omit [DecidableEq κ] in
/-- A run of `on_data_available` leaves the tuple alone. -/
theorem callbacks_advance {l l' : Listener α κ} {ending : CallbackEnd}
    (h : l.advance ending = some l') : l'.callbacks = l.callbacks := by
  simp only [advance] at h
  split at h <;> cases h <;> rfl

/-- A run that begins owes the samples it has taken. -/
theorem owed_onDataAvailable {l l' : Listener α κ} {taken : Option (List (Option α))}
    (h : l.onDataAvailable taken = some l') (callback : κ) :
    l'.callbacks = l.callbacks ∧
      l'.deliveredTo callback ++ l'.dispatch.owed callback =
        l.deliveredTo callback ++ l.dispatch.owed callback ++ (taken.getD []).reduceOption := by
  simp only [onDataAvailable] at h
  split at h
  · next hd =>
    cases h
    cases taken <;> simp [hd, Dispatch.owed, deliveredTo]
  · contradiction

/-- A step of `on_data_available` that nothing leaves moves what is owed to a callback over to what
it was called with, in order; only reading the tuple can change the sum, and a tuple that holds the
callback once does not. -/
theorem deliveredTo_append_owed {l l' : Listener α κ} {ending : CallbackEnd}
    (h : l.advance ending = some l') (hending : ending ≠ .baseException) (callback : κ)
    (honce : ∀ sample rest, l.dispatch = .samples (some sample :: rest) →
      l.callbacks.count callback = 1) :
    l'.deliveredTo callback ++ l'.dispatch.owed callback =
      l.deliveredTo callback ++ l.dispatch.owed callback := by
  simp only [advance] at h
  split at h
  · contradiction
  · next hd =>
    cases h
    rw [hd]
    rfl
  · next rest hd =>
    cases h
    rw [hd]
    rfl
  · next sample rest hd =>
    cases h
    simp only [hd, Dispatch.owed, honce sample rest hd, List.reduceOption_cons_of_some]
    rfl
  · next sample rest hd =>
    cases h
    rw [hd]
    rfl
  · next sample head snapshot rest hd =>
    cases h
    simp only [hd, Dispatch.owed, deliveredTo, List.filter_append, List.map_append, if_neg hending]
    by_cases hhead : head = callback
    · simp [hhead, List.count_cons_self, List.replicate_succ]
    · simp [hhead, List.count_cons_of_ne hhead]

/-- A step of `on_data_available` gives nothing to a callback that is neither in the tuple nor in
the rest of the one read. -/
theorem deliveredTo_of_count_eq_zero {l l' : Listener α κ} {ending : CallbackEnd} {callback : κ}
    (hnone : l.callbacks.count callback = 0) (hnext : l.dispatch.NotNext callback)
    (h : l.advance ending = some l') :
    l'.dispatch.NotNext callback ∧ l'.deliveredTo callback = l.deliveredTo callback := by
  simp only [advance] at h
  split at h
  · contradiction
  · cases h
    exact ⟨trivial, rfl⟩
  · cases h
    exact ⟨trivial, rfl⟩
  · cases h
    exact ⟨List.count_eq_zero.mp hnone, rfl⟩
  · cases h
    exact ⟨trivial, rfl⟩
  · next sample head snapshot rest hd =>
    cases h
    simp only [hd, Dispatch.NotNext, List.mem_cons, not_or] at hnext
    constructor
    · simp only
      split
      · trivial
      · exact hnext.2
    simp [deliveredTo, List.filter_append, Ne.symm hnext.1]

end Listener

end HzjDds.PubSub
