import HzjDds.PubSub.Listener
import HzjDds.Transition.Run
import Mathlib.Logic.Function.Basic

/-!
# Dispatch of a batch while callbacks come and go

Library `PubSub`. Source: `ddspubsub.py:52–86`. Threads edit the tuple of a listener statement by
statement, under its lock, while the listener thread hands a batch of samples to the callbacks
without the lock. A callback of the batch may itself add or remove callbacks.
-/

namespace HzjDds.PubSub

open HzjDds.Transition

universe u v w

/-- A call of `add_callback` or `remove_callback`. -/
inductive Edit (κ : Type v) where
  | add (callback : κ)
  | remove (callback : κ)
  deriving DecidableEq, Repr

/-- Next statement of an edit: take the lock, read the tuple, store the new one, give the lock
back (`ddspubsub.py:63–71`). -/
inductive EditPc (κ : Type v) where
  | acquire
  | read
  | store (callbacks : List κ)
  | release
  deriving DecidableEq, Repr

/-- A listener, its lock's owner and the edits in progress, one at most for each thread. -/
structure SharedListener (τ : Type w) (α : Type u) (κ : Type v) where
  listener : Listener α κ := {}
  lock : Option τ := none
  edits : τ → Option (Edit κ × EditPc κ) := fun _ ↦ none

/-- What can happen next: a thread begins an edit or executes the next statement of its edit,
the listener thread begins a run of `on_data_available` or takes its next step. -/
inductive DispatchAction (τ : Type w) (α : Type u) (κ : Type v) where
  | edit (t : τ) (e : Edit κ)
  | advance (t : τ)
  | onDataAvailable (taken : Option (List (Option α)))
  | dispatch (ending : CallbackEnd)
  deriving DecidableEq, Repr

variable {τ : Type w} {α : Type u} {κ : Type v} [DecidableEq κ]

/-- The callback an edit is about. -/
def Edit.callback : Edit κ → κ
  | add callback => callback
  | remove callback => callback

/-- The tuple an edit makes of the one it has read. -/
def Edit.apply : Edit κ → List κ → List κ
  | add callback, callbacks => callbacks ++ [callback]
  | remove callback, callbacks => callbacks.filter (· ≠ callback)

private theorem Edit.count_apply {e : Edit κ} {callback : κ} (h : e.callback ≠ callback)
    (callbacks : List κ) : (e.apply callbacks).count callback = callbacks.count callback := by
  cases e with
  | add other => simp [apply, List.count_append, show other ≠ callback from h]
  | remove other =>
    rw [apply, List.count_filter]
    simpa using Ne.symm (show other ≠ callback from h)

namespace SharedListener

variable [DecidableEq τ]

/-- Move a thread's edit. -/
def goto (s : SharedListener τ α κ) (t : τ) (edit : Option (Edit κ × EditPc κ)) :
    SharedListener τ α κ :=
  { s with edits := Function.update s.edits t edit }

/-- Next statement of a thread's edit. -/
def advance (s : SharedListener τ α κ) (t : τ) (e : Edit κ) :
    EditPc κ → Option (SharedListener τ α κ)
  | .acquire =>
    match s.lock with
    | none => some ({ s with lock := some t }.goto t (some (e, .read)))
    | some _ => none
  | .read => some (s.goto t (some (e, .store (e.apply s.listener.callbacks))))
  | .store callbacks =>
    some ({ s with listener := { s.listener with callbacks } }.goto t (some (e, .release)))
  | .release => some ({ s with lock := none }.goto t none)

/-- One step of one thread. -/
def step (s : SharedListener τ α κ) : DispatchAction τ α κ → Option (SharedListener τ α κ)
  | .edit t e => if s.edits t = none then some (s.goto t (some (e, .acquire))) else none
  | .advance t => (s.edits t).bind fun edit ↦ s.advance t edit.1 edit.2
  | .onDataAvailable taken => (s.listener.onDataAvailable taken).map fun l ↦
      { s with listener := l }
  | .dispatch ending => (s.listener.advance ending).map fun l ↦ { s with listener := l }

/-- The lock orders the edits: one that is past `acquire` holds it, and the tuple it is about to
store is made from the current one. -/
structure Inv (s : SharedListener τ α κ) : Prop where
  held : ∀ t e pc, s.edits t = some (e, pc) → pc ≠ .acquire → s.lock = some t
  fresh : ∀ t e callbacks, s.edits t = some (e, .store callbacks) →
    callbacks = e.apply s.listener.callbacks

omit [DecidableEq τ] in
/-- A listener that nobody edits. -/
theorem inv_init : Inv ({} : SharedListener τ α κ) :=
  ⟨fun _ _ _ h ↦ by contradiction, fun _ _ _ h ↦ by contradiction⟩

omit [DecidableEq τ] in
private theorem Inv.eq_of_held {s : SharedListener τ α κ} (h : Inv s) {t u : τ} {e f : Edit κ}
    {pc qc : EditPc κ} (ht : s.edits t = some (e, pc)) (hu : s.edits u = some (f, qc))
    (hpc : pc ≠ .acquire) (hqc : qc ≠ .acquire) : u = t := by
  have hlock := h.held t e pc ht hpc
  rw [h.held u f qc hu hqc] at hlock
  exact Option.some.inj hlock

/-- Moving one edit keeps the order when the edit's own place is in order and the lock and the
tuple are as the others need them. -/
theorem Inv.goto {s s' : SharedListener τ α κ} (h : Inv s) {t : τ}
    {edit : Option (Edit κ × EditPc κ)} (hedits : s'.edits = s.edits)
    (hheld : ∀ e pc, edit = some (e, pc) → pc ≠ .acquire → s'.lock = some t)
    (hfresh : ∀ e callbacks, edit = some (e, .store callbacks) →
      callbacks = e.apply s'.listener.callbacks)
    (hothers : ∀ u e pc, u ≠ t → s.edits u = some (e, pc) → pc ≠ .acquire →
      s'.lock = s.lock ∧ s'.listener.callbacks = s.listener.callbacks) : Inv (s'.goto t edit) := by
  constructor
  case held =>
    intro u e pc hu hpc
    simp only [SharedListener.goto, hedits] at hu
    by_cases hut : u = t
    · subst hut
      rw [Function.update_self] at hu
      exact hheld e pc hu hpc
    · rw [Function.update_of_ne hut] at hu
      exact (hothers u e pc hut hu hpc).1.trans (h.held u e pc hu hpc)
  case fresh =>
    intro u e callbacks hu
    simp only [SharedListener.goto, hedits] at hu
    by_cases hut : u = t
    · subst hut
      rw [Function.update_self] at hu
      exact hfresh e callbacks hu
    · rw [Function.update_of_ne hut] at hu
      have hsame := (hothers u e _ hut hu (by simp)).2
      exact (h.fresh u e callbacks hu).trans (congrArg e.apply hsame.symm)

/-- A statement of an edit keeps the order. -/
theorem Inv.advance {s s' : SharedListener τ α κ} (h : Inv s) {t : τ} {e : Edit κ}
    {pc : EditPc κ} (ht : s.edits t = some (e, pc)) (hs : s.advance t e pc = some s') :
    Inv s' := by
  have hnone : ∀ u f qc, u ≠ t → pc ≠ .acquire → s.edits u = some (f, qc) → qc = .acquire := by
    intro u f qc hut hpc hu
    by_contra hqc
    exact hut (h.eq_of_held ht hu hpc hqc)
  cases pc with
  | acquire =>
    simp only [SharedListener.advance] at hs
    split at hs
    · next hlock =>
      cases hs
      apply h.goto
      case hedits => rfl
      case hheld => exact fun _ _ _ _ ↦ rfl
      case hfresh => exact fun _ _ he ↦ by simp at he
      case hothers =>
        intro u f qc _ hu hqc
        have hheld := h.held u f qc hu hqc
        rw [hlock] at hheld
        contradiction
    · contradiction
  | read =>
    cases hs
    have hlock := h.held t e _ ht (by simp)
    apply h.goto
    case hedits => rfl
    case hheld => exact fun _ _ _ _ ↦ hlock
    case hfresh =>
      intro f callbacks hf
      cases hf
      rfl
    case hothers => exact fun _ _ _ _ _ _ ↦ ⟨rfl, rfl⟩
  | store callbacks =>
    cases hs
    have hlock := h.held t e _ ht (by simp)
    apply h.goto
    case hedits => rfl
    case hheld => exact fun _ _ _ _ ↦ hlock
    case hfresh => exact fun _ _ he ↦ by simp at he
    case hothers => exact fun u f qc hut hu hqc ↦ absurd (hnone u f qc hut (by simp) hu) hqc
  | release =>
    cases hs
    apply h.goto
    case hedits => rfl
    case hheld => exact fun _ _ he ↦ by simp at he
    case hfresh => exact fun _ _ he ↦ by simp at he
    case hothers => exact fun u f qc hut hu hqc ↦ absurd (hnone u f qc hut (by simp) hu) hqc

omit [DecidableEq τ] in
/-- The dispatch touches neither lock nor edits nor tuple. -/
theorem Inv.withListener {s : SharedListener τ α κ} (h : Inv s) {l : Listener α κ}
    (hl : l.callbacks = s.listener.callbacks) : Inv { s with listener := l } :=
  ⟨h.held, fun t e callbacks ht ↦ by rw [hl]; exact h.fresh t e callbacks ht⟩

/-- Every step keeps the order of the edits. -/
theorem inv_step (s : SharedListener τ α κ) (a : DispatchAction τ α κ)
    (s' : SharedListener τ α κ) (h : Inv s) (hs : step s a = some s') : Inv s' := by
  cases a with
  | edit t e =>
    simp only [step] at hs
    split at hs
    · cases hs
      apply h.goto
      case hedits => rfl
      case hheld =>
        intro f pc hf hpc
        cases hf
        contradiction
      case hfresh => exact fun _ _ he ↦ by simp at he
      case hothers => exact fun _ _ _ _ _ _ ↦ ⟨rfl, rfl⟩
    · contradiction
  | advance t =>
    obtain ⟨⟨e, pc⟩, ht, hs⟩ := Option.bind_eq_some_iff.mp hs
    exact h.advance ht hs
  | onDataAvailable taken =>
    obtain ⟨l, hl, rfl⟩ := Option.map_eq_some_iff.mp hs
    simp only [Listener.onDataAvailable] at hl
    split at hl
    · cases hl
      exact h.withListener rfl
    · contradiction
  | dispatch ending =>
    obtain ⟨l, hl, rfl⟩ := Option.map_eq_some_iff.mp hs
    exact h.withListener (Listener.callbacks_advance hl)

/-! ## Registrations -/

/-- No edit in progress is about the callback. -/
def Untouched (callback : κ) (s : SharedListener τ α κ) : Prop :=
  ∀ t e pc, s.edits t = some (e, pc) → e.callback ≠ callback

/-- The action begins no edit of the callback. -/
def Spares (callback : κ) : DispatchAction τ α κ → Prop
  | .edit _ e => e.callback ≠ callback
  | _ => True

omit [DecidableEq κ] in
private theorem Untouched.goto {callback : κ} {s s' : SharedListener τ α κ}
    (h : Untouched callback s) {t : τ} {edit : Option (Edit κ × EditPc κ)}
    (hedits : s'.edits = s.edits)
    (hedit : ∀ e pc, edit = some (e, pc) → e.callback ≠ callback) :
    Untouched callback (s'.goto t edit) := by
  intro u e pc hu
  simp only [SharedListener.goto, hedits] at hu
  by_cases hut : u = t
  · subst hut
    rw [Function.update_self] at hu
    exact hedit e pc hu
  · rw [Function.update_of_ne hut] at hu
    exact h u e pc hu

/-- Edits of other callbacks leave a registration alone: under the lock none is lost. -/
theorem Untouched.step {callback : κ} {s s' : SharedListener τ α κ} {a : DispatchAction τ α κ}
    (h : Untouched callback s) (hinv : Inv s) (ha : Spares callback a)
    (hs : step s a = some s') :
    Untouched callback s' ∧
      s'.listener.callbacks.count callback = s.listener.callbacks.count callback := by
  cases a with
  | edit t e =>
    simp only [SharedListener.step] at hs
    split at hs
    · cases hs
      refine ⟨h.goto rfl ?_, rfl⟩
      intro f pc hf
      cases hf
      exact ha
    · contradiction
  | advance t =>
    obtain ⟨⟨e, pc⟩, ht, hs⟩ := Option.bind_eq_some_iff.mp hs
    have he : e.callback ≠ callback := h t e pc ht
    have hedit (qc : EditPc κ) (f pc') : some (e, qc) = some (f, pc') → f.callback ≠ callback := by
      intro hf
      cases hf
      exact he
    cases pc with
    | acquire =>
      simp only [SharedListener.advance] at hs
      split at hs
      · cases hs
        exact ⟨h.goto rfl (hedit _), rfl⟩
      · contradiction
    | read =>
      cases hs
      exact ⟨h.goto rfl (hedit _), rfl⟩
    | store callbacks =>
      cases hs
      constructor
      · exact h.goto rfl (hedit _)
      · -- the lock keeps what the edit has read current
        change callbacks.count callback = _
        rw [hinv.fresh t e callbacks ht, Edit.count_apply he]
    | release =>
      cases hs
      exact ⟨h.goto rfl fun _ _ hf ↦ by contradiction, rfl⟩
  | onDataAvailable taken =>
    obtain ⟨l, hl, rfl⟩ := Option.map_eq_some_iff.mp hs
    exact ⟨h, congrArg _ (Listener.owed_onDataAvailable hl callback).1⟩
  | dispatch ending =>
    obtain ⟨l, hl, rfl⟩ := Option.map_eq_some_iff.mp hs
    exact ⟨h, congrArg _ (Listener.callbacks_advance hl)⟩

/-- A registration that no call is about stays what it is. -/
theorem Untouched.allStates {callback : κ} {s : SharedListener τ α κ}
    {actions : List (DispatchAction τ α κ)} (h : Untouched callback s) (hinv : Inv s)
    (hspares : ∀ a ∈ actions, Spares callback a) :
    AllStates SharedListener.step (fun t ↦ t.listener.callbacks.count callback =
      s.listener.callbacks.count callback) s actions := by
  apply AllSteps.allStates (I := fun t ↦ Inv t ∧ Untouched callback t ∧
    t.listener.callbacks.count callback = s.listener.callbacks.count callback)
    ⟨hinv, h, rfl⟩ _ (fun _ ht ↦ ht.2.2) (allSteps_of_forall hspares)
  rintro t a t' ⟨hinv, hfree, hcount⟩ ha hs
  obtain ⟨hfree', hcount'⟩ := hfree.step hinv ha hs
  exact ⟨inv_step t a t' hinv hs, hfree', hcount'.trans hcount⟩

/-! ## Deliveries -/

/-- Samples a callback has been called with. -/
def deliveredTo (s : SharedListener τ α κ) (callback : κ) : List α :=
  s.listener.deliveredTo callback

/-- Samples the run in progress still owes a callback. -/
def owed (s : SharedListener τ α κ) (callback : κ) : List α := s.listener.dispatch.owed callback

/-- The action does not begin a run of `on_data_available`. -/
def WithinRun : DispatchAction τ α κ → Prop
  | .onDataAvailable _ => False
  | _ => True

instance : DecidablePred (WithinRun : DispatchAction τ α κ → Prop) := fun a ↦
  match a with
  | .onDataAvailable _ => isFalse id
  | .edit .. | .advance _ | .dispatch _ => isTrue trivial

/-- Nothing but an `Exception` is raised by a callback. -/
def Contained : DispatchAction τ α κ → Prop
  | .dispatch ending => ending ≠ .baseException
  | _ => True

instance : DecidablePred (Contained : DispatchAction τ α κ → Prop) := fun a ↦
  match a with
  | .dispatch ending => inferInstanceAs (Decidable (ending ≠ .baseException))
  | .edit .. | .advance _ | .onDataAvailable _ => isTrue trivial

private theorem listener_of_edit {s s' : SharedListener τ α κ} {a : DispatchAction τ α κ}
    (ha : (∃ t e, a = .edit t e) ∨ ∃ t, a = .advance t) (hs : step s a = some s') :
    s'.listener = { s.listener with callbacks := s'.listener.callbacks } := by
  rcases ha with ⟨t, e, rfl⟩ | ⟨t, rfl⟩
  · simp only [step] at hs
    split at hs
    · cases hs
      rfl
    · contradiction
  · obtain ⟨⟨e, pc⟩, -, hs⟩ := Option.bind_eq_some_iff.mp hs
    cases pc with
    | acquire =>
      simp only [SharedListener.advance] at hs
      split at hs
      · cases hs
        rfl
      · contradiction
    | read | store | release =>
      cases hs
      rfl

/-- What a callback that stands in the tuple once has received and is owed does not change. -/
theorem deliveredTo_append_owed {s s' : SharedListener τ α κ} {a : DispatchAction τ α κ}
    {callback : κ} (honce : s.listener.callbacks.count callback = 1) (ha : WithinRun a)
    (hcontained : Contained a) (hs : step s a = some s') :
    s'.deliveredTo callback ++ s'.owed callback = s.deliveredTo callback ++ s.owed callback := by
  cases a with
  | edit t e =>
    rw [deliveredTo, owed, listener_of_edit (.inl ⟨t, e, rfl⟩) hs]
    rfl
  | advance t =>
    rw [deliveredTo, owed, listener_of_edit (.inr ⟨t, rfl⟩) hs]
    rfl
  | onDataAvailable taken => contradiction
  | dispatch ending =>
    obtain ⟨l, hl, rfl⟩ := Option.map_eq_some_iff.mp hs
    exact Listener.deliveredTo_append_owed hl hcontained callback fun _ _ _ ↦ honce

/-- Nothing is delivered to a callback that is neither in the tuple nor in the rest of the one in
use. -/
theorem deliveredTo_of_count_eq_zero {s s' : SharedListener τ α κ} {a : DispatchAction τ α κ}
    {callback : κ} (hnone : s.listener.callbacks.count callback = 0)
    (hnext : s.listener.dispatch.NotNext callback) (ha : WithinRun a) (hs : step s a = some s') :
    s'.listener.dispatch.NotNext callback ∧ s'.deliveredTo callback = s.deliveredTo callback := by
  cases a with
  | edit t e =>
    rw [deliveredTo, listener_of_edit (.inl ⟨t, e, rfl⟩) hs]
    exact ⟨hnext, rfl⟩
  | advance t =>
    rw [deliveredTo, listener_of_edit (.inr ⟨t, rfl⟩) hs]
    exact ⟨hnext, rfl⟩
  | onDataAvailable taken => contradiction
  | dispatch ending =>
    obtain ⟨l, hl, rfl⟩ := Option.map_eq_some_iff.mp hs
    exact Listener.deliveredTo_of_count_eq_zero hnone hnext hl

private theorem deliveredTo_of_once {s₀ s : SharedListener τ α κ} {callback : κ}
    {actions : List (DispatchAction τ α κ)}
    (honce : AllStates step (fun t ↦ t.listener.callbacks.count callback = 1) s₀ actions)
    (hwithin : ∀ a ∈ actions, WithinRun a) (hcontained : ∀ a ∈ actions, Contained a)
    (hrun : run step s₀ actions = some s) :
    s.deliveredTo callback ++ s.owed callback =
      s₀.deliveredTo callback ++ s₀.owed callback := by
  apply invariant_of_steps (I := fun t ↦ t.deliveredTo callback ++ t.owed callback =
    s₀.deliveredTo callback ++ s₀.owed callback) rfl _ actions
    (honce.allSteps.and ((allSteps_of_forall hwithin).and (allSteps_of_forall hcontained))) hrun
  rintro t a t' ht ⟨hcount, ha, hending⟩ hs
  exact (deliveredTo_append_owed hcount ha hending hs).trans ht

private theorem deliveredTo_of_never {s₀ s : SharedListener τ α κ} {callback : κ}
    {actions : List (DispatchAction τ α κ)}
    (hnever : AllStates step (fun t ↦ t.listener.callbacks.count callback = 0) s₀ actions)
    (hwithin : ∀ a ∈ actions, WithinRun a) (hnext : s₀.listener.dispatch.NotNext callback)
    (hrun : run step s₀ actions = some s) :
    s.deliveredTo callback = s₀.deliveredTo callback := by
  have hboth : s.listener.dispatch.NotNext callback ∧
      s.deliveredTo callback = s₀.deliveredTo callback := by
    apply invariant_of_steps (I := fun t ↦ t.listener.dispatch.NotNext callback ∧
      t.deliveredTo callback = s₀.deliveredTo callback) ⟨hnext, rfl⟩ _ actions
      (hnever.allSteps.and (allSteps_of_forall hwithin)) hrun
    rintro t a t' ⟨hnext, ht⟩ ⟨hcount, ha⟩ hs
    obtain ⟨hnext', hsame⟩ := deliveredTo_of_count_eq_zero hcount hnext ha hs
    exact ⟨hnext', hsame.trans ht⟩
  exact hboth.2

/-! ## Callbacks that raise -/

/-- The actions differ at most in whether a callback raises an `Exception`. -/
def SameButRaises : DispatchAction τ α κ → DispatchAction τ α κ → Prop
  | .dispatch ending, .dispatch ending' => ending = .baseException ↔ ending' = .baseException
  | a, b => a = b

/-- The listeners differ at most in the errors logged. -/
def SameButErrors (s t : SharedListener τ α κ) : Prop :=
  ∃ errors, t = { s with listener := { s.listener with errors } }

/-- Whether callbacks raise an `Exception` matters to nothing but the log. -/
theorem SameButErrors.step {s t s' : SharedListener τ α κ} {a b : DispatchAction τ α κ}
    (h : SameButErrors s t) (hab : SameButRaises a b) (hs : step s a = some s') :
    ∃ t', SharedListener.step t b = some t' ∧ SameButErrors s' t' := by
  obtain ⟨errors, rfl⟩ := h
  cases a with
  | edit u e =>
    cases hab
    simp only [SharedListener.step] at hs ⊢
    split at hs
    · next hu =>
      cases hs
      rw [if_pos hu]
      exact ⟨_, rfl, errors, rfl⟩
    · contradiction
  | advance u =>
    cases hab
    obtain ⟨⟨e, pc⟩, hu, hs⟩ := Option.bind_eq_some_iff.mp hs
    simp only [SharedListener.step, hu, Option.bind_some]
    cases pc with
    | acquire =>
      simp only [SharedListener.advance] at hs ⊢
      split at hs
      · cases hs
        exact ⟨_, rfl, errors, rfl⟩
      · contradiction
    | read | store | release =>
      cases hs
      exact ⟨_, rfl, errors, rfl⟩
  | onDataAvailable taken =>
    cases hab
    obtain ⟨l, hl, rfl⟩ := Option.map_eq_some_iff.mp hs
    simp only [SharedListener.step, Listener.onDataAvailable] at hl ⊢
    split at hl
    · cases hl
      exact ⟨_, rfl, errors, rfl⟩
    · contradiction
  | dispatch ending =>
    cases b with
    | dispatch ending' =>
      obtain ⟨l, hl, rfl⟩ := Option.map_eq_some_iff.mp hs
      have hends : ending = .baseException ↔ ending' = .baseException := hab
      simp only [SharedListener.step, Listener.advance, ← hends] at hl ⊢
      split at hl
      · contradiction
      all_goals
        cases hl
        exact ⟨_, rfl, _, rfl⟩
    | edit u e => contradiction
    | advance u => contradiction
    | onDataAvailable taken => contradiction

/-- A run whose callbacks raise elsewhere makes the same invocations. -/
theorem SameButErrors.run {s t s' : SharedListener τ α κ} {as bs : List (DispatchAction τ α κ)}
    (h : SameButErrors s t) (hab : List.Forall₂ SameButRaises as bs)
    (hs : run SharedListener.step s as = some s') :
    ∃ t', Transition.run SharedListener.step t bs = some t' ∧ SameButErrors s' t' := by
  induction hab generalizing s t with
  | nil =>
    cases hs
    exact ⟨t, rfl, h⟩
  | cons hab _ ih =>
    rw [run_cons] at hs
    obtain ⟨m, hm, hs⟩ := Option.bind_eq_some_iff.mp hs
    obtain ⟨n, hn, hmn⟩ := h.step hab hm
    obtain ⟨t', ht', hst⟩ := ih hmn hs
    exact ⟨t', by rw [run_cons, hn]; exact ht', hst⟩

/-! ## One run of `on_data_available` -/

omit [DecidableEq κ] in
private theorem dispatch_of_onDataAvailable {listener l : Listener α κ} {batch : List (Option α)}
    (hl : listener.onDataAvailable (some batch) = some l) :
    listener.dispatch = .idle ∧ l.dispatch = .samples batch := by
  simp only [Listener.onDataAvailable] at hl
  split at hl
  · next hidle =>
    cases hl
    exact ⟨hidle, rfl⟩
  · contradiction

section

variable {s₀ s : SharedListener τ α κ} {batch : List (Option α)}
  {actions : List (DispatchAction τ α κ)} {callback : κ}

private theorem deliveredTo_of_dispatch
    (honce : AllStates step (fun t ↦ t.listener.callbacks.count callback = 1) s₀
      (.onDataAvailable (some batch) :: actions)) (hwithin : ∀ a ∈ actions, WithinRun a)
    (hcontained : ∀ a ∈ actions, Contained a)
    (hrun : run step s₀ (.onDataAvailable (some batch) :: actions) = some s)
    (hdone : s.listener.dispatch = .idle) :
    s.deliveredTo callback = s₀.deliveredTo callback ++ batch.reduceOption := by
  rw [run_cons] at hrun
  obtain ⟨s₁, hs₁, hrun⟩ := Option.bind_eq_some_iff.mp hrun
  have hsum := deliveredTo_of_once ((allStates_cons.mp honce).2 _ hs₁) hwithin hcontained hrun
  obtain ⟨l, hl, rfl⟩ := Option.map_eq_some_iff.mp hs₁
  have howed := (Listener.owed_onDataAvailable hl callback).2
  rw [(dispatch_of_onDataAvailable hl).1] at howed
  simp only [owed, hdone, Dispatch.owed, List.append_nil] at hsum howed
  exact hsum.trans howed

private theorem deliveredTo_of_dispatch_never
    (hnever : AllStates step (fun t ↦ t.listener.callbacks.count callback = 0) s₀
      (.onDataAvailable (some batch) :: actions)) (hwithin : ∀ a ∈ actions, WithinRun a)
    (hrun : run step s₀ (.onDataAvailable (some batch) :: actions) = some s) :
    s.deliveredTo callback = s₀.deliveredTo callback := by
  rw [run_cons] at hrun
  obtain ⟨s₁, hs₁, hrun⟩ := Option.bind_eq_some_iff.mp hrun
  have hrest := (allStates_cons.mp hnever).2 _ hs₁
  obtain ⟨l, hl, rfl⟩ := Option.map_eq_some_iff.mp hs₁
  obtain ⟨hidle, hbegun⟩ := dispatch_of_onDataAvailable hl
  have hnone := deliveredTo_of_never hrest hwithin (by rw [hbegun]; trivial) hrun
  have howed := (Listener.owed_onDataAvailable hl callback).2
  rw [hidle, hbegun] at howed
  simp only [Dispatch.owed, Option.getD_some, List.append_nil] at howed
  exact hnone.trans (List.append_cancel_right howed)

private theorem dispatched_of_sameButRaises {actions' : List (DispatchAction τ α κ)}
    (hab : List.Forall₂ SameButRaises actions actions')
    (hrun : run step s₀ (.onDataAvailable (some batch) :: actions) = some s) :
    ∃ s', run step s₀ (.onDataAvailable (some batch) :: actions') = some s' ∧
      s'.listener.dispatched = s.listener.dispatched := by
  rw [run_cons] at hrun
  obtain ⟨s₁, hs₁, hrun⟩ := Option.bind_eq_some_iff.mp hrun
  obtain ⟨s', hs', errors, rfl⟩ := SameButErrors.run ⟨s₁.listener.errors, rfl⟩ hab hrun
  have hfirst : run step s₀ (.onDataAvailable (some batch) :: actions') = run step s₁ actions' := by
    rw [run_cons, hs₁, Option.bind_some]
  exact ⟨_, hfirst.trans hs', rfl⟩

end

/-- A dispatch whose callbacks raise exceptions at most delivers exactly once. While it goes on, a
callback that stays registered once receives every sample of the batch in take order, in particular
one that no edit is about; a callback that is not registered receives nothing; and whether any
callback raises changes no invocation. -/
theorem dispatch_exactlyOnce {s₀ s : SharedListener τ α κ} {batch : List (Option α)}
    {actions : List (DispatchAction τ α κ)} (hreachable : Reachable step {} s₀)
    (hwithin : ∀ a ∈ actions, WithinRun a) (hcontained : ∀ a ∈ actions, Contained a)
    (hrun : run step s₀ (.onDataAvailable (some batch) :: actions) = some s)
    (hdone : s.listener.dispatch = .idle) :
    (∀ callback, AllStates step (fun t ↦ t.listener.callbacks.count callback = 1) s₀
        (.onDataAvailable (some batch) :: actions) →
      s.deliveredTo callback = s₀.deliveredTo callback ++ batch.reduceOption) ∧
    (∀ callback, s₀.listener.callbacks.count callback = 1 → Untouched callback s₀ →
      (∀ a ∈ actions, Spares callback a) →
      s.deliveredTo callback = s₀.deliveredTo callback ++ batch.reduceOption) ∧
    (∀ callback, AllStates step (fun t ↦ t.listener.callbacks.count callback = 0) s₀
        (.onDataAvailable (some batch) :: actions) →
      s.deliveredTo callback = s₀.deliveredTo callback) ∧
    ∀ actions', List.Forall₂ SameButRaises actions actions' → ∃ s',
      run step s₀ (.onDataAvailable (some batch) :: actions') = some s' ∧
        s'.listener.dispatched = s.listener.dispatched := by
  refine ⟨fun callback honce ↦ deliveredTo_of_dispatch honce hwithin hcontained hrun hdone, ?_,
    fun callback hnever ↦ deliveredTo_of_dispatch_never hnever hwithin hrun,
    fun actions' hab ↦ dispatched_of_sameButRaises hab hrun⟩
  intro callback hcount hfree hspares
  apply deliveredTo_of_dispatch _ hwithin hcontained hrun hdone
  have hinv : Inv s₀ := hreachable.invariant inv_init inv_step
  rw [← hcount]
  apply hfree.allStates hinv
  intro a ha
  rcases List.mem_cons.mp ha with rfl | ha
  · trivial
  · exact hspares a ha

/-- A thread executes a whole edit. -/
private def wholeEdit (t : Bool) (e : Edit ℕ) : List (DispatchAction Bool ℕ ℕ) :=
  .edit t e :: List.replicate 4 (.advance t)

private def registered : SharedListener Bool ℕ ℕ :=
  (run step {} (wholeEdit true (.add 1) ++ wholeEdit true (.add 2))).getD {}

private theorem reachable_registered : Reachable step {} registered :=
  ⟨wholeEdit true (.add 1) ++ wholeEdit true (.add 2), rfl⟩

/-- The callback 1 raises at the first sample; the callback 2 is removed after it. -/
private def interrupted : List (DispatchAction Bool ℕ ℕ) :=
  [.dispatch .returned, .dispatch .exception, .dispatch .returned] ++ wholeEdit false (.remove 2) ++
    List.replicate 6 (.dispatch .returned)

private def dispatched : SharedListener Bool ℕ ℕ :=
  (run step registered (.onDataAvailable (some [some 7, none, some 8]) :: interrupted)).getD {}

/-- A batch with a gap, a callback that raises and another one that is removed meanwhile. -/
theorem dispatch_exactlyOnce_interrupted : dispatched.deliveredTo 1 = [7, 8] := by
  have hrun : run step registered (.onDataAvailable (some [some 7, none, some 8]) :: interrupted) =
      some dispatched := rfl
  exact (dispatch_exactlyOnce reachable_registered (by decide) (by decide) hrun rfl).1 1
    (by decide +kernel)

/-- The callback 1 raises `SystemExit` at the first of two samples: the callback 2, registered all the
while, gets none of them. -/
theorem dispatch_ended_by_systemExit :
    ¬ ∀ (s₀ s : SharedListener Bool ℕ ℕ) (batch : List (Option ℕ))
      (actions : List (DispatchAction Bool ℕ ℕ)) (callback : ℕ), Reachable step {} s₀ →
      (∀ a ∈ actions, WithinRun a) →
      run step s₀ (.onDataAvailable (some batch) :: actions) = some s →
      s.listener.dispatch = .idle →
      AllStates step (fun t ↦ t.listener.callbacks.count callback = 1) s₀
        (.onDataAvailable (some batch) :: actions) →
      s.deliveredTo callback = s₀.deliveredTo callback ++ batch.reduceOption := by
  intro h
  have hall := h registered _ [some 7, some 8] [.dispatch .returned, .dispatch .baseException] 2
    reachable_registered (by decide) rfl rfl (by decide +kernel)
  exact absurd hall (by decide +kernel)

end SharedListener

end HzjDds.PubSub
