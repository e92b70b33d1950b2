import HzjDds.PubSub.Dispatch
import HzjDds.PubSub.Unsubscribe
import Mathlib.Data.Finset.Basic

/-!
# A DDS object that many threads subscribe to

Library `PubSub`. Source: `ddspubsub.py:52–86,120–152`. Threads subscribe, call the handles that
`subscribe` has returned and stop the object, one statement at a time. The maps are under the reader
lock, the tuple of each listener is under a lock of its own, and the listener threads hand samples
to the callbacks under no lock. The writers of `stop` are under another lock and touch none of this.
-/

namespace HzjDds.PubSub

open HzjDds.Transition

universe u v w x

/-- A call that concerns the readers. A handle closes over its topic and its callback. -/
inductive DDSCall (τ : Type w) (κ : Type v) where
  | subscribe (topic : τ) (callback : κ)
  | unsubscribe (topic : τ) (callback : κ)
  | stop
  deriving DecidableEq, Repr

/-- How a call ends: `subscribe` returns a handle or raises, the others return nothing. -/
inductive DDSResponse where
  | handle
  | done
  | raised
  deriving DecidableEq, Repr

/-- Next statement of a call. `release` leaves the `with` block of the reader lock with a listener,
`giveUp` without one; `editing` is `add_callback` or `remove_callback` of the listener. -/
inductive SharedDDSPc where
  | acquire
  | lookup
  | open
  | enterReader
  | enterListener
  | fetch
  | clearListeners
  | release (listener : ℕ)
  | giveUp (response : DDSResponse)
  | editing (listener : ℕ)
  | return (response : DDSResponse)
  deriving DecidableEq, Repr

/-- A DDS object and the calls in progress. Listeners are numbered in the order in which they are
entered; one that `stop` has taken out of the map goes on to exist. -/
structure SharedDDS (θ : Type x) (τ : Type w) (α : Type u) (κ : Type v) where
  reader_lock : Option θ := none
  readers : τ → Bool := fun _ ↦ false
  listeners : τ → Option ℕ := fun _ ↦ none
  objects : ℕ → SharedListener θ α κ := fun _ ↦ {}
  size : ℕ := 0
  calls : θ → Option (DDSCall τ κ × SharedDDSPc) := fun _ ↦ none

/-- A thread makes a call or executes the next statement of its call, where the reader of a new
topic may be made or not; or the thread of a listener takes a step. -/
inductive SharedDDSAction (θ : Type x) (τ : Type w) (α : Type u) (κ : Type v) where
  | call (thread : θ) (call : DDSCall τ κ)
  | next (thread : θ) (opens : Bool)
  | onDataAvailable (listener : ℕ) (taken : Option (List (Option α)))
  | dispatch (listener : ℕ) (ending : CallbackEnd)

variable {θ : Type x} {τ : Type w} {α : Type u} {κ : Type v}

namespace SharedDDSPc

/-- Statements inside the `with` block of the reader lock. -/
def locked : SharedDDSPc → Bool
  | acquire | editing _ | .return _ => false
  | _ => true

/-- The listener that a call has got. -/
def listener : SharedDDSPc → Option ℕ
  | release l | editing l => some l
  | _ => none

end SharedDDSPc

namespace DDSCall

/-- The topic of a call. -/
def topic : DDSCall τ κ → Option τ
  | subscribe topic _ | unsubscribe topic _ => some topic
  | stop => none

/-- What a call does to the tuple of its listener. -/
def edit : DDSCall τ κ → Option (Edit κ)
  | subscribe _ callback => some (.add callback)
  | unsubscribe _ callback => some (.remove callback)
  | stop => none

/-- How a call ends that does not raise. -/
def response : DDSCall τ κ → DDSResponse
  | subscribe _ _ => .handle
  | unsubscribe _ _ | stop => .done

end DDSCall

namespace SharedDDS

variable [DecidableEq θ] [DecidableEq τ] [DecidableEq κ]

/-- The call of a thread goes on at a statement, or is over. -/
def goto (s : SharedDDS θ τ α κ) (t : θ) (call : Option (DDSCall τ κ × SharedDDSPc)) :
    SharedDDS θ τ α κ :=
  { s with calls := Function.update s.calls t call }

/-- A step of a listener. -/
def stepObject (s : SharedDDS θ τ α κ) (l : ℕ) (a : DispatchAction θ α κ) :
    Option (SharedDDS θ τ α κ) :=
  ((s.objects l).step a).map fun o ↦ { s with objects := Function.update s.objects l o }

/-- Next statement of a call (`ddspubsub.py:120–148`). -/
def next (s : SharedDDS θ τ α κ) (t : θ) (opens : Bool) :
    DDSCall τ κ → SharedDDSPc → Option (SharedDDS θ τ α κ)
  | call, .acquire =>
    if s.reader_lock = none then
      some ({ s with reader_lock := some t }.goto t (some (call, .lookup)))
    else none
  | .subscribe topic callback, .lookup =>
    some (s.goto t (some (.subscribe topic callback, if s.readers topic then .fetch else .open)))
  | .unsubscribe topic callback, .lookup =>
    some (s.goto t (some (.unsubscribe topic callback,
      (s.listeners topic).elim (.giveUp .done) .release)))
  | .stop, .lookup =>
    some ({ s with readers := fun _ ↦ false }.goto t (some (.stop, .clearListeners)))
  | .subscribe topic callback, .open =>
    some (s.goto t (some (.subscribe topic callback,
      if opens then .enterReader else .giveUp .raised)))
  | .subscribe topic callback, .enterReader =>
    some ({ s with readers := Function.update s.readers topic true }.goto t
      (some (.subscribe topic callback, .enterListener)))
  | .subscribe topic callback, .enterListener =>
    some ({ s with
      listeners := Function.update s.listeners topic (some s.size)
      size := s.size + 1 }.goto t (some (.subscribe topic callback, .fetch)))
  | .subscribe topic callback, .fetch =>
    some (s.goto t (some (.subscribe topic callback,
      (s.listeners topic).elim (.giveUp .raised) .release)))
  | .stop, .clearListeners =>
    some ({ s with listeners := fun _ ↦ none }.goto t (some (.stop, .giveUp .done)))
  | call, .release l =>
    call.edit.bind fun e ↦
      (stepObject { s with reader_lock := none } l (.edit t e)).map fun s' ↦
        s'.goto t (some (call, .editing l))
  | call, .giveUp response =>
    some ({ s with reader_lock := none }.goto t (some (call, .return response)))
  | call, .editing l =>
    (s.stepObject l (.advance t)).map fun s' ↦
      s'.goto t (some (call, if (s'.objects l).edits t = none then .return call.response
        else .editing l))
  | _, .return _ => some (s.goto t none)
  | _, _ => none

/-- One step. -/
def step (s : SharedDDS θ τ α κ) : SharedDDSAction θ τ α κ → Option (SharedDDS θ τ α κ)
  | .call t call => if s.calls t = none then some (s.goto t (some (call, .acquire))) else none
  | .next t opens => (s.calls t).bind fun call ↦ s.next t opens call.1 call.2
  -- the reader that a `subscribe` is making may have data before its listener is entered
  | .onDataAvailable l taken => if l ≤ s.size then s.stepObject l (.onDataAvailable taken) else none
  | .dispatch l ending => if l ≤ s.size then s.stepObject l (.dispatch ending) else none

omit [DecidableEq θ] [DecidableEq τ] [DecidableEq κ] in
/-- Callbacks registered on a topic. -/
def registered (s : SharedDDS θ τ α κ) (topic : τ) : List κ :=
  (s.listeners topic).elim [] fun l ↦ (s.objects l).listener.callbacks

/-! ## What the locks keep -/

omit [DecidableEq θ] [DecidableEq τ] [DecidableEq κ] in
/-- The maps in a reachable state: they agree but inside the `with` block of a thread that changes
them, and a call that has got a listener has the one of its topic, unless that is out of the map. -/
structure Mapped (s : SharedDDS θ τ α κ) : Prop where
  held : ∀ t call pc, s.calls t = some (call, pc) → pc.locked = true → s.reader_lock = some t
  readers : ∀ topic, s.readers topic = true → s.listeners topic = none →
    ∃ t callback, s.calls t = some (.subscribe topic callback, .enterListener)
  listeners : ∀ topic, s.listeners topic ≠ none →
    s.readers topic = true ∨ ∃ t, s.calls t = some (.stop, .clearListeners)
  cleared : ∀ t topic, s.calls t = some (.stop, .clearListeners) → s.readers topic = false
  entering : ∀ t topic callback, s.calls t = some (.subscribe topic callback, .enterListener) →
    s.readers topic = true
  absent : ∀ t topic callback pc, s.calls t = some (.subscribe topic callback, pc) →
    pc = .open ∨ pc = .enterReader ∨ pc = .enterListener → s.listeners topic = none
  fetching : ∀ t topic callback, s.calls t = some (.subscribe topic callback, .fetch) →
    s.listeners topic ≠ none
  bound : ∀ topic l, s.listeners topic = some l → l < s.size
  apart : ∀ x y l, s.listeners x = some l → s.listeners y = some l → x = y
  got : ∀ t call pc l, s.calls t = some (call, pc) → pc.listener = some l →
    l < s.size ∧ ∀ topic, s.listeners topic = some l → call.topic = some topic

omit [DecidableEq τ] [DecidableEq κ] in
/-- A thread goes on without a change of the maps. -/
theorem Mapped.move {s s' : SharedDDS θ τ α κ} (h : Mapped s) {t : θ}
    {before after : Option (DDSCall τ κ × SharedDDSPc)} (hbefore : s.calls t = before)
    (hcalls : s'.calls = Function.update s.calls t after) (hreaders : s'.readers = s.readers)
    (hlisteners : s'.listeners = s.listeners) (hsize : s'.size = s.size)
    (hothers : ∀ u, u ≠ t → s.reader_lock = some u → s'.reader_lock = some u)
    (hheld : ∀ call pc, after = some (call, pc) → pc.locked = true → s'.reader_lock = some t)
    (hleft : ∀ call, before ≠ some (call, .enterListener) ∧ before ≠ some (call, .clearListeners))
    (hafter : ∀ call, after ≠ some (call, .enterListener) ∧ after ≠ some (call, .clearListeners))
    (habsent : ∀ topic callback pc, after = some (.subscribe topic callback, pc) →
      pc = .open ∨ pc = .enterReader ∨ pc = .enterListener → s.listeners topic = none)
    (hfetching : ∀ topic callback, after = some (.subscribe topic callback, .fetch) →
      s.listeners topic ≠ none)
    (hgot : ∀ call pc l, after = some (call, pc) → pc.listener = some l →
      (∃ topic, call.topic = some topic ∧ s.listeners topic = some l) ∨
        ∃ pc', before = some (call, pc') ∧ pc'.listener = some l) : Mapped s' := by
  constructor
  case held =>
    intro u call pc hu hpc
    rw [hcalls, Function.update_apply] at hu
    split at hu
    · next hut => exact hut ▸ hheld call pc hu hpc
    · next hut => exact hothers u hut (h.held u call pc hu hpc)
  case readers =>
    intro topic hreader hlistener
    rw [hreaders] at hreader
    rw [hlisteners] at hlistener
    obtain ⟨u, callback, hu⟩ := h.readers topic hreader hlistener
    have hut : u ≠ t := by
      rintro rfl
      exact (hleft _).1 (hbefore.symm.trans hu)
    exact ⟨u, callback, by rw [hcalls, Function.update_of_ne hut, hu]⟩
  case listeners =>
    intro topic hlistener
    rw [hlisteners] at hlistener
    rw [hreaders]
    refine (h.listeners topic hlistener).imp_right fun ⟨u, hu⟩ ↦ ⟨u, ?_⟩
    have hut : u ≠ t := by
      rintro rfl
      exact (hleft _).2 (hbefore.symm.trans hu)
    rw [hcalls, Function.update_of_ne hut, hu]
  case cleared =>
    intro u topic hu
    rw [hcalls, Function.update_apply] at hu
    rw [hreaders]
    split at hu
    · exact absurd hu (hafter _).2
    · exact h.cleared u topic hu
  case entering =>
    intro u topic callback hu
    rw [hcalls, Function.update_apply] at hu
    rw [hreaders]
    split at hu
    · exact absurd hu (hafter _).1
    · exact h.entering u topic callback hu
  case absent =>
    intro u topic callback pc hu hpc
    rw [hcalls, Function.update_apply] at hu
    rw [hlisteners]
    split at hu
    · exact habsent topic callback pc hu hpc
    · exact h.absent u topic callback pc hu hpc
  case fetching =>
    intro u topic callback hu
    rw [hcalls, Function.update_apply] at hu
    rw [hlisteners]
    split at hu
    · exact hfetching topic callback hu
    · exact h.fetching u topic callback hu
  case bound => exact fun topic l hl ↦ by rw [hsize]; exact h.bound topic l (hlisteners ▸ hl)
  case apart => exact fun x y l hx hy ↦ h.apart x y l (hlisteners ▸ hx) (hlisteners ▸ hy)
  case got =>
    intro u call pc l hu hl
    rw [hcalls, Function.update_apply] at hu
    rw [hsize, hlisteners]
    split at hu
    · rcases hgot call pc l hu hl with ⟨topic, htopic, hmap⟩ | ⟨pc', hpc', hl'⟩
      · exact ⟨h.bound topic l hmap, fun x hx ↦ h.apart topic x l hmap hx ▸ htopic⟩
      · exact h.got t call pc' l (hbefore.trans hpc') hl'
    · exact h.got u call pc l hu hl

omit [DecidableEq θ] [DecidableEq τ] [DecidableEq κ] in
/-- Inside the `with` block of one thread no other thread is inside one. -/
theorem Mapped.alone {s : SharedDDS θ τ α κ} (h : Mapped s) {t u : θ} {call call' : DDSCall τ κ}
    {pc pc' : SharedDDSPc} (ht : s.calls t = some (call, pc)) (hu : s.calls u = some (call', pc'))
    (hpc : pc.locked = true) (hpc' : pc'.locked = true) : u = t := by
  have hlock := h.held t call pc ht hpc
  rw [h.held u call' pc' hu hpc'] at hlock
  exact Option.some.inj hlock

omit [DecidableEq τ] [DecidableEq κ] in
/-- `self._readers.clear()`. -/
theorem Mapped.clearReaders {s : SharedDDS θ τ α κ} (h : Mapped s) {t : θ}
    (hpc : s.calls t = some (.stop, .lookup)) :
    Mapped ({ s with readers := fun _ ↦ false }.goto t (some (.stop, .clearListeners))) := by
  have halone : ∀ u call pc, s.calls u = some (call, pc) → pc.locked = true → u = t :=
    fun u call pc hu hlocked ↦ h.alone hpc hu rfl hlocked
  constructor <;> simp only [goto, Function.update_apply]
  case held =>
    intro u call pc hu hlocked
    split at hu
    · next hut => exact hut ▸ h.held t _ _ hpc rfl
    · exact h.held u call pc hu hlocked
  case readers => simp
  case listeners => exact fun _ _ ↦ .inr ⟨t, if_pos rfl⟩
  case cleared => exact fun _ _ _ ↦ trivial
  case entering =>
    intro u x other hu
    split at hu
    · cases hu
    · next hut => exact absurd (halone u _ _ hu rfl) hut
  case absent =>
    intro u topic callback pc hu hopen
    split at hu
    · cases hu
    · exact h.absent u topic callback pc hu hopen
  case fetching =>
    intro u topic callback hu
    split at hu
    · cases hu
    · exact h.fetching u topic callback hu
  case bound => exact h.bound
  case apart => exact h.apart
  case got =>
    intro u call pc l hu hl
    split at hu
    · cases hu
      cases hl
    · exact h.got u call pc l hu hl

omit [DecidableEq τ] [DecidableEq κ] in
/-- `self._listeners.clear()`. -/
theorem Mapped.clearListeners {s : SharedDDS θ τ α κ} (h : Mapped s) {t : θ}
    (hpc : s.calls t = some (.stop, .clearListeners)) :
    Mapped ({ s with listeners := fun _ ↦ none }.goto t (some (.stop, .giveUp .done))) := by
  have halone : ∀ u call pc, s.calls u = some (call, pc) → pc.locked = true → u = t :=
    fun u call pc hu hlocked ↦ h.alone hpc hu rfl hlocked
  constructor <;> simp only [goto, Function.update_apply]
  case held =>
    intro u call pc hu hlocked
    split at hu
    · next hut => exact hut ▸ h.held t _ _ hpc rfl
    · exact h.held u call pc hu hlocked
  case readers =>
    intro topic hreader _
    rw [h.cleared t topic hpc] at hreader
    contradiction
  case listeners => simp
  case cleared =>
    intro u topic hu
    split at hu
    · cases hu
    · next hut => exact absurd (halone u _ _ hu rfl) hut
  case entering =>
    intro u x other hu
    split at hu
    · cases hu
    · next hut => exact absurd (halone u _ _ hu rfl) hut
  case absent => simp
  case fetching =>
    intro u topic callback hu
    split at hu
    · cases hu
    · next hut => exact absurd (halone u _ _ hu rfl) hut
  case bound => simp
  case apart => simp
  case got =>
    intro u call pc l hu hl
    split at hu
    · cases hu
      cases hl
    · exact ⟨(h.got u call pc l hu hl).1, by simp⟩

omit [DecidableEq κ] in
/-- `self._readers[topic] = …`. -/
theorem Mapped.enterReader {s : SharedDDS θ τ α κ} (h : Mapped s) {t : θ} {topic : τ} {callback : κ}
    (hpc : s.calls t = some (.subscribe topic callback, .enterReader)) :
    Mapped ({ s with readers := Function.update s.readers topic true }.goto t
      (some (.subscribe topic callback, .enterListener))) := by
  have halone : ∀ u call pc, s.calls u = some (call, pc) → pc.locked = true → u = t :=
    fun u call pc hu hlocked ↦ h.alone hpc hu rfl hlocked
  have hnone := h.absent t topic callback .enterReader hpc (.inr (.inl rfl))
  constructor <;> simp only [goto, Function.update_apply]
  case held =>
    intro u call pc hu hlocked
    split at hu
    · next hut => exact hut ▸ h.held t _ _ hpc rfl
    · exact h.held u call pc hu hlocked
  case readers =>
    intro x hreader hlistener
    split at hreader
    · next hx => exact ⟨t, callback, by rw [if_pos rfl, hx]⟩
    · obtain ⟨u, other, hu⟩ := h.readers x hreader hlistener
      cases halone u _ _ hu rfl
      cases hpc.symm.trans hu
  case listeners =>
    intro x hx
    have hne : x ≠ topic := by
      rintro rfl
      exact hx hnone
    rcases h.listeners x hx with hreader | ⟨u, hu⟩
    · exact .inl (by rwa [if_neg hne])
    · cases halone u _ _ hu rfl
      cases hpc.symm.trans hu
  case cleared =>
    intro u x hu
    split at hu
    · cases hu
    · next hut => exact absurd (halone u _ _ hu rfl) hut
  case entering =>
    intro u x other hu
    split at hu
    · cases hu
      exact if_pos rfl
    · next hut => exact absurd (halone u _ _ hu rfl) hut
  case absent =>
    intro u x other pc hu hopen
    split at hu
    · cases hu
      exact hnone
    · exact h.absent u x other pc hu hopen
  case fetching =>
    intro u x other hu
    split at hu
    · cases hu
    · exact h.fetching u x other hu
  case bound => exact h.bound
  case apart => exact h.apart
  case got =>
    intro u call pc l hu hl
    split at hu
    · cases hu
      cases hl
    · exact h.got u call pc l hu hl

omit [DecidableEq κ] in
/-- `self._listeners[topic] = listener`. -/
theorem Mapped.enterListener {s : SharedDDS θ τ α κ} (h : Mapped s) {t : θ} {topic : τ}
    {callback : κ} (hpc : s.calls t = some (.subscribe topic callback, .enterListener)) :
    Mapped ({ s with
      listeners := Function.update s.listeners topic (some s.size)
      size := s.size + 1 }.goto t (some (.subscribe topic callback, .fetch))) := by
  have halone : ∀ u call pc, s.calls u = some (call, pc) → pc.locked = true → u = t :=
    fun u call pc hu hlocked ↦ h.alone hpc hu rfl hlocked
  have hreader := h.entering t topic callback hpc
  constructor <;> simp only [goto, Function.update_apply]
  case held =>
    intro u call pc hu hlocked
    split at hu
    · next hut => exact hut ▸ h.held t _ _ hpc rfl
    · exact h.held u call pc hu hlocked
  case readers =>
    intro x hx hlistener
    split at hlistener
    · cases hlistener
    · next hne =>
      obtain ⟨u, other, hu⟩ := h.readers x hx hlistener
      cases halone u _ _ hu rfl
      cases hpc.symm.trans hu
      exact absurd rfl hne
  case listeners =>
    intro x hx
    split at hx
    · next heq => exact .inl (heq ▸ hreader)
    · rcases h.listeners x hx with hreader | ⟨u, hu⟩
      · exact .inl hreader
      · cases halone u _ _ hu rfl
        cases hpc.symm.trans hu
  case cleared =>
    intro u x hu
    split at hu
    · cases hu
    · next hut => exact absurd (halone u _ _ hu rfl) hut
  case entering =>
    intro u x other hu
    split at hu
    · cases hu
    · next hut => exact absurd (halone u _ _ hu rfl) hut
  case absent =>
    intro u x other pc hu hopen
    split at hu
    · cases hu
      rcases hopen with h | h | h <;> cases h
    · next hut => exact absurd (halone u _ _ hu (by rcases hopen with rfl | rfl | rfl <;> rfl)) hut
  case fetching =>
    intro u x other hu
    split at hu
    · cases hu
      simp
    · next hut => exact absurd (halone u _ _ hu rfl) hut
  case bound =>
    intro x l hl
    split at hl
    · cases hl
      exact Nat.lt_succ_self _
    · exact Nat.lt_succ_of_lt (h.bound x l hl)
  case apart =>
    intro x y l hx hy
    -- the new listener is none of those that were entered before
    split at hx
    · next hxtopic =>
      split at hy
      · next hytopic => exact hxtopic.trans hytopic.symm
      · cases hx
        exact absurd (h.bound y _ hy) (Nat.lt_irrefl _)
    · split at hy
      · cases hy
        exact absurd (h.bound x _ hx) (Nat.lt_irrefl _)
      · exact h.apart x y l hx hy
  case got =>
    intro u call pc l hu hl
    split at hu
    · cases hu
      cases hl
    · obtain ⟨hlt, hmap⟩ := h.got u call pc l hu hl
      refine ⟨Nat.lt_succ_of_lt hlt, fun x hx ↦ ?_⟩
      split at hx
      · cases hx
        exact absurd hlt (Nat.lt_irrefl _)
      · exact hmap x hx

omit [DecidableEq θ] [DecidableEq τ] in
/-- The listeners in a reachable state: those that are not entered yet are empty, and an edit goes
on exactly where a call is inside `add_callback` or `remove_callback`. -/
structure Edited (s : SharedDDS θ τ α κ) : Prop where
  objects : ∀ l, (s.objects l).Inv
  unused : ∀ l, s.size ≤ l → (s.objects l).listener.callbacks = []
  edits : ∀ l t e, ((s.objects l).edits t).map Prod.fst = some e ↔
    ∃ call, s.calls t = some (call, .editing l) ∧ call.edit = some e

omit [DecidableEq τ] in
/-- A thread goes on outside the listeners. -/
theorem Edited.move {s s' : SharedDDS θ τ α κ} (h : Edited s) {t : θ}
    {before after : Option (DDSCall τ κ × SharedDDSPc)} (hbefore : s.calls t = before)
    (hcalls : s'.calls = Function.update s.calls t after) (hobjects : s'.objects = s.objects)
    (hsize : s.size ≤ s'.size) (hleft : ∀ call l, before ≠ some (call, .editing l))
    (hafter : ∀ call l, after ≠ some (call, .editing l)) : Edited s' := by
  constructor
  case objects => exact fun l ↦ hobjects ▸ h.objects l
  case unused => exact fun l hl ↦ hobjects ▸ h.unused l (hsize.trans hl)
  case edits =>
    intro l u e
    rw [hobjects, h.edits, hcalls, Function.update_apply]
    split
    · next hut =>
      rw [hut, hbefore]
      exact ⟨fun ⟨_, hcall, _⟩ ↦ absurd hcall (hleft _ _),
        fun ⟨_, hcall, _⟩ ↦ absurd hcall (hafter _ _)⟩
    · rfl

end SharedDDS

/-- What a statement of an edit does: it stores the tuple, gives the lock back, or neither. -/
theorem SharedListener.advance_cases [DecidableEq θ] [DecidableEq κ] {o o' : SharedListener θ α κ}
    {t : θ} {e : Edit κ} {pc : EditPc κ} (hs : o.advance t e pc = some o') :
    (∃ pc', pc ≠ .release ∧ pc' ≠ .release ∧ o'.edits = Function.update o.edits t (some (e, pc')) ∧
      o'.listener.callbacks = o.listener.callbacks) ∨
    (∃ callbacks, pc = .store callbacks ∧
      o'.edits = Function.update o.edits t (some (e, .release)) ∧
      o'.listener.callbacks = callbacks) ∨
    (pc = .release ∧ o'.edits = Function.update o.edits t none ∧
      o'.listener.callbacks = o.listener.callbacks) := by
  cases pc with
  | acquire =>
    simp only [SharedListener.advance] at hs
    split at hs <;> cases hs
    exact .inl ⟨.read, by simp, by simp, rfl, rfl⟩
  | read =>
    cases hs
    exact .inl ⟨.store _, by simp, by simp, rfl, rfl⟩
  | store callbacks =>
    cases hs
    exact .inr (.inl ⟨callbacks, rfl, rfl, rfl⟩)
  | release =>
    cases hs
    exact .inr (.inr ⟨rfl, rfl, rfl⟩)

namespace SharedDDS

variable [DecidableEq θ] [DecidableEq τ] [DecidableEq κ]

omit [DecidableEq τ] in
/-- A call begins to edit the listener that it has got. -/
theorem Edited.begin {s : SharedDDS θ τ α κ} (h : Edited s) {t : θ} {call : DDSCall τ κ} {l : ℕ}
    {o : SharedListener θ α κ} {e : Edit κ} (hpc : s.calls t = some (call, .release l))
    (he : call.edit = some e) (hl : l < s.size) (ho : (s.objects l).step (.edit t e) = some o) :
    Edited ({ s with
      reader_lock := none
      objects := Function.update s.objects l o }.goto t (some (call, .editing l))) := by
  have hinv := SharedListener.inv_step _ _ _ (h.objects l) ho
  simp only [SharedListener.step] at ho
  split_ifs at ho
  cases ho
  constructor <;> simp only [SharedDDS.goto, Function.update_apply]
  case objects =>
    intro k
    split
    · exact hinv
    · exact h.objects k
  case unused =>
    intro k hk
    have hkl : k ≠ l := by omega
    rw [if_neg hkl]
    exact h.unused k hk
  case edits =>
    intro k u f
    have hold := h.edits k u f
    by_cases hut : u = t
    · subst hut
      by_cases hkl : k = l
      · subst hkl
        simp [SharedListener.goto, he]
      · rw [if_neg hkl, hold, hpc]
        simp [Ne.symm hkl]
    · rw [if_neg hut, ← hold]
      split
      · next hkl => simp [SharedListener.goto, hut, hkl]
      · rfl

omit [DecidableEq τ] in
/-- A call goes on with its edit, or is over with it. -/
theorem Edited.advance {s : SharedDDS θ τ α κ} (h : Edited s) {t : θ} {call : DDSCall τ κ} {l : ℕ}
    {o : SharedListener θ α κ} (hpc : s.calls t = some (call, .editing l)) (hl : l < s.size)
    (ho : (s.objects l).step (.advance t) = some o) :
    Edited ({ s with objects := Function.update s.objects l o }.goto t
      (some (call, if o.edits t = none then .return call.response else .editing l))) := by
  have hinv := SharedListener.inv_step _ _ _ (h.objects l) ho
  obtain ⟨⟨e, pc⟩, hedit, ho⟩ := Option.bind_eq_some_iff.mp ho
  have hedits : ∃ after, o.edits = Function.update (s.objects l).edits t after ∧
      after.map Prod.fst = if o.edits t = none then none else some e := by
    rcases SharedListener.advance_cases ho with ⟨pc', -, -, ho, -⟩ | ⟨cs, -, ho, -⟩ | ⟨-, ho, -⟩
    all_goals exact ⟨_, ho, by simp [ho]⟩
  obtain ⟨after, hafter, hfst⟩ := hedits
  constructor <;> simp only [SharedDDS.goto, Function.update_apply]
  case objects =>
    intro k
    split
    · exact hinv
    · exact h.objects k
  case unused =>
    intro k hk
    have hkl : k ≠ l := by omega
    rw [if_neg hkl]
    exact h.unused k hk
  case edits =>
    intro k u f
    have hold := h.edits k u f
    by_cases hut : u = t
    · subst hut
      by_cases hkl : k = l
      · subst hkl
        obtain ⟨call', hcall', he⟩ := (h.edits k u e).mp (by rw [hedit]; rfl)
        cases hpc.symm.trans hcall'
        rw [hafter, Function.update_self] at hfst
        rw [if_pos rfl, if_pos rfl, hafter, Function.update_self, hfst]
        by_cases hover : after = none
        · simp [hover]
        · simp [hover, he]
      · rw [if_neg hkl, if_pos rfl, hold, hpc]
        by_cases hover : o.edits u = none <;> simp [hover, Ne.symm hkl]
    · rw [if_neg hut, ← hold]
      split
      · next hkl => simp [hafter, hut, hkl]
      · rfl

omit [DecidableEq θ] [DecidableEq τ] in
/-- The thread of a listener takes a step. -/
theorem Edited.data {s : SharedDDS θ τ α κ} (h : Edited s) {l : ℕ} {o : SharedListener θ α κ}
    (ho : o.Inv) (hedits : o.edits = (s.objects l).edits)
    (hcallbacks : o.listener.callbacks = (s.objects l).listener.callbacks) :
    Edited { s with objects := Function.update s.objects l o } := by
  constructor <;> simp only [Function.update_apply]
  case objects =>
    intro k
    split
    · exact ho
    · exact h.objects k
  case unused =>
    intro k hk
    split
    · next hkl => rw [hcallbacks, ← hkl, h.unused k hk]
    · exact h.unused k hk
  case edits =>
    intro k u f
    rw [← h.edits k u f]
    split
    · next hkl => rw [hedits, hkl]
    · rfl

end SharedDDS

end HzjDds.PubSub
