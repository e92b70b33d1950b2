import HzjDds.Transition.Callers
import HzjDds.Transition.Run
import Mathlib.Data.Fintype.Basic

/-!
# Lazy start of the base transport

Library `Transport`. Source: `core/transport.py:64–98`. Any number of calls of `broadcast` and
`subscribe` run on one fresh transport that nobody stops; a step is one statement of one
call. Nothing orders the statements of different calls. The backend is made with the
transport, so a call can only start and use it.
-/

namespace HzjDds.Transport

open HzjDds.Transition

universe u v w

/-- A use of the backend on the transport's topic. -/
inductive Request (μ : Type v) (κ : Type w) where
  | publish (msg : μ)
  | subscribe (callback : κ)
  deriving DecidableEq, Repr

namespace PubSubTransport

/-- Next statement of a call. `startReturn` is a call inside the backend's `start`. -/
inductive Pc where
  | testStarted
  | startBackend
  | startReturn
  | setStarted
  | use
  deriving DecidableEq, Repr

/-- Transport, its backend's `start` calls, and its callers. `uses` records every publish and
subscribe that reached the backend and whether a `start` had returned by then. -/
structure State (τ : Type u) (μ : Type v) (κ : Type w) where
  started : Bool := false
  startCalls : ℕ := 0
  startReturns : ℕ := 0
  calls : τ → Option (Request μ κ × Pc) := fun _ ↦ none
  uses : List (Request μ κ × Bool) := []

/-- A caller enters `broadcast` or `subscribe`, or executes its next statement. -/
inductive Action (τ : Type u) (μ : Type v) (κ : Type w) where
  | call (c : τ) (request : Request μ κ)
  | advance (c : τ)
  deriving DecidableEq, Repr

variable {τ : Type u} {μ : Type v} {κ : Type w} [DecidableEq τ]

/-- Move one caller. -/
def State.goto (s : State τ μ κ) (c : τ) (call : Option (Request μ κ × Pc)) : State τ μ κ :=
  { s with calls := Function.update s.calls c call }

/-- Next statement of a call: `_ensure_started`, `start`, then the use of the backend. -/
def advance (s : State τ μ κ) (c : τ) (request : Request μ κ) : Pc → State τ μ κ
  | .testStarted => s.goto c (some (request, if s.started then .use else .startBackend))
  | .startBackend =>
    { s with startCalls := s.startCalls + 1 }.goto c (some (request, .startReturn))
  | .startReturn =>
    { s with startReturns := s.startReturns + 1 }.goto c (some (request, .setStarted))
  | .setStarted => { s with started := true }.goto c (some (request, .use))
  | .use => { s with uses := s.uses ++ [(request, decide (0 < s.startReturns))] }.goto c none

/-- One step of one caller. -/
def step (s : State τ μ κ) : Action τ μ κ → Option (State τ μ κ)
  | .call c request =>
    if (s.calls c).isNone then some (s.goto c (some (request, .testStarted))) else none
  | .advance c => (s.calls c).map fun (request, pc) ↦ advance s c request pc

/-- The backend is started at most once, exactly once as soon as it is used, and every use
comes after its `start` has returned. -/
def StartedOnce (s : State τ μ κ) : Prop :=
  s.startCalls ≤ 1 ∧ ∀ use ∈ s.uses, use.2 = true ∧ s.startCalls = 1

/-- The call has found the transport not started and has not yet set `_started`. -/
def Pc.Opening : Pc → Prop
  | .startBackend => True
  | .startReturn => True
  | .setStarted => True
  | _ => False

instance : DecidablePred Pc.Opening
  | .startBackend | .startReturn | .setStarted => isTrue trivial
  | .testStarted | .use => isFalse id

/-- No call tests `_started` while another one is on its way to set it. -/
def Undisturbed (s : State τ μ κ) : Action τ μ κ → Prop
  | .call _ _ => True
  | .advance c => ∀ request, s.calls c = some (request, .testStarted) →
      ∀ d other pc, s.calls d = some (other, pc) → ¬ pc.Opening

instance [Fintype τ] (s : State τ μ κ) : ∀ a, Decidable (Undisturbed s a)
  | .call _ _ => isTrue trivial
  | .advance c => decidable_of_iff (∀ call ∈ s.calls c, call.2 = .testStarted →
      ∀ d, ∀ other ∈ s.calls d, ¬ other.2.Opening) (by
        simp only [Undisturbed, Option.mem_def, Prod.forall]
        exact ⟨fun h request hc ↦ h request _ hc rfl, fun h request pc hc hpc ↦ h request (hpc ▸ hc)⟩)

/-- What the backend has seen of the call that is opening the transport. -/
def Pc.counts : Pc → ℕ × ℕ
  | .startReturn => (1, 0)
  | .setStarted => (1, 1)
  | _ => (0, 0)

/-- The states of an undisturbed run: nobody has passed the test, one call is opening the
transport while all others wait at the test, or the transport is open. -/
inductive Inv (s : State τ μ κ) : Prop where
  | fresh (hflag : s.started = false) (hcounts : (s.startCalls, s.startReturns) = (0, 0))
      (hcalls : Placed s.calls fun _ pc ↦ pc = .testStarted) (huses : s.uses = [])
  | opening (c : τ) (request : Request μ κ) (pc : Pc) (hc : s.calls c = some (request, pc))
      (hpc : pc.Opening) (hflag : s.started = false)
      (hcounts : (s.startCalls, s.startReturns) = pc.counts)
      (hcalls : Placed s.calls fun d pc ↦ d ≠ c → pc = .testStarted) (huses : s.uses = [])
  | opened (hflag : s.started = true) (hcounts : (s.startCalls, s.startReturns) = (1, 1))
      (hcalls : Placed s.calls fun _ pc ↦ ¬ pc.Opening) (huses : ∀ use ∈ s.uses, use.2 = true)

omit [DecidableEq τ] in
/-- Nobody has called yet. -/
theorem inv_init : Inv ({} : State τ μ κ) :=
  .fresh rfl rfl (placed_none _) rfl

/-- A caller enters at the test. -/
theorem Inv.call {s : State τ μ κ} {c : τ} (h : Inv s) (request : Request μ κ)
    (hc : s.calls c = none) : Inv (s.goto c (some (request, .testStarted))) := by
  cases h with
  | fresh hflag hcounts hcalls huses =>
    exact .fresh hflag hcounts (hcalls.move rfl) huses
  | opening o r pc ho hpc hflag hcounts hcalls huses =>
    exact .opening o r pc (calls_of_ne hc ho) hpc hflag hcounts (hcalls.move fun _ ↦ rfl) huses
  | opened hflag hcounts hcalls huses =>
    exact .opened hflag hcounts (hcalls.move fun h ↦ h) huses

/-- The statement after the one of a call that is opening the transport. -/
theorem Inv.open {s : State τ μ κ} {c : τ} {request : Request μ κ} {pc : Pc}
    (hpc : pc.Opening) (hflag : s.started = false)
    (hcounts : (s.startCalls, s.startReturns) = pc.counts)
    (hcalls : Placed s.calls fun d pc ↦ d ≠ c → pc = .testStarted) (huses : s.uses = []) :
    Inv (advance s c request pc) := by
  cases pc with
  | startBackend =>
    obtain ⟨hstarts, hreturns⟩ := Prod.mk.inj hcounts
    exact .opening c request .startReturn (Function.update_self ..) trivial hflag
      (Prod.ext (congrArg (· + 1) hstarts) hreturns) (hcalls.move fun h ↦ absurd rfl h) huses
  | startReturn =>
    obtain ⟨hstarts, hreturns⟩ := Prod.mk.inj hcounts
    exact .opening c request .setStarted (Function.update_self ..) trivial hflag
      (Prod.ext hstarts (congrArg (· + 1) hreturns)) (hcalls.move fun h ↦ absurd rfl h) huses
  | setStarted =>
    have hclosed : Placed s.calls fun d pc ↦ d ≠ c → ¬ pc.Opening :=
      hcalls.mono fun _ _ h hdc hopen ↦ by rw [h hdc] at hopen; exact hopen
    exact .opened rfl hcounts (hclosed.settle request fun h ↦ h)
      (by simp [State.goto, advance, huses])
  | testStarted => exact hpc.elim
  | use => exact hpc.elim

/-- An undisturbed statement of one caller. -/
theorem Inv.advance {s : State τ μ κ} {c : τ} {request : Request μ κ} {pc : Pc} (h : Inv s)
    (hok : Undisturbed s (.advance c)) (hc : s.calls c = some (request, pc)) :
    Inv (advance s c request pc) := by
  cases h with
  | fresh hflag hcounts hcalls huses =>
    obtain rfl : pc = .testStarted := hcalls c request pc hc
    have hothers : Placed s.calls fun d pc ↦ d ≠ c → pc = .testStarted :=
      hcalls.mono fun _ _ h _ ↦ h
    simp only [PubSubTransport.advance, hflag]
    exact .opening c request .startBackend (Function.update_self ..) trivial hflag hcounts
      (hothers.move fun h ↦ absurd rfl h) huses
  | opening o r opc ho hopc hflag hcounts hcalls huses =>
    by_cases hco : c = o
    · subst hco
      cases hc.symm.trans ho
      exact Inv.open hopc hflag hcounts hcalls huses
    · -- the caller is at the test, which the condition forbids while `o` is opening
      obtain rfl : pc = .testStarted := hcalls c request pc hc hco
      exact absurd hopc (hok request hc o r opc ho)
  | opened hflag hcounts hcalls huses =>
    have hpc : ¬ pc.Opening := hcalls c request pc hc
    cases pc with
    | testStarted =>
      simp only [PubSubTransport.advance, hflag]
      exact .opened hflag hcounts (hcalls.move fun h ↦ h) huses
    | use =>
      refine .opened hflag hcounts (hcalls.leave c) ?_
      intro use huse
      rcases List.mem_append.mp huse with hold | hnew
      · exact huses use hold
      · obtain rfl := List.mem_singleton.mp hnew
        obtain ⟨-, hreturns⟩ := Prod.mk.inj hcounts
        simp [hreturns]
    | startBackend => exact absurd trivial hpc
    | startReturn => exact absurd trivial hpc
    | setStarted => exact absurd trivial hpc

/-- Every undisturbed step keeps the invariant. -/
theorem inv_step (s : State τ μ κ) (a : Action τ μ κ) (s' : State τ μ κ) (h : Inv s)
    (hok : Undisturbed s a) (hs : step s a = some s') : Inv s' := by
  cases a with
  | call c request =>
    simp only [step] at hs
    split at hs
    · next hnone =>
      cases hs
      exact h.call request (Option.isNone_iff_eq_none.mp hnone)
    · contradiction
  | advance c =>
    obtain ⟨⟨request, pc⟩, hc, rfl⟩ := Option.map_eq_some_iff.mp hs
    exact h.advance hok hc

omit [DecidableEq τ] in
/-- The invariant starts the backend once and before its uses. -/
theorem Inv.startedOnce {s : State τ μ κ} (h : Inv s) : StartedOnce s := by
  cases h with
  | fresh hflag hcounts hcalls huses =>
    obtain ⟨hstarts, -⟩ := Prod.mk.inj hcounts
    exact ⟨by omega, by simp [huses]⟩
  | opening c request pc hc hpc hflag hcounts hcalls huses =>
    obtain ⟨hstarts, -⟩ := Prod.mk.inj hcounts
    constructor
    · cases pc <;> simp [hstarts]
    · simp [huses]
  | opened hflag hcounts hcalls huses =>
    obtain ⟨hstarts, -⟩ := Prod.mk.inj hcounts
    exact ⟨by omega, fun use huse ↦ ⟨huses use huse, hstarts⟩⟩

/-- The base transport starts its backend once and before every use in every run in which no
call tests `_started` while another one is starting the backend. -/
theorem startedOnce_of_undisturbed {actions : List (Action τ μ κ)}
    (hok : AllSteps step Undisturbed ({} : State τ μ κ) actions) :
    AllStates step StartedOnce {} actions :=
  hok.allStates inv_init inv_step fun _ h ↦ h.startedOnce

end PubSubTransport

end HzjDds.Transport
