import Mathlib.Logic.Function.Basic

/-!
# Concurrent calls

Library `Transition`. The calls in progress of a component that many callers share: for
each caller nothing, or the arguments of its call and its next statement. A condition on
the places of all calls is kept when one caller moves to a place that meets it.
-/

namespace HzjDds.Transition

universe u v w

variable {τ : Type u} {ι : Type v} {π : Type w}

/-- Every call in progress meets a condition on its caller, its arguments and its place. -/
def EachCall (calls : τ → Option (ι × π)) (P : τ → ι → π → Prop) : Prop :=
  ∀ c input pc, calls c = some (input, pc) → P c input pc

/-- Without calls there is nothing to meet. -/
theorem eachCall_none (P : τ → ι → π → Prop) : EachCall (fun _ ↦ none) P :=
  fun _ _ _ h ↦ by contradiction

/-- Weaker conditions are met too. -/
theorem EachCall.mono {calls : τ → Option (ι × π)} {P Q : τ → ι → π → Prop}
    (h : EachCall calls P) (hPQ : ∀ c input pc, P c input pc → Q c input pc) :
    EachCall calls Q := fun c input pc hc ↦ hPQ c input pc (h c input pc hc)

/-- Every call in progress is at a statement that fits its caller. -/
def Placed (calls : τ → Option (ι × π)) (P : τ → π → Prop) : Prop :=
  ∀ c input pc, calls c = some (input, pc) → P c pc

/-- Without calls nobody is out of place. -/
theorem placed_none (P : τ → π → Prop) : Placed (fun _ ↦ none : τ → Option (ι × π)) P :=
  eachCall_none fun c _ pc ↦ P c pc

/-- Weaker expectations are met too. -/
theorem Placed.mono {calls : τ → Option (ι × π)} {P Q : τ → π → Prop} (h : Placed calls P)
    (hPQ : ∀ c pc, P c pc → Q c pc) : Placed calls Q := EachCall.mono h fun c _ pc ↦ hPQ c pc

variable [DecidableEq τ]

/-- Once the others meet the condition, moving one caller to a place that does settles all. -/
theorem EachCall.settle {calls : τ → Option (ι × π)} {P : τ → ι → π → Prop} {c : τ} {input : ι}
    {pc : π} (h : EachCall calls fun d other place ↦ d ≠ c → P d other place)
    (hc : P c input pc) : EachCall (Function.update calls c (some (input, pc))) P := by
  intro d other place hd
  by_cases hdc : d = c
  · subst hdc
    cases (Function.update_self ..).symm.trans hd
    exact hc
  · rw [Function.update_of_ne hdc] at hd
    exact h d other place hd hdc

/-- A call that is over asks nothing, and leaves the others to be met. -/
theorem EachCall.leave {calls : τ → Option (ι × π)} {P : τ → ι → π → Prop} {c : τ}
    (h : EachCall calls fun d other place ↦ d ≠ c → P d other place) :
    EachCall (Function.update calls c none) P := by
  intro d other place hd
  by_cases hdc : d = c
  · subst hdc
    cases (Function.update_self ..).symm.trans hd
  · rw [Function.update_of_ne hdc] at hd
    exact h d other place hd hdc

/-- Once the others fit, moving one caller to a place that fits settles all of them. -/
theorem Placed.settle {calls : τ → Option (ι × π)} {P : τ → π → Prop} {c : τ} {pc : π}
    (h : Placed calls fun d place ↦ d ≠ c → P d place) (input : ι) (hc : P c pc) :
    Placed (Function.update calls c (some (input, pc))) P :=
  EachCall.settle h hc

/-- Moving one caller asks only about the place it moves to. -/
theorem Placed.move {calls : τ → Option (ι × π)} {P : τ → π → Prop} (h : Placed calls P) {c : τ}
    {input : ι} {pc : π} (hc : P c pc) :
    Placed (Function.update calls c (some (input, pc))) P :=
  Placed.settle (fun d other place hd _ ↦ h d other place hd) input hc

/-- A call that is over asks nothing. -/
theorem Placed.leave {calls : τ → Option (ι × π)} {P : τ → π → Prop} (h : Placed calls P)
    (c : τ) : Placed (Function.update calls c none) P :=
  EachCall.leave fun d other place hd _ ↦ h d other place hd

/-- Moving a caller leaves the others where they are. -/
theorem calls_of_ne {calls : τ → Option (ι × π)} {c d : τ} {call : Option (ι × π)} {input : ι}
    {pc : π} (hc : calls c = none) (hd : calls d = some (input, pc)) :
    Function.update calls c call d = some (input, pc) := by
  have hdc : d ≠ c := by
    rintro rfl
    rw [hc] at hd
    contradiction
  rwa [Function.update_of_ne hdc]

end HzjDds.Transition
