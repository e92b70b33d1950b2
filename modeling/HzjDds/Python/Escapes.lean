import HzjDds.Python.Raises

/-!
# Calls that leave through an exception

Library `Python`. `except Exception` catches the exceptions of that class. `SystemExit` and the
other classes beside it pass.
-/

namespace HzjDds.Python

/-- An instance of `Exception`: the name of its class, and its `str` and `repr`. -/
structure Exn where
  typeName : String
  str : String
  repr : String
  deriving DecidableEq, Repr

/-- What leaves a call that does not return. -/
inductive Escape where
  | exception (exc : Exn)
  | systemExit (message : String)
  | baseException (typeName : String)
  deriving DecidableEq, Repr

/-- What a call returns, or what leaves it. -/
abbrev Ending (α : Type) := Except Escape α

/-- `except Exception` catches it. -/
def Escape.Caught : Escape → Prop
  | .exception _ => True
  | .systemExit _ => False
  | .baseException _ => False

/-- `try: … except Exception as exc: …`. -/
def tryExcept {α : Type} (body : Ending α) (handler : Exn → Ending α) : Ending α :=
  match body with
  | .error (.exception exc) => handler exc
  | ending => ending

section

variable {α : Type} {body : Ending α} {handler : Exn → Ending α} {a : α}

/-- A `try` statement returns what its body returns, or what its handler returns of the exception
that it catches. -/
theorem tryExcept_eq_ok : tryExcept body handler = .ok a ↔
    body = .ok a ∨ ∃ exc, body = .error (.exception exc) ∧ handler exc = .ok a := by
  cases body with
  | ok b => simp [tryExcept]
  | error e => cases e <;> simp [tryExcept]

end

end HzjDds.Python
