import Mathlib.Data.List.Forall2
import Mathlib.Logic.Basic

/-!
# Calls that return or raise

Library `Python`. A call returns a value or raises an exception; `except` catches the exceptions of
one class and lets the others pass.
-/

namespace HzjDds.Python

/-- Exceptions, by the classes that programs catch. -/
inductive Raised where
  | osError (message : String)
  | calledProcessError (message : String)
  | timeoutExpired
  | unicodeDecodeError
  | other (message : String)
  deriving DecidableEq, Repr

/-- What a call returns, or the exception that it raises. -/
abbrev Call (α : Type) := Except Raised α

/-- A call returns. -/
def Call.Returns {α : Type} (c : Call α) : Prop := ∃ a, c = .ok a

/-- What a look at the file system answers, or the text of the `OSError` that it raises. -/
abbrev Look (α : Type) := Except String α

/-- A look is a call. -/
def Look.call {α : Type} (l : Look α) : Call α := l.mapError .osError

namespace Call

section

variable {α β : Type} {c : Call α} {f : α → Call β} {a : α} {b : β}

@[simp] theorem returns_ok : Returns (.ok a) := ⟨a, rfl⟩

@[simp] theorem not_returns_error {e : Raised} : ¬ Returns (.error e : Call α) := fun ⟨_, h⟩ ↦ by
  cases h

/-- Calls one after the other return if the first one does, and the second one after it. -/
theorem returns_bind : Returns (c >>= f) ↔ ∃ a, c = .ok a ∧ Returns (f a) := by
  constructor
  · intro h
    cases c with
    | error e => exact absurd h not_returns_error
    | ok a => exact ⟨a, rfl, h⟩
  · rintro ⟨a, rfl, h⟩
    exact h

/-- What calls one after the other return, whatever they raise. -/
theorem bind_eq_ok {ε : Type} {c : Except ε α} {f : α → Except ε β} :
    (c >>= f) = .ok b ↔ ∃ a, c = .ok a ∧ f a = .ok b := by
  constructor
  · intro h
    cases c with
    | error e => cases h
    | ok a => exact ⟨a, rfl, h⟩
  · rintro ⟨a, rfl, h⟩
    exact h

/-- A look returns if it answers. -/
theorem call_eq_ok {l : Look α} : l.call = .ok a ↔ l = .ok a := by
  cases l with
  | error message => exact iff_of_false (fun h ↦ by cases h) fun h ↦ by cases h
  | ok a' =>
    show Except.ok a' = .ok a ↔ Except.ok a' = .ok a
    rw [Except.ok.injEq, Except.ok.injEq]

end

end Call

private theorem mapM_eq_ok {ε α β : Type} {f : α → Except ε β} {as : List α} {bs : List β} :
    as.mapM f = .ok bs ↔ List.Forall₂ (fun a b ↦ f a = .ok b) as bs := by
  induction as generalizing bs with
  | nil =>
    rw [List.mapM_nil, List.forall₂_nil_left_iff]
    show Except.ok [] = Except.ok bs ↔ bs = []
    rw [Except.ok.injEq, eq_comm]
  | cons a as ih =>
    rw [List.mapM_cons, Call.bind_eq_ok, List.forall₂_cons_left_iff]
    constructor
    · rintro ⟨b, hb, hrest⟩
      obtain ⟨rest, hmap, hbs⟩ := Call.bind_eq_ok.mp hrest
      cases hbs
      exact ⟨b, rest, hb, ih.mp hmap, rfl⟩
    · rintro ⟨b, rest, hb, hmap, rfl⟩
      exact ⟨b, hb, Call.bind_eq_ok.mpr ⟨rest, ih.mpr hmap, rfl⟩⟩

/-- What a list of calls returns whose arguments are made in one way. -/
theorem mapM_map_ok {ε α β γ : Type} {f : α → Except ε γ} {g : β → α} {k : β → γ}
    (hf : ∀ b, f (g b) = .ok (k b)) (bs : List β) : (bs.map g).mapM f = .ok (bs.map k) := by
  rw [mapM_eq_ok, List.forall₂_map_left_iff, List.forall₂_map_right_iff, List.forall₂_same]
  exact fun b _ ↦ hf b

/-- A list of calls returns if each of them does. -/
theorem exists_mapM_eq_ok {ε α β : Type} {f : α → Except ε β} {as : List α} :
    (∃ bs, as.mapM f = .ok bs) ↔ ∀ a ∈ as, ∃ b, f a = .ok b := by
  simp only [mapM_eq_ok]
  induction as with
  | nil => simp
  | cons a as ih =>
    rw [List.forall_mem_cons, ← ih]
    constructor
    · rintro ⟨_, h⟩
      obtain ⟨b, bs, hb, hbs, -⟩ := List.forall₂_cons_left_iff.mp h
      exact ⟨⟨b, hb⟩, bs, hbs⟩
    · rintro ⟨⟨b, hb⟩, bs, hbs⟩
      exact ⟨b :: bs, .cons hb hbs⟩

/-- What each of the calls returns is in the list of what they return. -/
theorem exists_mem_of_mapM {ε α β : Type} {f : α → Except ε β} {as : List α} {bs : List β}
    (h : as.mapM f = .ok bs) {a : α} (ha : a ∈ as) : ∃ b ∈ bs, f a = .ok b := by
  rw [mapM_eq_ok] at h
  induction h with
  | nil => contradiction
  | cons hb _ ih =>
    rcases List.mem_cons.mp ha with rfl | ha
    · exact ⟨_, List.mem_cons_self, hb⟩
    · obtain ⟨b, hmem, heq⟩ := ih ha
      exact ⟨b, List.mem_cons_of_mem _ hmem, heq⟩

end HzjDds.Python
