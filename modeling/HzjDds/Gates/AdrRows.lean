import HzjDds.Gates.CegaBridge
import HzjDds.Gates.Soundness

/-!
# Every row of the decision record

Source: `scripts/check_cega_bridge_hold.py:70–81,144–159`. The gate looks at the first row of item
(4); a decision record may have several.
-/

namespace HzjDds.Gates.CegaBridge

open Python Regex

/-- Status cell of a matched row. -/
def cellOf (row : Match) : List Char := (row.groups.lookup 1).getD []

/-- A row of item (4) that begins at a position of the text, with its status cell. -/
def AdrRow (text : String) (i : ℕ) (cell : List Char) : Prop :=
  ∃ row, matchAt adrRowRe text.toList i = some row ∧ cellOf row = cell

/-- A status cell begins with `**Hold**`, and no positive verdict stands in it. -/
structure CellHolds (w : WordClass) (cell : List Char) : Prop where
  hold : startsWith (lstrip (.ofList cell)) "**Hold**" = true
  noVerdict : ∀ i, ¬ MatchesAt (cellPositiveRe w) cell i

/-- The first row of a text. -/
def FirstRow (text : String) (i : ℕ) (cell : List Char) : Prop :=
  AdrRow text i cell ∧ ∀ j < i, ∀ other, ¬ AdrRow text j other

/-- A row begins where the pattern matches. -/
theorem matchesAt_iff (text : String) (i : ℕ) :
    MatchesAt adrRowRe text.toList i ↔ ∃ cell, AdrRow text i cell := by
  rw [MatchesAt, Option.ne_none_iff_exists']
  constructor
  · rintro ⟨row, hrow⟩
    exact ⟨cellOf row, row, hrow, rfl⟩
  · rintro ⟨cell, row, hrow, rfl⟩
    exact ⟨row, hrow⟩

private theorem search_isNone_iff (r : Regex) (cell : List Char) :
    (search r cell).isNone = true ↔ ∀ i, ¬ MatchesAt r cell i := by
  cases hsearch : search r cell with
  | none => exact iff_of_true rfl (search_eq_none hsearch)
  | some m =>
    obtain ⟨-, hmatch, -⟩ := search_eq_some hsearch
    exact iff_of_false (by simp) fun hnone ↦ hnone m.start (matchesAt_of_matchAt hmatch)

/-- The cell that `_adr_row_cell` reads is that of the first row. -/
theorem adrRowCell_eq_some_iff (text : String) (cell : List Char) :
    adrRowCell text = some (.ofList cell) ↔ ∃ i, FirstRow text i cell := by
  unfold adrRowCell
  cases hsearch : search adrRowRe text.toList with
  | none =>
    refine iff_of_false (by simp) ?_
    rintro ⟨i, hrow, -⟩
    exact search_eq_none hsearch i ((matchesAt_iff text i).mpr ⟨cell, hrow⟩)
  | some row =>
    obtain ⟨-, hmatch, hfirst⟩ := search_eq_some hsearch
    have hbefore : ∀ j < row.start, ∀ other, ¬ AdrRow text j other := fun j hj other hother ↦
      hfirst j hj ((matchesAt_iff text j).mpr ⟨other, hother⟩)
    rw [Option.map_some, Option.some.injEq, String.ofList_inj]
    constructor
    · rintro rfl
      exact ⟨row.start, ⟨row, hmatch, rfl⟩, hbefore⟩
    · rintro ⟨i, hrow, hnone⟩
      have hsame : i = row.start := by
        rcases Nat.lt_trichotomy i row.start with hless | hsame | hmore
        · exact absurd hrow (hbefore i hless cell)
        · exact hsame
        · exact absurd ⟨row, hmatch, rfl⟩ (hnone row.start hmore (cellOf row))
      obtain ⟨other, hother, rfl⟩ := hrow
      rw [hsame, hmatch] at hother
      cases hother
      rfl

/-- The gate accepts a text exactly when its first row holds. -/
theorem adrRowOk_iff (w : WordClass) (text : String) :
    adrRowOk w text = true ↔ ∃ i cell, FirstRow text i cell ∧ CellHolds w cell := by
  have hcell : ∀ cell, adrRowCell text = some (.ofList cell) →
      (adrRowOk w text = true ↔ CellHolds w cell) := by
    intro cell hcell
    rw [adrRowOk, hcell, Bool.and_eq_true, String.toList_ofList, search_isNone_iff]
    exact ⟨fun h ↦ ⟨h.1, h.2⟩, fun h ↦ ⟨h.hold, h.noVerdict⟩⟩
  constructor
  · intro hok
    cases hread : adrRowCell text with
    | none => simp [adrRowOk, hread] at hok
    | some cell =>
      rw [← String.ofList_toList (s := cell)] at hread
      obtain ⟨i, hfirst⟩ := (adrRowCell_eq_some_iff text _).mp hread
      exact ⟨i, _, hfirst, (hcell _ hread).mp hok⟩
  · rintro ⟨i, cell, hfirst, hholds⟩
    exact (hcell cell ((adrRowCell_eq_some_iff text cell).mpr ⟨i, hfirst⟩)).mpr hholds

/-- What the gate accepts holds in every row exactly when, below a first row that holds, no row
says otherwise. -/
theorem adrRows_hold_iff (w : WordClass) (text : String) :
    (adrRowOk w text = true → ∀ i cell, AdrRow text i cell → CellHolds w cell) ↔
      ∀ i first, FirstRow text i first → CellHolds w first →
        ∀ j cell, i < j → AdrRow text j cell → CellHolds w cell := by
  rw [adrRowOk_iff]
  constructor
  · intro hsound i first hfirst hholds j cell _ hrow
    exact hsound ⟨i, first, hfirst, hholds⟩ j cell hrow
  · rintro hlater ⟨i, first, hfirst, hholds⟩ j cell hrow
    rcases Nat.lt_trichotomy j i with hless | rfl | hmore
    · exact absurd hrow (hfirst.2 j hless cell)
    · obtain ⟨⟨row, hmatch, rfl⟩, -⟩ := hfirst
      obtain ⟨other, hother, rfl⟩ := hrow
      rw [hmatch] at hother
      cases hother
      exact hholds
    · exact hlater i first hfirst hholds j cell hmore hrow

/-- A row that holds, and one that contradicts it. -/
def twoRows : String :=
  "| (4) | Cega / Bridge 后置 | **Hold** |\n| (4) | Cega / Bridge 后置 | **PASS** |"

/-- The second row passes the gate. -/
theorem second_row_passes : adrRowOk asciiWords twoRows = true ∧
    AdrRow twoRows 38 "**PASS**".toList ∧ ¬ CellHolds asciiWords "**PASS**".toList := by
  refine ⟨by decide +kernel, ?_, fun hholds ↦ absurd hholds.hold (by decide +kernel)⟩
  have hcell : (matchAt adrRowRe twoRows.toList 38).map cellOf = some "**PASS**".toList := by
    decide +kernel
  obtain ⟨row, hrow, hcell⟩ := Option.map_eq_some_iff.mp hcell
  exact ⟨row, hrow, hcell⟩

end HzjDds.Gates.CegaBridge
