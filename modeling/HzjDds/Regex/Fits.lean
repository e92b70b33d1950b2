import HzjDds.Regex.Search
import Mathlib.Data.List.Forall2

/-!
# Matches between two texts

Library `Regex`. `Fits` says which text an expression matches between two others, its tests of what
is around included. The matcher finds exactly these matches.
-/

namespace HzjDds.Regex

/-- A text is a match of an expression between the text before it, last character first, and the
text after it. -/
def Fits : Regex → List Char → List Char → List Char → Prop
  | empty, _, s, _ => s = []
  | char p, _, s, _ => ∃ x, s = [x] ∧ p x = true
  | seq r t, before, s, rest =>
    ∃ a b, s = a ++ b ∧ Fits r before a (b ++ rest) ∧ Fits t (a.reverse ++ before) b rest
  | alt r t, before, s, rest => Fits r before s rest ∨ Fits t before s rest
  | many _ least most p, _, s, _ => least ≤ s.length ∧ (∀ n, most = some n → s.length ≤ n) ∧
      ∀ x ∈ s, p x = true
  | look test, before, s, rest => s = [] ∧ test before rest = true
  | group _ r, before, s, rest => Fits r before s rest

section

variable {r t : Regex} {rs : List Regex} {before s rest a b : List Char} {c c' : Cursor}
  {p : Char → Bool}

/-- What fits is a text of the expression. -/
theorem Fits.lang (h : Fits r before s rest) : Lang r s := by
  induction r generalizing before s rest with
  | empty => exact h
  | char p => exact h
  | seq r t ihr iht =>
    obtain ⟨a, b, rfl, ha, hb⟩ := h
    exact ⟨a, b, rfl, ihr ha, iht hb⟩
  | alt r t ihr iht =>
    rcases h with h | h
    · exact Or.inl (ihr h)
    · exact Or.inr (iht h)
  | many greedy least most p => exact h
  | look test => exact h.1
  | group i r ih => exact ih h

private theorem mem_counts_of {greedy : Bool} {least : ℕ} {most : Option ℕ} {n : ℕ} (hleast : least ≤ n)
    (hmost : ∀ k, most = some k → n ≤ k) (hrun : n ≤ (s.takeWhile p).length) :
    n ∈ counts greedy least most p s := by
  have hmem : n ∈ (List.range (most.elim (s.takeWhile p).length
      (min (s.takeWhile p).length) + 1)).filter (least ≤ ·) := by
    apply List.mem_filter.mpr
    refine ⟨List.mem_range.mpr ?_, decide_eq_true hleast⟩
    cases most with
    | none => exact Nat.lt_succ_of_le hrun
    | some k => exact Nat.lt_succ_of_le (le_min hrun (hmost k rfl))
  unfold counts
  cases greedy with
  | true => exact List.mem_reverse.mpr hmem
  | false => exact hmem

/-- A match that the matcher finds fits. -/
theorem fits_of_ends (h : c' ∈ ends r c) : ∃ s, c.after = s ++ c'.after ∧
    c'.before = s.reverse ++ c.before ∧ Fits r c.before s c'.after := by
  induction r generalizing c c' with
  | seq r t ihr iht =>
    obtain ⟨m, hm, hc'⟩ := List.mem_flatMap.mp h
    obtain ⟨a, hafter, hbefore, ha⟩ := ihr hm
    obtain ⟨b, hafter', hbefore', hb⟩ := iht hc'
    refine ⟨a ++ b, ?_, ?_, a, b, rfl, hafter' ▸ ha, hbefore ▸ hb⟩
    · rw [hafter, hafter', List.append_assoc]
    · rw [hbefore', hbefore, List.reverse_append, List.append_assoc]
  | alt r t ihr iht =>
    rcases List.mem_append.mp h with h | h
    · obtain ⟨s, hafter, hbefore, hs⟩ := ihr h
      exact ⟨s, hafter, hbefore, Or.inl hs⟩
    · obtain ⟨s, hafter, hbefore, hs⟩ := iht h
      exact ⟨s, hafter, hbefore, Or.inr hs⟩
  | look test =>
    rw [ends] at h
    split at h
    · next htest =>
      obtain rfl := List.mem_singleton.mp h
      exact ⟨[], rfl, rfl, rfl, htest⟩
    · contradiction
  | group i r ih =>
    obtain ⟨m, hm, rfl⟩ := List.mem_map.mp h
    obtain ⟨s, hafter, hbefore, hs⟩ := ih hm
    exact ⟨s, hafter, hbefore, hs⟩
  | empty | char p | many greedy least most p =>
    obtain ⟨s, hlang, hafter, hbefore⟩ := ends_sound h
    exact ⟨s, hafter, hbefore, hlang⟩

/-- The matcher finds every match that fits. -/
theorem exists_ends_of_fits (h : Fits r c.before s rest) (hafter : c.after = s ++ rest) :
    ∃ c' ∈ ends r c, c'.before = s.reverse ++ c.before ∧ c'.after = rest := by
  induction r generalizing c s rest with
  | empty =>
    obtain rfl : s = [] := h
    exact ⟨c, List.mem_singleton_self c, rfl, hafter⟩
  | char p =>
    obtain ⟨x, rfl, hx⟩ := h
    refine ⟨c.advance 1, ?_, ?_, ?_⟩
    · rw [ends, hafter, List.singleton_append]
      dsimp only
      rw [if_pos hx]
      exact List.mem_singleton_self _
    · simp [Cursor.advance, hafter]
    · simp [Cursor.advance, hafter]
  | seq r t ihr iht =>
    obtain ⟨a, b, rfl, ha, hb⟩ := h
    rw [List.append_assoc] at hafter
    obtain ⟨m, hm, hbefore, hmafter⟩ := ihr ha hafter
    obtain ⟨c', hc', hbefore', hafter'⟩ := iht (hbefore ▸ hb) hmafter
    refine ⟨c', List.mem_flatMap.mpr ⟨m, hm, hc'⟩, ?_, hafter'⟩
    rw [hbefore', hbefore, List.reverse_append, List.append_assoc]
  | alt r t ihr iht =>
    rcases h with h | h
    · obtain ⟨c', hc', hrest⟩ := ihr h hafter
      exact ⟨c', List.mem_append_left _ hc', hrest⟩
    · obtain ⟨c', hc', hrest⟩ := iht h hafter
      exact ⟨c', List.mem_append_right _ hc', hrest⟩
  | many greedy least most p =>
    obtain ⟨hleast, hmost, hall⟩ := h
    refine ⟨c.advance s.length, List.mem_map.mpr ⟨s.length, ?_, rfl⟩, ?_, ?_⟩
    · apply mem_counts_of hleast hmost
      rw [hafter, List.takeWhile_append_of_pos hall, List.length_append]
      exact Nat.le_add_right _ _
    · simp [Cursor.advance, hafter]
    · simp [Cursor.advance, hafter]
  | look test =>
    obtain ⟨rfl, htest⟩ := h
    refine ⟨c, ?_, rfl, hafter⟩
    have hrest : c.after = rest := hafter
    rw [ends, hrest, if_pos htest]
    exact List.mem_singleton_self c
  | group i r ih =>
    obtain ⟨m, hm, hrest⟩ := ih h hafter
    exact ⟨_, List.mem_map_of_mem hm, hrest⟩

/-- A reported match fits. -/
theorem fits_of_matchAt {text : List Char} {i : ℕ} {m : Match} (h : matchAt r text i = some m) :
    Fits r m.before m.text m.after := by
  obtain ⟨c, hc, rfl⟩ := Option.map_eq_some_iff.mp h
  obtain ⟨s, hafter, -, hs⟩ := fits_of_ends (List.mem_of_mem_head? hc)
  have htext : (text.drop i).take ((text.drop i).length - c.after.length) = s := by
    change text.drop i = s ++ c.after at hafter
    rw [hafter, List.length_append, Nat.add_sub_cancel]
    exact List.take_left
  exact htext.symm ▸ hs

/-- A match begins at a position exactly if some text fits there. -/
theorem matchesAt_append_iff :
    MatchesAt r (before ++ rest) before.length ↔
      ∃ s after, rest = s ++ after ∧ Fits r before.reverse s after := by
  rw [MatchesAt, matchAt, List.take_left, List.drop_left, matchBetween]
  constructor
  · intro h
    obtain ⟨m, hm⟩ := Option.ne_none_iff_exists'.mp h
    obtain ⟨c, hc, -⟩ := Option.map_eq_some_iff.mp hm
    obtain ⟨s, hafter, -, hs⟩ := fits_of_ends (List.mem_of_mem_head? hc)
    exact ⟨s, c.after, hafter, hs⟩
  · rintro ⟨s, after, rfl, hs⟩ hnone
    obtain ⟨c', hc', -⟩ := exists_ends_of_fits (c := ⟨before.reverse, s ++ after, []⟩) hs rfl
    rw [Option.map_eq_none_iff, List.head?_eq_none_iff] at hnone
    rw [hnone] at hc'
    exact List.not_mem_nil hc'

/-! ## Groups -/

/-- An expression has no groups. -/
def groupFree : Regex → Bool
  | seq r s => groupFree r && groupFree s
  | alt r s => groupFree r && groupFree s
  | group _ _ => false
  | _ => true

/-- An expression without groups leaves the groups as they are. -/
theorem groups_of_ends (h : c' ∈ ends r c) (hr : groupFree r = true) : c'.groups = c.groups := by
  induction r generalizing c c' with
  | empty =>
    obtain rfl := List.mem_singleton.mp h
    rfl
  | char p =>
    rw [ends] at h
    split at h
    · contradiction
    · split at h
      · obtain rfl := List.mem_singleton.mp h
        rfl
      · contradiction
  | seq r t ihr iht =>
    obtain ⟨m, hm, hc'⟩ := List.mem_flatMap.mp h
    obtain ⟨hfree, hfree'⟩ := Bool.and_eq_true_iff.mp hr
    rw [iht hc' hfree', ihr hm hfree]
  | alt r t ihr iht =>
    obtain ⟨hfree, hfree'⟩ := Bool.and_eq_true_iff.mp hr
    rcases List.mem_append.mp h with h | h
    · exact ihr h hfree
    · exact iht h hfree'
  | many greedy least most p =>
    obtain ⟨n, -, rfl⟩ := List.mem_map.mp h
    rfl
  | look test =>
    rw [ends] at h
    split at h
    · obtain rfl := List.mem_singleton.mp h
      rfl
    · contradiction
  | group i r => contradiction

/-- A literal text has no groups. -/
theorem groupFree_literal (t : String) : groupFree (literal t) = true := by
  rw [literal]
  induction t.toList with
  | nil => rfl
  | cons x s ih => exact ih

/-- A group has the text of its match. -/
theorem exists_of_ends_group {i : ℕ} (h : c' ∈ ends (group i r) c) : ∃ s,
    c.after = s ++ c'.after ∧ c'.before = s.reverse ++ c.before ∧ Fits r c.before s c'.after ∧
      ∃ m ∈ ends r c, c'.groups = (i, s) :: m.groups := by
  obtain ⟨m, hm, rfl⟩ := List.mem_map.mp h
  obtain ⟨s, hafter, hbefore, hs⟩ := fits_of_ends hm
  refine ⟨s, hafter, hbefore, hs, m, hm, ?_⟩
  dsimp only
  rw [hafter, List.length_append, Nat.add_sub_cancel, List.take_left]

/-! ## Derived expressions -/

private theorem fits_cat_cons : Fits (cat (r :: rs)) before s rest ↔
    ∃ a b, s = a ++ b ∧ Fits r before a (b ++ rest) ∧
      Fits (cat rs) (a.reverse ++ before) b rest := Iff.rfl

/-- An alternative fits if one of its expressions does. -/
theorem fits_oneOf : Fits (oneOf rs) before s rest ↔ ∃ r ∈ rs, Fits r before s rest := by
  induction rs with
  | nil => simp [oneOf, Fits]
  | cons r rs ih =>
    cases rs with
    | nil => simp [oneOf]
    | cons t rs =>
      rw [oneOf, Fits, ih, List.exists_mem_cons_iff (l := t :: rs)]
      simp

private theorem fits_chars {α : Type*} {f : α → Char → Bool} {cs : List α} :
    Fits (cat (cs.map fun d ↦ char (f d))) before s rest ↔
      List.Forall₂ (fun d x ↦ f d x = true) cs s := by
  induction cs generalizing before s with
  | nil =>
    rw [List.forall₂_nil_left_iff]
    exact Iff.rfl
  | cons d cs ih =>
    rw [List.map_cons, fits_cat_cons, List.forall₂_cons_left_iff]
    constructor
    · rintro ⟨_, b, rfl, ⟨x, rfl, hx⟩, hb⟩
      exact ⟨x, b, hx, ih.mp hb, rfl⟩
    · rintro ⟨x, b, hx, hb, rfl⟩
      exact ⟨[x], b, rfl, ⟨x, rfl, hx⟩, ih.mpr hb⟩

/-- A literal text fits itself. -/
theorem fits_literal {t : String} : Fits (literal t) before s rest ↔ s = t.toList := by
  rw [literal, fits_chars]
  constructor
  · intro h
    generalize t.toList = cs at h
    induction h with
    | nil => rfl
    | cons hx _ ih => rw [ih, beq_iff_eq.mp hx]
  · rintro rfl
    exact List.forall₂_same.mpr fun x _ ↦ beq_self_eq_true x

/-- A literal text in any case fits what is the same but for the case. -/
theorem fits_literalCI {t : String} :
    Fits (literalCI t) before s rest ↔ s.map foldCase = t.toList.map foldCase := by
  rw [literalCI, fits_chars]
  generalize t.toList = cs
  induction cs generalizing s with
  | nil => simp
  | cons d cs ih =>
    cases s with
    | nil => simp
    | cons x s => rw [List.forall₂_cons, ih, beq_iff_eq, List.map_cons, List.map_cons,
        List.cons.injEq]

end

end HzjDds.Regex
