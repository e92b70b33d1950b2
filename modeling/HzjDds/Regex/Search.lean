import HzjDds.Regex.Basic
import Mathlib.Data.List.Infix

/-!
# Searching a text

Library `Regex`. The leftmost match of an expression, and the scan that takes the leftmost match,
goes on behind it and never looks inside it again. Positions are numbers of characters.
-/

namespace HzjDds.Regex

/-- A match: the text before it, last character first, its own text, the text after it, and the
texts of its groups. -/
structure Match where
  before : List Char
  text : List Char
  after : List Char
  groups : List (ℕ × List Char) := []
  deriving DecidableEq, Repr

/-- Position where a match begins. -/
def Match.start (m : Match) : ℕ := m.before.length

/-- Position behind a match. -/
def Match.stop (m : Match) : ℕ := m.before.length + m.text.length

/-- The preferred match that begins between two texts. -/
def matchBetween (r : Regex) (before after : List Char) : Option Match :=
  (ends r ⟨before, after, []⟩).head?.map fun c ↦
    ⟨before, after.take (after.length - c.after.length), c.after, c.groups⟩

/-- The leftmost match in the text after a position. -/
def searchFrom (r : Regex) : List Char → List Char → Option Match
  | before, [] => matchBetween r before []
  | before, x :: after =>
    match matchBetween r before (x :: after) with
    | some m => some m
    | none => searchFrom r (x :: before) after

/-- `re.search`. -/
def search (r : Regex) (text : List Char) : Option Match := searchFrom r [] text

/-- Matches in the text after a position, none of them beginning in the next `skip` characters. -/
def findFrom (r : Regex) : ℕ → List Char → List Char → List Match
  | _, _, [] => []
  | skip + 1, before, x :: after => findFrom r skip (x :: before) after
  | 0, before, x :: after =>
    match matchBetween r before (x :: after) with
    | some m => m :: findFrom r (m.text.length - 1) (x :: before) after
    | none => findFrom r 0 (x :: before) after

/-- `re.finditer`, for an expression that does not match the empty text. -/
def finditer (r : Regex) (text : List Char) : List Match := findFrom r 0 [] text

/-- `re.sub` with one replacement, which is made from the match. -/
def subOnce (r : Regex) (replacement : Match → List Char) (text : List Char) : List Char :=
  match search r text with
  | some m => m.before.reverse ++ replacement m ++ m.after
  | none => text

/-- The preferred match that begins at a position of a text. -/
def matchAt (r : Regex) (text : List Char) (i : ℕ) : Option Match :=
  matchBetween r (text.take i).reverse (text.drop i)

/-- Some match begins at a position of a text. -/
def MatchesAt (r : Regex) (text : List Char) (i : ℕ) : Prop := matchAt r text i ≠ none

instance (r : Regex) (text : List Char) (i : ℕ) : Decidable (MatchesAt r text i) :=
  inferInstanceAs (Decidable (matchAt r text i ≠ none))

private theorem matchBetween_spec {r : Regex} {before after : List Char} {m : Match}
    (h : matchBetween r before after = some m) :
    m.before = before ∧ after = m.text ++ m.after ∧ Lang r m.text := by
  obtain ⟨c, hc, rfl⟩ := Option.map_eq_some_iff.mp h
  obtain ⟨s, hs, hafter, -⟩ := ends_sound (List.mem_of_mem_head? hc)
  have htext : after.take (after.length - c.after.length) = s := by
    change after = s ++ c.after at hafter
    rw [hafter, List.length_append, Nat.add_sub_cancel]
    exact List.take_left
  exact ⟨rfl, htext ▸ hafter, htext ▸ hs⟩

section

variable {r : Regex} {text : List Char} {i : ℕ} {m m' : Match}

/-- A match lies in the text. -/
theorem matchAt_spec (h : matchAt r text i = some m) :
    m.before = (text.take i).reverse ∧ text.drop i = m.text ++ m.after ∧ Lang r m.text :=
  matchBetween_spec h

/-- A match that is found at a position begins there. -/
theorem matchesAt_of_matchAt (h : matchAt r text i = some m) : MatchesAt r text i := by
  rw [MatchesAt, h]
  exact Option.some_ne_none m

/-- `search` finds the leftmost match. -/
theorem searchFrom_spec (r : Regex) (before after : List Char) :
    match searchFrom r before after with
    | some m => ∃ s, after = s ++ (m.text ++ m.after) ∧ m.before = s.reverse ++ before ∧
        matchBetween r m.before (m.text ++ m.after) = some m ∧
        ∀ a b, a ++ b = s → b ≠ [] →
          matchBetween r (a.reverse ++ before) (b ++ (m.text ++ m.after)) = none
    | none => ∀ a b, a ++ b = after → matchBetween r (a.reverse ++ before) b = none := by
  induction after generalizing before with
  | nil =>
    rw [searchFrom]
    cases hm : matchBetween r before [] with
    | none =>
      intro a b hab
      obtain ⟨rfl, rfl⟩ := List.append_eq_nil_iff.mp hab
      exact hm
    | some m =>
      obtain ⟨hbefore, hafter, -⟩ := matchBetween_spec hm
      refine ⟨[], hafter, hbefore, by rw [hbefore, ← hafter, hm], ?_⟩
      intro a b hab hne
      exact absurd (List.append_eq_nil_iff.mp hab).2 hne
  | cons x after ih =>
    rw [searchFrom]
    cases hm : matchBetween r before (x :: after) with
    | some m =>
      obtain ⟨hbefore, hafter, -⟩ := matchBetween_spec hm
      refine ⟨[], hafter, hbefore, by rw [hbefore, ← hafter, hm], ?_⟩
      intro a b hab hne
      exact absurd (List.append_eq_nil_iff.mp hab).2 hne
    | none =>
      have hrest := ih (x :: before)
      dsimp only
      cases hs : searchFrom r (x :: before) after with
      | none =>
        rw [hs] at hrest
        intro a b hab
        cases a with
        | nil =>
          obtain rfl : b = x :: after := hab
          exact hm
        | cons y a =>
          obtain ⟨rfl, htail⟩ := List.cons_eq_cons.mp hab
          have h := hrest a b htail
          simpa using h
      | some m =>
        rw [hs] at hrest
        obtain ⟨s, hafter, hbefore, hfound, hfirst⟩ := hrest
        refine ⟨x :: s, by rw [hafter]; rfl, by rw [hbefore]; simp, hfound, ?_⟩
        intro a b hab hne
        cases a with
        | nil =>
          obtain rfl : b = x :: s := hab
          rw [List.cons_append, ← hafter]
          exact hm
        | cons y a =>
          obtain ⟨rfl, htail⟩ := List.cons_eq_cons.mp hab
          have h := hfirst a b htail hne
          simpa using h

/-- `search` finds nothing exactly if no match begins anywhere. -/
theorem search_eq_none (h : search r text = none) (i : ℕ) : ¬ MatchesAt r text i := by
  have hspec := searchFrom_spec r [] text
  rw [search] at h
  rw [h] at hspec
  have hi := hspec (text.take i) (text.drop i) (List.take_append_drop i text)
  rw [List.append_nil] at hi
  exact not_not.mpr hi

/-- `search` finds a match, and none begins before it. -/
theorem search_eq_some (h : search r text = some m) :
    m.start ≤ text.length ∧ matchAt r text m.start = some m ∧
      ∀ i < m.start, ¬ MatchesAt r text i := by
  have hspec := searchFrom_spec r [] text
  rw [search] at h
  rw [h] at hspec
  obtain ⟨s, htext, hbefore, hfound, hfirst⟩ := hspec
  rw [List.append_nil] at hbefore
  have hs : s.length = m.start := by rw [Match.start, hbefore, List.length_reverse]
  refine ⟨?_, ?_, ?_⟩
  · rw [htext, List.length_append, ← hs]
    omega
  · rw [← hs, htext, matchAt, List.take_left' rfl, List.drop_left' rfl, ← hbefore, hfound]
  · intro i hi
    have hne : s.drop i ≠ [] := by
      apply List.ne_nil_of_length_pos
      rw [List.length_drop]
      omega
    have hnone := hfirst (s.take i) (s.drop i) (List.take_append_drop i s) hne
    rw [List.append_nil] at hnone
    rw [MatchesAt, not_not, matchAt, htext, List.take_append_of_le_length (by omega),
      List.drop_append_of_le_length (by omega)]
    exact hnone

/-! ## The scan -/

/-- An expression that does not match the empty text. -/
def Nonempty (r : Regex) : Prop := ∀ s, Lang r s → s ≠ []

/-- An expression may match the empty text, as far as its form tells. -/
def nullable : Regex → Bool
  | empty => true
  | char _ => false
  | seq r s => nullable r && nullable s
  | alt r s => nullable r || nullable s
  | many _ least _ _ => least == 0
  | look _ => true
  | group _ r => nullable r

/-- An expression whose form rules it out does not match the empty text. -/
theorem nonempty_of_nullable (h : nullable r = false) : Nonempty r := by
  intro s hs hnil
  subst hnil
  induction r with
  | empty => simp [nullable] at h
  | char p =>
    obtain ⟨x, hx, -⟩ := hs
    exact absurd hx.symm (List.cons_ne_nil x [])
  | seq r t ihr iht =>
    obtain ⟨a, b, hab, ha, hb⟩ := hs
    obtain ⟨rfl, rfl⟩ := List.append_eq_nil_iff.mp hab.symm
    rcases Bool.and_eq_false_iff.mp h with hr | ht
    · exact ihr hr ha
    · exact iht ht hb
  | alt r t ihr iht =>
    obtain ⟨hr, ht⟩ := Bool.or_eq_false_iff.mp h
    rcases hs with hs | hs
    · exact ihr hr hs
    · exact iht ht hs
  | many greedy least most p =>
    have hleast : least ≤ 0 := hs.1
    exact absurd (Nat.le_zero.mp hleast) (by simpa [nullable] using h)
  | look test => simp [nullable] at h
  | group i r ih => exact ih h hs

/-- The scan reports matches, each at its place behind what it skips. -/
theorem mem_findFrom {skip : ℕ} {before after : List Char}
    (h : m ∈ findFrom r skip before after) :
    ∃ s, after = s ++ (m.text ++ m.after) ∧ m.before = s.reverse ++ before ∧ skip ≤ s.length ∧
      matchBetween r m.before (m.text ++ m.after) = some m := by
  induction after generalizing skip before with
  | nil =>
    rw [findFrom] at h
    contradiction
  | cons x after ih =>
    have hlater : ∀ skip', m ∈ findFrom r skip' (x :: before) after → skip ≤ skip' + 1 →
        ∃ s, x :: after = s ++ (m.text ++ m.after) ∧ m.before = s.reverse ++ before ∧
          skip ≤ s.length ∧ matchBetween r m.before (m.text ++ m.after) = some m := by
      intro skip' hm hskip
      obtain ⟨s, hafter, hbefore, hlength, hfound⟩ := ih hm
      refine ⟨x :: s, by rw [hafter]; rfl, by rw [hbefore]; simp, ?_, hfound⟩
      rw [List.length_cons]
      omega
    cases skip with
    | succ skip => exact hlater skip h (le_refl _)
    | zero =>
      rw [findFrom] at h
      split at h
      · next found hfound =>
        rcases List.mem_cons.mp h with rfl | h
        · obtain ⟨hbefore, hafter, -⟩ := matchBetween_spec hfound
          exact ⟨[], hafter, hbefore, Nat.zero_le _, by rw [hbefore, ← hafter, hfound]⟩
        · exact hlater _ h (Nat.zero_le _)
      · exact hlater _ h (Nat.zero_le _)

/-- A match in the reach of the scan begins inside a reported match, or is one. -/
theorem findFrom_covers (hr : Nonempty r) {skip : ℕ} {before after a b : List Char}
    (hafter : a ++ b = after) (hskip : skip ≤ a.length)
    (h : matchBetween r (a.reverse ++ before) b ≠ none) :
    ∃ m ∈ findFrom r skip before after, m.before.length ≤ before.length + a.length ∧
      before.length + a.length < m.before.length + m.text.length := by
  induction after generalizing skip before a with
  | nil =>
    obtain ⟨rfl, rfl⟩ := List.append_eq_nil_iff.mp hafter
    obtain ⟨m, hm⟩ := Option.ne_none_iff_exists'.mp h
    obtain ⟨-, htext, hlang⟩ := matchBetween_spec hm
    exact absurd (List.append_eq_nil_iff.mp htext.symm).1 (hr _ hlang)
  | cons x after ih =>
    have hlater : ∀ skip' a', a = x :: a' → skip' ≤ a'.length →
        ∃ m ∈ findFrom r skip' (x :: before) after, m.before.length ≤ before.length + a.length ∧
          before.length + a.length < m.before.length + m.text.length := by
      rintro skip' a' rfl hskip'
      obtain ⟨-, htail⟩ := List.cons_eq_cons.mp hafter
      have h' : matchBetween r (a'.reverse ++ x :: before) b ≠ none := by simpa using h
      obtain ⟨m, hm, hstart, hstop⟩ := ih htail hskip' h'
      rw [List.length_cons] at hstart hstop
      refine ⟨m, hm, ?_, ?_⟩
      · rw [List.length_cons]
        omega
      · rw [List.length_cons]
        omega
    cases skip with
    | succ skip =>
      cases a with
      | nil => simp at hskip
      | cons y a =>
        obtain ⟨rfl, -⟩ := List.cons_eq_cons.mp hafter
        exact hlater skip a rfl (by simpa using hskip)
    | zero =>
      rw [findFrom]
      cases hm : matchBetween r before (x :: after) with
      | none =>
        cases a with
        | nil =>
          obtain rfl : b = x :: after := hafter
          exact absurd hm h
        | cons y a =>
          obtain ⟨rfl, -⟩ := List.cons_eq_cons.mp hafter
          exact hlater 0 a rfl (Nat.zero_le _)
      | some m =>
        obtain ⟨hbefore, -, hlang⟩ := matchBetween_spec hm
        have hpos : 0 < m.text.length := List.length_pos_of_ne_nil (hr _ hlang)
        by_cases hinside : a.length < m.text.length
        · refine ⟨m, List.mem_cons_self, ?_, ?_⟩
          · rw [hbefore]
            omega
          · rw [hbefore]
            omega
        · cases a with
          | nil => exact absurd hpos hinside
          | cons y a =>
            obtain ⟨rfl, -⟩ := List.cons_eq_cons.mp hafter
            rw [List.length_cons] at hinside
            obtain ⟨m', hm', hreach⟩ := hlater (m.text.length - 1) a rfl (by omega)
            exact ⟨m', List.mem_cons_of_mem m hm', hreach⟩

/-- Reported matches do not overlap. -/
theorem findFrom_disjoint {skip : ℕ} {before after : List Char}
    (hm : m ∈ findFrom r skip before after) (hm' : m' ∈ findFrom r skip before after)
    (h : m.start < m'.start) : m.stop ≤ m'.start := by
  have hplace : ∀ {skip before after} {n : Match}, n ∈ findFrom r skip before after →
      before.length + skip ≤ n.start := by
    intro skip before after n hn
    obtain ⟨s, -, hbefore, hskip, -⟩ := mem_findFrom hn
    rw [Match.start, hbefore, List.length_append, List.length_reverse]
    omega
  induction after generalizing skip before with
  | nil =>
    rw [findFrom] at hm
    contradiction
  | cons x after ih =>
    cases skip with
    | succ skip => exact ih hm hm'
    | zero =>
      rw [findFrom] at hm hm'
      cases hfound : matchBetween r before (x :: after) with
      | none =>
        rw [hfound] at hm hm'
        exact ih hm hm'
      | some n =>
        rw [hfound] at hm hm'
        obtain ⟨hbefore, -, -⟩ := matchBetween_spec hfound
        have hstart : n.start = before.length := by rw [Match.start, hbefore]
        rcases List.mem_cons.mp hm with rfl | hm
        · rcases List.mem_cons.mp hm' with rfl | hm'
          · exact absurd h (lt_irrefl _)
          · have hbehind := hplace hm'
            rw [List.length_cons] at hbehind
            rw [Match.stop, hbefore]
            omega
        · rcases List.mem_cons.mp hm' with rfl | hm'
          · have hbehind := hplace hm
            rw [List.length_cons] at hbehind
            omega
          · exact ih hm hm'

/-- The scan reports matches of the text. -/
theorem mem_finditer (h : m ∈ finditer r text) :
    m.start ≤ text.length ∧ matchAt r text m.start = some m := by
  obtain ⟨s, htext, hbefore, -, hfound⟩ := mem_findFrom h
  rw [List.append_nil] at hbefore
  have hs : s.length = m.start := by rw [Match.start, hbefore, List.length_reverse]
  constructor
  · rw [htext, List.length_append, ← hs]
    omega
  · rw [← hs, htext, matchAt, List.take_left' rfl, List.drop_left' rfl, ← hbefore, hfound]

/-- Every match of the text begins inside a reported match, or is one. -/
theorem finditer_covers (hr : Nonempty r) (hi : i ≤ text.length) (h : MatchesAt r text i) :
    ∃ m ∈ finditer r text, m.start ≤ i ∧ i < m.stop := by
  have h' : matchBetween r ((text.take i).reverse ++ []) (text.drop i) ≠ none := by
    rwa [List.append_nil]
  obtain ⟨m, hm, hstart, hstop⟩ :=
    findFrom_covers hr (List.take_append_drop i text) (Nat.zero_le _) h'
  rw [List.length_nil, List.length_take, Nat.zero_add, Nat.min_eq_left hi] at hstart hstop
  exact ⟨m, hm, hstart, hstop⟩

/-- Reported matches of a text do not overlap. -/
theorem finditer_disjoint (hm : m ∈ finditer r text) (hm' : m' ∈ finditer r text)
    (h : m.start < m'.start) : m.stop ≤ m'.start := findFrom_disjoint hm hm' h

end

end HzjDds.Regex
