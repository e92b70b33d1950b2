import Mathlib.Data.List.TakeWhile
import Mathlib.Data.Nat.Notation

/-!
# Regular expressions

Library `Regex`. Backtracking matching with ordered alternatives, greedy and lazy repetition of a
character class, tests of the text around a position, and groups. `ends` lists the ways to match
from a cursor, the preferred one first; `Lang` says which texts a match can consist of.
-/

namespace HzjDds

/-- A regular expression. `many` repeats one character class; `look` consumes nothing and tests
the text before the position, last character first, and the text after it. -/
inductive Regex where
  | empty
  | char (p : Char → Bool)
  | seq (r s : Regex)
  | alt (r s : Regex)
  | many (greedy : Bool) (least : ℕ) (most : Option ℕ) (p : Char → Bool)
  | look (test : List Char → List Char → Bool)
  | group (i : ℕ) (r : Regex)

namespace Regex

/-- A position in a text: what comes before it, last character first, what comes after it, and the
texts of the groups matched so far, the latest first. -/
structure Cursor where
  before : List Char
  after : List Char
  groups : List (ℕ × List Char) := []
  deriving DecidableEq, Repr

/-- The cursor `n` characters further. -/
def Cursor.advance (c : Cursor) (n : ℕ) : Cursor :=
  { c with before := (c.after.take n).reverse ++ c.before, after := c.after.drop n }

/-- How many characters of a class can be taken, in order of preference. -/
def counts (greedy : Bool) (least : ℕ) (most : Option ℕ) (p : Char → Bool) (after : List Char) :
    List ℕ :=
  let run := (after.takeWhile p).length
  let choices := (List.range (most.elim run (min run) + 1)).filter (least ≤ ·)
  if greedy then choices.reverse else choices

/-- Where matches that begin at a cursor end, the preferred one first. -/
def ends : Regex → Cursor → List Cursor
  | empty, c => [c]
  | char p, c =>
    match c.after with
    | [] => []
    | x :: _ => if p x then [c.advance 1] else []
  | seq r s, c => (ends r c).flatMap (ends s)
  | alt r s, c => ends r c ++ ends s c
  | many greedy least most p, c => (counts greedy least most p c.after).map c.advance
  | look test, c => if test c.before c.after then [c] else []
  | group i r, c => (ends r c).map fun c' ↦
      { c' with groups := (i, c.after.take (c.after.length - c'.after.length)) :: c'.groups }

/-- Texts that a match can consist of, whatever is around it. -/
def Lang : Regex → List Char → Prop
  | empty, s => s = []
  | char p, s => ∃ x, s = [x] ∧ p x = true
  | seq r t, s => ∃ a b, s = a ++ b ∧ Lang r a ∧ Lang t b
  | alt r t, s => Lang r s ∨ Lang t s
  | many _ least most p, s => least ≤ s.length ∧ (∀ n, most = some n → s.length ≤ n) ∧
      ∀ x ∈ s, p x = true
  | look _, s => s = []
  | group _ r, s => Lang r s

/-! ## Derived expressions -/

/-- One expression after the other. -/
def cat (rs : List Regex) : Regex := rs.foldr seq empty

/-- The first expression that matches. -/
def oneOf : List Regex → Regex
  | [] => char fun _ ↦ false
  | [r] => r
  | r :: rs => alt r (oneOf rs)

/-- `r?`. -/
def optional (r : Regex) : Regex := alt r empty

/-- A literal text. -/
def literal (s : String) : Regex := cat (s.toList.map fun c ↦ char (· == c))

/-- Representative of the characters that a letter matches when case is ignored. -/
def foldCase (c : Char) : Char :=
  if c = '\u017f' then 's' else if c = '\u212a' then 'k'
  else if c = '\u0130' ∨ c = '\u0131' then 'i' else c.toLower

/-- A literal text without regard to the case of its letters. -/
def literalCI (s : String) : Regex := cat (s.toList.map fun c ↦ char (foldCase · == foldCase c))

/-- A class of word characters: letters, digits and the underscore are among them. -/
structure WordClass where
  isWord : Char → Bool
  ascii : ∀ c, ((foldCase c).isAlphanum || c == '_') = true → isWord c = true

/-- `\b`. -/
def wordBoundary (w : WordClass) : Regex :=
  look fun before after ↦ before.head?.any w.isWord != after.head?.any w.isWord

/-- `^` of several lines. -/
def lineStart : Regex := look fun before _ ↦ before.head?.all (· == '\n')

/-- `$` of several lines. -/
def lineEnd : Regex := look fun _ after ↦ after.head?.all (· == '\n')

/-! ## Soundness -/

private theorem advance_spec (c : Cursor) (n : ℕ) :
    c.after = c.after.take n ++ (c.advance n).after ∧
      (c.advance n).before = (c.after.take n).reverse ++ c.before :=
  ⟨(List.take_append_drop n c.after).symm, rfl⟩

private theorem mem_counts {greedy : Bool} {least : ℕ} {most : Option ℕ} {p : Char → Bool}
    {after : List Char} {n : ℕ} (h : n ∈ counts greedy least most p after) :
    least ≤ n ∧ (∀ k, most = some k → n ≤ k) ∧ n ≤ (after.takeWhile p).length := by
  have hmem : n ∈ (List.range (most.elim (after.takeWhile p).length
      (min (after.takeWhile p).length) + 1)).filter (least ≤ ·) := by
    unfold counts at h
    cases greedy with
    | true => simpa using h
    | false => exact h
  obtain ⟨hrange, hleast⟩ := List.mem_filter.mp hmem
  rw [List.mem_range] at hrange
  refine ⟨by simpa using hleast, ?_, ?_⟩
  · rintro k rfl
    simp only [Option.elim_some] at hrange
    omega
  · cases most with
    | none =>
      simp only [Option.elim_none] at hrange
      omega
    | some k =>
      simp only [Option.elim_some] at hrange
      omega

/-- A match consists of a text of the expression, and the cursor goes on by it. -/
theorem ends_sound {r : Regex} {c c' : Cursor} (h : c' ∈ ends r c) :
    ∃ s, Lang r s ∧ c.after = s ++ c'.after ∧ c'.before = s.reverse ++ c.before := by
  induction r generalizing c c' with
  | empty =>
    obtain rfl := List.mem_singleton.mp h
    exact ⟨[], rfl, rfl, rfl⟩
  | char p =>
    rw [ends] at h
    split at h
    · contradiction
    · next x rest hafter =>
      split at h
      · next hp =>
        obtain rfl := List.mem_singleton.mp h
        refine ⟨[x], ⟨x, rfl, hp⟩, ?_, ?_⟩ <;> simp [Cursor.advance, hafter]
      · contradiction
  | seq r t ihr iht =>
    obtain ⟨m, hm, hc'⟩ := List.mem_flatMap.mp h
    obtain ⟨a, ha, hafter, hbefore⟩ := ihr hm
    obtain ⟨b, hb, hafter', hbefore'⟩ := iht hc'
    refine ⟨a ++ b, ⟨a, b, rfl, ha, hb⟩, ?_, ?_⟩
    · rw [hafter, hafter', List.append_assoc]
    · rw [hbefore', hbefore, List.reverse_append, List.append_assoc]
  | alt r t ihr iht =>
    rcases List.mem_append.mp h with h | h
    · obtain ⟨s, hs, hrest⟩ := ihr h
      exact ⟨s, Or.inl hs, hrest⟩
    · obtain ⟨s, hs, hrest⟩ := iht h
      exact ⟨s, Or.inr hs, hrest⟩
  | many greedy least most p =>
    obtain ⟨n, hn, rfl⟩ := List.mem_map.mp h
    obtain ⟨hleast, hmost, hrun⟩ := mem_counts hn
    have hfirst : c.after.take n = (c.after.takeWhile p).take n := by
      calc c.after.take n = (c.after.takeWhile p ++ c.after.dropWhile p).take n := by
            rw [List.takeWhile_append_dropWhile]
        _ = (c.after.takeWhile p).take n := List.take_append_of_le_length hrun
    have hlength : (c.after.take n).length = n := by
      rw [hfirst, List.length_take]
      omega
    refine ⟨c.after.take n, ⟨?_, ?_, ?_⟩, advance_spec c n⟩
    · rw [hlength]
      exact hleast
    · rw [hlength]
      exact hmost
    · intro x hx
      rw [hfirst] at hx
      exact List.mem_takeWhile_imp (List.mem_of_mem_take hx)
  | look test =>
    rw [ends] at h
    split at h
    · obtain rfl := List.mem_singleton.mp h
      exact ⟨[], rfl, rfl, rfl⟩
    · contradiction
  | group i r ih =>
    obtain ⟨m, hm, rfl⟩ := List.mem_map.mp h
    obtain ⟨s, hs, hafter, hbefore⟩ := ih hm
    exact ⟨s, hs, hafter, hbefore⟩

/-- Some class of an expression has a character. -/
def takes (x : Char) : Regex → Bool
  | empty => false
  | char p => p x
  | seq r s => takes x r || takes x s
  | alt r s => takes x r || takes x s
  | many _ _ _ p => p x
  | look _ => false
  | group _ r => takes x r

/-- A character of no class is in no text of an expression. -/
theorem Lang.not_mem {x : Char} {r : Regex} {s : List Char} (hs : Lang r s)
    (h : takes x r = false) : x ∉ s := by
  induction r generalizing s with
  | empty =>
    obtain rfl : s = [] := hs
    exact List.not_mem_nil
  | char p =>
    obtain ⟨y, rfl, hy⟩ := hs
    intro hx
    obtain rfl := List.mem_singleton.mp hx
    exact absurd hy (by rw [show p x = false from h]; exact Bool.false_ne_true)
  | seq r t ihr iht =>
    obtain ⟨a, b, rfl, ha, hb⟩ := hs
    obtain ⟨hr, ht⟩ := Bool.or_eq_false_iff.mp h
    exact List.not_mem_append (ihr ha hr) (iht hb ht)
  | alt r t ihr iht =>
    obtain ⟨hr, ht⟩ := Bool.or_eq_false_iff.mp h
    rcases hs with hs | hs
    · exact ihr hs hr
    · exact iht hs ht
  | many greedy least most p =>
    intro hx
    exact absurd (hs.2.2 x hx) (by rw [show p x = false from h]; exact Bool.false_ne_true)
  | look test =>
    obtain rfl : s = [] := hs
    exact List.not_mem_nil
  | group i r ih => exact ih hs h

end Regex

end HzjDds
