import HzjDds.Python.Text
import Mathlib.Data.List.Infix

/-!
# Texts inside texts

Library `Python`. Where a text can stand in one that is put together from parts: a character that
it lacks separates the parts, and so does a pair of neighbours that it has.
-/

namespace HzjDds.Python

section

variable {α : Type*} {w a b pre x post : List α} {c d : α} {xs : List (List α)}

/-- No text reaches over a character that it lacks. -/
theorem infix_append_cons (hc : c ∉ w) : w <:+: a ++ c :: b ↔ w <:+: a ∨ w <:+: b := by
  constructor
  · intro h
    rcases List.infix_append_iff_ne_nil.mp h with ha | hb | ⟨u, v, -, hv, rfl, -, hfirst⟩
    · exact Or.inl ha
    · rcases List.infix_cons_iff.mp hb with hb | hb
      · cases w with
        | nil => exact Or.inl List.nil_infix
        | cons y w =>
          obtain ⟨rfl, -⟩ := List.cons_prefix_cons.mp hb
          exact absurd List.mem_cons_self hc
      · exact Or.inr hb
    · cases v with
      | nil => exact absurd rfl hv
      | cons y v =>
        obtain ⟨rfl, -⟩ := List.cons_prefix_cons.mp hfirst
        exact absurd (List.mem_append_right u List.mem_cons_self) hc
  · rintro (h | h)
    · exact h.trans (List.prefix_append a _).isInfix
    · exact h.trans ((List.suffix_cons c b).trans (List.suffix_append a _)).isInfix

private theorem infix_intercalate (hw : w ≠ []) (hc : c ∉ w) :
    w <:+: [c].intercalate xs ↔ ∃ x ∈ xs, w <:+: x := by
  induction xs with
  | nil => simp [hw]
  | cons x xs ih =>
    cases xs with
    | nil => simp
    | cons y ys =>
      rw [List.intercalate_cons_cons, List.append_assoc, List.singleton_append,
        infix_append_cons hc, ih]
      simp only [List.exists_mem_cons_iff]

private theorem not_infix_intercalate (hc : c ∉ w) (hxs : xs ≠ [])
    (h : ∀ x ∈ xs, ¬ w <:+: pre ++ d :: x ++ post) :
    ¬ w <:+: pre ++ d :: [c, d].intercalate xs ++ post := by
  induction xs generalizing pre with
  | nil => exact absurd rfl hxs
  | cons x xs ih =>
    have hx := h x List.mem_cons_self
    cases xs with
    | nil => simpa using hx
    | cons y ys =>
      have hsplit : pre ++ d :: [c, d].intercalate (x :: y :: ys) ++ post =
          (pre ++ d :: x) ++ c :: ([] ++ d :: [c, d].intercalate (y :: ys) ++ post) := by
        rw [List.intercalate_cons_cons]
        simp
      rw [hsplit, infix_append_cons hc, not_or]
      constructor
      · exact fun hwithin ↦ hx (hwithin.trans (List.prefix_append _ post).isInfix)
      · apply ih (List.cons_ne_nil y ys)
        intro z hz hwithin
        apply h z (List.mem_cons_of_mem x hz)
        rw [List.append_assoc]
        exact hwithin.trans (by simpa using (List.suffix_append pre _).isInfix)

/-- Neighbours `c`, `d` do not come about around a text without `c`. -/
theorem not_pair_within (hpre : ¬ [c, d] <:+: pre) (hlast : pre.getLast? ≠ some c) (hx : c ∉ x)
    (hpost : ¬ [c, d] <:+: post) : ¬ [c, d] <:+: pre ++ (x ++ post) := by
  induction pre with
  | nil =>
    rw [List.nil_append]
    induction x with
    | nil => exact hpost
    | cons y x ih =>
      rw [List.mem_cons, not_or] at hx
      rw [List.cons_append, List.infix_cons_iff, not_or]
      refine ⟨fun h ↦ hx.1 (List.cons_prefix_cons.mp h).1, ih hx.2⟩
  | cons p pre ih =>
    rw [List.infix_cons_iff, not_or] at hpre
    rw [List.cons_append, List.infix_cons_iff, not_or]
    cases pre with
    | nil =>
      refine ⟨fun h ↦ hlast ?_, ih hpre.2 (by simp)⟩
      rw [(List.cons_prefix_cons.mp h).1, List.getLast?_singleton]
    | cons q pre =>
      refine ⟨fun h ↦ hpre.1 ?_, ih hpre.2 (by simpa using hlast)⟩
      obtain ⟨hp, hrest⟩ := List.cons_prefix_cons.mp h
      obtain ⟨hq, -⟩ := List.cons_prefix_cons.mp hrest
      rw [hp, hq]
      exact List.prefix_append [p, q] pre

end

/-! ## Stripping -/

/-- A text without the characters of a class at its ends is a part of it. -/
theorem stripList_within (p : Char → Bool) (cs : List Char) : stripList p cs <:+: cs := by
  have hsuffix : (cs.dropWhile p).reverse.dropWhile p <:+ (cs.dropWhile p).reverse :=
    List.dropWhile_suffix p
  have hfirst : stripList p cs <+: cs.dropWhile p := by
    rw [stripList, ← List.reverse_suffix, List.reverse_reverse]
    exact hsuffix
  exact hfirst.isInfix.trans (List.dropWhile_suffix p).isInfix

/-- Characters of a stripped text. -/
theorem toList_strip (cs : List Char) : (strip (.ofList cs)).toList = stripList isSpace cs := by
  rw [strip, String.toList_ofList, String.toList_ofList]

/-- Where the first character is not of the class, only the end goes away. -/
theorem stripList_starts {p : Char → Bool} {c : Char} (hc : p c = false) (cs : List Char) :
    stripList p (c :: cs) <+: c :: cs := by
  rw [stripList, List.dropWhile_cons_of_neg (by simp [hc]), ← List.reverse_suffix,
    List.reverse_reverse]
  exact List.dropWhile_suffix p

/-- Elements of a sorted set. -/
theorem mem_sortedSet {x : String} {xs : List String} : x ∈ sortedSet xs ↔ x ∈ xs := by
  rw [sortedSet, List.mem_mergeSort, List.mem_eraseDups]

/-! ## Texts without a marker -/

/-- A text does not have a marker in it. -/
def Lacks (marker s : String) : Prop := ¬ marker.toList <:+: s.toList

instance (marker s : String) : Decidable (Lacks marker s) :=
  inferInstanceAs (Decidable (¬ marker.toList <:+: s.toList))

section

variable {marker pre x post : String} {xs : List String} {c d : Char}

/-- Texts that are written out are compared character by character. -/
theorem lacks_ofList {u v : List Char} (h : ¬ u <:+: v) : Lacks (.ofList u) (.ofList v) := by
  rwa [Lacks, String.toList_ofList, String.toList_ofList]

/-- A text in two parts that are written out. -/
theorem lacks_ofList_append {u v v' : List Char} (h : ¬ u <:+: v ++ v') :
    Lacks (.ofList u) (.ofList v ++ .ofList v') := by
  rw [← String.ofList_append]
  exact lacks_ofList h

/-- A quotation whose parts are written out. -/
theorem lacks_ofList_quote {u v v' v'' : List Char} (h : ¬ u <:+: v ++ v' ++ v'') :
    Lacks (.ofList u) (.ofList v ++ .ofList v' ++ .ofList v'') := by
  rw [← String.ofList_append]
  exact lacks_ofList_append h

/-- A text that is shorter than a marker lacks it. -/
theorem lacks_of_length (h : x.toList.length < marker.toList.length) : Lacks marker x :=
  fun hwithin ↦ absurd hwithin.length_le (Nat.not_le.mpr h)

/-- A marker is in joined lines if it is in one of them. -/
theorem isIn_join (hmarker : marker.toList ≠ []) (hline : '\n' ∉ marker.toList) :
    isIn marker ("\n".intercalate xs) = true ↔ ∃ x ∈ xs, ¬ Lacks marker x := by
  have hsep : "\n".toList = ['\n'] := by decide
  rw [isIn_iff, String.toList_intercalate, hsep, infix_intercalate hmarker hline]
  simp [Lacks]

/-- An item of a list lacks a marker that begins like no item if its text does. -/
theorem lacks_item (hdash : marker.toList.head? ≠ some '-')
    (hspace : marker.toList.head? ≠ some ' ') (h : Lacks marker x) : Lacks marker ("- " ++ x) := by
  have hitem : "- ".toList = ['-', ' '] := by decide
  rw [Lacks, String.toList_append, hitem, List.cons_append, List.cons_append, List.nil_append,
    List.infix_cons_iff, List.infix_cons_iff, not_or, not_or]
  rw [Lacks] at h
  cases hmarker : marker.toList with
  | nil =>
    rw [hmarker] at h
    exact absurd List.nil_infix h
  | cons c w =>
    rw [hmarker] at hdash hspace h
    refine ⟨fun hfirst ↦ hdash ?_, fun hfirst ↦ hspace ?_, h⟩
    · rw [(List.cons_prefix_cons.mp hfirst).1, List.head?_cons]
    · rw [(List.cons_prefix_cons.mp hfirst).1, List.head?_cons]

/-- A quotation lacks a marker without the quotation mark if its parts do. -/
theorem lacks_quote (hquote : c ∉ marker.toList) (hlast : pre.toList.getLast? = some c)
    (hhead : post.toList.head? = some c) (hpre : Lacks marker pre) (hx : Lacks marker x)
    (hpost : Lacks marker post) : Lacks marker (pre ++ x ++ post) := by
  obtain ⟨start, hstart⟩ := List.getLast?_eq_some_iff.mp hlast
  obtain ⟨rest, hrest⟩ := List.head?_eq_some_iff.mp hhead
  rw [Lacks, hstart, infix_append_cons hquote, not_or] at hpre
  rw [Lacks, hrest, ← List.nil_append (c :: rest), infix_append_cons hquote, not_or] at hpost
  rw [Lacks, String.toList_append, String.toList_append, hstart, hrest, List.append_assoc,
    List.append_assoc, List.singleton_append, infix_append_cons hquote, infix_append_cons hquote,
    not_or, not_or]
  exact ⟨hpre.1, hx, hpost.2⟩

/-- A list with commas lacks a marker if each of its parts does in the same context. -/
theorem lacks_join (hcomma : ',' ∉ marker.toList) (hpre : pre.toList.getLast? = some ' ')
    (hxs : xs ≠ []) (h : ∀ x ∈ xs, Lacks marker (pre ++ x ++ post)) :
    Lacks marker (pre ++ ", ".intercalate xs ++ post) := by
  obtain ⟨start, hstart⟩ := List.getLast?_eq_some_iff.mp hpre
  have hsep : ", ".toList = [',', ' '] := by decide
  have hcontext : ∀ mid : List Char, pre.toList ++ mid ++ post.toList =
      start ++ ' ' :: mid ++ post.toList := by
    intro mid
    rw [hstart, List.append_assoc start, List.singleton_append]
  rw [Lacks, String.toList_append, String.toList_append, String.toList_intercalate, hsep,
    hcontext]
  apply not_infix_intercalate hcomma
  · simpa using hxs
  · intro y hy
    obtain ⟨x, hx, rfl⟩ := List.mem_map.mp hy
    have hlacks := h x hx
    rwa [Lacks, String.toList_append, String.toList_append, hcontext] at hlacks

/-- A text lacks a marker if a part of it has no `c` and the rest, which is written out, no `c`
before `d`, and the marker has them. -/
theorem lacks_of_pair {w u v : List Char} (hpair : [c, d] <:+: w) (hu : ¬ [c, d] <:+: u)
    (hlast : u.getLast? ≠ some c) (hx : c ∉ x.toList) (hv : ¬ [c, d] <:+: v) :
    Lacks (.ofList w) (.ofList u ++ x ++ .ofList v) := by
  rw [Lacks, String.toList_append, String.toList_append, String.toList_ofList,
    String.toList_ofList, String.toList_ofList, List.append_assoc]
  exact fun hwithin ↦ not_pair_within hu hlast hx hv (hpair.trans hwithin)

/-- A list with commas behind a text that is written out lacks a marker if no part of it has `c`,
and the text no `c` before `d`, and the marker has them. -/
theorem lacks_join_of_pair {w u : List Char} (hcomma : ',' ∉ w) (hpair : [c, d] <:+: w)
    (hu : ¬ [c, d] <:+: u) (hlast : u.getLast? = some ' ') (hc : ' ' ≠ c) (hxs : xs ≠ [])
    (h : ∀ x ∈ xs, c ∉ x.toList) : Lacks (.ofList w) (.ofList u ++ ", ".intercalate xs) := by
  have hjoin : Lacks (.ofList w) (.ofList u ++ ", ".intercalate xs ++ .ofList []) := by
    apply lacks_join _ _ hxs
    · intro x hx
      apply lacks_of_pair hpair hu _ (h x hx) (by simp)
      rw [hlast]
      exact fun heq ↦ hc (Option.some.inj heq)
    · rwa [String.toList_ofList]
    · rwa [String.toList_ofList]
  rwa [String.ofList_nil, String.append_empty] at hjoin

end

end HzjDds.Python
