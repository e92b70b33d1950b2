import HzjDds.Regex.Search
import Mathlib

/-!
# Matches inside matches

Library `Regex`. Where a text that begins with given characters can stand inside the matches of an
expression, computed from the expression. If it cannot, the scan of a text reports every match.
-/

namespace HzjDds.Regex

/-- First characters of a text: each is one of a list, and `none` stands for any character. -/
abbrev Needle := List (Option (List Char))

/-- A text begins with a needle. -/
def Starts : Needle → List Char → Prop
  | [], _ => True
  | _ :: _, [] => False
  | c :: n, x :: s => (∀ cs, c = some cs → x ∈ cs) ∧ Starts n s

/-- A text begins with a needle, as far as the text goes. -/
def Agrees : Needle → List Char → Prop
  | [], _ => True
  | _ :: _, [] => True
  | c :: n, x :: s => (∀ cs, c = some cs → x ∈ cs) ∧ Agrees n s

/-- A class has one of the characters. -/
def hits (p : Char → Bool) (c : Option (List Char)) : Bool := c.elim true (·.any p)

/-- What can be left of a needle behind some characters of a class. -/
def throughMany (p : Char → Bool) : Needle → List Needle
  | [] => [[]]
  | c :: n => (c :: n) :: if hits p c then throughMany p n else []

/-- What can be left behind a match of a needle that is put to its beginning. -/
def through : Regex → Needle → List Needle
  | empty, n => [n]
  | char _, [] => [[]]
  | char p, c :: n => if hits p c then [n] else []
  | seq r s, n => (through r n).flatMap (through s)
  | alt r s, n => through r n ++ through s n
  | many _ _ _ p, n => throughMany p n
  | look _, n => [n]
  | group _ r, n => through r n

/-- What can be left behind a match of a needle that is put anywhere inside it. -/
def inside (n : Needle) : Regex → List Needle
  | empty => []
  | char p => through (char p) n
  | seq r s => (inside n r).flatMap (through s) ++ inside n s
  | alt r s => inside n r ++ inside n s
  | many _ _ _ p => throughMany p n
  | look _ => []
  | group _ r => inside n r

/-- Characters that match a letter when case is ignored. -/
def variants (c : Char) : List Char :=
  [foldCase c, (foldCase c).toUpper, '\u017f', '\u212a', '\u0130', '\u0131'].filter
    (foldCase · == foldCase c)

/-- The characters of a literal text. -/
def needle (s : String) : Needle := s.toList.map fun c ↦ some [c]

/-- The characters of a literal text without regard to case. -/
def needleCI (s : String) : Needle := s.toList.map fun c ↦ some (variants c)

/-- Behind its first character no match has more of a needle than its last `e` characters. -/
def clear (e : ℕ) (n : Needle) (r : Regex) : Bool :=
  decide (e < n.length) && (inside (none :: n) r).all fun left ↦ decide (n.length ≤ left.length + e)

/-- Every text of an expression begins with one of some needles. -/
def Begins (ns : List Needle) (r : Regex) : Prop := ∀ s, Lang r s → ∃ n ∈ ns, Starts n s

section

variable {p : Char → Bool} {c : Option (List Char)} {n : Needle} {ns : List Needle} {e : ℕ}
  {r r' : Regex} {a b s : List Char} {x : Char}

private theorem hits_of_mem (hp : p x = true) (h : ∀ cs, c = some cs → x ∈ cs) : hits p c = true := by
  cases c with
  | none => rfl
  | some cs => exact List.any_eq_true.mpr ⟨x, h cs rfl, hp⟩

private theorem agrees_append : Agrees n (a ++ b) ↔ Agrees n a ∧ Agrees (n.drop a.length) b := by
  induction a generalizing n with
  | nil => cases n <;> simp [Agrees]
  | cons x a ih =>
    cases n with
    | nil => simp [Agrees]
    | cons c n => simp only [List.cons_append, Agrees, ih, List.length_cons, List.drop_succ_cons,
        and_assoc]

private theorem drop_mem_throughMany (hs : ∀ x ∈ s, p x = true) (h : Agrees n s) :
    n.drop s.length ∈ throughMany p n := by
  induction s generalizing n with
  | nil => cases n <;> simp [throughMany]
  | cons x s ih =>
    cases n with
    | nil => simp [throughMany]
    | cons c n =>
      rw [List.forall_mem_cons] at hs
      rw [throughMany, if_pos (hits_of_mem hs.1 h.1)]
      exact List.mem_cons_of_mem _ (ih hs.2 h.2)

/-- A match leaves what `through` says. -/
theorem drop_mem_through (hs : Lang r s) (h : Agrees n s) : n.drop s.length ∈ through r n := by
  induction r generalizing n s with
  | empty =>
    obtain rfl : s = [] := hs
    exact List.mem_singleton_self n
  | char p =>
    obtain ⟨x, rfl, hx⟩ := hs
    cases n with
    | nil => exact List.mem_singleton_self []
    | cons c n =>
      rw [through, if_pos (hits_of_mem hx h.1)]
      exact List.mem_singleton_self n
  | seq r t ihr iht =>
    obtain ⟨a, b, rfl, ha, hb⟩ := hs
    obtain ⟨hagree, hagree'⟩ := agrees_append.mp h
    apply List.mem_flatMap.mpr
    refine ⟨n.drop a.length, ihr ha hagree, ?_⟩
    rw [List.length_append, ← List.drop_drop]
    exact iht hb hagree'
  | alt r t ihr iht =>
    rcases hs with hs | hs
    · exact List.mem_append_left _ (ihr hs h)
    · exact List.mem_append_right _ (iht hs h)
  | many greedy least most p => exact drop_mem_throughMany hs.2.2 h
  | look test =>
    obtain rfl : s = [] := hs
    exact List.mem_singleton_self n
  | group i r ih => exact ih hs h

/-- A part behind some place of a match leaves what `inside` says. -/
theorem drop_mem_inside (hs : Lang r (a ++ b)) (hb : b ≠ []) (h : Agrees n b) :
    n.drop b.length ∈ inside n r := by
  induction r generalizing a b with
  | empty => exact absurd (List.append_eq_nil_iff.mp hs).2 hb
  | char p =>
    obtain ⟨x, hx, hp⟩ := hs
    rcases List.append_eq_singleton_iff.mp hx with ⟨rfl, rfl⟩ | ⟨-, rfl⟩
    · exact drop_mem_through ⟨x, rfl, hp⟩ h
    · exact absurd rfl hb
  | seq r t ihr iht =>
    obtain ⟨u, v, hsplit, hu, hv⟩ := hs
    rcases List.append_eq_append_iff.mp hsplit with ⟨b', rfl, rfl⟩ | ⟨a', rfl, rfl⟩
    · -- the place is in the match of `r`, or behind it
      by_cases hb' : b' = []
      · rw [hb', List.nil_append] at hb h ⊢
        exact List.mem_append_right _ (iht (a := []) hv hb h)
      · obtain ⟨hagree, hagree'⟩ := agrees_append.mp h
        apply List.mem_append_left
        apply List.mem_flatMap.mpr
        refine ⟨n.drop b'.length, ihr hu hb' hagree, ?_⟩
        rw [List.length_append, ← List.drop_drop]
        exact drop_mem_through hv hagree'
    · exact List.mem_append_right _ (iht hv hb h)
  | alt r t ihr iht =>
    rcases hs with hs | hs
    · exact List.mem_append_left _ (ihr hs hb h)
    · exact List.mem_append_right _ (iht hs hb h)
  | many greedy least most p =>
    exact drop_mem_throughMany (fun x hx ↦ hs.2.2 x (List.mem_append_right a hx)) h
  | look test => exact absurd (List.append_eq_nil_iff.mp hs).2 hb
  | group i r ih => exact ih hs hb h

/-- A text that begins with a needle agrees with it in every first part. -/
theorem Starts.agrees (h : Starts n (a ++ b)) : Agrees n a := by
  induction a generalizing n with
  | nil => cases n <;> trivial
  | cons x a ih =>
    cases n with
    | nil => trivial
    | cons c n => exact ⟨h.1, ih h.2⟩

/-- A text that begins with a needle does so when it goes on. -/
theorem Starts.append (h : Starts n a) (b : List Char) : Starts n (a ++ b) := by
  induction a generalizing n with
  | nil =>
    cases n with
    | nil => trivial
    | cons c n => exact h.elim
  | cons x a ih =>
    cases n with
    | nil => trivial
    | cons c n => exact ⟨h.1, ih h.2⟩

/-- A text that begins with a needle goes on with the rest of it behind a first part. -/
theorem Starts.drop (h : Starts n (a ++ b)) : Starts (n.drop a.length) b := by
  induction a generalizing n with
  | nil => exact h
  | cons x a ih =>
    cases n with
    | nil => trivial
    | cons c n => exact ih h.2

/-- Where a match begins, the text begins with a needle. -/
theorem Begins.starts {text : List Char} {j : ℕ} (hbegins : Begins ns r)
    (h : MatchesAt r text j) : ∃ n ∈ ns, Starts n (text.drop j) := by
  obtain ⟨m, hm⟩ := Option.ne_none_iff_exists'.mp h
  obtain ⟨-, htext, hlang⟩ := matchAt_spec hm
  obtain ⟨n, hn, hstarts⟩ := hbegins m.text hlang
  exact ⟨n, hn, htext ▸ hstarts.append m.after⟩

private theorem length_le_of_clear (hclear : clear e n r = true) (hs : Lang r (a ++ b)) (ha : a ≠ [])
    (h : Agrees n b) : b.length ≤ e := by
  obtain ⟨he, hleft⟩ := Bool.and_eq_true_iff.mp hclear
  rw [decide_eq_true_iff] at he
  have hlast : a.dropLast ++ a.getLast ha :: b = a ++ b := by
    rw [← List.singleton_append, ← List.append_assoc, List.dropLast_append_getLast]
  have hagree : Agrees (none :: n) (a.getLast ha :: b) := ⟨fun cs hcs ↦ absurd hcs (by simp), h⟩
  have hmem := drop_mem_inside (hlast ▸ hs) (List.cons_ne_nil _ b) hagree
  have hlength := of_decide_eq_true (List.all_eq_true.mp hleft _ hmem)
  rw [List.length_cons, List.drop_succ_cons, List.length_drop] at hlength
  omega

/-- A text that begins with a needle inside a match begins near its end. -/
theorem stop_le_of_clear {text rest : List Char} {i j : ℕ} (hclear : clear e n r = true)
    (hs : Lang r s) (htext : text.drop i = s ++ rest) (hij : i < j)
    (h : Starts n (text.drop j)) : i + s.length ≤ j + e := by
  by_contra hlong
  have hdrop : text.drop j = s.drop (j - i) ++ rest := by
    rw [← Nat.add_sub_cancel' hij.le, ← List.drop_drop, htext, Nat.add_sub_cancel_left]
    apply List.drop_append_of_le_length
    omega
  rw [hdrop] at h
  have hne : s.take (j - i) ≠ [] := by
    apply List.ne_nil_of_length_pos
    rw [List.length_take]
    omega
  have hshort := length_le_of_clear hclear ((List.take_append_drop (j - i) s).symm ▸ hs) hne
    h.agrees
  rw [List.length_drop] at hshort
  omega

/-! ## What expressions begin with -/

private theorem toUpper_toLower (x : Char) : x.toLower = x ∨ x.toLower.toUpper = x := by
  by_cases h : x.isUpper = true
  · right
    rw [Char.toUpper_toLower_eq_toUpper]
    exact Char.toUpper_eq_of_not_isLower (Char.not_isLower_of_isUpper h)
  · left
    exact Char.toLower_eq_of_not_isUpper h

/-- The variants of a letter are all that match it. -/
theorem mem_variants {d : Char} (h : foldCase x = foldCase d) : x ∈ variants d := by
  apply List.mem_filter.mpr
  refine ⟨?_, beq_iff_eq.mpr h⟩
  rw [← h, foldCase]
  split
  · next hx => simp [hx]
  · split
    · next hx => simp [hx]
    · split
      · next hx =>
        rcases hx with hx | hx
        · simp [hx]
        · simp [hx]
      · rcases toUpper_toLower x with hx | hx
        · rw [hx]
          exact List.mem_cons_self
        · rw [hx]
          exact List.mem_cons_of_mem _ List.mem_cons_self

/-- The variants of a letter are no more than those that match it. -/
theorem foldCase_of_mem_variants {d : Char} (h : x ∈ variants d) : foldCase x = foldCase d :=
  beq_iff_eq.mp (List.mem_filter.mp h).2

private theorem starts_of_lang_cat {α : Type*} {f : α → Char → Bool} {g : α → List Char} {cs : List α}
    (hfg : ∀ c x, f c x = true → x ∈ g c) (hs : Lang (cat (cs.map fun c ↦ char (f c))) s) :
    Starts (cs.map fun c ↦ some (g c)) s := by
  induction cs generalizing s with
  | nil => trivial
  | cons c cs ih =>
    obtain ⟨u, v, rfl, ⟨x, rfl, hx⟩, hv⟩ := hs
    refine ⟨?_, ih hv⟩
    intro ds hds
    exact Option.some.inj hds ▸ hfg c x hx

/-- A literal text begins with its characters. -/
theorem begins_literal (t : String) : Begins [needle t] (literal t) := fun _ hs ↦
  ⟨needle t, List.mem_singleton_self _,
    starts_of_lang_cat (fun _ _ h ↦ List.mem_singleton.mpr (beq_iff_eq.mp h)) hs⟩

/-- A literal text in any case begins with its characters. -/
theorem begins_literalCI (t : String) : Begins [needleCI t] (literalCI t) := fun _ hs ↦
  ⟨needleCI t, List.mem_singleton_self _,
    starts_of_lang_cat (fun _ _ h ↦ mem_variants (beq_iff_eq.mp h)) hs⟩

/-- A literal text in any case has the characters of the text but for their case. -/
theorem map_foldCase_of_lang {t : String} (hs : Lang (literalCI t) s) :
    s.map foldCase = t.toList.map foldCase := by
  rw [literalCI] at hs
  generalize t.toList = cs at hs
  induction cs generalizing s with
  | nil =>
    obtain rfl : s = [] := hs
    rfl
  | cons c cs ih =>
    obtain ⟨u, v, rfl, ⟨x, rfl, hx⟩, hv⟩ := hs
    rw [List.singleton_append, List.map_cons, List.map_cons, ih hv, beq_iff_eq.mp hx]

/-- A character of a literal text in any case, and what is around it. -/
theorem exists_cut {cs u v : List Char} {d : Char} (h : cs.map foldCase = u ++ d :: v) :
    ∃ a c b, cs = a ++ c :: b ∧ a.map foldCase = u ∧ foldCase c = d ∧ b.map foldCase = v := by
  obtain ⟨a, rest, rfl, ha, hrest⟩ := List.map_eq_append_iff.mp h
  obtain ⟨c, b, rfl, hc, hb⟩ := List.map_eq_cons_iff.mp hrest
  exact ⟨a, c, b, rfl, ha, hc, hb⟩

/-- A sequence begins like its first expression. -/
theorem Begins.seq (h : Begins ns r) (t : Regex) : Begins ns (seq r t) := by
  rintro s ⟨a, b, rfl, ha, -⟩
  obtain ⟨n, hn, hstarts⟩ := h a ha
  exact ⟨n, hn, hstarts.append b⟩

/-- An alternative begins like one of its expressions. -/
theorem Begins.alt {ns' : List Needle} (h : Begins ns r) (h' : Begins ns' r') :
    Begins (ns ++ ns') (alt r r') := by
  rintro s (hs | hs)
  · obtain ⟨n, hn, hstarts⟩ := h s hs
    exact ⟨n, List.mem_append_left _ hn, hstarts⟩
  · obtain ⟨n, hn, hstarts⟩ := h' s hs
    exact ⟨n, List.mem_append_right _ hn, hstarts⟩

/-! ## What expressions end with -/

private theorem test_of_ends {test : List Char → List Char → Bool} {rs : List Regex} {c c' : Cursor}
    (h : c' ∈ ends (cat (rs ++ [look test])) c) : test c'.before c'.after = true := by
  induction rs generalizing c with
  | nil =>
    obtain ⟨c₁, hlook, hempty⟩ := List.mem_flatMap.mp h
    obtain rfl := List.mem_singleton.mp hempty
    rw [ends] at hlook
    split at hlook
    · next htest =>
      obtain rfl := List.mem_singleton.mp hlook
      exact htest
    · contradiction
  | cons r rs ih =>
    obtain ⟨c₁, -, hrest⟩ := List.mem_flatMap.mp h
    exact ih hrest

/-- A test at the end of a sequence holds around the end of its match. -/
theorem test_of_matchAt {test : List Char → List Char → Bool} {rs : List Regex}
    {text : List Char} {i : ℕ} {m : Match}
    (h : matchAt (cat (rs ++ [look test])) text i = some m) :
    test (m.text.reverse ++ m.before) m.after = true := by
  obtain ⟨c, hc, rfl⟩ := Option.map_eq_some_iff.mp h
  have hmem := List.mem_of_mem_head? hc
  obtain ⟨s, -, hafter, hbefore⟩ := ends_sound hmem
  have htest := test_of_ends hmem
  change text.drop i = s ++ c.after at hafter
  dsimp only at hbefore ⊢
  rw [hafter, List.length_append, Nat.add_sub_cancel, List.take_left, ← hbefore]
  exact htest

end

end HzjDds.Regex
