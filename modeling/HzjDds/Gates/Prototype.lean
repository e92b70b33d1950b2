import HzjDds.Gates.Report
import HzjDds.Regex.Fits

/-!
# Prototypes in a header

Source: `scripts/eval/test_api_surface.py:31–84`. What `_extract_prototype` cuts out of the text of
a header for a function: where the pattern finds the name, and how far the scan of the parentheses
goes.
-/

namespace HzjDds.Gates.ApiSurface

open Python Regex

/-- Characters of `\w`: no other ASCII characters than letters, digits and the underscore, and no
white space. -/
structure IdentClass extends WordClass where
  onlyAscii : ∀ c, c.toNat < 128 → isWord c = true → asciiWord c = true
  notSpace : ∀ c, isSpace c = true → isWord c = false

/-- `[\w\s\*]`. -/
def isTypeChar (w : IdentClass) (c : Char) : Bool := w.isWord c || isSpace c || c == '*'

/-- The pattern of `_extract_prototype`. Group 0 tells how far group 1 is behind the beginning of a
match. -/
def prototypeRe (w : IdentClass) (func : String) : Regex := cat [
  group 0 (alt lineStart (char (· == '\n'))), group 1 (many false 1 none (isTypeChar w)),
  wordBoundary w.toWordClass, literal func, spaces, char (· == '(')]

/-- `text.find(sub, start)`. -/
def find (sub text : List Char) (start : ℕ) : Option ℕ :=
  (List.range (text.length + 1)).find? fun i ↦ start ≤ i && sub.isPrefixOf (text.drop i)

/-- Number of characters that the scan takes until no parenthesis is open. -/
def closing : ℕ → List Char → ℕ
  | 0, _ => 0
  | _ + 1, [] => 0
  | depth + 1, c :: cs =>
    1 + closing (if c = '(' then depth + 2 else if c = ')' then depth else depth + 1) cs

/-- Where the text that `_extract_prototype` cuts out begins and ends. The name is found, since it
is in the match. -/
def prototypeSpan (w : IdentClass) (func : String) (text : List Char) : Option (ℕ × ℕ) :=
  (search (prototypeRe w func) text).bind fun m ↦
    (find func.toList text m.start).bind fun fnameIdx ↦
      (find ['('] text fnameIdx).map fun i ↦
        (m.start + ((m.groups.lookup 0).getD []).length, i + 1 + closing 1 (text.drop (i + 1)))

/-- `re.sub(r"\s+", " ", proto)`, behind white space or not. -/
def collapse : Bool → List Char → List Char
  | _, [] => []
  | behindSpace, c :: cs =>
    if isSpace c then if behindSpace then collapse true cs else ' ' :: collapse true cs
    else c :: collapse false cs

/-- A text with its white space normalised. -/
def normalize (s : List Char) : List Char := stripList isSpace (collapse false s)

/-- `_extract_prototype`. -/
def extractPrototype (w : IdentClass) (text func : String) : Option String :=
  (prototypeSpan w func text.toList).bind fun (start, stop) ↦
    let proto := normalize ((text.toList.drop start).take (stop - start))
    if proto = [] then none else some (.ofList proto)

/-! ## What the pattern matches -/

/-- A name of ASCII letters, digits and underscores. -/
def Ident (func : String) : Prop := func.toList ≠ [] ∧ ∀ c ∈ func.toList, asciiWord c = true

/-- A part of a text ends where a line begins. -/
def AtLine (lead : List Char) : Prop := ∀ c ∈ lead.getLast?, c = '\n'

/-- A place where a line begins with words, white space and stars up to the name of a function, as a
word, and a parenthesis. -/
structure Mention (w : IdentClass) (func : String) (text lead words gap rest : List Char) :
    Prop where
  text_eq : text = lead ++ (words ++ (func.toList ++ (gap ++ '(' :: rest)))
  line : AtLine lead
  words_ne : words ≠ []
  wordsType : ∀ c ∈ words, isTypeChar w c = true
  apart : ∀ c ∈ words.getLast?, w.isWord c = false
  gapSpace : ∀ c ∈ gap, isSpace c = true

section

variable {w : IdentClass} {func : String} {text lead words gap rest : List Char} {m : Match}
  {c c' : Cursor}

private theorem not_isWord {c : Char} (hc : c.toNat < 128) (hword : asciiWord c = false) :
    w.isWord c = false := by
  by_contra h
  rw [Bool.not_eq_false] at h
  rw [w.onlyAscii c hc h] at hword
  contradiction

/-- A parenthesis or a slash is no character of a type. -/
theorem not_isTypeChar {c : Char} (hc : c = '(' ∨ c = '/') : isTypeChar w c = false := by
  rcases hc with rfl | rfl
  · rw [isTypeChar, not_isWord (by decide) (by decide)]
    decide
  · rw [isTypeChar, not_isWord (by decide) (by decide)]
    decide

private theorem boundary_iff (hfunc : Ident func) {before s : List Char} :
    (before.head?.any w.isWord != (func.toList ++ s).head?.any w.isWord) = true ↔
      ∀ c ∈ before.head?, w.isWord c = false := by
  obtain ⟨x, name, hname⟩ := List.exists_cons_of_ne_nil hfunc.1
  have hx : w.isWord x = true := w.ascii x (hfunc.2 x (hname ▸ List.mem_cons_self))
  rw [hname, List.cons_append, List.head?_cons, Option.any_some, hx, bne_iff_ne]
  cases before.head? <;> simp

/-- What the pattern matches. -/
theorem exists_of_mem_ends (hfunc : Ident func) (h : c' ∈ ends (prototypeRe w func) c) :
    ∃ nl words gap, c.after = nl ++ (words ++ (func.toList ++ (gap ++ '(' :: c'.after))) ∧
      (nl = [] ∧ (∀ x ∈ c.before.head?, x = '\n') ∨ nl = ['\n']) ∧ words ≠ [] ∧
      (∀ x ∈ words, isTypeChar w x = true) ∧ (∀ x ∈ words.getLast?, w.isWord x = false) ∧
      (∀ x ∈ gap, isSpace x = true) ∧ c'.groups.lookup 0 = some nl := by
  obtain ⟨c₁, hc₁, h⟩ := List.mem_flatMap.mp h
  obtain ⟨c₂, hc₂, h⟩ := List.mem_flatMap.mp h
  obtain ⟨nl, hafter₁, hbefore₁, hnl, m₁, -, hgroups₁⟩ := exists_of_ends_group hc₁
  obtain ⟨words, hafter₂, hbefore₂, ⟨hne, -, hwords⟩, m₂, hm₂, hgroups₂⟩ :=
    exists_of_ends_group hc₂
  obtain ⟨_, hafter, -, _, _, rfl, ⟨rfl, hboundary⟩, _, _, rfl, hname, gap, _, rfl,
    ⟨-, -, hgap⟩, _, _, rfl, ⟨x, rfl, hx⟩, rfl⟩ := fits_of_ends h
  rw [fits_literal] at hname
  have hparen : x = '(' := beq_iff_eq.mp hx
  subst hname hparen
  refine ⟨nl, words, gap, ?_, ?_, List.ne_nil_of_length_pos hne, hwords, ?_, hgap, ?_⟩
  · rw [hafter₁, hafter₂, hafter]
    simp
  · rcases hnl with ⟨rfl, hline⟩ | ⟨y, rfl, hy⟩
    · refine Or.inl ⟨rfl, fun z hz ↦ ?_⟩
      dsimp only at hline
      rw [Option.mem_def.mp hz] at hline
      simpa using hline
    · exact Or.inr (by rw [beq_iff_eq.mp hy])
  · intro y hy
    rw [List.append_assoc] at hboundary
    apply (boundary_iff hfunc).mp hboundary
    rw [hbefore₂, List.head?_append, List.head?_reverse, Option.mem_def.mp hy]
    rfl
  · have hfree : groupFree (cat [wordBoundary w.toWordClass, literal func, spaces,
        char (· == '(')]) = true := by
      simp [cat, groupFree, groupFree_literal, wordBoundary, spaces]
    rw [groups_of_ends h hfree, hgroups₂, groups_of_ends hm₂ rfl, hgroups₁]
    rfl

/-- The pattern matches at every mention. -/
theorem Mention.matchesAt (hfunc : Ident func) (h : Mention w func text lead words gap rest) :
    MatchesAt (prototypeRe w func) text lead.length := by
  rw [h.text_eq, matchesAt_append_iff]
  refine ⟨words ++ (func.toList ++ (gap ++ ['('])), rest, by simp, ?_⟩
  refine ⟨[], _, rfl, Or.inl ⟨rfl, ?_⟩, words, _, rfl,
    ⟨List.length_pos_of_ne_nil h.words_ne, by simp, h.wordsType⟩, [], _, rfl, ⟨rfl, ?_⟩,
    func.toList, _, rfl, fits_literal.mpr rfl, gap, _, rfl, ⟨Nat.zero_le _, by simp, h.gapSpace⟩,
    ['('], [], rfl, ⟨'(', rfl, rfl⟩, rfl⟩
  · change (lead.reverse.head?.all (· == '\n')) = true
    rw [List.head?_reverse]
    cases hlast : lead.getLast? with
    | none => rfl
    | some c => exact beq_iff_eq.mpr (h.line c hlast)
  · change ((words.reverse ++ lead.reverse).head?.any w.isWord !=
      (func.toList ++ (gap ++ ['(']) ++ rest).head?.any w.isWord) = true
    rw [List.append_assoc, boundary_iff hfunc, List.head?_append, List.head?_reverse]
    obtain ⟨c, hlast⟩ := Option.ne_none_iff_exists'.mp
      (mt List.getLast?_eq_none_iff.mp h.words_ne)
    rw [hlast]
    exact fun x hx ↦ h.apart x (hlast.trans hx)

/-- A match of the pattern is a mention, perhaps with the line break before it. -/
theorem mention_of_matchAt (hfunc : Ident func)
    (h : matchAt (prototypeRe w func) text m.start = some m) :
    ∃ lead words gap rest, Mention w func text lead words gap rest ∧
      lead.length = m.start + ((m.groups.lookup 0).getD []).length ∧
      lead.length ≤ m.start + 1 ∧ ∀ c ∈ lead.drop m.start, c = '\n' := by
  obtain ⟨c', hc', hm⟩ := Option.map_eq_some_iff.mp h
  have hbefore := (matchAt_spec h).1
  have hlength : (text.take m.start).length = m.start := by
    rw [← List.length_reverse, ← hbefore]
    rfl
  obtain ⟨nl, words, gap, hafter, hnl, hne, hwords, hapart, hgap, hgroups⟩ :=
    exists_of_mem_ends hfunc (List.mem_of_mem_head? hc')
  have hlookup : (m.groups.lookup 0).getD [] = nl := by
    rw [← hm, hgroups]
    rfl
  refine ⟨text.take m.start ++ nl, words, gap, c'.after, ⟨?_, ?_, hne, hwords, hapart, hgap⟩, ?_,
    ?_, ?_⟩
  · rw [List.append_assoc, ← hafter, List.take_append_drop]
  · rcases hnl with ⟨rfl, hline⟩ | rfl
    · rw [List.append_nil]
      intro c hc
      rw [← List.head?_reverse] at hc
      exact hline c hc
    · simp [AtLine]
  · rw [List.length_append, hlength, hlookup]
  · rw [List.length_append, hlength]
    rcases hnl with ⟨rfl, -⟩ | rfl <;> simp
  · rw [List.drop_left' hlength]
    rcases hnl with ⟨rfl, -⟩ | rfl <;> simp

/-- The first place of a text at which another one stands. -/
theorem find_eq_some_iff {sub : List Char} {start i : ℕ} : find sub text start = some i ↔
    start ≤ i ∧ i ≤ text.length ∧ sub <+: text.drop i ∧
      ∀ j, start ≤ j → j < i → ¬ sub <+: text.drop j := by
  rw [find, List.find?_range_eq_some]
  simp only [Bool.and_eq_true, decide_eq_true_eq, List.isPrefixOf_iff_prefix, List.mem_range,
    Bool.not_eq_true', Bool.and_eq_false_iff, decide_eq_false_iff_not]
  constructor
  · rintro ⟨⟨hstart, hsub⟩, hi, hfirst⟩
    refine ⟨hstart, by omega, hsub, fun j hj hji hsub' ↦ ?_⟩
    rcases hfirst j hji with hless | hnot
    · exact hless hj
    · rw [← List.isPrefixOf_iff_prefix, hnot] at hsub'
      contradiction
  · rintro ⟨hstart, hi, hsub, hfirst⟩
    refine ⟨⟨hstart, hsub⟩, by omega, fun j hji ↦ ?_⟩
    by_cases hj : start ≤ j
    · right
      rw [← Bool.not_eq_true, List.isPrefixOf_iff_prefix]
      exact hfirst j hj hji
    · exact Or.inl hj

private theorem exists_find {sub : List Char} {start i : ℕ} (hstart : start ≤ i) (hi : i ≤ text.length)
    (hsub : sub <+: text.drop i) : ∃ j, find sub text start = some j ∧ j ≤ i := by
  cases hfind : find sub text start with
  | none =>
    rw [find, List.find?_range_eq_none] at hfind
    have hnot := hfind i (by omega)
    simp only [Bool.not_eq_true', Bool.and_eq_false_iff, decide_eq_false_iff_not] at hnot
    rcases hnot with hless | hnot
    · exact absurd hstart hless
    · rw [← List.isPrefixOf_iff_prefix, hnot] at hsub
      contradiction
  | some j =>
    refine ⟨j, rfl, ?_⟩
    obtain ⟨-, -, -, hfirst⟩ := find_eq_some_iff.mp hfind
    by_contra hlate
    exact hfirst i hstart (by omega) hsub

private theorem find_paren {lead' rest' : List Char} {start : ℕ} (htext : text = lead' ++ '(' :: rest')
    (hstart : start ≤ lead'.length) (hclean : '(' ∉ lead'.drop start) :
    find ['('] text start = some lead'.length := by
  rw [find_eq_some_iff, htext]
  refine ⟨hstart, by simp, ?_, fun j hj hless hparen ↦ ?_⟩
  · rw [List.drop_left]
    exact ⟨rest', rfl⟩
  · rw [List.drop_append_of_le_length (by omega)] at hparen
    cases hdrop : lead'.drop j with
    | nil =>
      have := List.drop_eq_nil_iff.mp hdrop
      omega
    | cons x s =>
      rw [hdrop] at hparen
      obtain rfl := (List.cons_prefix_cons.mp hparen).1
      apply hclean
      have hmem : '(' ∈ lead'.drop j := hdrop ▸ List.mem_cons_self
      rw [← Nat.add_sub_cancel' hj, ← List.drop_drop] at hmem
      exact List.mem_of_mem_drop hmem

/-- A mention has no parenthesis before its own one, and no slash. -/
theorem Mention.not_mem {x : Char} (hx : x = '(' ∨ x = '/') (hfunc : Ident func)
    (h : Mention w func text lead words gap rest) : x ∉ words ++ (func.toList ++ gap) := by
  simp only [List.mem_append, not_or]
  refine ⟨fun hmem ↦ ?_, fun hmem ↦ ?_, fun hmem ↦ ?_⟩
  · have htype := h.wordsType _ hmem
    rw [not_isTypeChar hx] at htype
    contradiction
  · have hword := hfunc.2 _ hmem
    rcases hx with rfl | rfl <;> revert hword <;> decide
  · have hspace := h.gapSpace _ hmem
    rcases hx with rfl | rfl <;> revert hspace <;> decide

/-- What is cut out begins at the words of a mention, and no mention begins much earlier. -/
theorem prototypeSpan_of_search (hfunc : Ident func)
    (hsearch : search (prototypeRe w func) text = some m) :
    ∃ lead words gap rest, Mention w func text lead words gap rest ∧
      prototypeSpan w func text = some (lead.length,
        (lead ++ (words ++ (func.toList ++ gap))).length + 1 + closing 1 rest) ∧
      lead.length ≤ m.start + 1 := by
  obtain ⟨-, hmatch, -⟩ := search_eq_some hsearch
  obtain ⟨lead, words, gap, rest, hmention, hlength, hnear, hbreak⟩ :=
    mention_of_matchAt hfunc hmatch
  have htext : text = (lead ++ (words ++ (func.toList ++ gap))) ++ '(' :: rest := by
    rw [hmention.text_eq]
    simp
  have hname : func.toList <+: text.drop (lead ++ words).length := by
    rw [hmention.text_eq, ← List.append_assoc lead, List.drop_left]
    exact List.prefix_append _ _
  have hstart : m.start ≤ (lead ++ words).length := by
    rw [List.length_append]
    omega
  obtain ⟨fnameIdx, hfind, hidx⟩ := exists_find hstart (by rw [htext]; simp) hname
  obtain ⟨hafter, -, -, -⟩ := find_eq_some_iff.mp hfind
  have hclean : '(' ∉ (lead ++ (words ++ (func.toList ++ gap))).drop fnameIdx := by
    intro hmem
    have hmem' : '(' ∈ (lead ++ (words ++ (func.toList ++ gap))).drop m.start := by
      rw [← Nat.add_sub_cancel' hafter, ← List.drop_drop] at hmem
      exact List.mem_of_mem_drop hmem
    rw [List.drop_append_of_le_length (by omega), List.mem_append] at hmem'
    rcases hmem' with hlead | hrest
    · exact absurd (hbreak _ hlead) (by decide)
    · exact hmention.not_mem (Or.inl rfl) hfunc hrest
  have hparen := find_paren htext (by simp at hidx ⊢; omega) hclean
  refine ⟨lead, words, gap, rest, hmention, ?_, hnear⟩
  rw [prototypeSpan, hsearch, Option.bind_some, hfind, Option.bind_some, hparen, Option.map_some,
    ← hlength]
  have hdrop : text.drop ((lead ++ (words ++ (func.toList ++ gap))).length + 1) = rest := by
    rw [htext, ← List.drop_drop, List.drop_left]
    rfl
  rw [hdrop]

/-- Either nothing is cut out, and the function is mentioned nowhere, or it is cut out where the
function is mentioned first. -/
theorem prototypeSpan_cases (hfunc : Ident func) (text : List Char) :
    (prototypeSpan w func text = none ∧
        ∀ lead words gap rest, ¬ Mention w func text lead words gap rest) ∨
      ∃ lead words gap rest, Mention w func text lead words gap rest ∧
        prototypeSpan w func text = some (lead.length,
          (lead ++ (words ++ (func.toList ++ gap))).length + 1 + closing 1 rest) ∧
        ∀ lead' words' gap' rest', Mention w func text lead' words' gap' rest' →
          lead.length ≤ lead'.length + 1 := by
  cases hsearch : search (prototypeRe w func) text with
  | none =>
    refine Or.inl ⟨by rw [prototypeSpan, hsearch]; rfl, fun lead words gap rest h ↦ ?_⟩
    exact search_eq_none hsearch _ (h.matchesAt hfunc)
  | some m =>
    right
    obtain ⟨lead, words, gap, rest, hmention, hspan, hnear⟩ := prototypeSpan_of_search hfunc hsearch
    refine ⟨lead, words, gap, rest, hmention, hspan, fun lead' words' gap' rest' h ↦ ?_⟩
    obtain ⟨-, -, hfirst⟩ := search_eq_some hsearch
    have hstart : m.start ≤ lead'.length := by
      by_contra hless
      exact hfirst _ (Nat.lt_of_not_le hless) (h.matchesAt hfunc)
    omega

/-! ## Where the name of a mention stands -/

private theorem exists_getElem?_mid {a b c : List Char} {k : ℕ} (hstart : a.length ≤ k)
    (hstop : k < a.length + b.length) : ∃ x ∈ b, (a ++ (b ++ c))[k]? = some x := by
  rw [List.getElem?_append_right hstart, List.getElem?_append_left (by omega),
    List.getElem?_eq_getElem (by omega)]
  exact ⟨_, List.getElem_mem _, rfl⟩

private theorem Mention.paren_le {lead' words' gap' rest' : List Char} (hfunc : Ident func)
    (h : Mention w func text lead words gap rest)
    (h' : Mention w func text lead' words' gap' rest') (hlead : lead.length ≤ lead'.length + 1) :
    (lead ++ (words ++ (func.toList ++ gap))).length ≤
      (lead' ++ (words' ++ (func.toList ++ gap'))).length := by
  by_contra hbefore
  have hwords' : 0 < words'.length := List.length_pos_of_ne_nil h'.words_ne
  simp only [List.length_append] at hbefore
  -- the other parenthesis would stand in this mention
  obtain ⟨x, hx, hk⟩ := @exists_getElem?_mid lead (words ++ (func.toList ++ gap)) ('(' :: rest)
    (lead' ++ (words' ++ (func.toList ++ gap'))).length
    (by simp only [List.length_append]; omega) (by simp only [List.length_append]; omega)
  obtain ⟨y, hy, hk'⟩ := @exists_getElem?_mid (lead' ++ (words' ++ (func.toList ++ gap'))) ['(']
    rest' _ (le_refl _) (by simp)
  have htext : lead ++ (words ++ (func.toList ++ gap) ++ '(' :: rest) = text := by
    rw [h.text_eq]
    simp
  have htext' : lead' ++ (words' ++ (func.toList ++ gap')) ++ (['('] ++ rest') = text := by
    rw [h'.text_eq]
    simp
  rw [htext] at hk
  rw [htext', hk] at hk'
  obtain rfl := Option.some.inj hk'
  obtain rfl := List.mem_singleton.mp hy
  exact h.not_mem (Or.inl rfl) hfunc hx

/-- A mention that begins no later has its name no later. -/
theorem Mention.le_of_le {lead' words' gap' rest' : List Char} (hfunc : Ident func)
    (h : Mention w func text lead words gap rest)
    (h' : Mention w func text lead' words' gap' rest') (hlead : lead.length ≤ lead'.length + 1) :
    (lead ++ words).length ≤ (lead' ++ words').length := by
  have hparen := h.paren_le hfunc h' hlead
  by_contra hless
  have hname : 0 < func.toList.length := List.length_pos_of_ne_nil hfunc.1
  simp only [List.length_append] at hless hparen
  -- the last character of the name would be white space
  obtain ⟨x, hx, hk⟩ := @exists_getElem?_mid (lead ++ words) func.toList (gap ++ '(' :: rest)
    ((lead ++ words).length + func.toList.length - 1) (by omega) (by omega)
  obtain ⟨y, hy, hk'⟩ := @exists_getElem?_mid (lead' ++ (words' ++ func.toList)) gap'
    ('(' :: rest') ((lead ++ words).length + func.toList.length - 1)
    (by simp only [List.length_append]; omega) (by simp only [List.length_append]; omega)
  have htext : lead ++ words ++ (func.toList ++ (gap ++ '(' :: rest)) = text := by
    rw [h.text_eq]
    simp
  have htext' : lead' ++ (words' ++ func.toList) ++ (gap' ++ '(' :: rest') = text := by
    rw [h'.text_eq]
    simp
  rw [htext] at hk
  rw [htext', hk] at hk'
  obtain rfl := Option.some.inj hk'
  have hword := w.ascii x (hfunc.2 x hx)
  rw [w.notSpace x (h'.gapSpace x hy)] at hword
  contradiction

end

end HzjDds.Gates.ApiSurface
