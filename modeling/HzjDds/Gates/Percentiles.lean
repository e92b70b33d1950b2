import HzjDds.Gates.Fabricate
import HzjDds.Regex.Fits

/-!
# Booked percentile tokens

Source: `scripts/check_dod_evidence.py:123–127,252–260` and
`scripts/check_dual_chain_baseline.py:99–104,200–208`, which have one pattern. Which tokens in a text
the pattern reports, whatever stands around them.
-/

namespace HzjDds.Gates

open Python Regex

/-! ## Tokens and ordinals -/

/-- Numbers of the booked percentiles. -/
def numbers : List String := ["50", "90", "95", "99"]

/-- Characters of ASCII identifiers. -/
def IdentChar (c : Char) : Prop := c.isAlphanum = true ∨ c = '_'

instance (c : Char) : Decidable (IdentChar c) :=
  inferInstanceAs (Decidable (c.isAlphanum = true ∨ c = '_'))

/-- Characters outside ASCII that match a letter when case is ignored. -/
def Stray (c : Char) : Prop := c ∈ ['\u017f', '\u212a', '\u0130', '\u0131']

instance (c : Char) : Decidable (Stray c) := inferInstanceAs (Decidable (c ∈ _))

/-- A number of a percentile, and the digits of its fraction. -/
inductive Number : List Char → List Char → Prop where
  | whole {number : String} (hnumber : number ∈ numbers) : Number number.toList []
  | fraction {digits : List Char} (hne : digits ≠ [])
    (hdigits : ∀ d ∈ digits, (decimal d).isSome = true) :
    Number ('9' :: '9' :: '.' :: digits) digits

/-- A booked percentile token, and the digits of its fraction. -/
inductive Token : List Char → List Char → Prop where
  | intro {c : Char} {number fraction : List Char} (hp : c = 'p' ∨ c = 'P')
    (hnumber : Number number fraction) : Token (c :: number) fraction

/-- A token of a text that is not embedded in a longer identifier or number. -/
structure Occurrence (text : String) (before token fraction after : List Char) : Prop where
  text_eq : text.toList = before ++ (token ++ after)
  token : Token token fraction
  identBefore : ∀ c ∈ before.getLast?, ¬ IdentChar c
  identAfter : ∀ c ∈ after.head?, ¬ IdentChar c
  digits : fraction ≠ [] → ∀ c ∈ after.head?, decimal c = none
  number : ∀ d rest, after = '.' :: d :: rest → decimal d = none

/-- An ordinal of a text, with white space and the word percentile behind it. -/
structure Ordinal (text : String) (before number suffix gap word after : List Char) : Prop where
  text_eq : text.toList = before ++ (number ++ (suffix ++ (gap ++ (word ++ after))))
  number : ∃ n ∈ numbers, number = n.toList
  suffix : suffix.map Char.toLower = ['t', 'h']
  gap : gap ≠ [] ∧ ∀ c ∈ gap, isSpace c = true
  word : word.map Char.toLower = "percentile".toList

/-- A match that begins at a position is reported. -/
def NoticedAt (text : String) (i : ℕ) : Prop :=
  ∃ m ∈ finditer percentileRe text.toList, m.start = i

/-- What stands around a token does not hide it: neither a full stop nor one of the letters outside
ASCII. Behind a fraction they may stand if one of its later digits is not of ASCII. -/
structure Visible (before fraction after : List Char) : Prop where
  before : ∀ c ∈ before.getLast?, ¬ Stray c
  after : (∀ c ∈ after.head?, ¬ Stray c ∧ c ≠ '.') ∨ ∃ d ∈ fraction.tail, d.isDigit = false

/-! ## Characters -/

private theorem foldCase_eq_p {c : Char} : foldCase c = 'p' ↔ c = 'p' ∨ c = 'P' := by
  constructor
  · intro h
    have hmem : c ∈ variants 'p' := mem_variants h
    have hvariants : variants 'p' = ['p', 'P'] := by decide
    simpa [hvariants] using hmem
  · rintro (rfl | rfl) <;> rfl

private theorem foldCase_of_not_stray {c : Char} (h : ¬ Stray c) : foldCase c = c.toLower := by
  simp only [Stray, List.mem_cons, List.not_mem_nil, or_false, not_or] at h
  obtain ⟨h₁, h₂, h₃, h₄⟩ := h
  rw [foldCase, if_neg h₁, if_neg h₂, if_neg (not_or.mpr ⟨h₃, h₄⟩)]

private theorem foldCase_of_toLower {c d : Char} (h : c.toLower = d) (hd : ¬ Stray d) :
    foldCase c = d := by
  rw [foldCase_of_not_stray, h]
  intro hc
  apply hd
  rw [← h]
  simp only [Stray, List.mem_cons, List.not_mem_nil, or_false] at hc
  rcases hc with rfl | rfl | rfl | rfl <;> decide

private theorem asciiWord_iff (c : Char) : asciiWord c = true ↔ IdentChar c ∨ Stray c := by
  by_cases hstray : Stray c
  · refine iff_of_true ?_ (Or.inr hstray)
    simp only [Stray, List.mem_cons, List.not_mem_nil, or_false] at hstray
    rcases hstray with rfl | rfl | rfl | rfl <;> decide
  · have hlower : c.toLower.isAlphanum = c.isAlphanum := by
      by_cases hupper : c.isUpper = true
      · have halpha : c.isAlpha = true := by rw [Char.isAlpha, hupper, Bool.true_or]
        rw [Char.isAlphanum, Char.isAlphanum, Char.isAlpha_toLower_eq_isAlpha, halpha,
          Bool.true_or, Bool.true_or]
      · rw [Char.toLower_eq_of_not_isUpper hupper]
    rw [asciiWord, foldCase_of_not_stray hstray, hlower, Bool.or_eq_true, beq_iff_eq, IdentChar]
    exact (or_iff_left hstray).symm

private theorem asciiWord_eq_false_iff (c : Char) : asciiWord c = false ↔ ¬ IdentChar c ∧ ¬ Stray c := by
  rw [← Bool.not_eq_true, asciiWord_iff, not_or]

/-- Below the digits, and outside ASCII, there are no other characters of the class. -/
theorem not_asciiWord_of_toNat {c : Char} (h : c.toNat < 48 ∨ 128 ≤ c.toNat) (hstray : ¬ Stray c) :
    asciiWord c = false := by
  rw [asciiWord_eq_false_iff]
  refine ⟨?_, hstray⟩
  rintro (halnum | rfl)
  · simp only [Char.isAlphanum, Char.isAlpha, Char.isUpper, Char.isLower, Char.isDigit,
      Bool.or_eq_true, Bool.and_eq_true, decide_eq_true_eq, UInt32.le_iff_toNat_le] at halnum
    change ((65 ≤ c.toNat ∧ c.toNat ≤ 90) ∨ (97 ≤ c.toNat ∧ c.toNat ≤ 122)) ∨
      (48 ≤ c.toNat ∧ c.toNat ≤ 57) at halnum
    omega
  · revert h
    decide

private theorem not_asciiWord_of_decimal {d : Char} (hd : (decimal d).isSome = true)
    (hdigit : d.isDigit = false) : asciiWord d = false ∧ d ≠ '.' := by
  have hlarge : 128 ≤ d.toNat := by
    rw [decimal, Option.isSome_map] at hd
    obtain ⟨first, hfind⟩ := Option.isSome_iff_exists.mp hd
    have hzeros : ∀ n ∈ decimalZeros, n = 48 ∨ 128 ≤ n := by decide
    have hrange := List.find?_some hfind
    rw [Bool.and_eq_true, decide_eq_true_eq, decide_eq_true_eq] at hrange
    rcases hzeros first (List.mem_of_find?_eq_some hfind) with rfl | hfirst
    · have : d.isDigit = true := by
        rw [Char.isDigit, Bool.and_eq_true, decide_eq_true_eq, decide_eq_true_eq]
        exact ⟨hrange.1, Nat.le_of_lt_succ hrange.2⟩
      rw [this] at hdigit
      contradiction
    · exact hfirst.trans hrange.1
  constructor
  · refine not_asciiWord_of_toNat (Or.inr hlarge) fun hstray ↦ ?_
    simp only [Stray, List.mem_cons, List.not_mem_nil, or_false] at hstray
    rcases hstray with rfl | rfl | rfl | rfl <;> revert hd <;> decide
  · rintro rfl
    revert hlarge
    decide

/-! ## The two alternatives of the pattern -/

/-- Number of the first alternative of `_PERCENTILE_RE`. -/
def numberRe : Regex := oneOf [literal "50", literal "90", literal "95",
  cat [literal "99", optional (cat [literal ".", many true 1 none fun c ↦ (decimal c).isSome])]]

/-- First alternative of `_PERCENTILE_RE`. -/
def tokenRe : Regex := cat [
  look fun before _ ↦ !before.head?.any asciiWord,
  literalCI "p",
  numberRe,
  look fun _ after ↦ !after.head?.any fun c ↦ asciiWord c || c == '.']

/-- Second alternative of `_PERCENTILE_RE`. -/
def ordinalRe : Regex := cat [
  oneOf [literal "50", literal "90", literal "95", literal "99"],
  oneOf [literalCI "st", literalCI "nd", literalCI "rd", literalCI "th"],
  someSpaces, literalCI "percentile"]

private theorem percentileRe_eq : percentileRe = alt tokenRe ordinalRe := rfl

private theorem none_next {p : Char → Bool} {s : List Char} :
    (!s.head?.any p) = true ↔ ∀ c ∈ s.head?, p c = false := by
  cases s <;> simp

section

variable {before s rest : List Char}

/-- The number of the pattern is the number of a percentile. -/
theorem fits_numberRe : Fits numberRe before s rest ↔ ∃ fraction, Number s fraction := by
  rw [numberRe, fits_oneOf]
  constructor
  · rintro ⟨r, hr, hs⟩
    simp only [List.mem_cons, List.not_mem_nil, or_false] at hr
    rcases hr with rfl | rfl | rfl | rfl
    · exact ⟨[], fits_literal.mp hs ▸ .whole (by decide)⟩
    · exact ⟨[], fits_literal.mp hs ▸ .whole (by decide)⟩
    · exact ⟨[], fits_literal.mp hs ▸ .whole (by decide)⟩
    · obtain ⟨_, _, rfl, hnumber, _, _, rfl, hfraction, rfl⟩ := hs
      rw [fits_literal.mp hnumber, List.append_nil]
      rcases hfraction with ⟨_, _, rfl, hpoint, digits, _, rfl, ⟨hlength, -, hdigits⟩, rfl⟩ | rfl
      · rw [fits_literal.mp hpoint, List.append_nil]
        exact ⟨digits, .fraction (List.ne_nil_of_length_pos hlength) hdigits⟩
      · exact ⟨[], @Number.whole "99" (by decide)⟩
  · rintro ⟨fraction, hnumber⟩
    cases hnumber with
    | whole hnumber =>
      simp only [numbers, List.mem_cons, List.not_mem_nil, or_false] at hnumber
      rcases hnumber with rfl | rfl | rfl | rfl
      · exact ⟨_, .head _, fits_literal.mpr rfl⟩
      · exact ⟨_, .tail _ (.head _), fits_literal.mpr rfl⟩
      · exact ⟨_, .tail _ (.tail _ (.head _)), fits_literal.mpr rfl⟩
      · refine ⟨_, .tail _ (.tail _ (.tail _ (.head _))), ?_⟩
        exact ⟨"99".toList, [], rfl, fits_literal.mpr rfl, [], [], rfl, Or.inr rfl, rfl⟩
    | fraction hne hdigits =>
      refine ⟨_, .tail _ (.tail _ (.tail _ (.head _))), ?_⟩
      refine ⟨"99".toList, '.' :: fraction, rfl, fits_literal.mpr rfl, '.' :: fraction, [],
        (List.append_nil _).symm, Or.inl ⟨['.'], fraction, rfl, fits_literal.mpr rfl, fraction,
          [], (List.append_nil _).symm, ⟨?_, by simp, hdigits⟩, rfl⟩, rfl⟩
      exact List.length_pos_of_ne_nil hne

private theorem fits_p : Fits (literalCI "p") before s rest ↔ ∃ c, s = [c] ∧ (c = 'p' ∨ c = 'P') := by
  rw [fits_literalCI]
  constructor
  · intro h
    obtain ⟨c, t, rfl, hc, ht⟩ := List.map_eq_cons_iff.mp h
    obtain rfl := List.map_eq_nil_iff.mp ht
    exact ⟨c, rfl, foldCase_eq_p.mp hc⟩
  · rintro ⟨c, rfl, hc⟩
    exact congrArg (fun d ↦ [d]) (foldCase_eq_p.mpr hc)

private theorem fits_tokenRe : Fits tokenRe before s rest ↔
    (∀ c ∈ before.head?, asciiWord c = false) ∧ (∃ fraction, Token s fraction) ∧
      ∀ c ∈ rest.head?, asciiWord c = false ∧ c ≠ '.' := by
  have hbehind : (!rest.head?.any fun c ↦ asciiWord c || c == '.') = true ↔
      ∀ c ∈ rest.head?, asciiWord c = false ∧ c ≠ '.' := by
    rw [none_next]
    simp
  constructor
  · rintro ⟨_, _, rfl, ⟨rfl, hbefore⟩, _, _, rfl, hp, _, _, rfl, hnumber, _, _, rfl,
      ⟨rfl, hrest⟩, rfl⟩
    obtain ⟨c, rfl, hc⟩ := fits_p.mp hp
    obtain ⟨fraction, hnumber⟩ := fits_numberRe.mp hnumber
    refine ⟨none_next.mp hbefore, ⟨fraction, ?_⟩, hbehind.mp hrest⟩
    rw [List.append_nil, List.append_nil]
    exact .intro hc hnumber
  · rintro ⟨hbefore, ⟨fraction, ⟨hc, hnumber⟩⟩, hrest⟩
    refine ⟨[], _, rfl, ⟨rfl, none_next.mpr hbefore⟩, [_], _, rfl, fits_p.mpr ⟨_, rfl, hc⟩, _, [],
      (List.append_nil _).symm, fits_numberRe.mpr ⟨fraction, hnumber⟩, [], [], rfl,
      ⟨rfl, hbehind.mpr hrest⟩, rfl⟩

private theorem map_foldCase_of_toLower {t : List Char} (h : s.map Char.toLower = t)
    (ht : ∀ d ∈ t, ¬ Stray d) : s.map foldCase = t := by
  subst h
  apply List.map_congr_left
  intro c hc
  exact foldCase_of_toLower rfl (ht _ (List.mem_map_of_mem hc))

/-- The second alternative matches ordinals. -/
theorem Ordinal.fits {text : String} {number suffix gap word after : List Char}
    (h : Ordinal text before number suffix gap word after) (behind : List Char) :
    Fits ordinalRe behind (number ++ (suffix ++ (gap ++ word))) after := by
  obtain ⟨n, hn, hnumber⟩ := h.number
  refine ⟨number, _, rfl, fits_oneOf.mpr ⟨literal n, ?_, fits_literal.mpr hnumber⟩,
    suffix, _, rfl, fits_oneOf.mpr ⟨literalCI "th", by simp, ?_⟩,
    gap, _, rfl, ⟨List.length_pos_of_ne_nil h.gap.1, by simp, h.gap.2⟩,
    word, [], (List.append_nil word).symm, ?_, rfl⟩
  · exact List.mem_map_of_mem (f := literal) hn
  · rw [fits_literalCI, map_foldCase_of_toLower h.suffix (by simp [Stray])]
    rfl
  · rw [fits_literalCI, map_foldCase_of_toLower h.word (by simp [Stray])]
    rfl

/-! ## No match inside another one -/

/-- First characters of a token. -/
def tokenNeedle : Needle := [some ['p', 'P'], some ['5', '9']]

/-- First characters of an ordinal. -/
def ordinalNeedle : Needle := [some ['5', '9'], some ['0', '5', '9'],
  some (['s', 'n', 'r', 't'].flatMap variants), some (['t', 'd', 'h'].flatMap variants)]

private theorem exists_digits {n : String} (hn : n ∈ numbers) :
    ∃ a ∈ ['5', '9'], ∃ b ∈ ['0', '5', '9'], n.toList = [a, b] := by
  simp only [numbers, List.mem_cons, List.not_mem_nil, or_false] at hn
  rcases hn with rfl | rfl | rfl | rfl
  · exact ⟨'5', by decide, '0', by decide, rfl⟩
  · exact ⟨'9', by decide, '0', by decide, rfl⟩
  · exact ⟨'9', by decide, '5', by decide, rfl⟩
  · exact ⟨'9', by decide, '9', by decide, rfl⟩

/-- A token begins so. -/
theorem Token.starts {fraction : List Char} (h : Token s fraction) : Starts tokenNeedle s := by
  obtain ⟨hp, hnumber⟩ := h
  constructor
  · rintro cs ⟨⟩
    simpa using hp
  · cases hnumber with
    | whole hnumber =>
      obtain ⟨a, ha, b, -, hdigits⟩ := exists_digits hnumber
      rw [hdigits]
      refine ⟨?_, trivial⟩
      rintro cs ⟨⟩
      exact ha
    | fraction => simp [Starts]

/-- An ordinal of the pattern begins so. -/
theorem starts_ordinal (h : Fits ordinalRe before s rest) : Starts ordinalNeedle s := by
  obtain ⟨number, s, rfl, hnumber, suffix, s, rfl, hsuffix, -⟩ := h
  have htwo : ∃ x y, suffix = [x, y] ∧ x ∈ ['s', 'n', 'r', 't'].flatMap variants ∧
      y ∈ ['t', 'd', 'h'].flatMap variants := by
    obtain ⟨r, hr, hfits⟩ := fits_oneOf.mp hsuffix
    simp only [List.mem_cons, List.not_mem_nil, or_false] at hr
    rcases hr with rfl | rfl | rfl | rfl
    all_goals
      obtain ⟨x, t, rfl, hx, ht⟩ := List.map_eq_cons_iff.mp (fits_literalCI.mp hfits)
      obtain ⟨y, t, rfl, hy, ht⟩ := List.map_eq_cons_iff.mp ht
      obtain rfl := List.map_eq_nil_iff.mp ht
      refine ⟨x, y, rfl, List.mem_flatMap.mpr ⟨_, ?_, mem_variants hx⟩,
        List.mem_flatMap.mpr ⟨_, ?_, mem_variants hy⟩⟩ <;> decide
  obtain ⟨x, y, rfl, hx, hy⟩ := htwo
  obtain ⟨r, hr, hfits⟩ := fits_oneOf.mp hnumber
  have hmap : r ∈ numbers.map literal := hr
  obtain ⟨n, hn, rfl⟩ := List.mem_map.mp hmap
  obtain ⟨a, ha, b, hb, hdigits⟩ := exists_digits hn
  rw [fits_literal.mp hfits, hdigits]
  refine ⟨?_, ?_, ?_, ?_, trivial⟩
  · rintro cs ⟨⟩
    exact ha
  · rintro cs ⟨⟩
    exact hb
  · rintro cs ⟨⟩
    exact hx
  · rintro cs ⟨⟩
    exact hy

private theorem asciiWord_of_starts (h : Starts ordinalNeedle (before ++ rest))
    (hlength : before.length < 4) : ∃ c ∈ rest.head?, asciiWord c = true := by
  have hdrop := h.drop
  have hall : ∀ o ∈ ordinalNeedle, o.any (·.all asciiWord) = true := by decide
  cases hneedle : ordinalNeedle.drop before.length with
  | nil => exact absurd (List.drop_eq_nil_iff.mp hneedle) (Nat.not_le.mpr hlength)
  | cons o n =>
    have ho : o ∈ ordinalNeedle := List.mem_of_mem_drop (hneedle ▸ List.mem_cons_self)
    rw [hneedle] at hdrop
    cases rest with
    | nil => exact hdrop.elim
    | cons c rest =>
      refine ⟨c, rfl, ?_⟩
      cases o with
      | none => exact absurd (hall none ho) (by simp)
      | some cs => exact List.all_eq_true.mp (hall _ ho) c (hdrop.1 cs rfl)

/-- No match of the pattern begins inside another one. -/
theorem noInner_percentileRe : NoInner percentileRe := by
  intro text i j m hm hij hinner
  obtain ⟨m', hm'⟩ := Option.ne_none_iff_exists'.mp hinner
  obtain ⟨-, htext, hlang⟩ := matchAt_spec hm
  obtain ⟨-, htext', -⟩ := matchAt_spec hm'
  have hfits : Fits tokenRe m.before m.text m.after ∨ Fits ordinalRe m.before m.text m.after :=
    fits_of_matchAt hm
  have hfits' : Fits tokenRe m'.before m'.text m'.after ∨
    Fits ordinalRe m'.before m'.text m'.after := fits_of_matchAt hm'
  rcases hfits' with htoken' | hordinal'
  · obtain ⟨-, ⟨fraction, htoken'⟩, -⟩ := fits_tokenRe.mp htoken'
    have hstarts : Starts tokenNeedle (text.drop j) := htext' ▸ htoken'.starts.append m'.after
    rcases hfits with htoken | hordinal
    · have hclear : clear 0 tokenNeedle tokenRe = true := by decide
      exact stop_le_of_clear hclear htoken.lang htext hij hstarts
    · have hclear : clear 0 tokenNeedle ordinalRe = true := by decide
      exact stop_le_of_clear hclear hordinal.lang htext hij hstarts
  · have hstarts : Starts ordinalNeedle (text.drop j) :=
      htext' ▸ (starts_ordinal hordinal').append m'.after
    rcases hfits with htoken | hordinal
    · -- the ordinal would have to begin with the last digits of the token
      have hclear : clear 2 ordinalNeedle tokenRe = true := by decide
      have hnear := stop_le_of_clear hclear htoken.lang htext hij hstarts
      by_contra hlong
      have hsplit : text.drop j = (text.drop j).take (i + m.text.length - j) ++ m.after := by
        have hafter : (text.drop j).drop (i + m.text.length - j) = m.after := by
          rw [List.drop_drop, Nat.add_sub_cancel' (by omega), ← List.drop_drop, htext,
            List.drop_left]
        rw [← hafter, List.take_append_drop]
      rw [hsplit] at hstarts
      have hshort : ((text.drop j).take (i + m.text.length - j)).length < 4 := by
        rw [List.length_take]
        omega
      obtain ⟨c, hc, hword⟩ := asciiWord_of_starts hstarts hshort
      obtain ⟨-, -, hbehind⟩ := fits_tokenRe.mp htoken
      rw [(hbehind c hc).1] at hword
      contradiction
    · have hclear : clear 0 ordinalNeedle ordinalRe = true := by decide
      exact stop_le_of_clear hclear hordinal.lang htext hij hstarts

/-! ## What is reported -/

variable {text : String} {token fraction after : List Char}

private theorem eq_or_mem_tail {digits : List Char} (htext : fraction ++ after = digits ++ rest)
    (hne : digits ≠ []) (hdigits : ∀ d ∈ digits, (decimal d).isSome = true)
    (hafter : ∀ c ∈ after.head?, decimal c = none) :
    after = rest ∨ ∃ d ∈ fraction.tail, d ∈ rest.head? := by
  rcases List.append_eq_append_iff.mp htext with ⟨u, rfl, rfl⟩ | ⟨u, rfl, rfl⟩
  · cases u with
    | nil => exact Or.inl rfl
    | cons d u =>
      -- the number would go on behind the token
      have hd := hdigits d (by simp)
      rw [hafter d rfl] at hd
      contradiction
  · cases u with
    | nil => exact Or.inl rfl
    | cons d u =>
      -- the match ends inside the fraction
      obtain ⟨x, digits, rfl⟩ := List.exists_cons_of_ne_nil hne
      exact Or.inr ⟨d, by simp, rfl⟩

/-- The first alternative matches a token exactly if it is visible. -/
theorem visible_of_fits {digits : List Char} (h : Occurrence text before token fraction after)
    (hs : Token s digits) (htext : token ++ after = s ++ rest)
    (hrest : ∀ c ∈ rest.head?, asciiWord c = false ∧ c ≠ '.') :
    (∀ c ∈ after.head?, ¬ Stray c ∧ c ≠ '.') ∨ ∃ d ∈ fraction.tail, d.isDigit = false := by
  have hsame : after = rest → ∀ c ∈ after.head?, ¬ Stray c ∧ c ≠ '.' := by
    rintro rfl c hc
    obtain ⟨hword, hstop⟩ := hrest c hc
    exact ⟨((asciiWord_eq_false_iff c).mp hword).2, hstop⟩
  obtain ⟨-, hnumber⟩ := h.token
  obtain ⟨-, hnumber'⟩ := hs
  rw [List.cons_append, List.cons_append, List.cons.injEq] at htext
  obtain ⟨-, htext⟩ := htext
  cases hnumber with
  | whole hn =>
    obtain ⟨a, -, b, -, hab⟩ := exists_digits hn
    rw [hab] at htext
    cases hnumber' with
    | whole hn' =>
      obtain ⟨a', -, b', -, hab'⟩ := exists_digits hn'
      rw [hab'] at htext
      exact Or.inl (hsame (List.append_inj_right htext rfl))
    | fraction hne hdigits =>
      obtain ⟨d, ds, rfl⟩ := List.exists_cons_of_ne_nil hne
      simp only [List.cons_append, List.nil_append, List.cons.injEq] at htext
      obtain ⟨-, -, hafter⟩ := htext
      have hd := hdigits d List.mem_cons_self
      rw [h.number d _ hafter] at hd
      contradiction
  | fraction hne hdigits =>
    cases hnumber' with
    | whole hn' =>
      obtain ⟨a', -, b', -, hab'⟩ := exists_digits hn'
      rw [hab'] at htext
      simp only [List.cons_append, List.nil_append, List.cons.injEq] at htext
      obtain ⟨-, -, hafter⟩ := htext
      exact absurd rfl (hrest '.' (hafter ▸ rfl)).2
    | fraction hne' hdigits' =>
      have htext' : fraction ++ after = digits ++ rest := by simpa using htext
      rcases eq_or_mem_tail htext' hne' hdigits' (h.digits hne) with hafter | ⟨d, hd, hhead⟩
      · exact Or.inl (hsame hafter)
      · refine Or.inr ⟨d, hd, ?_⟩
        obtain ⟨hident, -⟩ := (asciiWord_eq_false_iff d).mp (hrest d hhead).1
        by_contra hdigit
        rw [Bool.not_eq_false] at hdigit
        exact hident (Or.inl (by simp [Char.isAlphanum, hdigit]))

/-- A match begins at a token exactly if it is visible. -/
theorem Occurrence.matchesAt_iff (h : Occurrence text before token fraction after) :
    MatchesAt percentileRe text.toList before.length ↔ Visible before fraction after := by
  rw [h.text_eq, matchesAt_append_iff, percentileRe_eq]
  constructor
  · rintro ⟨s, rest, htext, htoken | hordinal⟩
    · obtain ⟨hbefore, ⟨digits, hs⟩, hrest⟩ := fits_tokenRe.mp htoken
      refine ⟨fun c hc hstray ↦ ?_, visible_of_fits h hs htext hrest⟩
      rw [← List.head?_reverse] at hc
      exact ((asciiWord_eq_false_iff c).mp (hbefore c hc)).2 hstray
    · have hstarts := (starts_ordinal hordinal).append rest
      rw [← htext] at hstarts
      obtain ⟨hp, -⟩ := h.token
      have hc := hstarts.1 _ rfl
      rcases hp with rfl | rfl <;> simp at hc
  · rintro ⟨hbefore, hafter⟩
    have hclear : ∀ c ∈ before.reverse.head?, asciiWord c = false := by
      intro c hc
      rw [List.head?_reverse] at hc
      rw [asciiWord_eq_false_iff]
      exact ⟨h.identBefore c hc, hbefore c hc⟩
    rcases hafter with hafter | ⟨d, hd, hdigit⟩
    · refine ⟨token, after, rfl, Or.inl (fits_tokenRe.mpr ⟨hclear, ⟨fraction, h.token⟩, ?_⟩)⟩
      intro c hc
      obtain ⟨hstray, hstop⟩ := hafter c hc
      refine ⟨?_, hstop⟩
      rw [asciiWord_eq_false_iff]
      exact ⟨h.identAfter c hc, hstray⟩
    · -- the match ends before the digit that is not of ASCII
      obtain ⟨hp, hnumber⟩ := h.token
      cases hnumber with
      | whole => contradiction
      | fraction hne hdigits =>
        obtain ⟨x, digits, rfl⟩ := List.exists_cons_of_ne_nil hne
        obtain ⟨u, v, rfl⟩ := List.append_of_mem hd
        refine ⟨_ :: '9' :: '9' :: '.' :: x :: u, d :: v ++ after, by simp,
          Or.inl (fits_tokenRe.mpr ⟨hclear, ⟨x :: u, .intro hp (.fraction (by simp) ?_)⟩, ?_⟩)⟩
        · intro y hy
          apply hdigits
          rw [← List.cons_append]
          exact List.mem_append_left _ hy
        · rintro c ⟨⟩
          exact not_asciiWord_of_decimal (hdigits d (List.mem_cons_of_mem x hd)) hdigit

/-- A match begins at every ordinal. -/
theorem Ordinal.matchesAt {number suffix gap word : List Char}
    (h : Ordinal text before number suffix gap word after) :
    MatchesAt percentileRe text.toList before.length := by
  rw [h.text_eq, matchesAt_append_iff]
  exact ⟨_, after, by simp, Or.inr (h.fits _)⟩

private theorem noticedAt_iff {i : ℕ} : NoticedAt text i ↔ MatchesAt percentileRe text.toList i := by
  constructor
  · rintro ⟨m, hm, rfl⟩
    exact matchesAt_of_matchAt (mem_finditer hm).2
  · exact exists_mem_finditer (nonempty_of_nullable (by decide)) noInner_percentileRe

end

/-- The pattern notices all tokens and ordinals of a text exactly if every token is visible. -/
theorem percentiles_noticed_iff (text : String) :
    ((∀ before token fraction after, Occurrence text before token fraction after →
        NoticedAt text before.length) ∧
      ∀ before number suffix gap word after,
        Ordinal text before number suffix gap word after → NoticedAt text before.length) ↔
    ∀ before token fraction after, Occurrence text before token fraction after →
      Visible before fraction after := by
  constructor
  · rintro ⟨htokens, -⟩ before token fraction after h
    exact h.matchesAt_iff.mp (noticedAt_iff.mp (htokens before token fraction after h))
  · intro hvisible
    constructor
    · intro before token fraction after h
      exact noticedAt_iff.mpr (h.matchesAt_iff.mpr (hvisible before token fraction after h))
    · intro before number suffix gap word after h
      exact noticedAt_iff.mpr h.matchesAt

/-- A full stop at the end of a sentence hides a token. -/
theorem token_before_full_stop :
    Occurrence "we saw p99." "we saw ".toList "p99".toList [] ".".toList ∧
      ¬ NoticedAt "we saw p99." 7 := by
  constructor
  · refine ⟨rfl, .intro (Or.inl rfl) (@Number.whole "99" (by decide)), ?_, ?_, by simp, by simp⟩
    · rintro c ⟨⟩
      decide
    · rintro c ⟨⟩
      decide
  · rw [noticedAt_iff]
    decide

end HzjDds.Gates
