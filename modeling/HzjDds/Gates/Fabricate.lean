import HzjDds.Gates.Report
import HzjDds.Regex.Window

/-!
# Fabricated claims in a document

The part of `_fabricate_hits` that `scripts/check_three_chain_repro.py`,
`scripts/check_dod_evidence.py` and `scripts/check_cega_bridge_hold.py` have in common: a match of a
pattern is a hit unless its line says that the claim must not be made.
-/

namespace HzjDds.Gates

open Python Regex

/-- `_line_at`. -/
def lineAt (text : List Char) (index : ℕ) : List Char :=
  ((text.take index).reverse.takeWhile (· != '\n')).reverse ++
    (text.drop index).takeWhile (· != '\n')

/-- `_PROHIBITION_RE` finds something on the line of a position. -/
def excused (prohibitionRe : Regex) (text : List Char) (index : ℕ) : Bool :=
  (search prohibitionRe (lineAt text index)).isSome

/-- What the body of the loops appends for a match. -/
def hitOf (prohibitionRe : Regex) (text : List Char) (m : Match) : List String :=
  if excused prohibitionRe text m.start then [] else [strip (.ofList m.text)]

/-- Hits of a pattern with `finditer`: every match counts. -/
def finditerHits (prohibitionRe pattern : Regex) (text : List Char) : List String :=
  (finditer pattern text).flatMap (hitOf prohibitionRe text)

/-- Hits of a pattern with `search`: the first match counts. -/
def searchHits (prohibitionRe pattern : Regex) (text : List Char) : List String :=
  match search pattern text with
  | none => []
  | some m => hitOf prohibitionRe text m

/-- `(word|…|word)` without regard to case. No hit depends on this group. -/
def words (ws : List String) : Regex := oneOf (ws.map literalCI)

/-- `[:：]`. -/
def colon : Regex := char fun c ↦ c == ':' || c == '：'

/-- `(?i)key:\s*\*?\s*(word|…|word)\b`. -/
def statusRe (w : WordClass) (key : String) (ws : List String) : Regex :=
  cat [literalCI key, spaces, many true 0 (some 1) (· == '*'), spaces, words ws, wordBoundary w]

/-- `(?i)key\s*[:：]\s*(word|…|word)\b`, for any expression as the key. -/
def verdictRe (w : WordClass) (key : Regex) (ws : List String) : Regex :=
  cat [key, spaces, colon, spaces, words ws, wordBoundary w]

/-- A match of a pattern begins here, and nothing on its line excuses it. -/
def Unexcused (prohibitionRe pattern : Regex) (text : List Char) (i : ℕ) : Prop :=
  MatchesAt pattern text i ∧ excused prohibitionRe text i = false

section

variable {p r : Regex} {text : List Char} {i j : ℕ} {m : Match}

private theorem hitOf_ne_nil (h : excused p text m.start = false) : hitOf p text m ≠ [] := by
  rw [hitOf, h]
  exact List.cons_ne_nil _ _

private theorem hitOf_eq {hit : String} (h : hit ∈ hitOf p text m) :
    excused p text m.start = false ∧ hit = strip (.ofList m.text) := by
  rw [hitOf] at h
  split at h
  · contradiction
  · next hexcused => exact ⟨by simpa using hexcused, List.mem_singleton.mp h⟩

/-- Matches of an expression that does not match the empty text begin in the text. -/
theorem lt_length_of_matchesAt (hr : Nonempty r) (h : MatchesAt r text i) : i < text.length := by
  obtain ⟨m, hm⟩ := Option.ne_none_iff_exists'.mp h
  obtain ⟨-, htext, hlang⟩ := matchAt_spec hm
  by_contra hlong
  rw [List.drop_eq_nil_of_le (Nat.not_lt.mp hlong)] at htext
  exact hr _ hlang (List.append_eq_nil_iff.mp htext.symm).1

/-- A reported match that is not excused makes a hit. -/
theorem finditerHits_ne_nil (hm : m ∈ finditer r text) (h : excused p text m.start = false) :
    finditerHits p r text ≠ [] := by
  obtain ⟨hit, hhit⟩ := List.exists_mem_of_ne_nil _ (hitOf_ne_nil h)
  exact List.ne_nil_of_mem (List.mem_flatMap.mpr ⟨m, hm, hhit⟩)

/-- A hit of the scan is a match that is not excused. -/
theorem exists_of_mem_finditerHits {hit : String} (h : hit ∈ finditerHits p r text) :
    ∃ m, matchAt r text m.start = some m ∧ m ∈ finditer r text ∧
      Unexcused p r text m.start ∧ hit = strip (.ofList m.text) := by
  obtain ⟨m, hm, hhit⟩ := List.mem_flatMap.mp h
  obtain ⟨-, hmatch⟩ := mem_finditer hm
  obtain ⟨hexcused, rfl⟩ := hitOf_eq hhit
  exact ⟨m, hmatch, hm, ⟨matchesAt_of_matchAt hmatch, hexcused⟩, rfl⟩

/-- A hit of the search is the first match of the pattern, and it is not excused. -/
theorem exists_of_mem_searchHits {hit : String} (h : hit ∈ searchHits p r text) :
    ∃ m, matchAt r text m.start = some m ∧ Unexcused p r text m.start ∧
      (∀ j < m.start, ¬ MatchesAt r text j) ∧ hit = strip (.ofList m.text) := by
  rw [searchHits] at h
  split at h
  · contradiction
  · next m hm =>
    obtain ⟨-, hmatch, hfirst⟩ := search_eq_some hm
    obtain ⟨hexcused, rfl⟩ := hitOf_eq h
    exact ⟨m, hmatch, ⟨matchesAt_of_matchAt hmatch, hexcused⟩, hfirst, rfl⟩

private theorem not_mem_strip {c : Char} {s : List Char} (hs : Lang r s) (hc : takes c r = false) :
    c ∉ (strip (.ofList s)).toList := by
  rw [toList_strip]
  exact fun hmem ↦ hs.not_mem hc ((stripList_within isSpace s).subset hmem)

/-- A character that no class of a pattern has is in no hit of the scan. -/
theorem not_mem_of_mem_finditerHits {c : Char} {hit : String} (h : hit ∈ finditerHits p r text)
    (hc : takes c r = false) : c ∉ hit.toList := by
  obtain ⟨m, hmatch, -, -, rfl⟩ := exists_of_mem_finditerHits h
  exact not_mem_strip (matchAt_spec hmatch).2.2 hc

/-- A character that no class of a pattern has is in no hit of the search. -/
theorem not_mem_of_mem_searchHits {c : Char} {hit : String} (h : hit ∈ searchHits p r text)
    (hc : takes c r = false) : c ∉ hit.toList := by
  obtain ⟨m, hmatch, -, -, rfl⟩ := exists_of_mem_searchHits h
  exact not_mem_strip (matchAt_spec hmatch).2.2 hc

/-- The search makes a hit if the first match is not excused. -/
theorem searchHits_ne_nil (h : Unexcused p r text i) (hfirst : ∀ j < i, ¬ MatchesAt r text j) :
    searchHits p r text ≠ [] := by
  rw [searchHits]
  split
  · next hnone => exact absurd h.1 (search_eq_none hnone i)
  · next m hm =>
    obtain ⟨-, hmatch, hbefore⟩ := search_eq_some hm
    have hm' : m.start = i := by
      rcases Nat.lt_trichotomy m.start i with hlt | heq | hgt
      · exact absurd (matchesAt_of_matchAt hmatch) (hfirst m.start hlt)
      · exact heq
      · exact absurd h.1 (hbefore i hgt)
    exact hitOf_ne_nil (hm' ▸ h.2)

/-! ## Patterns whose every match counts -/

/-- No match begins inside another one. -/
def NoInner (r : Regex) : Prop :=
  ∀ text i j m, matchAt r text i = some m → i < j → MatchesAt r text j →
    i + m.text.length ≤ j

/-- The scan reports every match of an expression without inner matches. -/
theorem exists_mem_finditer (hr : Nonempty r) (hinner : NoInner r) (h : MatchesAt r text i) :
    ∃ m ∈ finditer r text, m.start = i := by
  have hi := lt_length_of_matchesAt hr h
  obtain ⟨m, hm, hstart, hstop⟩ := finditer_covers hr hi.le h
  refine ⟨m, hm, ?_⟩
  rcases Nat.eq_or_lt_of_le hstart with heq | hlt
  · exact heq
  · have hlong := hinner text m.start i m (mem_finditer hm).2 hlt h
    rw [Match.stop] at hstop
    rw [Match.start] at hlong
    omega

private theorem lineAt_add {n : ℕ} (h : ∀ x ∈ (text.drop i).take n, x ≠ '\n') :
    lineAt text (i + n) = lineAt text i := by
  induction n generalizing i with
  | zero => rfl
  | succ n ih =>
    cases hdrop : text.drop i with
    | nil =>
      have hlength := List.drop_eq_nil_iff.mp hdrop
      rw [lineAt, lineAt, List.take_of_length_le hlength, List.take_of_length_le (by omega),
        hdrop, List.drop_eq_nil_of_le (by omega)]
    | cons x rest =>
      rw [hdrop, List.take_succ_cons, List.forall_mem_cons] at h
      have hnext : text.drop (i + 1) = rest := by rw [← List.drop_drop, hdrop]; rfl
      have htake : text.take (i + 1) = text.take i ++ [x] := by
        rw [List.take_add, hdrop]
        rfl
      have hsum : i + (n + 1) = i + 1 + n := by omega
      rw [hsum, ih (by rw [hnext]; exact h.2)]
      rw [lineAt, lineAt, hnext, htake, hdrop, List.reverse_append, List.reverse_singleton,
        List.singleton_append, List.takeWhile_cons_of_pos (by simpa using h.1),
        List.takeWhile_cons_of_pos (by simpa using h.1), List.reverse_cons, List.append_assoc,
        List.singleton_append]

/-- The scan reports a match on the line of every match, if matches have no line breaks. -/
theorem exists_mem_finditer_line (hr : Nonempty r) (hline : takes '\n' r = false)
    (h : MatchesAt r text i) : ∃ m ∈ finditer r text, lineAt text m.start = lineAt text i := by
  have hi := lt_length_of_matchesAt hr h
  obtain ⟨m, hm, hstart, hstop⟩ := finditer_covers hr hi.le h
  refine ⟨m, hm, ?_⟩
  obtain ⟨-, htext, hlang⟩ := matchAt_spec (mem_finditer hm).2
  have hclean : ∀ x ∈ (text.drop m.start).take (i - m.start), x ≠ '\n' := by
    intro x hx
    have hlength : i - m.start ≤ m.text.length := by
      rw [Match.stop] at hstop
      rw [Match.start]
      omega
    rw [htext, List.take_append_of_le_length hlength] at hx
    rintro rfl
    exact hlang.not_mem hline (List.mem_of_mem_take hx)
  rw [← lineAt_add hclean, Nat.add_sub_cancel' hstart]

/-- An expression has no inner matches if what it begins with stands nowhere else in a match. -/
theorem noInner_of_clear {ns : List Needle} (hbegins : Begins ns r)
    (hclear : ∀ n ∈ ns, clear 0 n r = true) : NoInner r := by
  intro text i j m hm hij hmatch
  obtain ⟨n, hn, hstarts⟩ := hbegins.starts hmatch
  obtain ⟨-, htext, hlang⟩ := matchAt_spec hm
  exact stop_le_of_clear (hclear n hn) hlang htext hij hstarts

private theorem isWord_of_mem_variants (w : WordClass) {x c : Char} (hx : x ∈ variants c)
    (hc : (foldCase c).isAlphanum = true) : w.isWord x = true := by
  apply w.ascii
  rw [foldCase_of_mem_variants hx, hc]
  rfl

/-- A status pattern has no inner matches. A word that ends with the first letter of the key does
not run on into another key, since it ends at a word boundary. -/
theorem noInner_statusRe (w : WordClass) {ws : List String}
    (hclear : clear 1 (needleCI "STATUS:") (statusRe w "STATUS:" ws) = true) :
    NoInner (statusRe w "STATUS:" ws) := by
  intro text i j m hm hij hmatch
  obtain ⟨n, hn, hstarts⟩ := ((begins_literalCI "STATUS:").seq _).starts hmatch
  obtain rfl := List.mem_singleton.mp hn
  obtain ⟨-, htext, hlang⟩ := matchAt_spec hm
  have hstop := stop_le_of_clear hclear hlang htext hij hstarts
  by_contra hlong
  -- the inner match begins with the last character of the outer one
  obtain ⟨front, x, hlast⟩ : ∃ front x, m.text = front ++ [x] := by
    apply (List.eq_nil_or_concat' m.text).resolve_left
    intro hnil
    rw [hnil, List.length_nil] at hlong
    exact hlong hij.le
  have hdrop : text.drop j = x :: m.after := by
    have hlength : i + front.length = j := by
      rw [hlast, List.length_append, List.length_singleton] at hstop hlong
      omega
    rw [← hlength, ← List.drop_drop, htext, hlast, List.append_assoc, List.drop_left,
      List.singleton_append]
  have hneedle : needleCI "STATUS:" =
      some (variants 'S') :: some (variants 'T') :: needleCI "ATUS:" := rfl
  rw [hdrop, hneedle] at hstarts
  obtain ⟨hfirst, hrest⟩ := hstarts
  have hword : w.isWord x = true := isWord_of_mem_variants w (hfirst _ rfl) rfl
  have hcat : matchAt (cat ([literalCI "STATUS:", spaces, many true 0 (some 1) (· == '*'), spaces,
      words ws] ++ [wordBoundary w])) text i = some m := hm
  have hboundary : (m.text.reverse ++ m.before).head?.any w.isWord != m.after.head?.any w.isWord :=
    test_of_matchAt hcat
  rw [hlast, List.reverse_append, List.reverse_singleton, List.singleton_append,
    List.cons_append, List.head?_cons, Option.any_some, hword] at hboundary
  cases hafter : m.after with
  | nil =>
    rw [hafter] at hrest
    exact hrest.elim
  | cons y rest =>
    rw [hafter] at hrest hboundary
    rw [List.head?_cons, Option.any_some,
      isWord_of_mem_variants w (hrest.1 _ rfl) rfl] at hboundary
    contradiction

end

end HzjDds.Gates
