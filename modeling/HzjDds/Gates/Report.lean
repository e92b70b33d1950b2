import HzjDds.Python.Substring
import HzjDds.Regex.Search

/-!
# Reports of the document gates

What the scripts `scripts/check_*.py` have in common: the loop over the required files, the lines
and failures that the checks collect, and the text and exit code that `render` returns. The scripts
differ in their files, phrases and patterns.
-/

namespace HzjDds.Gates

open Python Regex

/-- Texts of the repository's files by path from its root; `none` where `is_file` fails. -/
abbrev Files := String → Option String

/-- A required file: its path, the phrases that its text must have, and the hint of its line. -/
structure Required where
  rel : String
  markers : List String
  hint : String

/-- Lines of the report and failures, as far as they are collected. -/
structure Report where
  lines : List String
  failures : List String

/-- Reports of checks that are made one after the other. -/
def Report.all (rs : List Report) : Report :=
  ⟨rs.flatMap fun r ↦ r.lines, rs.flatMap fun r ↦ r.failures⟩

/-- One check: a line if it passes, else a failure and a line. -/
def check (passed : Bool) (okLine failure failLine : String) : Report :=
  if passed then ⟨[okLine], []⟩ else ⟨[failLine], [failure]⟩

/-- One round of the loop over the required files. A file of which only the existence counts has
no phrases. -/
def checkRequired (files : Files) (f : Required) : Report :=
  match files f.rel with
  | none => ⟨["- **FAIL missing:** `" ++ f.rel ++ "`"], ["missing file `" ++ f.rel ++ "`"]⟩
  | some text =>
    let missing := f.markers.filter fun m ↦ !isIn m text
    if missing = [] then
      ⟨["- **ok file:** `" ++ f.rel ++ "`" ++ if f.hint = "" then "" else " (" ++ f.hint ++ ")"],
        []⟩
    else
      ⟨["- **FAIL markers:** `" ++ f.rel ++ "` (need " ++ ", ".intercalate missing ++ ")"],
        ["`" ++ f.rel ++ "` missing marker(s): " ++ ", ".intercalate missing]⟩

/-- The checks of a file's text, none if there is no file. -/
def checkText (files : Files) (rel : String) (checks : String → Report) : Report :=
  match files rel with
  | none => ⟨[], []⟩
  | some text => checks text

/-- The parts of a report that do not depend on the files: its title, its notes, its success
markers, and what it ends with if it fails and if it passes. -/
structure Frame where
  title : String
  notes : List String
  markers : List String
  failed : String
  healthy : String

/-- The text that `render` returns, and the exit code. -/
def finish (frame : Frame) (report : Report) : String × ℕ :=
  let lines := [frame.title, ""] ++ report.lines ++ [""] ++ frame.notes
  if report.failures ≠ [] then
    ("\n".intercalate (lines ++ ["FAIL:"] ++ report.failures.map ("- " ++ ·) ++
      ["", frame.failed, ""]), 1)
  else
    ("\n".intercalate (lines ++ frame.markers.map (fun m ↦ "- **" ++ m ++ "**") ++
      ["", frame.healthy, ""]), 0)

/-! ## Patterns -/

/-- `\s*`. -/
def spaces : Regex := many true 0 none isSpace

/-- `\s+`. -/
def someSpaces : Regex := many true 1 none isSpace

/-- `.*`. -/
def anything : Regex := many true 0 none (· != '\n')

/-- `[A-Za-z0-9_]` without regard to case. -/
def asciiWord (c : Char) : Bool := (foldCase c).isAlphanum || c == '_'

/-- `_PERCENTILE_RE`. -/
def percentileRe : Regex := oneOf [
  cat [
    look fun before _ ↦ !before.head?.any asciiWord,
    literalCI "p",
    oneOf [literal "50", literal "90", literal "95",
      cat [literal "99",
        optional (cat [literal ".", many true 1 none fun c ↦ (decimal c).isSome])]],
    look fun _ after ↦ !after.head?.any fun c ↦ asciiWord c || c == '.'],
  cat [
    oneOf [literal "50", literal "90", literal "95", literal "99"],
    oneOf [literalCI "st", literalCI "nd", literalCI "rd", literalCI "th"],
    someSpaces, literalCI "percentile"]]

/-- `re.findall`, for an expression without groups. -/
def findall (r : Regex) (text : String) : List String :=
  (finditer r text.toList).map fun m ↦ .ofList m.text

/-! ## Failures -/

/-- Every failure of a check is one of the whole report. -/
theorem failures_all_ne_nil {r : Report} {rs : List Report} (hr : r ∈ rs)
    (h : r.failures ≠ []) : (Report.all rs).failures ≠ [] := by
  obtain ⟨f, hf⟩ := List.exists_mem_of_ne_nil _ h
  exact List.ne_nil_of_mem (List.mem_flatMap.mpr ⟨r, hr, hf⟩)

/-- A check that does not pass is a failure. -/
theorem failures_check {passed : Bool} (h : passed = false) (okLine failure failLine : String) :
    (check passed okLine failure failLine).failures ≠ [] := by
  rw [h]
  exact List.cons_ne_nil failure []

/-- A gate with a failure exits with 1. -/
theorem finish_of_failures {frame : Frame} {r : Report} (h : r.failures ≠ []) :
    (finish frame r).2 = 1 := by
  rw [finish, if_pos h]

/-! ## Success markers -/

/-- A marker that no line can begin with, that no separator of a line is in, and that is longer than
the fixed parts of the lines about files. -/
structure Plain (marker : String) : Prop where
  long : 24 < marker.toList.length
  line : '\n' ∉ marker.toList
  comma : ',' ∉ marker.toList
  quote : '`' ∉ marker.toList
  dash : marker.toList.head? ≠ some '-'
  space : marker.toList.head? ≠ some ' '

/-- A marker is plain if the characters that it is written with are as required. -/
theorem plain_ofList {w : List Char} (h : 24 < w.length ∧ '\n' ∉ w ∧ ',' ∉ w ∧ '`' ∉ w ∧
    w.head? ≠ some '-' ∧ w.head? ≠ some ' ') : Plain (.ofList w) := by
  rw [← String.toList_ofList (l := w)] at h
  exact ⟨h.1, h.2.1, h.2.2.1, h.2.2.2.1, h.2.2.2.2.1, h.2.2.2.2.2⟩

/-- Neither a line of a report nor a failure has a marker in it. -/
structure Report.Silent (marker : String) (r : Report) : Prop where
  lines : ∀ l ∈ r.lines, Lacks marker l
  failures : ∀ f ∈ r.failures, Lacks marker f

/-- The lines around those of the checks lack a marker. -/
structure Frame.Silent (marker : String) (frame : Frame) : Prop where
  title : Lacks marker frame.title
  failed : Lacks marker frame.failed
  notes : ∀ l ∈ frame.notes, Lacks marker l

/-- What the lines about a required file say lacks a marker, whatever phrase is missing. -/
structure Required.Silent (marker : String) (f : Required) : Prop where
  rel : Lacks marker f.rel
  hint : Lacks marker ("` (" ++ f.hint ++ ")")
  needed : ∀ m ∈ f.markers, Lacks marker ("` (need " ++ m ++ ")")
  missing : ∀ m ∈ f.markers, Lacks marker ("` missing marker(s): " ++ m)

section

variable {marker okLine failure failLine pre x post : String} {r : Report} {rs : List Report}

/-- A short text lacks a plain marker. -/
theorem Plain.lacks (hmarker : Plain marker) (h : x.toList.length ≤ 24) : Lacks marker x :=
  lacks_of_length (lt_of_le_of_lt h hmarker.long)

/-- A line about a path lacks a plain marker if the path and the text behind it do. -/
theorem Plain.lacks_quote (hmarker : Plain marker) (hpre : pre.toList.length ≤ 24)
    (hlast : pre.toList.getLast? = some '`') (hx : Lacks marker x) (hpost : Lacks marker post)
    (hhead : post.toList.head? = some '`') : Lacks marker (pre ++ x ++ post) :=
  Python.lacks_quote hmarker.quote hlast hhead (hmarker.lacks hpre) hx hpost

/-- Reports one after the other are silent if each is. -/
theorem Report.Silent.all (h : ∀ r ∈ rs, r.Silent marker) : (Report.all rs).Silent marker where
  lines := by
    intro l hl
    obtain ⟨r, hr, hl⟩ := List.mem_flatMap.mp hl
    exact (h r hr).lines l hl
  failures := by
    intro f hf
    obtain ⟨r, hr, hf⟩ := List.mem_flatMap.mp hf
    exact (h r hr).failures f hf

/-- A check is silent if its texts are. -/
theorem silent_check {passed : Bool} (hok : Lacks marker okLine)
    (hfailure : passed = false → Lacks marker failure)
    (hfail : passed = false → Lacks marker failLine) :
    (check passed okLine failure failLine).Silent marker := by
  cases passed with
  | true => exact ⟨by simpa [check] using hok, by simp [check]⟩
  | false => exact ⟨by simpa [check] using hfail rfl, by simpa [check] using hfailure rfl⟩

/-- A check whose texts are written out is silent if they lack the marker. -/
theorem silent_check_ofList {passed : Bool} {w ok failure fail : List Char} (hok : ¬ w <:+: ok)
    (hfailure : ¬ w <:+: failure) (hfail : ¬ w <:+: fail) :
    (check passed (.ofList ok) (.ofList failure) (.ofList fail)).Silent (.ofList w) :=
  silent_check (lacks_ofList hok) (fun _ ↦ lacks_ofList hfailure) fun _ ↦ lacks_ofList hfail

/-- A list of what is missing lacks a marker if its items and the text before it have no `c` before
`d`. -/
theorem lacks_missing {w u : List Char} {xs : List String} {c d : Char} (hcomma : ',' ∉ w)
    (hpair : [c, d] <:+: w)
    (hu : ¬ [c, d] <:+: u ++ ['m', 'i', 's', 's', 'i', 'n', 'g', ' ']) (hc : ' ' ≠ c)
    (hxs : xs ≠ []) (h : ∀ x ∈ xs, c ∉ x.toList) :
    Lacks (.ofList w) (.ofList u ++ ("missing " ++ ", ".intercalate xs)) := by
  have hmissing : String.ofList u ++ "missing " =
      .ofList (u ++ ['m', 'i', 's', 's', 'i', 'n', 'g', ' ']) := String.ofList_append.symm
  rw [← String.append_assoc, hmissing]
  exact lacks_join_of_pair hcomma hpair hu (by simp) hc hxs h

/-- The checks of a text are silent if they are for every text. -/
theorem silent_checkText {files : Files} {rel : String} {checks : String → Report}
    (h : ∀ text, (checks text).Silent marker) : (checkText files rel checks).Silent marker := by
  rw [checkText]
  split
  · exact ⟨fun l hl ↦ absurd hl List.not_mem_nil, fun f hf ↦ absurd hf List.not_mem_nil⟩
  · exact h _

/-- The round about a required file is silent. -/
theorem silent_checkRequired {files : Files} {f : Required} (hmarker : Plain marker)
    (h : f.Silent marker) : (checkRequired files f).Silent marker := by
  have hquote : Lacks marker "`" := hmarker.lacks (by decide)
  rw [checkRequired]
  split
  · constructor
    · rw [List.forall_mem_singleton]
      exact hmarker.lacks_quote (by decide) (by decide) h.rel hquote (by decide)
    · rw [List.forall_mem_singleton]
      exact hmarker.lacks_quote (by decide) (by decide) h.rel hquote (by decide)
  · next text _ =>
    dsimp only
    split
    · refine ⟨?_, fun f hf ↦ absurd hf List.not_mem_nil⟩
      rw [List.forall_mem_singleton, String.append_assoc]
      apply hmarker.lacks_quote (by decide) (by decide) h.rel
      · split
        · exact hquote
        · have hhint := h.hint
          have hparen : "` (" = "`" ++ " (" := by decide
          rwa [hparen, String.append_assoc, String.append_assoc,
            ← @String.append_assoc " ("] at hhint
      · simp
    · next hne =>
      have hmem : ∀ m ∈ f.markers.filter (fun m ↦ !isIn m text), m ∈ f.markers := fun m hm ↦
        (List.mem_filter.mp hm).1
      constructor
      · rw [List.forall_mem_singleton, String.append_assoc, String.append_assoc,
          ← @String.append_assoc "` (need "]
        apply hmarker.lacks_quote (by decide) (by decide) h.rel _ (by simp)
        exact lacks_join hmarker.comma (by decide) hne fun m hm ↦ h.needed m (hmem m hm)
      · rw [List.forall_mem_singleton, String.append_assoc]
        apply hmarker.lacks_quote (by decide) (by decide) h.rel _ (by simp)
        have hjoin : Lacks marker ("` missing marker(s): " ++
            ", ".intercalate (f.markers.filter fun m ↦ !isIn m text) ++ "") := by
          apply lacks_join hmarker.comma (by decide) hne
          intro m hm
          rw [String.append_empty]
          exact h.missing m (hmem m hm)
        rwa [String.append_empty] at hjoin

private theorem silent_required {files : Files} {required : List Required} (hmarker : Plain marker)
    (h : ∀ f ∈ required, f.Silent marker) :
    ∀ r ∈ required.map (checkRequired files), r.Silent marker := by
  intro r hr
  obtain ⟨f, hf, rfl⟩ := List.mem_map.mp hr
  exact silent_checkRequired hmarker (h f hf)

/-- Texts and the characters that they are written with. -/
inductive Spelled : List String → List (List Char) → Prop where
  | nil : Spelled [] []
  | cons {ss : List String} {cs : List (List Char)} (c : List Char) :
    Spelled ss cs → Spelled (.ofList c :: ss) (c :: cs)

/-- Required files and the characters that their paths, phrases and hints are written with. -/
inductive SpelledFiles : List Required → List (List Char × List (List Char) × List Char) →
    Prop where
  | nil : SpelledFiles [] []
  | cons {ss : List String} {cs : List (List Char)} {fs : List Required}
    {ds : List (List Char × List (List Char) × List Char)} (rel hint : List Char) :
    Spelled ss cs → SpelledFiles fs ds →
    SpelledFiles (⟨.ofList rel, ss, .ofList hint⟩ :: fs) ((rel, cs, hint) :: ds)

/-- Every text of a list is written with one of the lists of characters. -/
theorem Spelled.forall_mem {ss : List String} {cs : List (List Char)} (h : Spelled ss cs)
    {P : String → Prop} (hP : ∀ c ∈ cs, P (.ofList c)) : ∀ s ∈ ss, P s := by
  induction h with
  | nil => exact fun s hs ↦ absurd hs List.not_mem_nil
  | cons c _ ih =>
    rw [List.forall_mem_cons] at hP ⊢
    exact ⟨hP.1, ih hP.2⟩

/-- A frame is silent if its texts lack the marker, character by character. -/
theorem Frame.silent_ofList {w title f₁ f₂ f₃ f₄ : List Char} {ns : List (List Char)}
    {notes markers : List String} {healthy : String} (hspelled : Spelled notes ns)
    (htitle : ¬ w <:+: title) (hfailed : ¬ w <:+: f₁ ++ f₂ ++ f₃ ++ f₄)
    (hnotes : ∀ n ∈ ns, ¬ w <:+: n) :
    Frame.Silent (.ofList w) ⟨.ofList title, notes, markers,
      .ofList f₁ ++ .ofList f₂ ++ .ofList f₃ ++ .ofList f₄, healthy⟩ where
  title := lacks_ofList htitle
  failed := by
    rw [← String.ofList_append, ← String.ofList_append, ← String.ofList_append]
    exact lacks_ofList hfailed
  notes := hspelled.forall_mem fun n hn ↦ lacks_ofList (hnotes n hn)

/-- Required files are silent if what the lines say about them lacks the marker, character by
character. -/
theorem SpelledFiles.silent {w : List Char} {fs : List Required}
    {ds : List (List Char × List (List Char) × List Char)} (h : SpelledFiles fs ds)
    (hlacks : ∀ d ∈ ds, ¬ w <:+: d.1 ∧ ¬ w <:+: ['`', ' ', '('] ++ d.2.2 ++ [')'] ∧
      ∀ m ∈ d.2.1, ¬ w <:+: ['`', ' ', '(', 'n', 'e', 'e', 'd', ' '] ++ m ++ [')'] ∧
        ¬ w <:+: ['`', ' ', 'm', 'i', 's', 's', 'i', 'n', 'g', ' ', 'm', 'a', 'r', 'k', 'e', 'r',
          '(', 's', ')', ':', ' '] ++ m) : ∀ f ∈ fs, f.Silent (.ofList w) := by
  induction h with
  | nil => exact fun f hf ↦ absurd hf List.not_mem_nil
  | cons rel hint hspelled _ ih =>
    rw [List.forall_mem_cons] at hlacks ⊢
    obtain ⟨⟨hrel, hhint, hms⟩, hrest⟩ := hlacks
    refine ⟨⟨lacks_ofList hrel, ?_, hspelled.forall_mem fun m hm ↦ ?_,
      hspelled.forall_mem fun m hm ↦ ?_⟩, ih hrest⟩
    · rw [Lacks, String.toList_append, String.toList_append]
      repeat rw [String.toList_ofList]
      exact hhint
    · rw [Lacks, String.toList_append, String.toList_append]
      repeat rw [String.toList_ofList]
      exact (hms m hm).1
    · rw [Lacks, String.toList_append]
      repeat rw [String.toList_ofList]
      exact (hms m hm).2

/-- A gate with a silent report prints a marker of its frame exactly if it passes. -/
theorem isIn_finish {frame : Frame} (hmarker : Plain marker) (hmem : marker ∈ frame.markers)
    (hframe : frame.Silent marker) (hr : r.Silent marker) :
    isIn marker (finish frame r).1 = true ↔ (finish frame r).2 = 0 := by
  have hempty : Lacks marker "" := hmarker.lacks (by decide)
  have hne : marker.toList ≠ [] := by
    apply List.ne_nil_of_length_pos
    exact lt_trans (by decide) hmarker.long
  rw [finish]
  split
  · refine iff_of_false ?_ Nat.one_ne_zero
    rw [isIn_join hne hmarker.line]
    rintro ⟨l, hl, hlacks⟩
    apply hlacks
    simp only [List.mem_append, List.mem_cons, List.mem_map, List.not_mem_nil, or_false] at hl
    rcases hl with ((((((rfl | rfl) | hl) | rfl) | hl) | rfl) | ⟨f, hf, rfl⟩) | rfl | rfl | rfl
    · exact hframe.title
    · exact hempty
    · exact hr.lines l hl
    · exact hempty
    · exact hframe.notes l hl
    · exact hmarker.lacks (by decide)
    · exact lacks_item hmarker.dash hmarker.space (hr.failures f hf)
    · exact hempty
    · exact hframe.failed
    · exact hempty
  · refine iff_of_true ?_ rfl
    rw [isIn_join hne hmarker.line]
    refine ⟨"- **" ++ marker ++ "**", ?_, ?_⟩
    · apply List.mem_append_left
      apply List.mem_append_right
      exact List.mem_map_of_mem hmem
    · rw [Lacks, not_not, String.toList_append, String.toList_append]
      exact List.infix_append _ _ _

/-- What a gate says around its own checks, worded so that only a pass prints the marker. -/
structure Wording (marker : String) where
  frame : Frame
  required : List Required
  plain : Plain marker
  mem : marker ∈ frame.markers
  silentFrame : frame.Silent marker
  silentFiles : ∀ f ∈ required, f.Silent marker

/-- A gate so worded prints its marker exactly if it passes, if its own checks are silent. -/
theorem Wording.isIn_finish (gate : Wording marker) {files : Files}
    (h : ∀ r ∈ rs, r.Silent marker) :
    isIn marker (finish gate.frame
        (.all (gate.required.map (checkRequired files) ++ rs))).1 = true ↔
      (finish gate.frame (.all (gate.required.map (checkRequired files) ++ rs))).2 = 0 :=
  Gates.isIn_finish gate.plain gate.mem gate.silentFrame (Report.Silent.all
    (List.forall_mem_append.mpr ⟨silent_required gate.plain gate.silentFiles, h⟩))

end

end HzjDds.Gates
