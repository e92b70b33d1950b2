import HzjDds.Shell.Words
import Mathlib.Data.List.Forall2
import Mathlib.Logic.Function.Basic

/-!
# Shell variables

Library `Shell`. The commands that assign, export and unset variables, as the lines of a text, and
what they do to the environment that the shell hands on.
-/

namespace HzjDds.Shell

/-- The environment of a process. -/
abbrev Environ := String → Option String

/-- A shell variable; only an exported one is in the environment. -/
structure Variable where
  value : String
  exported : Bool
  deriving DecidableEq, Repr

/-- The variables of a shell. -/
abbrev Variables := String → Option Variable

/-- Piece of a word: literal text or the value of a variable. -/
inductive Piece where
  | text (s : String)
  | var (name : String)
  deriving DecidableEq, Repr

/-- `name=word`, `export name=word` and `unset name`. -/
inductive Command where
  | assign (name : String) (word : List Piece)
  | exportAssign (name : String) (word : List Piece)
  | unset (name : String)
  deriving DecidableEq, Repr

/-- Characters of a name after the first one. -/
def isNameChar (c : Char) : Bool := c.isAlphanum || c == '_'

/-- Identifiers: letters, digits and underscores, not beginning with a digit. -/
def isName : List Char → Bool
  | [] => false
  | c :: cs => (c.isAlpha || c == '_') && cs.all isNameChar

/-- Operand `name=word` of `export`. -/
def exportOperand (word : List Char) : Option Command :=
  match word.dropWhile (· ≠ '=') with
  | [] => none
  | _ :: value =>
    let name := word.takeWhile (· ≠ '=')
    if isName name then some (.exportAssign (.ofList name) [.text (.ofList value)]) else none

/-- Operand of `unset`. -/
def unsetOperand (word : List Char) : Option Command :=
  if isName word then some (.unset (.ofList word)) else none

/-- Commands of a line of words; a line may be empty. -/
def command : List (List Char) → Option (List Command)
  | [] => some []
  | word :: operands =>
    if word = "export".toList then operands.mapM exportOperand
    else if word = "unset".toList then operands.mapM unsetOperand
    else none

/-- Commands of a text, from the words of the line read so far. -/
def commandLines : List (List Char) → List Lexeme → Option (List Command)
  | words, [] => command words
  | words, .word word :: lexemes => commandLines (words ++ [word]) lexemes
  | words, .newline :: lexemes =>
    (command words).bind fun cs ↦ (commandLines [] lexemes).map (cs ++ ·)

/-- Commands of a text; `none` if it holds anything else. -/
def parseChars (text : List Char) : Option (List Command) :=
  (lex .bare none text).bind (commandLines [])

@[inherit_doc parseChars] def parse (text : String) : Option (List Command) :=
  parseChars text.toList

namespace Variables

/-- Expansion of a word; an unset variable has no text. -/
def expand (vars : Variables) (word : List Piece) : String :=
  .join (word.map fun
    | .text s => s
    | .var name => ((vars name).map (·.value)).getD "")

/-- Effect of a command. An assignment keeps the export attribute. -/
def exec (vars : Variables) : Command → Variables
  | .assign name word =>
    Function.update vars name (some ⟨vars.expand word, (vars name).any (·.exported)⟩)
  | .exportAssign name word => Function.update vars name (some ⟨vars.expand word, true⟩)
  | .unset name => Function.update vars name none

/-- The variables of a shell started in an environment. -/
def ofEnviron (env : Environ) : Variables := fun name ↦ (env name).map (⟨·, true⟩)

/-- The environment that a shell hands on. -/
def environ (vars : Variables) : Environ := fun name ↦
  (vars name).bind fun v ↦ if v.exported then some v.value else none

@[simp] theorem environ_ofEnviron (env : Environ) : (ofEnviron env).environ = env := by
  funext name
  cases h : env name <;> simp [environ, ofEnviron, h]

private theorem environ_update (vars : Variables) (name : String) (v : Option Variable) :
    environ (Function.update vars name v) = Function.update vars.environ name
      (v.bind fun v ↦ if v.exported then some v.value else none) := by
  funext other
  by_cases h : other = name
  · subst h
    simp [environ]
  · simp [environ, h]

@[simp] theorem environ_exportAssign (vars : Variables) (name : String) (word : List Piece) :
    (vars.exec (.exportAssign name word)).environ =
      Function.update vars.environ name (some (vars.expand word)) := environ_update ..

@[simp] theorem environ_unset (vars : Variables) (name : String) :
    (vars.exec (.unset name)).environ = Function.update vars.environ name none :=
  environ_update ..

/-- Assigning to a variable that is not set leaves the environment alone. -/
theorem environ_assign {vars : Variables} {name : String} (h : vars name = none)
    (word : List Piece) : (vars.exec (.assign name word)).environ = vars.environ := by
  simp only [exec, environ_update, h, Option.any_none]
  funext other
  by_cases hother : other = name
  · simp [hother, environ, h]
  · simp [hother]

end Variables

/-- Environment after the evaluation of a text, if its commands are all of the kinds above. -/
def evalText (env : Environ) (text : String) : Option Environ :=
  (parse text).map fun commands ↦ (commands.foldl .exec (Variables.ofEnviron env)).environ

/-- A line reads as commands: before any rest of the text it adds them to the commands of the
rest. -/
def Line (line : List Char) (commands : List Command) : Prop := ∀ rest,
  parseChars (line ++ '\n' :: rest) = (parseChars rest).map (commands ++ ·)

private theorem commandLines_words (words words' : List (List Char)) (lexemes : List Lexeme) :
    commandLines words (words'.map .word ++ .newline :: lexemes) =
      (command (words ++ words')).bind fun cs ↦ (commandLines [] lexemes).map (cs ++ ·) := by
  induction words' generalizing words with
  | nil => simp [commandLines]
  | cons word words' ih => simp [commandLines, ih]

private theorem line_of_words {line : List Char} (words : List (List Char)) {commands : List Command}
    (hlex : ∀ rest, lex .bare none (line ++ '\n' :: rest) =
      (lex .bare none rest).map (words.map Lexeme.word ++ .newline :: ·))
    (hcommand : command words = some commands) : Line line commands := by
  intro rest
  rw [parseChars, hlex, parseChars]
  cases lex .bare none rest with
  | none => rfl
  | some lexemes => simp [commandLines_words, hcommand]

/-- Lines that read as commands read as all of them, in order. -/
theorem parseChars_lines {lines : List (List Char)} {commands : List (List Command)}
    (h : List.Forall₂ Line lines commands) :
    parseChars (lines.flatMap (· ++ ['\n'])) = some commands.flatten := by
  induction h with
  | nil => rfl
  | cons hline _ ih =>
    rw [List.flatMap_cons, List.append_assoc, List.singleton_append, hline, ih]
    rfl

private theorem isNameChar_plain {c : Char} (h : isNameChar c = true) : isPlain c = true ∧ c ≠ '=' := by
  simp only [isNameChar, Bool.or_eq_true, beq_iff_eq] at h
  constructor
  · rcases h with h | rfl
    · simp [isPlain, h]
    · decide
  · rintro rfl
    exact absurd h (by decide)

/-- A name is not empty, and all its characters are characters of names. -/
theorem isName_spec {name : List Char} (h : isName name = true) :
    name ≠ [] ∧ ∀ c ∈ name, isNameChar c = true := by
  cases name with
  | nil => contradiction
  | cons c cs =>
    simp only [isName, Bool.and_eq_true, List.all_eq_true] at h
    refine ⟨List.cons_ne_nil _ _, List.forall_mem_cons.mpr ⟨?_, h.2⟩⟩
    rcases Bool.or_eq_true_iff.mp h.1 with halpha | hline
    · simp [isNameChar, Char.isAlphanum, halpha]
    · simp [isNameChar, hline]

private theorem quotes_name {name : List Char} (h : isName name = true) : Quotes name name :=
  quotes_plain (isName_spec h).1 fun c hc ↦ (isNameChar_plain ((isName_spec h).2 c hc)).1

private theorem exportOperand_name {name : List Char} (h : isName name = true) (value : List Char) :
    exportOperand (name ++ '=' :: value) =
      some (.exportAssign (.ofList name) [.text (.ofList value)]) := by
  have hne : ∀ c ∈ name, (c ≠ '=' : Bool) = true := fun c hc ↦ by
    simpa using (isNameChar_plain ((isName_spec h).2 c hc)).2
  have hdrop : (name ++ '=' :: value).dropWhile (· ≠ '=') = '=' :: value := by
    rw [List.dropWhile_append_of_pos hne]
    rfl
  have htake : (name ++ '=' :: value).takeWhile (· ≠ '=') = name := by
    rw [List.takeWhile_append_of_pos hne]
    simp
  rw [exportOperand, hdrop, htake]
  simp [h]

/-- A line that exports a name with a quoted value. -/
theorem line_export {name quoted value : List Char} (hname : isName name = true)
    (hquoted : Quotes quoted value) :
    Line ("export ".toList ++ (name ++ '=' :: quoted))
      [.exportAssign (.ofList name) [.text (.ofList value)]] := by
  apply line_of_words ["export".toList, name ++ '=' :: value]
  · intro rest
    have hequals : Quotes ['='] ['='] := quotes_plain (by simp) (List.all_eq_true.mp rfl)
    have hoperand : Quotes (name ++ (['='] ++ quoted)) (name ++ (['='] ++ value)) :=
      (quotes_name hname).append (hequals.append hquoted)
    have hexport : Quotes "export".toList "export".toList :=
      quotes_plain (by decide) (List.all_eq_true.mp rfl)
    have hsplit : "export ".toList ++ (name ++ '=' :: quoted) ++ '\n' :: rest =
        "export".toList ++ ' ' :: (name ++ (['='] ++ quoted) ++ '\n' :: rest) := by
      simp
    rw [hsplit, hexport, lex_blank, hoperand, lex_newline]
    cases lex .bare none rest <;> rfl
  · simp only [command, if_pos, List.mapM_cons, List.mapM_nil, exportOperand_name hname]
    rfl

/-- A line that unsets a name. -/
theorem line_unset {name : List Char} (hname : isName name = true) :
    Line ("unset ".toList ++ name) [.unset (.ofList name)] := by
  apply line_of_words ["unset".toList, name]
  · intro rest
    have hunset : Quotes "unset".toList "unset".toList :=
      quotes_plain (by decide) (List.all_eq_true.mp rfl)
    have hsplit : "unset ".toList ++ name ++ '\n' :: rest =
        "unset".toList ++ ' ' :: (name ++ '\n' :: rest) := by
      simp
    rw [hsplit, hunset, lex_blank, quotes_name hname, lex_newline]
    cases lex .bare none rest <;> rfl
  · have hne : "unset".toList ≠ "export".toList := by decide
    simp only [command, if_neg hne, if_pos, List.mapM_cons, List.mapM_nil, unsetOperand, hname]
    rfl

end HzjDds.Shell
