import Mathlib.Data.List.Basic

/-!
# Words of a shell line

Library `Shell`. POSIX token recognition for the part of the shell language that assigns
variables: words made of bare characters and of single-quoted and double-quoted pieces, blanks
between words, newlines between commands. A character that starts anything else (an expansion, an
escape, an operator, a pattern, a comment) ends the analysis with `none`.
-/

namespace HzjDds.Shell

/-- The quotation a character stands in. -/
inductive Quote where
  | bare
  | single
  | double
  deriving DecidableEq, Repr

/-- A word after quote removal, or the end of a line. -/
inductive Lexeme where
  | word (text : List Char)
  | newline
  deriving DecidableEq, Repr

/-- The two quotation marks. -/
def singleQuote : Char := '\x27'

@[inherit_doc singleQuote] def doubleQuote : Char := '\x22'

/-- Characters that stand for themselves outside quotation marks wherever they occur. -/
def isPlain (c : Char) : Bool := c.isAlphanum || "_/.-:,+@%=".toList.contains c

/-- Characters that double quotes do not take literally. -/
def expands (c : Char) : Bool := "$\x60\\".toList.contains c

/-- The word read so far, with one more character. -/
def push (word : Option (List Char)) (c : Char) : Option (List Char) := some (word.getD [] ++ [c])

/-- The word read so far as a lexeme. -/
def flush (word : Option (List Char)) : List Lexeme := (word.map Lexeme.word).toList

/-- Lexemes of the rest of a text, from the quotation and the word that it begins in. Quotation
marks end no word; a quotation that is not closed is an error. -/
def lex : Quote → Option (List Char) → List Char → Option (List Lexeme)
  | .bare, word, [] => some (flush word)
  | _, _, [] => none
  | .single, word, c :: cs =>
    if c = singleQuote then lex .bare word cs
    else if c = '\x00' then none
    else lex .single (push word c) cs
  | .double, word, c :: cs =>
    if c = doubleQuote then lex .bare word cs
    else if c = '\x00' ∨ expands c = true then none
    else lex .double (push word c) cs
  | .bare, word, c :: cs =>
    if c = singleQuote then lex .single (some (word.getD [])) cs
    else if c = doubleQuote then lex .double (some (word.getD [])) cs
    else if c = ' ' ∨ c = '\t' then (lex .bare none cs).map (flush word ++ ·)
    else if c = '\n' then (lex .bare none cs).map (flush word ++ .newline :: ·)
    else if isPlain c then lex .bare (push word c) cs
    else none

/-- A quoted piece stands for its text: from where it begins to where it ends, it adds the text
to the word it stands in. -/
def Quotes (quoted text : List Char) : Prop := ∀ word rest,
  lex .bare word (quoted ++ rest) = lex .bare (some (word.getD [] ++ text)) rest

private theorem isPlain_ne {c : Char} (h : isPlain c = true) :
    c ≠ singleQuote ∧ c ≠ doubleQuote ∧ c ≠ ' ' ∧ c ≠ '\t' ∧ c ≠ '\n' := by
  refine ⟨?_, ?_, ?_, ?_, ?_⟩ <;> rintro rfl <;> exact absurd h (by decide)

private theorem lex_plain {c : Char} (h : isPlain c = true) (word : Option (List Char))
    (rest : List Char) : lex .bare word (c :: rest) = lex .bare (push word c) rest := by
  obtain ⟨hsingle, hdouble, hspace, htab, hline⟩ := isPlain_ne h
  simp [lex, hsingle, hdouble, hspace, htab, hline, h]

/-- Plain characters stand for themselves. -/
theorem quotes_plain {text : List Char} (hne : text ≠ []) (h : ∀ c ∈ text, isPlain c = true) :
    Quotes text text := by
  induction text with
  | nil => contradiction
  | cons c text ih =>
    intro word rest
    rw [List.cons_append, lex_plain (h c List.mem_cons_self)]
    by_cases htext : text = []
    · simp [htext, push]
    · rw [ih htext fun d hd ↦ h d (List.mem_cons_of_mem c hd)]
      simp [push]

/-- Pieces that follow one another add their texts one after the other. -/
theorem Quotes.append {quoted quoted' text text' : List Char} (h : Quotes quoted text)
    (h' : Quotes quoted' text') : Quotes (quoted ++ quoted') (text ++ text') := by
  intro word rest
  rw [List.append_assoc, h, h']
  simp

/-- A blank ends a word. -/
theorem lex_blank (word : Option (List Char)) (rest : List Char) :
    lex .bare word (' ' :: rest) = (lex .bare none rest).map (flush word ++ ·) := by
  rw [lex, if_neg (by decide), if_neg (by decide), if_pos (Or.inl rfl)]

/-- A newline ends a word and a line. -/
theorem lex_newline (word : Option (List Char)) (rest : List Char) :
    lex .bare word ('\n' :: rest) = (lex .bare none rest).map (flush word ++ .newline :: ·) := by
  rw [lex, if_neg (by decide), if_neg (by decide), if_neg (by decide), if_pos rfl]

/-- Escape of a text for single quotes: a quotation mark in it closes them, stands between
double quotes, and opens them again. -/
def escapeSingle (text : List Char) : List Char := text.flatMap fun c ↦
  if c = singleQuote then
    [singleQuote, doubleQuote, singleQuote, doubleQuote, singleQuote]
  else [c]

private theorem lex_escapeSingle {text : List Char} (h : '\x00' ∉ text) (word rest : List Char) :
    lex .single (some word) (escapeSingle text ++ rest) =
      lex .single (some (word ++ text)) rest := by
  induction text generalizing word with
  | nil => simp [escapeSingle]
  | cons c text ih =>
    obtain ⟨hc, htext⟩ : '\x00' ≠ c ∧ '\x00' ∉ text := by simpa using h
    have hstep : escapeSingle (c :: text) ++ rest =
        (if c = singleQuote then
          [singleQuote, doubleQuote, singleQuote, doubleQuote, singleQuote]
        else [c]) ++ (escapeSingle text ++ rest) := by
      simp [escapeSingle]
    have hread : word ++ c :: text = (word ++ [c]) ++ text := by simp
    rw [hstep, hread, ← ih htext]
    by_cases hquote : c = singleQuote
    · subst hquote
      rfl
    · rw [if_neg hquote, List.singleton_append, lex, if_neg hquote, if_neg (Ne.symm hc)]
      rfl

/-- A text escaped between single quotes stands for itself. -/
theorem quotes_escapeSingle {text : List Char} (h : '\x00' ∉ text) :
    Quotes (singleQuote :: escapeSingle text ++ [singleQuote]) text := by
  intro word rest
  have hopen : lex .bare word (singleQuote :: escapeSingle text ++ [singleQuote] ++ rest) =
      lex .single (some (word.getD [])) (escapeSingle text ++ singleQuote :: rest) := by
    simp [lex]
  rw [hopen, lex_escapeSingle h, lex, if_pos rfl]

end HzjDds.Shell
