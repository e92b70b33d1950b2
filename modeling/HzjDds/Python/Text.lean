import Mathlib.Data.List.Infix
import Mathlib.Data.Nat.Notation
import Mathlib.Data.Int.Notation

/-!
# Strings as Python reads them

Library `Python`. The built-in operations on `str` that programs rely on, with the Unicode classes
they are documented to use.
-/

namespace HzjDds.Python

/-- `str.isspace` of one character. -/
def isSpace (c : Char) : Bool :=
  let n := c.toNat
  (9 ≤ n && n ≤ 13) || (28 ≤ n && n ≤ 32) || n == 0x85 || n == 0xA0 || n == 0x1680 ||
    (0x2000 ≤ n && n ≤ 0x200A) || n == 0x2028 || n == 0x2029 || n == 0x202F || n == 0x205F ||
    n == 0x3000

/-- A list without the characters of a class at its ends. -/
def stripList (p : Char → Bool) (cs : List Char) : List Char :=
  ((cs.dropWhile p).reverse.dropWhile p).reverse

/-- `str.strip()`. -/
def strip (s : String) : String := .ofList (stripList isSpace s.toList)

/-- `str.lstrip()`. -/
def lstrip (s : String) : String := .ofList (s.toList.dropWhile isSpace)

/-- `sub in s`. -/
def isIn (sub s : String) : Bool := decide (sub.toList <:+: s.toList)

theorem isIn_iff {sub s : String} : isIn sub s = true ↔ sub.toList <:+: s.toList :=
  decide_eq_true_iff

/-- `s.startswith(start)`. -/
def startsWith (s start : String) : Bool := start.toList.isPrefixOf s.toList

/-- `s.endswith(stop)`. -/
def endsWith (s stop : String) : Bool := stop.toList.isSuffixOf s.toList

/-- `s.lstrip(chars)`. -/
def lstripOf (chars s : String) : String := .ofList (s.toList.dropWhile (· ∈ chars.toList))

/-- `s.split(sep, 1)[0]`, for a separator of one character. -/
def firstPart (sep : Char) (s : String) : String := .ofList (s.toList.takeWhile (· ≠ sep))

/-- Characters behind which `str.splitlines` begins a line. -/
def isLineBreak (c : Char) : Bool :=
  let n := c.toNat
  (10 ≤ n && n ≤ 13) || (28 ≤ n && n ≤ 30) || n == 0x85 || n == 0x2028 || n == 0x2029

/-- Lines of a text, given the part of its first line that is read already, last character
first. -/
def splitlinesFrom : List Char → List Char → List (List Char)
  | [], [] => []
  | line, [] => [line.reverse]
  | line, '\r' :: '\n' :: cs => line.reverse :: splitlinesFrom [] cs
  | line, c :: cs =>
    if isLineBreak c then line.reverse :: splitlinesFrom [] cs else splitlinesFrom (c :: line) cs

/-- `str.splitlines()`. -/
def splitlines (s : String) : List String := (splitlinesFrom [] s.toList).map .ofList

/-- `sorted(set(xs))`. -/
def sortedSet (xs : List String) : List String := xs.eraseDups.mergeSort fun a b ↦ decide (a ≤ b)

/-- First characters of the runs of ten decimal digits in Unicode. -/
def decimalZeros : List ℕ :=
  [0x30, 0x660, 0x6F0, 0x7C0, 0x966, 0x9E6, 0xA66, 0xAE6, 0xB66, 0xBE6, 0xC66, 0xCE6, 0xD66, 0xDE6,
    0xE50, 0xED0, 0xF20, 0x1040, 0x1090, 0x17E0, 0x1810, 0x1946, 0x19D0, 0x1A80, 0x1A90, 0x1B50,
    0x1BB0, 0x1C40, 0x1C50, 0xA620, 0xA8D0, 0xA900, 0xA9D0, 0xA9F0, 0xAA50, 0xABF0, 0xFF10,
    0x104A0, 0x10D30, 0x11066, 0x110F0, 0x11136, 0x111D0, 0x112F0, 0x11450, 0x114D0, 0x11650,
    0x116C0, 0x11730, 0x118E0, 0x11950, 0x11C50, 0x11D50, 0x11DA0, 0x16A60, 0x16AC0, 0x16B50,
    0x1D7CE, 0x1D7D8, 0x1D7E2, 0x1D7EC, 0x1D7F6, 0x1E140, 0x1E2F0, 0x1E950, 0x1FBF0]

/-- Value of a decimal digit. -/
def decimal (c : Char) : Option ℕ :=
  (decimalZeros.find? fun first ↦ first ≤ c.toNat && c.toNat < first + 10).map (c.toNat - ·)

/-- White space of `int`: among the ASCII characters only what C counts as such. -/
def isIntSpace (c : Char) : Bool := if c.toNat < 127 then (9 ≤ c.toNat && c.toNat ≤ 13) || c == ' '
  else isSpace c

/-- Digits with single underscores between them, from the value read so far. -/
def digitsValue : Bool → ℕ → List Char → Option ℕ
  | afterDigit, n, [] => if afterDigit then some n else none
  | afterDigit, n, c :: cs =>
    if c = '_' then if afterDigit then digitsValue false n cs else none
    else (decimal c).bind fun d ↦ digitsValue true (10 * n + d) cs

/-- `int(s)`; `none` if it raises. -/
def int (s : String) : Option ℤ :=
  let body := stripList isIntSpace s.toList
  let digits := match body with
    | '+' :: cs | '-' :: cs => cs
    | cs => cs
  if 4300 < digits.countP (· ≠ '_') then none
  else (digitsValue false 0 digits).map fun n ↦ if body.head? = some '-' then -n else n

end HzjDds.Python
