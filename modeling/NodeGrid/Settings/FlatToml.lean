import NodeGrid.Text.Decimal

/-!
# Flat TOML files

A file of lines `key = value` with bare keys. Values are integers, floats, truth values, basic
strings and arrays of values; blanks, comments and empty lines are passed over. Anything else, and a
key that occurs twice, makes the whole file invalid. Only integers and truth values are kept.

Three limits hold: integers have 64 bits, a float that is not negative does not overflow, and at
most `maxNesting` arrays stand in one another.

Each reader takes what it accepts from the front of the text and leaves the rest.
-/

namespace NodeGrid.FlatToml

inductive Value where
  | integer (value : Int)
  | boolean (value : Bool)
  | float
  | string
  | array
  deriving DecidableEq

/-- The keys of a file with their values, in order. -/
abbrev Table := List (String × Value)

/-- A reader of the front of a text. -/
abbrev Reader (α : Type) := List Char → Option (α × List Char)

/-! ## Blanks, comments, line breaks -/

def isSpace (c : Char) : Bool := c = ' ' || c = '\t'

def skipSpaces (cs : List Char) : List Char := cs.dropWhile isSpace

/-- Whether a character may stand in a comment or, quotes and backslashes apart, in a string. -/
def isPlain (c : Char) : Bool := c = '\t' || (' ' ≤ c && c ≠ '\x7f')

/-- Leaves out a comment, if there is one here. -/
def skipComment : List Char → List Char
  | '#' :: rest => rest.dropWhile isPlain
  | cs => cs

/-- The text after a line break, or `none` where the line goes on. -/
def lineBreak? : List Char → Option (List Char)
  | '\n' :: rest => some rest
  | '\r' :: '\n' :: rest => some rest
  | _ => none

/-- Leaves out blanks, comments and line breaks, as they may stand between the parts of an array.
The flag says whether the text begins inside a comment. -/
def skipLines (inComment : Bool) : List Char → List Char
  | '\n' :: rest => skipLines false rest
  | '\r' :: '\n' :: rest => skipLines false rest
  | '#' :: rest => skipLines true rest
  | c :: rest =>
    if isSpace c || (inComment && isPlain c) then skipLines inComment rest else c :: rest
  | [] => []

/-! ## Numbers and truth values -/

/-- At least one digit; an underscore may stand between two digits. -/
def isGroup (isDigit : Char → Bool) : List Char → Bool
  | [] => false
  | [c] => isDigit c
  | c :: '_' :: rest => isDigit c && isGroup isDigit rest
  | c :: rest => isDigit c && isGroup isDigit rest

/-- A decimal number without a superfluous zero in front. -/
def isDecimal (cs : List Char) : Bool :=
  isGroup Char.isDigit cs && (cs.head? ≠ some '0' || cs.length = 1)

def digitValue (c : Char) : Nat :=
  if c.isDigit then c.toNat - '0'.toNat
  else if 'a' ≤ c && c ≤ 'f' then c.toNat - 'a'.toNat + 10
  else if 'A' ≤ c && c ≤ 'F' then c.toNat - 'A'.toNat + 10
  else 16

/-- The number that digits denote; underscores do not count. -/
def groupValue (base : Nat) (cs : List Char) : Nat :=
  (cs.filter (· ≠ '_')).foldl (fun n c => base * n + digitValue c) 0

/-- An integer of 64 bits. -/
def inRange (n : Int) : Option Value :=
  if Int64.minValue.toInt ≤ n ∧ n ≤ Int64.maxValue.toInt then some (.integer n) else none

/-- An integer without a sign and in another base than ten. -/
def based? : List Char → Option Value
  | '0' :: 'x' :: cs => digits 16 cs
  | '0' :: 'o' :: cs => digits 8 cs
  | '0' :: 'b' :: cs => digits 2 cs
  | _ => none
where
  /-- The digits of the given base. -/
  digits (base : Nat) (cs : List Char) : Option Value :=
    if isGroup (digitValue · < base) cs then inRange (groupValue base cs) else none

/-- Splits off a sign. -/
def unsigned : List Char → Bool × List Char
  | '+' :: cs => (false, cs)
  | '-' :: cs => (true, cs)
  | cs => (false, cs)

/-- The characters of digits. -/
def isGroupPart (c : Char) : Bool := c.isDigit || c = '_'

/-- The exponent that the text spells; without a text it is zero. -/
def exponent? : List Char → Option Int
  | [] => some 0
  | c :: cs =>
    let (negative, digits) := unsigned cs
    if (c = 'e' || c = 'E') && isGroup Char.isDigit digits then
      let n : Int := groupValue 10 digits
      some (if negative then -n else n)
    else none

/-- The digits of a fraction and an exponent, one of which may be missing. -/
def tail? : List Char → Option (List Char × Int)
  | '.' :: cs =>
    let fraction := cs.takeWhile isGroupPart
    if isGroup Char.isDigit fraction then
      (exponent? (cs.dropWhile isGroupPart)).map (fraction, ·)
    else none
  | cs => (exponent? cs).map ([], ·)

/-- The decimal fraction that a float without a sign spells. -/
def decimal? (cs : List Char) : Option Decimal :=
  let whole := cs.takeWhile isGroupPart
  if isDecimal whole then
    (tail? (cs.dropWhile isGroupPart)).map fun (fraction, exponent) =>
      { digits := groupValue 10 (whole ++ fraction)
        exponent := exponent - fraction.countP Char.isDigit }
  else none

/-- The value of a number or a truth value that fills the text. -/
def scalar? (cs : List Char) : Option Value :=
  let (negative, digits) := unsigned cs
  if cs = "true".toList then some (.boolean true)
  else if cs = "false".toList then some (.boolean false)
  else if digits = "inf".toList ∨ digits = "nan".toList then some .float
  else if isDecimal digits then
    let n : Int := groupValue 10 digits
    inRange (if negative then -n else n)
  else
    match decimal? digits with
    | some d => if d.overflows && !negative then none else some .float
    | none => based? cs

/-- The characters of numbers and truth values. -/
def isScalarPart (c : Char) : Bool :=
  c.isAlphanum || c = '+' || c = '-' || c = '_' || c = '.'

def scalar : Reader Value := fun cs =>
  (scalar? (cs.takeWhile isScalarPart)).map (·, cs.dropWhile isScalarPart)

/-! ## Strings -/

/-- Whether hexadecimal digits denote a character. -/
def isCodePoint (digits : List Char) : Bool :=
  digits.all (digitValue · < 16) && (groupValue 16 digits).isValidChar

/-- The text after the quote that ends a string. -/
def stringEnd? : List Char → Option (List Char)
  | '"' :: rest => some rest
  | '\\' :: 'u' :: a :: b :: c :: d :: rest =>
    if isCodePoint [a, b, c, d] then stringEnd? rest else none
  | '\\' :: 'U' :: a :: b :: c :: d :: e :: f :: g :: h :: rest =>
    if isCodePoint [a, b, c, d, e, f, g, h] then stringEnd? rest else none
  | '\\' :: c :: rest => if c ∈ "btnfr\"\\".toList then stringEnd? rest else none
  | c :: rest => if isPlain c ∧ c ≠ '\\' then stringEnd? rest else none
  | [] => none

/-! ## Values -/

/-- The text after the bracket that ends an array whose values the reader takes; a comma may stand
after the last value. The array has fewer values than `fuel`. -/
def elements (value : Reader Value) : Nat → List Char → Option (List Char)
  | 0, _ => none
  | fuel + 1, cs =>
    match skipLines false cs with
    | ']' :: rest => some rest
    | cs =>
      match value cs with
      | none => none
      | some (_, rest) =>
        match skipLines false rest with
        | ']' :: rest => some rest
        | ',' :: rest => elements value fuel rest
        | _ => none

/-- A value with at most `nesting` arrays in one another, each with fewer values than `fuel`. -/
def value (fuel : Nat) : Nat → Reader Value
  | _, '"' :: rest => (stringEnd? rest).map (.string, ·)
  | 0, '[' :: _ => none
  | nesting + 1, '[' :: rest => (elements (value fuel nesting) fuel rest).map (.array, ·)
  | _, cs => scalar cs

/-- The most arrays that may stand in one another. -/
def maxNesting : Nat := 79

/-! ## Files -/

def isKeyPart (c : Char) : Bool := c.isAlphanum || c = '_' || c = '-'

/-- One `key = value`; an array has fewer values than `fuel`. -/
def entry (fuel : Nat) : Reader (String × Value) := fun cs =>
  match cs.takeWhile isKeyPart, skipSpaces (cs.dropWhile isKeyPart) with
  | [], _ => none
  | key, '=' :: rest =>
    (value fuel maxNesting (skipSpaces rest)).map fun (value, rest) =>
      ((String.ofList key, value), rest)
  | _, _ => none

/-- An entry, or nothing on a line without one. -/
def lineEntry (fuel : Nat) (cs : List Char) : Option (Table × List Char) :=
  match cs with
  | [] | '#' :: _ | '\n' :: _ | '\r' :: _ => some ([], cs)
  | _ => (entry fuel cs).map fun (entry, rest) => ([entry], rest)

/-- The entries of all lines. -/
def lines : Nat → List Char → Option Table
  | 0, _ => none
  | fuel + 1, cs =>
    match lineEntry (fuel + 1) (skipSpaces cs) with
    | none => none
    | some (entries, rest) =>
      match skipComment (skipSpaces rest) with
      | [] => some entries
      | rest =>
        match lineBreak? rest with
        | some rest => (lines fuel rest).map (entries ++ ·)
        | none => none

/-- Leaves out a byte order mark. -/
def skipMark : List Char → List Char
  | '\ufeff' :: cs => cs
  | cs => cs

/-- The table of a file, or `none` if the file is invalid. -/
def read (text : String) : Option Table :=
  let cs := skipMark text.toList
  match lines (cs.length + 1) cs with
  | some table => if (table.map (·.1)).Nodup then some table else none
  | none => none

end NodeGrid.FlatToml
