import NodeGrid.Text.Printable

/-!
# Quoted text

A text in double quotes, for messages. A quote and a backslash are escaped, tab, line break,
carriage return and NUL have short forms, every other hidden character is written by its code
point, and all else stands for itself.
-/

namespace NodeGrid.Quoted

/-- A code point in lower-case hexadecimal. -/
def codePoint (c : Char) : List Char :=
  ['\\', 'u', '\x7b'] ++ Nat.toDigits 16 c.toNat ++ ['\x7d']

/-- The quoted form of one character. -/
def escape : Char → List Char
  | '"' => ['\\', '"']
  | '\\' => ['\\', '\\']
  | '\t' => ['\\', 't']
  | '\n' => ['\\', 'n']
  | '\r' => ['\\', 'r']
  | '\x00' => ['\\', '0']
  | c => if Printable.isPrintable c then [c] else codePoint c

/-- The quoted form of a text. -/
def encode (text : String) : String :=
  String.ofList ('"' :: text.toList.flatMap escape ++ ['"'])

end NodeGrid.Quoted
