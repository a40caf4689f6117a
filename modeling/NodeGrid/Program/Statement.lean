import NodeGrid.Command
import NodeGrid.Program.Lexeme

/-!
# Statements

`Outline.ofLexemes` divides the lexemes of a program into statements: labels, comments and
operations with as many operand lexemes as the instruction takes, whatever they are. Other lexemes
are passed over. The outline ends early where an instruction has too few lexemes left.

Each statement has a height, the number of lines that it counts for: an operation and a comment
count one, a label counts one if it stands alone on its line. A command stands on the line that is
the sum of the heights before it (`Program.ofStatements`).

* `ofLexemes_operation`, `ofLexemes_cutOff`: an instruction takes exactly its operands and leaves
  the rest, or ends the outline.
-/

namespace NodeGrid

inductive Statement where
  | label (name : String) (alone : Bool)
  | comment (text : String)
  | operation (opcode : Opcode) (operands : List Lexeme)
  deriving DecidableEq

namespace Statement

/-- The number of lines that the statement counts for. -/
def height : Statement → Nat
  | label _ alone => if alone then 1 else 0
  | comment _ => 1
  | operation _ _ => 1

end Statement

/-! ## Operands -/

namespace Operand

/-- The operand that a lexeme denotes: the accumulator, a number or a side whatever its kind, then
by kind a label or a plain word. Anything else denotes nothing. -/
def ofLexeme (lexeme : Lexeme) : Operand :=
  if lexeme.text = accName then .acc
  else
    match Numeral.readInt32 lexeme.text with
    | .ok value => .number value
    | .error _ =>
      match Direction.ofName? lexeme.text with
      | some direction => .side direction
      | none =>
        match lexeme.kind with
        | .label => .label lexeme.text
        | .word => .text lexeme.text
        | _ => .empty

end Operand

namespace Command

/-- The command of an operation. The target of a label jump is a name as it stands, so that a label
may be called like a register or a side. -/
def ofOperation (line : Nat) (opcode : Opcode) (operands : List Lexeme) : Command :=
  let operand : Lexeme → Operand :=
    if opcode.isLabelJump then fun lexeme => .text lexeme.text else Operand.ofLexeme
  match operands.map operand with
  | [] => { line, opcode }
  | [primary] => { line, opcode, primary }
  | primary :: secondary :: _ => { line, opcode, primary, secondary }

/-- The command of a statement on the given line, if it has one. -/
def ofStatement? (line : Nat) : Statement → Option Command
  | .label name _ => some { line, opcode := .lbl, primary := .label name }
  | .comment _ => none
  | .operation opcode operands => some (ofOperation line opcode operands)

end Command

/-! ## Outlines -/

/-- The statements of a program, and the instruction that was cut off if there is one, with the
number of lexemes left for it. -/
structure Outline where
  statements : List Statement := []
  cutOff? : Option (Opcode × Nat) := none
  deriving DecidableEq

namespace Outline

def cons (statement : Statement) (outline : Outline) : Outline :=
  { outline with statements := statement :: outline.statements }

/-- The instruction that a lexeme calls for. A label is only made by a colon. -/
def instruction? (lexeme : Lexeme) : Option Opcode :=
  if lexeme.kind = .word then (Opcode.ofName? lexeme.text).filter (· ≠ .lbl) else none

/-- Whether a line ends here. -/
def endsLine : List Lexeme → Bool
  | [] => false
  | lexeme :: _ => lexeme.kind = .newline

def ofLexemes : List Lexeme → Outline
  | [] => {}
  | lexeme :: rest =>
    match lexeme.kind with
    | .label => (ofLexemes rest).cons (.label lexeme.text (endsLine rest))
    | .comment => (ofLexemes rest).cons (.comment lexeme.text)
    | _ =>
      match instruction? lexeme with
      | none => ofLexemes rest
      | some opcode =>
        match opcode.arity, rest with
        | 0, rest => (ofLexemes rest).cons (.operation opcode [])
        | 1, a :: rest => (ofLexemes rest).cons (.operation opcode [a])
        | 2, a :: b :: rest => (ofLexemes rest).cons (.operation opcode [a, b])
        | _, rest => { cutOff? := some (opcode, rest.length) }

/-- The number of lines that the statements count for. -/
def height (outline : Outline) : Nat :=
  outline.statements.foldr (fun statement lines => statement.height + lines) 0

/-! ## Operations -/

theorem kind_of_instruction? {lexeme : Lexeme} {opcode : Opcode}
    (h : instruction? lexeme = some opcode) : lexeme.kind = .word := by
  unfold instruction? at h
  split at h
  · assumption
  · contradiction

/-- An operation takes as many lexemes as its instruction has operands, and leaves the rest. -/
theorem ofLexemes_operation {lexeme : Lexeme} {opcode : Opcode} {rest : List Lexeme}
    (hi : instruction? lexeme = some opcode) (hl : opcode.arity ≤ rest.length) :
    ofLexemes (lexeme :: rest) =
      (ofLexemes (rest.drop opcode.arity)).cons (.operation opcode (rest.take opcode.arity)) := by
  rw [ofLexemes]
  simp only [kind_of_instruction? hi, hi]
  have ha : opcode.arity = 0 ∨ opcode.arity = 1 ∨ opcode.arity = 2 := by
    have := opcode.arity_le_two
    omega
  rcases ha with h | h | h <;> rcases rest with _ | ⟨a, _ | ⟨b, rest⟩⟩ <;> simp_all

/-- With too few lexemes left the outline ends. -/
theorem ofLexemes_cutOff {lexeme : Lexeme} {opcode : Opcode} {rest : List Lexeme}
    (hi : instruction? lexeme = some opcode) (hl : rest.length < opcode.arity) :
    ofLexemes (lexeme :: rest) = { cutOff? := some (opcode, rest.length) } := by
  rw [ofLexemes]
  simp only [kind_of_instruction? hi, hi]
  split
  · next h => omega
  · next h => simp [h] at hl
  · next h => simp only [h, List.length_cons] at hl; omega
  · rfl

end Outline

end NodeGrid
