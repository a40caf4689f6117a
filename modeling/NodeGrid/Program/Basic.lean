import NodeGrid.Program.Statement

/-!
# Programs

A program is the list of the commands of its statements, each on its line. Text is refused only
where an instruction has too few lexemes left; all other faults are left to `Program.faults`.
-/

namespace NodeGrid

/-- The commands that a node runs, in order. -/
abbrev Program := List Command

/-- An instruction with too few lexemes left for its operands. -/
structure ParseError where
  opcode : Opcode
  line : Nat
  found : Nat
  deriving DecidableEq

namespace ParseError

def expected (e : ParseError) : Nat := e.opcode.arity

def message (e : ParseError) : String :=
  e.opcode.name ++ " on line " ++ toString e.line ++ " needs " ++ toString e.expected ++
    " operand(s), found " ++ toString e.found

end ParseError

namespace Program

/-- The commands of a list of statements, the first of which stands on the given line. -/
def ofStatements (line : Nat) : List Statement → Program
  | [] => []
  | statement :: rest =>
    let later := ofStatements (line + statement.height) rest
    match Command.ofStatement? line statement with
    | some command => command :: later
    | none => later

/-- The program of an outline; the line of an instruction that is cut off is the next line. -/
def ofOutline (outline : Outline) : Except ParseError Program :=
  match outline.cutOff? with
  | none => .ok (ofStatements 0 outline.statements)
  | some (opcode, found) => .error { opcode, line := outline.height, found }

def ofLexemes (lexemes : List Lexeme) : Except ParseError Program :=
  ofOutline (Outline.ofLexemes lexemes)

def parse (text : String) : Except ParseError Program :=
  ofLexemes (Lexeme.ofText text)

/-- The first command that defines a label of this name. -/
def findLabel? (program : Program) (name : String) : Option Command :=
  program.find? (·.label? = some name)

/-- The largest line of a command, and 0 without commands. -/
def lastLine (program : Program) : Nat :=
  (program.map (·.line)).foldr max 0

end Program

end NodeGrid
