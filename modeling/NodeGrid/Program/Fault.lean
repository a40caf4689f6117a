import NodeGrid.Program.Basic
import NodeGrid.Sides

/-!
# Faults

A fault ties a cause to one operand slot of one command. `Program.faults` lists the faults of a
program on a node with given links, command by command, and never stops at the first.

A label is reported at each other command that defines the same name on another line, so two copies
report each other.
-/

namespace NodeGrid

/-- What is wrong with an operand. -/
inductive FaultCause where
  | parameter
  | direction
  | label
  | duplicate
  deriving DecidableEq

def FaultCause.message : FaultCause → String
  | parameter => "invalid parameter"
  | direction => "invalid direction"
  | label => "invalid label"
  | duplicate => "duplicate label"

structure Fault where
  command : Command
  slot : Slot
  cause : FaultCause
  deriving DecidableEq

namespace Fault

def line (fault : Fault) : Nat := fault.command.line

def render (fault : Fault) : String :=
  "line " ++ toString fault.line ++ ": " ++ fault.cause.message ++ " (operand " ++
    toString fault.slot.index ++ ") in `" ++ fault.command.render ++ "`"

end Fault

/-! ## Faults of a command -/

namespace Command

/-- A slot that has to be empty. -/
def emptyFaults (c : Command) (slot : Slot) : List Fault :=
  if (c.operand slot).isEmpty then [] else [⟨c, slot, .parameter⟩]

/-- A primary operand that is read as a number, from a linked side if from a side at all. -/
def sourceFaults (links : LinkSet) (c : Command) : List Fault :=
  match c.primary with
  | .number _ | .acc => []
  | .side d => if d ∈ links then [] else [⟨c, .primary, .direction⟩]
  | _ => [⟨c, .primary, .parameter⟩]

/-- A secondary operand that is written to. -/
def destinationFaults (links : LinkSet) (c : Command) : List Fault :=
  match c.secondary with
  | .acc => []
  | .side d => if d ∈ links then [] else [⟨c, .secondary, .direction⟩]
  | other => if other.isNil then [] else [⟨c, .secondary, .parameter⟩]

/-- The name that a label jump goes to. -/
def targetFaults (program : Program) (c : Command) : List Fault :=
  match c.primary with
  | .text name => if (program.findLabel? name).isSome then [] else [⟨c, .primary, .label⟩]
  | _ => [⟨c, .primary, .parameter⟩]

/-- The distance of a relative jump: a number has to lead to a line of the program. -/
def distanceFaults (program : Program) (c : Command) : List Fault :=
  match c.primary with
  | .number n =>
    let target := Line.word (c.line + n.toInt)
    if target < 0 ∨ Line.word program.lastLine < target then [⟨c, .primary, .parameter⟩] else []
  | .acc | .side _ => []
  | _ => [⟨c, .primary, .parameter⟩]

/-- The other commands that define the label of this one. -/
def duplicateFaults (program : Program) (c : Command) : List Fault :=
  (program.filter fun other =>
      other.label?.isSome ∧ other.label? = c.label? ∧ other.line ≠ c.line).map
    (⟨·, .primary, .duplicate⟩)

def faults (links : LinkSet) (program : Program) (c : Command) : List Fault :=
  match c.opcode with
  | .nop | .swp | .sav | .neg => c.emptyFaults .primary ++ c.emptyFaults .secondary
  | .mov => c.sourceFaults links ++ c.destinationFaults links
  | .add | .sub => c.emptyFaults .secondary ++ c.sourceFaults links
  | .jmp | .jez | .jnz | .jgz | .jlz => c.targetFaults program ++ c.emptyFaults .secondary
  | .jro => c.distanceFaults program ++ c.emptyFaults .secondary
  | .lbl => c.duplicateFaults program

end Command

/-- All faults of a program on a node with the given links. -/
def Program.faults (links : LinkSet) (program : Program) : List Fault :=
  program.flatMap (Command.faults links program)

end NodeGrid
