import NodeGrid.Node.Basic

/-!
# Steps

A step runs the command at the program counter. Nothing ever waits inside a step: while a value has
not been taken, and where an operand has no value, the step changes nothing and the same command is
tried again.

`execute` gives the distance by which the program counter moves. It moves by 0 where an operand has
no value, and a move before the start stops at the start.
-/

namespace NodeGrid

/-- What a step did. -/
inductive Outcome where
  /-- There is no program. -/
  | idle
  /-- A value written before has not been taken. -/
  | writeBlocked
  /-- The command did not move on. -/
  | readBlocked
  | executed
  deriving DecidableEq

namespace Node

/-- Uses a value where the operand has one, and moves on; otherwise stays. -/
def reading (n : Node) (o : Operand) (use : Node → Int32 → Node) : Node × Int :=
  match n.value? o with
  | some value => (use (n.consume o) value, 1)
  | none => (n, 0)

/-- The distance to the label that an operand names. A label that is not there is passed over. -/
def jumpDistance (n : Node) (target : Operand) : Int :=
  match target.word?.bind n.program.findLabel? with
  | some label => Line.distance n.pc label.line
  | none => 1

/-- The node after a command, with the counter where it was, and the distance to move it. -/
def execute (n : Node) (c : Command) : Node × Int :=
  match c.opcode with
  | .lbl | .nop => (n, 1)
  | .mov => n.reading c.primary fun n value => n.write value c.secondary
  | .swp => ({ n with acc := n.bak, bak := n.acc }, 1)
  | .sav => ({ n with bak := n.acc }, 1)
  | .add => n.reading c.primary fun n value => { n with acc := n.acc + value }
  | .sub => n.reading c.primary fun n value => { n with acc := n.acc - value }
  | .neg => ({ n with acc := -n.acc }, 1)
  | .jmp | .jez | .jnz | .jgz | .jlz =>
    (n, if c.opcode.isTaken n.acc then n.jumpDistance c.primary else 1)
  | .jro => (n.consume c.primary, ((n.value? c.primary).getD 0).toInt)

/-- A counter past the end starts again. -/
def wrap (n : Node) : Node := if n.pc < n.program.length then n else { n with pc := 0 }

/-- The command that runs next. -/
def current? (n : Node) : Option Command := n.program[n.pc]?

/-- Moves the counter, not before the start. -/
def move (n : Node) (distance : Int) : Node := { n with pc := (n.pc + distance).toNat }

/-- Runs a command and says whether it went through. Only a relative jump may stay on purpose. -/
def run (n : Node) (c : Command) : Node × Outcome :=
  let (after, distance) := n.execute c
  (after.move distance, if distance = 0 ∧ c.opcode ≠ .jro then .readBlocked else .executed)

def step (n : Node) : Node × Outcome :=
  let n := n.wrap
  if n.isPending then (n, .writeBlocked)
  else
    match n.current? with
    | none => (n, .idle)
    | some c => n.run c

/-- Steps until the counter is past the end; `none` if `fuel` steps are not enough. -/
def finish? : Nat → Node → Option Node
  | fuel, n =>
    if n.program.length ≤ n.pc then some n
    else
      match fuel with
      | 0 => none
      | fuel + 1 => finish? fuel n.step.1

end Node

end NodeGrid
