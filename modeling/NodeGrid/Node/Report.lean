import NodeGrid.Node.Step
import NodeGrid.Event
import NodeGrid.Text.Quoted

/-!
# Reports of a step

The events of a step, read off the node before it.
-/

namespace NodeGrid.Node

/-- A jump that is taken to a label that is not there. -/
def jumpEvents (n : Node) (c : Command) : List Event :=
  if c.opcode.isLabelJump ∧ c.opcode.isTaken n.acc ∧
      (c.primary.word?.bind n.program.findLabel?).isNone then
    [⟨.warn, "jump to undefined label " ++ Quoted.encode (c.primary.word?.getD "") ++ " at pc=" ++
      toString n.pc⟩]
  else []

def stepEvents (n : Node) : List Event :=
  let n := n.wrap
  let start := "pc=" ++ toString n.pc ++ " "
  if n.isPending then [⟨.trace, start ++ "write blocked"⟩]
  else
    match n.current? with
    | none => []
    | some c =>
      n.jumpEvents c ++
        [⟨.trace, start ++ c.render ++ " -> offset " ++ toString (n.execute c).2⟩]

/-- The events of all steps until the counter is past the end. -/
def finishEvents : Nat → Node → List Event
  | fuel, n =>
    if n.program.length ≤ n.pc then []
    else
      match fuel with
      | 0 => []
      | fuel + 1 => n.stepEvents ++ finishEvents fuel n.step.1

end NodeGrid.Node
