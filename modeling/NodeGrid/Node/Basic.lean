import NodeGrid.Program.Basic
import NodeGrid.Sides

/-!
# Nodes

A node has two registers, a program counter and, for each direction, a mailbox for one value that
comes in and a mailbox for one value that goes out. It is linked on some of its sides and holds a
program.

`value?` and `consume` are the two halves of reading an operand, `write` writes one, and
`receive` and `sent` with `drained` are how values get in and out.
-/

namespace NodeGrid

structure Node where
  acc : Int32 := 0
  bak : Int32 := 0
  /-- The index of the command that runs next. -/
  pc : Nat := 0
  inbox : Sides (Option Int32) := .replicate none
  outbox : Sides (Option Int32) := .replicate none
  links : LinkSet := .empty
  program : Program := []
  deriving DecidableEq

namespace Node

def link (n : Node) (d : Direction) : Node := { n with links := n.links.insert d }

/-! ## Operands -/

/-- The value of an operand, if it has one now. -/
def value? (n : Node) : Operand → Option Int32
  | .number value => some value
  | .acc => some n.acc
  | .side d => n.inbox.get d
  | .text word => if word = Operand.nilName then some 0 else none
  | .empty | .label _ => none

/-- Takes the value of an operand: a side that was read is empty. -/
def consume (n : Node) : Operand → Node
  | .side d => { n with inbox := n.inbox.set d none }
  | _ => n

/-- Writes a value; what is no register and no side swallows it. -/
def write (n : Node) (value : Int32) : Operand → Node
  | .acc => { n with acc := value }
  | .side d => { n with outbox := n.outbox.set d (some value) }
  | _ => n

/-! ## Mailboxes -/

/-- Whether a value from direction `d` would be accepted. -/
def accepts (n : Node) (d : Direction) : Bool := (n.inbox.get d).isNone

/-- Puts a value into the mailbox for `d`, unless that is full. -/
def receive (n : Node) (d : Direction) (value : Int32) : Node :=
  if n.accepts d then { n with inbox := n.inbox.set d (some value) } else n

/-- Empties the outgoing mailbox for `d`. -/
def release (n : Node) (d : Direction) : Node :=
  { n with outbox := n.outbox.set d none }

/-- Whether a value still waits to be taken. -/
def isPending (n : Node) : Bool := Direction.all.any fun d => (n.outbox.get d).isSome

/-- The values that leave on linked sides, in the order of sides. -/
def sent (n : Node) : List (Direction × Int32) :=
  Direction.all.filterMap fun d => if d ∈ n.links then (n.outbox.get d).map (d, ·) else none

/-- The node after its linked sides have been emptied. -/
def drained (n : Node) : Node :=
  { n with outbox := .ofFn fun d => if d ∈ n.links then none else n.outbox.get d }

end Node

end NodeGrid
