import NodeGrid.Board.Basic
import NodeGrid.Node.Step

/-!
# Ticks

A tick has two phases.

* Feeding: each input, in order of registration, offers its oldest value to the node it points at,
  and keeps it if the node does not accept it.
* Visiting: column by column, and in a column from the top, each node makes a step and then sends
  what waits on its linked sides. A value goes to the neighbour, or is lost if the neighbour does
  not accept it, and in any case to the output at that position, if there is one.

Because a node sends in its own visit, a node visited later in the same tick sees the value already,
and a node visited before sees it in the next tick.
-/

namespace NodeGrid.Board

/-! ## Feeding -/

/-- The input at `p` offers its oldest value. -/
def offer (b : Board) (p : Position) : Board :=
  match b.inputs.find? p with
  | some { direction, values := value :: rest, .. } =>
    match b.node? (p.step direction) with
    | some n =>
      if n.accepts direction.opposite then
        let b := b.set (p.step direction) (n.receive direction.opposite value)
        { b with inputs := b.inputs.modify p fun link => { link with values := rest } }
      else b
    | none => b
  | _ => b

def feed (b : Board) : Board := b.inputs.positions.foldl offer b

/-! ## Visiting -/

/-- Sends a value that leaves the node at `p` in direction `d`. -/
def deliver (p : Position) (b : Board) : Direction × Int32 → Board
  | (d, value) =>
    let target := p.step d
    let b := b.modify target (·.receive d.opposite value)
    { b with
      outputs := b.outputs.modify target fun link =>
        { link with values := link.values.push value } }

/-- The step of the node at `p`, and the delivery of what it sends. -/
def visit (b : Board) (p : Position) : Board :=
  match b.node? p with
  | none => b
  | some n =>
    let after := n.step.1
    after.sent.foldl (deliver p) (b.set p after.drained)

/-- The visits to the given positions, in order. -/
def visitAll (b : Board) (ps : List Position) : Board := ps.foldl visit b

/-! ## Ticks -/

def countTick (b : Board) : Board := { b with ticks := b.ticks + 1 }

def step (b : Board) : Board :=
  let b := b.feed
  (b.visitAll b.positions).countTick

/-- The board after a number of ticks. -/
def steps : Nat → Board → Board
  | 0, b => b
  | n + 1, b => steps n b.step

/-! ## Waiting for an output -/

/-- Steps until the output at `p` holds `count` values, for at most `fuel` ticks. The board at the
end is an error if the output does not hold them. -/
def awaitOutput (p : Position) (count : Nat) : Nat → Board → Except Board Board
  | fuel, b =>
    if count ≤ (b.collected p).length then .ok b
    else
      match fuel with
      | 0 => .error b
      | fuel + 1 => awaitOutput p count fuel b.step

/-- Steps until the output at `p` holds `count` values, as long as the board has made fewer than
`maxTicks` ticks. -/
def runUntil (b : Board) (p : Position) (count maxTicks : Nat) : Except Board Board :=
  awaitOutput p count (maxTicks - b.ticks) b

end NodeGrid.Board
