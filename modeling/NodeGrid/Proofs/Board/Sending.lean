import NodeGrid.Proofs.Board.Visibility
import NodeGrid.Proofs.Node.Operations

/-!
# What a node sends in a tick

Whatever is done to a board and to its nodes, on each node at most one value waits to be taken. So a
visit, in which a node steps and its linked sides are emptied, sends one value at most.

* `AllNodes.handleAll_pendsOnce`: what fresh nodes have and what all operations on a board and on
  its nodes keep.
* `pendsOnce_and_sent_le`: values that wait are not written over, and each visit sends at most one.
-/

namespace NodeGrid

open Node (PendsOnce)

namespace Board

/-- What is done to a board, or to one of its nodes alone. -/
inductive Handling where
  | board (op : Operation)
  | node (p : Position) (op : Node.Operation)

def handle (b : Board) : Handling → Board
  | .board op => b.perform op
  | .node p op => b.modify p (·.perform op)

/-- The board after all that is done to it, the first one first. -/
def handleAll (b : Board) (hs : List Handling) : Board := hs.foldl handle b

variable {b : Board}

theorem isStable_pendsOnce : Node.IsStable PendsOnce where
  fresh _ := Node.pendsOnce_of_not_isPending rfl
  link _ _ h := h
  receive _ d value h := h.receive d value
  step _ h := h.step.drained

theorem AllNodes.atTurn {P : Node → Prop} (hP : Node.IsStable P) (h : b.AllNodes P) (p : Position) :
    (b.atTurn p).AllNodes P :=
  (h.feed hP).visitAll hP _

theorem AllNodes.handle_pendsOnce (h : b.AllNodes PendsOnce) (handling : Handling) :
    (b.handle handling).AllNodes PendsOnce := by
  cases handling with
  | board op => exact h.perform isStable_pendsOnce fun p _ _ n _ _ hn => h p n hn
  | node p op => exact h.modify (fun n hn => hn.perform op) p

theorem AllNodes.handleAll_pendsOnce (h : b.AllNodes PendsOnce) (hs : List Handling) :
    (b.handleAll hs).AllNodes PendsOnce := by
  induction hs generalizing b with
  | nil => exact h
  | cons handling hs ih => exact ih (h.handle_pendsOnce handling)

/-- Whatever is done to a node that was fresh at first, on at most one side a value waits, and a
step leaves it where it is. Whatever is done to a board that was empty at first and to its nodes, in
the next tick a node sends at most one value when its turn comes. -/
theorem pendsOnce_and_sent_le :
    (∀ ops : List Node.Operation,
      (Node.performAll {} ops).PendsOnce ∧
        ∀ d value, (Node.performAll {} ops).outbox.get d = some value →
          (Node.performAll {} ops).step.1.outbox.get d = some value) ∧
      ∀ (width height : Nat) (hs : List Handling) (p : Position) (n : Node),
        (((empty width height).handleAll hs).atTurn p).node? p = some n →
          n.step.1.sent.length ≤ 1 := by
  constructor
  · intro ops
    exact ⟨(isStable_pendsOnce.fresh .empty).performAll ops,
      fun d value hvalue => Node.outbox_step_of_some hvalue⟩
  · intro width height hs p n hn
    have hall := (allNodes_empty PendsOnce width height).handleAll_pendsOnce hs
    have hturn := hall.atTurn isStable_pendsOnce p
    exact (hturn p n hn).step.length_sent_le

/-- A program that writes to the side above. -/
def sendsUp : Program :=
  [{ line := 0, opcode := .mov, primary := .number 1, secondary := .side .up }]

/-- And one that writes below as well. -/
def sendsUpAndDown : Program :=
  sendsUp ++ [{ line := 1, opcode := .mov, primary := .number 2, secondary := .side .down }]

/-- What is done to a node with a value that waits above when its program is changed. -/
def changing : List Node.Operation :=
  [.install sendsUp, .act .step, .install sendsUpAndDown, .act .step]

/-- What is done to a board with one node until it has sent the first of both values. -/
def sendingUp : List Handling :=
  [.board .fill, .node ⟨0, 0⟩ (.relink [.up, .down]), .node ⟨0, 0⟩ (.install sendsUpAndDown),
    .board .step]

/-- Where the first value is not taken no step writes the second one. On a board where it is, the
second value is sent in the second tick, and nothing else. -/
theorem pendsOnce_and_sent_le_sendsUpAndDown :
    (Node.performAll {} changing).PendsOnce ∧
      (Node.performAll {} changing).outbox.get .up = some 1 ∧
      (Node.performAll {} changing).step.1.outbox.get .up = some 1 ∧
      ∃ n, (((empty 1 1).handleAll sendingUp).atTurn ⟨0, 0⟩).node? ⟨0, 0⟩ = some n ∧
        n.step.1.sent = [(.down, 2)] ∧ n.step.1.sent.length ≤ 1 := by
  obtain ⟨hnodes, hboards⟩ := pendsOnce_and_sent_le
  obtain ⟨honce, hkept⟩ := hnodes changing
  have hsent : ((((empty 1 1).handleAll sendingUp).atTurn ⟨0, 0⟩).node? ⟨0, 0⟩).map
      (·.step.1.sent) = some [(.down, 2)] := by rfl
  obtain ⟨n, hn, hvalues⟩ := Option.map_eq_some_iff.mp hsent
  exact ⟨honce, rfl, hkept .up 1 rfl, n, hn, hvalues, hboards 1 1 sendingUp ⟨0, 0⟩ n hn⟩

end Board

end NodeGrid
