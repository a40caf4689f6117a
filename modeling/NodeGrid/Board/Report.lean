import NodeGrid.Board.Tick
import NodeGrid.Node.Report

/-!
# Reports of a board

The events of each operation on a board, read off the board before it. `Trail` carries them along
where an operation is a sequence of smaller ones.

* `board_stepTrail`: a tick with its events is the same tick.
-/

namespace NodeGrid

/-- A board and the events that led to it. -/
structure Trail where
  board : Board
  events : Array Event := #[]

namespace Trail

/-- One more action with its events. -/
def extend : Trail → (Board → List Event) → (Board → Board) → Trail
  | ⟨board, log⟩, events, action =>
    let log := log ++ events board
    ⟨action board, log⟩

theorem board_extend (trail : Trail) (events : Board → List Event) (action : Board → Board) :
    (trail.extend events action).board = action trail.board := rfl

theorem board_foldl {α : Type} (extendBy : Trail → α → Trail) (action : Board → α → Board)
    (h : ∀ trail a, (extendBy trail a).board = action trail.board a) (trail : Trail)
    (as : List α) : (as.foldl extendBy trail).board = as.foldl action trail.board := by
  induction as generalizing trail with
  | nil => rfl
  | cons a rest ih => rw [List.foldl_cons, List.foldl_cons, ih, h]

end Trail

namespace Board

/-! ## Setting up -/

def loadEvents (b : Board) (p : Position) (text : String) : List Event :=
  match b.load p text with
  | .ok (after, faults) =>
    let count := (after.node? p).elim 0 (·.program.length)
    [⟨.debug, "Loaded " ++ toString count ++ " commands into " ++ p.render ++ ", " ++
      toString faults.length ++ " validation errors"⟩]
  | .error (.noNode p) => [⟨.warn, "load into empty cell " ++ p.render⟩]
  | .error _ => []

def addInputEvents (b : Board) (p : Position) (d : Direction) (values : List Int32) : List Event :=
  [⟨.debug, "Input " ++ toString (b.inputs.idAt p) ++ " at " ++ p.render ++ " " ++ d.name ++
    " with " ++ toString values.length ++ " values"⟩]

def addOutputEvents (b : Board) (p : Position) (d : Direction) : List Event :=
  [⟨.debug, "Output " ++ toString (b.outputs.idAt p) ++ " at " ++ p.render ++ " " ++ d.name⟩]

/-! ## Ticks -/

/-- An input that has a value and cannot deliver it is stalled. -/
def offerEvents (p : Position) (b : Board) : List Event :=
  match b.inputs.find? p with
  | some { id, direction, values := _ :: _ } =>
    let target := p.step direction
    if (b.node? target).any (·.accepts direction.opposite) then []
    else [⟨.debug, "Input " ++ toString id ++ " stalled on " ++ target.render⟩]
  | _ => []

def deliverEvents (p : Position) (sent : Direction × Int32) (b : Board) : List Event :=
  let target := p.step sent.1
  let value := toString sent.2.toInt
  let dropped : List Event :=
    if (b.node? target).any (!·.accepts sent.1.opposite) then
      [⟨.trace, value ++ " dropped at " ++ target.render ++ ", mailbox full"⟩]
    else []
  let collected : List Event :=
    match b.outputs.find? target with
    | some link =>
      [⟨.trace, value ++ " -> output " ++ toString link.id ++ " at " ++ target.render⟩]
    | none => []
  dropped ++ collected

def visitTrail (trail : Trail) (p : Position) : Trail :=
  match trail.board.node? p with
  | none => trail
  | some n =>
    let after := n.step.1
    let trail := trail.extend (fun _ => n.stepEvents) (·.set p after.drained)
    after.sent.foldl
      (fun trail sent => trail.extend (deliverEvents p sent) (deliver p · sent)) trail

def feedTrail (trail : Trail) : Trail :=
  trail.board.inputs.positions.foldl (fun trail p => trail.extend (offerEvents p) (offer · p)) trail

/-- A tick with its events. -/
def stepTrail (trail : Trail) : Trail :=
  let trail := feedTrail trail
  (trail.board.positions.foldl visitTrail trail).extend (fun _ => []) countTick

/-! ## Events change nothing -/

theorem board_feedTrail (trail : Trail) : (feedTrail trail).board = trail.board.feed :=
  Trail.board_foldl _ _ (fun _ _ => rfl) _ _

theorem board_visitTrail (trail : Trail) (p : Position) :
    (visitTrail trail p).board = trail.board.visit p := by
  unfold visitTrail visit
  cases trail.board.node? p with
  | none => rfl
  | some n => exact Trail.board_foldl _ _ (fun _ _ => rfl) _ _

theorem board_stepTrail (trail : Trail) : (stepTrail trail).board = trail.board.step := by
  have hv := Trail.board_foldl visitTrail visit board_visitTrail
  simp only [stepTrail, step, visitAll, Trail.board_extend, hv, board_feedTrail]

end Board

end NodeGrid
