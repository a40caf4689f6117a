import NodeGrid.Direction

/-!
# Positions

A place in the plane of the grid. Row 0 is at the top; places outside the grid, also with negative
coordinates, are positions too.

* `step_step_opposite`: a step and the step back.
-/

namespace NodeGrid

@[ext]
structure Position where
  col : Int
  row : Int
  deriving DecidableEq

namespace Position

/-- The neighbouring position in a direction. -/
def step (p : Position) : Direction → Position
  | .up => { p with row := p.row - 1 }
  | .right => { p with col := p.col + 1 }
  | .down => { p with row := p.row + 1 }
  | .left => { p with col := p.col - 1 }

@[simp] theorem step_step_opposite (p : Position) (d : Direction) :
    (p.step d).step d.opposite = p := by
  cases p
  cases d <;> simp [step, Direction.opposite]

theorem step_ne (p : Position) (d : Direction) : p.step d ≠ p := by
  intro h
  have hcol := congrArg col h
  have hrow := congrArg row h
  cases d <;> simp only [step] at hcol hrow <;> omega

def render (p : Position) : String := "(" ++ toString p.col ++ "," ++ toString p.row ++ ")"

end Position

end NodeGrid
