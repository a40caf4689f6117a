/-!
# Directions

A node has four sides. `Direction.all` lists them in the order in which they come everywhere, the
order of sides.

* `opposite_opposite`: the side seen from the neighbour, seen from the neighbour again.
* `ofName?_eq_some_iff`: a direction has exactly one spelling.
-/

namespace NodeGrid

/-- A side of a node. -/
inductive Direction where
  | up
  | right
  | down
  | left
  deriving DecidableEq

namespace Direction

/-- All directions, in the order of sides. -/
def all : List Direction := [up, right, down, left]

theorem mem_all (d : Direction) : d ∈ all := by
  cases d <;> simp [all]

/-- The place of a direction in the order of sides. -/
def index : Direction → Nat
  | up => 0
  | right => 1
  | down => 2
  | left => 3

/-- The same edge as the node on its other side names it. -/
def opposite : Direction → Direction
  | up => down
  | right => left
  | down => up
  | left => right

@[simp] theorem opposite_opposite (d : Direction) : d.opposite.opposite = d := by
  cases d <;> rfl

theorem opposite_ne (d : Direction) : d.opposite ≠ d := by
  cases d <;> decide

/-! ## Spelling -/

/-- The spelling in assembly text. -/
def name : Direction → String
  | up => "UP"
  | right => "RIGHT"
  | down => "DOWN"
  | left => "LEFT"

/-- The direction that a text spells. -/
def ofName? (text : String) : Option Direction :=
  all.find? (·.name = text)

@[simp] theorem ofName?_name (d : Direction) : ofName? d.name = some d := by
  cases d <;> rfl

theorem ofName?_eq_some_iff {text : String} {d : Direction} :
    ofName? text = some d ↔ d.name = text := by
  constructor
  · intro h
    simpa using List.find?_some h
  · rintro rfl
    exact ofName?_name d

end Direction

end NodeGrid
