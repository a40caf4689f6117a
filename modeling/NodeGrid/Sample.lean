import NodeGrid.Board.Tick
import NodeGrid.Text.ValueList

/-!
# Samples

Small boards of one row with known results: every node runs the same program, the inputs hold fixed
values, and the sample ends when one output has collected enough. A report shows the program, the
values that went in, the accumulators and the values that came out.
-/

namespace NodeGrid

/-- A link at the edge of a sample. -/
structure SampleLink where
  position : Position
  direction : Direction

/-- A named input, with the values that it starts with. -/
structure SampleInput extends SampleLink where
  name : String
  values : List Int32

structure Sample where
  name : String
  source : String
  width : Nat
  inputs : List SampleInput
  /-- The outputs in the order in which they are registered. -/
  outputs : List SampleLink
  /-- The outputs with their names, in the order in which a report shows them. -/
  shown : List (String × Position)
  /-- The output that the sample waits for, and the number of values that it waits for. -/
  awaited : Position
  count : Nat

/-- What a sample shows. -/
structure SampleReport where
  name : String
  source : String
  inputs : List (String × List Int32)
  outputs : List (String × List Int32)
  accs : List Int32
  deriving DecidableEq

inductive SampleError where
  | board (error : BoardError)
  | faulty (name : String) (count : Nat) (first : Fault)
  | tickBudget (name : String) (ticks : Nat)

def SampleError.message : SampleError → String
  | board e => e.message
  | faulty name count first =>
    name ++ ": " ++ toString count ++ " validation errors, first: " ++ first.render
  | tickBudget name ticks => name ++ ": gave up after " ++ toString ticks ++ " ticks"

/-! ## Reports -/

namespace SampleReport

def render (r : SampleReport) : String :=
  "# " ++ r.name ++ "\n\n" ++ r.source ++ "\n\n" ++
    String.join (r.inputs.map (line "Input ")) ++
    String.join (r.accs.zipIdx.map fun (acc, i) =>
      "Core " ++ toString i ++ " ACC: " ++ ValueList.printValue acc ++ "\n") ++
    String.join (r.outputs.map (line "Output "))
where
  /-- One queue with its name. -/
  line (role : String) (queue : String × List Int32) : String :=
    role ++ queue.1 ++ ": " ++ ValueList.print queue.2 ++ "\n"

end SampleReport

/-! ## Runs -/

namespace Sample

/-- The board of a sample before its programs are loaded. -/
def board (s : Sample) : Board :=
  let b := (Board.empty s.width 1).fill
  let b := s.inputs.foldl (fun b input => b.addInput input.position input.direction input.values) b
  s.outputs.foldl (fun b link => b.addOutput link.position link.direction) b

/-- Loads the program on one node, and refuses a faulty one. -/
def loadAt (s : Sample) (b : Board) (p : Position) : Except SampleError Board :=
  match b.load p s.source with
  | .error e => .error (.board e)
  | .ok (b, []) => .ok b
  | .ok (_, first :: rest) => .error (.faulty s.name (rest.length + 1) first)

/-- The board of a sample with the program on every node. -/
def loaded (s : Sample) : Except SampleError Board :=
  s.board.positions.foldlM s.loadAt s.board

def report (s : Sample) (b : Board) : SampleReport where
  name := s.name
  source := s.source
  inputs := s.inputs.map fun input => (input.name, input.values)
  outputs := s.shown.map fun (name, p) => (name, b.collected p)
  accs := b.nodes.map (·.acc)

def run (s : Sample) (maxTicks : Nat) : Except SampleError SampleReport := do
  let b ← s.loaded
  match b.runUntil s.awaited s.count maxTicks with
  | .ok b => return s.report b
  | .error b => throw (.tickBudget s.name b.ticks)

/-- The reports of several samples; the first that fails ends the run. -/
def runAll (samples : List Sample) (maxTicks : Nat) : Except SampleError (List SampleReport) :=
  samples.mapM (·.run maxTicks)

/-! ## The samples -/

/-- One node that keeps 8, passes on what comes from the left and swallows what comes from above. -/
def simple : Sample where
  name := "Simple"
  source := "MOV 8, ACC\nMOV LEFT, RIGHT\nMOV UP, NIL"
  width := 1
  inputs := [{ name := "Left", position := ⟨-1, 0⟩, direction := .right, values := [1, 2, 3] },
    { name := "Up", position := ⟨0, -1⟩, direction := .down, values := [5, 6, 7] }]
  outputs := [⟨⟨1, 0⟩, .left⟩]
  shown := [("Right", ⟨1, 0⟩)]
  awaited := ⟨1, 0⟩
  count := 3

/-- Two nodes in a row, each of which doubles what passes through it. -/
def doubler : Sample where
  name := "Doubler"
  source := "MOV LEFT ACC\nADD ACC\nMOV ACC RIGHT"
  width := 2
  inputs := [{ name := "Left", position := ⟨-1, 0⟩, direction := .right, values := [1, 2, 3] }]
  outputs := [⟨⟨2, 0⟩, .left⟩]
  shown := [("Right", ⟨2, 0⟩)]
  awaited := ⟨2, 0⟩
  count := 3

/-- One node that sends positive values to the right and negative values to the left. The output on
the right is registered first and shown last. -/
def sorter : Sample where
  name := "Sorter"
  source := "START:\nMOV UP ACC\n JGZ POSITIVE\n JLZ NEGATIVE\nJMP START\n" ++
    "POSITIVE:\n MOV ACC RIGHT\n JMP START\n" ++
    "NEGATIVE:\n MOV ACC LEFT\n JMP START"
  width := 1
  inputs :=
    [{ name := "Up", position := ⟨0, -1⟩, direction := .down, values := [5, -6, 0, -2, 3] }]
  outputs := [⟨⟨1, 0⟩, .left⟩, ⟨⟨-1, 0⟩, .right⟩]
  shown := [("Left", ⟨-1, 0⟩), ("Right", ⟨1, 0⟩)]
  awaited := ⟨1, 0⟩
  count := 2

def all : List Sample := [simple, doubler, sorter]

end Sample

end NodeGrid
