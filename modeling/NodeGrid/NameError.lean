import NodeGrid.Opcode
import NodeGrid.Direction
import NodeGrid.Text.Quoted

/-!
# Unknown names

The report of a text that spells no direction or no instruction.
-/

namespace NodeGrid

inductive NameError where
  | direction (text : String)
  | instruction (text : String)
  deriving DecidableEq

def NameError.message : NameError → String
  | direction text => "Unknown direction: " ++ Quoted.encode text
  | instruction text => "Unknown instruction: " ++ Quoted.encode text

def Direction.ofName (text : String) : Except NameError Direction :=
  match ofName? text with
  | some direction => .ok direction
  | none => .error (.direction text)

def Opcode.ofName (text : String) : Except NameError Opcode :=
  match ofName? text with
  | some opcode => .ok opcode
  | none => .error (.instruction text)

end NodeGrid
