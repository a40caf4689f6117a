import NodeGrid.Direction
import NodeGrid.Text.Numeral

/-!
# Operands

The operand slots of a command, and what stands in them.
-/

namespace NodeGrid

/-- The place of an operand in its command. -/
inductive Slot where
  | primary
  | secondary
  deriving DecidableEq

def Slot.index : Slot → Nat
  | primary => 0
  | secondary => 1

/-- What stands in an operand slot. A `label` is the name that a label defines, a `text` any other
word; which of the two a word is depends on how it was written. -/
inductive Operand where
  | empty
  | label (name : String)
  | text (word : String)
  | number (value : Int32)
  | acc
  | side (direction : Direction)
  deriving DecidableEq

namespace Operand

/-- The spelling of the accumulator. -/
def accName : String := "ACC"

/-- The word that reads as zero and swallows what is written to it. -/
def nilName : String := "NIL"

def isEmpty (o : Operand) : Bool := o = .empty

/-- Whether the operand denotes a number, a register or a side. -/
def isNumericSource : Operand → Bool
  | number _ | acc | side _ => true
  | _ => false

def isNil (o : Operand) : Bool := o = .text nilName

/-- The word of a label or of a plain word. -/
def word? : Operand → Option String
  | label name => some name
  | text word => some word
  | _ => none

/-- The written form; an empty slot is written as nothing. -/
def render : Operand → String
  | empty => ""
  | label name => name
  | text word => word
  | number value => String.ofList (Numeral.print value.toInt)
  | acc => accName
  | side direction => direction.name

end Operand

end NodeGrid
