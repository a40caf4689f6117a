import NodeGrid.Opcode
import NodeGrid.Operand

/-!
# Commands

A command is an instruction with two operand slots and the line it stands on. Jumps go by lines, so
the line belongs to the command.

A distance between lines is a signed 64-bit word: it is exact as long as the lines are no larger
than such a word (`distance_eq`) and wraps beyond.
-/

namespace NodeGrid

structure Command where
  line : Nat
  opcode : Opcode
  primary : Operand := .empty
  secondary : Operand := .empty
  deriving DecidableEq

namespace Command

/-- The operand in a slot. -/
def operand (c : Command) : Slot → Operand
  | .primary => c.primary
  | .secondary => c.secondary

/-- The name that the command defines, if it is a label. -/
def label? (c : Command) : Option String :=
  match c.opcode, c.primary with
  | .lbl, .label name => some name
  | _, _ => none

theorem opcode_of_label? {c : Command} {name : String} (h : c.label? = some name) :
    c.opcode = .lbl := by
  unfold label? at h
  split at h
  · assumption
  · cases h

/-- The written form: a label with its colon, any other command with its operands. -/
def render (c : Command) : String :=
  match c.label? with
  | some name => name ++ ":"
  | none => c.opcode.name ++ written c.primary ++ written c.secondary
where
  /-- An operand after a space, or nothing. -/
  written (o : Operand) : String := if o.isEmpty then "" else " " ++ o.render

end Command

/-! ## Distances between lines -/

namespace Line

/-- A number as a signed 64-bit word. -/
def word (n : Int) : Int := (Int64.ofInt n).toInt

theorem word_eq {n : Int} (low : Int64.minValue.toInt ≤ n) (high : n ≤ Int64.maxValue.toInt) :
    word n = n := by
  rw [Int64.toInt_minValue] at low
  rw [Int64.toInt_maxValue] at high
  exact Int64.toInt_ofInt_of_le low (by omega)

/-- The way from one line to another. -/
def distance (start finish : Nat) : Int := word ((finish : Int) - start)

theorem distance_eq {start finish : Nat} (hs : (start : Int) ≤ Int64.maxValue.toInt)
    (hf : (finish : Int) ≤ Int64.maxValue.toInt) :
    distance start finish = (finish : Int) - start := by
  apply word_eq
  · rw [Int64.toInt_minValue]
    rw [Int64.toInt_maxValue] at hs
    omega
  · omega

end Line

end NodeGrid
