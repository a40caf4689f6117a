/-!
# Opcodes

The fourteen instructions of a node.

* `ofName?_eq_some_iff`: an instruction has exactly one spelling.
* `arity_le_two`: no instruction takes more than two operands.
-/

namespace NodeGrid

/-- What a command does. `lbl` marks a place, and does nothing when it runs. -/
inductive Opcode where
  | lbl
  | nop
  | mov
  | swp
  | sav
  | add
  | sub
  | neg
  | jmp
  | jez
  | jnz
  | jgz
  | jlz
  | jro
  deriving DecidableEq

namespace Opcode

def all : List Opcode :=
  [lbl, nop, mov, swp, sav, add, sub, neg, jmp, jez, jnz, jgz, jlz, jro]

/-- The number of operands that an instruction takes. -/
def arity : Opcode → Nat
  | lbl | nop | swp | sav | neg => 0
  | mov => 2
  | add | sub | jmp | jez | jnz | jgz | jlz | jro => 1

theorem arity_le_two (op : Opcode) : op.arity ≤ 2 := by
  cases op <;> decide

/-- The jumps to a label, whose operand is a name and not a value. -/
def isLabelJump : Opcode → Bool
  | jmp | jez | jnz | jgz | jlz => true
  | _ => false

/-- Whether a label jump is taken when the accumulator holds `acc`. -/
def isTaken (op : Opcode) (acc : Int32) : Bool :=
  match op with
  | jmp => true
  | jez => acc = 0
  | jnz => acc ≠ 0
  | jgz => 0 < acc
  | jlz => acc < 0
  | _ => false

/-! ## Spelling -/

/-- The mnemonic in assembly text. -/
def name : Opcode → String
  | lbl => "LBL"
  | nop => "NOP"
  | mov => "MOV"
  | swp => "SWP"
  | sav => "SAV"
  | add => "ADD"
  | sub => "SUB"
  | neg => "NEG"
  | jmp => "JMP"
  | jez => "JEZ"
  | jnz => "JNZ"
  | jgz => "JGZ"
  | jlz => "JLZ"
  | jro => "JRO"

/-- The instruction that a text spells. -/
def ofName? (text : String) : Option Opcode :=
  all.find? (·.name = text)

@[simp] theorem ofName?_name (op : Opcode) : ofName? op.name = some op := by
  cases op <;> rfl

theorem ofName?_eq_some_iff {text : String} {op : Opcode} :
    ofName? text = some op ↔ op.name = text := by
  constructor
  · intro h
    simpa using List.find?_some h
  · rintro rfl
    exact ofName?_name op

end Opcode

end NodeGrid
