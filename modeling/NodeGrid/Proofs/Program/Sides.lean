import NodeGrid.Command

/-!
# The sides of a command

Of its two operands a command reads at most the first and writes at most the second, so it takes
from at most one mailbox (`source?`) and fills at most one (`destination?`).
-/

namespace NodeGrid

/-- The side that an operand names. -/
def Operand.side? : Operand → Option Direction
  | side d => some d
  | _ => none

@[simp] theorem Operand.side?_eq_some_iff {o : Operand} {d : Direction} :
    o.side? = some d ↔ o = .side d := by
  cases o <;> simp [side?]

/-- Whether an instruction reads its first operand as a value. -/
def Opcode.readsValue : Opcode → Bool
  | mov | add | sub | jro => true
  | _ => false

namespace Command

/-- The side whose mailbox a command empties. -/
def source? (c : Command) : Option Direction :=
  if c.opcode.readsValue then c.primary.side? else none

/-- The side whose mailbox a command fills. -/
def destination? (c : Command) : Option Direction :=
  if c.opcode = .mov then c.secondary.side? else none

theorem source?_eq_some_iff {c : Command} {d : Direction} :
    c.source? = some d ↔ c.opcode.readsValue ∧ c.primary = .side d := by
  simp [source?]

theorem destination?_eq_some_iff {c : Command} {d : Direction} :
    c.destination? = some d ↔ c.opcode = .mov ∧ c.secondary = .side d := by
  simp [destination?]

/-- A label jump uses no mailbox. -/
theorem sides_of_isLabelJump {c : Command} (hjump : c.opcode.isLabelJump) :
    c.source? = none ∧ c.destination? = none := by
  unfold source? destination?
  cases hop : c.opcode <;> simp_all [Opcode.isLabelJump, Opcode.readsValue]

end Command

end NodeGrid
