import NodeGrid.Proofs.Node.Finishing

/-!
# Arithmetic without bounds

A node that only calculates: its program moves values between the registers, adds, subtracts and
negates, and uses no side and no jump. Its registers have 32 bits and wrap at every command. The
same program can be evaluated over the integers, where nothing wraps, and then the wrapping may as
well be left to the end.

* `Totals.applyAll`: the program over the integers.
* `execute_holding`: a command does the same with the registers as with the integers.
* `finish?_of_arithmetic`: so does the whole program, which runs to its end.
-/

namespace NodeGrid

/-! ## Programs over the integers -/

/-- The two registers without a bound on what they hold. -/
structure Totals where
  acc : Int
  bak : Int
  deriving DecidableEq

namespace Totals

/-- The value of a number, and of the accumulator else. -/
def value (t : Totals) : Operand → Int
  | .number value => value.toInt
  | _ => t.acc

/-- What a command does to the registers. -/
def apply (t : Totals) (c : Command) : Totals :=
  match c.opcode with
  | .mov => { t with acc := t.value c.primary }
  | .swp => { acc := t.bak, bak := t.acc }
  | .sav => { t with bak := t.acc }
  | .add => { t with acc := t.acc + t.value c.primary }
  | .sub => { t with acc := t.acc - t.value c.primary }
  | .neg => { t with acc := -t.acc }
  | _ => t

/-- What commands do to the registers, one after the other. -/
def applyAll (t : Totals) (program : Program) : Totals := program.foldl apply t

end Totals

/-- A number or the accumulator. -/
def Operand.isTerm : Operand → Bool
  | number _ | acc => true
  | _ => false

/-- Whether a command only calculates: its value, if it takes one, is a number or the accumulator,
and what it moves goes to the accumulator. -/
def Command.isArithmetic (c : Command) : Bool :=
  match c.opcode with
  | .nop | .swp | .sav | .neg => true
  | .add | .sub => c.primary.isTerm
  | .mov => c.primary.isTerm && c.secondary = .acc
  | _ => false

namespace Node

variable {n : Node} {c : Command} {t : Totals}

/-- The node with integers in its registers, reduced to 32 bits. -/
def holding (n : Node) (t : Totals) : Node :=
  { n with acc := Int32.ofInt t.acc, bak := Int32.ofInt t.bak }

theorem eq_holding (n : Node) : n = n.holding { acc := n.acc.toInt, bak := n.bak.toInt } := by
  simp only [holding, Int32.ofInt_toInt]

/-! ## Commands -/

/-- What uses the value of a term uses the integer reduced to 32 bits, and moves on. -/
theorem reading_holding {o : Operand} (ho : o.isTerm) (use : Node → Int32 → Node) :
    (n.holding t).reading o use = (use (n.holding t) (Int32.ofInt (t.value o)), 1) := by
  cases o with
  | number value =>
    rw [Totals.value, Int32.ofInt_toInt]
    rfl
  | acc => rfl
  | _ => cases ho

/-- A command that only calculates does with the registers what it does with the integers that they
hold, and moves on by one. -/
theorem execute_holding (hc : c.isArithmetic) :
    (n.holding t).execute c = (n.holding (t.apply c), 1) := by
  unfold Command.isArithmetic at hc
  cases hop : c.opcode <;> simp only [hop, Bool.and_eq_true, decide_eq_true_eq] at hc
  case lbl | jmp | jez | jnz | jgz | jlz | jro => cases hc
  case nop | swp | sav => simp only [execute, Totals.apply, hop, holding]
  case neg => simp only [execute, Totals.apply, hop, holding, Int32.ofInt_neg]
  case add =>
    rw [execute_add hop, reading_holding hc]
    simp only [Totals.apply, hop, holding, Int32.ofInt_add]
  case sub =>
    rw [execute_sub hop, reading_holding hc]
    simp only [Totals.apply, hop, holding, Int32.ofInt_sub]
  case mov =>
    rw [execute_mov hop, reading_holding hc.1]
    simp only [Totals.apply, hop, holding, hc.2, write]

/-- A step at a command that only calculates. -/
theorem step_holding (hpending : n.isPending = false) (hcurrent : n.current? = some c)
    (hc : c.isArithmetic) :
    (n.holding t).step.1 = { n with pc := n.pc + 1 }.holding (t.apply c) := by
  have hpending : (n.holding t).isPending = false := hpending
  have hwrap : (n.holding t).wrap = n.holding t := wrap_of_lt (lt_length_of_current? hcurrent)
  have hcurrent : (n.holding t).wrap.current? = some c := hwrap.symm ▸ hcurrent
  rw [step_of_current?_some hpending hcurrent, hwrap]
  unfold run
  rw [execute_holding hc]
  rfl

/-! ## Programs -/

/-- The node at a place of its program, with what the commands before it make of the integers. -/
def reached (n : Node) (t : Totals) (place : Nat) : Node :=
  { n with pc := place }.holding (t.applyAll (n.program.take place))

theorem step_reached (hpending : n.isPending = false) (hprogram : ∀ c ∈ n.program, c.isArithmetic)
    {place : Nat} (hplace : place < n.program.length) :
    (n.reached t place).step.1 = n.reached t (place + 1) := by
  have hcurrent : n.program[place]? = some n.program[place] := List.getElem?_eq_getElem hplace
  have hnext : t.applyAll (n.program.take (place + 1)) =
      (t.applyAll (n.program.take place)).apply n.program[place] := by
    rw [List.take_add_one, hcurrent]
    exact List.foldl_append
  rw [reached, reached, hnext]
  exact step_holding hpending hcurrent (hprogram _ (List.getElem_mem hplace))

/-- A program that only calculates runs to its end: as many steps are enough as it has commands. Its
registers then hold what the program makes of the same numbers over the integers, each reduced
modulo `2 ^ 32` into the range of signed numbers of 32 bits. -/
theorem finish?_of_arithmetic (hprogram : ∀ c ∈ n.program, c.isArithmetic) (hpc : n.pc = 0)
    (hpending : n.isPending = false) :
    ∃ m : Node, (∀ fuel, n.program.length ≤ fuel → finish? fuel n = some m) ∧
      m.acc.toInt = (Totals.applyAll ⟨n.acc.toInt, n.bak.toInt⟩ n.program).acc.bmod (2 ^ 32) ∧
      m.bak.toInt = (Totals.applyAll ⟨n.acc.toInt, n.bak.toInt⟩ n.program).bak.bmod (2 ^ 32) := by
  let start : Totals := ⟨n.acc.toInt, n.bak.toInt⟩
  have hstart : n = n.reached start n.pc := by
    rw [hpc, reached, List.take_zero, ← hpc]
    exact eq_holding n
  -- The counter says how many commands have run, so it decides what the registers hold.
  have hsteps (m : Node) (hm : m = n.reached start m.pc) (hlt : m.pc < m.program.length) :
      m.step.1 = n.reached start m.step.1.pc ∧ m.pc < m.step.1.pc ∧
        m.step.1.pc ≤ m.program.length := by
    have hlength : m.program = n.program := by rw [hm]; rfl
    have hstep : m.step.1 = n.reached start (m.pc + 1) := by
      rw [hm]
      exact step_reached hpending hprogram (hlength ▸ hlt)
    rw [hstep]
    exact ⟨rfl, Nat.lt_succ_self _, hlt⟩
  obtain ⟨m, hm, -, hend, hfinish⟩ := exists_finish?_of_advances hsteps hstart (by omega)
  have hregisters : m = n.reached start n.program.length := hend ▸ hm
  rw [reached, List.take_length] at hregisters
  refine ⟨m, fun fuel hfuel => hfinish fuel (by omega), ?_, ?_⟩
  · rw [hregisters]
    exact Int32.toInt_ofInt
  · rw [hregisters]
    exact Int32.toInt_ofInt

/-- Registers that wrap on the way and at the end. -/
def overflowing : Node where
  acc := -2147483648
  bak := 7
  program :=
    [{ line := 0, opcode := .neg }, { line := 1, opcode := .sav },
      { line := 2, opcode := .add, primary := .acc },
      { line := 3, opcode := .sub, primary := .number 3 }, { line := 4, opcode := .swp },
      { line := 5, opcode := .mov, primary := .acc, secondary := .acc }]

theorem finish?_of_arithmetic_overflowing :
    (∀ c ∈ overflowing.program, c.isArithmetic) ∧ overflowing.isPending = false ∧
      Totals.applyAll ⟨-2147483648, 7⟩ overflowing.program = ⟨2147483648, 4294967293⟩ ∧
      ∃ m, finish? 6 overflowing = some m ∧ m.acc.toInt = -2147483648 ∧ m.bak.toInt = -3 := by
  have hprogram : ∀ c ∈ overflowing.program, c.isArithmetic := by decide
  have hpending : overflowing.isPending = false := by decide
  have htotals : Totals.applyAll ⟨-2147483648, 7⟩ overflowing.program = ⟨2147483648, 4294967293⟩ :=
    by decide
  obtain ⟨m, hfinish, hacc, hbak⟩ := finish?_of_arithmetic hprogram rfl hpending
  have hstart : Totals.applyAll ⟨overflowing.acc.toInt, overflowing.bak.toInt⟩ overflowing.program =
      ⟨2147483648, 4294967293⟩ := htotals
  rw [hstart] at hacc hbak
  exact ⟨hprogram, hpending, htotals, m, hfinish 6 (Nat.le_refl 6), hacc, hbak⟩

end Node

end NodeGrid
