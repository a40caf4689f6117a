import NodeGrid.Proofs.Node.Jumps
import NodeGrid.Proofs.Program.Distances

/-!
# Where relative jumps land

A relative jump moves the counter by its distance, so it stays in the program if its distance leads
from its place to another place there.

* `step_of_inPlaces`: a relative jump that stays in the program arrives where it says.
* `relativeJump_exact_iff`: the check of relative jumps is exact if before the jump and before the
  last command comments and shared lines make up for each other, and only then. There a relative
  jump of a program without faults arrives at a command, at exactly the distance that it names.
* `not_reports_relativeJump`: otherwise a jump that leaves the program may pass.
-/

namespace NodeGrid.Node

variable {n : Node} {c : Command} {value : Int32}

/-- A relative jump takes its value and moves the counter by it, not before the start. -/
theorem step_of_jro (hpending : n.isPending = false) (hc : n.current? = some c)
    (hop : c.opcode = .jro) (hvalue : n.value? c.primary = some value) :
    n.step.1 = (n.consume c.primary).move value.toInt := by
  have hwrap : n.wrap = n := wrap_of_lt (lt_length_of_current? hc)
  have hexecute : n.execute c = (n.consume c.primary, value.toInt) := by
    rw [execute_jro hop, hvalue]
    rfl
  rw [step_of_current?_some hpending (hwrap.symm ▸ hc), hwrap]
  unfold run
  rw [hexecute]

/-- A relative jump by a number that stays in the program arrives where it says. -/
theorem step_of_inPlaces (hpending : n.isPending = false) (hc : n.current? = some c)
    (hop : c.opcode = .jro) (hprimary : c.primary = .number value)
    (htarget : n.program.InPlaces (n.pc + value.toInt)) :
    (n.step.1.pc : Int) = n.pc + value.toInt ∧ n.step.1.pc < n.program.length := by
  obtain ⟨hlow, hhigh⟩ := htarget
  have hvalue : n.value? c.primary = some value := by
    rw [hprimary]
    rfl
  have hland : n.step.1.pc = (n.pc + value.toInt).toNat := by
    rw [step_of_jro hpending hc hop hvalue, hprimary]
    rfl
  omega

/-- The check of a relative jump is by lines. It is exact, whatever the distance, if before the jump
and before the last command comments and shared lines make up for each other, and only then; and
without faults such a jump arrives where it says. -/
theorem relativeJump_exact_iff {links : LinkSet} {text : String} {program : Program} {place : Nat}
    (hsize : text.length < 2 ^ 63) (hparse : Program.parse text = .ok program)
    (hc : program[place]? = some c) (hop : c.opcode = .jro) (hprimary : c.primary = .number value) :
    (program.Reports links c .primary ↔ ¬ program.InLines (c.line + value.toInt)) ∧
      ((∀ distance : Int,
          program.InLines (c.line + distance) ↔ program.InPlaces (place + distance)) ↔
        Program.LevelAt (Program.statementsOf text) place ∧
          Program.LevelAt (Program.statementsOf text) (program.length - 1)) ∧
      (Program.LevelAt (Program.statementsOf text) place →
        Program.LevelAt (Program.statementsOf text) (program.length - 1) →
        (program.Reports links c .primary ↔ ¬ program.InPlaces (place + value.toInt)) ∧
          ∀ n : Node, n.program = program → n.pc = place → n.isPending = false →
            program.faults links = [] →
              (n.step.1.pc : Int) = place + value.toInt ∧ n.step.1.pc < program.length) := by
  have hsizeLast : program.lastLine < 2 ^ 63 := by
    have hline : program.lastLine ≤ text.length := Program.lastLine_le_iff.mpr fun other hother =>
      Nat.le_of_lt (Program.line_parse_lt hparse hother)
    omega
  have hreports : program.Reports links c .primary ↔ ¬ program.InLines (c.line + value.toInt) :=
    Program.reports_relativeJump (List.mem_of_getElem? hc) hop hprimary hsizeLast
  have hexact := Program.inLines_iff_inPlaces_of_parse hparse hc
  refine ⟨hreports, hexact, fun hplace hend => ?_⟩
  have hplaces := hexact.mpr ⟨hplace, hend⟩ value.toInt
  refine ⟨hreports.trans (not_congr hplaces), fun n hprogram hpc hpending hclean => ?_⟩
  subst hprogram hpc
  have hinLines : n.program.InLines (c.line + value.toInt) := Classical.byContradiction fun h =>
    Program.not_reports_of_faults_eq_nil hclean (hreports.mpr h)
  exact step_of_inPlaces hpending hc hop hprimary (hplaces.mp hinLines)

/-- A jump back over a comment, which makes up for the label that shares its line. -/
def jumpBack : Program :=
  [{ line := 0, opcode := .lbl, primary := .label "A" }, { line := 0, opcode := .nop },
    { line := 2, opcode := .jro, primary := .number (-2) }]

theorem relativeJump_exact_jumpBack :
    "A: NOP\n# c\nJRO -2".length < 2 ^ 63 ∧ Program.parse "A: NOP\n# c\nJRO -2" = .ok jumpBack ∧
      jumpBack.faults .empty = [] ∧
      (({ pc := 2, program := jumpBack } : Node).step.1.pc : Int) = 2 + Int32.toInt (-2) := by
  have hlevel : Program.LevelAt (Program.statementsOf "A: NOP\n# c\nJRO -2") 2 :=
    ⟨[.label "A" false, .operation .nop [], .comment "# c"], .operation .jro [⟨.number, "-2"⟩], [],
      rfl, rfl, rfl, rfl⟩
  obtain ⟨-, -, hexact⟩ := @relativeJump_exact_iff _ _ .empty "A: NOP\n# c\nJRO -2" jumpBack 2
    (by decide) rfl rfl rfl rfl
  obtain ⟨hstep, -⟩ :=
    (hexact hlevel hlevel).2 { pc := 2, program := jumpBack } rfl rfl rfl (by decide)
  exact ⟨by decide, rfl, by decide, hstep⟩

/-- After a comment a jump to before the start passes. -/
theorem not_reports_relativeJump :
    ¬ ∀ (links : LinkSet) (text : String) (program : Program) (place : Nat) (c : Command)
        (value : Int32), Program.parse text = .ok program → program[place]? = some c →
      c.opcode = .jro → c.primary = .number value →
      (program.Reports links c .primary ↔ ¬ program.InPlaces (place + value.toInt)) := by
  intro h
  have hreports := h .empty "# c\nJRO -1"
    [{ line := 1, opcode := .jro, primary := .number (-1) }] 0 _ (-1) rfl rfl rfl rfl
  revert hreports
  decide

end NodeGrid.Node
