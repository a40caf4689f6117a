import Mathlib.Algebra.Group.Nat.Defs
import NodeGrid.Proofs.Node.Execution
import NodeGrid.Proofs.Program.Clean
import NodeGrid.Proofs.Program.Lines

/-!
# Where label jumps land

A label jump moves the counter, which is a place in the program, by the distance from that place to
the line of the label. So it arrives at the place whose number is the line of the label
(`step_of_isTaken`), which need not be the place of the label: in a text without faults a comment
before the label moves the landing on by one, and a label that shares its line moves it back.

* `step_of_isTaken`, `step_of_not_isTaken`: a jump is taken or passed over.
* `jump_reaches_label_iff`: a taken jump of a program without faults arrives at a label of the name
  that it goes to exactly if before some label of that name there are as many comments as labels
  that share their line.
* `not_jump_reaches_label`: so not every jump of a program without faults arrives at its label.
-/

namespace NodeGrid

/-- The distance between lines that are words is their difference. -/
theorem Line.distance_eq_of_lt {start finish : Nat} (hs : start < 2 ^ 63) (hf : finish < 2 ^ 63) :
    distance start finish = (finish : Int) - start := by
  have hmax := Int64.toInt_maxValue
  exact distance_eq (by omega) (by omega)

namespace Node

variable {n : Node} {c : Command}

/-- The command that runs next defines the name. -/
def AtLabel (n : Node) (name : String) : Prop := ∃ c, n.current? = some c ∧ c.label? = some name

/-- A jump whose condition holds sets the counter to the line of the first label of the name. -/
theorem step_of_isTaken (hpending : n.isPending = false) (hc : n.current? = some c)
    (hjump : c.opcode.isLabelJump) (htaken : c.opcode.isTaken n.acc) {target : String}
    (hprimary : c.primary = .text target) {label : Command}
    (hlabel : n.program.findLabel? target = some label) (hpc : n.pc < 2 ^ 63)
    (hline : label.line < 2 ^ 63) : n.step.1 = { n with pc := label.line } := by
  have hwrap : n.wrap = n := wrap_of_lt (lt_length_of_current? hc)
  have hland : ((n.pc : Int) + ((label.line : Int) - n.pc)).toNat = label.line := by omega
  rw [step_eq_move_of_isTaken hpending (hwrap.symm ▸ hc) hjump htaken hprimary hlabel, hwrap,
    Line.distance_eq_of_lt hpc hline, move, hland]

/-- A jump whose condition does not hold only moves on. -/
theorem step_of_not_isTaken (hpending : n.isPending = false) (hc : n.current? = some c)
    (hjump : c.opcode.isLabelJump) (htaken : c.opcode.isTaken n.acc = false) :
    n.step.1 = { n with pc := n.pc + 1 } := by
  have hwrap : n.wrap = n := wrap_of_lt (lt_length_of_current? hc)
  have hexecute : n.execute c = (n, 1) := by
    rw [execute_of_isLabelJump hjump, htaken]
    rfl
  rw [step_of_current?_some hpending (hwrap.symm ▸ hc), hwrap]
  unfold run
  rw [hexecute]
  rfl

/-- The labels of one name in a program without faults are on one line, so the place with that
number holds one of them exactly if one of them stands on the line that is its own place. -/
theorem getElem?_line_iff {links : LinkSet} {program : Program} (hclean : program.faults links = [])
    {name : String} {label : Command} (hlabel : program.findLabel? name = some label) :
    (∃ c, program[label.line]? = some c ∧ c.label? = some name) ↔
      ∃ (place : Nat) (c : Command), program[place]? = some c ∧ c.label? = some name ∧
        c.line = place := by
  obtain ⟨hmem, hname⟩ := Program.findLabel?_eq_some hlabel
  constructor
  · rintro ⟨c, hc, hcname⟩
    have hline := Program.line_eq_of_label?_eq hclean hmem (List.mem_of_getElem? hc) hname hcname
    exact ⟨label.line, c, hc, hcname, hline⟩
  · rintro ⟨place, c, hc, hcname, rfl⟩
    have hline := Program.line_eq_of_label?_eq hclean hmem (List.mem_of_getElem? hc) hname hcname
    exact ⟨c, hline ▸ hc, hcname⟩

/-- A taken jump of a program without faults goes to the line of its label, and arrives at a label
of that name exactly if comments and shared lines before one of them make up for each other. -/
theorem jump_reaches_label_iff {links : LinkSet} {text : String} (hsize : text.length < 2 ^ 63)
    (hparse : Program.parse text = .ok n.program) (hclean : n.program.faults links = [])
    (hpending : n.isPending = false) (hc : n.current? = some c)
    (hjump : c.opcode.isLabelJump) (htaken : c.opcode.isTaken n.acc) :
    ∃ target label, c.primary = .text target ∧ n.program.findLabel? target = some label ∧
      n.step.1 = { n with pc := label.line } ∧
      (n.step.1.AtLabel target ↔
        Program.DefinesLevel (Outline.ofLexemes (Lexeme.ofText text)).statements target) := by
  obtain ⟨target, label, hprimary, hlabel⟩ :=
    Program.exists_label_of_isLabelJump hclean (mem_of_current? hc) hjump
  obtain ⟨hmem, _⟩ := Program.findLabel?_eq_some hlabel
  have hpc : n.pc < 2 ^ 63 := by
    have hlt := lt_length_of_current? hc
    have hlength := Program.length_parse_le hparse
    omega
  have hline : label.line < 2 ^ 63 := by
    have hlt := Program.line_parse_lt hparse hmem
    omega
  have hstep := step_of_isTaken hpending hc hjump htaken hprimary hlabel hpc hline
  refine ⟨target, label, hprimary, hlabel, hstep, ?_⟩
  have hstatements := Program.statements_of_parse hparse
  calc
    n.step.1.AtLabel target ↔ ∃ c, n.program[label.line]? = some c ∧ c.label? = some target := by
      rw [hstep]
      rfl
    _ ↔ ∃ (place : Nat) (c : Command), n.program[place]? = some c ∧ c.label? = some target ∧
        c.line = place := getElem?_line_iff hclean hlabel
    _ ↔ Program.DefinesLevel (Outline.ofLexemes (Lexeme.ofText text)).statements target := by
      rw [hstatements]
      exact Program.label_on_place_iff Outline.isProper_of_mem_ofLexemes

/-- A jump over an addition. The label before the jump shares its line, which is the given one. -/
def jumpOver (line : Nat) : Program :=
  [{ line, opcode := .lbl, primary := .label "S" }, { line, opcode := .jmp, primary := .text "B" },
    { line := line + 1, opcode := .add, primary := .number 1 },
    { line := line + 2, opcode := .lbl, primary := .label "B" }]

/-- Here a comment makes up for the label that shares its line. -/
theorem jump_reaches_label_after_comment :
    "# start\nS: JMP B\nADD 1\nB:".length < 2 ^ 63 ∧
      Program.parse "# start\nS: JMP B\nADD 1\nB:" = .ok (jumpOver 1) ∧
      (jumpOver 1).faults .empty = [] ∧
      ({ pc := 1, program := jumpOver 1 } : Node).step.1.AtLabel "B" := by
  refine ⟨by decide, rfl, by decide, ?_⟩
  obtain ⟨target, label, htarget, _, _, hiff⟩ :=
    @jump_reaches_label_iff { pc := 1, program := jumpOver 1 } _ .empty
      "# start\nS: JMP B\nADD 1\nB:" (by decide) rfl (by decide) rfl rfl rfl rfl
  cases htarget
  exact hiff.mpr ⟨[.comment "# start", .label "S" false, .operation .jmp [⟨.word, "B"⟩],
    .operation .add [⟨.number, "1"⟩]], false, [], rfl, rfl⟩

/-- Without the comment the jump arrives one place before its label and runs the addition. -/
theorem not_jump_reaches_label :
    ¬ ∀ (links : LinkSet) (text : String) (n : Node) (c : Command) (target : String),
      Program.parse text = .ok n.program → n.program.faults links = [] → n.isPending = false →
      n.current? = some c → c.opcode.isLabelJump → c.opcode.isTaken n.acc →
      c.primary = .text target → n.step.1.AtLabel target := by
  intro h
  obtain ⟨c, hc, hname⟩ := h .empty "S: JMP B\nADD 1\nB:" { pc := 1, program := jumpOver 0 } _ "B"
    rfl (by decide) rfl rfl rfl rfl rfl
  cases hc
  cases hname

end Node

end NodeGrid
