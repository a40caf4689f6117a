import Mathlib.Algebra.Ring.Int.Defs
import NodeGrid.Proofs.Node.Faultless
import NodeGrid.Proofs.Node.LinkedSides
import NodeGrid.Proofs.Node.RelativeJumps

/-!
# Counters and lines as words

Distances are signed 64-bit words, and so are lines and counters where they are subtracted. Neither
a line nor a place in a program is larger than its text, but a counter is set back only in the step
after it went past the end, and a relative jump may have led far past it by then.

* `distance_cases`: a command moves the counter by a 32-bit value, or to a label.
* `pc_after_lt`: so the counter stays below the length of the text and the largest such value.
* `counter_exact`: in the run of a text with fewer than `2 ^ 62` characters no sum and no difference
  leaves the words, so jumps arrive where they say.
-/

namespace NodeGrid

namespace Line

/-- A number that a signed 64-bit word holds. -/
def FitsWord (n : Int) : Prop := Int64.minValue.toInt ≤ n ∧ n ≤ Int64.maxValue.toInt

theorem fitsWord_iff {n : Int} : FitsWord n ↔ -2 ^ 63 ≤ n ∧ n < 2 ^ 63 := by
  rw [FitsWord, Int64.toInt_minValue, Int64.toInt_maxValue]
  omega

end Line

namespace Node

open Line

variable {n : Node} {c : Command} {size : Nat}

/-! ## How far a command moves the counter -/

theorem exists_reading_eq (n : Node) (o : Operand) (use : Node → Int32 → Node) :
    ∃ value : Int32, (n.reading o use).2 = value.toInt := by
  cases hvalue : n.value? o with
  | none => exact ⟨0, by rw [reading_of_value?_none hvalue]; rfl⟩
  | some value => exact ⟨1, by rw [reading_of_value?_some hvalue]; rfl⟩

theorem jumpDistance_of_findLabel? {o : Operand} {target : String} {label : Command}
    (htarget : o.word? = some target) (hlabel : n.program.findLabel? target = some label) :
    n.jumpDistance o = distance n.pc label.line := by
  rw [jumpDistance, htarget, Option.bind_some, hlabel]

/-- A command moves the counter by a value of 32 bits, or by the distance to the line of a label. -/
theorem distance_cases (n : Node) (c : Command) :
    (∃ value : Int32, (n.execute c).2 = value.toInt) ∨
      ∃ label ∈ n.program, (n.execute c).2 = distance n.pc label.line := by
  have hone : ((1 : Int32)).toInt = 1 := rfl
  cases hop : c.opcode with
  | lbl | nop | swp | sav | neg => exact Or.inl ⟨1, by simp only [execute, hop, hone]⟩
  | mov =>
    rw [execute_mov hop]
    exact Or.inl (exists_reading_eq n _ _)
  | add =>
    rw [execute_add hop]
    exact Or.inl (exists_reading_eq n _ _)
  | sub =>
    rw [execute_sub hop]
    exact Or.inl (exists_reading_eq n _ _)
  | jro =>
    rw [execute_jro hop]
    exact Or.inl ⟨_, rfl⟩
  | jmp | jez | jnz | jgz | jlz =>
    have hjump : c.opcode.isLabelJump := by rw [hop]; rfl
    rw [execute_of_isLabelJump hjump]
    by_cases htaken : c.opcode.isTaken n.acc
    · rw [if_pos htaken, jumpDistance]
      cases hlabel : c.primary.word?.bind n.program.findLabel? with
      | none => exact Or.inl ⟨1, hone.symm⟩
      | some label =>
        obtain ⟨target, -, hfound⟩ := Option.bind_eq_some_iff.mp hlabel
        exact Or.inr ⟨label, (Program.findLabel?_eq_some hfound).1, rfl⟩
    · exact Or.inl ⟨1, by rw [if_neg htaken, hone]⟩

theorem pc_run (n : Node) (c : Command) :
    ((n.run c).1.pc : Int) = max 0 (n.pc + (n.execute c).2) := by
  have hpc := (execute_frame n c).2.2
  show (((n.execute c).1.pc + (n.execute c).2).toNat : Int) = _
  rw [hpc]
  omega

/-! ## Runs -/

theorem wrap_pc_le (n : Node) : n.wrap.pc ≤ n.pc := by
  unfold wrap
  split
  · exact Nat.le_refl _
  · exact Nat.zero_le _

/-- The sum of the counter and the distance of the next command is the line of a label, or no
further from a place in the program than a relative jump leads. -/
theorem sum_bounds (hsize : size < 2 ^ 62) (hlength : n.program.length ≤ size)
    (hlines : ∀ label ∈ n.program, label.line < size) (hc : n.next? = some c) :
    -2 ^ 31 ≤ n.wrap.pc + (n.wrap.execute c).2 ∧
      n.wrap.pc + (n.wrap.execute c).2 < size + 2 ^ 31 := by
  have hplace := wrap_pc_lt_of_next? hc
  rcases distance_cases n.wrap c with ⟨value, hvalue⟩ | ⟨label, hlabel, hdistance⟩
  · have hlow := value.le_toInt
    have hhigh := value.toInt_lt
    omega
  · rw [wrap_program] at hlabel
    have hline := hlines label hlabel
    rw [distance_eq_of_lt (by omega) (by omega)] at hdistance
    omega

/-- A step leaves the counter below the length of the text and the largest distance of a relative
jump. -/
theorem pc_step_lt (hsize : size < 2 ^ 62) (hlength : n.program.length ≤ size)
    (hlines : ∀ label ∈ n.program, label.line < size) (hpc : n.pc < size + 2 ^ 31) :
    n.step.1.pc < size + 2 ^ 31 := by
  rcases step_cases_next? n with hstep | ⟨c, hc, hstep⟩
  · have hwrap := wrap_pc_le n
    rw [hstep]
    omega
  · obtain ⟨-, hhigh⟩ := sum_bounds hsize hlength hlines hc
    have hland := pc_run n.wrap c
    rw [hstep]
    omega

theorem pc_after_lt (hsize : size < 2 ^ 62) (hlength : n.program.length ≤ size)
    (hlines : ∀ label ∈ n.program, label.line < size) (hpc : n.pc < size + 2 ^ 31)
    (as : List Action) : (n.after as).pc < size + 2 ^ 31 := by
  induction as generalizing n with
  | nil => exact hpc
  | cons a as ih =>
    have hprogram : (n.act a).program = n.program := (act_frame n a).1
    refine ih (hprogram ▸ hlength) (hprogram ▸ hlines) ?_
    cases a with
    | step => exact pc_step_lt hsize hlength hlines hpc
    | receive d value =>
      rw [act, receive_eq_withInbox]
      exact hpc
    | release d => exact hpc

/-! ## Programs of texts -/

/-- A jump that is taken arrives at the line of the label, when lines and counters are words. -/
theorem pc_step_of_isTaken (hc : n.next? = some c) (hjump : c.opcode.isLabelJump)
    (htaken : c.opcode.isTaken n.acc) {target : String} (htarget : c.primary.word? = some target)
    {label : Command} (hlabel : n.program.findLabel? target = some label)
    (hpc : n.wrap.pc < 2 ^ 63) (hline : label.line < 2 ^ 63) : n.step.1.pc = label.line := by
  obtain ⟨hpending, hcurrent⟩ := next?_eq_some_iff.mp hc
  have hdistance : (n.wrap.execute c).2 = (label.line : Int) - n.wrap.pc := by
    rw [execute_of_isLabelJump hjump, wrap_acc, if_pos htaken,
      jumpDistance_of_findLabel? htarget (by rwa [wrap_program]), distance_eq_of_lt hpc hline]
  have hland := pc_run n.wrap c
  rw [step_of_current?_some hpending hcurrent]
  omega

theorem pc_step_of_jro (hc : n.next? = some c) (hop : c.opcode = .jro) :
    (n.step.1.pc : Int) = max 0 (n.wrap.pc + ((n.value? c.primary).getD 0).toInt) := by
  obtain ⟨hpending, hcurrent⟩ := next?_eq_some_iff.mp hc
  have hvalue : n.wrap.value? c.primary = n.value? c.primary := by
    cases c.primary <;> simp [value?]
  have hland := pc_run n.wrap c
  rw [execute_jro hop, hvalue] at hland
  rw [step_of_current?_some hpending hcurrent, hland]

/-- In the program of a text with fewer than `2 ^ 62` characters no line is larger than the length
of the text, and no sum of the check of relative jumps leaves the words. Whatever happens to a fresh
node with this program, its counter stays below `2 ^ 63`, no difference between a line and the
counter leaves the words, and neither does any sum of the counter and a distance. So a jump that is
taken to a label arrives at the line of the first label of the name, and a relative jump by a value
arrives where it says, or at the start; a value that is not there is none. -/
theorem counter_exact {text : String} {program : Program} (hsize : text.length < 2 ^ 62)
    (hparse : Program.parse text = .ok program) :
    (∀ c ∈ program, c.line ≤ text.length) ∧
      (∀ c ∈ program, ∀ value, c.opcode = .jro → c.primary = .number value →
        FitsWord (c.line + value.toInt)) ∧
      ∀ (links : LinkSet) (as : List Action),
        let n := after { links, program } as
        n.pc < 2 ^ 63 ∧
          (∀ label ∈ program, FitsWord ((label.line : Int) - n.wrap.pc)) ∧
          ∀ c, n.next? = some c →
            FitsWord (n.wrap.pc + (n.wrap.execute c).2) ∧
              (∀ target label, c.opcode.isLabelJump → c.opcode.isTaken n.acc →
                c.primary.word? = some target → program.findLabel? target = some label →
                n.step.1.pc = label.line) ∧
              (c.opcode = .jro → (n.step.1.pc : Int) =
                max 0 (n.wrap.pc + ((n.value? c.primary).getD 0).toInt)) := by
  have hlines : ∀ c ∈ program, c.line < text.length := fun c hc => Program.line_parse_lt hparse hc
  have hlength := Program.length_parse_le hparse
  refine ⟨fun c hc => Nat.le_of_lt (hlines c hc), fun c hc value _ _ => ?_, fun links as => ?_⟩
  · have hline := hlines c hc
    have hlow := value.le_toInt
    have hhigh := value.toInt_lt
    rw [fitsWord_iff]
    omega
  · intro n
    have hprogram : n.program = program := (after_frame _ as).1
    have hpc : n.pc < text.length + 2 ^ 31 :=
      pc_after_lt (n := { links, program }) hsize hlength hlines (by show 0 < _; omega) as
    have hwrap := wrap_pc_le n
    refine ⟨by omega, fun label hlabel => ?_, fun c hc => ⟨?_, ?_, pc_step_of_jro hc⟩⟩
    · have hline := hlines label hlabel
      rw [fitsWord_iff]
      omega
    · obtain ⟨hlow, hhigh⟩ :=
        sum_bounds hsize (hprogram ▸ hlength) (fun l hl => hlines l (hprogram ▸ hl)) hc
      rw [fitsWord_iff]
      omega
    · intro target label hjump htaken htarget hlabel
      have hline := hlines label (Program.findLabel?_eq_some hlabel).1
      rw [← hprogram] at hlabel
      exact pc_step_of_isTaken hc hjump htaken htarget hlabel (by omega) (by omega)

/-- A jump by what comes from above, and a jump to a label after a comment. -/
def leaping : Program :=
  [{ line := 0, opcode := .jro, primary := .side .up },
    { line := 1, opcode := .jmp, primary := .text "A" },
    { line := 3, opcode := .lbl, primary := .label "A" }]

/-- The largest value leads far past the end, from where the node starts again. A value of 1 leads
to the jump to the label, which arrives at the line of the label and so past the end too. -/
theorem counter_exact_leaping :
    Program.parse "JRO UP\nJMP A\n# c\nA:" = .ok leaping ∧
      (after { program := leaping } [.receive .up 2147483647, .step]).pc = 2147483647 ∧
      2147483647 < 2 ^ 63 ∧
      (after { program := leaping }
        [.receive .up 2147483647, .step, .receive .up 1, .step]).pc = 1 ∧
      (after { program := leaping }
        [.receive .up 2147483647, .step, .receive .up 1, .step]).step.1.pc = 3 := by
  have hparse : Program.parse "JRO UP\nJMP A\n# c\nA:" = .ok leaping := rfl
  obtain ⟨-, -, hruns⟩ := counter_exact (by decide) hparse
  have hfar : (after { program := leaping } [.receive .up 2147483647, .step]).pc = 2147483647 := rfl
  have hbound := (hruns .empty [.receive .up 2147483647, .step]).1
  obtain ⟨-, -, hnext⟩ :=
    hruns .empty [.receive .up 2147483647, .step, .receive .up 1, .step]
  obtain ⟨-, hjump, -⟩ := hnext { line := 1, opcode := .jmp, primary := .text "A" } rfl
  exact ⟨hparse, hfar, hfar ▸ hbound, rfl, hjump "A" _ rfl rfl rfl rfl⟩

end Node

end NodeGrid
