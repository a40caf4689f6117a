import NodeGrid.Proofs.Node.Waiting
import NodeGrid.Proofs.Program.Forward

/-!
# Nodes that run to the end

A node runs until its counter is past the end, so whether it ever stops is a matter of how the
counter moves. Where each step moves it forward and none past the end, as many steps are enough as
there are places left (`exists_finish?_of_advances`).

* `mailboxesEmpty_step`, `pc_step_of_isForward`: the steps of a program that jumps forward and uses
  no side are such steps, and leave the mailboxes empty.
* `finish?_of_forward`: so from its start such a program runs to its end, and stops there.
-/

namespace NodeGrid.Node

variable {n : Node} {c : Command} {links : LinkSet} {program : Program}

/-! ## Steps that move on -/

theorem finish?_of_le (h : n.program.length ≤ n.pc) (fuel : Nat) : finish? fuel n = some n := by
  cases fuel <;> rw [finish?, if_pos h]

theorem finish?_succ_of_lt (h : n.pc < n.program.length) (fuel : Nat) :
    finish? (fuel + 1) n = finish? fuel n.step.1 := by
  rw [finish?, if_neg (Nat.not_le.mpr h)]

/-- If all steps move the counter forward, but not past the end, the node stops at the end. What the
steps keep holds there. -/
theorem exists_finish?_of_advances {P : Node → Prop}
    (hstep : ∀ m, P m → m.pc < m.program.length →
      P m.step.1 ∧ m.pc < m.step.1.pc ∧ m.step.1.pc ≤ m.program.length)
    (hn : P n) (hpc : n.pc ≤ n.program.length) :
    ∃ m, P m ∧ m.program = n.program ∧ m.pc = n.program.length ∧
      ∀ fuel, n.program.length - n.pc ≤ fuel → finish? fuel n = some m := by
  induction hleft : n.program.length - n.pc using Nat.strongRecOn generalizing n with
  | ind left ih =>
    rcases Nat.lt_or_ge n.pc n.program.length with hlt | hge
    · obtain ⟨hkept, hforward, hend⟩ := hstep n hn hlt
      have hprogram : n.step.1.program = n.program := (step_frame n).1
      have hless : n.step.1.program.length - n.step.1.pc < left := by
        rw [hprogram]
        omega
      obtain ⟨m, hm, hmprogram, hmpc, hfinish⟩ := ih _ hless hkept (hprogram ▸ hend) rfl
      refine ⟨m, hm, hmprogram.trans hprogram, hprogram ▸ hmpc, fun fuel hfuel => ?_⟩
      cases fuel with
      | zero => omega
      | succ fuel =>
        rw [finish?_succ_of_lt hlt]
        exact hfinish fuel (by omega)
    · exact ⟨n, hn, rfl, by omega, fun fuel _ => finish?_of_le hge fuel⟩

/-! ## Steps without sides -/

/-- A command that is no jump and finds its value moves on by one. -/
theorem execute_eq_one (hop : c.opcode ≠ .jro) (hjump : c.opcode.isLabelJump = false)
    (hvalue : c.opcode.readsValue → n.value? c.primary ≠ none) : (n.execute c).2 = 1 := by
  cases hreads : c.opcode.readsValue with
  | false => cases hopcode : c.opcode <;> simp_all [execute, Opcode.isLabelJump, Opcode.readsValue]
  | true =>
    obtain ⟨value, hsome⟩ := Option.ne_none_iff_exists'.mp (hvalue hreads)
    rcases readsValue_cases hreads with h | h | h | h
    · rw [execute_mov h, reading_of_value?_some hsome]
    · rw [execute_add h, reading_of_value?_some hsome]
    · rw [execute_sub h, reading_of_value?_some hsome]
    · exact absurd h hop

/-- An operand that passes the check and is no side has a value. -/
theorem value?_ne_none {o : Operand} (hsource : o.isNumericSource) (hside : o.side? = none) :
    n.value? o ≠ none := by
  intro hnone
  obtain ⟨d, rfl, -⟩ := (value?_eq_none_iff hsource).mp hnone
  cases hside

theorem pc_step_of_execute (hpending : n.isPending = false) (hc : n.current? = some c)
    (hdistance : (n.execute c).2 = 1) : n.step.1.pc = n.pc + 1 := by
  have hwrap : n.wrap = n := wrap_of_lt (lt_length_of_current? hc)
  have hpc := (execute_frame n c).2.2
  rw [step_of_current?_some hpending (hwrap.symm ▸ hc), hwrap]
  unfold run
  simp only [move, hpc, hdistance]
  omega

/-- No value waits on any side. -/
def MailboxesEmpty (n : Node) : Prop := ∀ d, n.inbox.get d = none ∧ n.outbox.get d = none

theorem mailboxesEmpty_step (h : Program.IsForward links n.program) (hn : n.MailboxesEmpty) :
    n.step.1.MailboxesEmpty := by
  intro d
  constructor
  · rcases step_inbox n d with hnone | heq
    · exact hnone
    · exact heq.trans (hn d).1
  · refine Classical.byContradiction fun hfull => ?_
    rcases step_outbox hfull with hbefore | ⟨c, hc, hdestination⟩
    · exact hbefore (hn d).2
    · obtain ⟨-, hside⟩ := Command.destination?_eq_some_iff.mp hdestination
      have hnone := h.secondary_side? c hc
      rw [hside] at hnone
      cases hnone

/-- A step goes to a later place, or to the end. -/
theorem pc_step_of_isForward (h : Program.IsForward links n.program) (hn : n.MailboxesEmpty)
    (hpc : n.pc < n.program.length) :
    n.pc < n.step.1.pc ∧ n.step.1.pc ≤ n.program.length := by
  have hpending : n.isPending = false := isPending_eq_false_iff.mpr fun d => (hn d).2
  obtain ⟨c, hc⟩ : ∃ c, n.current? = some c := ⟨_, List.getElem?_eq_getElem hpc⟩
  have hmem := mem_of_current? hc
  have hsize := h.length_lt
  cases hjump : c.opcode.isLabelJump with
  | true =>
    cases htaken : c.opcode.isTaken n.acc with
    | true =>
      obtain ⟨target, label, hprimary, hlabel, hahead, hinside⟩ := h.findLabel?_eq hc hjump
      rw [step_of_isTaken hpending hc hjump htaken hprimary hlabel (by omega) (by omega)]
      exact ⟨hahead, Nat.le_of_lt hinside⟩
    | false =>
      rw [step_of_not_isTaken hpending hc hjump htaken]
      exact ⟨Nat.lt_succ_self _, hpc⟩
  | false =>
    have hvalue (hreads : c.opcode.readsValue) : n.value? c.primary ≠ none :=
      value?_ne_none (Program.isNumericSource_primary h.clean hmem hreads) (h.primary_side? c hmem)
    rw [pc_step_of_execute hpending hc (execute_eq_one (h.opcode_ne c hmem) hjump hvalue)]
    exact ⟨Nat.lt_succ_self _, hpc⟩

/-! ## Programs of texts -/

/-- The program of a text without comments, with each label at the end of its line, that has no
faults, no relative jump, no side and only jumps to labels that come later, runs to its end: as many
steps are enough as it has commands, and all mailboxes are empty then. -/
theorem finish?_of_forward {text : String} (hsize : text.length < 2 ^ 63)
    (hparse : Program.parse text = .ok program) (hsign : '#' ∉ text.toList)
    (hlabels : Lexeme.LabelsEndLine (Lexeme.ofText text)) (hclean : program.faults links = [])
    (hop : ∀ c ∈ program, c.opcode ≠ .jro)
    (hsides : ∀ c ∈ program, c.primary.side? = none ∧ c.secondary.side? = none)
    (hjumps : Program.JumpsForward program) (sides : LinkSet) :
    ∃ n : Node, (∀ fuel, program.length ≤ fuel →
        finish? fuel { links := sides, program } = some n) ∧
      n.program = program ∧ n.pc = program.length ∧
      ∀ d, n.inbox.get d = none ∧ n.outbox.get d = none := by
  have hforward : Program.IsForward links program :=
    { clean := hclean
      opcode_ne := hop
      primary_side? := fun c hc => (hsides c hc).1
      secondary_side? := fun c hc => (hsides c hc).2
      jumps := hjumps
      line_eq := fun place c hc => Program.line_eq_of_parse hparse hsign hlabels hc
      length_lt := Nat.lt_of_le_of_lt (Program.length_parse_le hparse) hsize }
  have hstart : MailboxesEmpty { links := sides, program } := fun d =>
    ⟨Sides.get_replicate none d, Sides.get_replicate none d⟩
  have hsteps (m : Node) (hm : m.program = program ∧ m.MailboxesEmpty)
      (hpc : m.pc < m.program.length) :
      (m.step.1.program = program ∧ m.step.1.MailboxesEmpty) ∧
        m.pc < m.step.1.pc ∧ m.step.1.pc ≤ m.program.length := by
    obtain ⟨rfl, hempty⟩ := hm
    exact ⟨⟨(step_frame m).1, mailboxesEmpty_step hforward hempty⟩,
      pc_step_of_isForward hforward hempty hpc⟩
  obtain ⟨n, ⟨hprogram, hempty⟩, -, hpc, hfinish⟩ :=
    exists_finish?_of_advances hsteps ⟨rfl, hstart⟩ (Nat.zero_le program.length)
  exact ⟨n, hfinish, hprogram, hpc, hempty⟩

/-- Two jumps over one command each, of which the first depends on the accumulator. -/
def skipping : Program :=
  [{ line := 0, opcode := .jez, primary := .text "SKIP" },
    { line := 1, opcode := .add, primary := .number 1 },
    { line := 2, opcode := .lbl, primary := .label "SKIP" },
    { line := 3, opcode := .sub, primary := .number 2 },
    { line := 4, opcode := .jmp, primary := .text "END" }, { line := 5, opcode := .neg },
    { line := 6, opcode := .lbl, primary := .label "END" }]

theorem finish?_of_forward_skipping :
    Program.parse "JEZ SKIP\nADD 1\nSKIP:\nSUB 2\nJMP END\nNEG\nEND:" = .ok skipping ∧
      skipping.faults .empty = [] ∧ Program.JumpsForward skipping ∧
      ∃ n : Node, finish? 7 { program := skipping } = some n ∧ n.pc = 7 ∧ n.acc = -2 := by
  have hparse : Program.parse "JEZ SKIP\nADD 1\nSKIP:\nSUB 2\nJMP END\nNEG\nEND:" = .ok skipping :=
    by decide +kernel
  have htargets : ∀ (place : Nat) (h : place < skipping.length),
      skipping[place].opcode.isLabelJump → ∃ target ∈ ["SKIP", "END"],
        skipping[place].primary = .text target ∧
          ∃ label ∈ skipping.drop (place + 1), label.label? = some target := by
    decide
  have hjumps : Program.JumpsForward skipping := by
    intro place c hc hjump
    obtain ⟨hlt, rfl⟩ := List.getElem?_eq_some_iff.mp hc
    obtain ⟨target, -, htarget⟩ := htargets place hlt hjump
    exact ⟨target, htarget⟩
  have hclean : skipping.faults .empty = [] := by decide
  have hacc : (finish? 7 { program := skipping }).map (·.acc) = some (-2) := by decide +kernel
  obtain ⟨n, hfinish, -, hpc, -⟩ := finish?_of_forward (by decide) hparse (by decide)
    (by unfold Lexeme.LabelsEndLine; decide +kernel) hclean (by decide) (by decide) hjumps .empty
  have hseven := hfinish 7 (Nat.le_refl 7)
  rw [hseven] at hacc
  exact ⟨hparse, hclean, hjumps, n, hseven, hpc, Option.some.inj hacc⟩

end NodeGrid.Node
