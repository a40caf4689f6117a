import NodeGrid.Proofs.Node.Execution
import NodeGrid.Proofs.Program.Clean

/-!
# Steps of programs without faults

The check of a program and its steps divide commands and operands into cases on their own. They
agree: where the check finds no fault, no step comes upon one, whatever the registers, mailboxes and
counter of the node are, and whether the program comes from a text or not.

* `value?_eq_none_iff`: of the operands that pass the check only a side can have no value.
* `step_of_faultless`: the only thing that a command of a program without faults waits for is a
  value from a side.
-/

namespace NodeGrid.Node

variable {n : Node} {c : Command} {o : Operand}

/-! ## Reading -/

theorem value?_eq_none_iff (h : o.isNumericSource) :
    n.value? o = none ↔ ∃ d, o = .side d ∧ n.inbox.get d = none := by
  cases o with
  | number value | acc => simp [value?]
  | side d => simp [value?]
  | empty | label name | text word => cases h

/-- A command that finds its value goes through. -/
theorem run_of_value?_some (hreads : c.opcode.readsValue) {value : Int32}
    (hvalue : n.value? c.primary = some value) : (n.run c).2 = .executed := by
  unfold run
  rcases readsValue_cases hreads with hop | hop | hop | hop
  · simp [execute_mov hop, reading_of_value?_some hvalue]
  · simp [execute_add hop, reading_of_value?_some hvalue]
  · simp [execute_sub hop, reading_of_value?_some hvalue]
  · simp [hop]

/-! ## Receiving -/

theorem receive_eq_withInbox (n : Node) (d : Direction) (value : Int32) :
    n.receive d value = n.withInbox (n.receive d value).inbox := by
  unfold receive
  split <;> rfl

theorem value?_receive {d : Direction} (h : n.inbox.get d = none) (value : Int32) :
    (n.receive d value).value? (.side d) = some value := by
  have haccepts : n.accepts d := by rw [accepts, h]; rfl
  rw [receive, if_pos haccepts]
  exact Sides.get_set_self _ d _

/-- A command that waits for a side goes through as soon as a value has come from there. -/
theorem step_receive (hpending : n.isPending = false) (hc : n.wrap.current? = some c)
    (hreads : c.opcode.readsValue) {d : Direction} (hside : c.primary = .side d)
    (hnone : n.inbox.get d = none) (value : Int32) : (n.receive d value).step.2 = .executed := by
  have hwrap : (n.receive d value).wrap = n.wrap.withInbox (n.receive d value).inbox := by
    rw [receive_eq_withInbox, ← wrap_withInbox]
    rfl
  have hpending' : (n.receive d value).isPending = false := by
    rw [receive_eq_withInbox]
    exact hpending
  have hc' : (n.receive d value).wrap.current? = some c := by
    rw [hwrap]
    exact hc
  have hvalue : (n.receive d value).wrap.value? c.primary = some value := by
    rw [hside, ← value?_receive hnone value, value?, value?, wrap_inbox]
  rw [step_of_current?_some hpending' hc']
  exact run_of_value?_some hreads hvalue

/-! ## Steps -/

/-- A step of a program without faults, with nothing waiting to be taken: a label jump that is taken
finds a label of its name; an operand that is read has a value, or is a side from which nothing has
come, and then any value from there lets the command go through; and what is written goes to the
accumulator, to nowhere or to a linked side. -/
theorem step_of_faultless (hclean : n.program.faults n.links = []) (hpending : n.isPending = false)
    (hc : n.wrap.current? = some c) :
    (c.opcode.isLabelJump → c.opcode.isTaken n.acc →
        ∃ target label, c.primary = .text target ∧ label ∈ n.program ∧
          label.label? = some target ∧
          n.step.1 = n.wrap.move (Line.distance n.wrap.pc label.line)) ∧
      (c.opcode.readsValue → n.value? c.primary = none →
        ∃ d, c.primary = .side d ∧ n.inbox.get d = none ∧
          ∀ value, (n.receive d value).step.2 = .executed) ∧
      (c.opcode = .mov → c.secondary = .acc ∨ c.secondary = .text Operand.nilName ∨
        ∃ d ∈ n.links, c.secondary = .side d) ∧
      ∀ d, n.step.1.outbox.get d ≠ none → d ∈ n.links := by
  have hmem : c ∈ n.program := wrap_program n ▸ mem_of_current? hc
  refine ⟨?_, ?_, ?_, ?_⟩
  · intro hjump htaken
    obtain ⟨target, label, hprimary, hlabel⟩ :=
      Program.exists_label_of_isLabelJump hclean hmem hjump
    obtain ⟨hin, hname⟩ := Program.findLabel?_eq_some hlabel
    have hstep := step_eq_move_of_isTaken hpending hc hjump htaken hprimary hlabel
    exact ⟨target, label, hprimary, hin, hname, hstep⟩
  · intro hreads hvalue
    have hsource := Program.isNumericSource_primary hclean hmem hreads
    obtain ⟨d, hside, hnone⟩ := (value?_eq_none_iff hsource).mp hvalue
    exact ⟨d, hside, hnone, step_receive hpending hc hreads hside hnone⟩
  · exact Program.secondary_of_mov hclean hmem
  · intro d hfull
    rcases step_outbox hfull with hbefore | ⟨other, hother, hdestination⟩
    · exact absurd (isPending_eq_false_iff.mp hpending d) hbefore
    · exact Program.mem_of_destination? hclean hother hdestination

/-- A loop that sends on what comes in until that is zero. -/
def forwarding (pc : Nat) (acc : Int32) : Node :=
  { acc, pc, links := .ofList [.left, .right]
    program := [{ line := 0, opcode := .lbl, primary := .label "LOOP" },
      { line := 1, opcode := .mov, primary := .side .left, secondary := .acc },
      { line := 2, opcode := .mov, primary := .acc, secondary := .side .right },
      { line := 3, opcode := .jnz, primary := .text "LOOP" }] }

/-- The jump at the end finds its label, and the first command waits for the side on the left. -/
theorem step_of_faultless_forwarding :
    (forwarding 3 1).program.faults (forwarding 3 1).links = [] ∧
      (∃ label : Command, label.label? = some "LOOP" ∧
        (forwarding 3 1).step.1 = (forwarding 3 1).wrap.move (Line.distance 3 label.line)) ∧
      (forwarding 1 0).step.2 = .readBlocked ∧
      ∀ value, ((forwarding 1 0).receive .left value).step.2 = .executed := by
  have hclean : (forwarding 3 1).program.faults (forwarding 3 1).links = [] := by decide
  obtain ⟨hjump, -⟩ := step_of_faultless hclean rfl rfl
  obtain ⟨-, hread, -⟩ := @step_of_faultless (forwarding 1 0) _ hclean rfl rfl
  obtain ⟨target, label, htarget, -, hname, hstep⟩ := hjump rfl rfl
  obtain ⟨d, hside, -, hexecuted⟩ := hread rfl rfl
  cases htarget
  cases hside
  exact ⟨hclean, ⟨label, hname, hstep⟩, rfl, hexecuted⟩

end NodeGrid.Node
