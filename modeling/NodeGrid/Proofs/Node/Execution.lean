import NodeGrid.Node.Step
import NodeGrid.Proofs.Program.Sides

/-!
# Execution

What a command and a step change, mailbox by mailbox.

* `execute_inbox`, `execute_outbox`: a command empties the mailbox that it reads and fills the one
  that it writes, if its operand has a value, and no other.
* `execute_of_inbox_none`: where the mailbox that it reads is empty a command does nothing.
* `execute_withInbox`: a command sees of the incoming mailboxes only the one that it reads.
* `step_cases`: all that a step can do.
-/

namespace NodeGrid.Node

variable {n : Node} {c : Command}

/-- The node with other incoming mailboxes. -/
def withInbox (n : Node) (inbox : Sides (Option Int32)) : Node := { n with inbox }

@[simp] theorem withInbox_inbox (n : Node) (i : Sides (Option Int32)) :
    (n.withInbox i).inbox = i := rfl

/-! ## Operands -/

theorem consume_eq_withInbox (n : Node) (o : Operand) :
    n.consume o = n.withInbox (n.consume o).inbox := by
  cases o <;> rfl

theorem consume_inbox (n : Node) (o : Operand) (e : Direction) :
    (n.consume o).inbox.get e = if o.side? = some e then none else n.inbox.get e := by
  cases o with
  | side d => simp [consume, Sides.get_set, Operand.side?, eq_comm]
  | _ => simp [consume, Operand.side?]

theorem consume_outbox (n : Node) (o : Operand) : (n.consume o).outbox = n.outbox := by
  rw [consume_eq_withInbox]
  rfl

theorem consume_of_inbox_none {d : Direction} (h : n.inbox.get d = none) :
    n.consume (.side d) = n := by
  have hinbox : (n.consume (.side d)).inbox = n.inbox := by
    apply Sides.ext_get
    intro e
    rw [consume_inbox]
    split
    · next he =>
      cases he
      exact h.symm
    · rfl
  rw [consume_eq_withInbox, hinbox]
  rfl

theorem write_outbox (n : Node) (value : Int32) (o : Operand) (e : Direction) :
    (n.write value o).outbox.get e = if o.side? = some e then some value else n.outbox.get e := by
  cases o with
  | side d => simp [write, Sides.get_set, Operand.side?, eq_comm]
  | _ => simp [write, Operand.side?]

theorem write_withInbox (n : Node) (i : Sides (Option Int32)) (value : Int32) (o : Operand) :
    (n.withInbox i).write value o = (n.write value o).withInbox i := by
  cases o <;> rfl

/-! ## Reading -/

section Reading

variable {use : Node → Int32 → Node} {o : Operand}

theorem reading_of_value?_none (h : n.value? o = none) : n.reading o use = (n, 0) := by
  rw [reading, h]

theorem reading_of_value?_some {value : Int32} (h : n.value? o = some value) :
    n.reading o use = (use (n.consume o) value, 1) := by
  rw [reading, h]

theorem reading_inbox (huse : ∀ m value, (use m value).inbox = m.inbox) (e : Direction) :
    (n.reading o use).1.inbox.get e = if o.side? = some e then none else n.inbox.get e := by
  cases hvalue : n.value? o with
  | some value => rw [reading_of_value?_some hvalue, huse, consume_inbox]
  | none =>
    rw [reading_of_value?_none hvalue]
    split
    · next he =>
      rw [Operand.side?_eq_some_iff.mp he] at hvalue
      exact hvalue
    · rfl

theorem reading_outbox (huse : ∀ m value, (use m value).outbox = m.outbox) :
    (n.reading o use).1.outbox = n.outbox := by
  cases hvalue : n.value? o with
  | some value => rw [reading_of_value?_some hvalue, huse, consume_outbox]
  | none => rw [reading_of_value?_none hvalue]

/-- What uses an operand sees the incoming mailboxes only through the value of it. -/
theorem reading_withInbox
    (huse : ∀ m i value, use (m.withInbox i) value = (use m value).withInbox i)
    {i : Sides (Option Int32)} (hi : (n.withInbox i).value? o = n.value? o) :
    ∃ j, (n.withInbox i).reading o use =
      ((n.reading o use).1.withInbox j, (n.reading o use).2) := by
  cases hvalue : n.value? o with
  | some value =>
    refine ⟨((n.withInbox i).consume o).inbox, ?_⟩
    rw [reading_of_value?_some hvalue, reading_of_value?_some (hi.trans hvalue),
      consume_eq_withInbox (n.withInbox i), consume_eq_withInbox n, huse, huse, huse]
    rfl
  | none =>
    refine ⟨i, ?_⟩
    rw [reading_of_value?_none hvalue, reading_of_value?_none (hi.trans hvalue)]

end Reading

/-! ## Commands -/

theorem execute_mov (h : c.opcode = .mov) :
    n.execute c = n.reading c.primary fun n value => n.write value c.secondary := by
  simp only [execute, h]

theorem execute_add (h : c.opcode = .add) :
    n.execute c = n.reading c.primary fun n value => { n with acc := n.acc + value } := by
  simp only [execute, h]

theorem execute_sub (h : c.opcode = .sub) :
    n.execute c = n.reading c.primary fun n value => { n with acc := n.acc - value } := by
  simp only [execute, h]

theorem execute_jro (h : c.opcode = .jro) :
    n.execute c = (n.consume c.primary, ((n.value? c.primary).getD 0).toInt) := by
  simp only [execute, h]

theorem execute_of_isLabelJump (h : c.opcode.isLabelJump) :
    n.execute c = (n, if c.opcode.isTaken n.acc then n.jumpDistance c.primary else 1) := by
  unfold execute
  cases hop : c.opcode <;> simp_all [Opcode.isLabelJump]

/-- A command that reads no value leaves all mailboxes alone. -/
theorem execute_of_not_readsValue (h : c.opcode.readsValue = false) (i : Sides (Option Int32)) :
    (n.withInbox i).execute c = ((n.execute c).1.withInbox i, (n.execute c).2) ∧
      (n.execute c).1.inbox = n.inbox ∧ (n.execute c).1.outbox = n.outbox := by
  unfold execute
  cases hop : c.opcode
  case mov | add | sub | jro => simp [hop, Opcode.readsValue] at h
  all_goals exact ⟨rfl, rfl, rfl⟩

theorem readsValue_cases (h : c.opcode.readsValue) :
    c.opcode = .mov ∨ c.opcode = .add ∨ c.opcode = .sub ∨ c.opcode = .jro := by
  cases hop : c.opcode <;> simp [hop, Opcode.readsValue] at h ⊢

/-- A command changes neither program nor links, and the counter moves only after it. -/
theorem execute_frame (n : Node) (c : Command) :
    (n.execute c).1.program = n.program ∧ (n.execute c).1.links = n.links ∧
      (n.execute c).1.pc = n.pc := by
  have hconsume := consume_eq_withInbox n c.primary
  unfold execute reading
  repeat' split
  all_goals first | exact ⟨rfl, rfl, rfl⟩ | rw [hconsume]
  all_goals first | exact ⟨rfl, rfl, rfl⟩ | skip
  cases c.secondary <;> exact ⟨rfl, rfl, rfl⟩

/-- A command empties the mailbox that it reads, and no other. -/
theorem execute_inbox (n : Node) (c : Command) (e : Direction) :
    (n.execute c).1.inbox.get e = if c.source? = some e then none else n.inbox.get e := by
  unfold Command.source?
  cases hreads : c.opcode.readsValue with
  | false => simp [(execute_of_not_readsValue hreads n.inbox).2.1]
  | true =>
    rw [if_pos rfl]
    rcases readsValue_cases hreads with hop | hop | hop | hop
    · rw [execute_mov hop]
      apply reading_inbox
      intro m value
      cases c.secondary <;> rfl
    · rw [execute_add hop]
      apply reading_inbox
      intro m value
      rfl
    · rw [execute_sub hop]
      apply reading_inbox
      intro m value
      rfl
    · rw [execute_jro hop]
      exact consume_inbox n c.primary e

/-- A command fills the mailbox that it writes, if its operand has a value, and no other. -/
theorem execute_outbox (n : Node) (c : Command) (e : Direction) :
    (n.execute c).1.outbox.get e =
      if c.destination? = some e then (n.value? c.primary).or (n.outbox.get e)
      else n.outbox.get e := by
  unfold Command.destination?
  cases hreads : c.opcode.readsValue with
  | false =>
    have hop : c.opcode ≠ .mov := fun hop => by simp [hop, Opcode.readsValue] at hreads
    simp [(execute_of_not_readsValue hreads n.inbox).2.2, hop]
  | true =>
    rcases readsValue_cases hreads with hop | hop | hop | hop
    · rw [execute_mov hop, if_pos hop]
      cases hvalue : n.value? c.primary with
      | some value =>
        rw [reading_of_value?_some hvalue, write_outbox, consume_outbox, Option.some_or]
      | none => simp [reading_of_value?_none hvalue]
    · have hadd : (n.execute c).1.outbox = n.outbox := by
        rw [execute_add hop]
        apply reading_outbox
        intro m value
        rfl
      simp [hadd, hop]
    · have hsub : (n.execute c).1.outbox = n.outbox := by
        rw [execute_sub hop]
        apply reading_outbox
        intro m value
        rfl
      simp [hsub, hop]
    · rw [execute_jro hop, consume_outbox]
      simp [hop]

/-- Where the mailbox that it reads is empty a command does nothing. -/
theorem execute_of_inbox_none {d : Direction} (hc : c.source? = some d)
    (h : n.inbox.get d = none) : n.execute c = (n, 0) := by
  obtain ⟨hreads, hprimary⟩ := Command.source?_eq_some_iff.mp hc
  have hvalue : n.value? c.primary = none := by rw [hprimary]; exact h
  rcases readsValue_cases hreads with hop | hop | hop | hop
  · rw [execute_mov hop, reading_of_value?_none hvalue]
  · rw [execute_add hop, reading_of_value?_none hvalue]
  · rw [execute_sub hop, reading_of_value?_none hvalue]
  · rw [execute_jro hop, hvalue, hprimary, consume_of_inbox_none h]
    rfl

/-- A command sees of the incoming mailboxes only the one that it reads. -/
theorem execute_withInbox {i : Sides (Option Int32)}
    (hi : ∀ d, c.source? = some d → i.get d = n.inbox.get d) :
    ∃ j, (n.withInbox i).execute c = ((n.execute c).1.withInbox j, (n.execute c).2) := by
  cases hreads : c.opcode.readsValue with
  | false => exact ⟨i, (execute_of_not_readsValue hreads i).1⟩
  | true =>
    have hvalue : (n.withInbox i).value? c.primary = n.value? c.primary := by
      cases hprimary : c.primary with
      | side d => exact hi d (Command.source?_eq_some_iff.mpr ⟨hreads, hprimary⟩)
      | _ => rfl
    rcases readsValue_cases hreads with hop | hop | hop | hop
    · rw [execute_mov hop, execute_mov hop]
      exact reading_withInbox (fun m i value => write_withInbox m i value _) hvalue
    · rw [execute_add hop, execute_add hop]
      exact reading_withInbox (fun _ _ _ => rfl) hvalue
    · rw [execute_sub hop, execute_sub hop]
      exact reading_withInbox (fun _ _ _ => rfl) hvalue
    · refine ⟨((n.withInbox i).consume c.primary).inbox, ?_⟩
      rw [execute_jro hop, execute_jro hop, hvalue, consume_eq_withInbox (n.withInbox i),
        consume_eq_withInbox n]
      rfl

/-! ## Steps -/

theorem wrap_of_lt (h : n.pc < n.program.length) : n.wrap = n := if_pos h

theorem wrap_eq (n : Node) : n.wrap = { n with pc := n.wrap.pc } := by
  unfold wrap
  split <;> rfl

theorem wrap_withInbox (n : Node) (i : Sides (Option Int32)) :
    n.wrap.withInbox i = (n.withInbox i).wrap :=
  apply_ite (fun m : Node => m.withInbox i) _ _ _

@[simp] theorem wrap_program (n : Node) : n.wrap.program = n.program := by rw [wrap_eq]

@[simp] theorem wrap_links (n : Node) : n.wrap.links = n.links := by rw [wrap_eq]

@[simp] theorem wrap_inbox (n : Node) : n.wrap.inbox = n.inbox := by rw [wrap_eq]

@[simp] theorem wrap_outbox (n : Node) : n.wrap.outbox = n.outbox := by rw [wrap_eq]

@[simp] theorem wrap_acc (n : Node) : n.wrap.acc = n.acc := by rw [wrap_eq]

@[simp] theorem wrap_isPending (n : Node) : n.wrap.isPending = n.isPending := by
  simp only [isPending, wrap_outbox]

theorem isPending_eq_false_iff : n.isPending = false ↔ ∀ d, n.outbox.get d = none := by
  simp [isPending, Direction.mem_all]

theorem mem_of_current? (h : n.current? = some c) : c ∈ n.program := List.mem_of_getElem? h

theorem lt_length_of_current? (h : n.current? = some c) : n.pc < n.program.length := by
  obtain ⟨hlt, _⟩ := List.getElem?_eq_some_iff.mp h
  exact hlt

theorem step_of_isPending (h : n.isPending) : n.step = (n.wrap, .writeBlocked) := by
  simp only [step, wrap_isPending, h, if_true]

theorem step_of_current?_none (h : n.isPending = false) (hc : n.wrap.current? = none) :
    n.step = (n.wrap, .idle) := by
  simp only [step, wrap_isPending, h, hc, Bool.false_eq_true, if_false]

theorem step_of_current?_some (h : n.isPending = false) (hc : n.wrap.current? = some c) :
    n.step = n.wrap.run c := by
  simp only [step, wrap_isPending, h, hc, Bool.false_eq_true, if_false]

/-- A step waits for a value to be taken, finds no command, or runs the current one. -/
theorem step_cases (n : Node) :
    (n.isPending ∧ n.step = (n.wrap, .writeBlocked)) ∨
      (n.isPending = false ∧ n.wrap.current? = none ∧ n.step = (n.wrap, .idle)) ∨
      ∃ c, n.isPending = false ∧ n.wrap.current? = some c ∧ n.step = n.wrap.run c := by
  cases hpending : n.isPending with
  | true => exact Or.inl ⟨rfl, step_of_isPending hpending⟩
  | false =>
    cases hc : n.wrap.current? with
    | none => exact Or.inr (Or.inl ⟨rfl, rfl, step_of_current?_none hpending hc⟩)
    | some c => exact Or.inr (Or.inr ⟨c, rfl, rfl, step_of_current?_some hpending hc⟩)

/-- A jump whose condition holds moves the counter by the distance to the label that it finds. -/
theorem step_eq_move_of_isTaken (hpending : n.isPending = false) (hc : n.wrap.current? = some c)
    (hjump : c.opcode.isLabelJump) (htaken : c.opcode.isTaken n.acc) {target : String}
    (hprimary : c.primary = .text target) {label : Command}
    (hlabel : n.program.findLabel? target = some label) :
    n.step.1 = n.wrap.move (Line.distance n.wrap.pc label.line) := by
  have htarget : c.primary.word?.bind n.wrap.program.findLabel? = some label := by
    rw [hprimary, wrap_program]
    exact hlabel
  have hexecute : n.wrap.execute c = (n.wrap, Line.distance n.wrap.pc label.line) := by
    rw [execute_of_isLabelJump hjump, wrap_acc, if_pos htaken, jumpDistance, htarget]
  rw [step_of_current?_some hpending hc]
  unfold run
  rw [hexecute]

theorem step_frame (n : Node) : n.step.1.program = n.program ∧ n.step.1.links = n.links := by
  rcases step_cases n with ⟨_, hstep⟩ | ⟨_, _, hstep⟩ | ⟨c, _, _, hstep⟩
  · rw [hstep]
    exact ⟨wrap_program n, wrap_links n⟩
  · rw [hstep]
    exact ⟨wrap_program n, wrap_links n⟩
  · obtain ⟨hprogram, hlinks, _⟩ := execute_frame n.wrap c
    rw [hstep]
    exact ⟨hprogram.trans (wrap_program n), hlinks.trans (wrap_links n)⟩

/-- A step empties a mailbox or leaves it as it is. -/
theorem step_inbox (n : Node) (e : Direction) :
    n.step.1.inbox.get e = none ∨ n.step.1.inbox.get e = n.inbox.get e := by
  rcases step_cases n with ⟨_, hstep⟩ | ⟨_, _, hstep⟩ | ⟨c, _, _, hstep⟩
  · exact Or.inr (by rw [hstep, wrap_inbox])
  · exact Or.inr (by rw [hstep, wrap_inbox])
  · have hrun : n.step.1.inbox.get e = if c.source? = some e then none else n.inbox.get e := by
      rw [hstep, ← wrap_inbox n]
      exact execute_inbox n.wrap c e
    split at hrun
    · exact Or.inl hrun
    · exact Or.inr hrun

/-- A step fills no mailbox but those that commands of the program write. -/
theorem step_outbox {e : Direction} (hfull : n.step.1.outbox.get e ≠ none) :
    n.outbox.get e ≠ none ∨ ∃ c ∈ n.program, c.destination? = some e := by
  rcases step_cases n with ⟨_, hstep⟩ | ⟨_, _, hstep⟩ | ⟨c, _, hc, hstep⟩
  · rw [hstep, wrap_outbox] at hfull
    exact Or.inl hfull
  · rw [hstep, wrap_outbox] at hfull
    exact Or.inl hfull
  · rw [hstep] at hfull
    change (n.wrap.execute c).1.outbox.get e ≠ none at hfull
    rw [execute_outbox] at hfull
    split at hfull
    · next hdestination =>
      have hmem := mem_of_current? hc
      rw [wrap_program] at hmem
      exact Or.inr ⟨c, hmem, hdestination⟩
    · rw [wrap_outbox] at hfull
      exact Or.inl hfull

/-- A step waits for a value to be taken exactly where one is still there. -/
theorem step_writeBlocked_iff : n.step.2 = .writeBlocked ↔ n.isPending := by
  rcases step_cases n with ⟨hpending, hstep⟩ | ⟨hpending, _, hstep⟩ | ⟨c, hpending, _, hstep⟩
  · simp [hstep, hpending]
  · simp [hstep, hpending]
  · have hrun : (n.wrap.run c).2 ≠ .writeBlocked := by
      unfold run
      dsimp only
      split <;> simp
    simp [hstep, hpending, hrun]

end NodeGrid.Node
