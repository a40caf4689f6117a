import NodeGrid.Proofs.Node.Streams
import NodeGrid.Proofs.Program.Clean

/-!
# The sides that a node uses

A step reads from the side that the next command takes its value from, also where no value is there,
and writes to the side that the command sends its value to. These are all the mailboxes that matter
to a step and that a step changes.

* `reads_of_inbox_ne`, `writes_of_outbox_ne`, `step_withInbox`: no other mailbox is changed by a
  step, and no other incoming one is looked at.
* `uses_linked_iff`: in any run a program without faults writes to linked sides only, and the sides
  that it reads from are linked unless a relative jump reads from another one.
* `not_reads_linked`: such a jump may wait for a side that nothing is connected with.
-/

namespace NodeGrid.Node

variable {n : Node} {c : Command} {d : Direction}

/-! ## The command that runs -/

/-- The command that the next step runs: none as long as a value waits to be taken. -/
def next? (n : Node) : Option Command := if n.isPending then none else n.wrap.current?

/-- Whether the next step takes a value from side `d`, or waits for one. -/
def Reads (n : Node) (d : Direction) : Prop := ∃ c, n.next? = some c ∧ c.source? = some d

/-- Whether the next step runs a command that sends its value to side `d`. -/
def Writes (n : Node) (d : Direction) : Prop := ∃ c, n.next? = some c ∧ c.destination? = some d

theorem next?_eq_some_iff :
    n.next? = some c ↔ n.isPending = false ∧ n.wrap.current? = some c := by
  unfold next?
  cases n.isPending <;> simp

theorem mem_of_next? (h : n.next? = some c) : c ∈ n.program :=
  wrap_program n ▸ mem_of_current? (next?_eq_some_iff.mp h).2

theorem wrap_pc_lt_of_next? (h : n.next? = some c) : n.wrap.pc < n.program.length :=
  wrap_program n ▸ lt_length_of_current? (next?_eq_some_iff.mp h).2

/-- A step only wraps the counter, or it runs the next command. -/
theorem step_cases_next? (n : Node) :
    n.step.1 = n.wrap ∨ ∃ c, n.next? = some c ∧ n.step = n.wrap.run c := by
  rcases step_cases n with ⟨-, hstep⟩ | ⟨-, -, hstep⟩ | ⟨c, hpending, hc, hstep⟩
  · exact Or.inl (by rw [hstep])
  · exact Or.inl (by rw [hstep])
  · exact Or.inr ⟨c, next?_eq_some_iff.mpr ⟨hpending, hc⟩, hstep⟩

theorem reads_of_inbox_ne (h : n.step.1.inbox.get d ≠ n.inbox.get d) : n.Reads d := by
  rcases step_cases_next? n with hstep | ⟨c, hc, hstep⟩
  · rw [hstep, wrap_inbox] at h
    exact absurd rfl h
  · have hrun : (n.wrap.run c).1.inbox.get d = (n.wrap.execute c).1.inbox.get d := rfl
    rw [hstep, hrun, execute_inbox, wrap_inbox] at h
    split at h
    · next hsource => exact ⟨c, hc, hsource⟩
    · exact absurd rfl h

theorem writes_of_outbox_ne (h : n.step.1.outbox.get d ≠ n.outbox.get d) : n.Writes d := by
  rcases step_cases_next? n with hstep | ⟨c, hc, hstep⟩
  · rw [hstep, wrap_outbox] at h
    exact absurd rfl h
  · have hrun : (n.wrap.run c).1.outbox.get d = (n.wrap.execute c).1.outbox.get d := rfl
    rw [hstep, hrun, execute_outbox, wrap_outbox] at h
    split at h
    · next hdestination => exact ⟨c, hc, hdestination⟩
    · exact absurd rfl h

/-- What is in the mailboxes that a step does not read makes no difference to it. -/
theorem step_withInbox {i : Sides (Option Int32)}
    (hi : ∀ d, n.Reads d → i.get d = n.inbox.get d) :
    ∃ j, (n.withInbox i).step = (n.step.1.withInbox j, n.step.2) := by
  have hwrap : (n.withInbox i).wrap = n.wrap.withInbox i := (wrap_withInbox n i).symm
  have hpending : (n.withInbox i).isPending = n.isPending := rfl
  have hcurrent : (n.withInbox i).wrap.current? = n.wrap.current? := by
    rw [hwrap]
    rfl
  rcases step_cases n with ⟨hp, hstep⟩ | ⟨hp, hnone, hstep⟩ | ⟨c, hp, hc, hstep⟩
  · exact ⟨i, by rw [step_of_isPending (hpending.trans hp), hstep, hwrap]⟩
  · refine ⟨i, ?_⟩
    rw [step_of_current?_none (hpending.trans hp) (hcurrent.trans hnone), hstep, hwrap]
  · have hsource : ∀ e, c.source? = some e → i.get e = n.wrap.inbox.get e := by
      intro e he
      rw [wrap_inbox]
      exact hi e ⟨c, next?_eq_some_iff.mpr ⟨hp, hc⟩, he⟩
    obtain ⟨j, hexecute⟩ := execute_withInbox hsource
    refine ⟨j, ?_⟩
    rw [step_of_current?_some (hpending.trans hp) (hcurrent.trans hc), hstep, hwrap]
    unfold run
    rw [hexecute]
    rfl

/-! ## Runs -/

theorem act_frame (n : Node) (a : Action) :
    (n.act a).program = n.program ∧ (n.act a).links = n.links := by
  cases a with
  | step => exact step_frame n
  | receive e value =>
    show (n.receive e value).program = n.program ∧ (n.receive e value).links = n.links
    unfold receive
    split <;> exact ⟨rfl, rfl⟩
  | release e => exact ⟨rfl, rfl⟩

/-- A run changes neither program nor links. -/
theorem after_frame (n : Node) (as : List Action) :
    (n.after as).program = n.program ∧ (n.after as).links = n.links := by
  induction as generalizing n with
  | nil => exact ⟨rfl, rfl⟩
  | cons a as ih =>
    obtain ⟨hprogram, hlinks⟩ := act_frame n a
    obtain ⟨hprogram', hlinks'⟩ := ih (n.act a)
    exact ⟨hprogram'.trans hprogram, hlinks'.trans hlinks⟩

/-- In a run of a program without faults all sides that are written to are linked, and so are those
that are read from, exactly as long as no relative jump reads from another one. -/
theorem uses_linked_iff (hclean : n.program.faults n.links = []) (as : List Action) :
    (∀ d, (n.after as).Writes d → d ∈ n.links) ∧
      ((∀ d, (n.after as).Reads d → d ∈ n.links) ↔
        ∀ c d, (n.after as).next? = some c → c.opcode = .jro → c.primary = .side d →
          d ∈ n.links) := by
  have hprogram := (after_frame n as).1
  refine ⟨?_, ?_, ?_⟩
  · rintro d ⟨c, hc, hdestination⟩
    exact Program.mem_of_destination? hclean (hprogram ▸ mem_of_next? hc) hdestination
  · intro h c d hc hop hprimary
    have hreads : c.opcode.readsValue := by
      rw [hop]
      rfl
    exact h d ⟨c, hc, Command.source?_eq_some_iff.mpr ⟨hreads, hprimary⟩⟩
  · rintro h d ⟨c, hc, hsource⟩
    by_cases hop : c.opcode = .jro
    · exact h c d hc hop (Command.source?_eq_some_iff.mp hsource).2
    · exact Program.mem_of_source? hclean (hprogram ▸ mem_of_next? hc) hsource hop

/-- A loop that sends on what comes from the left and jumps by what comes from above. -/
def steered : Program :=
  [{ line := 0, opcode := .mov, primary := .side .left, secondary := .side .right },
    { line := 1, opcode := .jro, primary := .side .up }]

/-- The jump reads from a side that is linked. -/
theorem uses_linked_steered :
    steered.faults (.ofList [.up, .left, .right]) = [] ∧
      ∀ d, (({ links := .ofList [.up, .left, .right], program := steered } : Node).after
        [.receive .left 5, .step, .release .right]).Reads d →
          d ∈ LinkSet.ofList [.up, .left, .right] := by
  have hclean : steered.faults (.ofList [.up, .left, .right]) = [] := by decide
  refine ⟨hclean, (@uses_linked_iff { links := _, program := steered } hclean _).2.mpr ?_⟩
  intro c d hc _ hprimary
  cases hc
  cases hprimary
  decide

/-- A jump by what comes from a side that is not linked. -/
theorem not_reads_linked :
    ¬ ∀ (links : LinkSet) (text : String) (program : Program) (as : List Action) (d : Direction),
      Program.parse text = .ok program → program.faults links = [] →
      (({ links, program } : Node).after as).Reads d → d ∈ links := by
  intro h
  have hlinked := h .empty "JRO UP" [{ line := 0, opcode := .jro, primary := .side .up }] [] .up rfl
    (by decide) ⟨_, rfl, rfl⟩
  exact absurd hlinked (by decide)

end NodeGrid.Node
