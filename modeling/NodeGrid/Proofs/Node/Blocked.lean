import NodeGrid.Proofs.Node.Operations
import NodeGrid.Proofs.Node.Waiting

/-!
# Steps that do not go through

A command takes the value that it reads out of its mailbox, and the counter is wrapped before it is
seen whether anything can run. So it has to be shown that a step that reports no progress has made
none, and that the next one finds what this one found.

* `execute_of_eq_zero`: a command that does not move the counter, relative jumps apart, does
  nothing.
* `step_eq_wrap`: a step that does not go through only wraps the counter.
* `step_withLinks`: no step looks at the links, which may change while a node waits.
* `step_stays_of_ne_executed`: a node that waits goes on to wait, until a value comes or is taken or
  it gets another program.
-/

namespace NodeGrid.Node

variable {n : Node} {c : Command}

/-! ## What is left unchanged -/

/-- Relative jumps apart, a command that does not move the counter changes nothing else either. -/
theorem execute_of_eq_zero (hop : c.opcode ≠ .jro) (h : (n.execute c).2 = 0) :
    n.execute c = (n, 0) := by
  rcases (execute_eq_zero_iff hop).mp h with ⟨hreads, hvalue⟩ | ⟨hjump, -, -⟩
  · rcases readsValue_cases hreads with hmov | hadd | hsub | hjro
    · rw [execute_mov hmov, reading_of_value?_none hvalue]
    · rw [execute_add hadd, reading_of_value?_none hvalue]
    · rw [execute_sub hsub, reading_of_value?_none hvalue]
    · exact absurd hjro hop
  · rw [execute_of_isLabelJump hjump] at h ⊢
    exact Prod.ext rfl h

theorem run_of_ne_executed (h : (n.run c).2 ≠ .executed) : n.run c = (n, .readBlocked) := by
  by_cases hstays : (n.execute c).2 = 0 ∧ c.opcode ≠ .jro
  · obtain ⟨hzero, hop⟩ := hstays
    rw [run, execute_of_eq_zero hop hzero]
    simp [hop, move_zero]
  · exact absurd (if_neg hstays) h

/-- A step that does not go through only wraps the counter. -/
theorem step_eq_wrap (h : n.step.2 ≠ .executed) : n.step.1 = n.wrap := by
  rcases step_cases n with ⟨-, hstep⟩ | ⟨-, -, hstep⟩ | ⟨c, -, -, hstep⟩
  · rw [hstep]
  · rw [hstep]
  · rw [hstep] at h ⊢
    rw [run_of_ne_executed h]

theorem step_wrap (n : Node) : n.wrap.step = n.step := by
  simp only [step, wrap_wrap]

/-- So the next step finds what this one found. -/
theorem step_step (h : n.step.2 ≠ .executed) : n.step.1.step = n.step := by
  rw [step_eq_wrap h, step_wrap]

/-! ## Links -/

/-- The node linked on other sides. -/
def withLinks (n : Node) (links : LinkSet) : Node := { n with links }

section Links

variable (n) (links : LinkSet)

theorem value?_withLinks (o : Operand) : (n.withLinks links).value? o = n.value? o := by
  cases o <;> rfl

theorem consume_withLinks (o : Operand) :
    (n.withLinks links).consume o = (n.consume o).withLinks links := by
  cases o <;> rfl

theorem write_withLinks (value : Int32) (o : Operand) :
    (n.withLinks links).write value o = (n.write value o).withLinks links := by
  cases o <;> rfl

theorem reading_withLinks {use : Node → Int32 → Node}
    (huse : ∀ m value, use (m.withLinks links) value = (use m value).withLinks links)
    (o : Operand) : (n.withLinks links).reading o use =
      ((n.reading o use).1.withLinks links, (n.reading o use).2) := by
  cases hvalue : n.value? o with
  | none =>
    rw [reading_of_value?_none hvalue, reading_of_value?_none (by rw [value?_withLinks, hvalue])]
  | some value =>
    rw [reading_of_value?_some hvalue, reading_of_value?_some (by rw [value?_withLinks, hvalue]),
      consume_withLinks, huse]

theorem execute_withLinks (c : Command) :
    (n.withLinks links).execute c = ((n.execute c).1.withLinks links, (n.execute c).2) := by
  cases hop : c.opcode with
  | mov =>
    rw [execute_mov hop, execute_mov hop]
    exact reading_withLinks n links (fun m value => write_withLinks m links value _) _
  | add =>
    rw [execute_add hop, execute_add hop]
    exact reading_withLinks n links (fun _ _ => rfl) _
  | sub =>
    rw [execute_sub hop, execute_sub hop]
    exact reading_withLinks n links (fun _ _ => rfl) _
  | jro => rw [execute_jro hop, execute_jro hop, consume_withLinks, value?_withLinks]
  | lbl | nop | swp | sav | neg => simp only [execute, hop, withLinks]
  | jmp | jez | jnz | jgz | jlz =>
    have hjump : c.opcode.isLabelJump := by rw [hop]; rfl
    rw [execute_of_isLabelJump hjump, execute_of_isLabelJump hjump]
    rfl

theorem wrap_withLinks : (n.withLinks links).wrap = n.wrap.withLinks links :=
  (apply_ite (withLinks · links) (n.pc < n.program.length) n { n with pc := 0 }).symm

theorem run_withLinks (c : Command) :
    (n.withLinks links).run c = ((n.run c).1.withLinks links, (n.run c).2) := by
  unfold run
  rw [execute_withLinks]
  rfl

/-- No step looks at the links or changes them. -/
theorem step_withLinks : (n.withLinks links).step = (n.step.1.withLinks links, n.step.2) := by
  rcases step_cases n with ⟨hpending, hstep⟩ | ⟨hpending, hc, hstep⟩ | ⟨c, hpending, hc, hstep⟩
  · rw [hstep, ← wrap_withLinks]
    exact step_of_isPending hpending
  · rw [hstep, ← wrap_withLinks]
    exact step_of_current?_none hpending (by rw [wrap_withLinks]; exact hc)
  · rw [hstep, ← run_withLinks, ← wrap_withLinks]
    exact step_of_current?_some hpending (by rw [wrap_withLinks]; exact hc)

end Links

/-! ## Waiting on -/

/-- Whether an operation brings no value, takes none and leaves the program. -/
def Operation.isQuiet : Operation → Bool
  | .relink _ | .link _ | .act .step => true
  | .install _ | .act (.receive _ _) | .act (.release _) => false

theorem perform_of_isQuiet {op : Operation} (hrest : n.step.1 = n) (hop : op.isQuiet) :
    n.perform op = n.withLinks (n.perform op).links := by
  cases op with
  | relink directions | link d => rfl
  | install program => cases hop
  | act a =>
    cases a with
    | step =>
      have hstep : n.perform (.act .step) = n := hrest
      rw [hstep]
      rfl
    | receive d value => cases hop
    | release d => cases hop

/-- Of a node at rest such operations change only the links. -/
theorem performAll_of_isQuiet {ops : List Operation} (hrest : n.step.1 = n)
    (hops : ∀ op ∈ ops, op.isQuiet) :
    n.performAll ops = n.withLinks (n.performAll ops).links := by
  induction ops generalizing n with
  | nil => rfl
  | cons op ops ih =>
    rw [List.forall_mem_cons] at hops
    have hperform := perform_of_isQuiet hrest hops.1
    have hlinked : (n.perform op).step.1 = n.perform op := by
      rw [hperform, step_withLinks, hrest]
    calc
      n.performAll (op :: ops) = (n.perform op).performAll ops := rfl
      _ = (n.perform op).withLinks ((n.perform op).performAll ops).links := ih hlinked hops.2
      _ = (n.withLinks (n.perform op).links).withLinks ((n.perform op).performAll ops).links :=
        congrArg (withLinks · _) hperform
      _ = n.withLinks (n.performAll (op :: ops)).links := rfl

/-- A step that does not go through changes nothing but a counter past the end, which it sets back.
All further steps report the same and change nothing, and while the node is linked anew in between
they still do, until a value comes or is taken or there is another program. -/
theorem step_stays_of_ne_executed (h : n.step.2 ≠ .executed) :
    n.step.1 = { n with pc := if n.pc < n.program.length then n.pc else 0 } ∧
      (∀ k, ((fun m : Node => m.step.1)^[k] n).step = n.step) ∧
      ∀ ops : List Operation, (∀ op ∈ ops, op.isQuiet) →
        n.step.1.performAll ops = n.step.1.withLinks (n.step.1.performAll ops).links ∧
          (n.step.1.performAll ops).step = (n.step.1.performAll ops, n.step.2) := by
  have hrest : n.step.1.step.1 = n.step.1 := by rw [step_step h]
  refine ⟨?_, ?_, ?_⟩
  · rw [step_eq_wrap h]
    unfold wrap
    split <;> rfl
  · intro k
    cases k with
    | zero => rfl
    | succ k =>
      rw [Function.iterate_succ_apply]
      exact (congrArg step (Function.iterate_fixed hrest k)).trans (step_step h)
  · intro ops hops
    have hlinks := performAll_of_isQuiet hrest hops
    refine ⟨hlinks, ?_⟩
    rw [hlinks, step_withLinks, step_step h]

/-- The loop with its counter past the end: it starts again, and waits for a value from above
however it is linked. -/
theorem step_stays_of_ne_executed_keeping :
    (keeping 2).step.2 = .readBlocked ∧ (keeping 2).step.1 = keeping 0 ∧
      ((fun m : Node => m.step.1)^[100] (keeping 2)).step = (keeping 0, .readBlocked) ∧
      ((keeping 0).performAll [.link .left, .act .step, .relink []]).step.2 = .readBlocked := by
  have hwaits : (keeping 2).step.2 = .readBlocked := by decide
  obtain ⟨hwrap, hsteps, hquiet⟩ :=
    step_stays_of_ne_executed (n := keeping 2) (by rw [hwaits]; decide)
  have hstart : (keeping 2).step.1 = keeping 0 := hwrap
  refine ⟨hwaits, hstart, (hsteps 100).trans (Prod.ext hstart hwaits), ?_⟩
  have hlinked := (hquiet [.link .left, .act .step, .relink []] (by decide)).2
  rw [hstart, hwaits] at hlinked
  rw [hlinked]

end NodeGrid.Node
