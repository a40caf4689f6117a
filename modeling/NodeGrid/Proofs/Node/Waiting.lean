import NodeGrid.Proofs.Node.Faultless
import NodeGrid.Proofs.Node.Jumps
import NodeGrid.Proofs.Node.LinkedSides

/-!
# Steps that report that they wait

What a step reports is read off the distance by which its command moves the counter: a command other
than a relative jump that does not move it is taken to wait. So it has to be seen which commands do
not move it.

* `execute_eq_zero_iff`: those that find no value, and label jumps onto their own place.
* `step_readBlocked_iff_or`: a program without faults only fails to find a value on a side.
* `step_readBlocked_iff`: so, jumps onto their own place apart, a step reports that it waits exactly
  if it does. Relative jumps never wait: where there is no value they jump by 0, and go through.
* `not_readBlocked_iff_reads`: hence not every command that reads from an empty mailbox is reported.
-/

namespace NodeGrid

/-- Within the range of a word only a line is no distance away from itself. -/
theorem Line.distance_eq_zero_iff {start finish : Nat} (hs : start < 2 ^ 63)
    (hf : finish < 2 ^ 63) : distance start finish = 0 ↔ finish = start := by
  rw [distance_eq_of_lt hs hf]
  omega

namespace Node

variable {n : Node} {c : Command} {d : Direction}

/-! ## Commands that do not move the counter -/

/-- Only a relative jump may stay where it is without being taken to wait. -/
theorem run_readBlocked_iff :
    (n.run c).2 = .readBlocked ↔ (n.execute c).2 = 0 ∧ c.opcode ≠ .jro := by
  unfold run
  dsimp only
  split <;> simp_all

theorem reading_eq_zero_iff {o : Operand} {use : Node → Int32 → Node} :
    (n.reading o use).2 = 0 ↔ n.value? o = none := by
  cases hvalue : n.value? o with
  | none => simp [reading_of_value?_none hvalue]
  | some value => simp [reading_of_value?_some hvalue]

/-- Relative jumps apart, a command does not move the counter if it reads a value that is not there,
or if it is a jump that is taken over no distance. -/
theorem execute_eq_zero_iff (hop : c.opcode ≠ .jro) :
    (n.execute c).2 = 0 ↔ (c.opcode.readsValue ∧ n.value? c.primary = none) ∨
      (c.opcode.isLabelJump ∧ c.opcode.isTaken n.acc ∧ n.jumpDistance c.primary = 0) := by
  cases hopcode : c.opcode with
  | jro => exact absurd hopcode hop
  | mov => simp [execute_mov hopcode, reading_eq_zero_iff, Opcode.readsValue, Opcode.isLabelJump]
  | add => simp [execute_add hopcode, reading_eq_zero_iff, Opcode.readsValue, Opcode.isLabelJump]
  | sub => simp [execute_sub hopcode, reading_eq_zero_iff, Opcode.readsValue, Opcode.isLabelJump]
  | lbl | nop | swp | sav | neg =>
    simp [execute, hopcode, Opcode.readsValue, Opcode.isLabelJump]
  | jmp | jez | jnz | jgz | jlz =>
    have hjump : c.opcode.isLabelJump := by rw [hopcode]; rfl
    rw [execute_of_isLabelJump hjump, hopcode]
    simp only [Opcode.readsValue, Opcode.isLabelJump, Bool.false_eq_true, false_and, false_or,
      true_and]
    split <;> simp_all

/-! ## Waiting -/

/-- The next command moves, adds or subtracts a value from a side where there is none. -/
def AwaitsValue (n : Node) : Prop :=
  ∃ c d, n.next? = some c ∧ (c.opcode = .mov ∨ c.opcode = .add ∨ c.opcode = .sub) ∧
    c.primary = .side d ∧ n.inbox.get d = none

/-- The next command is a jump that is taken, to a label on the line with the number of its own
place. -/
def JumpsInPlace (n : Node) : Prop :=
  ∃ c target label, n.next? = some c ∧ c.opcode.isLabelJump ∧ c.opcode.isTaken n.acc ∧
    c.primary = .text target ∧ n.program.findLabel? target = some label ∧ label.line = n.wrap.pc

theorem awaitsValue_iff (hclean : n.program.faults n.links = []) (hc : n.next? = some c)
    (hop : c.opcode ≠ .jro) :
    n.AwaitsValue ↔ c.opcode.readsValue ∧ n.value? c.primary = none := by
  constructor
  · rintro ⟨c', d, hc', hreads, hside, hnone⟩
    obtain rfl : c = c' := Option.some.inj (hc.symm.trans hc')
    refine ⟨?_, by rw [hside]; exact hnone⟩
    rcases hreads with h | h | h <;> rw [h] <;> rfl
  · rintro ⟨hreads, hvalue⟩
    have hsource := Program.isNumericSource_primary hclean (mem_of_next? hc) hreads
    obtain ⟨d, hside, hnone⟩ := (value?_eq_none_iff hsource).mp hvalue
    rcases readsValue_cases hreads with h | h | h | h
    · exact ⟨c, d, hc, Or.inl h, hside, hnone⟩
    · exact ⟨c, d, hc, Or.inr (Or.inl h), hside, hnone⟩
    · exact ⟨c, d, hc, Or.inr (Or.inr h), hside, hnone⟩
    · exact absurd h hop

theorem jumpsInPlace_iff {text : String} (hsize : text.length < 2 ^ 63)
    (hparse : Program.parse text = .ok n.program) (hclean : n.program.faults n.links = [])
    (hc : n.next? = some c) :
    n.JumpsInPlace ↔
      c.opcode.isLabelJump ∧ c.opcode.isTaken n.acc ∧ n.wrap.jumpDistance c.primary = 0 := by
  have hplace : n.wrap.pc < 2 ^ 63 := by
    have hlt := wrap_pc_lt_of_next? hc
    have hlength := Program.length_parse_le hparse
    omega
  have hzero {target : String} {label : Command} (hprimary : c.primary = .text target)
      (hlabel : n.program.findLabel? target = some label) :
      n.wrap.jumpDistance c.primary = 0 ↔ label.line = n.wrap.pc := by
    have hword : c.primary.word?.bind n.wrap.program.findLabel? = some label := by
      rw [hprimary, wrap_program]
      exact hlabel
    have hline := Program.line_parse_lt hparse (Program.findLabel?_eq_some hlabel).1
    rw [jumpDistance, hword]
    exact Line.distance_eq_zero_iff hplace (by omega)
  constructor
  · rintro ⟨c', target, label, hc', hjump, htaken, hprimary, hlabel, hline⟩
    obtain rfl : c = c' := Option.some.inj (hc.symm.trans hc')
    exact ⟨hjump, htaken, (hzero hprimary hlabel).mpr hline⟩
  · rintro ⟨hjump, htaken, hdistance⟩
    obtain ⟨target, label, hprimary, hlabel⟩ :=
      Program.exists_label_of_isLabelJump hclean (mem_of_next? hc) hjump
    exact ⟨c, target, label, hc, hjump, htaken, hprimary, hlabel,
      (hzero hprimary hlabel).mp hdistance⟩

/-! ## Reports -/

/-- Without a next command nothing is reported to wait for a value. -/
theorem step_ne_readBlocked (hnone : n.next? = none) : n.step.2 ≠ .readBlocked := by
  rcases step_cases n with ⟨-, hstep⟩ | ⟨-, -, hstep⟩ | ⟨c, hpending, hc, -⟩
  · simp [hstep]
  · simp [hstep]
  · rw [next?_eq_some_iff.mpr ⟨hpending, hc⟩] at hnone
    cases hnone

theorem step_of_next? (hc : n.next? = some c) : n.step = n.wrap.run c := by
  obtain ⟨hpending, hcurrent⟩ := next?_eq_some_iff.mp hc
  exact step_of_current?_some hpending hcurrent

/-- In a program without faults a step is reported to wait if its command waits for a side, or is a
jump onto its own place. -/
theorem step_readBlocked_iff_or {text : String} (hsize : text.length < 2 ^ 63)
    (hparse : Program.parse text = .ok n.program) (hclean : n.program.faults n.links = []) :
    n.step.2 = .readBlocked ↔ n.AwaitsValue ∨ n.JumpsInPlace := by
  cases hc : n.next? with
  | none => simp [step_ne_readBlocked hc, AwaitsValue, JumpsInPlace, hc]
  | some c =>
    have hvalue : n.wrap.value? c.primary = n.value? c.primary := by
      cases c.primary <;> simp [value?]
    rw [step_of_next? hc, run_readBlocked_iff, jumpsInPlace_iff hsize hparse hclean hc]
    by_cases hop : c.opcode = .jro
    · have hawaits : ¬ n.AwaitsValue := by
        rintro ⟨c', d, hc', hreads, -⟩
        obtain rfl : c = c' := Option.some.inj (hc.symm.trans hc')
        simp [hop] at hreads
      simp [hop, hawaits, Opcode.isLabelJump]
    · rw [execute_eq_zero_iff hop, awaitsValue_iff hclean hc hop, hvalue, wrap_acc]
      simp [hop]

/-- In a program without faults a step, unless it is a jump onto its own place, reports that it
waits exactly if its command moves, adds or subtracts a value from a side where there is none. A
relative jump by such a value goes through and changes nothing. -/
theorem step_readBlocked_iff {text : String} (hsize : text.length < 2 ^ 63)
    (hparse : Program.parse text = .ok n.program) (hclean : n.program.faults n.links = [])
    (hjump : ¬ n.JumpsInPlace) :
    (n.step.2 = .readBlocked ↔ n.AwaitsValue) ∧
      ∀ c d, n.next? = some c → c.opcode = .jro → c.primary = .side d → n.inbox.get d = none →
        n.step = (n.wrap, .executed) := by
  refine ⟨by rw [step_readBlocked_iff_or hsize hparse hclean, or_iff_left hjump], ?_⟩
  intro c d hc hop hside hnone
  have hsource : c.source? = some d :=
    Command.source?_eq_some_iff.mpr ⟨by rw [hop]; rfl, hside⟩
  have hexecute : n.wrap.execute c = (n.wrap, 0) :=
    execute_of_inbox_none hsource (by rwa [wrap_inbox])
  rw [step_of_next? hc, run, hexecute]
  simp [hop, move_zero]

/-- A loop that keeps what comes from above, and jumps by what comes next. -/
def keeping (pc : Nat) : Node :=
  { pc, links := .ofList [.up]
    program := [{ line := 0, opcode := .mov, primary := .side .up, secondary := .acc },
      { line := 1, opcode := .jro, primary := .side .up }] }

theorem not_jumpsInPlace_keeping (pc : Nat) : ¬ (keeping pc).JumpsInPlace := by
  rintro ⟨c, -, -, hc, hjump, -⟩
  have hmem := mem_of_next? hc
  simp only [keeping, List.mem_cons, List.not_mem_nil, or_false] at hmem
  rcases hmem with rfl | rfl <;> cases hjump

/-- Where nothing has come the first command waits and the second one goes through. -/
theorem step_readBlocked_keeping :
    Program.parse "MOV UP ACC\nJRO UP" = .ok (keeping 0).program ∧
      (keeping 0).program.faults (keeping 0).links = [] ∧
      (keeping 0).step.2 = .readBlocked ∧ (keeping 1).step = (keeping 1, .executed) := by
  have hsize : "MOV UP ACC\nJRO UP".length < 2 ^ 63 := by decide
  have hparse : Program.parse "MOV UP ACC\nJRO UP" = .ok (keeping 0).program := rfl
  have hclean : (keeping 0).program.faults (keeping 0).links = [] := by decide
  obtain ⟨hwaits, -⟩ := step_readBlocked_iff hsize hparse hclean (not_jumpsInPlace_keeping 0)
  obtain ⟨-, hthrough⟩ := @step_readBlocked_iff (keeping 1) _ hsize hparse hclean
    (not_jumpsInPlace_keeping 1)
  exact ⟨hparse, hclean, hwaits.mpr ⟨_, .up, rfl, Or.inl rfl, rfl, rfl⟩,
    hthrough _ .up rfl rfl rfl rfl⟩

/-- A jump by what comes from above. -/
def following : Node :=
  { links := .ofList [.up], program := [{ line := 0, opcode := .jro, primary := .side .up }] }

/-- A relative jump by a value that is not there is not reported to wait for it. -/
theorem not_readBlocked_iff_reads :
    ¬ ∀ (text : String) (n : Node), Program.parse text = .ok n.program →
      n.program.faults n.links = [] →
      (n.step.2 = .readBlocked ↔ ∃ d, n.Reads d ∧ n.inbox.get d = none) := by
  intro h
  have hblocked : following.step.2 = .readBlocked :=
    (h "JRO UP" following rfl (by decide)).mpr ⟨.up, ⟨_, rfl, rfl⟩, rfl⟩
  exact absurd hblocked (by decide)

end Node

end NodeGrid
