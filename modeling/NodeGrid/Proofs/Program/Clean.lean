import NodeGrid.Program.Fault
import NodeGrid.Proofs.Program.Sides

/-!
# Programs without faults

What a program without faults keeps to on the links that it was checked against.

* `mem_of_destination?`, `mem_of_source?`: it writes to linked sides only, and reads from these only
  unless it jumps by what it reads.
* `isNumericSource_primary`, `secondary_of_mov`: it reads and writes operands of the right kind.
* `exists_label_of_isLabelJump`: the target of a label jump is a name, and a label defines it.
* `line_eq_of_label?_eq`: the labels of one name stand on one line. They may still be several.
-/

namespace NodeGrid

namespace Program

variable {links : LinkSet} {program : Program} {c : Command}

theorem faults_eq_nil_iff :
    program.faults links = [] ↔ ∀ c ∈ program, c.faults links program = [] := by
  simp [faults, List.flatMap_eq_nil_iff]

theorem findLabel?_eq_some {name : String} (h : program.findLabel? name = some c) :
    c ∈ program ∧ c.label? = some name :=
  ⟨List.mem_of_find?_eq_some h, by simpa using List.find?_some h⟩

/-! ## Sides -/

theorem mem_of_destination? (h : program.faults links = []) (hc : c ∈ program) {d : Direction}
    (hd : c.destination? = some d) : d ∈ links := by
  obtain ⟨hop, hs⟩ := Command.destination?_eq_some_iff.mp hd
  have hfaults := faults_eq_nil_iff.mp h c hc
  simp only [Command.faults, hop, List.append_eq_nil_iff] at hfaults
  have hdestination := hfaults.2
  simp only [Command.destinationFaults, hs] at hdestination
  split at hdestination
  · assumption
  · cases hdestination

/-- It reads from linked sides only, but for relative jumps, whose sides are not checked. -/
theorem mem_of_source? (h : program.faults links = []) (hc : c ∈ program) {d : Direction}
    (hd : c.source? = some d) (hop : c.opcode ≠ .jro) : d ∈ links := by
  obtain ⟨hreads, hprimary⟩ := Command.source?_eq_some_iff.mp hd
  have hfaults := faults_eq_nil_iff.mp h c hc
  have hsource : c.sourceFaults links = [] := by
    unfold Command.faults at hfaults
    cases hopcode : c.opcode <;> simp_all [Opcode.readsValue]
  simp only [Command.sourceFaults, hprimary] at hsource
  split at hsource
  · assumption
  · cases hsource

/-! ## Operands -/

theorem isNumericSource_primary (h : program.faults links = []) (hc : c ∈ program)
    (hreads : c.opcode.readsValue) : c.primary.isNumericSource := by
  have hfaults := faults_eq_nil_iff.mp h c hc
  cases hprimary : c.primary with
  | number value => rfl
  | acc => rfl
  | side d => rfl
  | empty | label name | text word =>
    unfold Command.faults at hfaults
    cases hop : c.opcode <;>
      simp_all [Opcode.readsValue, Command.sourceFaults, Command.distanceFaults]

theorem secondary_of_mov (h : program.faults links = []) (hc : c ∈ program)
    (hop : c.opcode = .mov) :
    c.secondary = .acc ∨ c.secondary = .text Operand.nilName ∨
      ∃ d ∈ links, c.secondary = .side d := by
  have hfaults := faults_eq_nil_iff.mp h c hc
  simp only [Command.faults, hop, List.append_eq_nil_iff] at hfaults
  have hdestination := hfaults.2
  unfold Command.destinationFaults at hdestination
  split at hdestination
  · next hacc => exact Or.inl hacc
  · next d hside =>
    have hd : d ∈ links := mem_of_destination? h hc
      (Command.destination?_eq_some_iff.mpr ⟨hop, hside⟩)
    exact Or.inr (Or.inr ⟨d, hd, hside⟩)
  · split at hdestination
    · next hnil => exact Or.inr (Or.inl (by simpa [Operand.isNil] using hnil))
    · cases hdestination

/-! ## Labels -/

theorem exists_label_of_isLabelJump (h : program.faults links = []) (hc : c ∈ program)
    (hjump : c.opcode.isLabelJump) :
    ∃ target label, c.primary = .text target ∧ program.findLabel? target = some label := by
  have hfaults := faults_eq_nil_iff.mp h c hc
  have htarget : c.targetFaults program = [] := by
    unfold Command.faults at hfaults
    cases hop : c.opcode <;> simp_all [Opcode.isLabelJump]
  unfold Command.targetFaults at htarget
  split at htarget
  · next name hprimary =>
    split at htarget
    · next hsome =>
      obtain ⟨label, hlabel⟩ := Option.isSome_iff_exists.mp hsome
      exact ⟨name, label, hprimary, hlabel⟩
    · cases htarget
  · cases htarget

theorem line_eq_of_label?_eq (h : program.faults links = []) {c c' : Command} (hc : c ∈ program)
    (hc' : c' ∈ program) {name : String} (hname : c.label? = some name)
    (hname' : c'.label? = some name) : c'.line = c.line := by
  have hfaults := faults_eq_nil_iff.mp h c hc
  simp only [Command.faults, Command.opcode_of_label? hname, Command.duplicateFaults,
    List.map_eq_nil_iff, List.filter_eq_nil_iff] at hfaults
  have hother := hfaults c' hc'
  simp only [hname, hname', Option.isSome_some, true_and, decide_eq_true_eq, ne_eq] at hother
  exact Classical.not_not.mp hother

end Program

end NodeGrid
