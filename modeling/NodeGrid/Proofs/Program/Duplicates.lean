import NodeGrid.Proofs.Program.Clean
import NodeGrid.Proofs.Program.Lines
import NodeGrid.Proofs.Program.Reports

/-!
# Duplicate labels

Labels of one name are told apart by their lines. A jump goes to a line, so it makes no difference
which of several labels on one line is meant, and such labels are not reported. They form a stack:
from the first one up to the second there are only labels that share their line with what follows.

* `reportsDuplicate_iff`: a duplicate is reported exactly if two labels of one name stand on
  different lines, and a name that repeats without a report is that of labels in one stack.
* `not_reportsDuplicate_iff_not_nodup`: so not every name that repeats is reported.
-/

namespace NodeGrid

namespace Statement

theorem height_eq_zero_iff {s : Statement} : s.height = 0 ↔ s.isShared := by
  cases s with
  | label name alone => cases alone <;> simp [height, isShared]
  | comment text => simp [height, isShared]
  | operation opcode operands => simp [height, isShared]

theorem lines_eq_zero_iff {ss : List Statement} : lines ss = 0 ↔ ∀ s ∈ ss, s.isShared := by
  induction ss with
  | nil => simp
  | cons s ss ih =>
    rw [lines_cons, Nat.add_eq_zero_iff, height_eq_zero_iff, ih, List.forall_mem_cons]

end Statement

/-- A label is blamed by the labels of its name that stand on other lines. -/
theorem Command.mem_duplicateFaults_iff {program : Program} {c : Command} {fault : Fault} :
    fault ∈ c.duplicateFaults program ↔
      fault = ⟨fault.command, .primary, .duplicate⟩ ∧ fault.command ∈ program ∧
        (∃ name, c.label? = some name ∧ fault.command.label? = some name) ∧
        fault.command.line ≠ c.line := by
  simp only [duplicateFaults, List.mem_map, List.mem_filter, decide_eq_true_eq]
  constructor
  · rintro ⟨other, ⟨hother, hsome, hname, hline⟩, rfl⟩
    obtain ⟨name, hotherName⟩ := Option.isSome_iff_exists.mp hsome
    exact ⟨rfl, hother, ⟨name, hname ▸ hotherName, hotherName⟩, hline⟩
  · rintro ⟨hfault, hother, ⟨name, hname, hotherName⟩, hline⟩
    have hsome : fault.command.label?.isSome := by rw [hotherName, Option.isSome_some]
    exact ⟨_, ⟨hother, hsome, hotherName.trans hname.symm, hline⟩, hfault.symm⟩

namespace Program

open Statement

variable {links : LinkSet} {text : String} {program : Program} {ss : List Statement}
  {c c' : Command} {name : String} {i j : Nat}

/-! ## What is reported -/

/-- Some label is reported as a duplicate. -/
def ReportsDuplicate (links : LinkSet) (program : Program) : Prop :=
  ∃ fault ∈ program.faults links, fault.cause = .duplicate

instance (links : LinkSet) (program : Program) : Decidable (ReportsDuplicate links program) :=
  inferInstanceAs (Decidable (∃ fault ∈ program.faults links, _))

theorem reportsDuplicate_iff_line_ne :
    ReportsDuplicate links program ↔ ∃ c ∈ program, ∃ c' ∈ program,
      (∃ name, c.label? = some name ∧ c'.label? = some name) ∧ c'.line ≠ c.line := by
  constructor
  · rintro ⟨fault, hfault, hcause⟩
    obtain ⟨c, hc, hfault⟩ := List.mem_flatMap.mp hfault
    rw [Command.faults, Command.opcode_of_cause_duplicate hfault hcause] at hfault
    obtain ⟨-, hother, hname, hline⟩ := Command.mem_duplicateFaults_iff.mp hfault
    exact ⟨c, hc, fault.command, hother, hname, hline⟩
  · rintro ⟨c, hc, c', hc', ⟨name, hname, hname'⟩, hline⟩
    have hfault : (⟨c', .primary, .duplicate⟩ : Fault) ∈ c.faults links program := by
      rw [Command.faults, Command.opcode_of_label? hname]
      exact Command.mem_duplicateFaults_iff.mpr ⟨rfl, hc', ⟨name, hname, hname'⟩, hline⟩
    exact ⟨_, List.mem_flatMap.mpr ⟨c, hc, hfault⟩, rfl⟩

/-! ## What repeats -/

/-- The names that the labels of a program define, in order. -/
def labelNames (program : Program) : List String := program.filterMap (·.label?)

/-- A name repeats exactly if labels at two places define it. -/
theorem not_nodup_labelNames_iff :
    ¬ program.labelNames.Nodup ↔ ∃ (i j : Nat) (c c' : Command), i < j ∧ program[i]? = some c ∧
      program[j]? = some c' ∧ ∃ name, c.label? = some name ∧ c'.label? = some name := by
  rw [labelNames, List.Nodup, List.pairwise_filterMap, List.pairwise_iff_getElem]
  constructor
  · intro h
    simp only [Classical.not_forall, Classical.not_not] at h
    obtain ⟨i, j, hi, hj, hij, name, hname, _, hname', rfl⟩ := h
    exact ⟨i, j, _, _, hij, List.getElem?_eq_getElem hi, List.getElem?_eq_getElem hj, name, hname,
      hname'⟩
  · rintro ⟨i, j, c, c', hij, hc, hc', name, hname, hname'⟩ h
    obtain ⟨hi, rfl⟩ := List.getElem?_eq_some_iff.mp hc
    obtain ⟨hj, rfl⟩ := List.getElem?_eq_some_iff.mp hc'
    exact h i j hi hj hij name hname name hname' rfl

/-- What is reported repeats: commands on different lines are at different places. -/
theorem not_nodup_of_reportsDuplicate (h : ReportsDuplicate links program) :
    ¬ program.labelNames.Nodup := by
  obtain ⟨c, hc, c', hc', ⟨name, hname, hname'⟩, hline⟩ := reportsDuplicate_iff_line_ne.mp h
  obtain ⟨i, hi⟩ := List.mem_iff_getElem?.mp hc
  obtain ⟨j, hj⟩ := List.mem_iff_getElem?.mp hc'
  rw [not_nodup_labelNames_iff]
  rcases Nat.lt_trichotomy i j with hij | rfl | hji
  · exact ⟨i, j, c, c', hij, hi, hj, name, hname, hname'⟩
  · obtain rfl : c = c' := Option.some.inj (hi.symm.trans hj)
    exact absurd rfl hline
  · exact ⟨j, i, c', c, hji, hj, hi, name, hname', hname⟩

/-- Labels at two places are two labels of the text. Their lines differ by what the first one and
the statements between them count for. -/
theorem exists_labels_of_places (hss : ∀ s ∈ ss, s.IsProper) (hij : i < j)
    (hc : (ofStatements 0 ss)[i]? = some c) (hc' : (ofStatements 0 ss)[j]? = some c')
    (hname : c.label? = some name) (hname' : c'.label? = some name) :
    ∃ before first between second after,
      ss = before ++ .label name first :: (between ++ .label name second :: after) ∧
        c'.line = c.line + lines (.label name first :: between) := by
  obtain ⟨front, s', after, rfl, hj, hs'⟩ := getElem?_ofStatements_iff.mp hc'
  have hfront : (ofStatements 0 front)[i]? = some c := by
    rw [← hc, ofStatements_append, List.getElem?_append_left (by omega)]
  obtain ⟨before, s, between, rfl, -, hs⟩ := getElem?_ofStatements_iff.mp hfront
  obtain ⟨first, rfl⟩ := (label?_ofStatement?_iff (hss s (by simp))).mp ⟨c, hs, hname⟩
  obtain ⟨second, rfl⟩ := (label?_ofStatement?_iff (hss s' (by simp))).mp ⟨c', hs', hname'⟩
  refine ⟨before, first, between, second, after, by simp, ?_⟩
  rw [Command.line_of_ofStatement? hs', Command.line_of_ofStatement? hs, lines_append,
    Nat.add_assoc]

/-- Two labels of one name such that all statements from the first one up to the second are labels
that share their line. -/
def StacksLabel (ss : List Statement) : Prop :=
  ∃ before name between alone after,
    ss = before ++ .label name false :: (between ++ .label name alone :: after) ∧
      ∀ s ∈ between, s.isShared

theorem not_nodup_of_stacksLabel (h : StacksLabel ss) :
    ¬ (ofStatements 0 ss).labelNames.Nodup := by
  obtain ⟨before, name, between, alone, after, rfl, -⟩ := h
  simp [labelNames, ofStatements_append, ofStatements, Command.ofStatement?, Command.label?,
    List.nodup_append]

/-- Labels of one name on one line are in one stack. -/
theorem stacksLabel_of_line_eq (hss : ∀ s ∈ ss, s.IsProper) (hij : i < j)
    (hc : (ofStatements 0 ss)[i]? = some c) (hc' : (ofStatements 0 ss)[j]? = some c')
    (hname : c.label? = some name) (hname' : c'.label? = some name) (hline : c'.line = c.line) :
    StacksLabel ss := by
  obtain ⟨before, first, between, second, after, rfl, hlines⟩ :=
    exists_labels_of_places hss hij hc hc' hname hname'
  have hshared : ∀ s ∈ .label name first :: between, s.isShared :=
    lines_eq_zero_iff.mp (by omega)
  obtain ⟨hfirst, hbetween⟩ := List.forall_mem_cons.mp hshared
  obtain rfl : first = false := by simpa [isShared] using hfirst
  exact ⟨before, name, between, second, after, rfl, hbetween⟩

/-! ## What is reported of what repeats -/

/-- A duplicate is reported exactly if two labels of one name stand on different lines. What repeats
without a report is in one stack. So without a report all labels of a name stand on the line that
jumps to the name go to. -/
theorem reportsDuplicate_iff (hparse : parse text = .ok program) :
    (ReportsDuplicate links program ↔ ∃ c ∈ program, ∃ c' ∈ program,
        (∃ name, c.label? = some name ∧ c'.label? = some name) ∧ c'.line ≠ c.line) ∧
      (¬ program.labelNames.Nodup ↔
        ReportsDuplicate links program ∨ StacksLabel (statementsOf text)) ∧
      (¬ ReportsDuplicate links program → ∀ name label, program.findLabel? name = some label →
        ∀ c ∈ program, c.label? = some name → c.line = label.line) := by
  have hstatements : program = ofStatements 0 (statementsOf text) := statements_of_parse hparse
  refine ⟨reportsDuplicate_iff_line_ne, ⟨fun hrepeats => ?_, ?_⟩, ?_⟩
  · obtain ⟨i, j, c, c', hij, hc, hc', name, hname, hname'⟩ := not_nodup_labelNames_iff.mp hrepeats
    by_cases hline : c'.line = c.line
    · rw [hstatements] at hc hc'
      exact Or.inr (stacksLabel_of_line_eq Outline.isProper_of_mem_ofLexemes hij hc hc' hname hname'
        hline)
    · exact Or.inl (reportsDuplicate_iff_line_ne.mpr ⟨c, List.mem_of_getElem? hc, c',
        List.mem_of_getElem? hc', ⟨name, hname, hname'⟩, hline⟩)
  · rintro (hreports | hstacks)
    · exact not_nodup_of_reportsDuplicate hreports
    · rw [hstatements]
      exact not_nodup_of_stacksLabel hstacks
  · intro hquiet name label hlabel c hc hname
    obtain ⟨hmem, hlabelName⟩ := findLabel?_eq_some hlabel
    exact Classical.byContradiction fun hline => hquiet
      (reportsDuplicate_iff_line_ne.mpr ⟨label, hmem, c, hc, ⟨name, hlabelName, hname⟩, hline⟩)

/-- A label that is given twice on its line. -/
def stacked : Program :=
  [{ line := 0, opcode := .lbl, primary := .label "A" },
    { line := 0, opcode := .lbl, primary := .label "A" }, { line := 0, opcode := .nop }]

/-- Another one after it that is given on two lines. -/
def stackedAndSpread : Program :=
  stacked ++ [{ line := 1, opcode := .lbl, primary := .label "B" }, { line := 1, opcode := .nop },
    { line := 2, opcode := .lbl, primary := .label "B" }]

/-- The label on two lines is reported. Without it nothing is, though a name repeats. -/
theorem reportsDuplicate_stackedAndSpread :
    parse "A: A: NOP\nB: NOP\nB:" = .ok stackedAndSpread ∧
      ReportsDuplicate .empty stackedAndSpread ∧
      parse "A: A: NOP" = .ok stacked ∧ ¬ ReportsDuplicate .empty stacked ∧
      ¬ stacked.labelNames.Nodup := by
  have hspread : parse "A: A: NOP\nB: NOP\nB:" = .ok stackedAndSpread := rfl
  have hstacked : parse "A: A: NOP" = .ok stacked := rfl
  obtain ⟨hreports, -⟩ := @reportsDuplicate_iff .empty _ _ hspread
  obtain ⟨-, hrepeats, -⟩ := @reportsDuplicate_iff .empty _ _ hstacked
  have hstacks : StacksLabel (statementsOf "A: A: NOP") :=
    ⟨[], "A", [], false, [.operation .nop []], rfl, nofun⟩
  refine ⟨hspread, hreports.mpr ?_, hstacked, by decide, hrepeats.mpr (Or.inr hstacks)⟩
  exact ⟨{ line := 1, opcode := .lbl, primary := .label "B" }, by decide,
    { line := 2, opcode := .lbl, primary := .label "B" }, by decide, ⟨"B", rfl, rfl⟩, by decide⟩

/-- A name that repeats on one line is not reported. -/
theorem not_reportsDuplicate_iff_not_nodup :
    ¬ ∀ (links : LinkSet) (text : String) (program : Program), parse text = .ok program →
      (ReportsDuplicate links program ↔ ¬ program.labelNames.Nodup) := by
  intro h
  have hreports : ReportsDuplicate .empty stacked :=
    (h .empty "A: A: NOP" stacked rfl).mpr (by decide)
  exact absurd hreports (by decide)

end Program

end NodeGrid
