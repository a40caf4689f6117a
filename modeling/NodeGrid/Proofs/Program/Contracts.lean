import NodeGrid.Proofs.Program.Distances
import NodeGrid.Proofs.Program.Duplicates
import NodeGrid.Proofs.Program.LineEnds

/-!
# What the operands of a command may be

An instruction asks something of each slot that it uses. `Command.Breaks` says what, without the
checks: how an operand breaks what is asked of it is the cause of a fault.

In the program of a text slots that are not used are empty, so each command has one check for each
slot that it uses, and commands that are no labels stand on different lines. The lines of a text are
exact as words, since no text of `2 ^ 63` characters fits into memory.

* `Command.IsFormed.faults_eq`: the checks of a command of a text.
* `Command.mem_primaryFaults_iff`, `Command.mem_secondaryFaults_iff`: what the check of a slot
  finds.
* `faults_exact`: if no two labels of a text have the same name, what is reported are the operands
  that break what is asked of them, each once, from line to line and from slot to slot.
-/

namespace NodeGrid

/-- One fault is on an earlier line than another, or on the same line in an earlier slot. -/
def Fault.Before (f g : Fault) : Prop :=
  f.line < g.line ∨ (f.line = g.line ∧ f.slot.index < g.slot.index)

/-- What can be written to: the accumulator, a side, or the word that swallows it. -/
def Operand.isDestination : Operand → Bool
  | acc | side _ => true
  | other => other.isNil

theorem Program.isSome_findLabel?_iff {program : Program} {name : String} :
    (program.findLabel? name).isSome ↔ name ∈ program.labelNames := by
  simp [findLabel?, labelNames, List.find?_isSome]

namespace Command

variable {links : LinkSet} {program : Program} {c : Command} {cause : FaultCause} {fault : Fault}

/-- The operand in a slot of a command breaks what its instruction asks of it, in the way that the
cause names. -/
inductive Breaks (links : LinkSet) (program : Program) (c : Command) : Slot → FaultCause → Prop
  | noSource (hreads : c.opcode.readsValue) (hkind : c.primary.isNumericSource = false) :
      Breaks links program c .primary .parameter
  | unlinkedSource {d : Direction} (hop : c.opcode = .mov ∨ c.opcode = .add ∨ c.opcode = .sub)
      (hside : c.primary = .side d) (hd : d ∉ links) : Breaks links program c .primary .direction
  | noDestination (hop : c.opcode = .mov) (hkind : c.secondary.isDestination = false) :
      Breaks links program c .secondary .parameter
  | unlinkedDestination {d : Direction} (hop : c.opcode = .mov) (hside : c.secondary = .side d)
      (hd : d ∉ links) : Breaks links program c .secondary .direction
  | unknownTarget (hjump : c.opcode.isLabelJump)
      (hname : ∀ name ∈ program.labelNames, c.primary ≠ .text name) :
      Breaks links program c .primary .label
  | leavesLines {value : Int32} (hop : c.opcode = .jro) (hvalue : c.primary = .number value)
      (hline : ¬ program.InLines (c.line + value.toInt)) :
      Breaks links program c .primary .parameter

/-! ## Commands of a text -/

/-- What the commands of a text keep to: a slot that the instruction does not use is empty, and the
target of a label jump is a word. -/
structure IsFormed (c : Command) : Prop where
  primary : c.opcode ≠ .lbl → c.opcode.arity = 0 → c.primary = .empty
  secondary : c.opcode ≠ .mov → c.secondary = .empty
  target : c.opcode.isLabelJump → ∃ name, c.primary = .text name

theorem isFormed_of_ofStatement? {line : Nat} {s : Statement} (hs : s.IsProper)
    (hc : ofStatement? line s = some c) : c.IsFormed := by
  cases s with
  | label name alone =>
    cases hc
    exact ⟨fun hop => absurd rfl hop, fun _ => rfl, nofun⟩
  | comment text => cases hc
  | operation opcode operands =>
    cases hc
    obtain ⟨-, hlength⟩ := hs
    constructor
    · intro _ harity
      rw [opcode_ofOperation] at harity
      obtain rfl := List.length_eq_zero_iff.mp (hlength.trans harity)
      rfl
    · intro hop
      rw [opcode_ofOperation] at hop
      have hle : operands.length ≤ 1 := by
        refine Nat.le_of_not_lt fun hlt => hop (Opcode.eq_mov_of_one_lt_arity ?_)
        rwa [← hlength]
      match operands with
      | [] | [first] => rfl
      | _ :: _ :: _ => simp at hle
    · intro hjump
      rw [opcode_ofOperation] at hjump
      obtain ⟨target, rfl⟩ := List.length_eq_one_iff.mp
        (hlength.trans (Opcode.arity_of_isLabelJump hjump))
      exact ⟨target.text, by rw [primary_ofOperation, if_pos hjump]⟩

theorem isFormed_of_parse {text : String} (hparse : Program.parse text = .ok program)
    (hc : c ∈ program) : c.IsFormed := by
  rw [Program.statements_of_parse hparse] at hc
  obtain ⟨before, s, after, hss, hs⟩ := Program.mem_ofStatements_iff.mp hc
  have hmem : s ∈ (Outline.ofLexemes (Lexeme.ofText text)).statements := by
    rw [hss]
    simp
  exact isFormed_of_ofStatement? (Outline.isProper_of_mem_ofLexemes s hmem) hs

/-! ## One check -/

theorem mem_sourceFaults_iff :
    (⟨c, .primary, cause⟩ : Fault) ∈ c.sourceFaults links ↔
      (cause = .parameter ∧ c.primary.isNumericSource = false) ∨
        (cause = .direction ∧ ∃ d, c.primary = .side d ∧ d ∉ links) := by
  unfold sourceFaults Operand.isNumericSource
  cases c.primary with
  | number value | acc => simp
  | side d => by_cases hd : d ∈ links <;> simp [hd]
  | empty | label name | text word => simp

theorem mem_destinationFaults_iff :
    (⟨c, .secondary, cause⟩ : Fault) ∈ c.destinationFaults links ↔
      (cause = .parameter ∧ c.secondary.isDestination = false) ∨
        (cause = .direction ∧ ∃ d, c.secondary = .side d ∧ d ∉ links) := by
  unfold destinationFaults
  cases c.secondary with
  | acc => simp [Operand.isDestination]
  | side d => by_cases hd : d ∈ links <;> simp [Operand.isDestination, hd]
  | empty | label name | text word | number value => simp [Operand.isDestination, and_comm]

theorem mem_targetFaults_iff {name : String} (hprimary : c.primary = .text name) :
    (⟨c, .primary, cause⟩ : Fault) ∈ c.targetFaults program ↔
      cause = .label ∧ name ∉ program.labelNames := by
  simp only [targetFaults, hprimary, Program.isSome_findLabel?_iff]
  split <;> simp_all

theorem mem_distanceFaults_iff (hc : c ∈ program) (hsize : program.lastLine < 2 ^ 63) :
    (⟨c, .primary, cause⟩ : Fault) ∈ c.distanceFaults program ↔
      cause = .parameter ∧ (c.primary.isNumericSource = false ∨
        ∃ value, c.primary = .number value ∧ ¬ program.InLines (c.line + value.toInt)) := by
  unfold Operand.isNumericSource
  cases hprimary : c.primary with
  | number value =>
    rw [Program.distanceFaults_of_number hc hprimary hsize]
    by_cases hline : program.InLines (c.line + value.toInt) <;> simp [hline]
  | acc | side d | empty | label name | text word => simp [distanceFaults, hprimary]

theorem length_sourceFaults_le (links : LinkSet) (c : Command) :
    (c.sourceFaults links).length ≤ 1 := by
  unfold sourceFaults
  cases c.primary with
  | side d => by_cases hd : d ∈ links <;> simp [hd]
  | empty | label name | text word | number value | acc => simp

theorem length_destinationFaults_le (links : LinkSet) (c : Command) :
    (c.destinationFaults links).length ≤ 1 := by
  unfold destinationFaults
  repeat' split
  all_goals simp

theorem length_targetFaults_le (program : Program) (c : Command) :
    (c.targetFaults program).length ≤ 1 := by
  unfold targetFaults
  repeat' split
  all_goals simp

theorem length_distanceFaults_le (program : Program) (c : Command) :
    (c.distanceFaults program).length ≤ 1 := by
  unfold distanceFaults
  cases c.primary with
  | number value =>
    dsimp only
    split <;> simp
  | empty | label name | text word | acc | side d => simp

/-! ## The checks of a command -/

/-- The check of the first slot. -/
def primaryFaults (links : LinkSet) (program : Program) (c : Command) : List Fault :=
  match c.opcode with
  | .mov | .add | .sub => c.sourceFaults links
  | .jmp | .jez | .jnz | .jgz | .jlz => c.targetFaults program
  | .jro => c.distanceFaults program
  | .lbl | .nop | .swp | .sav | .neg => []

/-- The check of the second slot. -/
def secondaryFaults (links : LinkSet) (c : Command) : List Fault :=
  if c.opcode = .mov then c.destinationFaults links else []

theorem emptyFaults_eq_nil {slot : Slot} (h : c.operand slot = .empty) :
    c.emptyFaults slot = [] := by
  rw [emptyFaults, h]
  rfl

/-- A command of a text that is no label has one check for each slot that its instruction uses. -/
theorem IsFormed.faults_eq (h : c.IsFormed) (hop : c.opcode ≠ .lbl) :
    c.faults links program = c.primaryFaults links program ++ c.secondaryFaults links := by
  have hsecondary : c.opcode ≠ .mov → c.emptyFaults .secondary = [] :=
    fun hmov => emptyFaults_eq_nil (h.secondary hmov)
  unfold faults primaryFaults secondaryFaults
  cases hopcode : c.opcode with
  | lbl => exact absurd hopcode hop
  | mov => simp
  | nop | swp | sav | neg =>
    have hprimary : c.emptyFaults .primary = [] :=
      emptyFaults_eq_nil (h.primary hop (by rw [hopcode]; rfl))
    simp [hprimary, hsecondary, hopcode]
  | add | sub | jmp | jez | jnz | jgz | jlz | jro => simp [hsecondary, hopcode]

theorem at_of_mem_primaryFaults (h : fault ∈ c.primaryFaults links program) :
    fault.command = c ∧ fault.slot = .primary := by
  unfold primaryFaults at h
  cases hop : c.opcode with rw [hop] at h
  | mov | add | sub => exact at_of_mem_sourceFaults h
  | jmp | jez | jnz | jgz | jlz => exact at_of_mem_targetFaults h
  | jro => exact at_of_mem_distanceFaults h
  | lbl | nop | swp | sav | neg => cases h

theorem at_of_mem_secondaryFaults (h : fault ∈ c.secondaryFaults links) :
    fault.command = c ∧ fault.slot = .secondary := by
  unfold secondaryFaults at h
  split at h
  · exact at_of_mem_destinationFaults h
  · cases h

theorem length_primaryFaults_le (links : LinkSet) (program : Program) (c : Command) :
    (c.primaryFaults links program).length ≤ 1 := by
  unfold primaryFaults
  cases c.opcode with
  | mov | add | sub => exact length_sourceFaults_le links c
  | jmp | jez | jnz | jgz | jlz => exact length_targetFaults_le program c
  | jro => exact length_distanceFaults_le program c
  | lbl | nop | swp | sav | neg => exact Nat.zero_le 1

theorem length_secondaryFaults_le (links : LinkSet) (c : Command) :
    (c.secondaryFaults links).length ≤ 1 := by
  unfold secondaryFaults
  split
  · exact length_destinationFaults_le links c
  · exact Nat.zero_le 1

/-- The faults of a command of a text go from slot to slot. -/
theorem IsFormed.pairwise_faults (h : c.IsFormed) (hop : c.opcode ≠ .lbl) :
    (c.faults links program).Pairwise Fault.Before := by
  have hprimary := length_primaryFaults_le links program c
  have hsecondary := length_secondaryFaults_le links c
  rw [h.faults_eq hop]
  refine List.pairwise_append.mpr ⟨?_, ?_, ?_⟩
  · exact List.pairwise_iff_getElem.mpr fun i j _ hj hij => by omega
  · exact List.pairwise_iff_getElem.mpr fun i j _ hj hij => by omega
  · intro f hf g hg
    obtain ⟨hfc, hfs⟩ := at_of_mem_primaryFaults hf
    obtain ⟨hgc, hgs⟩ := at_of_mem_secondaryFaults hg
    refine Or.inr ⟨by rw [Fault.line, Fault.line, hfc, hgc], ?_⟩
    rw [hfs, hgs]
    exact Nat.zero_lt_one

/-- The check of the first slot finds how its operand breaks what is asked of it. -/
theorem mem_primaryFaults_iff (h : c.IsFormed) (hc : c ∈ program)
    (hsize : program.lastLine < 2 ^ 63) :
    (⟨c, .primary, cause⟩ : Fault) ∈ c.primaryFaults links program ↔
      c.Breaks links program .primary cause := by
  unfold primaryFaults
  constructor
  · intro hfault
    cases hop : c.opcode with rw [hop] at hfault
    | mov | add | sub =>
      rcases mem_sourceFaults_iff.mp hfault with ⟨rfl, hkind⟩ | ⟨rfl, d, hside, hd⟩
      · exact .noSource (by rw [hop]; rfl) hkind
      · exact .unlinkedSource (by simp [hop]) hside hd
    | jmp | jez | jnz | jgz | jlz =>
      have hjump : c.opcode.isLabelJump := by rw [hop]; rfl
      obtain ⟨target, htarget⟩ := h.target hjump
      obtain ⟨rfl, hname⟩ := (mem_targetFaults_iff htarget).mp hfault
      refine .unknownTarget hjump fun name hmem hprimary => hname ?_
      cases htarget.symm.trans hprimary
      exact hmem
    | jro =>
      obtain ⟨rfl, hkind | ⟨value, hvalue, hline⟩⟩ := (mem_distanceFaults_iff hc hsize).mp hfault
      · exact .noSource (by rw [hop]; rfl) hkind
      · exact .leavesLines hop hvalue hline
    | lbl | nop | swp | sav | neg => cases hfault
  · intro hbreaks
    cases hbreaks with
    | noSource hreads hkind =>
      cases hop : c.opcode with rw [hop] at hreads
      | mov | add | sub => exact mem_sourceFaults_iff.mpr (Or.inl ⟨rfl, hkind⟩)
      | jro => exact (mem_distanceFaults_iff hc hsize).mpr ⟨rfl, Or.inl hkind⟩
      | jmp | jez | jnz | jgz | jlz | lbl | nop | swp | sav | neg => cases hreads
    | @unlinkedSource d hop hside hd =>
      have hfault := mem_sourceFaults_iff.mpr (Or.inr ⟨rfl, d, hside, hd⟩)
      rcases hop with hop | hop | hop <;> rw [hop] <;> exact hfault
    | unknownTarget hjump hname =>
      obtain ⟨target, htarget⟩ := h.target hjump
      have hfault := (mem_targetFaults_iff htarget).mpr
        ⟨rfl, fun hmem => hname target hmem htarget⟩
      cases hop : c.opcode with rw [hop] at hjump
      | jmp | jez | jnz | jgz | jlz => exact hfault
      | mov | add | sub | jro | lbl | nop | swp | sav | neg => cases hjump
    | @leavesLines value hop hvalue hline =>
      rw [hop]
      exact (mem_distanceFaults_iff hc hsize).mpr ⟨rfl, Or.inr ⟨value, hvalue, hline⟩⟩

/-- The check of the second slot finds how its operand breaks what is asked of it. -/
theorem mem_secondaryFaults_iff :
    (⟨c, .secondary, cause⟩ : Fault) ∈ c.secondaryFaults links ↔
      c.Breaks links program .secondary cause := by
  unfold secondaryFaults
  constructor
  · intro hfault
    split at hfault
    · next hop =>
      rcases mem_destinationFaults_iff.mp hfault with ⟨rfl, hkind⟩ | ⟨rfl, d, hside, hd⟩
      · exact .noDestination hop hkind
      · exact .unlinkedDestination hop hside hd
    · cases hfault
  · intro hbreaks
    cases hbreaks with
    | noDestination hop hkind =>
      rw [if_pos hop]
      exact mem_destinationFaults_iff.mpr (Or.inl ⟨rfl, hkind⟩)
    | @unlinkedDestination d hop hside hd =>
      rw [if_pos hop]
      exact mem_destinationFaults_iff.mpr (Or.inr ⟨rfl, d, hside, hd⟩)

/-- Nothing is asked of a label. -/
theorem Breaks.opcode_ne {slot : Slot} (h : c.Breaks links program slot cause) :
    c.opcode ≠ .lbl := by
  intro hop
  cases h <;> simp_all [Opcode.readsValue, Opcode.isLabelJump]

/-- The checks of a command of a text that is no label find how its operands break what is asked of
them, and nothing else. -/
theorem IsFormed.mem_faults_iff (h : c.IsFormed) (hop : c.opcode ≠ .lbl) (hc : c ∈ program)
    (hsize : program.lastLine < 2 ^ 63) :
    fault ∈ c.faults links program ↔
      fault.command = c ∧ c.Breaks links program fault.slot fault.cause := by
  obtain ⟨command, slot, cause⟩ := fault
  rw [h.faults_eq hop, List.mem_append]
  constructor
  · rintro (hfault | hfault)
    · obtain ⟨rfl, rfl⟩ := at_of_mem_primaryFaults hfault
      exact ⟨rfl, (mem_primaryFaults_iff h hc hsize).mp hfault⟩
    · obtain ⟨rfl, rfl⟩ := at_of_mem_secondaryFaults hfault
      exact ⟨rfl, mem_secondaryFaults_iff.mp hfault⟩
  · rintro ⟨rfl, hbreaks⟩
    cases slot with
    | primary => exact Or.inl ((mem_primaryFaults_iff h hc hsize).mpr hbreaks)
    | secondary => exact Or.inr (mem_secondaryFaults_iff.mpr hbreaks)

end Command

namespace Program

variable {links : LinkSet} {text : String} {program : Program} {c : Command} {fault : Fault}

/-! ## Programs -/

/-- Where all labels have names of their own, none is reported. -/
theorem faults_of_label (hnames : program.labelNames.Nodup) (hc : c ∈ program)
    (hop : c.opcode = .lbl) : c.faults links program = [] := by
  refine List.eq_nil_iff_forall_not_mem.mpr fun fault hfault => ?_
  have hmem : fault ∈ program.faults links := List.mem_flatMap.mpr ⟨c, hc, hfault⟩
  rw [Command.faults, hop] at hfault
  obtain ⟨heq, -⟩ := Command.mem_duplicateFaults_iff.mp hfault
  exact not_nodup_of_reportsDuplicate ⟨fault, hmem, by rw [heq]⟩ hnames

/-- What has faults is no label, and its faults are its own. -/
theorem command_of_mem_faults (hnames : program.labelNames.Nodup) (hc : c ∈ program)
    (hfault : fault ∈ c.faults links program) : c.opcode ≠ .lbl ∧ fault.command = c := by
  have hop : c.opcode ≠ .lbl := by
    intro hop
    rw [faults_of_label hnames hc hop] at hfault
    cases hfault
  rcases Command.command_of_mem_faults hfault with hcommand | ⟨hlabel, -⟩
  · exact ⟨hop, hcommand⟩
  · exact absurd hlabel hop

/-- From one command with faults to the next one the line grows. -/
theorem pairwise_before_faults (hparse : parse text = .ok program)
    (hnames : program.labelNames.Nodup) : (program.faults links).Pairwise Fault.Before := by
  have hlines : program.Pairwise fun c later => c.opcode ≠ .lbl → c.line < later.line := by
    rw [statements_of_parse hparse]
    exact pairwise_line_lt 0 _
  refine List.pairwise_flatMap.mpr ⟨fun c hc => ?_, hlines.imp_of_mem ?_⟩
  · by_cases hop : c.opcode = .lbl
    · rw [faults_of_label hnames hc hop]
      exact .nil
    · exact (Command.isFormed_of_parse hparse hc).pairwise_faults hop
  · intro c later hc hlater hline f hf g hg
    obtain ⟨hop, hcommand⟩ := command_of_mem_faults hnames hc hf
    obtain ⟨-, hlaterCommand⟩ := command_of_mem_faults hnames hlater hg
    left
    rw [Fault.line, Fault.line, hcommand, hlaterCommand]
    exact hline hop

/-- In the program of a text whose labels have names of their own, the faults are strictly in the
order of lines and slots, and they are the operands that break what is asked of them, each with how
it does. -/
theorem faults_exact (hsize : text.length < 2 ^ 63) (hparse : parse text = .ok program)
    (hnames : program.labelNames.Nodup) :
    (program.faults links).Pairwise Fault.Before ∧
      ∀ fault, fault ∈ program.faults links ↔
        fault.command ∈ program ∧
          fault.command.Breaks links program fault.slot fault.cause := by
  have hlast : program.lastLine < 2 ^ 63 := by
    have hline : program.lastLine ≤ text.length :=
      lastLine_le_iff.mpr fun c hc => Nat.le_of_lt (line_parse_lt hparse hc)
    omega
  refine ⟨pairwise_before_faults hparse hnames, fun fault => ⟨fun hfault => ?_, ?_⟩⟩
  · obtain ⟨c, hc, hfault⟩ := List.mem_flatMap.mp hfault
    obtain ⟨hop, -⟩ := command_of_mem_faults hnames hc hfault
    obtain ⟨rfl, hbreaks⟩ :=
      ((Command.isFormed_of_parse hparse hc).mem_faults_iff hop hc hlast).mp hfault
    exact ⟨hc, hbreaks⟩
  · rintro ⟨hc, hbreaks⟩
    refine List.mem_flatMap.mpr ⟨fault.command, hc, ?_⟩
    exact ((Command.isFormed_of_parse hparse hc).mem_faults_iff hbreaks.opcode_ne hc hlast).mpr
      ⟨rfl, hbreaks⟩

/-- A program with a fault of each kind, and with a jump back that goes through. -/
def faulty : Program :=
  [{ line := 0, opcode := .lbl, primary := .label "S" },
    { line := 0, opcode := .mov, primary := .side .down, secondary := .number 5 },
    { line := 2, opcode := .jmp, primary := .text "T" },
    { line := 3, opcode := .jro, primary := .number 9 },
    { line := 4, opcode := .jro, primary := .number (-1) }]

/-- Nothing is reported of the last command. -/
theorem faults_exact_faulty :
    "S: MOV DOWN 5\n# c\nJMP T\nJRO 9\nJRO -1".length < 2 ^ 63 ∧
      parse "S: MOV DOWN 5\n# c\nJMP T\nJRO 9\nJRO -1" = .ok faulty ∧ faulty.labelNames.Nodup ∧
      (faulty.faults (.ofList [.up])).Pairwise Fault.Before ∧
      (faulty.faults (.ofList [.up])).map (fun f => (f.line, f.slot, f.cause)) =
        [(0, .primary, .direction), (0, .secondary, .parameter), (2, .primary, .label),
          (3, .primary, .parameter)] ∧
      ¬ Command.Breaks (.ofList [.up]) faulty
        { line := 4, opcode := .jro, primary := .number (-1) } .primary .parameter := by
  have hsize : "S: MOV DOWN 5\n# c\nJMP T\nJRO 9\nJRO -1".length < 2 ^ 63 := by decide
  have hparse : parse "S: MOV DOWN 5\n# c\nJMP T\nJRO 9\nJRO -1" = .ok faulty := rfl
  have hnames : faulty.labelNames.Nodup := by decide
  obtain ⟨hsorted, hexact⟩ := @faults_exact (.ofList [.up]) _ faulty hsize hparse hnames
  refine ⟨hsize, hparse, hnames, hsorted, by decide, fun hbreaks => ?_⟩
  have hreported := (hexact ⟨{ line := 4, opcode := .jro, primary := .number (-1) }, .primary,
    .parameter⟩).mpr ⟨by decide, hbreaks⟩
  exact absurd hreported (by decide)

end Program

end NodeGrid
