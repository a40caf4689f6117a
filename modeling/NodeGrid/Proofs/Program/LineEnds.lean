import NodeGrid.Proofs.Program.Clean
import NodeGrid.Proofs.Program.Lines
import NodeGrid.Proofs.Program.Origins

/-!
# Operands taken across a line end

An operation takes the lexemes after its instruction whatever they are, so on a line that lacks an
operand it takes the end of the line. Neither a comment nor a line break denotes a value, and no
label is named like a comment. So a program without faults keeps its operands on their lines, with
one exception: a colon first on a line makes a label without a name of the line break before it, and
this is where a jump goes whose operand is a line break.

* `isLabelJump_of_isLineEnd`: in a program without faults only a label jump takes a line end.
* `takesLineEnd_iff`: a program without faults takes a line end exactly if it jumps to the empty
  name, and then some line of its text opens with a colon.
* `not_operands_before_lineEnd`: hence not every program without faults keeps its operands on the
  line of their instruction.
-/

namespace NodeGrid

namespace Lexeme

variable {text : String} {lexeme : Lexeme}

/-- A comment, a line break, or a line break that a colon made a label. -/
def IsLineEnd (lexeme : Lexeme) : Prop :=
  lexeme.kind = .comment ∨ lexeme.kind = .newline ∨ lexeme = ⟨.label, ""⟩

/-- The line ends are the lexemes with a comment sign and those without a text. -/
theorem isLineEnd_iff (h : lexeme ∈ ofText text) :
    lexeme.IsLineEnd ↔ '#' ∈ lexeme.text.toList ∨ lexeme.text = "" := by
  rcases cases_of_mem_ofText h with
    ⟨hkind, hsign⟩ | ⟨hkind, hempty⟩ | ⟨rfl, _⟩ | ⟨hcomment, hnewline, hempty, hsign⟩
  · exact ⟨fun _ => Or.inl hsign, fun _ => Or.inl hkind⟩
  · exact ⟨fun _ => Or.inr hempty, fun _ => Or.inr (Or.inl hkind)⟩
  · exact ⟨fun _ => Or.inr rfl, fun _ => Or.inr (Or.inr rfl)⟩
  · constructor
    · rintro (hk | hk | rfl)
      · exact absurd hk hcomment
      · exact absurd hk hnewline
      · exact absurd rfl hempty
    · rintro (hs | he)
      · exact absurd hs hsign
      · exact absurd he hempty

/-- The name of a label has no comment sign, and is empty only where a line opens with a colon. -/
theorem name_of_label {name : String} (h : ⟨.label, name⟩ ∈ ofText text) :
    '#' ∉ name.toList ∧ (name = "" → OpensWithColon text) := by
  rcases cases_of_mem_ofText h with
    ⟨hkind, _⟩ | ⟨hkind, _⟩ | ⟨hlexeme, hcolon⟩ | ⟨_, _, hempty, hsign⟩
  · cases hkind
  · cases hkind
  · cases hlexeme
    exact ⟨by simp, fun _ => hcolon⟩
  · exact ⟨hsign, fun he => absurd he hempty⟩

end Lexeme

/-- A line end denotes nothing, or the label without a name. -/
theorem Operand.ofLexeme_of_isLineEnd {text : String} {lexeme : Lexeme}
    (h : lexeme ∈ Lexeme.ofText text) (hend : lexeme.IsLineEnd) :
    ofLexeme lexeme = .empty ∨ ofLexeme lexeme = .label "" := by
  have htext := (Lexeme.isLineEnd_iff h).mp hend
  have hacc : lexeme.text ≠ accName := by
    intro he
    rw [he] at htext
    exact absurd htext (by decide)
  have hnumber (value : Int32) : Numeral.readInt32 lexeme.text ≠ .ok value := by
    intro hread
    obtain ⟨hnonempty, hchars⟩ := Numeral.chars_of_readInt32 hread
    rcases htext with hsign | hempty
    · exact absurd (hchars '#' hsign) (by decide)
    · exact hnonempty (by rw [hempty]; rfl)
  have hside : Direction.ofName? lexeme.text = none := by
    rw [Option.eq_none_iff_forall_ne_some]
    intro d hd
    rw [← Direction.ofName?_eq_some_iff.mp hd] at htext
    cases d <;> exact absurd htext (by decide)
  unfold ofLexeme
  rw [if_neg hacc]
  split
  · next value hread => exact absurd hread (hnumber value)
  · rw [hside]
    rcases hend with hkind | hkind | rfl
    · exact Or.inl (by rw [hkind])
    · exact Or.inl (by rw [hkind])
    · exact Or.inr rfl

namespace Opcode

theorem arity_of_isLabelJump {op : Opcode} (h : op.isLabelJump) : op.arity = 1 := by
  revert h
  cases op <;> decide

theorem readsValue_of_arity_pos {op : Opcode} (hjump : op.isLabelJump = false)
    (harity : 0 < op.arity) : op.readsValue := by
  revert hjump harity
  cases op <;> decide

theorem eq_mov_of_one_lt_arity {op : Opcode} (h : 1 < op.arity) : op = .mov := by
  revert h
  cases op <;> decide

end Opcode

namespace Command

theorem primary_ofOperation (line : Nat) (opcode : Opcode) (lexeme : Lexeme)
    (others : List Lexeme) : (ofOperation line opcode (lexeme :: others)).primary =
      if opcode.isLabelJump then .text lexeme.text else .ofLexeme lexeme := by
  cases others <;> cases hjump : opcode.isLabelJump <;> simp [ofOperation, hjump]

theorem secondary_ofOperation {line : Nat} {opcode : Opcode} (hjump : opcode.isLabelJump = false)
    (first second : Lexeme) (others : List Lexeme) :
    (ofOperation line opcode (first :: second :: others)).secondary = .ofLexeme second := by
  simp [ofOperation, hjump]

end Command

namespace Program

/-- Some operation has a line end among its operands. -/
def TakesLineEnd (text : String) : Prop :=
  ∃ opcode operands lexeme, .operation opcode operands ∈ statementsOf text ∧ lexeme ∈ operands ∧
    lexeme.IsLineEnd

section

variable {links : LinkSet} {text : String} {program : Program} {opcode : Opcode}
  {operands : List Lexeme} {lexeme : Lexeme}

theorem exists_mem_of_operation (hparse : parse text = .ok program)
    (h : .operation opcode operands ∈ statementsOf text) :
    ∃ line, Command.ofOperation line opcode operands ∈ program := by
  obtain ⟨before, after, hss⟩ := List.append_of_mem h
  rw [statements_of_parse hparse]
  exact ⟨_, mem_ofStatements_iff.mpr ⟨before, _, after, hss, rfl⟩⟩

theorem mem_ofText_of_operation (h : .operation opcode operands ∈ statementsOf text)
    (hl : lexeme ∈ operands) : lexeme ∈ Lexeme.ofText text :=
  Outline.lexemes_subset _ h hl

/-- A label of a program is a lexeme of its text. -/
theorem mem_ofText_of_label? (hparse : parse text = .ok program) {label : Command}
    (hlabel : label ∈ program) {name : String} (hname : label.label? = some name) :
    ⟨.label, name⟩ ∈ Lexeme.ofText text := by
  rw [statements_of_parse hparse] at hlabel
  obtain ⟨before, s, after, hss, hs⟩ := mem_ofStatements_iff.mp hlabel
  have hmem : s ∈ statementsOf text := by
    rw [statementsOf, hss]
    simp
  have hproper : s.IsProper := Outline.isProper_of_mem_ofLexemes s hmem
  obtain ⟨alone, rfl⟩ := (label?_ofStatement?_iff hproper).mp ⟨label, hs, hname⟩
  exact Outline.lexemes_subset _ hmem List.mem_cons_self

theorem length_of_operation (h : .operation opcode operands ∈ statementsOf text) :
    operands.length = opcode.arity :=
  (Outline.isProper_of_mem_ofLexemes _ h).2

theorem not_isLineEnd_first (hparse : parse text = .ok program)
    (hclean : program.faults links = []) {first : Lexeme} {others : List Lexeme}
    (h : .operation opcode (first :: others) ∈ statementsOf text)
    (hjump : opcode.isLabelJump = false) : ¬ first.IsLineEnd := by
  intro hend
  obtain ⟨line, hc⟩ := exists_mem_of_operation hparse h
  have hreads : opcode.readsValue :=
    Opcode.readsValue_of_arity_pos hjump (length_of_operation h ▸ Nat.succ_pos _)
  have hsource := isNumericSource_primary hclean hc (by rwa [Command.opcode_ofOperation])
  rw [Command.primary_ofOperation, hjump, if_neg Bool.false_ne_true] at hsource
  have hfirst : first ∈ Lexeme.ofText text := mem_ofText_of_operation h List.mem_cons_self
  rcases Operand.ofLexeme_of_isLineEnd hfirst hend with he | he
  · rw [he] at hsource
    cases hsource
  · rw [he] at hsource
    cases hsource

theorem not_isLineEnd_second (hparse : parse text = .ok program)
    (hclean : program.faults links = []) {first second : Lexeme} {others : List Lexeme}
    (h : .operation opcode (first :: second :: others) ∈ statementsOf text) :
    ¬ second.IsLineEnd := by
  intro hend
  obtain ⟨line, hc⟩ := exists_mem_of_operation hparse h
  obtain rfl : opcode = .mov :=
    Opcode.eq_mov_of_one_lt_arity (length_of_operation h ▸ Nat.one_lt_succ_succ _)
  have hdestination := secondary_of_mov hclean hc (Command.opcode_ofOperation _ _ _)
  rw [Command.secondary_ofOperation rfl] at hdestination
  have hsecond : second ∈ Lexeme.ofText text :=
    mem_ofText_of_operation h (List.mem_cons_of_mem _ List.mem_cons_self)
  rcases Operand.ofLexeme_of_isLineEnd hsecond hend with he | he <;> simp [he] at hdestination

/-- Without faults only a label jump takes a line end. -/
theorem isLabelJump_of_isLineEnd (hparse : parse text = .ok program)
    (hclean : program.faults links = []) (h : .operation opcode operands ∈ statementsOf text)
    (hl : lexeme ∈ operands) (hend : lexeme.IsLineEnd) : opcode.isLabelJump := by
  refine Classical.byContradiction fun hjump => ?_
  rw [Bool.not_eq_true] at hjump
  have hlength : operands.length ≤ 2 := length_of_operation h ▸ opcode.arity_le_two
  match operands with
  | [] => cases hl
  | [first] =>
    obtain rfl := List.mem_singleton.mp hl
    exact not_isLineEnd_first hparse hclean h hjump hend
  | [first, second] =>
    rw [List.mem_cons, List.mem_singleton] at hl
    rcases hl with rfl | rfl
    · exact not_isLineEnd_first hparse hclean h hjump hend
    · exact not_isLineEnd_second hparse hclean h hend
  | _ :: _ :: _ :: others => simp at hlength

/-- The target of a label jump without faults is the name of a label of the text. -/
theorem mem_ofText_of_isLabelJump (hparse : parse text = .ok program)
    (hclean : program.faults links = []) {c : Command} (hc : c ∈ program)
    (hjump : c.opcode.isLabelJump) {target : String} (hprimary : c.primary = .text target) :
    ⟨.label, target⟩ ∈ Lexeme.ofText text := by
  obtain ⟨name, label, hname, hlabel⟩ := exists_label_of_isLabelJump hclean hc hjump
  obtain rfl : target = name := Operand.text.inj (hprimary.symm.trans hname)
  obtain ⟨hmem, hlabelName⟩ := findLabel?_eq_some hlabel
  exact mem_ofText_of_label? hparse hmem hlabelName

/-- A label jump without faults that takes a line end goes to the empty name. -/
theorem primary_of_isLineEnd (hparse : parse text = .ok program)
    (hclean : program.faults links = []) (h : .operation opcode operands ∈ statementsOf text)
    (hl : lexeme ∈ operands) (hend : lexeme.IsLineEnd) :
    ∃ c ∈ program, c.opcode.isLabelJump ∧ c.primary = .text "" := by
  have hjump : opcode.isLabelJump := isLabelJump_of_isLineEnd hparse hclean h hl hend
  obtain ⟨line, hc⟩ := exists_mem_of_operation hparse h
  obtain ⟨target, rfl⟩ := List.length_eq_one_iff.mp
    ((length_of_operation h).trans (Opcode.arity_of_isLabelJump hjump))
  obtain rfl := List.mem_singleton.mp hl
  have hprimary : (Command.ofOperation line opcode [lexeme]).primary = .text lexeme.text := by
    rw [Command.primary_ofOperation, if_pos hjump]
  have hcjump : (Command.ofOperation line opcode [lexeme]).opcode.isLabelJump := by
    rwa [Command.opcode_ofOperation]
  refine ⟨_, hc, hcjump, ?_⟩
  have hlabel := mem_ofText_of_isLabelJump hparse hclean hc hcjump hprimary
  rcases (Lexeme.isLineEnd_iff (mem_ofText_of_operation h hl)).mp hend with hsign | hempty
  · exact absurd hsign (Lexeme.name_of_label hlabel).1
  · rw [hprimary, hempty]

/-- A label jump to the empty name has taken a line end. -/
theorem takesLineEnd_of_primary (hparse : parse text = .ok program) {c : Command}
    (hc : c ∈ program) (hjump : c.opcode.isLabelJump) (hprimary : c.primary = .text "") :
    TakesLineEnd text := by
  rw [statements_of_parse hparse] at hc
  obtain ⟨before, s, after, hss, hs⟩ := mem_ofStatements_iff.mp hc
  have hmem : s ∈ statementsOf text := by
    rw [statementsOf, hss]
    simp
  cases s with
  | label name alone =>
    cases hs
    cases hjump
  | comment text => cases hs
  | operation opcode operands =>
    cases hs
    rw [Command.opcode_ofOperation] at hjump
    obtain ⟨target, rfl⟩ := List.length_eq_one_iff.mp
      ((length_of_operation hmem).trans (Opcode.arity_of_isLabelJump hjump))
    rw [Command.primary_ofOperation, if_pos hjump] at hprimary
    have htarget : target ∈ Lexeme.ofText text := mem_ofText_of_operation hmem List.mem_cons_self
    have hend : target.IsLineEnd :=
      (Lexeme.isLineEnd_iff htarget).mpr (Or.inr (Operand.text.inj hprimary))
    exact ⟨opcode, _, target, hmem, List.mem_cons_self, hend⟩

end

/-- A program without faults takes a line end exactly if it has a jump to the empty name. That name
is only there if a line of the text opens with a colon. -/
theorem takesLineEnd_iff {links : LinkSet} {text : String} {program : Program}
    (hparse : parse text = .ok program) (hclean : program.faults links = []) :
    (TakesLineEnd text ↔ ∃ c ∈ program, c.opcode.isLabelJump ∧ c.primary = .text "") ∧
      (TakesLineEnd text → Lexeme.OpensWithColon text) := by
  have hjump : TakesLineEnd text → ∃ c ∈ program, c.opcode.isLabelJump ∧ c.primary = .text "" :=
    fun ⟨_, _, _, h, hl, hend⟩ => primary_of_isLineEnd hparse hclean h hl hend
  refine ⟨⟨hjump, fun ⟨_, hc, hcjump, hprimary⟩ =>
    takesLineEnd_of_primary hparse hc hcjump hprimary⟩, fun htakes => ?_⟩
  obtain ⟨c, hc, hcjump, hprimary⟩ := hjump htakes
  exact (Lexeme.name_of_label (mem_ofText_of_isLabelJump hparse hclean hc hcjump hprimary)).2 rfl

/-- A jump to the label that a colon makes of a line break. -/
def jumpToNameless : Program :=
  [{ line := 0, opcode := .jmp, primary := .text "" },
    { line := 1, opcode := .lbl, primary := .label "" }]

/-- Of two line breaks the jump takes the first, and the colon makes a label of the second. -/
theorem takesLineEnd_jumpToNameless :
    parse "JMP\n\n:" = .ok jumpToNameless ∧ jumpToNameless.faults .empty = [] ∧
      TakesLineEnd "JMP\n\n:" ∧ Lexeme.OpensWithColon "JMP\n\n:" := by
  have hparse : parse "JMP\n\n:" = .ok jumpToNameless := rfl
  have hclean : jumpToNameless.faults .empty = [] := by decide
  obtain ⟨hiff, hcolon⟩ := takesLineEnd_iff hparse hclean
  have htakes : TakesLineEnd "JMP\n\n:" := hiff.mpr ⟨_, List.mem_cons_self, rfl, rfl⟩
  exact ⟨hparse, hclean, htakes, hcolon htakes⟩

/-- So a program without faults may have a line break for an operand. -/
theorem not_operands_before_lineEnd :
    ¬ ∀ (links : LinkSet) (text : String) (program : Program), parse text = .ok program →
      program.faults links = [] → ∀ opcode operands,
      .operation opcode operands ∈ statementsOf text →
      ∀ lexeme ∈ operands, lexeme.kind ≠ .newline ∧ lexeme.kind ≠ .comment := by
  intro h
  have hmem : .operation .jmp [⟨.newline, ""⟩] ∈ statementsOf "JMP\n\n:" := List.mem_cons_self
  obtain ⟨hnewline, _⟩ := h .empty "JMP\n\n:" jumpToNameless rfl (by decide) .jmp _ hmem _
    List.mem_cons_self
  exact hnewline rfl

end Program

end NodeGrid
