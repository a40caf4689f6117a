import NodeGrid.Proofs.Program.Outline
import NodeGrid.Proofs.Program.Words

/-!
# Programs read back

The written form of a program is read as that program, if each of its commands could have been
written and stands on the line of its own number.

* `Operand.IsCanonical`, `Command.IsCanonical`, `Program.IsCanonical`: what can be written.
* `Command.IsCanonical.ofText_render`: the lexemes of a written command.
* `Program.parse_render`: reading undoes writing.
-/

namespace NodeGrid

/-- A name made of characters without a meaning of their own. -/
def IsWord (s : String) : Prop :=
  s.toList ≠ [] ∧ ∀ c ∈ s.toList, Kind.ofChar c = .word ∧ c ≠ '\r'

instance (s : String) : Decidable (IsWord s) :=
  @instDecidableAnd _ _ inferInstance (List.decidableBAll _ _)

theorem IsWord.isSolid {s : String} (h : IsWord s) : Lexeme.IsSolid ⟨.word, s⟩ :=
  ⟨Or.inl rfl, h.1, h.2⟩

/-! ## Words and numbers -/

namespace Numeral

theorem ofChar_of_isDigit {c : Char} (h : c.isDigit) : Kind.ofChar c = .number := by
  have hne (d : Char) (hd : d.isDigit = false) : c ≠ d := by
    rintro rfl
    rw [hd] at h
    contradiction
  simp [Kind.ofChar, hne ' ' rfl, hne '\n' rfl, hne ',' rfl, hne '#' rfl, hne ':' rfl, h]

theorem isSolid_print (value : Int32) :
    Lexeme.IsSolid ⟨.number, String.ofList (print value.toInt)⟩ := by
  have hdigits (n : Nat) : ∀ c ∈ Nat.toDigits 10 n, Kind.ofChar c = .number :=
    fun c hc => ofChar_of_isDigit (isDigit_of_mem_toDigits hc)
  have hchars : ∀ c ∈ print value.toInt, Kind.ofChar c = .number := by
    cases value.toInt with
    | ofNat n => exact hdigits n
    | negSucc n =>
      intro c hc
      rcases List.mem_cons.mp hc with rfl | hc
      · rfl
      · exact hdigits (n + 1) c hc
  have hnonempty : print value.toInt ≠ [] := by
    cases value.toInt with
    | ofNat n => exact Nat.toDigits_ne_nil
    | negSucc n => exact List.cons_ne_nil _ _
  refine ⟨Or.inr rfl, by simpa using hnonempty, ?_⟩
  intro c hc
  rw [String.toList_ofList] at hc
  refine ⟨hchars c hc, ?_⟩
  rintro rfl
  exact absurd (hchars '\r' hc) (by decide)

theorem readMagnitude_of_not_isDigit {digits : List Char} (h : ∀ c ∈ digits, c.isDigit = false)
    (limit : Nat) (excess : Error) : readMagnitude limit excess digits = .error .invalidDigit := by
  cases digits with
  | nil => rfl
  | cons c rest => simp [readMagnitude, readDigits, h c (by simp)]

/-- A word is no number. -/
theorem readInt32_of_isWord {s : String} (h : IsWord s) :
    readInt32 s = .error .invalidDigit := by
  obtain ⟨c, rest, hs⟩ := List.exists_cons_of_ne_nil h.1
  have hdigits : ∀ d ∈ c :: rest, d.isDigit = false := by
    intro d hd
    rw [← hs] at hd
    refine Bool.eq_false_iff.mpr fun hdigit => ?_
    have hword := (h.2 d hd).1
    rw [ofChar_of_isDigit hdigit] at hword
    contradiction
  have hminus : c ≠ '-' := by
    rintro rfl
    have hword := (h.2 '-' (by simp [hs])).1
    exact absurd hword (by decide)
  have hread (least greatest : Nat) : read least greatest (c :: rest) = .error .invalidDigit := by
    unfold read
    split
    · contradiction
    · next he =>
      cases he
      rw [readMagnitude_of_not_isDigit fun d hd => hdigits d (List.mem_cons_of_mem _ hd)]
      rfl
    · next he =>
      cases he
      contradiction
    · rw [readMagnitude_of_not_isDigit hdigits]
      rfl
  rw [readInt32, hs, hread]
  rfl

end Numeral

/-! ## Operands -/

namespace Operand

/-- A value, or a plain word that is not the name of one. -/
def IsCanonical : Operand → Prop
  | .number _ | .acc | .side _ => True
  | .text word => IsWord word ∧ word ≠ accName ∧ Direction.ofName? word = none
  | .empty | .label _ => False

/-- The lexeme of a written operand. -/
def lexeme (o : Operand) : Lexeme where
  kind := match o with
    | .number _ => .number
    | _ => .word
  text := o.render

variable {o : Operand}

theorem IsCanonical.isEmpty (h : o.IsCanonical) : o.isEmpty = false := by
  cases o with
  | empty => exact h.elim
  | _ => rfl

theorem IsCanonical.isSolid (h : o.IsCanonical) : o.lexeme.IsSolid := by
  cases o with
  | number value => exact Numeral.isSolid_print value
  | acc => exact IsWord.isSolid (by decide)
  | side d => exact IsWord.isSolid (by cases d <;> decide)
  | text word => exact h.1.isSolid
  | empty => exact h.elim
  | label name => exact h.elim

/-- An operand is read as what it was written for. -/
theorem IsCanonical.ofLexeme_lexeme (h : o.IsCanonical) : ofLexeme o.lexeme = o := by
  cases o with
  | number value =>
    have hread := Numeral.readInt32_print value
    -- The name of the accumulator is looked for first, and is no numeral.
    have hacc : String.ofList (Numeral.print value.toInt) ≠ accName := by
      have hname : Numeral.readInt32 accName = .error .invalidDigit := rfl
      intro he
      rw [he, hname] at hread
      contradiction
    simp [ofLexeme, lexeme, render, hacc, hread]
  | acc => rfl
  | side d => cases d <;> rfl
  | text word =>
    obtain ⟨hword, hacc, hside⟩ := h
    simp [ofLexeme, lexeme, render, hacc, hside, Numeral.readInt32_of_isWord hword]
  | empty => exact h.elim
  | label name => exact h.elim

end Operand

/-! ## Commands -/

namespace Command

/-- A command as it is written: with operands for its instruction, and a word where it names a
label. -/
def IsCanonical (c : Command) : Prop :=
  match c.opcode with
  | .lbl => ∃ name, c.primary = .label name ∧ IsWord name ∧ c.secondary = .empty
  | .nop | .swp | .sav | .neg => c.primary = .empty ∧ c.secondary = .empty
  | .mov => c.primary.IsCanonical ∧ c.secondary.IsCanonical
  | .add | .sub | .jro => c.primary.IsCanonical ∧ c.secondary = .empty
  | .jmp | .jez | .jnz | .jgz | .jlz =>
    ∃ target, c.primary = .text target ∧ IsWord target ∧ c.secondary = .empty

/-- The lexemes of the operands of a written command. -/
def operandLexemes (c : Command) : List Lexeme :=
  ([c.primary, c.secondary].filter (!·.isEmpty)).map Operand.lexeme

/-- The lexemes of a written command. -/
def lexemes (c : Command) : List Lexeme :=
  match c.label? with
  | some name => [⟨.label, name⟩]
  | none => ⟨.word, c.opcode.name⟩ :: c.operandLexemes

/-- The statement of a written command. -/
def statement (c : Command) (alone : Bool) : Statement :=
  match c.label? with
  | some name => .label name alone
  | none => .operation c.opcode c.operandLexemes

variable {c : Command}

theorem label?_of_ne_lbl (h : c.opcode ≠ .lbl) : c.label? = none := by
  unfold label?
  split
  · contradiction
  · rfl

theorem render_of_label? {name : String} (h : c.label? = some name) : c.render = name ++ ":" := by
  rw [render, h]

theorem lexemes_of_label? {name : String} (h : c.label? = some name) :
    c.lexemes = [⟨.label, name⟩] := by
  rw [lexemes, h]

theorem statement_of_label? {name : String} (h : c.label? = some name) (alone : Bool) :
    c.statement alone = .label name alone := by
  rw [statement, h]

theorem lexemes_of_ne_lbl (h : c.opcode ≠ .lbl) :
    c.lexemes = ⟨.word, c.opcode.name⟩ :: c.operandLexemes := by
  rw [lexemes, label?_of_ne_lbl h]

theorem statement_of_ne_lbl (h : c.opcode ≠ .lbl) (alone : Bool) :
    c.statement alone = .operation c.opcode c.operandLexemes := by
  rw [statement, label?_of_ne_lbl h]

/-- Every command but a label is written as its lexemes with spaces between them. -/
theorem render_eq_intercalate (h : c.opcode ≠ .lbl) :
    c.render = " ".intercalate (((⟨.word, c.opcode.name⟩ : Lexeme) :: c.operandLexemes).map
      Lexeme.text) := by
  unfold render render.written operandLexemes
  rw [label?_of_ne_lbl h]
  cases hprimary : c.primary.isEmpty <;> cases hsecondary : c.secondary.isEmpty <;>
    simp [hprimary, hsecondary, Operand.lexeme, String.append_assoc]

theorem operandLexemes_of_secondary_empty (hprimary : c.primary.isEmpty = false)
    (hsecondary : c.secondary.isEmpty) : c.operandLexemes = [c.primary.lexeme] := by
  simp [operandLexemes, hprimary, hsecondary]

theorem isSolid_name (op : Opcode) : Lexeme.IsSolid ⟨.word, op.name⟩ :=
  IsWord.isSolid (by cases op <;> decide)

namespace IsCanonical

/-- A label has a name and nothing else. -/
theorem exists_label (h : c.IsCanonical) (hop : c.opcode = .lbl) :
    ∃ name, IsWord name ∧ c.label? = some name ∧
      c = { line := c.line, opcode := .lbl, primary := .label name } := by
  obtain ⟨line, opcode, primary, secondary⟩ := c
  cases hop
  obtain ⟨name, rfl, hname, rfl⟩ := h
  exact ⟨name, hname, rfl, rfl⟩

/-- The operands of any other command are read as what they were written for. -/
theorem operands (h : c.IsCanonical) (hop : c.opcode ≠ .lbl) :
    (∀ lexeme ∈ c.operandLexemes, lexeme.IsSolid) ∧
      c.operandLexemes.length = c.opcode.arity ∧
      ofOperation c.line c.opcode c.operandLexemes = c := by
  obtain ⟨line, opcode, primary, secondary⟩ := c
  cases opcode
  case lbl => contradiction
  case nop | swp | sav | neg =>
    obtain ⟨rfl, rfl⟩ := h
    exact ⟨by simp [operandLexemes, Operand.isEmpty], rfl, rfl⟩
  case mov =>
    obtain ⟨hprimary, hsecondary⟩ := h
    have hlexemes : operandLexemes ⟨line, .mov, primary, secondary⟩ =
        [primary.lexeme, secondary.lexeme] := by
      simp [operandLexemes, hprimary.isEmpty, hsecondary.isEmpty]
    rw [hlexemes]
    refine ⟨by simpa using ⟨hprimary.isSolid, hsecondary.isSolid⟩, rfl, ?_⟩
    simp [ofOperation, Opcode.isLabelJump, hprimary.ofLexeme_lexeme, hsecondary.ofLexeme_lexeme]
  case add | sub | jro =>
    obtain ⟨hprimary, rfl⟩ := h
    rw [operandLexemes_of_secondary_empty hprimary.isEmpty rfl]
    refine ⟨by simpa using hprimary.isSolid, rfl, ?_⟩
    simp [ofOperation, Opcode.isLabelJump, hprimary.ofLexeme_lexeme]
  case jmp | jez | jnz | jgz | jlz =>
    obtain ⟨target, rfl, htarget, rfl⟩ := h
    rw [operandLexemes_of_secondary_empty rfl rfl]
    exact ⟨List.forall_mem_singleton.mpr htarget.isSolid, rfl, rfl⟩

/-- A written command has its lexemes. -/
theorem ofText_render (h : c.IsCanonical) : Lexeme.ofText c.render = c.lexemes := by
  by_cases hop : c.opcode = .lbl
  · obtain ⟨name, hname, hlabel, _⟩ := h.exists_label hop
    have hread := Lexeme.ofText_label hname.isSolid
    rw [render_of_label? hlabel, lexemes_of_label? hlabel]
    exact hread
  · obtain ⟨hsolid, _, _⟩ := h.operands hop
    rw [render_eq_intercalate hop, lexemes_of_ne_lbl hop]
    exact Lexeme.ofText_intercalate (List.forall_mem_cons.mpr ⟨isSolid_name c.opcode, hsolid⟩)

theorem isLine_render (h : c.IsCanonical) : Lexeme.IsLine c.render := by
  by_cases hop : c.opcode = .lbl
  · obtain ⟨name, hname, hlabel, _⟩ := h.exists_label hop
    rw [render_of_label? hlabel]
    exact Lexeme.isLine_label hname.isSolid rfl
  · obtain ⟨hsolid, _, _⟩ := h.operands hop
    rw [render_eq_intercalate hop]
    exact Lexeme.isLine_intercalate (List.forall_mem_cons.mpr ⟨isSolid_name c.opcode, hsolid⟩) rfl

/-- The lexemes of a command are its statement. -/
theorem ofLexemes_append (h : c.IsCanonical) (rest : List Lexeme) :
    Outline.ofLexemes (c.lexemes ++ rest) =
      (Outline.ofLexemes rest).cons (c.statement (Outline.endsLine rest)) := by
  by_cases hop : c.opcode = .lbl
  · obtain ⟨name, _, hlabel, _⟩ := h.exists_label hop
    rw [lexemes_of_label? hlabel, statement_of_label? hlabel]
    exact Outline.ofLexemes_label rfl rest
  · obtain ⟨_, hlength, _⟩ := h.operands hop
    rw [lexemes_of_ne_lbl hop, statement_of_ne_lbl hop]
    exact Outline.ofLexemes_operation_append
      (Outline.instruction?_eq_some_iff.mpr ⟨rfl, rfl, hop⟩) hlength rest

theorem ofStatement?_statement (h : c.IsCanonical) (alone : Bool) :
    ofStatement? c.line (c.statement alone) = some c := by
  by_cases hop : c.opcode = .lbl
  · obtain ⟨name, _, hlabel, hc⟩ := h.exists_label hop
    rw [statement_of_label? hlabel]
    exact congrArg some hc.symm
  · obtain ⟨_, _, hoperation⟩ := h.operands hop
    rw [statement_of_ne_lbl hop]
    exact congrArg some hoperation

end IsCanonical

/-- Before a line break every command counts for one line. -/
theorem height_statement (c : Command) : (c.statement true).height = 1 := by
  unfold statement
  split <;> rfl

end Command

/-! ## Programs -/

namespace Program

/-- Commands as they are written, each on the line of its own number. -/
def IsCanonical (program : Program) : Prop :=
  ∀ (place : Nat) (c : Command), program[place]? = some c → c.line = place ∧ c.IsCanonical

/-- The statements of a written program; a label on the last line has no line break after it. -/
def statements : Program → List Statement
  | [] => []
  | c :: rest => c.statement (!rest.isEmpty) :: statements rest

theorem outline_lexemes {program : Program} (h : ∀ c ∈ program, c.IsCanonical) :
    Outline.ofLexemes ([(⟨.newline, ""⟩ : Lexeme)].intercalate (program.map Command.lexemes)) =
      { statements := program.statements } := by
  induction program with
  | nil => rfl
  | cons c rest ih =>
    have hc := h c List.mem_cons_self
    have hrest := ih fun d hd => h d (List.mem_cons_of_mem c hd)
    cases rest with
    | nil =>
      have hlast := hc.ofLexemes_append []
      rw [List.append_nil] at hlast
      rw [List.map_cons, List.map_nil, List.intercalate_singleton, hlast]
      rfl
    | cons d rest =>
      have hnewline (lexemes : List Lexeme) :
          Outline.ofLexemes (⟨.newline, ""⟩ :: lexemes) = Outline.ofLexemes lexemes :=
        Outline.ofLexemes_other (by simp) (by simp) rfl lexemes
      rw [List.map_cons] at hrest ⊢
      rw [List.map_cons, List.intercalate_cons_cons, List.append_assoc, hc.ofLexemes_append,
        List.singleton_append, hnewline, hrest]
      rfl

/-- The lines of a written program are counted as its commands. -/
theorem ofStatements_statements {program : Program} {line : Nat}
    (h : ∀ (place : Nat) (c : Command), program[place]? = some c →
      c.line = line + place ∧ c.IsCanonical) :
    ofStatements line program.statements = program := by
  induction program generalizing line with
  | nil => rfl
  | cons c rest ih =>
    obtain ⟨hline, hc⟩ := h 0 c rfl
    have hrest : ∀ (place : Nat) (d : Command), rest[place]? = some d →
        d.line = line + 1 + place ∧ d.IsCanonical := by
      intro place d hd
      obtain ⟨hdline, hdcanonical⟩ := h (place + 1) d hd
      exact ⟨by omega, hdcanonical⟩
    have hcommand : Command.ofStatement? line (c.statement (!rest.isEmpty)) = some c := by
      rw [show line = c.line from hline.symm]
      exact hc.ofStatement?_statement _
    have hlater : ofStatements (line + (c.statement (!rest.isEmpty)).height) (statements rest) =
        rest := by
      cases rest with
      | nil => rfl
      | cons d rest =>
        rw [show (!(d :: rest).isEmpty) = true from rfl, Command.height_statement]
        exact ih hrest
    rw [statements, ofStatements, hcommand]
    exact congrArg (c :: ·) hlater

/-- Reading undoes writing. -/
theorem parse_render {program : Program} (h : program.IsCanonical) :
    parse ("\n".intercalate (program.map Command.render)) = .ok program := by
  have hcanonical : ∀ c ∈ program, c.IsCanonical := by
    intro c hc
    obtain ⟨place, hplace⟩ := List.mem_iff_getElem?.mp hc
    exact (h place c hplace).2
  have hlines : ∀ line ∈ program.map Command.render, Lexeme.IsLine line := by
    intro line hline
    obtain ⟨c, hc, rfl⟩ := List.mem_map.mp hline
    exact (hcanonical c hc).isLine_render
  have hlexemes : (program.map Command.render).map Lexeme.ofText =
      program.map Command.lexemes := by
    rw [List.map_map]
    exact List.map_congr_left fun c hc => (hcanonical c hc).ofText_render
  have hstatements : ofStatements 0 program.statements = program := by
    apply ofStatements_statements
    intro place c hc
    rw [Nat.zero_add]
    exact h place c hc
  rw [parse, Lexeme.ofText_lines hlines, hlexemes, ofLexemes, outline_lexemes hcanonical]
  exact congrArg Except.ok hstatements

/-- Names of instructions and registers may be labels, also several in a row. -/
def labelled : Program :=
  [{ line := 0, opcode := .lbl, primary := .label "ADD" },
    { line := 1, opcode := .lbl, primary := .label "ACC" },
    { line := 2, opcode := .mov, primary := .number (-2147483648), secondary := .text "NOP" },
    { line := 3, opcode := .jmp, primary := .text "ACC" },
    { line := 4, opcode := .lbl, primary := .label "end" }]

theorem parse_render_labelled :
    labelled.IsCanonical ∧
      parse ("\n".intercalate (labelled.map Command.render)) = .ok labelled := by
  have h : labelled.IsCanonical := by
    intro place c hc
    match place with
    | 0 =>
      cases hc
      exact ⟨rfl, "ADD", rfl, by decide, rfl⟩
    | 1 =>
      cases hc
      exact ⟨rfl, "ACC", rfl, by decide, rfl⟩
    | 2 =>
      cases hc
      exact ⟨rfl, trivial, by decide, by decide, by decide⟩
    | 3 =>
      cases hc
      exact ⟨rfl, "ACC", rfl, by decide, rfl⟩
    | 4 =>
      cases hc
      exact ⟨rfl, "end", rfl, by decide, rfl⟩
    | place + 5 => cases hc
  exact ⟨h, parse_render h⟩

end Program

end NodeGrid
