import NodeGrid.Proofs.Program.Concatenation

/-!
# Instructions that are cut off

A program is refused exactly where it ends in the middle of an operation. An operation takes its
operands whatever they are, so whether a word is an instruction at all is known only from what
stands before it: that has to be a program by itself.

* `Statement.lines_eq_countP`: lines are counted by operations, comments and labels that stand
  alone.
* `Outline.exists_split_of_cutOff?`: an outline that ends early ends in the middle of an operation.
* `CutOff.eq`: a program is cut off at one place only.
* `ofLexemes_error_iff`: what is refused, and the error that says so.
-/

namespace NodeGrid

namespace Statement

def isOperation : Statement → Bool
  | operation _ _ => true
  | _ => false

/-- A label with nothing else on its line. -/
def isAlone : Statement → Bool
  | label _ alone => alone
  | _ => false

theorem height_eq (s : Statement) :
    s.height = s.isOperation.toNat + s.isComment.toNat + s.isAlone.toNat := by
  cases s with
  | label name alone => cases alone <;> rfl
  | comment text => rfl
  | operation opcode operands => rfl

theorem lines_eq_countP (ss : List Statement) :
    lines ss = ss.countP isOperation + ss.countP isComment + ss.countP isAlone := by
  have hcount (p : Statement → Bool) (s : Statement) (ss : List Statement) :
      (s :: ss).countP p = ss.countP p + (p s).toNat := by
    rw [List.countP_cons]
    cases p s <;> rfl
  induction ss with
  | nil => rfl
  | cons s ss ih =>
    rw [lines_cons, height_eq, ih, hcount, hcount, hcount]
    omega

end Statement

namespace Outline

/-- Where an outline ends early, the lexemes before the instruction have an outline that
does not. -/
theorem exists_split_of_cutOff? {lexemes : List Lexeme} {opcode : Opcode} {found : Nat}
    (h : (ofLexemes lexemes).cutOff? = some (opcode, found)) :
    ∃ before lexeme rest, lexemes = before ++ lexeme :: rest ∧
      (ofLexemes before).cutOff? = none ∧ instruction? lexeme = some opcode ∧
      rest.length < opcode.arity := by
  induction lexemes using ofLexemes_induction with
  | nil => cases h
  | label first others hk ih =>
    rw [ofLexemes_label hk] at h
    obtain ⟨before, lexeme, rest, rfl, hbefore, hcut⟩ := ih h
    refine ⟨first :: before, lexeme, rest, rfl, ?_, hcut⟩
    rwa [ofLexemes_label hk]
  | comment first others hk ih =>
    rw [ofLexemes_comment hk] at h
    obtain ⟨before, lexeme, rest, rfl, hbefore, hcut⟩ := ih h
    refine ⟨first :: before, lexeme, rest, rfl, ?_, hcut⟩
    rwa [ofLexemes_comment hk]
  | operation first op operands others hi hl ih =>
    rw [ofLexemes_operation_append hi hl] at h
    obtain ⟨before, lexeme, rest, rfl, hbefore, hcut⟩ := ih h
    refine ⟨first :: (operands ++ before), lexeme, rest, by simp, ?_, hcut⟩
    rwa [ofLexemes_operation_append hi hl]
  | cutOff first op rest hi hl =>
    rw [ofLexemes_cutOff hi hl] at h
    cases h
    exact ⟨[], first, rest, rfl, rfl, hi, hl⟩
  | other first others hl hc hi ih =>
    rw [ofLexemes_other hl hc hi] at h
    obtain ⟨before, lexeme, rest, rfl, hbefore, hcut⟩ := ih h
    refine ⟨first :: before, lexeme, rest, rfl, ?_, hcut⟩
    rwa [ofLexemes_other hl hc hi]

/-- An instruction after a complete outline ends it, if too few lexemes are left. -/
theorem ofLexemes_append_cutOff {before : List Lexeme} (h : (ofLexemes before).cutOff? = none)
    {lexeme : Lexeme} {opcode : Opcode} (hi : instruction? lexeme = some opcode)
    {rest : List Lexeme} (hl : rest.length < opcode.arity) :
    ofLexemes (before ++ lexeme :: rest) =
      { statements := (ofLexemes before).statements, cutOff? := some (opcode, rest.length) } := by
  have hends : endsLine (lexeme :: rest) = false := by
    simp [endsLine, kind_of_instruction? hi]
  rw [ofLexemes_append h hends, ofLexemes_cutOff hi hl, List.append_nil]

end Outline

namespace Program

open Statement

/-! ## Where a program is cut off -/

/-- A place where a program ends in the middle of an operation: after the lexemes of a program by
itself, an instruction with fewer lexemes left than it has operands. -/
structure CutOff (lexemes : List Lexeme) where
  before : List Lexeme
  program : Program
  lexeme : Lexeme
  opcode : Opcode
  rest : List Lexeme
  split : lexemes = before ++ lexeme :: rest
  parses : ofLexemes before = .ok program
  kind : lexeme.kind = .word
  text : lexeme.text = opcode.name
  ne_lbl : opcode ≠ .lbl
  short : rest.length < opcode.arity

namespace CutOff

variable {lexemes : List Lexeme}

theorem outline_eq (cut : CutOff lexemes) :
    Outline.ofLexemes lexemes =
      { statements := (Outline.ofLexemes cut.before).statements
        cutOff? := some (cut.opcode, cut.rest.length) } := by
  have hcomplete := (ofLexemes_eq_ok_iff.mp cut.parses).1
  have hinstruction := Outline.instruction?_eq_some_iff.mpr ⟨cut.kind, cut.text, cut.ne_lbl⟩
  have houtline := Outline.ofLexemes_append_cutOff hcomplete hinstruction cut.short
  rwa [← cut.split] at houtline

/-- The number of lexemes left tells the place. -/
theorem eq (cut other : CutOff lexemes) : other = cut := by
  have hsame : some (cut.opcode, cut.rest.length) = some (other.opcode, other.rest.length) :=
    (congrArg Outline.cutOff? cut.outline_eq).symm.trans (congrArg Outline.cutOff? other.outline_eq)
  obtain ⟨hopcode, hlength⟩ := Prod.mk.inj (Option.some.inj hsame)
  obtain ⟨hbefore, hrest⟩ := List.append_inj' (other.split.symm.trans cut.split)
    (by rw [List.length_cons, List.length_cons, hlength])
  obtain ⟨hlexeme, hrest⟩ := List.cons.inj hrest
  have hprogram : other.program = cut.program := by
    have hparses := other.parses
    rw [hbefore, cut.parses] at hparses
    exact (Except.ok.inj hparses).symm
  cases cut
  cases other
  cases hbefore
  cases hprogram
  cases hlexeme
  cases hopcode
  cases hrest
  rfl

end CutOff

/-! ## What is refused -/

/-- Operations are the commands that are no labels. -/
theorem countP_ofStatements {ss : List Statement} (hss : ∀ s ∈ ss, s.IsProper) (line : Nat) :
    (ofStatements line ss).countP (·.opcode ≠ .lbl) = ss.countP isOperation := by
  induction ss generalizing line with
  | nil => rfl
  | cons s ss ih =>
    obtain ⟨hs, hss⟩ := List.forall_mem_cons.mp hss
    rw [ofStatements_cons, List.countP_append, ih hss, List.countP_cons, Nat.add_comm]
    cases s with
    | label name alone => rfl
    | comment text => rfl
    | operation opcode operands => simp [Command.ofStatement?, isOperation, hs.1]

/-- A program is refused exactly if it is cut off somewhere. There is one such place, and the error
tells its instruction, how many operands that takes, how many lexemes are left, and its line: the
lines of the operations, the comments that are no operands and the labels alone on their line before
it. -/
theorem ofLexemes_error_iff (lexemes : List Lexeme) :
    ((∃ e, ofLexemes lexemes = .error e) ↔ Nonempty (CutOff lexemes)) ∧
      ∀ cut : CutOff lexemes, (∀ other : CutOff lexemes, other = cut) ∧
        ∃ e, ofLexemes lexemes = .error e ∧ e.opcode = cut.opcode ∧
          e.expected = cut.opcode.arity ∧ e.found = cut.rest.length ∧
          e.line = cut.program.countP (·.opcode ≠ .lbl) +
            (Outline.ofLexemes cut.before).statements.countP isComment +
            (Outline.ofLexemes cut.before).statements.countP isAlone := by
  have herror (cut : CutOff lexemes) : ofLexemes lexemes = .error
      { opcode := cut.opcode, line := lines (Outline.ofLexemes cut.before).statements,
        found := cut.rest.length } := by
    rw [ofLexemes, cut.outline_eq]
    rfl
  refine ⟨⟨?_, fun h => h.elim fun cut => ⟨_, herror cut⟩⟩,
    fun cut => ⟨cut.eq, _, herror cut, rfl, rfl, rfl, ?_⟩⟩
  · rintro ⟨e, he⟩
    cases hcut : (Outline.ofLexemes lexemes).cutOff? with
    | none =>
      rw [ofLexemes_eq_ok_iff.mpr ⟨hcut, rfl⟩] at he
      cases he
    | some cut =>
      obtain ⟨before, lexeme, rest, hsplit, hbefore, hi, hshort⟩ :=
        Outline.exists_split_of_cutOff? hcut
      obtain ⟨hkind, htext, hlbl⟩ := Outline.instruction?_eq_some_iff.mp hi
      exact ⟨⟨before, _, lexeme, _, rest, hsplit, ofLexemes_eq_ok_iff.mpr ⟨hbefore, rfl⟩, hkind,
        htext, hlbl, hshort⟩⟩
  · have hprogram := (ofLexemes_eq_ok_iff.mp cut.parses).2
    rw [hprogram, countP_ofStatements Outline.isProper_of_mem_ofLexemes, ← lines_eq_countP]

/-- A program that is cut off on its last line, after a label and a comment on their own lines. -/
def cutMove : CutOff (Lexeme.ofText "A:\n# c\nADD # d\nMOV 1") where
  before := Lexeme.ofText "A:\n# c\nADD # d\n"
  program := [{ line := 0, opcode := .lbl, primary := .label "A" },
    { line := 2, opcode := .add, primary := .empty }]
  lexeme := ⟨.word, "MOV"⟩
  opcode := .mov
  rest := [⟨.number, "1"⟩]
  split := by decide
  parses := rfl
  kind := rfl
  text := rfl
  ne_lbl := nofun
  short := by decide

theorem ofLexemes_error_cutMove :
    ∃ e, ofLexemes (Lexeme.ofText "A:\n# c\nADD # d\nMOV 1") = .error e ∧ e.opcode = .mov ∧
      e.expected = 2 ∧ e.found = 1 ∧ e.line = 3 := by
  obtain ⟨-, e, he, hopcode, hexpected, hfound, hline⟩ := (ofLexemes_error_iff _).2 cutMove
  exact ⟨e, he, hopcode, hexpected, hfound, hline⟩

end Program

end NodeGrid
