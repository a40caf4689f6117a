import NodeGrid.Program.Basic

/-!
# Outlines by cases

What the first lexeme of a program can be, one equation for each case, and the induction that
follows these cases (`ofLexemes_induction`): a label, a comment, an operation with exactly its
operands, an instruction that is cut off, or a lexeme that is passed over.

* `isProper_of_mem_ofLexemes`: an operation of an outline is never a label and has as many operands
  as its instruction takes.
* `length_statements_le`: an outline has no more statements than lexemes.
* `lexemes_subset`: its labels, comments and operands are among the lexemes.
* `exists_statements_append`: an outline that does not end early goes on with what comes next, of
  which it sees only whether a line ends there.
-/

namespace NodeGrid

/-- An operation has the operands of its instruction, and a label is no operation. -/
def Statement.IsProper : Statement → Prop
  | operation opcode operands => opcode ≠ .lbl ∧ operands.length = opcode.arity
  | _ => True

/-- The lexemes that a statement keeps: that of its label or comment, or its operands. -/
def Statement.lexemes : Statement → List Lexeme
  | label name _ => [⟨.label, name⟩]
  | comment text => [⟨.comment, text⟩]
  | operation _ operands => operands

namespace Outline

theorem instruction?_eq_some_iff {lexeme : Lexeme} {opcode : Opcode} :
    instruction? lexeme = some opcode ↔
      lexeme.kind = .word ∧ lexeme.text = opcode.name ∧ opcode ≠ .lbl := by
  unfold instruction?
  split
  · next hk =>
    rw [Option.filter_eq_some_iff, Opcode.ofName?_eq_some_iff, eq_comm, decide_eq_true_iff]
    simp [hk]
  · next hk => simp [hk]

@[simp] theorem statements_cons (s : Statement) (outline : Outline) :
    (outline.cons s).statements = s :: outline.statements := rfl

/-! ## The first lexeme -/

theorem ofLexemes_label {lexeme : Lexeme} (h : lexeme.kind = .label) (rest : List Lexeme) :
    ofLexemes (lexeme :: rest) = (ofLexemes rest).cons (.label lexeme.text (endsLine rest)) := by
  rw [ofLexemes, h]

theorem ofLexemes_comment {lexeme : Lexeme} (h : lexeme.kind = .comment) (rest : List Lexeme) :
    ofLexemes (lexeme :: rest) = (ofLexemes rest).cons (.comment lexeme.text) := by
  rw [ofLexemes, h]

theorem ofLexemes_other {lexeme : Lexeme} (hl : lexeme.kind ≠ .label)
    (hc : lexeme.kind ≠ .comment) (hi : instruction? lexeme = none) (rest : List Lexeme) :
    ofLexemes (lexeme :: rest) = ofLexemes rest := by
  rw [ofLexemes]
  split
  · contradiction
  · contradiction
  · rw [hi]

theorem ofLexemes_operation_append {lexeme : Lexeme} {opcode : Opcode} {operands : List Lexeme}
    (hi : instruction? lexeme = some opcode) (hl : operands.length = opcode.arity)
    (rest : List Lexeme) :
    ofLexemes (lexeme :: (operands ++ rest)) =
      (ofLexemes rest).cons (.operation opcode operands) := by
  rw [ofLexemes_operation hi (by simp [hl]), ← hl, List.drop_left, List.take_left]

/-- A program is empty, or starts with a label, a comment, an operation with its operands, an
instruction that is cut off, or a lexeme that is passed over. -/
@[elab_as_elim]
theorem ofLexemes_induction {motive : List Lexeme → Prop} (nil : motive [])
    (label : ∀ lexeme rest, lexeme.kind = .label → motive rest → motive (lexeme :: rest))
    (comment : ∀ lexeme rest, lexeme.kind = .comment → motive rest → motive (lexeme :: rest))
    (operation : ∀ lexeme opcode operands rest, instruction? lexeme = some opcode →
      operands.length = opcode.arity → motive rest → motive (lexeme :: (operands ++ rest)))
    (cutOff : ∀ lexeme opcode rest, instruction? lexeme = some opcode →
      rest.length < opcode.arity → motive (lexeme :: rest))
    (other : ∀ lexeme rest, lexeme.kind ≠ .label → lexeme.kind ≠ .comment →
      instruction? lexeme = none → motive rest → motive (lexeme :: rest))
    (lexemes : List Lexeme) : motive lexemes := by
  induction hn : lexemes.length using Nat.strongRecOn generalizing lexemes with
  | ind n ih =>
    cases lexemes with
    | nil => exact nil
    | cons lexeme rest =>
      rw [List.length_cons] at hn
      have hrest : motive rest := ih rest.length (by omega) rest rfl
      by_cases hl : lexeme.kind = .label
      · exact label lexeme rest hl hrest
      by_cases hc : lexeme.kind = .comment
      · exact comment lexeme rest hc hrest
      cases hi : instruction? lexeme with
      | none => exact other lexeme rest hl hc hi hrest
      | some opcode =>
        rcases Nat.lt_or_ge rest.length opcode.arity with ha | ha
        · exact cutOff lexeme opcode rest hi ha
        · have hdrop : motive (rest.drop opcode.arity) :=
            ih _ (by rw [List.length_drop]; omega) _ rfl
          have := operation lexeme opcode (rest.take opcode.arity) _ hi
            (by rw [List.length_take]; omega) hdrop
          rwa [List.take_append_drop] at this

/-! ## Statements of an outline -/

theorem isProper_of_mem_ofLexemes {lexemes : List Lexeme} :
    ∀ s ∈ (ofLexemes lexemes).statements, s.IsProper := by
  induction lexemes using ofLexemes_induction with
  | nil => simp [ofLexemes]
  | label lexeme rest hk ih => simpa [ofLexemes_label hk, Statement.IsProper] using ih
  | comment lexeme rest hk ih => simpa [ofLexemes_comment hk, Statement.IsProper] using ih
  | operation lexeme opcode operands rest hi hl ih =>
    rw [ofLexemes_operation_append hi hl, statements_cons, List.forall_mem_cons]
    exact ⟨⟨(instruction?_eq_some_iff.mp hi).2.2, hl⟩, ih⟩
  | cutOff lexeme opcode rest hi hl => simp [ofLexemes_cutOff hi hl]
  | other lexeme rest hl hc hi ih => rwa [ofLexemes_other hl hc hi]

theorem length_statements_le (lexemes : List Lexeme) :
    (ofLexemes lexemes).statements.length ≤ lexemes.length := by
  induction lexemes using ofLexemes_induction with
  | nil => exact Nat.le_refl 0
  | label lexeme rest hk ih => simpa [ofLexemes_label hk] using ih
  | comment lexeme rest hk ih => simpa [ofLexemes_comment hk] using ih
  | operation lexeme opcode operands rest hi hl ih =>
    rw [ofLexemes_operation_append hi hl, statements_cons, List.length_cons, List.length_cons,
      List.length_append]
    omega
  | cutOff lexeme opcode rest hi hl => simp [ofLexemes_cutOff hi hl]
  | other lexeme rest hl hc hi ih =>
    rw [ofLexemes_other hl hc hi, List.length_cons]
    omega

theorem lexemes_subset {lexemes : List Lexeme} :
    ∀ s ∈ (ofLexemes lexemes).statements, s.lexemes ⊆ lexemes := by
  induction lexemes using ofLexemes_induction with
  | nil => simp [ofLexemes]
  | label lexeme rest hk ih | comment lexeme rest hk ih =>
    have hlexeme : ⟨lexeme.kind, lexeme.text⟩ ∈ lexeme :: rest := List.mem_cons_self
    rw [hk] at hlexeme
    simp only [ofLexemes_label, ofLexemes_comment, hk, statements_cons, List.forall_mem_cons]
    refine ⟨List.cons_subset.mpr ⟨hlexeme, List.nil_subset _⟩, fun s hs => ?_⟩
    exact List.subset_cons_of_subset _ (ih s hs)
  | operation lexeme opcode operands rest hi hl ih =>
    rw [ofLexemes_operation_append hi hl, statements_cons, List.forall_mem_cons]
    refine ⟨List.subset_cons_of_subset _ (List.subset_append_left _ _), fun s hs => ?_⟩
    exact List.subset_cons_of_subset _ (List.subset_append_of_subset_right _ (ih s hs))
  | cutOff lexeme opcode rest hi hl => simp [ofLexemes_cutOff hi hl]
  | other lexeme rest hl hc hi ih =>
    rw [ofLexemes_other hl hc hi]
    exact fun s hs => List.subset_cons_of_subset _ (ih s hs)

/-! ## One outline after the other -/

/-- Whether a line ends is seen on the next lexeme. -/
theorem endsLine_append {xs : List Lexeme} (hxs : xs ≠ []) (ys : List Lexeme) :
    endsLine (xs ++ ys) = endsLine xs := by
  cases xs with
  | nil => contradiction
  | cons x xs => rfl

/-- An outline that does not end early goes on with the outline of what comes next. A label at its
end looks at the next lexeme. -/
theorem exists_statements_append {xs : List Lexeme} (h : (ofLexemes xs).cutOff? = none) :
    ∃ statements : Bool → List Statement, ∀ ys, ofLexemes (xs ++ ys) =
      { statements := statements (endsLine ys) ++ (ofLexemes ys).statements
        cutOff? := (ofLexemes ys).cutOff? } := by
  induction xs using ofLexemes_induction with
  | nil => exact ⟨fun _ => [], fun ys => rfl⟩
  | label lexeme rest hk ih =>
    rw [ofLexemes_label hk] at h
    obtain ⟨statements, hstatements⟩ := ih h
    by_cases hrest : rest = []
    · subst hrest
      refine ⟨fun ends => [.label lexeme.text ends], fun ys => ?_⟩
      rw [List.singleton_append, ofLexemes_label hk]
      rfl
    · refine ⟨fun ends => .label lexeme.text (endsLine rest) :: statements ends, fun ys => ?_⟩
      rw [List.cons_append, ofLexemes_label hk, hstatements, endsLine_append hrest]
      rfl
  | comment lexeme rest hk ih =>
    rw [ofLexemes_comment hk] at h
    obtain ⟨statements, hstatements⟩ := ih h
    refine ⟨fun ends => .comment lexeme.text :: statements ends, fun ys => ?_⟩
    rw [List.cons_append, ofLexemes_comment hk, hstatements]
    rfl
  | operation lexeme opcode operands rest hi hl ih =>
    rw [ofLexemes_operation_append hi hl] at h
    obtain ⟨statements, hstatements⟩ := ih h
    refine ⟨fun ends => .operation opcode operands :: statements ends, fun ys => ?_⟩
    rw [List.cons_append, List.append_assoc, ofLexemes_operation_append hi hl, hstatements]
    rfl
  | cutOff lexeme opcode rest hi hl =>
    rw [ofLexemes_cutOff hi hl] at h
    cases h
  | other lexeme rest hl hc hi ih =>
    rw [ofLexemes_other hl hc hi] at h
    obtain ⟨statements, hstatements⟩ := ih h
    refine ⟨statements, fun ys => ?_⟩
    rw [List.cons_append, ofLexemes_other hl hc hi, hstatements]

/-- Before a lexeme that ends no line the outline is what it is by itself. -/
theorem ofLexemes_append {xs : List Lexeme} (h : (ofLexemes xs).cutOff? = none) {ys : List Lexeme}
    (hys : endsLine ys = false) :
    ofLexemes (xs ++ ys) =
      { statements := (ofLexemes xs).statements ++ (ofLexemes ys).statements
        cutOff? := (ofLexemes ys).cutOff? } := by
  obtain ⟨statements, hstatements⟩ := exists_statements_append h
  have halone : statements false = (ofLexemes xs).statements := by
    have hnil := congrArg Outline.statements (hstatements [])
    rw [List.append_nil] at hnil
    simpa [ofLexemes, endsLine] using hnil.symm
  rw [hstatements, hys, halone]

end Outline

end NodeGrid
