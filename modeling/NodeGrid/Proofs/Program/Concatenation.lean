import NodeGrid.Proofs.Program.Lines

/-!
# Texts one below the other

A text is read line by line, so what is read from two texts, one below the other, is what is read
from each, with the lines of the second one counted on from the first. A label at the end of the
first text shares its line with nothing as soon as there is a next line, so the lines of the first
text are counted with the line break after it.

* `ofLexemes_append_newline`: the outline of lexemes that are not cut off before a line break.
* `ofStatements_add`: commands that start on a later line.
* `parse_append_newline`: a text below one that parses.
-/

namespace NodeGrid

/-- The lexeme of a line break. -/
def Lexeme.lineBreak : Lexeme := ⟨.newline, ""⟩

namespace Outline

open Lexeme (lineBreak)

/-- A line break is passed over. -/
theorem ofLexemes_lineBreak (rest : List Lexeme) :
    ofLexemes (lineBreak :: rest) = ofLexemes rest :=
  ofLexemes_other (by decide) (by decide) rfl rest

/-- Where no instruction is cut off before it, a line break divides the outline. -/
theorem ofLexemes_append_newline {xs : List Lexeme} (h : (ofLexemes xs).cutOff? = none)
    (ys : List Lexeme) :
    ofLexemes (xs ++ lineBreak :: ys) =
      { statements := (ofLexemes (xs ++ [lineBreak])).statements ++ (ofLexemes ys).statements
        cutOff? := (ofLexemes ys).cutOff? } := by
  obtain ⟨statements, hstatements⟩ := exists_statements_append h
  have hends (zs : List Lexeme) : endsLine (lineBreak :: zs) = true := rfl
  have hbreak := hstatements [lineBreak]
  rw [ofLexemes_lineBreak, hends] at hbreak
  rw [hstatements, hbreak, ofLexemes_lineBreak, hends]
  simp [ofLexemes]

end Outline

namespace Command

theorem ofOperation_add (line n : Nat) (opcode : Opcode) (operands : List Lexeme) :
    ofOperation (line + n) opcode operands =
      { ofOperation line opcode operands with line := line + n } := by
  unfold ofOperation
  dsimp only
  split <;> rfl

/-- A statement that stands further down has its command further down. -/
theorem ofStatement?_add (line n : Nat) (s : Statement) :
    ofStatement? (line + n) s =
      (ofStatement? line s).map fun c => { c with line := c.line + n } := by
  cases s with
  | label name alone => rfl
  | comment text => rfl
  | operation opcode operands =>
    rw [ofStatement?, ofStatement?, ofOperation_add, Option.map_some, line_ofOperation]

end Command

namespace Program

open Outline Statement
open Lexeme (lineBreak)

/-! ## Commands -/

theorem ofStatements_cons (line : Nat) (s : Statement) (ss : List Statement) :
    ofStatements line (s :: ss) =
      (Command.ofStatement? line s).toList ++ ofStatements (line + s.height) ss := by
  rw [ofStatements]
  cases Command.ofStatement? line s <;> rfl

/-- Statements that start on a later line have their commands further down. -/
theorem ofStatements_add (line n : Nat) (ss : List Statement) :
    ofStatements (line + n) ss =
      (ofStatements line ss).map fun c => { c with line := c.line + n } := by
  induction ss generalizing line with
  | nil => rfl
  | cons s ss ih =>
    rw [ofStatements_cons, ofStatements_cons, Command.ofStatement?_add, Nat.add_right_comm, ih,
      List.map_append, Option.toList_map]

/-- A line break at the end changes no command, only the height of a label before it. -/
theorem ofStatements_append_lineBreak {xs : List Lexeme}
    (h : (Outline.ofLexemes xs).cutOff? = none) (line : Nat) :
    ofStatements line (Outline.ofLexemes (xs ++ [lineBreak])).statements =
      ofStatements line (Outline.ofLexemes xs).statements := by
  induction xs using ofLexemes_induction generalizing line with
  | nil => rw [List.nil_append, ofLexemes_lineBreak]
  | label lexeme rest hk ih =>
    rw [ofLexemes_label hk] at h
    rw [List.cons_append, ofLexemes_label hk, ofLexemes_label hk]
    cases rest with
    | nil => rfl
    | cons next rest =>
      rw [statements_cons, statements_cons, ofStatements_cons, ofStatements_cons, ← ih h]
      rfl
  | comment lexeme rest hk ih =>
    rw [ofLexemes_comment hk] at h
    rw [List.cons_append, ofLexemes_comment hk, ofLexemes_comment hk, statements_cons,
      statements_cons, ofStatements_cons, ofStatements_cons, ih h]
  | operation lexeme opcode operands rest hi hl ih =>
    rw [ofLexemes_operation_append hi hl] at h
    rw [List.cons_append, List.append_assoc, ofLexemes_operation_append hi hl,
      ofLexemes_operation_append hi hl, statements_cons, statements_cons, ofStatements_cons,
      ofStatements_cons, ih h]
  | cutOff lexeme opcode rest hi hl =>
    rw [ofLexemes_cutOff hi hl] at h
    cases h
  | other lexeme rest hl hc hi ih =>
    rw [ofLexemes_other hl hc hi] at h
    rw [List.cons_append, ofLexemes_other hl hc hi, ofLexemes_other hl hc hi, ih h]

/-! ## Programs -/

theorem cutOff?_of_parse {text : String} {program : Program} (h : parse text = .ok program) :
    (Outline.ofLexemes (Lexeme.ofText text)).cutOff? = none :=
  (ofLexemes_eq_ok_iff.mp h).1

/-- The program of an outline with statements put before it. -/
theorem ofOutline_append (ss : List Statement) (outline : Outline) :
    ofOutline { outline with statements := ss ++ outline.statements } =
      match ofOutline outline with
      | .ok later =>
        .ok (ofStatements 0 ss ++ later.map fun c => { c with line := c.line + lines ss })
      | .error e => .error { e with line := e.line + lines ss } := by
  obtain ⟨ts, cutOff⟩ := outline
  cases cutOff with
  | none =>
    show Except.ok (ofStatements 0 (ss ++ ts)) = _
    rw [ofStatements_append, ofStatements_add]
    rfl
  | some cut =>
    show Except.error
      ({ opcode := cut.1, line := lines (ss ++ ts), found := cut.2 } : ParseError) = _
    rw [lines_append, Nat.add_comm]
    rfl

/-- What is read from a text below one that parses: the commands of the first text and then those of
the second, each further down by the number of lines that the first text and its line break count
for. If an instruction is cut off in the second text, so it is in both together, further down by the
same number. -/
theorem parse_append_newline {a b : String} {program : Program} (hparse : parse a = .ok program)
    (ha : a.toList.getLast? ≠ some '\r') (hb : b.toList.find? (· ≠ ',') ≠ some ':') :
    Lexeme.ofText (a ++ "\n" ++ b) = Lexeme.ofText a ++ lineBreak :: Lexeme.ofText b ∧
      parse (a ++ "\n" ++ b) =
        let n := (Outline.ofLexemes (Lexeme.ofText a ++ [lineBreak])).height
        match parse b with
        | .ok later => .ok (program ++ later.map fun c => { c with line := c.line + n })
        | .error e => .error { e with line := e.line + n } := by
  have hlexemes :
      Lexeme.ofText (a ++ "\n" ++ b) = Lexeme.ofText a ++ lineBreak :: Lexeme.ofText b :=
    Lexeme.ofText_append_newline ha hb
  have hcut := cutOff?_of_parse hparse
  have hprogram : ofStatements 0 (Outline.ofLexemes (Lexeme.ofText a ++ [lineBreak])).statements =
      program := by
    rw [ofStatements_append_lineBreak hcut, statements_of_parse hparse]
  refine ⟨hlexemes, ?_⟩
  rw [parse, ofLexemes, hlexemes, ofLexemes_append_newline hcut, ofOutline_append, hprogram]
  rfl

/-- A comment and a label alone on its line count for two lines. -/
theorem parse_append_newline_loop :
    parse "# again\nL:" = .ok [{ line := 1, opcode := .lbl, primary := .label "L" }] ∧
      parse "# again\nL:\n,NEG\nJMP L" =
        .ok [{ line := 1, opcode := .lbl, primary := .label "L" }, { line := 2, opcode := .neg },
          { line := 3, opcode := .jmp, primary := .text "L" }] ∧
      parse "# again\nL:\n,NEG\nJMP" = .error { opcode := .jmp, line := 3, found := 0 } := by
  have hparse : parse "# again\nL:" = .ok [{ line := 1, opcode := .lbl, primary := .label "L" }] :=
    rfl
  have hjump := (@parse_append_newline _ ",NEG\nJMP L" _ hparse (by decide) (by decide)).2
  have hcut := (@parse_append_newline _ ",NEG\nJMP" _ hparse (by decide) (by decide)).2
  exact ⟨hparse, hjump, hcut⟩

end Program

end NodeGrid
