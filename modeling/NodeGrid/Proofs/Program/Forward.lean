import Mathlib.Data.List.Chain
import NodeGrid.Proofs.Program.Clean
import NodeGrid.Proofs.Program.Distances
import NodeGrid.Proofs.Program.Origins

/-!
# Programs that jump forward

Jumps go by lines, while what lies ahead of a jump is a matter of places. In a text without comments
whose labels have their lines to themselves a command stands on the line of its place
(`line_eq_of_parse`). A label at the very end takes no line, but no command comes after it.

* `isShared_of_labelsEndLine`: no label before the last statement shares its line.
* `isComment_of_not_mem`: without the sign there is no comment.
* `IsForward.findLabel?_eq`: a jump of such a program finds the label ahead of it that it names, on
  the line of its place.
-/

namespace NodeGrid

/-! ## Labels and line breaks -/

/-- What follows a label is a line break, if anything follows it. -/
def Lexeme.LabelsEndLine (lexemes : List Lexeme) : Prop :=
  lexemes.IsChain fun lexeme next => lexeme.kind = .label → next.kind = .newline

namespace Outline

open Lexeme

variable {lexemes : List Lexeme}

/-- A label with statements after it has its line to itself. -/
theorem endsLine_of_labelsEndLine {lexeme : Lexeme} {rest : List Lexeme}
    (h : LabelsEndLine (lexeme :: rest)) (hk : lexeme.kind = .label)
    (hrest : (ofLexemes rest).statements ≠ []) : endsLine rest = true := by
  cases rest with
  | nil => exact absurd rfl hrest
  | cons next rest =>
    have hnext := (List.isChain_cons_cons.mp h).1 hk
    simpa [endsLine] using hnext

theorem forall_mem_dropLast_cons {α : Type} {p : α → Prop} {x : α} {xs : List α}
    (hx : xs ≠ [] → p x) (hxs : ∀ y ∈ xs.dropLast, p y) : ∀ y ∈ (x :: xs).dropLast, p y := by
  cases xs with
  | nil => simp
  | cons y ys =>
    rw [List.dropLast_cons_cons, List.forall_mem_cons]
    exact ⟨hx (List.cons_ne_nil y ys), hxs⟩

/-- Only the last statement can be a label that shares its line. -/
theorem isShared_of_labelsEndLine (h : LabelsEndLine lexemes) :
    ∀ s ∈ (ofLexemes lexemes).statements.dropLast, s.isShared = false := by
  induction lexemes using ofLexemes_induction with
  | nil => simp [ofLexemes]
  | label lexeme rest hk ih =>
    rw [ofLexemes_label hk, statements_cons]
    refine forall_mem_dropLast_cons (fun hrest => ?_) (ih h.tail)
    rw [Statement.isShared, endsLine_of_labelsEndLine h hk hrest, Bool.not_true]
  | comment lexeme rest hk ih =>
    rw [ofLexemes_comment hk, statements_cons]
    exact forall_mem_dropLast_cons (fun _ => rfl) (ih h.tail)
  | operation lexeme opcode operands rest hi hl ih =>
    have hrest : LabelsEndLine rest := h.tail.suffix (List.suffix_append operands rest)
    rw [ofLexemes_operation_append hi hl, statements_cons]
    exact forall_mem_dropLast_cons (fun _ => rfl) (ih hrest)
  | cutOff lexeme opcode rest hi hl => simp [ofLexemes_cutOff hi hl]
  | other lexeme rest hl hc hi ih =>
    rw [ofLexemes_other hl hc hi]
    exact ih h.tail

end Outline

/-! ## Comments -/

namespace Lexeme

theorem unifyBreaks_subset (cs : List Char) : unifyBreaks cs ⊆ cs := by
  fun_induction unifyBreaks cs with
  | case1 => exact List.Subset.refl _
  | case2 rest ih => exact List.subset_cons_of_subset _ (List.cons_subset_cons _ ih)
  | case3 c rest hpair ih => exact List.cons_subset_cons c ih

theorem kind_ne_comment_of_not_mem {text : String} (hsign : '#' ∉ text.toList) :
    ∀ lexeme ∈ ofText text, lexeme.kind ≠ .comment := by
  intro lexeme hlexeme
  have hall : lexeme ∈ all text := (List.mem_filter.mp hlexeme).1
  rw [all_eq_scan] at hall
  have hunified : '#' ∉ unifyBreaks text.toList := fun h => hsign (unifyBreaks_subset _ h)
  cases origin_of_mem_scan hall with
  | @plain kind run hkind hrun =>
    rw [kind_ofRun]
    rintro rfl
    cases hkind
  | named hkind hrun | lineBreak | nameless hes hcolon => exact nofun
  | comment run hmem => exact absurd rfl (kind_ne_of_mem_classify rfl hunified _ hmem)

end Lexeme

namespace Program

open Statement Lexeme

variable {program : Program} {text : String} {c : Command} {place : Nat}

theorem isComment_of_not_mem (hsign : '#' ∉ text.toList) :
    ∀ s ∈ statementsOf text, s.isComment = false := by
  intro s hs
  cases s with
  | comment content =>
    have hmem : ⟨.comment, content⟩ ∈ ofText text :=
      Outline.lexemes_subset _ hs (List.mem_singleton_self _)
    exact absurd rfl (kind_ne_comment_of_not_mem hsign _ hmem)
  | label name alone | operation opcode operands => rfl

/-! ## Lines -/

/-- Without comments, and with labels on lines of their own, lines are places. -/
theorem line_eq_of_parse (hparse : parse text = .ok program) (hsign : '#' ∉ text.toList)
    (hlabels : LabelsEndLine (ofText text)) (hc : program[place]? = some c) : c.line = place := by
  have hcomment := isComment_of_not_mem hsign
  have hshared := Outline.isShared_of_labelsEndLine hlabels
  rw [statements_of_parse hparse] at hc
  obtain ⟨before, s, after, hss, hplace, -⟩ := getElem?_ofStatements_iff.mp hc
  rw [statementsOf, hss] at hcomment
  rw [hss, List.dropLast_append_cons] at hshared
  have hlevel : before.countP isComment = before.countP isShared := by
    rw [List.countP_eq_zero.mpr fun t ht => by simp [hcomment t (by simp [ht])],
      List.countP_eq_zero.mpr fun t ht => by simp [hshared t (by simp [ht])]]
  exact (levelAt_iff hc).mp ⟨before, s, after, hss, hcomment s (by simp), hplace, hlevel⟩

/-! ## Jumps -/

/-- Every label jump names a label that comes later. -/
def JumpsForward (program : Program) : Prop :=
  ∀ (place : Nat) (c : Command), program[place]? = some c → c.opcode.isLabelJump →
    ∃ target, c.primary = .text target ∧
      ∃ label ∈ program.drop (place + 1), label.label? = some target

/-- No faults, no relative jump, no side and no way back, and each command on the line that is its
place. -/
structure IsForward (links : LinkSet) (program : Program) : Prop where
  clean : program.faults links = []
  opcode_ne : ∀ c ∈ program, c.opcode ≠ .jro
  primary_side? : ∀ c ∈ program, c.primary.side? = none
  secondary_side? : ∀ c ∈ program, c.secondary.side? = none
  jumps : JumpsForward program
  line_eq : ∀ (place : Nat) (c : Command), program[place]? = some c → c.line = place
  length_lt : program.length < 2 ^ 63

namespace IsForward

variable {links : LinkSet}

/-- A label jump finds a label on a line ahead of its place, within the program. -/
theorem findLabel?_eq (h : IsForward links program) (hc : program[place]? = some c)
    (hjump : c.opcode.isLabelJump) :
    ∃ target label, c.primary = .text target ∧ program.findLabel? target = some label ∧
      place < label.line ∧ label.line < program.length := by
  obtain ⟨target, hprimary, ahead, hahead, hname⟩ := h.jumps place c hc hjump
  obtain ⟨target', label, hprimary', hlabel⟩ :=
    exists_label_of_isLabelJump h.clean (List.mem_of_getElem? hc) hjump
  obtain rfl : target = target' := Operand.text.inj (hprimary.symm.trans hprimary')
  obtain ⟨hmem, hlabelname⟩ := findLabel?_eq_some hlabel
  -- The label that is found may be another one of the name, but it is on the line of the one ahead.
  have hsame := line_eq_of_label?_eq h.clean (List.mem_of_mem_drop hahead) hmem hname hlabelname
  obtain ⟨i, hi⟩ := List.mem_iff_getElem?.mp hahead
  rw [List.getElem?_drop] at hi
  have hline := h.line_eq _ ahead hi
  obtain ⟨hlt, -⟩ := List.getElem?_eq_some_iff.mp hi
  exact ⟨target, label, hprimary, hlabel, by omega, by omega⟩

end IsForward

end Program

end NodeGrid
