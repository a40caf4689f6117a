import NodeGrid.Proofs.Program.Distances

/-!
# Lines counted on the lexemes

An instruction takes the lexemes after it whatever they are, so a comment may be an operand. The
lexemes that are no operands are the heads: from the first one on, each head says how many lexemes
after it are none. Comments among the heads take a line and no place; labels among them that no line
break follows take a place and no line.

* `map_opcode_eq_filterMap_heads`: the commands are those of the heads, in order.
* `line_add_sharedBefore`: a command stands on the line that is its place and the comments before
  it, less the labels before it that share their line.
* `line_eq_add_sub`: so lines never go down, and they are the places where the two counts agree.
-/

namespace NodeGrid

namespace Outline

/-- A lexeme that is no operand, with whether a line break comes right after it. -/
structure Head where
  lexeme : Lexeme
  endsLine : Bool
  deriving DecidableEq

namespace Head

/-- The instruction of the command that it makes, if it makes one. -/
def opcode? (head : Head) : Option Opcode :=
  if head.lexeme.kind = .label then some .lbl else instruction? head.lexeme

def isComment (head : Head) : Bool := head.lexeme.kind = .comment

/-- A label with something else on its line. -/
def isShared (head : Head) : Bool := head.lexeme.kind = .label && !head.endsLine

variable {head : Head}

theorem not_isComment (h : head.lexeme.kind ≠ .comment) : ¬ head.isComment := by
  simpa [isComment] using h

theorem not_isShared (h : head.lexeme.kind ≠ .label) : ¬ head.isShared := by
  simp [isShared, h]

theorem opcode?_of_label (h : head.lexeme.kind = .label) : head.opcode? = some .lbl := if_pos h

theorem opcode?_of_instruction? {opcode : Opcode} (h : instruction? head.lexeme = some opcode) :
    head.opcode? = some opcode := by
  rw [opcode?, if_neg (by simp [kind_of_instruction? h]), h]

theorem opcode?_of_none (hl : head.lexeme.kind ≠ .label) (hi : instruction? head.lexeme = none) :
    head.opcode? = none := by
  rw [opcode?, if_neg hl, hi]

end Head

/-- The number of lexemes after it that a lexeme takes as operands. -/
def operandCount (lexeme : Lexeme) : Nat :=
  match instruction? lexeme with
  | some opcode => opcode.arity
  | none => 0

/-- The lexemes that are no operands, where the first ones are operands of what stands before. -/
def heads : Nat → List Lexeme → List Head
  | _, [] => []
  | operands + 1, _ :: rest => heads operands rest
  | 0, lexeme :: rest => ⟨lexeme, endsLine rest⟩ :: heads (operandCount lexeme) rest

/-- The heads before that of the command at a place. -/
def headsBefore : Nat → List Head → List Head
  | _, [] => []
  | 0, head :: rest => if head.opcode?.isSome then [] else head :: headsBefore 0 rest
  | place + 1, head :: rest =>
    head :: headsBefore (if head.opcode?.isSome then place else place + 1) rest

/-- The comments before the command at a place that are no operands. -/
def commentsBefore (lexemes : List Lexeme) (place : Nat) : Nat :=
  (headsBefore place (heads 0 lexemes)).countP Head.isComment

/-- The labels before the command at a place that no line break follows. -/
def sharedBefore (lexemes : List Lexeme) (place : Nat) : Nat :=
  (headsBefore place (heads 0 lexemes)).countP Head.isShared

/-! ## Heads by cases -/

theorem instruction?_of_label {lexeme : Lexeme} (h : lexeme.kind = .label) :
    instruction? lexeme = none := if_neg (by simp [h])

theorem instruction?_of_comment {lexeme : Lexeme} (h : lexeme.kind = .comment) :
    instruction? lexeme = none := if_neg (by simp [h])

theorem heads_of_instruction?_none {lexeme : Lexeme} (h : instruction? lexeme = none)
    (rest : List Lexeme) : heads 0 (lexeme :: rest) = ⟨lexeme, endsLine rest⟩ :: heads 0 rest := by
  rw [heads, operandCount, h]

theorem heads_append (operands rest : List Lexeme) :
    heads operands.length (operands ++ rest) = heads 0 rest := by
  induction operands with
  | nil => rfl
  | cons operand operands ih => exact ih

theorem heads_operation {lexeme : Lexeme} {opcode : Opcode} {operands : List Lexeme}
    (hi : instruction? lexeme = some opcode) (hl : operands.length = opcode.arity)
    (rest : List Lexeme) : heads 0 (lexeme :: (operands ++ rest)) =
      ⟨lexeme, endsLine (operands ++ rest)⟩ :: heads 0 rest := by
  rw [heads, operandCount, hi]
  dsimp only
  rw [← hl, heads_append]

section Before

variable {head : Head} {opcode : Opcode}

theorem headsBefore_cons_of_none (h : head.opcode? = none) (place : Nat) (hs : List Head) :
    headsBefore place (head :: hs) = head :: headsBefore place hs := by
  cases place <;> simp [headsBefore, h]

theorem headsBefore_zero_cons (h : head.opcode? = some opcode) (hs : List Head) :
    headsBefore 0 (head :: hs) = [] := by
  simp [headsBefore, h]

theorem headsBefore_succ_cons (h : head.opcode? = some opcode) (place : Nat) (hs : List Head) :
    headsBefore (place + 1) (head :: hs) = head :: headsBefore place hs := by
  simp [headsBefore, h]

end Before

end Outline

namespace Program

open Outline

variable {lexemes : List Lexeme} {program : Program} {c : Command} {line place : Nat}

/-! ## Commands and heads -/

/-- The commands are those of the heads, in order. -/
theorem map_opcode_eq_filterMap_heads (hcomplete : (Outline.ofLexemes lexemes).cutOff? = none)
    (line : Nat) : (ofStatements line (Outline.ofLexemes lexemes).statements).map (·.opcode) =
      (heads 0 lexemes).filterMap Head.opcode? := by
  induction lexemes using ofLexemes_induction generalizing line with
  | nil => rfl
  | label lexeme rest hk ih =>
    rw [ofLexemes_label hk] at hcomplete ⊢
    rw [heads_of_instruction?_none (instruction?_of_label hk),
      List.filterMap_cons_some (Head.opcode?_of_label hk), ← ih hcomplete]
    rfl
  | comment lexeme rest hk ih =>
    have hi := instruction?_of_comment hk
    rw [ofLexemes_comment hk] at hcomplete ⊢
    rw [heads_of_instruction?_none hi,
      List.filterMap_cons_none (Head.opcode?_of_none (by simp [hk]) hi), ← ih hcomplete]
    rfl
  | operation lexeme opcode operands rest hi hl ih =>
    rw [ofLexemes_operation_append hi hl] at hcomplete ⊢
    rw [heads_operation hi hl, List.filterMap_cons_some (Head.opcode?_of_instruction? hi),
      ← ih hcomplete, statements_cons, ofStatements, Command.ofStatement?, List.map_cons,
      Command.opcode_ofOperation]
  | cutOff lexeme opcode rest hi hl =>
    rw [ofLexemes_cutOff hi hl] at hcomplete
    cases hcomplete
  | other lexeme rest hl hc hi ih =>
    rw [ofLexemes_other hl hc hi] at hcomplete ⊢
    rw [heads_of_instruction?_none hi, List.filterMap_cons_none (Head.opcode?_of_none hl hi),
      ih hcomplete]

/-- A command stands on the line that is its place and the comments before it, less the labels
before it that share their line. -/
theorem line_add_sharedBefore
    (hc : (ofStatements line (Outline.ofLexemes lexemes).statements)[place]? = some c) :
    c.line + sharedBefore lexemes place = line + place + commentsBefore lexemes place := by
  unfold sharedBefore commentsBefore
  induction lexemes using ofLexemes_induction generalizing line place with
  | nil => simp [Outline.ofLexemes, ofStatements] at hc
  | label lexeme rest hk ih =>
    have hop : Head.opcode? ⟨lexeme, endsLine rest⟩ = some .lbl := Head.opcode?_of_label hk
    rw [ofLexemes_label hk] at hc
    rw [heads_of_instruction?_none (instruction?_of_label hk)]
    cases place with
    | zero =>
      obtain rfl := Option.some.inj hc
      rw [headsBefore_zero_cons hop]
      rfl
    | succ place =>
      have hrest := ih hc
      rw [headsBefore_succ_cons hop, List.countP_cons_of_neg (Head.not_isComment (by simp [hk]))]
      cases hends : endsLine rest with
      | true =>
        rw [hends] at hrest
        rw [List.countP_cons_of_neg (by simp [Head.isShared])]
        simp only [Statement.height, if_true] at hrest
        omega
      | false =>
        rw [hends] at hrest
        rw [List.countP_cons_of_pos (by simp [Head.isShared, hk])]
        simp only [Statement.height, Bool.false_eq_true, if_false] at hrest
        omega
  | comment lexeme rest hk ih =>
    have hi := instruction?_of_comment hk
    have hop : Head.opcode? ⟨lexeme, endsLine rest⟩ = none :=
      Head.opcode?_of_none (by simp [hk]) hi
    rw [ofLexemes_comment hk] at hc
    have hrest := ih hc
    rw [heads_of_instruction?_none hi, headsBefore_cons_of_none hop,
      List.countP_cons_of_neg (Head.not_isShared (by simp [hk])),
      List.countP_cons_of_pos (by simp [Head.isComment, hk])]
    simp only [Statement.height] at hrest
    omega
  | operation lexeme opcode operands rest hi hl ih =>
    have hk := kind_of_instruction? hi
    have hop : Head.opcode? ⟨lexeme, endsLine (operands ++ rest)⟩ = some opcode :=
      Head.opcode?_of_instruction? hi
    rw [ofLexemes_operation_append hi hl] at hc
    rw [heads_operation hi hl]
    cases place with
    | zero =>
      obtain rfl := Option.some.inj hc
      rw [headsBefore_zero_cons hop, Command.line_ofOperation]
      rfl
    | succ place =>
      have hrest := ih hc
      rw [headsBefore_succ_cons hop, List.countP_cons_of_neg (Head.not_isShared (by simp [hk])),
        List.countP_cons_of_neg (Head.not_isComment (by simp [hk]))]
      simp only [Statement.height] at hrest
      omega
  | cutOff lexeme opcode rest hi hl =>
    rw [ofLexemes_cutOff hi hl] at hc
    simp [ofStatements] at hc
  | other lexeme rest hl hcomment hi ih =>
    have hop : Head.opcode? ⟨lexeme, endsLine rest⟩ = none := Head.opcode?_of_none hl hi
    rw [ofLexemes_other hl hcomment hi] at hc
    rw [heads_of_instruction?_none hi, headsBefore_cons_of_none hop,
      List.countP_cons_of_neg (Head.not_isShared hl),
      List.countP_cons_of_neg (Head.not_isComment hcomment), ih hc]

/-! ## Lines and places -/

/-- The largest line is that of the last command. -/
theorem line_le_of_getLast? {last : Command} (ss : List Statement)
    (hlast : (ofStatements line ss).getLast? = some last) (hc : c ∈ ofStatements line ss) :
    c.line ≤ last.line := by
  rw [List.getLast?_eq_getElem?] at hlast
  rw [← lastLine_ofStatements hlast]
  exact line_le_lastLine hc

/-- Whenever lexemes are read as a program, its commands are those of the heads, in order, and each
stands on the line that is its place, plus the comments before it, less the labels before it that
share their line; neither counts what is an operand. So lines do not go down, only labels share one
with a later command, and the last command has the largest one. All commands stand on the lines of
their places exactly if before each of them there are as many such comments as such labels. -/
theorem line_eq_add_sub (hprogram : ofLexemes lexemes = .ok program) :
    program.map (·.opcode) = (heads 0 lexemes).filterMap Head.opcode? ∧
      (∀ (place : Nat) (c : Command), program[place]? = some c →
        (c.line : Int) = place + commentsBefore lexemes place - sharedBefore lexemes place) ∧
      program.Pairwise (·.line ≤ ·.line) ∧
      program.Pairwise (fun c later => c.opcode ≠ .lbl → c.line < later.line) ∧
      (∀ last, program.getLast? = some last → ∀ c ∈ program, c.line ≤ last.line) ∧
      ((∀ (place : Nat) (c : Command), program[place]? = some c → c.line = place) ↔
        ∀ place < program.length, commentsBefore lexemes place = sharedBefore lexemes place) := by
  obtain ⟨hcomplete, rfl⟩ := ofLexemes_eq_ok_iff.mp hprogram
  have hline {place : Nat} {c : Command}
      (hc : (ofStatements 0 (Outline.ofLexemes lexemes).statements)[place]? = some c) :
      c.line + sharedBefore lexemes place = place + commentsBefore lexemes place := by
    rw [line_add_sharedBefore hc, Nat.zero_add]
  refine ⟨map_opcode_eq_filterMap_heads hcomplete 0, fun place c hc => ?_, pairwise_line_le 0 _,
    pairwise_line_lt 0 _, fun last hlast c hc => line_le_of_getLast? _ hlast hc, ?_, ?_⟩
  · have := hline hc
    omega
  · intro hplaces place hlt
    have hc := List.getElem?_eq_getElem hlt
    have hplace := hplaces place _ hc
    have := hline hc
    omega
  · intro hlevel place c hc
    obtain ⟨hlt, -⟩ := List.getElem?_eq_some_iff.mp hc
    have hcounts := hlevel place hlt
    have := hline hc
    omega

/-- Two labels that share their lines, and two comments of which the second one is an operand. -/
def annotated : Program :=
  [{ line := 0, opcode := .lbl, primary := .label "A" }, { line := 1, opcode := .add },
    { line := 2, opcode := .lbl, primary := .label "B" }, { line := 2, opcode := .nop }]

/-- The last command stands one line before its place: only the first comment is counted. -/
theorem line_eq_add_sub_annotated :
    let lexemes := Lexeme.ofText "A: # start\nADD # end\nB: NOP"
    ofLexemes lexemes = .ok annotated ∧ annotated[3]? = some { line := 2, opcode := .nop } ∧
      commentsBefore lexemes 3 = 1 ∧ sharedBefore lexemes 3 = 2 ∧
      ((2 : Nat) : Int) = (3 : Nat) + commentsBefore lexemes 3 - sharedBefore lexemes 3 := by
  intro lexemes
  have hprogram : ofLexemes lexemes = .ok annotated := rfl
  obtain ⟨-, hlines, -⟩ := line_eq_add_sub hprogram
  exact ⟨hprogram, rfl, rfl, rfl, hlines 3 _ rfl⟩

end Program

end NodeGrid
