import NodeGrid.Proofs.Program.Outline
import NodeGrid.Proofs.Program.Scanning

/-!
# Lines and places

A command has a place, its index in the program, and a line. The two are counted differently: a
comment takes a line and no place, and a label that shares its line takes a place and no line of
its own. Before any statement the two differences make up all of the drift between places and
lines (`lines_add_shared`).

* `getElem?_ofStatements_iff`: the command at a place is that of the statement with so many
  commands before it, on the line that is the sum of the heights before it.
* `label_on_place_iff`: a label stands on the line that is its own place exactly where the
  comments before it are as many as the labels before it that share their line.
* `length_parse_le`, `line_parse_lt`: places and lines are bounded by the length of the text.
-/

namespace NodeGrid

namespace Statement

def isComment : Statement → Bool
  | comment _ => true
  | _ => false

/-- A label with something else on its line. -/
def isShared : Statement → Bool
  | label _ alone => !alone
  | _ => false

/-- The number of lines that a list of statements counts for. -/
def lines (ss : List Statement) : Nat := ss.foldr (fun s n => s.height + n) 0

@[simp] theorem lines_nil : lines [] = 0 := rfl

@[simp] theorem lines_cons (s : Statement) (ss : List Statement) :
    lines (s :: ss) = s.height + lines ss := rfl

theorem lines_append (ss ts : List Statement) : lines (ss ++ ts) = lines ss + lines ts := by
  induction ss with
  | nil => exact (Nat.zero_add _).symm
  | cons s ss ih => rw [List.cons_append, lines_cons, lines_cons, ih, Nat.add_assoc]

theorem lines_le_length (ss : List Statement) : lines ss ≤ ss.length := by
  induction ss with
  | nil => exact Nat.le_refl 0
  | cons s ss ih =>
    have hs : s.height ≤ 1 := by
      cases s with
      | label name alone => cases alone <;> simp [height]
      | comment text => exact Nat.le_refl 1
      | operation opcode operands => exact Nat.le_refl 1
    rw [lines_cons, List.length_cons]
    omega

end Statement

namespace Command

@[simp] theorem line_ofOperation (line : Nat) (opcode : Opcode) (operands : List Lexeme) :
    (ofOperation line opcode operands).line = line := by
  unfold ofOperation
  dsimp only
  split <;> rfl

@[simp] theorem opcode_ofOperation (line : Nat) (opcode : Opcode) (operands : List Lexeme) :
    (ofOperation line opcode operands).opcode = opcode := by
  unfold ofOperation
  dsimp only
  split <;> rfl

theorem line_of_ofStatement? {line : Nat} {s : Statement} {c : Command}
    (h : ofStatement? line s = some c) : c.line = line := by
  cases s with
  | label name alone =>
    cases h
    rfl
  | comment text => cases h
  | operation opcode operands =>
    cases h
    exact line_ofOperation line opcode operands

end Command

namespace Program

open Statement

/-! ## Commands of a list of statements -/

theorem ofStatements_append (line : Nat) (ss ts : List Statement) :
    ofStatements line (ss ++ ts) = ofStatements line ss ++ ofStatements (line + lines ss) ts := by
  induction ss generalizing line with
  | nil => rfl
  | cons s ss ih =>
    simp only [List.cons_append, ofStatements, ih, lines_cons, Nat.add_assoc]
    split <;> rfl

/-- A comment takes a line and no place, a label that shares its line a place and no line. -/
theorem lines_add_shared (line : Nat) (ss : List Statement) :
    lines ss + ss.countP isShared = (ofStatements line ss).length + ss.countP isComment := by
  induction ss generalizing line with
  | nil => rfl
  | cons s ss ih =>
    have hs := ih (line + s.height)
    cases s with
    | label name alone =>
      cases alone <;>
        simp only [ofStatements, Command.ofStatement?, lines_cons, height, List.countP_cons,
          isShared, isComment, List.length_cons] at hs ⊢ <;> grind
    | comment text =>
      simp only [ofStatements, Command.ofStatement?, lines_cons, height, List.countP_cons,
        isShared, isComment] at hs ⊢
      grind
    | operation opcode operands =>
      simp only [ofStatements, Command.ofStatement?, lines_cons, height, List.countP_cons,
        isShared, isComment, List.length_cons] at hs ⊢
      grind

theorem length_ofStatements_le (line : Nat) (ss : List Statement) :
    (ofStatements line ss).length ≤ ss.length := by
  induction ss generalizing line with
  | nil => exact Nat.le_refl 0
  | cons s ss ih =>
    have hs := ih (line + s.height)
    simp only [ofStatements]
    split <;> simp only [List.length_cons] <;> omega

/-- The command at a place is that of the statement with so many commands before it. -/
theorem getElem?_ofStatements_iff {line place : Nat} {ss : List Statement} {c : Command} :
    (ofStatements line ss)[place]? = some c ↔
      ∃ before s after, ss = before ++ s :: after ∧
        (ofStatements line before).length = place ∧
        Command.ofStatement? (line + lines before) s = some c := by
  constructor
  · intro h
    induction ss generalizing line place with
    | nil => simp [ofStatements] at h
    | cons s ss ih =>
      -- The statement is the first one, or it lies in the rest with the first one put before it.
      have later {place' : Nat} (hc : (ofStatements (line + s.height) ss)[place']? = some c) :
          ∃ before t after, s :: ss = before ++ t :: after ∧
            (ofStatements line before).length =
              place' + (Command.ofStatement? line s).toList.length ∧
            Command.ofStatement? (line + lines before) t = some c := by
        obtain ⟨before, t, after, rfl, hplace, ht⟩ := ih hc
        refine ⟨s :: before, t, after, rfl, ?_, ?_⟩
        · rw [← hplace, ofStatements]
          cases Command.ofStatement? line s <;> simp
        · rwa [lines_cons, ← Nat.add_assoc]
      cases hs : Command.ofStatement? line s with
      | none =>
        simp only [ofStatements, hs] at h
        obtain ⟨before, t, after, hss, hplace, ht⟩ := later h
        exact ⟨before, t, after, hss, by simpa [hs] using hplace, ht⟩
      | some d =>
        simp only [ofStatements, hs] at h
        cases place with
        | zero =>
          rw [List.getElem?_cons_zero] at h
          exact ⟨[], s, ss, rfl, rfl, hs.trans h⟩
        | succ place =>
          rw [List.getElem?_cons_succ] at h
          obtain ⟨before, t, after, hss, hplace, ht⟩ := later h
          exact ⟨before, t, after, hss, by simpa [hs] using hplace, ht⟩
  · rintro ⟨before, s, after, rfl, rfl, hs⟩
    rw [ofStatements_append, List.getElem?_append_right (Nat.le_refl _), Nat.sub_self,
      ofStatements, hs]
    rfl

/-- The commands are those of the statements. -/
theorem mem_ofStatements_iff {line : Nat} {ss : List Statement} {c : Command} :
    c ∈ ofStatements line ss ↔ ∃ before s after, ss = before ++ s :: after ∧
      Command.ofStatement? (line + lines before) s = some c := by
  simp only [List.mem_iff_getElem?, getElem?_ofStatements_iff]
  constructor
  · rintro ⟨_, before, s, after, hss, _, hs⟩
    exact ⟨before, s, after, hss, hs⟩
  · rintro ⟨before, s, after, hss, hs⟩
    exact ⟨_, before, s, after, hss, rfl, hs⟩

/-! ## Labels on their own place -/

/-- Only a label defines a name. -/
theorem label?_ofStatement?_iff {line : Nat} {s : Statement} (hs : s.IsProper) {name : String} :
    (∃ c, Command.ofStatement? line s = some c ∧ c.label? = some name) ↔
      ∃ alone, s = .label name alone := by
  constructor
  · rintro ⟨c, hc, hname⟩
    cases s with
    | label other alone =>
      cases hc
      exact ⟨alone, by simpa [Command.label?] using hname⟩
    | comment text => cases hc
    | operation opcode operands =>
      cases hc
      have hop : opcode = .lbl := by simpa using Command.opcode_of_label? hname
      exact absurd hop hs.1
  · rintro ⟨alone, rfl⟩
    exact ⟨_, rfl, rfl⟩

/-- Some definition of the label has as many comments before it as labels that share their line. -/
def DefinesLevel (ss : List Statement) (name : String) : Prop :=
  ∃ before alone after, ss = before ++ .label name alone :: after ∧
    before.countP isComment = before.countP isShared

/-- A label stands on the line that is its own place exactly where comments and shared lines
before it make up for each other. -/
theorem label_on_place_iff {ss : List Statement} (hss : ∀ s ∈ ss, s.IsProper) {name : String} :
    (∃ (place : Nat) (c : Command), (ofStatements 0 ss)[place]? = some c ∧
        c.label? = some name ∧ c.line = place) ↔ DefinesLevel ss name := by
  constructor
  · rintro ⟨place, c, hc, hname, hline⟩
    obtain ⟨before, s, after, rfl, hplace, hs⟩ := getElem?_ofStatements_iff.mp hc
    have hproper : s.IsProper := hss s (by simp)
    obtain ⟨alone, rfl⟩ := (label?_ofStatement?_iff hproper).mp ⟨c, hs, hname⟩
    have hdrift := lines_add_shared 0 before
    rw [Command.line_of_ofStatement? hs] at hline
    exact ⟨before, alone, after, rfl, by omega⟩
  · rintro ⟨before, alone, after, rfl, hlevel⟩
    have hdrift := lines_add_shared 0 before
    refine ⟨_, _, getElem?_ofStatements_iff.mpr ⟨before, _, after, rfl, rfl, rfl⟩, rfl, ?_⟩
    show 0 + lines before = _
    omega

/-! ## Bounds -/

theorem line_lt_of_mem {line : Nat} {ss : List Statement} {c : Command}
    (hc : c ∈ ofStatements line ss) : c.line < line + ss.length := by
  obtain ⟨before, s, after, rfl, hs⟩ := mem_ofStatements_iff.mp hc
  have hlines := lines_le_length before
  rw [Command.line_of_ofStatement? hs, List.length_append, List.length_cons]
  omega

/-- The statements that a text is read as. -/
def statementsOf (text : String) : List Statement :=
  (Outline.ofLexemes (Lexeme.ofText text)).statements

/-- A program is refused only for an instruction that is cut off. -/
theorem ofLexemes_eq_ok_iff {lexemes : List Lexeme} {program : Program} :
    ofLexemes lexemes = .ok program ↔ (Outline.ofLexemes lexemes).cutOff? = none ∧
      program = ofStatements 0 (Outline.ofLexemes lexemes).statements := by
  unfold ofLexemes ofOutline
  split
  · next h => simp [h, eq_comm]
  · next h => simp [h]

/-- The statements of a text that parses, which are the ones of its program. -/
theorem statements_of_parse {text : String} {program : Program} (h : parse text = .ok program) :
    program = ofStatements 0 (Outline.ofLexemes (Lexeme.ofText text)).statements :=
  (ofLexemes_eq_ok_iff.mp h).2

theorem length_parse_le {text : String} {program : Program} (h : parse text = .ok program) :
    program.length ≤ text.length := by
  have hprogram := length_ofStatements_le 0 (Outline.ofLexemes (Lexeme.ofText text)).statements
  have houtline := Outline.length_statements_le (Lexeme.ofText text)
  have htext := Lexeme.length_ofText_le text
  rw [statements_of_parse h]
  omega

theorem line_parse_lt {text : String} {program : Program} (h : parse text = .ok program)
    {c : Command} (hc : c ∈ program) : c.line < text.length := by
  have houtline := Outline.length_statements_le (Lexeme.ofText text)
  have htext := Lexeme.length_ofText_le text
  rw [statements_of_parse h] at hc
  have hline := line_lt_of_mem hc
  omega

end Program

end NodeGrid
