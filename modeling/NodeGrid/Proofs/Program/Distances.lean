import Mathlib.Algebra.Group.Nat.Defs
import NodeGrid.Proofs.Program.Lines
import NodeGrid.Proofs.Program.Reports

/-!
# How far a relative jump may go

The check of a relative jump goes by lines: its distance has to lead from the line of the jump to a
line of the program. A node goes by places. Comments and labels that share a line make the two
differ, before the jump or after it.

* `distanceFaults_of_number`, `reports_relativeJump`: which distances the check reports.
* `inLines_iff_inPlaces`: the distances that pass are those that stay in the program exactly if the
  jump and the last command stand on the lines that are their places. In the program of a text this
  is so where comments and shared lines make up for each other.
-/

namespace NodeGrid

/-- A word past the largest one is negative. -/
theorem Line.word_neg {n : Int} (low : Int64.maxValue.toInt < n)
    (high : n ≤ 2 * Int64.maxValue.toInt) : word n < 0 := by
  have hbmod : word n = n.bmod (2 ^ 64) := Int64.toInt_ofInt
  rw [Int64.toInt_maxValue] at low high
  rw [hbmod, Int.bmod_def]
  omega

namespace Program

variable {links : LinkSet} {program : Program} {c : Command} {ss : List Statement}
  {line place : Nat} {value : Int32}

/-! ## The last line -/

theorem lastLine_le_iff {bound : Nat} :
    program.lastLine ≤ bound ↔ ∀ c ∈ program, c.line ≤ bound := by
  unfold lastLine
  induction program with
  | nil => simp
  | cons c rest ih =>
    simp only [List.map_cons, List.foldr_cons, Nat.max_le, ih, List.forall_mem_cons]

theorem line_le_lastLine (hc : c ∈ program) : c.line ≤ program.lastLine :=
  lastLine_le_iff.mp (Nat.le_refl _) c hc

theorem le_line_of_mem (hc : c ∈ ofStatements line ss) : line ≤ c.line := by
  obtain ⟨before, s, after, -, hs⟩ := mem_ofStatements_iff.mp hc
  rw [Command.line_of_ofStatement? hs]
  exact Nat.le_add_right line _

/-- Later commands stand on later lines, or on the same one. -/
theorem pairwise_line_le (line : Nat) (ss : List Statement) :
    (ofStatements line ss).Pairwise (·.line ≤ ·.line) := by
  induction ss generalizing line with
  | nil => exact .nil
  | cons s ss ih =>
    simp only [ofStatements]
    split
    · next c hc =>
      refine List.pairwise_cons.mpr ⟨fun later hlater => ?_, ih _⟩
      rw [Command.line_of_ofStatement? hc]
      exact Nat.le_trans (Nat.le_add_right line _) (le_line_of_mem hlater)
    · exact ih _

/-- Only labels share a line with a later command. -/
theorem pairwise_line_lt (line : Nat) (ss : List Statement) :
    (ofStatements line ss).Pairwise fun c later => c.opcode ≠ .lbl → c.line < later.line := by
  induction ss generalizing line with
  | nil => exact .nil
  | cons s ss ih =>
    cases s with
    | label name alone => exact List.pairwise_cons.mpr ⟨fun _ _ hop => absurd rfl hop, ih _⟩
    | comment text => exact ih _
    | operation opcode operands =>
      refine List.pairwise_cons.mpr ⟨fun later hlater _ => ?_, ih _⟩
      rw [Command.line_ofOperation]
      exact le_line_of_mem hlater

/-- The largest line is that of the last command. -/
theorem lastLine_ofStatements
    (hlast : (ofStatements line ss)[(ofStatements line ss).length - 1]? = some c) :
    (ofStatements line ss).lastLine = c.line := by
  refine Nat.le_antisymm (lastLine_le_iff.mpr fun other hother => ?_)
    (line_le_lastLine (List.mem_of_getElem? hlast))
  obtain ⟨i, hi, rfl⟩ := List.getElem_of_mem hother
  obtain ⟨hlt, rfl⟩ := List.getElem?_eq_some_iff.mp hlast
  rcases Nat.lt_or_ge i ((ofStatements line ss).length - 1) with hbefore | hafter
  · exact List.pairwise_iff_getElem.mp (pairwise_line_le line ss) _ _ _ hlt hbefore
  · have heq : i = (ofStatements line ss).length - 1 := by omega
    simp only [heq, Nat.le_refl]

/-! ## What is reported -/

/-- Whether a number is a line of the text down to that of the last command. -/
def InLines (program : Program) (target : Int) : Prop := 0 ≤ target ∧ target ≤ program.lastLine

/-- Whether a number is the place of a command. -/
def InPlaces (program : Program) (target : Int) : Prop := 0 ≤ target ∧ target < program.length

instance (program : Program) (target : Int) : Decidable (program.InLines target) :=
  inferInstanceAs (Decidable (_ ∧ _))

instance (program : Program) (target : Int) : Decidable (program.InPlaces target) :=
  inferInstanceAs (Decidable (_ ∧ _))

theorem reports_primary_iff_of_jro (hc : c ∈ program) (hop : c.opcode = .jro) :
    Reports links program c .primary ↔ c.distanceFaults program ≠ [] := by
  rw [reports_iff hc (by simp [hop]), Command.faults, hop]
  simp only [List.mem_append]
  constructor
  · rintro ⟨fault, hdistance | hempty, hslot⟩
    · exact List.ne_nil_of_mem hdistance
    · cases hslot.symm.trans (Command.at_of_mem_emptyFaults hempty).2
  · intro h
    obtain ⟨fault, hdistance⟩ := List.exists_mem_of_ne_nil _ h
    exact ⟨fault, Or.inl hdistance, (Command.at_of_mem_distanceFaults hdistance).2⟩

/-- The check of a relative jump by a number finds a fault exactly if its distance leads from its
line to no line of the program. -/
theorem distanceFaults_of_number (hc : c ∈ program) (hprimary : c.primary = .number value)
    (hsize : program.lastLine < 2 ^ 63) :
    c.distanceFaults program =
      if program.InLines (c.line + value.toInt) then [] else [⟨c, .primary, .parameter⟩] := by
  have hline := line_le_lastLine hc
  have hlow := value.le_toInt
  have hhigh := value.toInt_lt
  have hmin := Int64.toInt_minValue
  have hmax := Int64.toInt_maxValue
  have hlast : Line.word program.lastLine = program.lastLine :=
    Line.word_eq (by omega) (by omega)
  have houtside : (Line.word (c.line + value.toInt) < 0 ∨
      (program.lastLine : Int) < Line.word (c.line + value.toInt)) ↔
        ¬ program.InLines (c.line + value.toInt) := by
    unfold InLines
    rcases Int.lt_or_le Int64.maxValue.toInt (c.line + value.toInt) with hover | hword
    · -- The sum does not fit into a word, so it comes out negative.
      have htarget := Line.word_neg hover (by omega)
      omega
    · have htarget : Line.word (c.line + value.toInt) = c.line + value.toInt :=
        Line.word_eq (by omega) hword
      rw [htarget]
      omega
  simp only [Command.distanceFaults, hprimary, hlast, houtside, ite_not]

/-- A relative jump by a number is reported exactly if its distance leads from its line to no line
of the program. -/
theorem reports_relativeJump (hc : c ∈ program) (hop : c.opcode = .jro)
    (hprimary : c.primary = .number value) (hsize : program.lastLine < 2 ^ 63) :
    Reports links program c .primary ↔ ¬ program.InLines (c.line + value.toInt) := by
  rw [reports_primary_iff_of_jro hc hop, distanceFaults_of_number hc hprimary hsize]
  split <;> simp_all

/-! ## Lines and places -/

/-- Before the command at a place there are as many comments as labels that share their line. -/
def LevelAt (ss : List Statement) (place : Nat) : Prop :=
  ∃ before s after, ss = before ++ s :: after ∧ s.isComment = false ∧
    (ofStatements 0 before).length = place ∧
    before.countP Statement.isComment = before.countP Statement.isShared

theorem levelAt_iff (hc : (ofStatements 0 ss)[place]? = some c) :
    LevelAt ss place ↔ c.line = place := by
  constructor
  · rintro ⟨before, s, after, hss, hs, hplace, hlevel⟩
    obtain ⟨d, hd⟩ : ∃ d, Command.ofStatement? (0 + Statement.lines before) s = some d := by
      cases s with
      | comment text => cases hs
      | label name alone | operation opcode operands => exact ⟨_, rfl⟩
    have hcd : c = d := by
      have hd' := getElem?_ofStatements_iff.mpr ⟨before, s, after, hss, hplace, hd⟩
      exact Option.some.inj (hc.symm.trans hd')
    have hdrift := lines_add_shared 0 before
    rw [hcd, Command.line_of_ofStatement? hd]
    omega
  · intro hline
    obtain ⟨before, s, after, hss, hplace, hs⟩ := getElem?_ofStatements_iff.mp hc
    have hdrift := lines_add_shared 0 before
    rw [Command.line_of_ofStatement? hs] at hline
    have hcomment : s.isComment = false := by
      cases s with
      | comment text => cases hs
      | label name alone | operation opcode operands => rfl
    exact ⟨before, s, after, hss, hcomment, hplace, by omega⟩

/-- The distances between the lines of a program are those between its places exactly if the line of
the command and the last line are the places there. -/
theorem inLines_iff_inPlaces (hc : program[place]? = some c) :
    (∀ distance : Int, program.InLines (c.line + distance) ↔ program.InPlaces (place + distance)) ↔
      c.line = place ∧ program.lastLine = program.length - 1 := by
  obtain ⟨hlt, -⟩ := List.getElem?_eq_some_iff.mp hc
  have hline := line_le_lastLine (List.mem_of_getElem? hc)
  unfold InLines InPlaces
  constructor
  · intro h
    have hfirst := h (-c.line)
    have hfirst' := h (-place)
    have hlast := h (program.lastLine - c.line)
    have hlast' := h (program.length - 1 - place)
    omega
  · rintro ⟨hplace, hlast⟩ distance
    omega

/-- In the program of a text these are the distances exactly if before the command, and before the
last one, comments and shared lines make up for each other. -/
theorem inLines_iff_inPlaces_of_parse {text : String} (hparse : parse text = .ok program)
    (hc : program[place]? = some c) :
    (∀ distance : Int, program.InLines (c.line + distance) ↔ program.InPlaces (place + distance)) ↔
      LevelAt (statementsOf text) place ∧ LevelAt (statementsOf text) (program.length - 1) := by
  have hstatements : program = ofStatements 0 (statementsOf text) := statements_of_parse hparse
  have level {i : Nat} {d : Command} (hd : program[i]? = some d) :
      LevelAt (statementsOf text) i ↔ d.line = i := by
    apply levelAt_iff
    rw [← hstatements]
    exact hd
  obtain ⟨hlt, -⟩ := List.getElem?_eq_some_iff.mp hc
  obtain ⟨last, hlast⟩ : ∃ last, program[program.length - 1]? = some last :=
    ⟨_, List.getElem?_eq_getElem (by omega)⟩
  have hlastLine : program.lastLine = last.line := by
    rw [hstatements] at hlast ⊢
    exact lastLine_ofStatements hlast
  rw [inLines_iff_inPlaces hc, level hc, level hlast, hlastLine]

end Program

end NodeGrid
