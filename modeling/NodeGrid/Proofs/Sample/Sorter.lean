import NodeGrid.Proofs.Node.Jumps
import NodeGrid.Proofs.Sample.OneCell

/-!
# The sorting node

The program has one loop with three ways through it: a positive value goes to the right in 6 steps,
a negative one to the left in 7, and 0 is passed over in 5. When no value is left the node waits in
its second command, and nothing is sent any more.

* `advance_moves`: a label or a jump; `advance_takes`, `advance_sends_right`, `advance_sends_left`:
  the commands that read and send.
* `iterate_round`: one way through the loop; `iterate_rounds`: the loop for all values;
  `written_iterate_idle`: what comes after.
* `collected_sorting`: the positive values come out on the right and the negative ones on the left.
-/

namespace NodeGrid

namespace Sample

/-- The sorter with any values above it. -/
def sorting (values : List Int32) : Sample :=
  { sorter with inputs := [{ name := "Up", position := ⟨0, -1⟩, direction := .down, values }] }

example : sorting [5, -6, 0, -2, 3] = sorter := rfl

end Sample

namespace Sorter

open Board
open Node (Untimed)

/-! ## The program -/

def program : Program :=
  [{ line := 0, opcode := .lbl, primary := .label "START" },
    { line := 1, opcode := .mov, primary := .side .up, secondary := .acc },
    { line := 2, opcode := .jgz, primary := .text "POSITIVE" },
    { line := 3, opcode := .jlz, primary := .text "NEGATIVE" },
    { line := 4, opcode := .jmp, primary := .text "START" },
    { line := 5, opcode := .lbl, primary := .label "POSITIVE" },
    { line := 6, opcode := .mov, primary := .acc, secondary := .side .right },
    { line := 7, opcode := .jmp, primary := .text "START" },
    { line := 8, opcode := .lbl, primary := .label "NEGATIVE" },
    { line := 9, opcode := .mov, primary := .acc, secondary := .side .left },
    { line := 10, opcode := .jmp, primary := .text "START" }]

def links : LinkSet := .ofList [.up, .right, .left]

set_option maxRecDepth 2000 in
theorem parse_source : Program.parse Sample.sorter.source = .ok program := by rfl

theorem faults_eq_nil : program.faults links = [] := by decide

theorem line_lt : ∀ c ∈ program, c.line < 2 ^ 63 := by decide

/-! ## Steps -/

/-- The values that come from above. -/
def above (values : List Int32) : Direction → List Int32
  | .up => values
  | _ => []

/-- The node at a place of its program, with the values that it has yet to read and those that it
has sent in each direction. -/
def state (pc : Nat) (acc : Int32) (values : List Int32) (sent : Direction → List Int32) :
    Untimed :=
  ⟨{ pc, acc, links, program }, above values, sent⟩

variable {pc : Nat} {acc x : Int32} {values : List Int32} {sent : Direction → List Int32}
  {c : Command}

/-- The command at the counter is the one that runs. -/
theorem current?_state (hc : program[pc]? = some c) :
    (state pc acc values sent).node.wrap.current? = some c := by
  obtain ⟨hlt, -⟩ := List.getElem?_eq_some_iff.mp hc
  have hwrap : (state pc acc values sent).node.wrap = (state pc acc values sent).node :=
    Node.wrap_of_lt hlt
  rw [hwrap]
  exact hc

/-- A step that only moves the counter. -/
theorem advance_moves (hc : program[pc]? = some c) (hsource : c.source? = none)
    (hdestination : c.destination? = none) {next : Nat}
    (hstep : (state pc acc values sent).ready.step.1 =
      { (state pc acc values sent).ready with pc := next }) :
    (state pc acc values sent).advance = state next acc values sent := by
  apply Untimed.advance_eq rfl (current?_state hc)
  · rw [hstep]
    rfl
  · intro d
    rw [hsource]
    rfl
  · intro d
    rw [hdestination]
    exact List.append_nil (sent d)

theorem advance_taken (hc : program[pc]? = some c) (hjump : c.opcode.isLabelJump)
    (htaken : c.opcode.isTaken acc) {target : String} (hprimary : c.primary = .text target)
    {label : Command} (hlabel : program.findLabel? target = some label) :
    (state pc acc values sent).advance = state label.line acc values sent := by
  obtain ⟨hsource, hdestination⟩ := Command.sides_of_isLabelJump hjump
  obtain ⟨hlt, -⟩ := List.getElem?_eq_some_iff.mp hc
  have hpc : pc < 2 ^ 63 := Nat.lt_trans hlt (by decide)
  have hline := line_lt label (Program.findLabel?_eq_some hlabel).1
  have hready : (state pc acc values sent).ready.current? = some c := hc
  exact advance_moves hc hsource hdestination
    (Node.step_of_isTaken rfl hready hjump htaken hprimary hlabel hpc hline)

theorem advance_passed (hc : program[pc]? = some c) (hjump : c.opcode.isLabelJump)
    (htaken : c.opcode.isTaken acc = false) :
    (state pc acc values sent).advance = state (pc + 1) acc values sent := by
  obtain ⟨hsource, hdestination⟩ := Command.sides_of_isLabelJump hjump
  have hready : (state pc acc values sent).ready.current? = some c := hc
  exact advance_moves hc hsource hdestination (Node.step_of_not_isTaken rfl hready hjump htaken)

/-- All three branches end with a jump to the start. -/
theorem advance_returns (hc : program[pc]? = some ⟨pc, .jmp, .text "START", .empty⟩) :
    (state pc acc values sent).advance = state 0 acc values sent :=
  advance_taken hc rfl rfl rfl rfl

theorem advance_start : (state 0 acc values sent).advance = state 1 acc values sent :=
  advance_moves rfl rfl rfl rfl

theorem advance_positive : (state 5 acc values sent).advance = state 6 acc values sent :=
  advance_moves rfl rfl rfl rfl

theorem advance_negative : (state 8 acc values sent).advance = state 9 acc values sent :=
  advance_moves rfl rfl rfl rfl

theorem advance_takes : (state 1 acc (x :: values) sent).advance = state 2 x values sent := by
  apply Untimed.advance_eq rfl (current?_state rfl)
  · rfl
  · intro d
    cases d <;> rfl
  · exact fun d => List.append_nil (sent d)

theorem advance_waits : (state 1 acc [] sent).advance = state 1 acc [] sent := by
  apply Untimed.advance_eq rfl (current?_state rfl)
  · rfl
  · intro d
    cases d <;> rfl
  · exact fun d => List.append_nil (sent d)

theorem advance_sends_right : (state 6 acc values sent).advance =
    state 7 acc values fun d => sent d ++ if d = .right then [acc] else [] := by
  apply Untimed.advance_eq rfl (current?_state rfl)
  · rfl
  · exact fun _ => rfl
  · intro d
    cases d <;> rfl

theorem advance_sends_left : (state 9 acc values sent).advance =
    state 10 acc values fun d => sent d ++ if d = .left then [acc] else [] := by
  apply Untimed.advance_eq rfl (current?_state rfl)
  · rfl
  · exact fun _ => rfl
  · intro d
    cases d <;> rfl

/-! ## Rounds -/

/-- The values that belong on a side. -/
def belongs : Direction → Int32 → Bool
  | .right, x => 0 < x
  | .left, x => x < 0
  | _, _ => false

/-- The number of steps from one value to the next. -/
def ticksFor (x : Int32) : Nat := if 0 < x then 6 else if x < 0 then 7 else 5

theorem ticksFor_le (x : Int32) : ticksFor x ≤ 7 := by
  unfold ticksFor
  repeat' split
  all_goals omega

theorem iterate_fetch :
    Untimed.advance^[2] (state 0 acc (x :: values) sent) = state 2 x values sent :=
  (congrArg Untimed.advance advance_start).trans advance_takes

theorem iterate_positive (hpos : 0 < x) : Untimed.advance^[6] (state 0 acc (x :: values) sent) =
    state 0 x values fun d => sent d ++ if d = .right then [x] else [] := by
  have hjump : (state 2 x values sent).advance = state 5 x values sent :=
    advance_taken (c := ⟨2, .jgz, .text "POSITIVE", .empty⟩) rfl rfl (decide_eq_true hpos) rfl rfl
  calc
    Untimed.advance^[6] (state 0 acc (x :: values) sent)
    _ = Untimed.advance^[4] (state 2 x values sent) := congrArg Untimed.advance^[4] iterate_fetch
    _ = Untimed.advance^[3] (state 5 x values sent) := congrArg Untimed.advance^[3] hjump
    _ = Untimed.advance^[2] (state 6 x values sent) := congrArg Untimed.advance^[2] advance_positive
    _ = Untimed.advance (state 7 x values _) := congrArg Untimed.advance advance_sends_right
    _ = state 0 x values _ := advance_returns rfl

theorem advance_not_positive (hpos : ¬ 0 < acc) :
    (state 2 acc values sent).advance = state 3 acc values sent :=
  advance_passed (c := ⟨2, .jgz, .text "POSITIVE", .empty⟩) rfl rfl (decide_eq_false hpos)

theorem iterate_negative (hneg : x < 0) : Untimed.advance^[7] (state 0 acc (x :: values) sent) =
    state 0 x values fun d => sent d ++ if d = .left then [x] else [] := by
  have hpos : ¬ 0 < x := Int32.lt_asymm hneg
  have hjump : (state 3 x values sent).advance = state 8 x values sent :=
    advance_taken (c := ⟨3, .jlz, .text "NEGATIVE", .empty⟩) rfl rfl (decide_eq_true hneg) rfl rfl
  calc
    Untimed.advance^[7] (state 0 acc (x :: values) sent)
    _ = Untimed.advance^[5] (state 2 x values sent) := congrArg Untimed.advance^[5] iterate_fetch
    _ = Untimed.advance^[4] (state 3 x values sent) :=
      congrArg Untimed.advance^[4] (advance_not_positive hpos)
    _ = Untimed.advance^[3] (state 8 x values sent) := congrArg Untimed.advance^[3] hjump
    _ = Untimed.advance^[2] (state 9 x values sent) := congrArg Untimed.advance^[2] advance_negative
    _ = Untimed.advance (state 10 x values _) := congrArg Untimed.advance advance_sends_left
    _ = state 0 x values _ := advance_returns rfl

theorem iterate_neither (hpos : ¬ 0 < x) (hneg : ¬ x < 0) :
    Untimed.advance^[5] (state 0 acc (x :: values) sent) = state 0 x values sent := by
  have hpass : (state 3 x values sent).advance = state 4 x values sent :=
    advance_passed (c := ⟨3, .jlz, .text "NEGATIVE", .empty⟩) rfl rfl (decide_eq_false hneg)
  calc
    Untimed.advance^[5] (state 0 acc (x :: values) sent)
    _ = Untimed.advance^[3] (state 2 x values sent) := congrArg Untimed.advance^[3] iterate_fetch
    _ = Untimed.advance^[2] (state 3 x values sent) :=
      congrArg Untimed.advance^[2] (advance_not_positive hpos)
    _ = Untimed.advance (state 4 x values sent) := congrArg Untimed.advance hpass
    _ = state 0 x values sent := advance_returns rfl

theorem filter_belongs (x : Int32) (d : Direction) : [x].filter (belongs d) =
    if 0 < x then if d = .right then [x] else []
    else if x < 0 then if d = .left then [x] else []
    else [] := by
  by_cases hpos : 0 < x
  · have hneg : ¬ x < 0 := Int32.lt_asymm hpos
    cases d <;> simp [belongs, hpos, hneg]
  · by_cases hneg : x < 0
    · cases d <;> simp [belongs, hpos, hneg]
    · cases d <;> simp [belongs, hpos, hneg]

/-- One way through the loop takes one value and sends it to where it belongs. -/
theorem iterate_round (acc x : Int32) (values : List Int32) (sent : Direction → List Int32) :
    Untimed.advance^[ticksFor x] (state 0 acc (x :: values) sent) =
      state 0 x values fun d => sent d ++ [x].filter (belongs d) := by
  simp only [filter_belongs, ticksFor]
  split
  · next hpos => exact iterate_positive hpos
  · next hpos =>
    split
    · next hneg => exact iterate_negative hneg
    · next hneg =>
      simp only [List.append_nil]
      exact iterate_neither hpos hneg

/-- All values, one after the other. -/
theorem iterate_rounds (values : List Int32) (acc : Int32) (sent : Direction → List Int32) :
    ∃ ticks last, ticks ≤ 7 * values.length ∧
      Untimed.advance^[ticks] (state 0 acc values sent) =
        state 0 last [] fun d => sent d ++ values.filter (belongs d) := by
  induction values generalizing acc sent with
  | nil =>
    refine ⟨0, acc, Nat.le_refl 0, ?_⟩
    simp only [List.filter_nil, List.append_nil]
    rfl
  | cons x values ih =>
    obtain ⟨ticks, last, hticks, hlast⟩ := ih x fun d => sent d ++ [x].filter (belongs d)
    have hround := ticksFor_le x
    refine ⟨ticks + ticksFor x, last, ?_, ?_⟩
    · rw [List.length_cons]
      omega
    · rw [Function.iterate_add_apply, iterate_round, hlast]
      congr 1
      funext d
      rw [List.append_assoc, ← List.filter_append, List.singleton_append]

/-- Without a value nothing is sent. -/
theorem written_iterate_idle (ticks : Nat) :
    (Untimed.advance^[ticks] (state 0 acc [] sent)).written = sent := by
  cases ticks with
  | zero => rfl
  | succ ticks =>
    rw [Function.iterate_succ_apply, advance_start, Function.iterate_fixed advance_waits]
    rfl

/-- What was sent in each direction when there was time for all values. -/
theorem written_iterate {ticks : Nat} (h : 7 * values.length ≤ ticks) (d : Direction) :
    (Untimed.advance^[ticks] (state 0 0 values fun _ => [])).written d =
      values.filter (belongs d) := by
  obtain ⟨used, last, hused, hlast⟩ := iterate_rounds values 0 fun _ => []
  obtain ⟨rest, rfl⟩ := Nat.exists_eq_add_of_le' (Nat.le_trans hused h)
  rw [Function.iterate_add_apply, hlast, written_iterate_idle, List.nil_append]

/-! ## The board -/

theorem linksAt_origin (values : List Int32) : (Sample.sorting values).linksAt origin = links := rfl

theorem queueAt_board (values : List Int32) :
    (Sample.sorting values).board.queueAt origin = above values := by
  obtain ⟨-, -, hinputs, -⟩ := Sample.board_frame (Sample.sorting values)
  have hinput : ∀ p, (Sample.sorting values).board.inputs.find? p =
      if p = ⟨0, -1⟩ then some ⟨0, .down, values⟩ else none := by
    intro p
    rw [hinputs]
    exact Registry.find?_register {} ⟨0, -1⟩ p .down values
  funext d
  rw [queueAt, hinput]
  cases d <;> rfl

/-- The board before the first tick. -/
theorem exists_inStep (values : List Int32) :
    ∃ b, (Sample.sorting values).loaded = .ok b ∧
      (b.outputs.find? (origin.step .right)).isSome ∧ (b.outputs.find? (origin.step .left)).isSome ∧
      b.InStep (state 0 0 values fun _ => []) := by
  obtain ⟨b, hb, houtputs, hstep⟩ := Sample.exists_inStep (s := Sample.sorting values) rfl
    parse_source (linksAt_origin values) faults_eq_nil
  rw [queueAt_board] at hstep
  have hright := houtputs _ List.mem_cons_self
  have hleft := houtputs _ (List.mem_cons_of_mem _ List.mem_cons_self)
  exact ⟨b, hb, hright, hleft, hstep⟩

end Sorter

namespace Sample

/-- Whatever values come from above, the positive ones come out on the right and the negative ones
on the left, each in order and none lost or doubled, at the latest after seven ticks for each
value. -/
theorem collected_sorting (values : List Int32) :
    ∃ b, (sorting values).loaded = .ok b ∧ ∀ ticks, 7 * values.length ≤ ticks →
      (Board.steps ticks b).collected ⟨1, 0⟩ = values.filter (0 < ·) ∧
        (Board.steps ticks b).collected ⟨-1, 0⟩ = values.filter (· < 0) := by
  obtain ⟨b, hb, hright, hleft, hstep⟩ := Sorter.exists_inStep values
  refine ⟨b, hb, ?_⟩
  intro ticks hticks
  constructor
  · exact (hstep.collected_steps hright ticks).trans (Sorter.written_iterate hticks .right)
  · exact (hstep.collected_steps hleft ticks).trans (Sorter.written_iterate hticks .left)

/-- Also at the ends of the range of a word. -/
theorem collected_sorting_mixed :
    7 * [5, -6, 0, -2147483648, 2147483647].length ≤ 35 ∧
      ∃ b, (sorting [5, -6, 0, -2147483648, 2147483647]).loaded = .ok b ∧
        (Board.steps 35 b).collected ⟨1, 0⟩ = [5, 2147483647] ∧
        (Board.steps 35 b).collected ⟨-1, 0⟩ = [-6, -2147483648] := by
  have hticks : 7 * [5, -6, 0, -2147483648, 2147483647].length ≤ 35 := by decide
  obtain ⟨b, hb, hcollected⟩ := collected_sorting [5, -6, 0, -2147483648, 2147483647]
  obtain ⟨hright, hleft⟩ := hcollected 35 hticks
  exact ⟨hticks, b, hb, hright.trans (by decide), hleft.trans (by decide)⟩

end Sample

end NodeGrid
