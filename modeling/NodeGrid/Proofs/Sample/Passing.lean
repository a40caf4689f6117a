import NodeGrid.Proofs.Sample.OneCell

/-!
# The passing node

The program has one loop of three steps: it keeps 8, passes on a value from the left and swallows
one from above. A value from above lets the next value from the left through, so the node passes on
one value more than it can swallow, unless it runs out of values from the left before. Where one
stream is at its end the node waits, and nothing changes any more.

* `advance_keeps`, `advance_passes`, `advance_swallows`: the steps; `advance_waits_left`,
  `advance_waits_up`: the two ways to wait.
* `written_iterate`: what was passed on after any number of steps.
* `exists_state_iterate`: from the first step on the accumulator holds 8.
* `collected_passing`: what comes out, and that it is never more.
-/

namespace NodeGrid

namespace Sample

/-- The simple sample with any values on the left and above. -/
def passing (lefts ups : List Int32) : Sample :=
  { simple with
    inputs := [{ name := "Left", position := ⟨-1, 0⟩, direction := .right, values := lefts },
      { name := "Up", position := ⟨0, -1⟩, direction := .down, values := ups }] }

example : passing [1, 2, 3] [5, 6, 7] = simple := rfl

end Sample

namespace Passing

open Board
open Node (Untimed)

/-! ## The program -/

def program : Program :=
  [{ line := 0, opcode := .mov, primary := .number 8, secondary := .acc },
    { line := 1, opcode := .mov, primary := .side .left, secondary := .side .right },
    { line := 2, opcode := .mov, primary := .side .up, secondary := .text "NIL" }]

def links : LinkSet := .ofList [.up, .right, .left]

theorem parse_source : Program.parse Sample.simple.source = .ok program := rfl

theorem faults_eq_nil : program.faults links = [] := by decide

/-! ## Steps -/

/-- The values that come from the left and from above. -/
def incoming (lefts ups : List Int32) : Direction → List Int32
  | .left => lefts
  | .up => ups
  | _ => []

/-- The values that were passed on to the right. -/
def outgoing (passed : List Int32) : Direction → List Int32
  | .right => passed
  | _ => []

/-- The node at a place of its program, with the values that it has yet to read and those that it
has passed on. -/
def state (pc : Nat) (acc : Int32) (lefts ups passed : List Int32) : Untimed :=
  ⟨{ pc, acc, links, program }, incoming lefts ups, outgoing passed⟩

variable {pc : Nat} {acc x y : Int32} {lefts ups passed : List Int32}

/-- Behind the last command the counter is at the first one again. -/
theorem advance_keeps (hpc : pc = 0 ∨ pc = 3) :
    (state pc acc lefts ups passed).advance = state 1 8 lefts ups passed := by
  rcases hpc with rfl | rfl
  all_goals
    apply Untimed.advance_eq (c := ⟨0, .mov, .number 8, .acc⟩) rfl rfl
    · rfl
    · exact fun _ => rfl
    · exact fun d => List.append_nil (outgoing passed d)

theorem advance_passes : (state 1 acc (x :: lefts) ups passed).advance =
    state 2 acc lefts ups (passed ++ [x]) := by
  apply Untimed.advance_eq (c := ⟨1, .mov, .side .left, .side .right⟩) rfl rfl
  · rfl
  · intro d
    cases d <;> rfl
  · intro d
    cases d <;> rfl

theorem advance_waits_left :
    (state 1 acc [] ups passed).advance = state 1 acc [] ups passed := by
  apply Untimed.advance_eq (c := ⟨1, .mov, .side .left, .side .right⟩) rfl rfl
  · rfl
  · intro d
    cases d <;> rfl
  · intro d
    cases d <;> exact List.append_nil _

theorem advance_swallows : (state 2 acc lefts (y :: ups) passed).advance =
    state 3 acc lefts ups passed := by
  apply Untimed.advance_eq (c := ⟨2, .mov, .side .up, .text "NIL"⟩) rfl rfl
  · rfl
  · intro d
    cases d <;> rfl
  · exact fun d => List.append_nil (outgoing passed d)

theorem advance_waits_up :
    (state 2 acc lefts [] passed).advance = state 2 acc lefts [] passed := by
  apply Untimed.advance_eq (c := ⟨2, .mov, .side .up, .text "NIL"⟩) rfl rfl
  · rfl
  · intro d
    cases d <;> rfl
  · exact fun d => List.append_nil (outgoing passed d)

/-! ## Runs -/

/-- What was passed on. The node passes on a value in every third step, as long as there is one on
the left and each one before it had a value above. -/
theorem written_iterate (acc : Int32) (lefts ups passed : List Int32) (ticks : Nat) :
    (Untimed.advance^[ticks] (state 1 acc lefts ups passed)).written .right =
      passed ++ lefts.take (min (ups.length + 1) ((ticks + 2) / 3)) := by
  induction lefts generalizing acc ups passed ticks with
  | nil =>
    rw [Function.iterate_fixed advance_waits_left, List.take_nil, List.append_nil]
    rfl
  | cons x lefts ih =>
    have hfirst : ∀ count, count = 1 → passed ++ [x] = passed ++ (x :: lefts).take count := by
      rintro count rfl
      rfl
    -- Before the next round the node has passed on one value: it may have had no time for more, or
    -- there is no value above.
    match ticks, ups with
    | 0, ups =>
      rw [show min (ups.length + 1) ((0 + 2) / 3) = 0 by omega, List.take_zero, List.append_nil]
      rfl
    | ticks + 1, [] =>
      rw [Function.iterate_succ_apply, advance_passes, Function.iterate_fixed advance_waits_up]
      exact hfirst _ (by rw [List.length_nil]; omega)
    | 1, y :: ups =>
      rw [Function.iterate_one, advance_passes]
      exact hfirst _ (by rw [List.length_cons]; omega)
    | 2, y :: ups =>
      rw [Function.iterate_succ_apply, advance_passes, Function.iterate_one, advance_swallows]
      exact hfirst _ (by rw [List.length_cons]; omega)
    | ticks + 3, y :: ups =>
      have hcount : min ((y :: ups).length + 1) ((ticks + 3 + 2) / 3) =
          min (ups.length + 1) ((ticks + 2) / 3) + 1 := by
        rw [List.length_cons]
        omega
      rw [Function.iterate_succ_apply, advance_passes, Function.iterate_succ_apply,
        advance_swallows, Function.iterate_succ_apply, advance_keeps (Or.inr rfl), ih, hcount,
        List.take_succ_cons, List.append_assoc, List.singleton_append]

/-- A step from a place where 8 is kept leads to such a place. -/
theorem exists_state_advance (hpc : pc = 1 ∨ pc = 2 ∨ pc = 3) (lefts ups passed : List Int32) :
    ∃ pc' lefts' ups' passed', (pc' = 1 ∨ pc' = 2 ∨ pc' = 3) ∧
      (state pc 8 lefts ups passed).advance = state pc' 8 lefts' ups' passed' := by
  rcases hpc with rfl | rfl | rfl
  · cases lefts with
    | nil => exact ⟨1, _, _, _, Or.inl rfl, advance_waits_left⟩
    | cons x lefts => exact ⟨2, _, _, _, Or.inr (Or.inl rfl), advance_passes⟩
  · cases ups with
    | nil => exact ⟨2, _, _, _, Or.inr (Or.inl rfl), advance_waits_up⟩
    | cons y ups => exact ⟨3, _, _, _, Or.inr (Or.inr rfl), advance_swallows⟩
  · exact ⟨1, _, _, _, Or.inl rfl, advance_keeps (Or.inr rfl)⟩

theorem exists_state_iterate (lefts ups passed : List Int32) (ticks : Nat) :
    ∃ pc lefts' ups' passed', (pc = 1 ∨ pc = 2 ∨ pc = 3) ∧
      Untimed.advance^[ticks] (state 1 8 lefts ups passed) = state pc 8 lefts' ups' passed' := by
  induction ticks with
  | zero => exact ⟨1, lefts, ups, passed, Or.inl rfl, rfl⟩
  | succ ticks ih =>
    obtain ⟨pc, lefts', ups', passed', hpc, hstate⟩ := ih
    rw [Function.iterate_succ_apply', hstate]
    exact exists_state_advance hpc lefts' ups' passed'

theorem acc_iterate {ticks : Nat} (h : 1 ≤ ticks) :
    (Untimed.advance^[ticks] (state 0 0 lefts ups [])).node.acc = 8 := by
  obtain ⟨rest, rfl⟩ := Nat.exists_eq_add_of_le' h
  obtain ⟨pc, lefts', ups', passed', -, hstate⟩ := exists_state_iterate lefts ups [] rest
  rw [Function.iterate_succ_apply, advance_keeps (Or.inl rfl), hstate]
  rfl

theorem written_iterate_start (lefts ups : List Int32) (ticks : Nat) :
    (Untimed.advance^[ticks] (state 0 0 lefts ups [])).written .right =
      lefts.take (min (ups.length + 1) ((ticks + 1) / 3)) := by
  cases ticks with
  | zero =>
    rw [show min (ups.length + 1) ((0 + 1) / 3) = 0 by omega]
    rfl
  | succ ticks =>
    rw [Function.iterate_succ_apply, advance_keeps (Or.inl rfl), written_iterate, List.nil_append]

/-! ## The board -/

theorem linksAt_origin (lefts ups : List Int32) :
    (Sample.passing lefts ups).linksAt origin = links := rfl

theorem queueAt_board (lefts ups : List Int32) :
    (Sample.passing lefts ups).board.queueAt origin = incoming lefts ups := by
  obtain ⟨-, -, hinputs, -⟩ := Sample.board_frame (Sample.passing lefts ups)
  have hinput : ∀ p, (Sample.passing lefts ups).board.inputs.find? p =
      if p = ⟨0, -1⟩ then some ⟨1, .down, ups⟩
      else if p = ⟨-1, 0⟩ then some ⟨0, .right, lefts⟩
      else none := by
    intro p
    rw [hinputs]
    show (Registry.register
      (Registry.register {} ⟨-1, 0⟩ .right lefts) ⟨0, -1⟩ .down ups).find? p = _
    rw [Registry.find?_register, Registry.find?_register]
    rfl
  funext d
  rw [queueAt, hinput]
  cases d <;> rfl

/-- The board before the first tick. -/
theorem exists_inStep (lefts ups : List Int32) :
    ∃ b, (Sample.passing lefts ups).loaded = .ok b ∧
      (b.outputs.find? (origin.step .right)).isSome ∧ b.InStep (state 0 0 lefts ups []) := by
  obtain ⟨b, hb, houtputs, hstep⟩ := Sample.exists_inStep (s := Sample.passing lefts ups) rfl
    parse_source (linksAt_origin lefts ups) faults_eq_nil
  have hsent : (fun _ => []) = outgoing [] := by
    funext d
    cases d <;> rfl
  rw [queueAt_board, hsent] at hstep
  exact ⟨b, hb, houtputs _ List.mem_cons_self, hstep⟩

end Passing

namespace Sample

/-- After the first tick the accumulator holds 8. What comes out on the right is the start of what
comes from the left, never more than there are values above and one, and after three ticks for each
value all of this start. -/
theorem collected_passing (lefts ups : List Int32) :
    ∃ b, (passing lefts ups).loaded = .ok b ∧ ∀ ticks,
      (1 ≤ ticks → ((Board.steps ticks b).node? ⟨0, 0⟩).map (·.acc) = some 8) ∧
      (3 * min lefts.length (ups.length + 1) ≤ ticks → (Board.steps ticks b).collected ⟨1, 0⟩ =
        lefts.take (min lefts.length (ups.length + 1))) ∧
      (Board.steps ticks b).collected ⟨1, 0⟩ <+:
        lefts.take (min lefts.length (ups.length + 1)) := by
  obtain ⟨b, hb, hright, hstep⟩ := Passing.exists_inStep lefts ups
  refine ⟨b, hb, ?_⟩
  intro ticks
  have hcollected : (Board.steps ticks b).collected ⟨1, 0⟩ =
      lefts.take (min (ups.length + 1) ((ticks + 1) / 3)) :=
    (hstep.collected_steps hright ticks).trans (Passing.written_iterate_start lefts ups ticks)
  refine ⟨?_, ?_, ?_⟩
  · intro hticks
    exact (hstep.steps ticks).acc_eq.trans (congrArg some (Passing.acc_iterate hticks))
  · intro hticks
    rw [hcollected, List.take_eq_take_iff]
    omega
  · have htake : lefts.take (min (ups.length + 1) ((ticks + 1) / 3)) =
        (lefts.take (min lefts.length (ups.length + 1))).take
          (min (ups.length + 1) ((ticks + 1) / 3)) := by
      rw [List.take_take, List.take_eq_take_iff]
      omega
    rw [hcollected, htake]
    exact List.take_prefix _ _

/-- Two values above let three of five values through, the third of them in tick 8. -/
theorem collected_passing_five :
    3 * min [1, 2, 3, 4, 5].length ([6, 7].length + 1) ≤ 9 ∧ 1 ≤ 9 ∧
      ∃ b, (passing [1, 2, 3, 4, 5] [6, 7]).loaded = .ok b ∧
        ((Board.steps 9 b).node? ⟨0, 0⟩).map (·.acc) = some 8 ∧
        (Board.steps 9 b).collected ⟨1, 0⟩ = [1, 2, 3] := by
  have htime : 3 * min [1, 2, 3, 4, 5].length ([6, 7].length + 1) ≤ 9 := by decide
  have hfirst : 1 ≤ 9 := by decide
  obtain ⟨b, hb, hticks⟩ := collected_passing [1, 2, 3, 4, 5] [6, 7]
  obtain ⟨hacc, hcollected, -⟩ := hticks 9
  exact ⟨htime, hfirst, b, hb, hacc hfirst, hcollected htime⟩

end Sample

end NodeGrid
