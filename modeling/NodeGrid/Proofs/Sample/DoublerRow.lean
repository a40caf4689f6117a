import Mathlib.Algebra.Ring.Int.Defs
import NodeGrid.Proofs.Board.Ticks
import NodeGrid.Proofs.Node.Execution
import NodeGrid.Proofs.Sample.Loading

/-!
# Rows of doubling nodes

A value that is sent to a full mailbox is lost, so what comes out of a row depends on when each
value is where. A node takes a value, doubles it in the next tick and sends it in the one after
that. The first node takes a value in every third tick, and the node after it takes the doubled
value in the tick in which it is sent. So node `j` takes value `i` in tick `3 * i + 2 * j + 1`, and
no mailbox but the first one ever holds a value between ticks.

* `Stage`: where a node is in its program; `IsAt.step`: what a node does in each stage.
* `arrival`, `stageAt`: the times; `next_stageAt`, `sends_stageAt`: they agree with the stages.
* `IsRunning.step`: what holds of the row after each tick.
* `collected_doublerRow`: all values come out in order, and each is multiplied by `2 ^ k`.
-/

namespace NodeGrid

namespace Sample

/-- The row of any number of doubling nodes, with any values at its left end. -/
def doublerRow (width : Nat) (values : List Int32) : Sample :=
  { doubler with
    width
    inputs := [{ name := "Left", position := ⟨-1, 0⟩, direction := .right, values }]
    outputs := [⟨⟨width, 0⟩, .left⟩]
    shown := [("Right", ⟨width, 0⟩)]
    awaited := ⟨width, 0⟩
    count := values.length }

example : doublerRow 2 [1, 2, 3] = doubler := rfl

end Sample

namespace Doubler

open Board

/-! ## One node -/

/-- The commands of a doubling node. -/
def program : Program :=
  [⟨0, .mov, .side .left, .acc⟩, ⟨1, .add, .acc, .empty⟩, ⟨2, .mov, .acc, .side .right⟩]

/-- Where a doubling node is in its program. -/
inductive Stage where
  | ready
  | holding (value : Int32)
  | doubled (value : Int32)

namespace Stage

/-- The stage after a step in which `mail` is in the mailbox on the left. -/
def next (mail : Option Int32) : Stage → Stage
  | ready => match mail with
    | some value => holding value
    | none => ready
  | holding value => doubled (value + value)
  | doubled _ => ready

/-- What is sent to the right in a step. -/
def sends : Stage → Option Int32
  | doubled value => some value
  | _ => none

/-- What a step leaves in the mailbox on the left. -/
def leaves (mail : Option Int32) : Stage → Option Int32
  | ready => none
  | _ => mail

/-- The command that runs in a stage. -/
def command : Stage → Command
  | ready => ⟨0, .mov, .side .left, .acc⟩
  | holding _ => ⟨1, .add, .acc, .empty⟩
  | doubled _ => ⟨2, .mov, .acc, .side .right⟩

/-- The counter and the accumulator in a stage. -/
def Shows (n : Node) : Stage → Prop
  | ready => n.pc = 0 ∨ n.pc = 3
  | holding value => n.pc = 1 ∧ n.acc = value
  | doubled value => n.pc = 2 ∧ n.acc = value

end Stage

/-- A doubling node in a stage, with nothing that waits to be taken. -/
structure IsAt (n : Node) (stage : Stage) : Prop where
  program : n.program = program
  right : .right ∈ n.links
  outbox : ∀ d, n.outbox.get d = none
  shows : stage.Shows n

variable {n : Node} {stage : Stage}

theorem IsAt.offered (h : IsAt n stage) (values : Direction → Option Int32) :
    IsAt (n.offered values) stage where
  program := h.program
  right := h.right
  outbox := h.outbox
  shows := by cases stage <;> exact h.shows

theorem IsAt.wrap_eq (h : IsAt n stage) (hpc : n.pc < 3) : n.wrap = n := by
  apply Node.wrap_of_lt
  rw [h.program]
  exact hpc

theorem IsAt.wrap_eq_of_ready (h : IsAt n .ready) : n.wrap = { n with pc := 0 } := by
  rcases h.shows with hpc | hpc
  · rw [h.wrap_eq (by omega), ← hpc]
  · unfold Node.wrap
    rw [h.program, hpc]
    rfl

/-- Nothing waits to be taken, so a step runs the command of the stage. -/
theorem IsAt.step_eq (h : IsAt n stage) : n.step = n.wrap.run stage.command := by
  have hc : n.wrap.current? = some stage.command := by
    cases stage with
    | ready =>
      rw [h.wrap_eq_of_ready, Node.current?, h.program]
      rfl
    | holding value =>
      obtain ⟨hpc, -⟩ := h.shows
      rw [h.wrap_eq (by omega), Node.current?, h.program, hpc]
      rfl
    | doubled value =>
      obtain ⟨hpc, -⟩ := h.shows
      rw [h.wrap_eq (by omega), Node.current?, h.program, hpc]
      rfl
  exact Node.step_of_current?_some (Node.isPending_eq_false_iff.mpr h.outbox) hc

theorem IsAt.step_ready_none (h : IsAt n .ready) (hmail : n.inbox.get .left = none) :
    n.step.1 = { n with pc := 0 } := by
  have hexecute : n.wrap.execute Stage.ready.command = (n.wrap, 0) :=
    Node.execute_of_inbox_none rfl (by rwa [Node.wrap_inbox])
  rw [h.step_eq, Node.run, hexecute, h.wrap_eq_of_ready]
  rfl

theorem IsAt.step_ready_some (h : IsAt n .ready) {value : Int32}
    (hmail : n.inbox.get .left = some value) :
    n.step.1 = { n with pc := 1, acc := value, inbox := n.inbox.set .left none } := by
  have hvalue : n.wrap.value? (.side .left) = some value := by rwa [Node.value?, Node.wrap_inbox]
  rw [h.step_eq, Node.run, Node.execute_mov rfl, Stage.command, Node.reading_of_value?_some hvalue,
    h.wrap_eq_of_ready]
  rfl

theorem IsAt.step_holding {value : Int32} (h : IsAt n (.holding value)) :
    n.step.1 = { n with pc := 2, acc := value + value } := by
  obtain ⟨hpc, hacc⟩ := h.shows
  rw [h.step_eq, h.wrap_eq (by omega), Node.run, Node.execute_add rfl,
    Node.reading_of_value?_some rfl]
  simp [Node.move, Node.consume, Stage.command, hpc, hacc]

theorem IsAt.step_doubled {value : Int32} (h : IsAt n (.doubled value)) :
    n.step.1 = { n with pc := 3, outbox := n.outbox.set .right (some value) } := by
  obtain ⟨hpc, hacc⟩ := h.shows
  rw [h.step_eq, h.wrap_eq (by omega), Node.run, Node.execute_mov rfl,
    Node.reading_of_value?_some rfl]
  simp [Node.move, Node.consume, Node.write, Stage.command, hpc, hacc]

/-- What waits on the right is sent, and after that nothing waits. -/
theorem isAt_drained {m : Node} {out : Option Int32} (hprogram : m.program = program)
    (hright : .right ∈ m.links)
    (hout : ∀ d, m.outbox.get d = if d = .right then out else none) (hshows : stage.Shows m) :
    IsAt m.drained stage ∧ ∀ d, m.outgoing d = if d = .right then out else none := by
  constructor
  · refine ⟨hprogram, hright, ?_, by cases stage <;> exact hshows⟩
    intro d
    rw [Node.drained, Sides.get_ofFn, hout]
    by_cases hd : d = .right
    · simp [hd, hright]
    · simp [hd]
  · intro d
    rw [Node.outgoing, hout]
    by_cases hd : d = .right
    · simp [hd, hright]
    · simp [hd]

/-- What a doubling node does in a step, from stage to stage. -/
theorem IsAt.step (h : IsAt n stage) :
    IsAt n.step.1.drained (stage.next (n.inbox.get .left)) ∧
      (∀ d, n.step.1.outgoing d = if d = .right then stage.sends else none) ∧
      n.step.1.inbox.get .left = stage.leaves (n.inbox.get .left) := by
  obtain ⟨hprogram, hlinks⟩ := Node.step_frame n
  have hquiet : ∀ d, n.outbox.get d = if d = .right then none else none := by
    intro d
    rw [h.outbox, ite_self]
  rw [h.program] at hprogram
  have hright : .right ∈ n.step.1.links := hlinks ▸ h.right
  rw [← and_assoc]
  cases stage with
  | ready =>
    cases hmail : n.inbox.get .left with
    | none =>
      rw [h.step_ready_none hmail] at hprogram hright ⊢
      exact ⟨isAt_drained hprogram hright hquiet (Or.inl rfl), hmail⟩
    | some value =>
      rw [h.step_ready_some hmail] at hprogram hright ⊢
      exact ⟨isAt_drained hprogram hright hquiet ⟨rfl, rfl⟩, rfl⟩
  | holding value =>
    rw [h.step_holding] at hprogram hright ⊢
    exact ⟨isAt_drained hprogram hright hquiet ⟨rfl, rfl⟩, rfl⟩
  | doubled value =>
    rw [h.step_doubled] at hprogram hright ⊢
    refine ⟨isAt_drained hprogram hright ?_ (Or.inr rfl), rfl⟩
    intro d
    rw [Sides.get_set, h.outbox]
    rfl

/-! ## Times -/

/-- The value that the first node takes in a tick; the first tick is tick 1. -/
def firstArrival (xs : List Int32) : Nat → Option Int32
  | 0 => none
  | t + 1 => if t % 3 = 0 then xs[t / 3]? else none

/-- A value that was doubled in `j` nodes. -/
def scaled (j : Nat) (x : Int32) : Int32 := Int32.ofInt (x.toInt * 2 ^ j)

/-- The value that node `j` takes in tick `t`. -/
def arrival (xs : List Int32) (j t : Nat) : Option Int32 :=
  (firstArrival xs (t - 2 * j)).map (scaled j)

/-- The stage of node `j` after `t` ticks. -/
def stageAt (xs : List Int32) (j t : Nat) : Stage :=
  match arrival xs j t with
  | some value => .holding value
  | none =>
    match arrival xs j (t - 1) with
    | some value => .doubled (value + value)
    | none => .ready

variable {xs : List Int32} {j k t : Nat} {value : Int32} {b : Board}

theorem scaled_zero (x : Int32) : scaled 0 x = x := by
  rw [scaled, pow_zero, mul_one, Int32.ofInt_toInt]

theorem scaled_succ (j : Nat) (x : Int32) : scaled (j + 1) x = scaled j x + scaled j x := by
  rw [scaled, scaled, pow_succ, ← mul_assoc, mul_two, Int32.ofInt_add]

/-- Between two values a node has two ticks. -/
theorem arrival_spaced (h : arrival xs j t = some value) :
    arrival xs j (t + 1) = none ∧ arrival xs j (t + 2) = none := by
  obtain ⟨x, hx, -⟩ := Option.map_eq_some_iff.mp h
  cases hs : t - 2 * j with
  | zero => simp [hs, firstArrival] at hx
  | succ s =>
    rw [hs, firstArrival] at hx
    split at hx
    · next hmod =>
      have hone : t + 1 - 2 * j = s + 2 := by omega
      have htwo : t + 2 - 2 * j = s + 3 := by omega
      have hone' : ¬ (s + 1) % 3 = 0 := by omega
      have htwo' : ¬ (s + 2) % 3 = 0 := by omega
      simp [arrival, hone, htwo, firstArrival, hone', htwo']
    · cases hx

theorem arrival_eq_none_of_before (h : t ≤ 2 * j) : arrival xs j t = none := by
  rw [arrival, Nat.sub_eq_zero_of_le h]
  rfl

theorem arrival_spaced_pred (h : arrival xs j (t - 1) = some value) :
    arrival xs j t = none ∧ arrival xs j (t + 1) = none := by
  cases t with
  | zero =>
    have hnone : arrival xs j (0 - 1) = none := arrival_eq_none_of_before (Nat.zero_le _)
    rw [hnone] at h
    cases h
  | succ t => exact arrival_spaced h

/-- A value comes to the next node, doubled, in the second tick after that in which it was taken. -/
theorem arrival_succ (xs : List Int32) (j t : Nat) :
    arrival xs (j + 1) (t + 1) = (arrival xs j (t - 1)).map fun value => value + value := by
  have htime : t + 1 - 2 * (j + 1) = t - 1 - 2 * j := by omega
  rw [arrival, arrival, htime, Option.map_map]
  congr 1
  funext x
  exact scaled_succ j x

theorem stageAt_zero (xs : List Int32) (j : Nat) : stageAt xs j 0 = .ready := by
  have hnone : arrival xs j 0 = none := arrival_eq_none_of_before (Nat.zero_le _)
  simp only [stageAt, Nat.zero_sub, hnone]

/-- What a node sends is what comes to the next one in the same tick. -/
theorem sends_stageAt (xs : List Int32) (j t : Nat) :
    (stageAt xs j t).sends = arrival xs (j + 1) (t + 1) := by
  rw [arrival_succ, stageAt]
  cases hbefore : arrival xs j (t - 1) with
  | none => cases arrival xs j t <;> rfl
  | some value =>
    rw [(arrival_spaced_pred hbefore).1]
    rfl

/-- A node that is not ready gets nothing. -/
theorem arrival_of_stageAt_ne_ready (h : stageAt xs j t ≠ .ready) :
    arrival xs j (t + 1) = none := by
  unfold stageAt at h
  cases hnow : arrival xs j t with
  | some value => exact (arrival_spaced hnow).1
  | none =>
    cases hbefore : arrival xs j (t - 1) with
    | some value => exact (arrival_spaced_pred hbefore).2
    | none => simp [hnow, hbefore] at h

/-- So a value that comes in time is never left in the mailbox. -/
theorem leaves_arrival (xs : List Int32) (j t : Nat) :
    (stageAt xs j t).leaves (arrival xs j (t + 1)) = none := by
  cases hstage : stageAt xs j t with
  | ready => rfl
  | holding value => exact arrival_of_stageAt_ne_ready (by simp [hstage])
  | doubled value => exact arrival_of_stageAt_ne_ready (by simp [hstage])

/-- The stages follow each other, if a node that is ready finds what should come to it. -/
theorem next_stageAt {mail : Option Int32}
    (hmail : stageAt xs j t = .ready → mail = arrival xs j (t + 1)) :
    (stageAt xs j t).next mail = stageAt xs j (t + 1) := by
  rw [stageAt.eq_def xs j (t + 1), Nat.add_sub_cancel]
  unfold stageAt at hmail ⊢
  cases hnow : arrival xs j t with
  | some value =>
    rw [(arrival_spaced hnow).1]
    rfl
  | none =>
    cases hbefore : arrival xs j (t - 1) with
    | some value =>
      rw [(arrival_spaced_pred hbefore).2]
      rfl
    | none =>
      rw [hnow, hbefore] at hmail
      rw [hmail rfl]
      cases arrival xs j (t + 1) <;> rfl

/-! ## The first node -/

theorem arrival_first (xs : List Int32) (t : Nat) :
    arrival xs 0 (t + 1) = if t % 3 = 0 then xs[t / 3]? else none := by
  have hscaled : scaled 0 = id := funext scaled_zero
  rw [arrival, hscaled, Option.map_id_fun, id, Nat.mul_zero, Nat.sub_zero, firstArrival]

theorem stageAt_eq_ready_iff :
    stageAt xs j t = .ready ↔ arrival xs j t = none ∧ arrival xs j (t - 1) = none := by
  unfold stageAt
  cases arrival xs j t <;> cases arrival xs j (t - 1) <;> simp

/-- The first node takes values in every third tick only. -/
theorem stageAt_first_of_mod (h : t % 3 = 0) : stageAt xs 0 t = .ready := by
  rw [stageAt_eq_ready_iff]
  obtain rfl | ⟨s, rfl⟩ : t = 0 ∨ ∃ s, t = s + 3 := by
    by_cases h0 : t = 0
    · exact Or.inl h0
    · exact Or.inr ⟨t - 3, by omega⟩
  · exact ⟨rfl, rfl⟩
  · rw [Nat.add_sub_cancel (s + 2) 1, arrival_first, arrival_first, if_neg (by omega),
      if_neg (by omega)]
    exact ⟨rfl, rfl⟩

/-- If it is ready at another time, it has no value left. -/
theorem length_le_of_ready (h : stageAt xs 0 t = .ready) (hmod : t % 3 ≠ 0) :
    xs.length ≤ t / 3 := by
  obtain ⟨hnow, hbefore⟩ := stageAt_eq_ready_iff.mp h
  obtain ⟨s, hs, rfl | rfl⟩ : ∃ s, s % 3 = 0 ∧ (t = s + 1 ∨ t = s + 2) :=
    ⟨t - t % 3, by omega, by omega⟩
  · rw [arrival_first, if_pos hs, List.getElem?_eq_none_iff] at hnow
    omega
  · rw [Nat.add_sub_cancel (s + 1) 1, arrival_first, if_pos hs,
      List.getElem?_eq_none_iff] at hbefore
    omega

/-- When the first node is ready, its next value is there. -/
theorem head?_drop_of_ready (h : stageAt xs 0 t = .ready) :
    (xs.drop ((t + 2) / 3)).head? = arrival xs 0 (t + 1) := by
  rw [List.head?_drop, arrival_first]
  split
  · next hmod => rw [show (t + 2) / 3 = t / 3 by omega]
  · next hmod =>
    have hlength := length_le_of_ready h hmod
    exact List.getElem?_eq_none (by omega)

/-- The values that the first node has still to take, from one tick to the next. -/
theorem drop_after_step (xs : List Int32) (t : Nat) :
    ((stageAt xs 0 t).leaves (xs.drop ((t + 2) / 3)).head?).toList ++ (xs.drop ((t + 2) / 3)).tail =
      xs.drop ((t + 3) / 3) := by
  by_cases hmod : t % 3 = 0
  · rw [stageAt_first_of_mod hmod, Stage.leaves, List.tail_drop,
      show (t + 2) / 3 + 1 = (t + 3) / 3 by omega]
    rfl
  · have hcount : (t + 2) / 3 = (t + 3) / 3 := by omega
    have hwhole : ∀ ys : List Int32, ys.head?.toList ++ ys.tail = ys := by
      intro ys
      cases ys <;> rfl
    rw [hcount]
    cases hstage : stageAt xs 0 t with
    | ready =>
      have hlength := length_le_of_ready hstage hmod
      rw [List.drop_eq_nil_of_le (by omega)]
      rfl
    | holding value => exact hwhole _
    | doubled value => exact hwhole _

/-- What has come out of the last node, from one tick to the next. -/
theorem take_append_arrival (xs : List Int32) (k t : Nat) :
    (xs.map (scaled k)).take ((t + 2 - 2 * k) / 3) ++ (arrival xs k (t + 1)).toList =
      (xs.map (scaled k)).take ((t + 3 - 2 * k) / 3) := by
  unfold arrival
  cases hs : t + 1 - 2 * k with
  | zero =>
    rw [show (t + 2 - 2 * k) / 3 = 0 by omega, show (t + 3 - 2 * k) / 3 = 0 by omega]
    rfl
  | succ s =>
    rw [show t + 2 - 2 * k = s + 2 by omega, show t + 3 - 2 * k = s + 3 by omega, firstArrival]
    split
    · next hmod =>
      rw [show (s + 2) / 3 = s / 3 by omega, show (s + 3) / 3 = s / 3 + 1 by omega,
        List.take_add_one, List.getElem?_map]
    · next hmod =>
      rw [show (s + 2) / 3 = (s + 3) / 3 by omega]
      exact List.append_nil _

/-! ## The row -/

/-- The position of node `j`. -/
def cell (j : Nat) : Position := ⟨j, 0⟩

theorem cell_step_right (j : Nat) : (cell j).step .right = cell (j + 1) := rfl

theorem cell_step_left (j : Nat) : (cell (j + 1)).step .left = cell j := by
  rw [← cell_step_right]
  exact Position.step_step_opposite (cell j) .right

/-- A row of `k` doubling nodes after `t` ticks. -/
structure IsRunning (xs : List Int32) (k t : Nat) (b : Board) : Prop where
  width : b.width = k
  height : b.height = 1
  node : ∀ j < k, ∃ n, b.node? (cell j) = some n ∧ IsAt n (stageAt xs j t)
  upcoming : ∀ j < k, b.upcoming (cell j) .left = if j = 0 then xs.drop ((t + 2) / 3) else []
  output : (b.outputs.find? (cell k)).isSome
  collected : b.collected (cell k) = (xs.map (scaled k)).take ((t + 2 - 2 * k) / 3)

namespace IsRunning

theorem contains_iff (h : IsRunning xs k t b) {p : Position} :
    b.contains p ↔ (0 ≤ p.col ∧ p.col < k) ∧ p.row = 0 := by
  rw [Board.contains_iff, h.width, h.height]
  omega

theorem contains_cell (h : IsRunning xs k t b) : b.contains (cell j) ↔ j < k := by
  rw [h.contains_iff]
  simp [cell]

/-- What comes in a tick changes mailboxes only. -/
theorem atTurn (h : IsRunning xs k t b) (hj : j < k) :
    ∃ n, (b.atTurn (cell j)).node? (cell j) = some n ∧ IsAt n (stageAt xs j t) := by
  obtain ⟨n, hn, hat⟩ := h.node j hj
  rw [node?_atTurn (h.contains_cell.mpr hj), node?_feed, hn, Option.map_some, Option.map_some]
  exact ⟨_, rfl, (hat.offered _).offered _⟩

/-- In a tick node `j` sends what comes to node `j + 1`, and nothing to the other sides. -/
theorem sentInTick_eq (h : IsRunning xs k t b) (hj : j < k) (d : Direction) :
    b.sentInTick (cell j) d = if d = .right then arrival xs (j + 1) (t + 1) else none := by
  obtain ⟨n, hn, hat⟩ := h.atTurn hj
  obtain ⟨-, hout, -⟩ := hat.step
  rw [Board.sentInTick_eq, hn, Option.bind_some, hout, sends_stageAt]

/-- What node `j` finds in its mailbox in its turn. -/
theorem inbox_eq (h : IsRunning xs k t b) (hj : j < k) {n : Node}
    (hn : (b.atTurn (cell j)).node? (cell j) = some n) : n.inbox.get .left =
      if j = 0 then (xs.drop ((t + 2) / 3)).head? else arrival xs j (t + 1) := by
  have hinbox : n.inbox.get .left = (b.upcoming (cell j) .left).head?.or
      (b.sentInTick ((cell j).step .left) .right) := inbox_atTurn hn .left
  rw [hinbox, h.upcoming j hj]
  cases j with
  | zero =>
    have hedge : ¬ b.contains ((cell 0).step .left) := by
      rw [h.contains_iff]
      simp [cell, Position.step]
    rw [sentInTick_of_not_contains hedge, Option.or_none]
    rfl
  | succ j =>
    rw [cell_step_left, h.sentInTick_eq (by omega)]
    rfl

/-- A node that is ready finds the value that should come to it. -/
theorem inbox_of_ready (h : IsRunning xs k t b) (hj : j < k) {n : Node}
    (hn : (b.atTurn (cell j)).node? (cell j) = some n) (hready : stageAt xs j t = .ready) :
    n.inbox.get .left = arrival xs j (t + 1) := by
  rw [h.inbox_eq hj hn]
  split
  · next h0 =>
    subst h0
    exact head?_drop_of_ready hready
  · rfl

theorem node_step (h : IsRunning xs k t b) (hj : j < k) :
    ∃ n, b.step.node? (cell j) = some n ∧ IsAt n (stageAt xs j (t + 1)) := by
  obtain ⟨n, hn, hat⟩ := h.atTurn hj
  obtain ⟨hnext, -, -⟩ := hat.step
  rw [next_stageAt (h.inbox_of_ready hj hn)] at hnext
  rw [node?_step (h.contains_cell.mpr hj), hn, Option.map_some]
  exact ⟨_, rfl, hnext.offered _⟩

/-- The first node has all values before it that it has not taken, the others none. -/
theorem upcoming_step (h : IsRunning xs k t b) (hj : j < k) : b.step.upcoming (cell j) .left =
    if j = 0 then xs.drop ((t + 3) / 3) else [] := by
  obtain ⟨n, hn, hat⟩ := h.atTurn hj
  obtain ⟨-, -, hleft⟩ := hat.step
  have hupcoming : b.step.upcoming (cell j) .left =
      (n.step.1.inbox.get .left).toList ++ (b.upcoming (cell j) .left).tail := by
    have hearlier : comesFirst .left = true := rfl
    rw [Board.upcoming_step hn, if_pos hearlier, Option.or_none]
  rw [hupcoming, hleft, h.inbox_eq hj hn, h.upcoming j hj]
  cases j with
  | zero => exact drop_after_step xs t
  | succ j =>
    show ((stageAt xs (j + 1) t).leaves (arrival xs (j + 1) (t + 1))).toList ++ [] = []
    rw [leaves_arrival]
    rfl

/-- What the last node sends goes to the output, and nothing else does. -/
theorem collected_step (hk : 0 < k) (h : IsRunning xs k t b) :
    b.step.collected (cell k) = (xs.map (scaled k)).take ((t + 3 - 2 * k) / 3) := by
  obtain ⟨last, rfl⟩ : ∃ last, k = last + 1 := ⟨k - 1, by omega⟩
  have hlast : last < last + 1 := Nat.lt_succ_self last
  have hedge : ¬ b.contains (cell (last + 1)) := by
    rw [h.contains_cell]
    omega
  rw [← cell_step_right] at hedge
  have hcollected := collected_step_of_outside (p := cell last) (d := .right) h.output
    (h.contains_cell.mpr hlast) hedge
  rw [cell_step_right, h.collected, h.sentInTick_eq hlast, if_pos rfl] at hcollected
  rw [hcollected, take_append_arrival]

/-- What a tick keeps. -/
theorem step (hk : 0 < k) (h : IsRunning xs k t b) : IsRunning xs k (t + 1) b.step := by
  obtain ⟨hwidth, hheight, -, -⟩ := feed_frame b
  have hvisits := visitAll_frame b.feed b.feed.positions
  exact {
    width := hvisits.width.trans (hwidth.trans h.width)
    height := hvisits.height.trans (hheight.trans h.height)
    node := fun j hj => h.node_step hj
    upcoming := fun j hj => h.upcoming_step hj
    output := (isSome_outputs_step b (cell k)).trans h.output
    collected := h.collected_step hk }

theorem steps (hk : 0 < k) (h : IsRunning xs k 0 b) (t : Nat) :
    IsRunning xs k t (Board.steps t b) := by
  induction t with
  | zero => exact h
  | succ t ih =>
    rw [steps_succ]
    exact ih.step hk

end IsRunning

/-! ## Loading -/

theorem parse_source : Program.parse Sample.doubler.source = .ok program := rfl

/-- The commands need links on two sides only. -/
theorem faults_eq_nil {links : LinkSet} (hleft : .left ∈ links) (hright : .right ∈ links) :
    program.faults links = [] := by
  simp [program, Program.faults, Command.faults, Command.sourceFaults, Command.destinationFaults,
    Command.emptyFaults, Command.operand, Operand.isEmpty, hleft, hright]

theorem covers_cell : (Sample.doublerRow k xs).covers (cell j) ↔ j < k := by
  rw [Sample.covers_iff]
  simp [cell, Sample.doublerRow]

theorem exists_cell_of_covers {q : Position} (h : (Sample.doublerRow k xs).covers q) :
    ∃ j < k, q = cell j := by
  obtain ⟨⟨hcol, hlt⟩, hrow⟩ := Sample.covers_iff.mp h
  simp only [Sample.doublerRow] at hlt
  exact ⟨q.col.toNat, by omega, Position.ext (Int.toNat_of_nonneg hcol).symm hrow⟩

/-- Each node is linked on the left, to a node or to the input, and on the right, to a node or to
the output. -/
theorem mem_linksAt (hj : j < k) (xs : List Int32) :
    .left ∈ (Sample.doublerRow k xs).linksAt (cell j) ∧
      .right ∈ (Sample.doublerRow k xs).linksAt (cell j) := by
  simp only [LinkSet.mem_def, Sample.linksAt, Sides.get_ofFn, Bool.or_eq_true]
  constructor
  · cases j with
    | zero => exact Or.inr rfl
    | succ j =>
      rw [cell_step_left, covers_cell]
      exact Or.inl (by omega)
  · rw [cell_step_right, covers_cell]
    by_cases hlast : j + 1 < k
    · exact Or.inl hlast
    · have hk : k = j + 1 := by omega
      exact Or.inr (by simp [Sample.doublerRow, cell, Direction.opposite, hk])

/-- The row before the first tick. -/
theorem exists_isRunning (hk : 0 < k) (xs : List Int32) :
    ∃ b, (Sample.doublerRow k xs).loaded = .ok b ∧ IsRunning xs k 0 b := by
  have hclean : ∀ q, (Sample.doublerRow k xs).covers q →
      program.faults ((Sample.doublerRow k xs).linksAt q) = [] := by
    intro q hq
    obtain ⟨j, hj, rfl⟩ := exists_cell_of_covers hq
    obtain ⟨hleft, hright⟩ := mem_linksAt hj xs
    exact faults_eq_nil hleft hright
  have hparse : Program.parse (Sample.doublerRow k xs).source = .ok program := parse_source
  obtain ⟨b, hb, hframe, houtputs, hnode⟩ := Sample.exists_loaded hparse hclean
  obtain ⟨hwidth, hheight, hinputs, houtputs'⟩ := Sample.board_frame (Sample.doublerRow k xs)
  have hinput : ∀ p, b.inputs.find? p =
      if p = (cell 0).step .left then some ⟨0, .right, xs⟩ else none := by
    intro p
    rw [hframe.inputs, hinputs]
    exact Registry.find?_register {} ⟨-1, 0⟩ p .right xs
  have houtput : b.outputs.find? (cell k) = some ⟨0, .left, #[]⟩ := by
    rw [houtputs, houtputs']
    exact (Registry.find?_register {} (cell k) (cell k) .left #[]).trans (if_pos rfl)
  have hfresh : ∀ j < k, b.node? (cell j) =
      some { links := (Sample.doublerRow k xs).linksAt (cell j), program } :=
    fun j hj => hnode (cell j) (covers_cell.mpr hj)
  refine ⟨b, hb, hframe.width.trans hwidth, hframe.height.trans hheight, ?_, ?_, ?_, ?_⟩
  · intro j hj
    obtain ⟨-, hright⟩ := mem_linksAt hj xs
    rw [stageAt_zero]
    exact ⟨_, hfresh j hj, rfl, hright, Sides.get_replicate none, Or.inl rfl⟩
  · intro j hj
    rw [upcoming, mailbox?_of_node? (hfresh j hj), queueAt, hinput]
    cases j with
    | zero => rfl
    | succ j =>
      have hinside : cell j ≠ (cell 0).step .left := by
        simp [cell, Position.step]
      rw [cell_step_left, if_neg hinside]
      rfl
  · rw [houtput, Option.isSome_some]
  · rw [collected, houtput, show (0 + 2 - 2 * k) / 3 = 0 by omega]
    rfl

end Doubler

namespace Sample

/-- Every value that goes into a row of `k` doubling nodes comes out of it multiplied by `2 ^ k`, as
a 32-bit word, in order and none lost or doubled. The last one comes out in tick
`3 * values.length + 2 * (k - 1)`, or earlier if there is none. -/
theorem collected_doublerRow {k : Nat} (hk : 0 < k) (values : List Int32) :
    ∃ b, (doublerRow k values).loaded = .ok b ∧
      ∀ ticks, 3 * values.length + 2 * (k - 1) ≤ ticks →
        (Board.steps ticks b).collected ⟨k, 0⟩ =
          values.map fun x => Int32.ofInt (x.toInt * 2 ^ k) := by
  obtain ⟨b, hb, hrunning⟩ := Doubler.exists_isRunning hk values
  refine ⟨b, hb, ?_⟩
  intro ticks hticks
  have hcollected := (hrunning.steps hk ticks).collected
  rw [List.take_of_length_le (by rw [List.length_map]; omega)] at hcollected
  exact hcollected

/-- Three nodes multiply by 8, also where that leads out of the range of a word. -/
theorem collected_doublerRow_three :
    0 < 3 ∧ ∃ b, (doublerRow 3 [3, -5, 2147483647]).loaded = .ok b ∧
      (Board.steps 13 b).collected ⟨3, 0⟩ = [24, -40, -8] := by
  have hk : 0 < 3 := by decide
  obtain ⟨b, hb, hcollected⟩ := collected_doublerRow hk [3, -5, 2147483647]
  refine ⟨hk, b, hb, (hcollected 13 (by decide)).trans (by decide)⟩

end Sample

end NodeGrid
