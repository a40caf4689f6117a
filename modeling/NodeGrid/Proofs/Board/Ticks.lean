import NodeGrid.Proofs.Board.Filling
import NodeGrid.Proofs.Board.Recording

/-!
# Ticks, node by node

What a tick does to one node and its mailboxes, when it is known what its neighbours send. This is
how runs of boards with few nodes are followed.

* `node?_atTurn`, `node?_step`: the node at its turn, and after the tick.
* `sentInTick_eq`: what a node sends depends on the node at its turn.
* `inbox_atTurn`, `upcoming_step`: a mailbox together with the values that an input holds for it.
* `collected_step_of_outside`: an output outside the grid gets what the one node beside it sends.
-/

namespace NodeGrid.Board

variable {b : Board} {p q : Position} {d e : Direction} {n : Node}

theorem steps_succ (k : Nat) (b : Board) : steps (k + 1) b = (steps k b).step := by
  induction k generalizing b with
  | zero => rfl
  | succ k ih => exact ih b.step

/-! ## Nodes -/

theorem contains_feed (b : Board) (q : Position) : b.feed.contains q = b.contains q := by
  obtain ⟨hwidth, hheight, -, -⟩ := feed_frame b
  rw [Bool.eq_iff_iff, contains_iff, contains_iff, hwidth, hheight]

theorem isSome_node?_atTurn (b : Board) (q : Position) :
    ((b.atTurn q).node? q).isSome = (b.node? q).isSome := by
  by_cases hq : b.feed.contains q
  · rw [atTurn, (isSweep_positions b.feed).node?_upTo hq, Option.isSome_map, isSome_node?_feed]
  · have hturn : ¬ (b.atTurn q).contains q := by
      rwa [atTurn, upTo, (visitAll_frame b.feed _).contains_eq]
    rw [contains_feed] at hq
    rw [node?_eq_none_of_not_contains hturn, node?_eq_none_of_not_contains hq]

/-- Before its turn a node is fed and offered what the neighbours that come first send. -/
theorem node?_atTurn (hq : b.contains q) :
    (b.atTurn q).node? q = (b.feed.node? q).map (·.offered fun e =>
      if comesFirst e then b.sentInTick (q.step e) e.opposite else none) :=
  (isSweep_positions b.feed).node?_upTo ((contains_feed b q).trans hq)

/-- In its turn it steps, and then it is offered what the others send. -/
theorem node?_step (hq : b.contains q) :
    b.step.node? q = ((b.atTurn q).node? q).map fun n => n.step.1.drained.offered fun e =>
      if comesFirst e then none else b.sentInTick (q.step e) e.opposite := by
  calc
    b.step.node? q = (b.feed.visitAll b.feed.positions).node? q := node?_mk ..
    _ = _ := (isSweep_positions b.feed).node?_visitAll ((contains_feed b q).trans hq)

/-- What a node sends in a tick depends on the node at its turn. -/
theorem sentInTick_eq (b : Board) (p : Position) (d : Direction) :
    b.sentInTick p d = ((b.atTurn p).node? p).bind fun n => n.step.1.outgoing d := by
  unfold sentInTick sentDuring
  split
  · rfl
  · next hp =>
    have hnode : (b.atTurn p).node? p = none := by
      rw [mem_positions_iff, contains_feed] at hp
      rw [← Option.not_isSome_iff_eq_none, isSome_node?_atTurn, node?_eq_none_of_not_contains hp]
      exact Bool.false_ne_true
    rw [hnode, Option.bind_none]

theorem sentInTick_of_not_contains (hp : ¬ b.contains p) (d : Direction) :
    b.sentInTick p d = none := by
  rw [sentInTick, sentDuring_of_not_mem]
  rwa [mem_positions_iff, contains_feed]

/-! ## Mailboxes and the inputs that point at them -/

/-- What is in the mailbox for `e` of the node at `q` and what the input that points at it holds. -/
def upcoming (b : Board) (q : Position) (e : Direction) : List Int32 :=
  (b.mailbox? q e).join.toList ++ b.queueAt q e

/-- Feeding takes the oldest value from the input if the mailbox is empty. -/
theorem queueAt_feed (b : Board) (q : Position) (e : Direction) : b.feed.queueAt q e =
    if b.mailbox? q e = some none then (b.queueAt q e).tail else b.queueAt q e := by
  unfold queueAt
  rw [find?_inputs_feed]
  cases b.inputs.find? (q.step e) with
  | none => simp
  | some link =>
    by_cases hd : link.direction = e.opposite
    · have hawaits : b.Awaits (q.step e) link ↔ b.mailbox? q e = some none := by
        simp [Awaits, hd]
      by_cases hempty : b.mailbox? q e = some none
      · simp [served, hawaits, hempty, hd]
      · simp [served, hawaits, hempty, hd]
    · have hserved : (b.served (q.step e) link).direction = link.direction := by
        unfold served
        split <;> rfl
      simp [hserved, hd]

/-- After feeding the first of the upcoming values is in the mailbox and the others are not. -/
theorem mailbox?_and_queueAt_feed {content : Option Int32} (h : b.mailbox? q e = some content) :
    b.feed.mailbox? q e = some (b.upcoming q e).head? ∧
      b.feed.queueAt q e = (b.upcoming q e).tail := by
  rw [mailbox?_feed, front?, queueAt_feed, upcoming, h]
  cases content with
  | none => simp
  | some value => simp

theorem mailbox?_of_node? (hn : b.node? q = some n) (e : Direction) :
    b.mailbox? q e = some (n.inbox.get e) := by
  rw [mailbox?, hn, Option.map_some]

theorem exists_mailbox?_of_atTurn (hn : (b.atTurn q).node? q = some n) (e : Direction) :
    b.contains q ∧ ∃ content, b.mailbox? q e = some content := by
  have hsome : (b.node? q).isSome := by
    rw [← isSome_node?_atTurn, hn, Option.isSome_some]
  obtain ⟨m, hm⟩ := Option.isSome_iff_exists.mp hsome
  exact ⟨contains_of_node? hm, _, mailbox?_of_node? hm e⟩

/-- What a node finds in a mailbox in its turn. -/
theorem inbox_atTurn (hn : (b.atTurn q).node? q = some n) (e : Direction) : n.inbox.get e =
    (b.upcoming q e).head?.or
      (if comesFirst e then b.sentInTick (q.step e) e.opposite else none) := by
  obtain ⟨hq, content, hcontent⟩ := exists_mailbox?_of_atTurn hn e
  obtain ⟨hmailbox, -⟩ := mailbox?_and_queueAt_feed hcontent
  rw [node?_atTurn hq] at hn
  obtain ⟨fed, hfed, rfl⟩ := Option.map_eq_some_iff.mp hn
  rw [mailbox?_of_node? hfed, Option.some.injEq] at hmailbox
  rw [Node.offered, Sides.get_ofFn, hmailbox]

/-- What is upcoming after a tick: what the node has left or got, and what was not yet fed. -/
theorem upcoming_step (hn : (b.atTurn q).node? q = some n) (e : Direction) : b.step.upcoming q e =
    ((n.step.1.inbox.get e).or
      (if comesFirst e then none else b.sentInTick (q.step e) e.opposite)).toList ++
        (b.upcoming q e).tail := by
  obtain ⟨hq, content, hcontent⟩ := exists_mailbox?_of_atTurn hn e
  obtain ⟨-, hqueue⟩ := mailbox?_and_queueAt_feed hcontent
  have hinputs : b.step.inputs = b.feed.inputs := (visitAll_frame b.feed b.feed.positions).inputs
  have hafter : b.step.queueAt q e = b.feed.queueAt q e := by rw [queueAt, hinputs, queueAt]
  have hnode := node?_step hq
  rw [hn, Option.map_some] at hnode
  rw [upcoming, mailbox?_of_node? hnode, hafter, hqueue, Node.offered, Sides.get_ofFn]
  rfl

/-! ## Outputs outside the grid -/

theorem emission_eq (b : Board) (p : Position) (d : Direction) :
    b.emission p (p.step d) = (b.sentInTick p d).toList := by
  simp only [emission, Position.step_eq_step_iff]
  cases d <;> cases hsent : b.sentInTick p _ <;> simp [Direction.all, hsent]

/-- Only one node can send to a position outside the grid. -/
theorem emissions_eq (hp : b.contains p) (ht : ¬ b.contains (p.step d)) :
    b.emissions (p.step d) = (b.sentInTick p d).toList := by
  have hother : ∀ r ∈ b.positions, r ≠ p → b.emission r (p.step d) = [] := by
    intro r hr hne
    rw [mem_positions_iff] at hr
    refine List.filterMap_eq_nil_iff.mpr fun e _ => if_neg fun he => ht ?_
    exact contains_of_step_eq hp hr hne.symm he.symm
  obtain ⟨before, after, hsplit⟩ := List.append_of_mem (mem_positions_iff.mpr hp)
  have hnodup := nodup_positions b
  rw [hsplit, List.nodup_append] at hnodup
  obtain ⟨-, hafter, hcross⟩ := hnodup
  obtain ⟨hfresh, -⟩ := List.nodup_cons.mp hafter
  have hbefore : before.flatMap (b.emission · (p.step d)) = [] := by
    refine List.flatMap_eq_nil_iff.mpr fun r hr => hother r ?_ (hcross r hr p List.mem_cons_self)
    rw [hsplit]
    exact List.mem_append_left _ hr
  have hbehind : after.flatMap (b.emission · (p.step d)) = [] := by
    refine List.flatMap_eq_nil_iff.mpr fun r hr => hother r ?_ fun h => hfresh (h ▸ hr)
    rw [hsplit]
    exact List.mem_append_right _ (List.mem_cons_of_mem p hr)
  rw [emissions, hsplit, List.flatMap_append, List.flatMap_cons, hbefore, hbehind, emission_eq,
    List.nil_append, List.append_nil]

/-- An output outside the grid gets what the one node beside it sends. -/
theorem collected_step_of_outside (h : (b.outputs.find? (p.step d)).isSome) (hp : b.contains p)
    (ht : ¬ b.contains (p.step d)) :
    b.step.collected (p.step d) = b.collected (p.step d) ++ (b.sentInTick p d).toList := by
  rw [collected_step h, emissions_eq hp ht]

end NodeGrid.Board
