import NodeGrid.Proofs.Board.Sweeps

/-!
# What a node sees of its neighbours in a tick

The turn of a cell comes after those of its left and its upper neighbour and before those of the
other two. So what the first two send in a tick is there before the step of the node, and what the
other two send comes after it, when the mailboxes that the step has read are empty again.

* `IsSweep.node?_upTo`, `IsSweep.node?_visitAll`: a node before and after a sweep of visits.
* `node?_step_of_isSome`: the local rule of a tick. What happens to a node in a tick depends on the
  node and on what its four neighbours send in this tick, and on nothing else.
-/

namespace NodeGrid.Board

variable {b : Board} {order before after : List Position} {p q : Position}

/-! ## Sweeps -/

/-- Whether the neighbour in a direction has its turn first. -/
def comesFirst : Direction → Bool
  | .left | .up => true
  | .right | .down => false

theorem upTo_append_cons (h : q ∉ before) (b : Board) (after : List Position) :
    b.upTo (before ++ q :: after) q = b.visitAll before := by
  have hall : ∀ p ∈ before, decide (p ≠ q) := by
    intro p hp
    exact decide_eq_true fun hpq => h (hpq ▸ hp)
  rw [upTo, List.takeWhile_append_of_pos hall]
  simp

namespace IsSweep

theorem exists_turn (h : b.IsSweep order) (hq : b.contains q) :
    ∃ before after, order = before ++ q :: after :=
  List.append_of_mem (h.perm.mem_iff.mpr (mem_positions_iff.mpr hq))

/-- Each cell has one turn. -/
theorem nodup_turn (h : b.IsSweep (before ++ q :: after)) :
    before.Nodup ∧ after.Nodup ∧ q ∉ before ∧ q ∉ after := by
  obtain ⟨hbefore, hafter, hcross⟩ := List.nodup_append.mp h.nodup
  obtain ⟨hq, hafter⟩ := List.nodup_cons.mp hafter
  exact ⟨hbefore, hafter, fun hmem => hcross q hmem q List.mem_cons_self rfl, hq⟩

theorem not_mem_after (h : b.IsSweep (before ++ q :: after)) {e : Direction}
    (he : comesFirst e = true) : q.step e ∉ after := by
  intro hmem
  obtain ⟨_, hordered, _⟩ := List.pairwise_append.mp h.ordered
  obtain ⟨hleft, hup⟩ := (List.pairwise_cons.mp hordered).1 _ hmem
  cases e with
  | left => exact hleft rfl
  | up => exact hup rfl
  | right | down => cases he

theorem not_mem_before (h : b.IsSweep (before ++ q :: after)) {e : Direction}
    (he : comesFirst e = false) : q.step e ∉ before := by
  intro hmem
  obtain ⟨_, _, hcross⟩ := List.pairwise_append.mp h.ordered
  obtain ⟨hleft, hup⟩ := hcross _ hmem q List.mem_cons_self
  have hback := (Position.step_step_opposite q e).symm
  cases e with
  | right => exact hleft hback
  | down => exact hup hback
  | left | up => cases he

/-- Before its turn a node is offered what its left and its upper neighbour send. -/
theorem node?_upTo (h : b.IsSweep order) (hq : b.contains q) :
    (b.upTo order q).node? q = (b.node? q).map (·.offered fun e =>
      if comesFirst e then b.sentDuring order (q.step e) e.opposite else none) := by
  obtain ⟨before, after, rfl⟩ := h.exists_turn hq
  obtain ⟨hbefore, -, hfresh, -⟩ := h.nodup_turn
  have hoffers : (fun e => b.sentDuring before (q.step e) e.opposite) = fun e =>
      if comesFirst e then b.sentDuring (before ++ q :: after) (q.step e) e.opposite else none := by
    funext e
    cases he : comesFirst e with
    | true =>
      by_cases hmem : q.step e ∈ before
      · rw [sentDuring_append_of_mem hmem, if_pos rfl]
      · have hall : q.step e ∉ before ++ q :: after := by
          rw [List.mem_append, List.mem_cons, not_or, not_or]
          exact ⟨hmem, Position.step_ne q e, h.not_mem_after he⟩
        rw [sentDuring_of_not_mem hmem, sentDuring_of_not_mem hall, if_pos rfl]
    | false =>
      rw [sentDuring_of_not_mem (h.not_mem_before he), if_neg Bool.false_ne_true]
  rw [upTo_append_cons hfresh, node?_visitAll hbefore hfresh, hoffers]

/-- After its step it is offered what the other two send. -/
theorem node?_visitAll (h : b.IsSweep order) (hq : b.contains q) :
    (b.visitAll order).node? q = ((b.upTo order q).node? q).map fun n =>
      n.step.1.drained.offered fun e =>
        if comesFirst e then none else b.sentDuring order (q.step e) e.opposite := by
  obtain ⟨before, after, rfl⟩ := h.exists_turn hq
  obtain ⟨-, hafter, hfresh, hdone⟩ := h.nodup_turn
  have hoffers : (fun e => ((b.visitAll before).visit q).sentDuring after (q.step e) e.opposite) =
      fun e => if comesFirst e then none
        else b.sentDuring (before ++ q :: after) (q.step e) e.opposite := by
    funext e
    cases he : comesFirst e with
    | true => rw [sentDuring_of_not_mem (h.not_mem_after he), if_pos rfl]
    | false =>
      rw [sentDuring_append_of_not_mem (h.not_mem_before he), sentDuring_cons,
        if_neg (Position.step_ne q e), if_neg Bool.false_ne_true]
  rw [upTo_append_cons hfresh, visitAll_append, visitAll_cons, Board.node?_visitAll hafter hdone,
    node?_visit, if_pos rfl, Option.map_map, hoffers]
  rfl

end IsSweep

/-! ## Feeding -/

/-- No input removes a node or puts one into an empty cell. -/
theorem isSome_node?_offer (b : Board) (p q : Position) :
    ((b.offer p).node? q).isSome = (b.node? q).isSome := by
  unfold offer
  split
  · split
    · next n hn =>
      split
      · rw [node?_mk, node?_set]
        split
        · next hq => rw [hq.1, hn, Option.isSome_some, Option.isSome_some]
        · rfl
      · rfl
    · rfl
  · rfl

theorem isSome_node?_feed (b : Board) (q : Position) :
    (b.feed.node? q).isSome = (b.node? q).isSome := by
  refine List.foldlRecOn b.inputs.positions offer
    (motive := fun c => (c.node? q).isSome = (b.node? q).isSome) rfl ?_
  intro c hc p _
  rw [isSome_node?_offer, hc]

/-! ## Ticks -/

/-- The board in the next tick when the turn of a cell comes. -/
def atTurn (b : Board) (q : Position) : Board := b.feed.upTo b.feed.positions q

/-- What the node at `p` sends in direction `d` in the next tick, if there is a node. -/
def sentInTick (b : Board) (p : Position) (d : Direction) : Option Int32 :=
  b.feed.sentDuring b.feed.positions p d

/-- What the neighbours of a cell that have their turn before it send towards it. -/
def fromEarlier (b : Board) (q : Position) : Direction → Option Int32
  | .left => b.sentInTick (q.step .left) .right
  | .up => b.sentInTick (q.step .up) .down
  | .right | .down => none

/-- What the neighbours that have their turn after it send towards it. -/
def fromLater (b : Board) (q : Position) : Direction → Option Int32
  | .right => b.sentInTick (q.step .right) .left
  | .down => b.sentInTick (q.step .down) .up
  | .left | .up => none

/-- The local rule of a tick. A node is fed; then each of its mailboxes on the left and above, if it
is empty, takes what the neighbour there sends in this tick; then the node steps and its linked
sides are emptied; and then each of the mailboxes on the right and below, if it is empty, takes what
the neighbour there sends in this tick. -/
theorem node?_step_of_isSome (h : (b.node? q).isSome) :
    ∃ fed, b.feed.node? q = some fed ∧
      (b.atTurn q).node? q = some (fed.offered (b.fromEarlier q)) ∧
      b.step.node? q =
        some ((fed.offered (b.fromEarlier q)).step.1.drained.offered (b.fromLater q)) := by
  have hearlier : b.fromEarlier q = fun e =>
      if comesFirst e then b.sentInTick (q.step e) e.opposite else none := by
    funext e
    cases e <;> rfl
  have hlater : b.fromLater q = fun e =>
      if comesFirst e then none else b.sentInTick (q.step e) e.opposite := by
    funext e
    cases e <;> rfl
  rw [← isSome_node?_feed] at h
  obtain ⟨fed, hfed⟩ := Option.isSome_iff_exists.mp h
  have hsweep := isSweep_positions b.feed
  have hq := contains_of_node? hfed
  have hturn : (b.atTurn q).node? q = some (fed.offered (b.fromEarlier q)) := by
    rw [atTurn, hsweep.node?_upTo hq, hfed, hearlier]
    rfl
  refine ⟨fed, hfed, hturn, ?_⟩
  calc
    b.step.node? q = (b.feed.visitAll b.feed.positions).node? q := node?_mk _ _ _ _ _
    _ = some ((fed.offered (b.fromEarlier q)).step.1.drained.offered (b.fromLater q)) := by
      rw [hsweep.node?_visitAll hq, ← atTurn, hturn, hlater]
      rfl

/-- A node and its four neighbours, each of which sends its own number towards it. -/
def star : Board :=
  (empty 3 3).performAll [.place ⟨1, 0⟩, .place ⟨0, 1⟩, .place ⟨1, 1⟩, .place ⟨2, 1⟩, .place ⟨1, 2⟩,
    .load ⟨1, 0⟩ "MOV 1 DOWN", .load ⟨0, 1⟩ "MOV 2 RIGHT", .load ⟨2, 1⟩ "MOV 3 LEFT",
    .load ⟨1, 2⟩ "MOV 4 UP", .load ⟨1, 1⟩ "ADD UP\nSUB RIGHT", .step]

/-- In its second tick the node reads the value from the right, and only then gets the next one from
there. The value from the left, which it has not read, is still the one of the first tick. -/
theorem node?_step_star :
    (star.node? ⟨1, 1⟩).isSome ∧
      (star.step.node? ⟨1, 1⟩).map (fun n => (n.acc, n.inbox)) =
        some (-2, ⟨some 1, some 3, some 4, some 2⟩) ∧
      ∃ fed, star.feed.node? ⟨1, 1⟩ = some fed ∧
        (star.atTurn ⟨1, 1⟩).node? ⟨1, 1⟩ = some (fed.offered (star.fromEarlier ⟨1, 1⟩)) ∧
        star.step.node? ⟨1, 1⟩ =
          some ((fed.offered (star.fromEarlier ⟨1, 1⟩)).step.1.drained.offered
            (star.fromLater ⟨1, 1⟩)) := by
  have hsome : (star.node? ⟨1, 1⟩).isSome := by decide +kernel
  exact ⟨hsome, by decide +kernel, node?_step_of_isSome hsome⟩

end NodeGrid.Board
