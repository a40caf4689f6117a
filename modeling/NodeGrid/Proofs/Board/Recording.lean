import NodeGrid.Proofs.Board.Feeding
import NodeGrid.Proofs.Board.Visibility

/-!
# What outputs record

An output gets every value that is sent to its position, also when there is a node that does not
accept it. Nothing reads an output, so it makes no difference to the rest of the board when outputs
are emptied.

* `emissions`: what all nodes send to a position in a tick, in the order of the visits.
* `collected_step`: an output gets the emissions of each tick.
* `EqUpToOutputs.step`: boards that differ only in their outputs do so after a tick too.
* `drained_append_collected`: over any ticks between which outputs are emptied, what was taken from
  an output and what it still holds are together what it held at first and all that was sent to it.
-/

namespace NodeGrid

namespace Board

variable {b c : Board} {p q : Position} {ops : List Operation}

/-! ## One tick -/

/-- What the node at `p` sends to the position `q` in the next tick. -/
def emission (b : Board) (p q : Position) : List Int32 :=
  Direction.all.filterMap fun d => if p.step d = q then b.sentInTick p d else none

/-- What all nodes send to the position `q` in the next tick, in the order of their visits. -/
def emissions (b : Board) (q : Position) : List Int32 := b.positions.flatMap (b.emission · q)

theorem collected_visit (h : (b.outputs.find? q).isSome) (p : Position) :
    (b.visit p).collected q = b.collected q ++ b.sendsTo p q := by
  obtain ⟨link, hlink⟩ := Option.isSome_iff_exists.mp h
  simp [collected, outputs_visit, Registry.find?_mapLinks, hlink, Link.extended]

theorem isSome_outputs_visit (b : Board) (p q : Position) :
    ((b.visit p).outputs.find? q).isSome = (b.outputs.find? q).isSome := by
  rw [outputs_visit, Registry.find?_mapLinks, Option.isSome_map]

theorem isSome_outputs_visitAll (b : Board) (ps : List Position) (q : Position) :
    ((b.visitAll ps).outputs.find? q).isSome = (b.outputs.find? q).isSome := by
  refine List.foldlRecOn ps visit
    (motive := fun c => (c.outputs.find? q).isSome = (b.outputs.find? q).isSome) rfl ?_
  intro c hc p _
  rw [isSome_outputs_visit, hc]

/-- During visits an output gets what each node sends to it in its turn. -/
theorem collected_visitAll (h : (b.outputs.find? q).isSome) {ps : List Position} (hps : ps.Nodup) :
    (b.visitAll ps).collected q = b.collected q ++ ps.flatMap fun p =>
      Direction.all.filterMap fun d => if p.step d = q then b.sentDuring ps p d else none := by
  induction ps generalizing b with
  | nil => simp [visitAll]
  | cons p ps ih =>
    obtain ⟨hp, hps⟩ := List.nodup_cons.mp hps
    have hfirst : ∀ d, b.sentDuring (p :: ps) p d = b.sends p d := by
      intro d
      rw [sentDuring_cons, if_pos rfl]
    have hrest : ∀ r ∈ ps, ∀ d, b.sentDuring (p :: ps) r d = (b.visit p).sentDuring ps r d := by
      intro r hr d
      have hne : r ≠ p := fun h => hp (h ▸ hr)
      rw [sentDuring_cons, if_neg hne]
    rw [visitAll_cons, ih (by rwa [isSome_outputs_visit]) hps, collected_visit h,
      List.append_assoc, List.flatMap_cons]
    congr 2
    · simp only [hfirst, sendsTo]
    · rw [List.flatMap_def, List.flatMap_def]
      congr 1
      apply List.map_congr_left
      intro r hr
      simp only [hrest r hr]

theorem isSome_outputs_step (b : Board) (q : Position) :
    (b.step.outputs.find? q).isSome = (b.outputs.find? q).isSome := by
  obtain ⟨-, -, houtputs, -⟩ := feed_frame b
  show ((b.feed.visitAll b.feed.positions).outputs.find? q).isSome = _
  rw [isSome_outputs_visitAll, houtputs]

/-- In a tick an output gets all that is sent to its position. -/
theorem collected_step (h : (b.outputs.find? q).isSome) :
    b.step.collected q = b.collected q ++ b.emissions q := by
  obtain ⟨-, -, houtputs, -⟩ := feed_frame b
  have hfed : b.feed.collected q = b.collected q := by rw [collected, collected, houtputs]
  have hvisits := collected_visitAll (b := b.feed) (q := q) (by rwa [houtputs])
    (nodup_positions b.feed)
  calc
    b.step.collected q = (b.feed.visitAll b.feed.positions).collected q := rfl
    _ = b.collected q ++ b.emissions q := by
      rw [hvisits, hfed, positions_feed]
      simp only [emissions, emission, sentInTick, positions_feed]

/-! ## Boards that differ in their outputs -/

/-- Boards that agree in all but what their outputs hold. -/
def EqUpToOutputs (b c : Board) : Prop := b = { c with outputs := b.outputs }

theorem EqUpToOutputs.refl (b : Board) : b.EqUpToOutputs b := rfl

theorem EqUpToOutputs.trans {a b c : Board} (hab : a.EqUpToOutputs b) (hbc : b.EqUpToOutputs c) :
    a.EqUpToOutputs c := by
  unfold EqUpToOutputs at *
  rw [hbc] at hab
  exact hab

theorem eqUpToOutputs_of_node? (hframe : b.SameFrame c) (hnode : ∀ p, b.node? p = c.node? p) :
    b.EqUpToOutputs c :=
  ext_node? hframe.width hframe.height (fun p => (hnode p).trans (node?_mk c _ _ _ p).symm)
    hframe.inputs rfl hframe.ticks

theorem EqUpToOutputs.frame (h : b.EqUpToOutputs c) : b.SameFrame c := by
  rw [h]
  exact ⟨rfl, rfl, rfl, rfl⟩

theorem EqUpToOutputs.node? (h : b.EqUpToOutputs c) (p : Position) : b.node? p = c.node? p := by
  rw [h]
  exact node?_mk c _ _ _ p

theorem eqUpToOutputs_drainOutput (b : Board) (p : Position) :
    (b.drainOutput p).EqUpToOutputs b := rfl

/-- An input does not look at the outputs. -/
theorem EqUpToOutputs.offer (h : b.EqUpToOutputs c) (p : Position) :
    (b.offer p).EqUpToOutputs (c.offer p) := by
  unfold Board.offer
  rw [h.frame.inputs]
  split
  · next direction value rest _ =>
    rw [h.node? (p.step direction)]
    split
    · next n hn =>
      split
      · obtain ⟨hb, -⟩ := set_frame b (p.step direction) (n.receive direction.opposite value)
        obtain ⟨hc, -⟩ := set_frame c (p.step direction) (n.receive direction.opposite value)
        apply eqUpToOutputs_of_node?
        · refine ⟨?_, ?_, ?_, ?_⟩
          · exact hb.width.trans (h.frame.width.trans hc.width.symm)
          · exact hb.height.trans (h.frame.height.trans hc.height.symm)
          · simp only [hb.inputs, hc.inputs, h.frame.inputs]
          · exact hb.ticks.trans (h.frame.ticks.trans hc.ticks.symm)
        · intro q
          simp only [node?_mk, node?_set, h.node?, h.frame.contains_eq]
      · exact h
    · exact h
  · exact h

theorem EqUpToOutputs.feed (h : b.EqUpToOutputs c) : b.feed.EqUpToOutputs c.feed := by
  have hoffers : ∀ ps : List Position,
      (ps.foldl Board.offer b).EqUpToOutputs (ps.foldl Board.offer c) := by
    intro ps
    induction ps generalizing b c with
    | nil => exact h
    | cons p ps ih => exact ih (h.offer p)
  rw [Board.feed, Board.feed, h.frame.inputs]
  exact hoffers c.inputs.positions

/-- A node does not look at the outputs. -/
theorem EqUpToOutputs.visit (h : b.EqUpToOutputs c) (p : Position) :
    (b.visit p).EqUpToOutputs (c.visit p) := by
  have hoffers : ∀ q, b.offersTo p q = c.offersTo p q := by
    intro q
    funext e
    rw [offersTo, offersTo, sends, sends, h.node?]
  have hframe := (visit_frame b p).trans h.frame
  have hvisit := visit_frame c p
  apply eqUpToOutputs_of_node?
  · exact ⟨hframe.width.trans hvisit.width.symm, hframe.height.trans hvisit.height.symm,
      hframe.inputs.trans hvisit.inputs.symm, hframe.ticks.trans hvisit.ticks.symm⟩
  · intro q
    rw [node?_visit, node?_visit, hoffers, h.node?, h.node?]

theorem EqUpToOutputs.visitAll (h : b.EqUpToOutputs c) (ps : List Position) :
    (b.visitAll ps).EqUpToOutputs (c.visitAll ps) := by
  induction ps generalizing b c with
  | nil => exact h
  | cons p ps ih => exact ih (h.visit p)

theorem EqUpToOutputs.step (h : b.EqUpToOutputs c) : b.step.EqUpToOutputs c.step := by
  have hfeed := h.feed
  have hpositions : b.feed.positions = c.feed.positions := by
    rw [positions, positions, size, size, hfeed.frame.width, hfeed.frame.height]
  have hvisits := hfeed.visitAll c.feed.positions
  apply eqUpToOutputs_of_node?
  · refine ⟨?_, ?_, ?_, ?_⟩
    all_goals rw [Board.step, Board.step, hpositions]
    · exact hvisits.frame.width
    · exact hvisits.frame.height
    · exact hvisits.frame.inputs
    · exact congrArg (· + 1) hvisits.frame.ticks
  · intro p
    rw [Board.step, Board.step, hpositions]
    calc
      (b.feed.visitAll c.feed.positions).countTick.node? p
          = (b.feed.visitAll c.feed.positions).node? p := node?_mk ..
      _ = (c.feed.visitAll c.feed.positions).node? p := hvisits.node? p
      _ = (c.feed.visitAll c.feed.positions).countTick.node? p := (node?_mk ..).symm

theorem EqUpToOutputs.steps (h : b.EqUpToOutputs c) (n : Nat) :
    (steps n b).EqUpToOutputs (steps n c) := by
  induction n generalizing b c with
  | zero => exact h
  | succ n ih => exact ih h.step

/-! ## Ticks and outputs that are emptied -/

/-- What is taken from the output at `q` in an operation. -/
def drainedBy (b : Board) (q : Position) : Operation → List Int32
  | .drainOutput p => if p = q then b.collected q else []
  | _ => []

/-- What is taken from the output at `q` during operations, the first one first. -/
def drained (b : Board) (q : Position) (ops : List Operation) : List Int32 :=
  b.gather (drainedBy · q) ops

/-- What the nodes send to the position `q` in an operation. -/
def emittedBy (b : Board) (q : Position) : Operation → List Int32
  | .step => b.emissions q
  | _ => []

/-- What the nodes send to the position `q` during operations, the first one first. -/
def emitted (b : Board) (q : Position) (ops : List Operation) : List Int32 :=
  b.gather (emittedBy · q) ops

def Operation.isStep : Operation → Bool
  | .step => true
  | _ => false

/-- Whether an operation is one of those on a board that runs. -/
def Operation.IsStepOrDrain (op : Operation) : Prop := op = .step ∨ ∃ p, op = .drainOutput p

theorem find?_outputs_drainOutput (b : Board) (p q : Position) :
    (b.drainOutput p).outputs.find? q =
      if q = p then (b.outputs.find? q).map fun link => { link with values := #[] }
      else b.outputs.find? q :=
  Registry.find?_modify ..

/-- What goes out of an output and what comes into it, in one operation. -/
theorem drainedBy_append {op : Operation} (hop : op.IsStepOrDrain)
    (h : (b.outputs.find? q).isSome) :
    ((b.perform op).outputs.find? q).isSome ∧
      b.drainedBy q op ++ (b.perform op).collected q = b.collected q ++ b.emittedBy q op := by
  rcases hop with rfl | ⟨p, rfl⟩
  · exact ⟨(isSome_outputs_step b q).trans h, collected_step h⟩
  · show ((b.drainOutput p).outputs.find? q).isSome ∧
      (if p = q then b.collected q else []) ++ (b.drainOutput p).collected q = b.collected q ++ []
    rw [collected.eq_def (b.drainOutput p), find?_outputs_drainOutput]
    by_cases hq : q = p
    · obtain ⟨link, hlink⟩ := Option.isSome_iff_exists.mp h
      simp [← hq, hlink]
    · rw [if_neg hq, if_neg (Ne.symm hq), List.nil_append, List.append_nil, ← collected.eq_def]
      exact ⟨h, rfl⟩

theorem drained_append (hops : ∀ op ∈ ops, op.IsStepOrDrain) (h : (b.outputs.find? q).isSome) :
    b.drained q ops ++ (b.performAll ops).collected q = b.collected q ++ b.emitted q ops := by
  induction ops generalizing b with
  | nil => exact (List.append_nil _).symm
  | cons op ops ih =>
    obtain ⟨hafter, hop⟩ := drainedBy_append (hops op List.mem_cons_self) h
    have hrest := ih (fun o ho => hops o (List.mem_cons_of_mem op ho)) hafter
    calc
      b.drained q (op :: ops) ++ (b.performAll (op :: ops)).collected q
          = b.drainedBy q op ++
              ((b.perform op).drained q ops ++ ((b.perform op).performAll ops).collected q) :=
        List.append_assoc ..
      _ = (b.drainedBy q op ++ (b.perform op).collected q) ++ (b.perform op).emitted q ops := by
        rw [hrest, List.append_assoc]
      _ = b.collected q ++ b.emitted q (op :: ops) := by
        rw [hop, List.append_assoc]
        rfl

/-- It makes no difference to the rest of the board that outputs are emptied. -/
theorem performAll_eqUpToOutputs (hops : ∀ op ∈ ops, op.IsStepOrDrain) :
    (b.performAll ops).EqUpToOutputs (steps (ops.countP (·.isStep)) b) := by
  induction ops generalizing b with
  | nil => exact .refl b
  | cons op ops ih =>
    have hrest := ih (b := b.perform op) fun o ho => hops o (List.mem_cons_of_mem op ho)
    rcases hops op List.mem_cons_self with rfl | ⟨p, rfl⟩
    · rw [List.countP_cons_of_pos rfl]
      exact hrest
    · rw [List.countP_cons_of_neg Bool.false_ne_true]
      exact hrest.trans ((eqUpToOutputs_drainOutput b p).steps _)

/-- Over any ticks between which outputs are emptied, the values that were taken from an output and
then those that it still holds are the values that it held at first and then all that the nodes have
sent to its position, tick by tick and in a tick in the order of the visits, accepted by a node
there or not. Nodes, inputs and the number of ticks are the same as without any emptying. -/
theorem drained_append_collected (hops : ∀ op ∈ ops, op.IsStepOrDrain)
    (h : (b.outputs.find? q).isSome) :
    b.drained q ops ++ (b.performAll ops).collected q = b.collected q ++ b.emitted q ops ∧
      b.performAll ops =
        { steps (ops.countP (·.isStep)) b with outputs := (b.performAll ops).outputs } :=
  ⟨drained_append hops h, performAll_eqUpToOutputs hops⟩

/-- A node that sends in each tick, and a second one that never reads. The output lies on it. -/
def deafNeighbour : Board :=
  (empty 2 1).performAll
    [.fill, .addOutput ⟨1, 0⟩ .left, .load ⟨0, 0⟩ "MOV 1 RIGHT", .load ⟨1, 0⟩ "NOP"]

/-- The output gets all three values, the node only the first one. -/
theorem drained_append_collected_deafNeighbour :
    let ops : List Operation := [.step, .step, .drainOutput ⟨1, 0⟩, .step]
    deafNeighbour.drained ⟨1, 0⟩ ops = [1, 1] ∧
      [1, 1] ++ (deafNeighbour.performAll ops).collected ⟨1, 0⟩ =
        deafNeighbour.collected ⟨1, 0⟩ ++ deafNeighbour.emitted ⟨1, 0⟩ ops ∧
      deafNeighbour.performAll ops =
        { steps 3 deafNeighbour with outputs := (deafNeighbour.performAll ops).outputs } := by
  intro ops
  have hops : ∀ op ∈ ops, op.IsStepOrDrain := by
    simp [ops, Operation.IsStepOrDrain]
  have hdrained : deafNeighbour.drained ⟨1, 0⟩ ops = [1, 1] := by decide +kernel
  obtain ⟨hvalues, hrest⟩ := drained_append_collected hops (b := deafNeighbour) (q := ⟨1, 0⟩)
    (by decide +kernel)
  exact ⟨hdrained, hdrained ▸ hvalues, hrest⟩

end Board

end NodeGrid
