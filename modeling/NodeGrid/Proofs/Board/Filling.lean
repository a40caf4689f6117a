import NodeGrid.Proofs.Board.Visits

/-!
# Nodes put into cells

A node that is put into a cell is linked with the neighbours that are there, and they with it. The
cells of a board are filled one after the other, so of two neighbours the second one makes the link,
on both sides.

* `node?_settle`: all that changes when a node is put into a cell.
* `node?_fill`: after filling each cell has a fresh node, linked where the grid goes on.
* `fill_resets`: nothing of the nodes before is left, and links and ticks are what they were.
-/

namespace NodeGrid

namespace Node

/-- The node linked on more sides. -/
def linkAll (n : Node) (sides : Direction → Bool) : Node :=
  { n with links := .ofFn fun d => n.links.get d || sides d }

variable (n : Node)

theorem linkAll_none : n.linkAll (fun _ => false) = n := by
  have hlinks : (Sides.ofFn fun d => n.links.get d || false) = n.links := by
    apply Sides.ext_get
    intro d
    rw [Sides.get_ofFn, Bool.or_false]
  rw [linkAll, hlinks]

theorem linkAll_linkAll (f g : Direction → Bool) :
    (n.linkAll f).linkAll g = n.linkAll fun d => f d || g d := by
  simp only [linkAll, Sides.get_ofFn, Bool.or_assoc]

theorem link_eq_linkAll (d : Direction) : n.link d = n.linkAll fun e => e = d := by
  have hlinks : n.links.insert d = Sides.ofFn fun e => n.links.get e || decide (e = d) := by
    apply Sides.ext_get
    intro e
    rw [Sides.get_ofFn, LinkSet.insert, Sides.get_set]
    by_cases he : e = d <;> simp [he]
  rw [link, hlinks, linkAll]

end Node

namespace Board

variable {b : Board} {p q : Position}

theorem node?_eq_none_of_not_contains (h : ¬ b.contains p) : b.node? p = none := by
  rw [Option.eq_none_iff_forall_ne_some]
  exact fun n hn => h (contains_of_node? hn)

/-! ## One cell -/

theorem foldl_attach_frame (b : Board) (p : Position) (ds : List Direction) :
    (ds.foldl (attach · p) b).SameFrame b ∧ (ds.foldl (attach · p) b).outputs = b.outputs := by
  induction ds generalizing b with
  | nil => exact ⟨.refl b, rfl⟩
  | cons d ds ih =>
    obtain ⟨hattach, hout⟩ := modify_frame b (p.step d) (·.link d.opposite)
    obtain ⟨hrest, houtrest⟩ := ih (b.attach p d)
    exact ⟨hrest.trans hattach, houtrest.trans hout⟩

theorem settle_eq (b : Board) (p : Position) : b.settle p =
    (Direction.all.foldl (attach · p) b).set p
      { links := .ofFn fun d => (b.node? (p.step d)).isSome } := rfl

/-- A node that is put into a cell changes nothing but nodes. -/
theorem settle_frame (b : Board) (p : Position) :
    (b.settle p).SameFrame b ∧ (b.settle p).outputs = b.outputs := by
  obtain ⟨hlinks, houtlinks⟩ := foldl_attach_frame b p Direction.all
  obtain ⟨hset, hout⟩ := set_frame (Direction.all.foldl (attach · p) b) p
    { links := .ofFn fun d => (b.node? (p.step d)).isSome }
  rw [settle_eq]
  exact ⟨hset.trans hlinks, hout.trans houtlinks⟩

/-- A link makes the node that it points at link back to it. -/
theorem node?_attach (b : Board) (p q : Position) (d : Direction) : (b.attach p d).node? q =
    (b.node? q).map (·.linkAll fun e => q.step e = p ∧ e.opposite = d) := by
  rw [attach, node?_modify]
  simp only [Position.step_eq_and_opposite_eq_iff]
  split
  · next hq => simp [hq, Node.link_eq_linkAll]
  · next hq => simp [hq, Node.linkAll_none]

/-- The neighbours of a cell, linked towards it. -/
theorem node?_foldl_attach (b : Board) (p q : Position) (ds : List Direction) :
    (ds.foldl (attach · p) b).node? q =
      (b.node? q).map (·.linkAll fun e => q.step e = p ∧ e.opposite ∈ ds) := by
  induction ds generalizing b with
  | nil => simp [Node.linkAll_none]
  | cons d ds ih =>
    rw [List.foldl_cons, ih, node?_attach, Option.map_map]
    congr 1
    funext n
    simp [Function.comp, Node.linkAll_linkAll, and_or_left]

/-- A cell gets a fresh node, and every node next to it is linked towards it. -/
theorem node?_settle (b : Board) (p q : Position) : (b.settle p).node? q =
    if q = p ∧ b.contains p then some { links := .ofFn fun d => (b.node? (p.step d)).isSome }
    else (b.node? q).map (·.linkAll fun e => q.step e = p) := by
  have hcontains := (foldl_attach_frame b p Direction.all).1.contains_eq p
  rw [settle_eq, node?_set, hcontains, node?_foldl_attach]
  simp only [Direction.mem_all, and_true]

/-! ## All cells -/

theorem isSome_node?_settle (hp : b.contains p) (q : Position) :
    ((b.settle p).node? q).isSome = (decide (q = p) || (b.node? q).isSome) := by
  rw [node?_settle]
  by_cases hq : q = p <;> simp [hq, hp]

/-- Cells that are filled one after the other. -/
theorem node?_foldl_settle {ps : List Position} (hps : ∀ p ∈ ps, b.contains p) (q : Position) :
    (ps.foldl settle b).node? q =
      if q ∈ ps then
        some { links := .ofFn fun d => (b.node? (q.step d)).isSome || decide (q.step d ∈ ps) }
      else (b.node? q).map (·.linkAll fun e => q.step e ∈ ps) := by
  induction ps generalizing b with
  | nil => simp [Node.linkAll_none]
  | cons p ps ih =>
    have hp := hps p List.mem_cons_self
    have hrest : ∀ r ∈ ps, (b.settle p).contains r := by
      intro r hr
      rw [(settle_frame b p).1.contains_eq]
      exact hps r (List.mem_cons_of_mem p hr)
    rw [List.foldl_cons, ih hrest]
    by_cases hq : q ∈ ps
    · rw [if_pos hq, if_pos (List.mem_cons_of_mem p hq)]
      simp only [isSome_node?_settle hp]
      congr 3
      funext d
      by_cases hd : q.step d = p <;> simp [hd]
    · rw [if_neg hq, node?_settle]
      by_cases hqp : q = p
      · -- A node put in first is linked with those that come after it.
        subst hqp
        simp [hp, Node.linkAll, Position.step_ne]
      · simp [hqp, hq, Node.linkAll_linkAll, Function.comp_def]

/-- After filling each cell has a fresh node, linked on the sides where the grid goes on. -/
theorem node?_fill (b : Board) (q : Position) : b.fill.node? q =
    if b.contains q then some { links := .ofFn fun d => b.contains (q.step d) } else none := by
  have hgrid : ∀ d, ((b.node? (q.step d)).isSome || decide (q.step d ∈ b.positions)) =
      b.contains (q.step d) := by
    intro d
    cases hn : b.node? (q.step d) with
    | none => simp [mem_positions_iff]
    | some n => simp [contains_of_node? hn]
  rw [fill, node?_foldl_settle fun p hp => mem_positions_iff.mp hp]
  simp only [hgrid]
  by_cases hq : b.contains q
  · rw [if_pos (mem_positions_iff.mpr hq), if_pos hq]
  · rw [if_neg fun hmem => hq (mem_positions_iff.mp hmem), if_neg hq,
      node?_eq_none_of_not_contains hq, Option.map_none]

theorem fill_frame (b : Board) : b.fill.SameFrame b ∧ b.fill.outputs = b.outputs := by
  refine List.foldlRecOn b.positions settle
    (motive := fun c => c.SameFrame b ∧ c.outputs = b.outputs) ⟨.refl b, rfl⟩ ?_
  intro c hc p _
  obtain ⟨hframe, houtputs⟩ := settle_frame c p
  exact ⟨hframe.trans hc.1, houtputs.trans hc.2⟩

/-- Filling forgets all nodes: it is the same as filling a board of this size that had none. -/
theorem fill_eq (b : Board) : b.fill =
    { (empty b.width b.height).fill with
      inputs := b.inputs, outputs := b.outputs, ticks := b.ticks } := by
  obtain ⟨hframe, houtputs⟩ := fill_frame b
  obtain ⟨hempty, -⟩ := fill_frame (empty b.width b.height)
  refine ext_node? (hframe.width.trans hempty.width.symm) (hframe.height.trans hempty.height.symm)
    (fun q => ?_) hframe.inputs houtputs hframe.ticks
  calc
    b.fill.node? q = (empty b.width b.height).fill.node? q := by
      rw [node?_fill, node?_fill]
      rfl
    _ = _ := (node?_mk ..).symm

/-- After filling each cell of the grid has a node with empty registers and mailboxes, at the start
of no program, which is linked on exactly those sides where the grid goes on, and there is no other
node. Nothing is left of the nodes that were there, as if there had been none, and size, inputs,
outputs and ticks are what they were. -/
theorem fill_resets (b : Board) :
    (∀ q, b.contains q → ∃ n, b.fill.node? q = some n ∧ n.acc = 0 ∧ n.bak = 0 ∧ n.pc = 0 ∧
        (∀ d, n.inbox.get d = none ∧ n.outbox.get d = none) ∧ n.program = [] ∧
        ∀ d, d ∈ n.links ↔ b.contains (q.step d)) ∧
      (∀ q, ¬ b.contains q → b.fill.node? q = none) ∧
      b.fill = { (empty b.width b.height).fill with
        inputs := b.inputs, outputs := b.outputs, ticks := b.ticks } ∧
      b.fill.SameFrame b ∧ b.fill.outputs = b.outputs := by
  refine ⟨fun q hq => ?_, fun q hq => ?_, fill_eq b, fill_frame b⟩
  · have hfresh := node?_fill b q
    rw [if_pos hq] at hfresh
    refine ⟨_, hfresh, rfl, rfl, rfl, fun d => ⟨?_, ?_⟩, rfl, fun d => ?_⟩
    · exact Sides.get_replicate none d
    · exact Sides.get_replicate none d
    · rw [LinkSet.mem_def, Sides.get_ofFn]
  · rw [node?_fill, if_neg hq]

/-- A node that has run and got a value from the input above it, to which it is linked. -/
def fedFromAbove : Board :=
  let started := (empty 2 1).fill.modify ⟨0, 0⟩ fun n =>
    { n with acc := 7, program := [{ line := 0, opcode := .nop }] }
  (started.addInput ⟨0, -1⟩ .down [3, 4]).step

/-- All of this is forgotten, and the input keeps the value that it still has. -/
theorem fill_resets_fedFromAbove :
    (fedFromAbove.node? ⟨0, 0⟩).map (fun n => (n.acc, n.pc, n.inbox.get .up, n.links.toList)) =
        some (7, 1, some 3, [.up, .right]) ∧
      (∃ n, fedFromAbove.fill.node? ⟨0, 0⟩ = some n ∧ n.acc = 0 ∧ n.pc = 0 ∧
        n.inbox.get .up = none ∧ .up ∉ n.links ∧ .right ∈ n.links) ∧
      (fedFromAbove.fill.inputs.find? ⟨0, -1⟩).map (·.values) = some [4] := by
  obtain ⟨hcells, -, -, hframe, -⟩ := fill_resets fedFromAbove
  obtain ⟨n, hn, hacc, -, hpc, hmailboxes, -, hlinks⟩ := hcells ⟨0, 0⟩ (by decide +kernel)
  refine ⟨by decide +kernel, ⟨n, hn, hacc, hpc, (hmailboxes .up).1, ?_, ?_⟩, ?_⟩
  · rw [hlinks]
    decide +kernel
  · rw [hlinks]
    decide +kernel
  · rw [hframe.inputs]
    decide +kernel

end Board

end NodeGrid
