import NodeGrid.Proofs.Board.Filling
import NodeGrid.Proofs.Board.Operations
import NodeGrid.Sample

/-!
# Samples that are set up

The board of a sample is one row with a node in each cell. The links of a node are decided by the
width and by the links of the sample.

* `board_frame`, `node?_board`: the board before its programs are loaded.
* `exists_loaded`: a program without faults on these links is on every node in the end.
-/

namespace NodeGrid

namespace Board

variable (b : Board)

theorem node?_addInput (p : Position) (d : Direction) (values : List Int32) (q : Position) :
    (b.addInput p d values).node? q = (b.attach p d).node? q := node?_mk ..

theorem node?_addOutput (p : Position) (d : Direction) (q : Position) :
    (b.addOutput p d).node? q = (b.attach p d).node? q := node?_mk ..

/-- Links that are added one after the other, in whichever role. -/
theorem node?_foldl_add {α : Type} {add : Board → α → Board} (link : α → SampleLink)
    (hadd : ∀ b a q, (add b a).node? q = (b.attach (link a).position (link a).direction).node? q)
    (as : List α) (q : Position) :
    (as.foldl add b).node? q = (b.node? q).map (·.linkAll fun e =>
      as.any fun a => (link a).position = q.step e ∧ (link a).direction = e.opposite) := by
  induction as generalizing b with
  | nil => simp [Node.linkAll_none]
  | cons a as ih =>
    rw [List.foldl_cons, ih, hadd, node?_attach, Option.map_map]
    congr 1
    funext n
    simp [Function.comp, Node.linkAll_linkAll, eq_comm]

/-- Inputs that are added one after the other. -/
theorem foldl_addInput_frame (inputs : List SampleInput) :
    let after :=
      inputs.foldl (fun b input => b.addInput input.position input.direction input.values) b
    after.width = b.width ∧ after.height = b.height ∧ after.outputs = b.outputs ∧
      after.inputs = inputs.foldl
        (fun r input => r.register input.position input.direction input.values) b.inputs := by
  induction inputs generalizing b with
  | nil => exact ⟨rfl, rfl, rfl, rfl⟩
  | cons input inputs ih =>
    obtain ⟨hattach, hout⟩ :=
      modify_frame b (input.position.step input.direction) (·.link input.direction.opposite)
    obtain ⟨hwidth, hheight, houtputs, hinputs⟩ :=
      ih (b.addInput input.position input.direction input.values)
    refine ⟨hwidth.trans hattach.width, hheight.trans hattach.height, houtputs.trans hout, ?_⟩
    rw [List.foldl_cons, List.foldl_cons, hinputs, addInput, attach, hattach.inputs]

/-- Outputs that are added one after the other. -/
theorem foldl_addOutput_frame (links : List SampleLink) :
    let after := links.foldl (fun b link => b.addOutput link.position link.direction) b
    after.width = b.width ∧ after.height = b.height ∧ after.inputs = b.inputs ∧
      after.outputs = links.foldl
        (fun r link => r.register link.position link.direction #[]) b.outputs := by
  induction links generalizing b with
  | nil => exact ⟨rfl, rfl, rfl, rfl⟩
  | cons link links ih =>
    obtain ⟨hattach, hout⟩ :=
      modify_frame b (link.position.step link.direction) (·.link link.direction.opposite)
    obtain ⟨hwidth, hheight, hinputs, houtputs⟩ :=
      ih (b.addOutput link.position link.direction)
    refine ⟨hwidth.trans hattach.width, hheight.trans hattach.height, hinputs.trans hattach.inputs,
      ?_⟩
    rw [List.foldl_cons, List.foldl_cons, houtputs, addOutput, attach, hout]

end Board

namespace Sample

open Board

variable {s : Sample} {b : Board} {p q : Position} {program : Program}

/-! ## Before loading -/

/-- Whether a position lies in the row of the sample. -/
def covers (s : Sample) (p : Position) : Bool := (empty s.width 1).contains p

/-- The sides on which the node at `q` is linked: to other nodes and to links that point at it. -/
def linksAt (s : Sample) (q : Position) : LinkSet := .ofFn fun e =>
  s.covers (q.step e) || (s.inputs.map (·.toSampleLink) ++ s.outputs).any fun link =>
    link.position = q.step e ∧ link.direction = e.opposite

theorem covers_iff : s.covers p ↔ (0 ≤ p.col ∧ p.col < s.width) ∧ p.row = 0 := by
  rw [covers, contains_iff]
  simp only [empty]
  omega

/-- A board of one row, with the links of the sample in the order in which they were added. -/
theorem board_frame (s : Sample) : s.board.width = s.width ∧ s.board.height = 1 ∧
    s.board.inputs =
      s.inputs.foldl (fun r input => r.register input.position input.direction input.values) {} ∧
    s.board.outputs =
      s.outputs.foldl (fun r link => r.register link.position link.direction #[]) {} := by
  obtain ⟨hfill, hout⟩ := fill_frame (empty s.width 1)
  obtain ⟨hwidth, hheight, houtputs, hinputs⟩ :=
    foldl_addInput_frame (empty s.width 1).fill s.inputs
  obtain ⟨hwidth', hheight', hinputs', houtputs'⟩ := foldl_addOutput_frame (s.inputs.foldl
    (fun b input => b.addInput input.position input.direction input.values)
    (empty s.width 1).fill) s.outputs
  rw [hfill.inputs] at hinputs
  rw [houtputs, hout] at houtputs'
  exact ⟨hwidth'.trans (hwidth.trans hfill.width), hheight'.trans (hheight.trans hfill.height),
    hinputs'.trans hinputs, houtputs'⟩

theorem contains_board (s : Sample) (p : Position) : s.board.contains p = s.covers p := by
  obtain ⟨hwidth, hheight, -, -⟩ := board_frame s
  rw [Bool.eq_iff_iff, covers, contains_iff, contains_iff, hwidth, hheight]
  rfl

/-- Each cell of the row has a fresh node. -/
theorem node?_board (s : Sample) (q : Position) :
    s.board.node? q = if s.covers q then some { links := s.linksAt q } else none := by
  rw [board, node?_foldl_add _ id fun b link => node?_addOutput b link.position link.direction,
    node?_foldl_add _ SampleInput.toSampleLink fun b input =>
      node?_addInput b input.position input.direction input.values,
    node?_fill]
  split
  · next hq => simp [covers, hq, Node.linkAll, linksAt, Function.comp_def, Bool.or_assoc]
  · next hq => simp [covers, hq]

/-! ## Loading -/

theorem loadAt_eq_ok (hparse : Program.parse s.source = .ok program) {n : Node}
    (hn : b.node? p = some n) (hclean : program.faults n.links = []) :
    s.loadAt b p = .ok (b.set p { n with program }) := by
  have hload : b.load p s.source = .ok (b.set p { n with program }, []) :=
    load_eq_ok_iff.mpr ⟨program, n, hparse, hn, rfl, hclean.symm⟩
  rw [loadAt, hload]

/-- Nodes that are loaded one after the other. -/
theorem exists_foldlM_loadAt (hparse : Program.parse s.source = .ok program) {ps : List Position}
    (hclean : ∀ p ∈ ps, ∃ n, b.node? p = some n ∧ program.faults n.links = []) :
    ∃ after, ps.foldlM s.loadAt b = .ok after ∧ after.SameFrame b ∧ after.outputs = b.outputs ∧
      ∀ q, after.node? q =
        if q ∈ ps then (b.node? q).map fun n => { n with program } else b.node? q := by
  induction ps generalizing b with
  | nil => exact ⟨b, rfl, .refl b, rfl, fun _ => rfl⟩
  | cons p ps ih =>
    obtain ⟨n, hn, hfaults⟩ := hclean p List.mem_cons_self
    have hset : ∀ q, (b.set p { n with program }).node? q =
        if q = p then (b.node? q).map fun n => { n with program } else b.node? q := by
      intro q
      simp only [node?_set, contains_of_node? hn, and_true]
      split
      · next hq => rw [hq, hn, Option.map_some]
      · rfl
    -- A program does not change links, so it has no faults on the other nodes either.
    have hrest : ∀ r ∈ ps, ∃ m, (b.set p { n with program }).node? r = some m ∧
        program.faults m.links = [] := by
      intro r hr
      obtain ⟨m, hm, hfaults⟩ := hclean r (List.mem_cons_of_mem p hr)
      rw [hset, hm]
      split
      · exact ⟨_, rfl, hfaults⟩
      · exact ⟨m, rfl, hfaults⟩
    obtain ⟨after, hafter, hframe, houtputs, hnodes⟩ := ih hrest
    obtain ⟨hsetframe, hsetoutputs⟩ := set_frame b p { n with program }
    refine ⟨after, ?_, hframe.trans hsetframe, houtputs.trans hsetoutputs, ?_⟩
    · rw [List.foldlM_cons, loadAt_eq_ok hparse hn hfaults]
      exact hafter
    · intro q
      rw [hnodes, hset]
      by_cases hq : q = p
      · simp [hq, Function.comp_def]
      · simp [hq]

/-- A program that parses and has no faults in any cell is loaded on every node. -/
theorem exists_loaded (hparse : Program.parse s.source = .ok program)
    (hclean : ∀ q, s.covers q → program.faults (s.linksAt q) = []) :
    ∃ b, s.loaded = .ok b ∧ b.SameFrame s.board ∧ b.outputs = s.board.outputs ∧
      ∀ q, s.covers q → b.node? q = some { links := s.linksAt q, program } := by
  have hnodes : ∀ p ∈ s.board.positions,
      ∃ n, s.board.node? p = some n ∧ program.faults n.links = [] := by
    intro p hp
    rw [mem_positions_iff, contains_board] at hp
    rw [node?_board, if_pos hp]
    exact ⟨_, rfl, hclean p hp⟩
  obtain ⟨b, hb, hframe, houtputs, hnode⟩ := exists_foldlM_loadAt hparse hnodes
  refine ⟨b, hb, hframe, houtputs, ?_⟩
  intro q hq
  have hmem : q ∈ s.board.positions := mem_positions_iff.mpr ((contains_board s q).trans hq)
  rw [hnode, if_pos hmem, node?_board, if_pos hq, Option.map_some]

end Sample

end NodeGrid
