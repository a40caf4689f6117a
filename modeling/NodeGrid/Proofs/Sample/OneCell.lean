import NodeGrid.Proofs.Board.Ticks
import NodeGrid.Proofs.Node.LinkedSides
import NodeGrid.Proofs.Sample.Loading

/-!
# Samples of one cell

A node without neighbours gets only what the inputs beside it hold, and what it sends is taken in
the same tick. So each tick of its board is one step of a run in which all values are there when
they are needed (`Node.Untimed.advance`), and such a board can be followed without its mailboxes.

* `outgoing_step`: a program without faults keeps nothing back that it sends.
* `InStep.step`: what one tick keeps; `InStep.steps`, `InStep.collected_steps`: what a run keeps.
* `Sample.values_outputs_board`: what the outputs of a sample hold before the first tick.
* `Sample.exists_inStep`: a loaded sample of one cell starts like this.
-/

namespace NodeGrid

open Node (Untimed)

namespace Node

variable {n : Node}

/-- The sides on which something leaves are linked. -/
theorem outgoing_step (hclean : n.program.faults n.links = []) (hpending : n.isPending = false)
    (d : Direction) : n.step.1.outgoing d = n.step.1.outbox.get d := by
  unfold outgoing
  split
  · rfl
  · next hd =>
    by_contra hsent
    have hwrites : n.Writes d := by
      apply writes_of_outbox_ne
      rw [isPending_eq_false_iff.mp hpending d]
      exact fun hnone => hsent hnone.symm
    obtain ⟨c, hc, hdestination⟩ := hwrites
    have hlinked := Program.mem_of_destination? hclean (mem_of_next? hc) hdestination
    rw [(step_frame n).2] at hd
    exact hd hlinked

theorem isPending_drained_step (hclean : n.program.faults n.links = [])
    (hpending : n.isPending = false) : n.step.1.drained.isPending = false := by
  rw [isPending_eq_false_iff]
  intro d
  have houtgoing := outgoing_step hclean hpending d
  unfold outgoing at houtgoing
  rw [drained, Sides.get_ofFn]
  split
  · rfl
  · next hd =>
    rw [if_neg hd] at houtgoing
    exact houtgoing.symm

end Node

namespace Board

/-- The cell of a board with one cell. -/
def origin : Position := ⟨0, 0⟩

variable {b : Board} {s : Untimed} {d : Direction}

/-! ## Ticks -/

/-- A board of one cell whose node is where `s` is, with nothing that waits to be taken. What is
still to come to the node is in its mailboxes and in the inputs beside it. -/
structure InStep (b : Board) (s : Untimed) : Prop where
  width : b.width = 1
  height : b.height = 1
  node : ∃ n, b.node? origin = some n ∧ n.bare = s.node ∧ n.isPending = false
  clean : s.node.program.faults s.node.links = []
  unread : ∀ d, b.upcoming origin d = s.unread d
  written : ∀ d, (b.outputs.find? (origin.step d)).isSome →
    b.collected (origin.step d) = s.written d

namespace InStep

theorem contains_origin (h : b.InStep s) : b.contains origin := by
  rw [contains_iff, h.width, h.height]
  exact ⟨⟨Int.le_refl 0, Int.one_pos⟩, Int.le_refl 0, Int.one_pos⟩

theorem not_contains_step (h : b.InStep s) (d : Direction) : ¬ b.contains (origin.step d) := by
  rw [contains_iff, h.width, h.height]
  cases d <;> simp [origin, Position.step]

theorem sentInTick_beside (h : b.InStep s) (d e : Direction) :
    b.sentInTick (origin.step d) e = none :=
  sentInTick_of_not_contains (h.not_contains_step d) e

/-- In its turn the node has the next value of each stream in its mailbox. -/
theorem node?_atTurn (h : b.InStep s) : (b.atTurn origin).node? origin = some s.ready := by
  obtain ⟨n, hn, hbare, hpending⟩ := h.node
  have houtbox : n.outbox = .replicate none := by
    apply Sides.ext_get
    intro d
    rw [Sides.get_replicate]
    exact Node.isPending_eq_false_iff.mp hpending d
  obtain ⟨inbox, hturn⟩ :
      ∃ inbox, (b.atTurn origin).node? origin = some (n.withInbox inbox) := by
    rw [Board.node?_atTurn h.contains_origin, node?_feed, hn]
    exact ⟨_, rfl⟩
  have hinbox : inbox = .ofFn fun d => (s.unread d).head? := by
    apply Sides.ext_get
    intro d
    have hmail := inbox_atTurn hturn d
    rw [h.sentInTick_beside, ite_self, Option.or_none, h.unread] at hmail
    rw [Sides.get_ofFn, ← hmail]
    rfl
  rw [hturn, hinbox, Untimed.ready, ← hbare, Node.bare, ← houtbox]
  rfl

theorem clean_ready (h : b.InStep s) : s.ready.program.faults s.ready.links = [] := h.clean

theorem isPending_ready (h : b.InStep s) : s.ready.isPending = false := by
  obtain ⟨n, -, hbare, -⟩ := h.node
  rw [Node.isPending_eq_false_iff]
  intro d
  rw [Untimed.ready, ← hbare]
  exact Sides.get_replicate none d

/-- All that the node writes in a tick is sent. -/
theorem sentInTick_eq (h : b.InStep s) (d : Direction) :
    b.sentInTick origin d = s.ready.step.1.outbox.get d := by
  rw [Board.sentInTick_eq, h.node?_atTurn, Option.bind_some]
  exact Node.outgoing_step h.clean_ready h.isPending_ready d

theorem node_step (h : b.InStep s) :
    ∃ n, b.step.node? origin = some n ∧ n.bare = s.advance.node ∧ n.isPending = false := by
  rw [node?_step h.contains_origin, h.node?_atTurn]
  exact ⟨_, rfl, rfl, Node.isPending_drained_step h.clean_ready h.isPending_ready⟩

/-- A value that the node has left in its mailbox is the next one again. -/
theorem upcoming_step (h : b.InStep s) (d : Direction) :
    b.step.upcoming origin d = s.advance.unread d := by
  have hupcoming := Board.upcoming_step h.node?_atTurn d
  rw [h.sentInTick_beside, ite_self, Option.or_none, h.unread] at hupcoming
  rw [hupcoming]
  show _ = if s.ready.step.1.inbox.get d = none then (s.unread d).tail else s.unread d
  have hready : s.ready.inbox.get d = (s.unread d).head? := Sides.get_ofFn _ d
  split
  · next hempty => rw [hempty, Option.toList_none, List.nil_append]
  · next hfull =>
    rw [(Node.step_inbox s.ready d).resolve_left hfull, hready]
    cases s.unread d <;> rfl

theorem collected_step (h : b.InStep s) (hout : (b.outputs.find? (origin.step d)).isSome) :
    b.step.collected (origin.step d) = s.advance.written d := by
  rw [collected_step_of_outside hout h.contains_origin (h.not_contains_step d), h.written d hout,
    h.sentInTick_eq]
  rfl

theorem step (h : b.InStep s) : b.step.InStep s.advance := by
  obtain ⟨hwidth, hheight, -, -⟩ := feed_frame b
  have hvisits := visitAll_frame b.feed b.feed.positions
  obtain ⟨hprogram, hlinks⟩ := Node.step_frame s.ready
  refine {
    width := hvisits.width.trans (hwidth.trans h.width)
    height := hvisits.height.trans (hheight.trans h.height)
    node := h.node_step
    clean := ?_
    unread := h.upcoming_step
    written := ?_ }
  · show s.ready.step.1.program.faults s.ready.step.1.links = []
    rw [hprogram, hlinks]
    exact h.clean_ready
  · intro d hout
    rw [isSome_outputs_step] at hout
    exact h.collected_step hout

theorem steps (h : b.InStep s) (ticks : Nat) :
    (Board.steps ticks b).InStep (Untimed.advance^[ticks] s) := by
  induction ticks with
  | zero => exact h
  | succ ticks ih =>
    rw [steps_succ, Function.iterate_succ_apply']
    exact ih.step

/-- What an output has collected is all that was written towards it. -/
theorem collected_steps (h : b.InStep s) (hout : (b.outputs.find? (origin.step d)).isSome)
    (ticks : Nat) : (Board.steps ticks b).collected (origin.step d) =
      (Untimed.advance^[ticks] s).written d := by
  apply (h.steps ticks).written
  induction ticks with
  | zero => exact hout
  | succ ticks ih => rwa [steps_succ, isSome_outputs_step]

/-- The accumulator does not depend on what is in the mailboxes. -/
theorem acc_eq (h : b.InStep s) : (b.node? origin).map (·.acc) = some s.node.acc := by
  obtain ⟨n, hn, hbare, -⟩ := h.node
  rw [hn, ← hbare]
  rfl

end InStep

end Board

namespace Sample

open Board

variable {s : Sample} {program : Program}

/-! ## Loading -/

theorem covers_of_width_one (hwidth : s.width = 1) {q : Position} : s.covers q ↔ q = origin := by
  rw [covers_iff, hwidth, Position.ext_iff]
  simp only [origin]
  omega

/-- Outputs that are registered one after the other. -/
theorem values_foldl_register (links : List SampleLink) (r : Registry (Array Int32))
    (q : Position) :
    ((links.foldl (fun r link => r.register link.position link.direction #[]) r).find? q).map
      (·.values) =
        if ∃ link ∈ links, link.position = q then some #[] else (r.find? q).map (·.values) := by
  induction links generalizing r with
  | nil => simp
  | cons first links ih =>
    rw [List.foldl_cons, ih, Registry.find?_register]
    by_cases hfirst : q = first.position
    · simp [hfirst]
    · have hfirst' : ¬ first.position = q := fun h => hfirst h.symm
      simp [hfirst, hfirst']

/-- The outputs are those of the sample, and nothing has come to them. -/
theorem values_outputs_board (s : Sample) (q : Position) :
    (s.board.outputs.find? q).map (·.values) =
      if ∃ link ∈ s.outputs, link.position = q then some #[] else none := by
  obtain ⟨-, -, -, houtputs⟩ := board_frame s
  rw [houtputs, values_foldl_register]
  rfl

theorem isSome_outputs_board {link : SampleLink} (h : link ∈ s.outputs) :
    (s.board.outputs.find? link.position).isSome := by
  rw [← Option.isSome_map (f := (·.values)), values_outputs_board, if_pos ⟨link, h, rfl⟩]
  rfl

theorem collected_board (s : Sample) (q : Position) : s.board.collected q = [] := by
  have hvalues := values_outputs_board s q
  unfold collected
  cases hlink : s.board.outputs.find? q with
  | none => rfl
  | some link =>
    rw [hlink, Option.map_some] at hvalues
    split at hvalues
    · exact congrArg Array.toList (Option.some.inj hvalues)
    · cases hvalues

/-- A program that parses and has no faults on the links of the one cell is loaded, and nothing has
been read or written yet. -/
theorem exists_inStep {links : LinkSet} (hwidth : s.width = 1)
    (hparse : Program.parse s.source = .ok program) (hlinks : s.linksAt origin = links)
    (hclean : program.faults links = []) :
    ∃ b, s.loaded = .ok b ∧
      (∀ link ∈ s.outputs, (b.outputs.find? link.position).isSome) ∧
      b.InStep ⟨{ links, program }, s.board.queueAt origin, fun _ => []⟩ := by
  subst hlinks
  have hcells : ∀ q, s.covers q → program.faults (s.linksAt q) = [] := by
    intro q hq
    rw [(covers_of_width_one hwidth).mp hq]
    exact hclean
  obtain ⟨b, hb, hframe, houtputs, hnode⟩ := exists_loaded hparse hcells
  obtain ⟨hboardwidth, hheight, -, -⟩ := board_frame s
  have horigin := hnode origin ((covers_of_width_one hwidth).mpr rfl)
  refine ⟨b, hb, ?_, ?_⟩
  · intro link hlink
    rw [houtputs]
    exact isSome_outputs_board hlink
  · exact {
      width := hframe.width.trans (hboardwidth.trans hwidth)
      height := hframe.height.trans hheight
      node := ⟨_, horigin, rfl, rfl⟩
      clean := hclean
      unread := by
        intro d
        rw [upcoming, mailbox?_of_node? horigin, queueAt, hframe.inputs]
        cases d <;> rfl
      written := by
        intro d _
        rw [collected, houtputs]
        exact collected_board s (origin.step d) }

end Sample

end NodeGrid
