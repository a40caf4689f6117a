import NodeGrid.Proofs.Board.Operations
import NodeGrid.Proofs.Node.Execution
import NodeGrid.Proofs.Program.Clean

/-!
# Boards that never wait for a value to be taken

A visit empties the linked sides of a node. A value that a program writes to a side without a link
would stay in its mailbox, and the node would wait for ever.

* `Node.isStable_isUnblocked`: between visits nothing waits on any side, as long as the program
  writes to linked sides only. Links are only ever added, so this is kept.
* `not_writeBlocked_of_runsFaultless`: on a board where no program with faults was loaded, no step
  waits for a value to be taken.
-/

namespace NodeGrid

/-! ## Nodes -/

/-- Nothing waits to be taken, and what the program writes will be taken. -/
structure Node.IsUnblocked (n : Node) : Prop where
  outbox : ∀ d, n.outbox.get d = none
  links : ∀ c ∈ n.program, ∀ d, c.destination? = some d → d ∈ n.links

namespace Node

variable {n : Node}

theorem isUnblocked_fresh (links : LinkSet) : IsUnblocked { links } where
  outbox := Sides.get_replicate none
  links := by
    intro c hc
    cases hc

theorem IsUnblocked.link (h : n.IsUnblocked) (d : Direction) : (n.link d).IsUnblocked where
  outbox := h.outbox
  links := by
    intro c hc e he
    exact LinkSet.mem_insert.mpr (Or.inr (h.links c hc e he))

theorem IsUnblocked.receive (h : n.IsUnblocked) (d : Direction) (value : Int32) :
    (n.receive d value).IsUnblocked := by
  unfold Node.receive
  split
  · exact ⟨h.outbox, h.links⟩
  · exact h

theorem IsUnblocked.step_drained (h : n.IsUnblocked) : n.step.1.drained.IsUnblocked := by
  obtain ⟨hprogram, hlinks⟩ := step_frame n
  constructor
  · intro d
    show (Sides.ofFn _).get d = none
    rw [Sides.get_ofFn, hlinks]
    split
    · rfl
    · next hd =>
      -- Nothing was there before, so the program has written here, to a side without a link.
      cases hvalue : n.step.1.outbox.get d with
      | none => rfl
      | some value =>
        have hfull : n.step.1.outbox.get d ≠ none := by simp [hvalue]
        rcases step_outbox hfull with hbefore | ⟨c, hc, hdestination⟩
        · exact absurd (h.outbox d) hbefore
        · exact absurd (h.links c hc d hdestination) hd
  · intro c hc d hdestination
    rw [show n.step.1.drained.program = n.program from hprogram] at hc
    show d ∈ n.step.1.links
    rw [hlinks]
    exact h.links c hc d hdestination

/-- On a board only a new program can make a node wait. -/
theorem isStable_isUnblocked : IsStable IsUnblocked where
  fresh := isUnblocked_fresh
  link _ d h := h.link d
  receive _ d value h := h.receive d value
  step _ h := h.step_drained

theorem IsUnblocked.load (h : n.IsUnblocked) {program : Program}
    (hfaults : program.faults n.links = []) : IsUnblocked { n with program } where
  outbox := h.outbox
  links := by
    intro c hc d hdestination
    exact Program.mem_of_destination? hfaults hc hdestination

theorem IsUnblocked.step_ne_writeBlocked (h : n.IsUnblocked) : n.step.2 ≠ .writeBlocked := by
  rw [ne_eq, step_writeBlocked_iff, isPending_eq_false_iff.mpr h.outbox]
  exact Bool.false_ne_true

end Node

/-! ## Boards -/

namespace Board

/-- Whether a program that the operation loads has no faults. -/
def IsFaultless (b : Board) : Operation → Prop
  | .load p text =>
    match b.load p text with
    | .ok (_, faults) => faults = []
    | .error _ => True
  | _ => True

/-- Whether none of the operations, the first one first, loads a program with faults. -/
def RunsFaultless (b : Board) : List Operation → Prop
  | [] => True
  | op :: ops => b.IsFaultless op ∧ (b.perform op).RunsFaultless ops

variable {b : Board}

theorem AllNodes.perform_isUnblocked (h : b.AllNodes Node.IsUnblocked) {op : Operation}
    (hop : b.IsFaultless op) : (b.perform op).AllNodes Node.IsUnblocked := by
  refine h.perform Node.isStable_isUnblocked ?_
  rintro p text program n rfl hparse hn
  have hload : b.load p text = .ok (b.set p { n with program }, program.faults n.links) :=
    load_eq_ok_iff.mpr ⟨program, n, hparse, hn, rfl, rfl⟩
  simp only [IsFaultless, hload] at hop
  exact (h p n hn).load hop

theorem AllNodes.performAll_isUnblocked {ops : List Operation} (h : b.AllNodes Node.IsUnblocked)
    (hops : b.RunsFaultless ops) : (b.performAll ops).AllNodes Node.IsUnblocked := by
  induction ops generalizing b with
  | nil => exact h
  | cons op ops ih =>
    obtain ⟨hop, hops⟩ := hops
    exact ih (h.perform_isUnblocked hop) hops

/-- Whatever was done to a board that was empty at first, if no program with faults was loaded, then
nothing waits on any side of any node, and no node waits in its visit during the next tick. Since
`ops` may go on with any number of ticks, no node ever waits. -/
theorem not_writeBlocked_of_runsFaultless {width height : Nat} {ops : List Operation}
    (hops : (empty width height).RunsFaultless ops) (hb : b = (empty width height).performAll ops) :
    (∀ p n, b.node? p = some n → ∀ d, n.outbox.get d = none) ∧
      ∀ before p after, b.feed.positions = before ++ p :: after →
        ∀ n, (b.feed.visitAll before).node? p = some n → n.step.2 ≠ .writeBlocked := by
  have hall : b.AllNodes Node.IsUnblocked :=
    hb ▸ AllNodes.performAll_isUnblocked (allNodes_empty _ width height) hops
  constructor
  · intro p n hn
    exact (hall p n hn).outbox
  · intro before p after _ n hn
    have hvisits := (hall.feed Node.isStable_isUnblocked).visitAll Node.isStable_isUnblocked before
    exact (hvisits p n hn).step_ne_writeBlocked

/-- Two nodes in a row pass a value on. -/
def relay : List Operation :=
  [.fill, .addInput ⟨-1, 0⟩ .right [5], .addOutput ⟨2, 0⟩ .left,
    .load ⟨0, 0⟩ "MOV LEFT RIGHT", .load ⟨1, 0⟩ "MOV LEFT RIGHT", .step]

theorem not_writeBlocked_relay :
    (empty 2 1).RunsFaultless relay ∧
      ∃ n, (((empty 2 1).performAll relay).feed.visitAll [⟨0, 0⟩]).node? ⟨1, 0⟩ = some n ∧
        n.step.2 ≠ .writeBlocked := by
  have hops : (empty 2 1).RunsFaultless relay :=
    ⟨trivial, trivial, trivial, rfl, rfl, trivial, trivial⟩
  refine ⟨hops, _, rfl, ?_⟩
  exact (not_writeBlocked_of_runsFaultless hops rfl).2 [⟨0, 0⟩] ⟨1, 0⟩ [] rfl _ rfl

end Board

end NodeGrid
