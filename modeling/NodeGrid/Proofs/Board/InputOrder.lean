import NodeGrid.Proofs.Board.Ticks

/-!
# The order of inputs

Inputs have their turns in the order in which they were registered. Two inputs never point at one
mailbox (`target?_inj`), so it makes no difference which of them comes first.

* `numbering_steps`: ticks leave the order of the inputs and their numbers as they are.
* `EqUpToOrder.feed`, `EqUpToOrder.visit`: boards that differ only in this order and these numbers
  do so after each phase of a tick too.
* `steps_eqUpToOrder`: so they go on to differ in the same way, over any number of ticks.
-/

namespace NodeGrid

/-- What a link is besides its number: where it points and what it holds. -/
def Link.content {α : Type} (link : Link α) : Direction × α := (link.direction, link.values)

namespace Registry

variable {α : Type}

/-- The positions with the numbers of their links, in order of registration. -/
def numbering (r : Registry α) : List (Position × Nat) :=
  r.entries.map fun entry => (entry.1, entry.2.id)

theorem map_fst_numbering (r : Registry α) : r.numbering.map (·.1) = r.positions := by
  simp only [numbering, positions, List.map_map]
  rfl

theorem numbering_modify (r : Registry α) (p : Position) {f : Link α → Link α}
    (hf : ∀ link, (f link).id = link.id) : (r.modify p f).numbering = r.numbering := by
  simp only [numbering, modify, List.map_map]
  apply List.map_congr_left
  intro entry _
  simp only [Function.comp]
  split
  · rw [hf]
  · rfl

end Registry

namespace Board

variable {b c : Board} {p q : Position} {d e : Direction}

/-! ## Two inputs -/

/-- The mailbox that a link at `p` with direction `d` points at: the place of the cell in the
storage, and the side. -/
def target? (b : Board) (p : Position) (d : Direction) :
    Option (Fin (b.width * b.height) × Direction) :=
  (b.index? (p.step d)).map (·, d.opposite)

/-- Links at different positions never point at one mailbox. -/
theorem target?_inj {mailbox : Fin (b.width * b.height) × Direction}
    (hp : b.target? p d = some mailbox) (hq : b.target? q e = some mailbox) : p = q ∧ d = e := by
  obtain ⟨i, hi, rfl⟩ := Option.map_eq_some_iff.mp hp
  obtain ⟨j, hj, heq⟩ := Option.map_eq_some_iff.mp hq
  obtain ⟨rfl, hside⟩ := Prod.mk.inj heq
  have hde : d = e := by
    rw [← Direction.opposite_opposite d, ← hside, Direction.opposite_opposite]
  subst hde
  refine ⟨?_, rfl⟩
  calc
    p = (p.step d).step d.opposite := (Position.step_step_opposite p d).symm
    _ = (q.step d).step d.opposite := by rw [index?_inj hi hj]
    _ = q := Position.step_step_opposite q d

/-! ## Order and numbers -/

theorem numbering_offer (b : Board) (p : Position) :
    (b.offer p).inputs.numbering = b.inputs.numbering := by
  rcases offer_cases b p with ⟨heq, -⟩ | ⟨link, value, rest, n, -, -, -, -, heq⟩
  · rw [heq]
  · rw [heq]
    exact Registry.numbering_modify b.inputs p fun _ => rfl

theorem numbering_feed (b : Board) : b.feed.inputs.numbering = b.inputs.numbering := by
  refine List.foldlRecOn b.inputs.positions offer
    (motive := fun c => c.inputs.numbering = b.inputs.numbering) rfl ?_
  intro c hc p _
  rw [numbering_offer, hc]

theorem numbering_step (b : Board) : b.step.inputs.numbering = b.inputs.numbering := by
  have hvisits := (visitAll_frame b.feed b.feed.positions).inputs
  show (b.feed.visitAll b.feed.positions).inputs.numbering = _
  rw [hvisits, numbering_feed]

theorem numbering_steps (k : Nat) (b : Board) :
    (steps k b).inputs.numbering = b.inputs.numbering := by
  induction k generalizing b with
  | zero => rfl
  | succ k ih => exact (ih b.step).trans (numbering_step b)

/-! ## Boards that differ in the order of their inputs -/

/-- Boards with the same nodes, outputs and ticks, and at each position the same input but for its
number. The positions are the same in some other order. -/
structure EqUpToOrder (b c : Board) : Prop where
  width : b.width = c.width
  height : b.height = c.height
  node?_eq : ∀ p, b.node? p = c.node? p
  order : b.inputs.positions.Perm c.inputs.positions
  input_eq : ∀ p, (b.inputs.find? p).map Link.content = (c.inputs.find? p).map Link.content
  outputs : b.outputs = c.outputs
  ticks : b.ticks = c.ticks

/-- A board with its inputs in some other order. -/
theorem eqUpToOrder_of_inputs {inputs : Registry (List Int32)}
    (horder : b.inputs.positions.Perm inputs.positions)
    (hinput : ∀ p, (b.inputs.find? p).map Link.content = (inputs.find? p).map Link.content) :
    b.EqUpToOrder { b with inputs } :=
  ⟨rfl, rfl, fun p => (node?_mk b _ _ _ p).symm, horder, hinput, rfl, rfl⟩

namespace EqUpToOrder

theorem positions_eq (h : b.EqUpToOrder c) : b.positions = c.positions := by
  rw [positions, positions, size, size, h.width, h.height]

theorem mailbox?_eq (h : b.EqUpToOrder c) (q : Position) (e : Direction) :
    b.mailbox? q e = c.mailbox? q e := by
  rw [mailbox?, mailbox?, h.node?_eq]

theorem input_cases (h : b.EqUpToOrder c) (p : Position) :
    (b.inputs.find? p = none ∧ c.inputs.find? p = none) ∨
      ∃ link other, b.inputs.find? p = some link ∧ c.inputs.find? p = some other ∧
        link.content = other.content := by
  have hinput := h.input_eq p
  cases hb : b.inputs.find? p with
  | none =>
    rw [hb, Option.map_none, eq_comm, Option.map_eq_none_iff] at hinput
    exact Or.inl ⟨rfl, hinput⟩
  | some link =>
    rw [hb, Option.map_some, eq_comm, Option.map_eq_some_iff] at hinput
    obtain ⟨other, hc, hcontent⟩ := hinput
    exact Or.inr ⟨link, other, rfl, hc, hcontent.symm⟩

/-! ### Feeding -/

/-- What points at a mailbox does not depend on the order. -/
theorem queueAt_eq (h : b.EqUpToOrder c) (q : Position) (e : Direction) :
    b.queueAt q e = c.queueAt q e := by
  rcases h.input_cases (q.step e) with ⟨hb, hc⟩ | ⟨link, other, hb, hc, hcontent⟩
  · rw [queueAt_of_none hb, queueAt_of_none hc]
  · obtain ⟨hdirection, hvalues⟩ := Prod.mk.inj hcontent
    rw [queueAt_of_some hb, queueAt_of_some hc, hdirection, hvalues]

/-- What an input is after its turn does not depend on its number. -/
theorem content_served (h : b.EqUpToOrder c) {link other : Link (List Int32)}
    (hcontent : link.content = other.content) (p : Position) :
    (b.served p link).content = (c.served p other).content := by
  obtain ⟨hdirection, hvalues⟩ := Prod.mk.inj hcontent
  have hawaits : b.Awaits p link ↔ c.Awaits p other := by
    rw [Awaits, Awaits, h.mailbox?_eq, hdirection]
  unfold served
  simp only [hawaits]
  split
  · simp only [Link.content, hdirection, hvalues]
  · exact hcontent

theorem feed (h : b.EqUpToOrder c) : b.feed.EqUpToOrder c.feed := by
  obtain ⟨hwidth, hheight, houtputs, hticks⟩ := feed_frame b
  obtain ⟨hwidth', hheight', houtputs', hticks'⟩ := feed_frame c
  refine ⟨?_, ?_, fun p => ?_, ?_, fun p => ?_, ?_, ?_⟩
  · rw [hwidth, hwidth', h.width]
  · rw [hheight, hheight', h.height]
  · have hfront : b.front? p = c.front? p := funext fun e => by rw [front?, front?, h.queueAt_eq]
    rw [node?_feed, node?_feed, h.node?_eq, hfront]
  · rw [← Registry.map_fst_numbering, ← Registry.map_fst_numbering, numbering_feed, numbering_feed,
      Registry.map_fst_numbering, Registry.map_fst_numbering]
    exact h.order
  · rw [find?_inputs_feed, find?_inputs_feed]
    rcases h.input_cases p with ⟨hb, hc⟩ | ⟨link, other, hb, hc, hcontent⟩
    · rw [hb, hc]
      rfl
    · rw [hb, hc]
      exact congrArg some (h.content_served hcontent p)
  · rw [houtputs, houtputs', h.outputs]
  · rw [hticks, hticks', h.ticks]

/-! ### Visits -/

/-- A node does not look at the inputs. -/
theorem visit (h : b.EqUpToOrder c) (p : Position) : (b.visit p).EqUpToOrder (c.visit p) := by
  have hsends : b.sends p = c.sends p := by
    funext d
    rw [sends, sends, h.node?_eq]
  have hb := visit_frame b p
  have hc := visit_frame c p
  refine ⟨?_, ?_, fun q => ?_, ?_, fun q => ?_, ?_, ?_⟩
  · rw [hb.width, hc.width, h.width]
  · rw [hb.height, hc.height, h.height]
  · have hoffers : b.offersTo p q = c.offersTo p q := by
      funext e
      rw [offersTo, offersTo, hsends]
    rw [node?_visit, node?_visit, hoffers, h.node?_eq, h.node?_eq]
  · rw [hb.inputs, hc.inputs]
    exact h.order
  · rw [hb.inputs, hc.inputs]
    exact h.input_eq q
  · rw [outputs_visit, outputs_visit, h.outputs]
    simp only [sendsTo, hsends]
  · rw [hb.ticks, hc.ticks, h.ticks]

theorem visitAll (h : b.EqUpToOrder c) (ps : List Position) :
    (b.visitAll ps).EqUpToOrder (c.visitAll ps) := by
  induction ps generalizing b c with
  | nil => exact h
  | cons p ps ih => exact ih (h.visit p)

/-! ### Ticks -/

theorem countTick (h : b.EqUpToOrder c) : b.countTick.EqUpToOrder c.countTick where
  width := h.width
  height := h.height
  node?_eq p := (node?_mk b _ _ _ p).trans ((h.node?_eq p).trans (node?_mk c _ _ _ p).symm)
  order := h.order
  input_eq := h.input_eq
  outputs := h.outputs
  ticks := congrArg (· + 1) h.ticks

theorem step (h : b.EqUpToOrder c) : b.step.EqUpToOrder c.step := by
  have hvisits := h.feed.visitAll b.feed.positions
  rw [Board.step, Board.step, ← h.feed.positions_eq]
  exact hvisits.countTick

theorem steps (h : b.EqUpToOrder c) (k : Nat) : (steps k b).EqUpToOrder (steps k c) := by
  induction k generalizing b c with
  | zero => exact h
  | succ k ih => exact ih h.step

end EqUpToOrder

/-- Boards that differ only in the order and the numbers of their inputs go on to do so over any
number of ticks: nodes, outputs and what each input holds are the same, and on each board the inputs
keep their order and their numbers. Two inputs at different positions never point at one mailbox,
wherever they are and in whatever directions they point. -/
theorem steps_eqUpToOrder (h : b.EqUpToOrder c) (k : Nat) :
    (steps k b).EqUpToOrder (steps k c) ∧
      (steps k b).inputs.numbering = b.inputs.numbering ∧
      (steps k c).inputs.numbering = c.inputs.numbering ∧
      ∀ p q d e mailbox, p ≠ q → (steps k b).target? p d = some mailbox →
        (steps k b).target? q e ≠ some mailbox := by
  refine ⟨h.steps k, numbering_steps k b, numbering_steps k c, ?_⟩
  intro p q d e mailbox hne hp hq
  exact hne (target?_inj hp hq).1

/-- Two inputs that point at one node, and one in the cell of that node which points at the next. -/
def crowded : Board :=
  (empty 2 1).performAll [.fill, .addOutput ⟨2, 0⟩ .left,
    .load ⟨0, 0⟩ "ADD LEFT\nADD UP\nMOV ACC RIGHT", .load ⟨1, 0⟩ "MOV LEFT RIGHT",
    .addInput ⟨-1, 0⟩ .right [1, 2], .addInput ⟨0, -1⟩ .down [3, 4], .addInput ⟨0, 0⟩ .right [5]]

/-- The same board with the last input first. -/
def reordered : Board :=
  { crowded with inputs := { entries :=
    [(⟨0, 0⟩, ⟨0, .right, [5]⟩), (⟨-1, 0⟩, ⟨1, .right, [1, 2]⟩), (⟨0, -1⟩, ⟨2, .down, [3, 4]⟩)] } }

theorem steps_eqUpToOrder_crowded :
    crowded.EqUpToOrder reordered ∧ (steps 3 crowded).EqUpToOrder (steps 3 reordered) ∧
      (steps 3 crowded).inputs.numbering = [(⟨-1, 0⟩, 0), (⟨0, -1⟩, 1), (⟨0, 0⟩, 2)] ∧
      (steps 3 reordered).inputs.numbering = [(⟨0, 0⟩, 0), (⟨-1, 0⟩, 1), (⟨0, -1⟩, 2)] := by
  have hinputs : crowded.inputs = { entries := [(⟨-1, 0⟩, ⟨0, .right, [1, 2]⟩),
      (⟨0, -1⟩, ⟨1, .down, [3, 4]⟩), (⟨0, 0⟩, ⟨2, .right, [5]⟩)] } := by
    decide +kernel
  have horder : crowded.inputs.positions.Perm reordered.inputs.positions := by
    rw [hinputs]
    decide
  have hstart : crowded.EqUpToOrder reordered := by
    refine eqUpToOrder_of_inputs horder fun p => ?_
    by_cases hp : p ∈ crowded.inputs.positions
    · have hcases : p = ⟨-1, 0⟩ ∨ p = ⟨0, -1⟩ ∨ p = ⟨0, 0⟩ := by
        simpa [hinputs, Registry.positions] using hp
      rw [hinputs]
      rcases hcases with rfl | rfl | rfl <;> rfl
    · have hp' : p ∉ reordered.inputs.positions := fun h => hp (horder.mem_iff.mpr h)
      rw [Registry.mem_positions_iff, Option.not_isSome_iff_eq_none] at hp hp'
      rw [hp]
      exact (congrArg (Option.map Link.content) hp').symm
  obtain ⟨hsteps, hnumbering, hnumbering', -⟩ := steps_eqUpToOrder hstart 3
  refine ⟨hstart, hsteps, hnumbering.trans ?_, hnumbering'.trans rfl⟩
  rw [hinputs]
  rfl

end Board

end NodeGrid
