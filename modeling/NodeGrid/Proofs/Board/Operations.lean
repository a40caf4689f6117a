import NodeGrid.Board.Tick

/-!
# Operations on a board

All that is done to a board from outside, one operation after the other, and how a property of nodes
is carried along.

* `perform`: an operation that is refused leaves the board alone.
* `load_eq_ok_iff`: a program that is loaded replaces that of one node, and nothing else.
* `AllNodes.perform`, `AllNodes.visitAll`: what fresh nodes have, what links, values and steps keep
  (`Node.IsStable`) and what loading a program keeps, all nodes have at any time.
-/

namespace NodeGrid

namespace Board

inductive Operation where
  | place (p : Position)
  | fill
  | addInput (p : Position) (d : Direction) (values : List Int32)
  | addOutput (p : Position) (d : Direction)
  | drainOutput (p : Position)
  | load (p : Position) (text : String)
  | step

/-- The board after an operation. -/
def perform (b : Board) : Operation → Board
  | .place p =>
    match b.place p with
    | .ok after => after
    | .error _ => b
  | .fill => b.fill
  | .addInput p d values => b.addInput p d values
  | .addOutput p d => b.addOutput p d
  | .drainOutput p => b.drainOutput p
  | .load p text =>
    match b.load p text with
    | .ok (after, _) => after
    | .error _ => b
  | .step => b.step

/-- The board after operations, the first one first. -/
def performAll (b : Board) (ops : List Operation) : Board := ops.foldl perform b

/-- The values that come of each operation, put together. -/
def gather (values : Board → Operation → List Int32) (b : Board) : List Operation → List Int32
  | [] => []
  | op :: ops => values b op ++ gather values (b.perform op) ops

variable {b : Board} {P : Node → Prop}

theorem load_eq_ok_iff {p : Position} {text : String} {after : Board} {faults : List Fault} :
    b.load p text = .ok (after, faults) ↔
      ∃ program n, Program.parse text = .ok program ∧ b.node? p = some n ∧
        after = b.set p { n with program } ∧ faults = program.faults n.links := by
  unfold load
  constructor
  · intro h
    split at h
    · split at h
      · cases h
      · next program hparse =>
        split at h
        · cases h
        · next n hn =>
          cases h
          exact ⟨program, n, hparse, hn, rfl, rfl⟩
    · cases h
  · rintro ⟨program, n, hparse, hn, rfl, rfl⟩
    rw [if_pos (contains_of_node? hn), hparse]
    dsimp only
    rw [hn]

/-! ## Properties of all nodes -/

/-- Every node on the board has a property. -/
def AllNodes (P : Node → Prop) (b : Board) : Prop := ∀ p n, b.node? p = some n → P n

theorem allNodes_empty (P : Node → Prop) (width height : Nat) :
    (empty width height).AllNodes P := by
  intro p n hn
  unfold node? at hn
  split at hn
  · next i _ =>
    have hcell : (empty width height).cells[i] = none := Vector.getElem_replicate ..
    rw [hcell] at hn
    cases hn
  · cases hn

theorem AllNodes.of_node?_eq {c : Board} (h : b.AllNodes P) (hc : ∀ p, c.node? p = b.node? p) :
    c.AllNodes P := by
  intro p n hn
  exact h p n ((hc p).symm.trans hn)

theorem AllNodes.set {n : Node} (h : b.AllNodes P) (hn : P n) (p : Position) :
    (b.set p n).AllNodes P := by
  intro q m hm
  rw [node?_set] at hm
  split at hm
  · cases hm
    exact hn
  · exact h q m hm

theorem AllNodes.modify {f : Node → Node} (h : b.AllNodes P) (hf : ∀ n, P n → P (f n))
    (p : Position) : (b.modify p f).AllNodes P := by
  intro q m hm
  rw [node?_modify] at hm
  split at hm
  · obtain ⟨n, hn, rfl⟩ := Option.map_eq_some_iff.mp hm
    exact hf n (h q n hn)
  · exact h q m hm

end Board

/-- A property that fresh nodes have and that links, values and steps keep. -/
structure Node.IsStable (P : Node → Prop) : Prop where
  fresh : ∀ links, P { links }
  link : ∀ n d, P n → P (n.link d)
  receive : ∀ n d value, P n → P (n.receive d value)
  step : ∀ n, P n → P n.step.1.drained

namespace Board

variable {b : Board} {P : Node → Prop}

/-! ## Setting a board up -/

theorem AllNodes.settle (hP : Node.IsStable P) (h : b.AllNodes P) (p : Position) :
    (b.settle p).AllNodes P := by
  refine AllNodes.set ?_ (hP.fresh _) p
  refine List.foldlRecOn Direction.all _ h ?_
  intro b hb d _
  exact hb.modify (fun n hn => hP.link n _ hn) _

theorem AllNodes.fill (hP : Node.IsStable P) (h : b.AllNodes P) : b.fill.AllNodes P := by
  refine List.foldlRecOn b.positions _ h ?_
  intro b hb p _
  exact hb.settle hP p

theorem AllNodes.attach (hP : Node.IsStable P) (h : b.AllNodes P) (p : Position) (d : Direction) :
    (b.attach p d).AllNodes P :=
  h.modify (fun n hn => hP.link n _ hn) _

/-! ## Ticks -/

theorem AllNodes.offer (hP : Node.IsStable P) (h : b.AllNodes P) (p : Position) :
    (b.offer p).AllNodes P := by
  unfold Board.offer
  split
  · next direction value rest _ =>
    split
    · next n hn =>
      split
      · have hset := h.set (hP.receive n direction.opposite value (h _ n hn)) (p.step direction)
        exact hset.of_node?_eq (node?_mk _ _ _ _)
      · exact h
    · exact h
  · exact h

theorem AllNodes.feed (hP : Node.IsStable P) (h : b.AllNodes P) : b.feed.AllNodes P := by
  refine List.foldlRecOn b.inputs.positions _ h ?_
  intro b hb p _
  exact hb.offer hP p

theorem AllNodes.deliver (hP : Node.IsStable P) (h : b.AllNodes P) (p : Position)
    (value : Direction × Int32) : (b.deliver p value).AllNodes P := by
  have hmodify := h.modify (fun n hn => hP.receive n value.1.opposite value.2 hn) (p.step value.1)
  exact hmodify.of_node?_eq (node?_mk _ _ _ _)

theorem AllNodes.visit (hP : Node.IsStable P) (h : b.AllNodes P) (p : Position) :
    (b.visit p).AllNodes P := by
  unfold Board.visit
  split
  · exact h
  · next n hn =>
    refine List.foldlRecOn n.step.1.sent _ (h.set (hP.step n (h p n hn)) p) ?_
    intro b hb value _
    exact hb.deliver hP p value

theorem AllNodes.visitAll (hP : Node.IsStable P) (h : b.AllNodes P) (ps : List Position) :
    (b.visitAll ps).AllNodes P := by
  refine List.foldlRecOn ps _ h ?_
  intro b hb p _
  exact hb.visit hP p

theorem AllNodes.step (hP : Node.IsStable P) (h : b.AllNodes P) : b.step.AllNodes P := by
  have hvisits := (h.feed hP).visitAll hP b.feed.positions
  exact hvisits.of_node?_eq (node?_mk _ _ _ _)

/-! ## Any operation -/

/-- What loading a program keeps as well, every operation keeps. -/
theorem AllNodes.perform (hP : Node.IsStable P) (h : b.AllNodes P) {op : Operation}
    (hload : ∀ p text program n, op = .load p text → Program.parse text = .ok program →
      b.node? p = some n → P { n with program }) : (b.perform op).AllNodes P := by
  cases op with
  | place p =>
    simp only [Board.perform, Board.place]
    by_cases hp : b.contains p
    · rw [if_pos hp]
      exact h.settle hP p
    · rw [if_neg hp]
      exact h
  | fill => exact h.fill hP
  | addInput p d values => exact (h.attach hP p d).of_node?_eq (node?_mk _ _ _ _)
  | addOutput p d => exact (h.attach hP p d).of_node?_eq (node?_mk _ _ _ _)
  | drainOutput p => exact h.of_node?_eq (node?_mk _ _ _ _)
  | load p text =>
    simp only [Board.perform]
    split
    · next after faults hafter =>
      obtain ⟨program, n, hparse, hn, rfl, _⟩ := load_eq_ok_iff.mp hafter
      exact h.set (hload p text program n rfl hparse hn) p
    · exact h
  | step => exact h.step hP

end Board

end NodeGrid
