import Mathlib.Data.List.Induction
import NodeGrid.Proofs.Board.Ticks
import NodeGrid.Proofs.Node.Execution

/-!
# The links of a node

A node learns of a link in three ways: it finds a neighbour when it is put into its cell, a
neighbour is put next to it later, or an input or output is registered that points at it. It never
forgets one, unless it is replaced.

* `links?_perform`: what one operation does to the links of a node.
* `mem_links_performAll`: at any time a node is linked on a side exactly if there is a neighbour, or
  if since the node was put into its cell an input or output was registered there that points at it.
* `linked_of_adjacent`: so neighbours are linked with each other, whatever was done to the board.
* `mem_links_iff_connected_or`, `linksMatch_iff`: a node whose input or output was turned away keeps
  its link, all other links are connections. That this happens is `not_linksMatch`.
-/

namespace NodeGrid

namespace LinkSet

/-- The members and the directions of `sides`. -/
def join (links : LinkSet) (sides : Direction → Bool) : LinkSet :=
  .ofFn fun d => links.get d || sides d

theorem mem_join {links : LinkSet} {sides : Direction → Bool} {d : Direction} :
    d ∈ links.join sides ↔ d ∈ links ∨ sides d := by
  simp [join, mem_def]

theorem join_none (links : LinkSet) : (links.join fun _ => false) = links := by
  apply Sides.ext_get
  intro d
  rw [join, Sides.get_ofFn, Bool.or_false]

end LinkSet

namespace Board

/-! ## What operations do to links -/

namespace Operation

/-- Whether an operation puts a fresh node into the cell at `q`, if that is in the grid. -/
def settles (q : Position) : Operation → Bool
  | place p => p = q
  | fill => true
  | _ => false

/-- Where an operation registers an input or an output, and in which direction that points. -/
def link? : Operation → Option (Position × Direction)
  | addInput p d _ => some (p, d)
  | addOutput p d => some (p, d)
  | _ => none

/-- Whether an operation registers an input or an output next to side `e` of `q` that points at
`q`. -/
def pointsAt (q : Position) (e : Direction) (op : Operation) : Bool :=
  op.link? = some (q.step e, e.opposite)

theorem settles_of_pointsAt {q p : Position} {e : Direction} {op : Operation}
    (h : op.pointsAt q e) : op.settles p = false := by
  cases op with
  | place r | fill => cases h
  | addInput r d values | addOutput r d | drainOutput r | load r text | step => rfl

end Operation

/-- The links of the node at `q`, if there is one. -/
def links? (b : Board) (q : Position) : Option LinkSet := (b.node? q).map (·.links)

variable {b : Board} {p q : Position} {e : Direction} {n : Node}

theorem isSome_links? (b : Board) (q : Position) : (b.links? q).isSome = (b.node? q).isSome :=
  Option.isSome_map ..

theorem links?_of_node? (hn : b.node? q = some n) : b.links? q = some n.links := by
  rw [links?, hn, Option.map_some]

/-- A node that is put into a cell is linked with the neighbours that are there, and they
with it. -/
theorem links?_settle (hp : b.contains p) (q : Position) : (b.settle p).links? q =
    if p = q then some (.ofFn fun e => ((b.settle p).node? (q.step e)).isSome)
    else (b.links? q).map (·.join fun e => p = q.step e) := by
  rw [links?, node?_settle]
  by_cases hq : p = q
  · subst hq
    simp [hp, isSome_node?_settle hp, Position.step_ne]
  · rw [if_neg fun h => hq h.1.symm, if_neg hq, links?, Option.map_map, Option.map_map]
    simp only [eq_comm (a := p)]
    rfl

theorem links?_fill (b : Board) (q : Position) : b.fill.links? q =
    if b.contains q then some (.ofFn fun e => (b.fill.node? (q.step e)).isSome) else none := by
  have hsome (p : Position) : (b.fill.node? p).isSome = b.contains p := by
    rw [node?_fill]
    split <;> simp_all
  simp only [hsome]
  rw [links?, node?_fill]
  split <;> rfl

/-- A link adds to those of the node that it points at. -/
theorem links?_attach (b : Board) (p : Position) (d : Direction) (q : Position) :
    (b.attach p d).links? q =
      (b.links? q).map (·.join fun e => some (p, d) = some (q.step e, e.opposite)) := by
  rw [links?, node?_attach, links?, Option.map_map, Option.map_map]
  simp only [Option.some.injEq, Prod.mk.injEq, eq_comm (a := p), eq_comm (a := d)]
  rfl

theorem links?_load (b : Board) (p : Position) (text : String) (q : Position) :
    (b.perform (.load p text)).links? q = b.links? q := by
  simp only [perform]
  split
  · next after faults hload =>
    obtain ⟨program, m, -, hm, rfl, -⟩ := load_eq_ok_iff.mp hload
    rw [links?, node?_set]
    split
    · next hq =>
      rw [hq.1, links?_of_node? hm]
      rfl
    · rfl
  · rfl

theorem contains_step (b : Board) (q : Position) : b.step.contains q = b.contains q := by
  rw [← contains_feed b q]
  exact (visitAll_frame b.feed b.feed.positions).contains_eq q

theorem links?_step (b : Board) (q : Position) : b.step.links? q = b.links? q := by
  unfold links?
  by_cases hq : b.contains q
  · rw [node?_step hq, node?_atTurn hq, node?_feed]
    cases b.node? q with
    | none => rfl
    | some n =>
      simp only [Option.map_some, Option.some.injEq]
      exact (Node.step_frame _).2
  · have hstep : ¬ b.step.contains q := by rwa [contains_step]
    rw [node?_eq_none_of_not_contains hstep, node?_eq_none_of_not_contains hq]

/-- Whether the node at `q` gets linked on side `e` by an operation that leaves it in its cell: a
neighbour comes there, or an input or an output. -/
def gains (b : Board) (op : Operation) (q : Position) (e : Direction) : Bool :=
  (op.settles (q.step e) && b.contains (q.step e)) || op.pointsAt q e

theorem gains_place (b : Board) (p q : Position) :
    b.gains (.place p) q = fun e => decide (p = q.step e) && b.contains p := by
  funext e
  by_cases h : p = q.step e
  · simp [gains, Operation.settles, ← h, Operation.pointsAt, Operation.link?]
  · simp [gains, Operation.settles, h, Operation.pointsAt, Operation.link?]

theorem links?_place (b : Board) (p q : Position) : (b.perform (.place p)).links? q =
    if p = q ∧ b.contains q then
      some (.ofFn fun e => ((b.perform (.place p)).node? (q.step e)).isSome)
    else (b.links? q).map (·.join (b.gains (.place p) q)) := by
  rw [gains_place]
  by_cases hp : b.contains p
  · have hplace : b.perform (.place p) = b.settle p := by
      simp only [perform, place, if_pos hp]
    have hcell : p = q → b.contains q := fun h => h ▸ hp
    simp only [hplace, links?_settle hp, hp, Bool.and_true, and_iff_left_of_imp hcell]
  · have hplace : b.perform (.place p) = b := by
      simp only [perform, place, if_neg hp]
    have hcell : ¬ (p = q ∧ b.contains q) := fun h => hp (h.1 ▸ h.2)
    simp only [hplace, if_neg hcell, hp, Bool.and_false, LinkSet.join_none, Option.map_id']

/-- An operation puts a fresh node into the cell at `q`, which is linked with the neighbours that it
has then, or it leaves the node there and only adds to its links. -/
theorem links?_perform (b : Board) (op : Operation) (q : Position) : (b.perform op).links? q =
    if op.settles q ∧ b.contains q then
      some (.ofFn fun e => ((b.perform op).node? (q.step e)).isSome)
    else (b.links? q).map (·.join (b.gains op q)) := by
  have unchanged (hop : ∀ r, op.settles r = false) (hlink : op.link? = none)
      (h : (b.perform op).links? q = b.links? q) : (b.perform op).links? q =
        if op.settles q ∧ b.contains q then
          some (.ofFn fun e => ((b.perform op).node? (q.step e)).isSome)
        else (b.links? q).map (·.join (b.gains op q)) := by
    have hgains : b.gains op q = fun _ => false := by
      funext e
      simp [gains, hop, Operation.pointsAt, hlink]
    simp [h, hop, hgains, LinkSet.join_none]
  cases op with
  | place p =>
    simp only [Operation.settles, decide_eq_true_eq]
    exact links?_place b p q
  | fill =>
    show b.fill.links? q = _
    rw [links?_fill]
    by_cases hq : b.contains q
    · rw [if_pos hq, if_pos ⟨rfl, hq⟩]
      rfl
    · rw [if_neg hq, if_neg fun h => hq h.2, links?, node?_eq_none_of_not_contains hq]
      rfl
  | addInput p d values | addOutput p d =>
    refine (congrArg (Option.map (·.links)) (node?_mk (b.attach p d) _ _ _ q)).trans ?_
    exact links?_attach b p d q
  | drainOutput p => exact unchanged (fun _ => rfl) rfl (congrArg _ (node?_mk _ _ _ _ _))
  | load p text => exact unchanged (fun _ => rfl) rfl (links?_load b p text q)
  | step => exact unchanged (fun _ => rfl) rfl (links?_step b q)

theorem isSome_node?_perform (b : Board) (op : Operation) (q : Position) :
    ((b.perform op).node? q).isSome ↔ (b.node? q).isSome ∨ (op.settles q ∧ b.contains q) := by
  rw [← isSome_links?, ← isSome_links?, links?_perform]
  split
  · next h => simp [h]
  · next h => simp [h]

/-! ## What was done to a cell and beside it -/

/-- Whether an input or an output that points at `q` was registered next to side `e`, after the last
time that a node was put into the cell there. -/
def PointedAt (q : Position) (e : Direction) (ops : List Operation) : Prop :=
  ∃ before op after, ops = before ++ op :: after ∧ op.pointsAt q e ∧
    ∀ later ∈ after, later.settles q = false

variable {ops : List Operation} {op : Operation} {width height : Nat}

theorem pointedAt_append_singleton :
    PointedAt q e (ops ++ [op]) ↔ op.pointsAt q e ∨ (PointedAt q e ops ∧ op.settles q = false) := by
  constructor
  · rintro ⟨before, other, after, h, hpoints, hafter⟩
    rcases List.eq_nil_or_concat after with rfl | ⟨rest, last, rfl⟩
    · obtain ⟨-, hop⟩ := List.append_inj' h rfl
      exact Or.inl (List.singleton_inj.mp hop ▸ hpoints)
    · rw [List.concat_eq_append, ← List.cons_append, ← List.append_assoc] at h
      obtain ⟨hops, hop⟩ := List.append_inj' h rfl
      simp only [List.concat_eq_append, List.mem_append, List.mem_singleton] at hafter
      refine Or.inr
        ⟨⟨before, other, rest, hops, hpoints, fun later hl => hafter later (Or.inl hl)⟩, ?_⟩
      exact hafter op (Or.inr (List.singleton_inj.mp hop))
  · rintro (hpoints | ⟨⟨before, other, after, rfl, hpoints, hafter⟩, hop⟩)
    · exact ⟨ops, op, [], rfl, hpoints, fun _ h => absurd h List.not_mem_nil⟩
    · refine ⟨before, other, after ++ [op], by simp, hpoints, ?_⟩
      intro later hlater
      rcases List.mem_append.mp hlater with hmem | hmem
      · exact hafter later hmem
      · exact List.mem_singleton.mp hmem ▸ hop

theorem performAll_append_singleton (b : Board) (ops : List Operation) (op : Operation) :
    b.performAll (ops ++ [op]) = (b.performAll ops).perform op := List.foldl_append

/-- At any time a node is linked on a side exactly if it has a neighbour there, or if an input or an
output there pointed at it when it was registered. -/
theorem mem_links_performAll (hn : ((empty width height).performAll ops).node? q = some n) :
    e ∈ n.links ↔
      (((empty width height).performAll ops).node? (q.step e)).isSome ∨ PointedAt q e ops := by
  induction ops using List.reverseRecOn generalizing n with
  | nil => exact (allNodes_empty (fun _ => False) width height q n hn).elim
  | append_singleton ops op ih =>
    rw [performAll_append_singleton] at hn ⊢
    have hlinks := (links?_of_node? hn).symm.trans (links?_perform _ op q)
    rw [pointedAt_append_singleton]
    split at hlinks
    · next hsettles =>
      -- What pointed at the cell before does not count for the fresh node.
      have hpoints : ¬ op.pointsAt q e := fun h => by
        simp [Operation.settles_of_pointsAt h] at hsettles
      rw [Option.some.inj hlinks, LinkSet.mem_def, Sides.get_ofFn]
      simp [hpoints, hsettles.1]
    · next hstays =>
      obtain ⟨links, hbefore, hjoin⟩ := Option.map_eq_some_iff.mp hlinks.symm
      obtain ⟨m, hm, rfl⟩ := Option.map_eq_some_iff.mp hbefore
      have hcontains : ((empty width height).performAll ops).contains q := contains_of_node? hm
      have hop : op.settles q = false := by simpa [hcontains] using hstays
      rw [← hjoin, LinkSet.mem_join, ih hm, isSome_node?_perform]
      simp only [gains, Bool.or_eq_true, Bool.and_eq_true, hop, and_true]
      tauto

/-- Neighbours are linked with each other, whatever was done to the board. -/
theorem linked_of_adjacent {m : Node}
    (hn : ((empty width height).performAll ops).node? q = some n)
    (hm : ((empty width height).performAll ops).node? (q.step e) = some m) :
    e ∈ n.links ∧ e.opposite ∈ m.links := by
  rw [mem_links_performAll hn, mem_links_performAll hm, Position.step_step_opposite, hn, hm]
  exact ⟨Or.inl rfl, Or.inl rfl⟩

/-- A node is put into the cell of another one, beside a node that has run. -/
def replacement : List Operation :=
  [.fill, .addInput ⟨0, 0⟩ .right [5], .load ⟨1, 0⟩ "MOV UP ACC", .step, .addOutput ⟨-1, 0⟩ .right,
    .place ⟨0, 0⟩, .drainOutput ⟨-1, 0⟩]

theorem linked_of_adjacent_replacement :
    ∃ n m, ((empty 2 1).performAll replacement).node? ⟨0, 0⟩ = some n ∧
      ((empty 2 1).performAll replacement).node? (Position.step ⟨0, 0⟩ .right) = some m ∧
      Direction.right ∈ n.links ∧ Direction.right.opposite ∈ m.links := by
  have hleft : (((empty 2 1).performAll replacement).node? ⟨0, 0⟩).isSome := by decide +kernel
  have hright :
      (((empty 2 1).performAll replacement).node? (Position.step ⟨0, 0⟩ .right)).isSome := by
    decide +kernel
  obtain ⟨n, hn⟩ := Option.isSome_iff_exists.mp hleft
  obtain ⟨m, hm⟩ := Option.isSome_iff_exists.mp hright
  exact ⟨n, m, hn, hm, linked_of_adjacent hn hm⟩

/-! ## Links and connections -/

end Board

/-- Where the link at a position points, if there is one. -/
def Registry.direction? {α : Type} (r : Registry α) (p : Position) : Option Direction :=
  (r.find? p).map (·.direction)

theorem Registry.direction?_register {α : Type} (r : Registry α) (p q : Position) (d : Direction)
    (values : α) :
    (r.register p d values).direction? q = if q = p then some d else r.direction? q := by
  rw [direction?, find?_register]
  split <;> rfl

namespace Board

/-- Whether an input or an output is registered at `p` that points in direction `d`. -/
def HasLink (b : Board) (p : Position) (d : Direction) : Prop :=
  b.inputs.direction? p = some d ∨ b.outputs.direction? p = some d

/-- Whether something is connected with side `e` of the cell at `q`: a node is there, or an input or
an output that points at the cell. -/
def Connected (b : Board) (q : Position) (e : Direction) : Prop :=
  (b.node? (q.step e)).isSome ∨ b.HasLink (q.step e) e.opposite

/-- The links of every node are its connections. -/
def LinksMatch (b : Board) : Prop :=
  ∀ q n e, b.node? q = some n → (e ∈ n.links ↔ b.Connected q e)

instance (b : Board) (p : Position) (d : Direction) : Decidable (b.HasLink p d) :=
  inferInstanceAs (Decidable (_ ∨ _))

instance (b : Board) (q : Position) (e : Direction) : Decidable (b.Connected q e) :=
  inferInstanceAs (Decidable (_ ∨ _))

/-- Whether an operation only puts nodes into cells. -/
def Operation.isPlacing : Operation → Bool
  | place _ => true
  | fill => true
  | _ => false

variable {b : Board} {p q : Position} {d e : Direction} {n : Node} {op : Operation}
  {placings registrations : List Operation} {width height : Nat}

theorem hasLink_perform_of_isPlacing (hop : op.isPlacing) (p : Position) (d : Direction) :
    (b.perform op).HasLink p d ↔ b.HasLink p d := by
  have hlinks : (b.perform op).inputs = b.inputs ∧ (b.perform op).outputs = b.outputs := by
    cases op with
    | place r =>
      simp only [perform, place]
      split
      · next after hafter =>
        split at hafter
        · cases hafter
          exact ⟨(settle_frame b r).1.inputs, (settle_frame b r).2⟩
        · cases hafter
      · exact ⟨rfl, rfl⟩
    | fill => exact ⟨(fill_frame b).1.inputs, (fill_frame b).2⟩
    | addInput r d values | addOutput r d | drainOutput r | load r text | step => cases hop
  rw [HasLink, hlinks.1, hlinks.2, HasLink]

/-- What is registered, the last operation has registered, or it was there before. -/
theorem hasLink_perform_of_link? (hop : op.link?.isSome) (h : (b.perform op).HasLink p d) :
    op.link? = some (p, d) ∨ b.HasLink p d := by
  cases op with
  | addInput r f values =>
    obtain ⟨hframe, houtputs⟩ := modify_frame b (r.step f) (·.link f.opposite)
    have hinputs : (b.perform (.addInput r f values)).inputs = b.inputs.register r f values :=
      congrArg (Registry.register · r f values) hframe.inputs
    have hout : (b.perform (.addInput r f values)).outputs = b.outputs := houtputs
    rw [HasLink, hinputs, hout, Registry.direction?_register] at h
    split at h
    · next hr =>
      subst hr
      exact h.imp (fun hd => by rw [Operation.link?, Option.some.inj hd]) Or.inr
    · exact Or.inr h
  | addOutput r f =>
    obtain ⟨hframe, houtputs⟩ := modify_frame b (r.step f) (·.link f.opposite)
    have hinputs : (b.perform (.addOutput r f)).inputs = b.inputs := hframe.inputs
    have hout : (b.perform (.addOutput r f)).outputs = b.outputs.register r f #[] :=
      congrArg (Registry.register · r f #[]) houtputs
    rw [HasLink, hinputs, hout, Registry.direction?_register] at h
    split at h
    · next hr =>
      subst hr
      exact h.symm.imp (fun hd => by rw [Operation.link?, Option.some.inj hd]) Or.inl
    · exact Or.inr h
  | place r | fill | drainOutput r | load r text | step => cases hop

theorem not_hasLink_performAll_of_isPlacing (hplacings : ∀ op ∈ placings, op.isPlacing) :
    ¬ ((empty width height).performAll placings).HasLink p d := by
  refine List.foldlRecOn placings perform (motive := fun b => ¬ b.HasLink p d) ?_ ?_
  · simp [HasLink, Registry.direction?, Registry.find?, empty]
  · intro b hb op hop
    rwa [hasLink_perform_of_isPlacing (hplacings op hop)]

/-- What is registered after the nodes were put into their cells was registered by an operation. -/
theorem exists_link?_of_hasLink (hplacings : ∀ op ∈ placings, op.isPlacing)
    (hregistrations : ∀ op ∈ registrations, op.link?.isSome)
    (h : ((empty width height).performAll (placings ++ registrations)).HasLink p d) :
    ∃ op ∈ registrations, op.link? = some (p, d) := by
  induction registrations using List.reverseRecOn with
  | nil =>
    rw [List.append_nil] at h
    exact (not_hasLink_performAll_of_isPlacing hplacings h).elim
  | append_singleton ops op ih =>
    rw [← List.append_assoc, performAll_append_singleton] at h
    have hop := hregistrations op (List.mem_append_right ops (List.mem_singleton_self op))
    rcases hasLink_perform_of_link? hop h with hlink | hbefore
    · exact ⟨op, List.mem_append_right ops (List.mem_singleton_self op), hlink⟩
    · have hops : ∀ other ∈ ops, other.link?.isSome := fun other hother =>
        hregistrations other (List.mem_append_left [op] hother)
      obtain ⟨other, hother, hlink⟩ := ih hops hbefore
      exact ⟨other, List.mem_append_left [op] hother, hlink⟩

theorem pointedAt_placings_append (hplacings : ∀ op ∈ placings, op.isPlacing)
    (hregistrations : ∀ op ∈ registrations, op.link?.isSome) :
    PointedAt q e (placings ++ registrations) ↔ ∃ op ∈ registrations, op.pointsAt q e := by
  constructor
  · rintro ⟨before, op, after, hops, hpoints, -⟩
    have hmem : op ∈ placings ++ registrations := by
      rw [hops]
      exact List.mem_append_right before List.mem_cons_self
    rcases List.mem_append.mp hmem with hop | hop
    · have hplacing := hplacings op hop
      cases op <;>
        simp [Operation.isPlacing, Operation.pointsAt, Operation.link?] at hplacing hpoints
    · exact ⟨op, hop, hpoints⟩
  · rintro ⟨op, hop, hpoints⟩
    obtain ⟨before, after, rfl⟩ := List.append_of_mem hop
    refine ⟨placings ++ before, op, after, by simp, hpoints, fun later hlater => ?_⟩
    have hlink :=
      hregistrations later (List.mem_append_right before (List.mem_cons_of_mem op hlater))
    cases later <;> simp [Operation.link?, Operation.settles] at hlink ⊢

/-- Once the nodes are in their cells, a node is linked on a side exactly if it is connected there,
or if an input or an output has pointed at it there. -/
theorem mem_links_iff_connected_or (hplacings : ∀ op ∈ placings, op.isPlacing)
    (hregistrations : ∀ op ∈ registrations, op.link?.isSome)
    (hn : ((empty width height).performAll (placings ++ registrations)).node? q = some n) :
    e ∈ n.links ↔ ((empty width height).performAll (placings ++ registrations)).Connected q e ∨
      ∃ op ∈ registrations, op.pointsAt q e := by
  rw [mem_links_performAll hn, pointedAt_placings_append hplacings hregistrations, Connected,
    or_assoc]
  refine or_congr_right (or_iff_right_of_imp fun hlink => ?_).symm
  obtain ⟨op, hop, hpoints⟩ := exists_link?_of_hasLink hplacings hregistrations hlink
  exact ⟨op, hop, decide_eq_true hpoints⟩

/-- The links of all nodes are their connections exactly if each node that an input or an output was
registered for is still connected on that side. -/
theorem linksMatch_iff (hplacings : ∀ op ∈ placings, op.isPlacing)
    (hregistrations : ∀ op ∈ registrations, op.link?.isSome) :
    ((empty width height).performAll (placings ++ registrations)).LinksMatch ↔
      ∀ op ∈ registrations, ∀ p d, op.link? = some (p, d) →
        (((empty width height).performAll (placings ++ registrations)).node? (p.step d)).isSome →
          ((empty width height).performAll (placings ++ registrations)).Connected (p.step d)
            d.opposite := by
  constructor
  · intro h op hop p d hlink hnode
    obtain ⟨n, hn⟩ := Option.isSome_iff_exists.mp hnode
    have hpoints : op.pointsAt (p.step d) d.opposite := by
      rw [Operation.pointsAt, Position.step_step_opposite, Direction.opposite_opposite, hlink]
      exact decide_eq_true rfl
    refine (h (p.step d) n d.opposite hn).mp ?_
    exact (mem_links_iff_connected_or hplacings hregistrations hn).mpr (Or.inr ⟨op, hop, hpoints⟩)
  · intro h q n e hn
    rw [mem_links_iff_connected_or hplacings hregistrations hn]
    refine or_iff_left_of_imp ?_
    rintro ⟨op, hop, hpoints⟩
    have hconnected := h op hop (q.step e) e.opposite (of_decide_eq_true hpoints)
    rw [Position.step_step_opposite, Direction.opposite_opposite] at hconnected
    exact hconnected (Option.isSome_iff_exists.mpr ⟨n, hn⟩)

/-- An input that points at the only node gets other values and keeps its direction, and an output
is turned away from a cell without a node. -/
def keptRegistrations : List Operation :=
  [.addInput ⟨-1, 0⟩ .right [1], .addOutput ⟨2, 0⟩ .left, .addInput ⟨-1, 0⟩ .right [2],
    .addOutput ⟨2, 0⟩ .up]

theorem linksMatch_keptRegistrations :
    (∀ op ∈ [Operation.place ⟨0, 0⟩], op.isPlacing) ∧
      (∀ op ∈ keptRegistrations, op.link?.isSome) ∧
      ((empty 2 1).performAll ([.place ⟨0, 0⟩] ++ keptRegistrations)).LinksMatch := by
  refine ⟨by decide, by decide, (linksMatch_iff (by decide) (by decide)).mpr ?_⟩
  intro op hop p d hlink
  simp only [keptRegistrations, List.mem_cons, List.not_mem_nil, or_false] at hop
  rcases hop with rfl | rfl | rfl | rfl <;> cases hlink <;> decide +kernel

/-- An input that is turned away from the only node leaves its link behind. -/
theorem not_linksMatch :
    ¬ ∀ width height placings registrations, (∀ op ∈ placings, op.isPlacing) →
      (∀ q, (empty width height).contains q → placings.countP (·.settles q) ≤ 1) →
      (∀ op ∈ registrations, op.link?.isSome) →
      ((empty width height).performAll (placings ++ registrations)).LinksMatch := by
  intro h
  have hmatch := h 1 1 [.fill] [.addInput ⟨-1, 0⟩ .right [], .addInput ⟨-1, 0⟩ .left []] (by decide)
    (fun _ _ => Nat.le_refl 1) (by decide)
  have hnode : (((empty 1 1).performAll ([.fill] ++ [.addInput ⟨-1, 0⟩ .right [],
      .addInput ⟨-1, 0⟩ .left []])).node? ⟨0, 0⟩).map (·.links.get .left) = some true := by
    decide +kernel
  obtain ⟨n, hn, hlink⟩ := Option.map_eq_some_iff.mp hnode
  have hconnected := (hmatch ⟨0, 0⟩ n .left hn).mp hlink
  revert hconnected
  decide +kernel

end Board

end NodeGrid
