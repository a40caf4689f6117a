import NodeGrid.Proofs.Board.Filling
import NodeGrid.Proofs.Board.Operations

/-!
# What inputs deliver

A mailbox has at most one input that points at it, the one at the position next to that side. So
inputs do not get into each other's way, in whatever order they come: each delivers its oldest value
if the mailbox that it points at is empty when the tick begins, and otherwise keeps all.

* `offer_cases`: all that one input can do.
* `node?_feed`, `find?_inputs_feed`: the nodes and the inputs after all inputs had their turn.
* `delivered_append_queue`: over any operations, what an input delivers and what it still holds are
  together what it held at first, in order.
-/

namespace NodeGrid

theorem Node.offered_of_full {n : Node} {values : Direction → Option Int32}
    (h : ∀ d, values d ≠ none → n.inbox.get d ≠ none) : n.offered values = n := by
  have hinbox : (Sides.ofFn fun d => (n.inbox.get d).or (values d)) = n.inbox := by
    apply Sides.ext_get
    intro d
    rw [Sides.get_ofFn]
    cases hd : n.inbox.get d with
    | some value => rfl
    | none =>
      have hvalue : values d = none := Classical.byContradiction fun hne => h d hne hd
      rw [hvalue, Option.or_none]
  rw [offered, hinbox]

namespace Board

variable {b : Board} {p q : Position} {e : Direction} {link : Link (List Int32)}

/-- The mailbox for `e` of the node at `q`, if there is a node. -/
def mailbox? (b : Board) (q : Position) (e : Direction) : Option (Option Int32) :=
  (b.node? q).map (·.inbox.get e)

/-- Whether the node that an input at `p` points at is there and can take a value from it. -/
def Awaits (b : Board) (p : Position) (link : Link (List Int32)) : Prop :=
  b.mailbox? (p.step link.direction) link.direction.opposite = some none

instance (b : Board) (p : Position) (link : Link (List Int32)) : Decidable (b.Awaits p link) :=
  inferInstanceAs (Decidable (_ = _))

/-- The values of the input that points at the mailbox for `e` of the cell at `q`. -/
def queueAt (b : Board) (q : Position) (e : Direction) : List Int32 :=
  match b.inputs.find? (q.step e) with
  | some link => if link.direction = e.opposite then link.values else []
  | none => []

/-- The oldest one of them. -/
def front? (b : Board) (q : Position) (e : Direction) : Option Int32 := (b.queueAt q e).head?

theorem queueAt_of_none (h : b.inputs.find? (q.step e) = none) : b.queueAt q e = [] := by
  rw [queueAt, h]

theorem queueAt_of_some (h : b.inputs.find? (q.step e) = some link) :
    b.queueAt q e = if link.direction = e.opposite then link.values else [] := by
  rw [queueAt, h]

theorem queueAt_target (h : b.inputs.find? p = some link) :
    b.queueAt (p.step link.direction) link.direction.opposite = link.values := by
  rw [queueAt_of_some (by rwa [Position.step_step_opposite]), Direction.opposite_opposite,
    if_pos rfl]

/-- The link of an input after its turn. -/
def served (b : Board) (p : Position) (link : Link (List Int32)) : Link (List Int32) :=
  if b.Awaits p link then { link with values := link.values.tail } else link

/-! ## One input -/

/-- An input without a value, or whose value is not awaited, does nothing. Any other moves its
oldest value into the mailbox that it points at. -/
theorem offer_cases (b : Board) (p : Position) :
    (b.offer p = b ∧ ∀ link, b.inputs.find? p = some link → link.values ≠ [] → ¬ b.Awaits p link) ∨
      ∃ link value rest n, b.inputs.find? p = some link ∧ link.values = value :: rest ∧
        b.node? (p.step link.direction) = some n ∧ n.accepts link.direction.opposite ∧
        b.offer p = { b.set (p.step link.direction) (n.receive link.direction.opposite value) with
          inputs := b.inputs.modify p fun link => { link with values := rest } } := by
  cases hlink : b.inputs.find? p with
  | none => exact Or.inl ⟨by rw [offer, hlink], nofun⟩
  | some link =>
    obtain ⟨id, direction, values⟩ := link
    cases values with
    | nil =>
      left
      refine ⟨by rw [offer, hlink], ?_⟩
      rintro _ ⟨rfl⟩ hvalues
      exact absurd rfl hvalues
    | cons value rest =>
      cases hn : b.node? (p.step direction) with
      | none =>
        left
        refine ⟨by simp only [offer, hlink, hn], ?_⟩
        rintro _ ⟨rfl⟩ _ hawaits
        simp [Awaits, mailbox?, hn] at hawaits
      | some n =>
        by_cases haccepts : n.accepts direction.opposite
        · right
          refine ⟨_, value, rest, n, rfl, rfl, hn, haccepts, ?_⟩
          simp only [offer, hlink, hn, haccepts, if_true]
          rw [(set_frame b (p.step direction) _).1.inputs]
        · left
          refine ⟨by simp [offer, hlink, hn, haccepts], ?_⟩
          rintro _ ⟨rfl⟩ _ hawaits
          apply haccepts
          simpa [Awaits, mailbox?, hn, Node.accepts] using hawaits

/-- What feeding leaves as it is. -/
theorem offer_frame (b : Board) (p : Position) : (b.offer p).width = b.width ∧
    (b.offer p).height = b.height ∧ (b.offer p).outputs = b.outputs ∧
      (b.offer p).ticks = b.ticks := by
  rcases offer_cases b p with ⟨heq, -⟩ | ⟨link, value, rest, n, -, -, -, -, heq⟩
  · rw [heq]
    exact ⟨rfl, rfl, rfl, rfl⟩
  · obtain ⟨hframe, houtputs⟩ :=
      set_frame b (p.step link.direction) (n.receive link.direction.opposite value)
    rw [heq]
    exact ⟨hframe.width, hframe.height, houtputs, hframe.ticks⟩

theorem awaits_of_accepts {n : Node} (hn : b.node? (p.step link.direction) = some n)
    (haccepts : n.accepts link.direction.opposite) : b.Awaits p link := by
  simpa [Awaits, mailbox?, hn, Node.accepts] using haccepts

theorem served_of_values_nil (h : link.values = []) : b.served p link = link := by
  unfold served
  split
  · rw [h, List.tail_nil, ← h]
  · rfl

theorem find?_inputs_offer (b : Board) (p q : Position) : (b.offer p).inputs.find? q =
    if q = p then (b.inputs.find? q).map (b.served q) else b.inputs.find? q := by
  rcases offer_cases b p with ⟨heq, hidle⟩ |
      ⟨link, value, rest, n, hlink, hvalues, hn, haccepts, heq⟩
  · rw [heq]
    split
    · next hq =>
      subst hq
      cases hlink : b.inputs.find? q with
      | none => rfl
      | some link =>
        have hserved : b.served q link = link := by
          by_cases hvalues : link.values = []
          · exact served_of_values_nil hvalues
          · exact if_neg (hidle link hlink hvalues)
        rw [Option.map_some, hserved]
    · rfl
  · rw [heq]
    show (b.inputs.modify p _).find? q = _
    rw [Registry.find?_modify]
    split
    · next hq =>
      have hserved : b.served p link = { link with values := rest } := by
        rw [served, if_pos (awaits_of_accepts hn haccepts), hvalues, List.tail_cons]
      rw [hq, hlink, Option.map_some, Option.map_some, hserved]
    · rfl

/-- An input points at one mailbox. -/
theorem ite_front?_eq (hlink : b.inputs.find? p = some link) (q : Position) (e : Direction) :
    (if q.step e = p then b.front? q e else none) =
      if q = p.step link.direction ∧ e = link.direction.opposite then link.values.head?
      else none := by
  simp only [← Position.step_eq_and_opposite_eq_iff]
  by_cases hp : q.step e = p
  · subst hp
    rw [front?, queueAt_of_some hlink]
    by_cases hd : link.direction = e.opposite
    · simp [hd]
    · simp [hd, Ne.symm hd]
  · simp [hp]

theorem node?_offer (b : Board) (p q : Position) : (b.offer p).node? q =
    (b.node? q).map (·.offered fun e => if q.step e = p then b.front? q e else none) := by
  rcases offer_cases b p with ⟨heq, hidle⟩ |
      ⟨link, value, rest, n, hlink, hvalues, hn, haccepts, heq⟩
  · rw [heq]
    cases hm : b.node? q with
    | none => rfl
    | some m =>
      rw [Option.map_some, Node.offered_of_full]
      intro e hvalue hempty
      cases hlink : b.inputs.find? p with
      | none =>
        split at hvalue
        · next hp =>
          subst hp
          simp [front?, queueAt_of_none hlink] at hvalue
        · exact hvalue rfl
      | some link =>
        rw [ite_front?_eq hlink] at hvalue
        split at hvalue
        · next htarget =>
          have hvalues : link.values ≠ [] := by
            rintro hnil
            simp [hnil] at hvalue
          apply hidle link hlink hvalues
          rw [Awaits, mailbox?, ← htarget.1, ← htarget.2, hm, Option.map_some, hempty]
        · exact hvalue rfl
  · have hset : (b.offer p).node? q =
        (b.set (p.step link.direction) (n.receive link.direction.opposite value)).node? q := by
      rw [heq]
      exact node?_mk _ _ _ _ _
    simp only [hset, node?_set, contains_of_node? hn, and_true, ite_front?_eq hlink, hvalues,
      List.head?_cons]
    split
    · next hq => simp [hq, hn, Node.receive_eq_offered]
    · next hq => simp [hq, Node.offered_none]

/-- A mailbox gets a value from the one input that points at it. -/
theorem mailbox?_offer (b : Board) (p q : Position) (e : Direction) :
    (b.offer p).mailbox? q e =
      (b.mailbox? q e).map (·.or (if q.step e = p then b.front? q e else none)) := by
  simp only [mailbox?, node?_offer, Option.map_map, Function.comp_def, Node.offered, Sides.get_ofFn]

/-! ## One input after another -/

theorem awaits_offer_iff (hlink : b.inputs.find? p = some link) :
    (b.offer p).Awaits p link ↔ b.Awaits p link ∧ link.values = [] := by
  unfold Awaits
  rw [mailbox?_offer, Position.step_step_opposite, if_pos rfl, front?, queueAt_target hlink]
  cases b.mailbox? (p.step link.direction) link.direction.opposite with
  | none => simp
  | some content => cases content <;> simp

theorem awaits_offer_of_ne (h : q ≠ p) : (b.offer p).Awaits q link ↔ b.Awaits q link := by
  unfold Awaits
  rw [mailbox?_offer, Position.step_step_opposite, if_neg h]
  simp

/-- An input that has had its turn has nothing more to do in the same tick. -/
theorem served_served (hlink : b.inputs.find? p = some link) :
    (b.offer p).served p (b.served p link) = b.served p link := by
  by_cases hvalues : link.values = []
  · rw [served_of_values_nil hvalues, served_of_values_nil hvalues]
  · have hidle : ¬ (b.offer p).Awaits p link := fun h => hvalues ((awaits_offer_iff hlink).mp h).2
    have hserved : ¬ (b.offer p).Awaits p (b.served p link) := by
      unfold served
      split <;> exact hidle
    exact if_neg hserved

theorem queueAt_offer_of_ne (h : q.step e ≠ p) : (b.offer p).queueAt q e = b.queueAt q e := by
  rw [queueAt, find?_inputs_offer, if_neg h, queueAt]

theorem queueAt_offer_of_nil (h : b.queueAt q e = []) : (b.offer p).queueAt q e = [] := by
  by_cases hp : q.step e = p
  · subst hp
    cases hlink : b.inputs.find? (q.step e) with
    | none =>
      apply queueAt_of_none
      rw [find?_inputs_offer, if_pos rfl, hlink, Option.map_none]
    | some link =>
      have hserved : (b.offer (q.step e)).inputs.find? (q.step e) =
          some (b.served (q.step e) link) := by
        rw [find?_inputs_offer, if_pos rfl, hlink, Option.map_some]
      rw [queueAt_of_some hlink] at h
      rw [queueAt_of_some hserved]
      unfold served
      split
      · split at h
        · next hd => simp [hd, h]
        · next hd => simp [hd]
      · exact h
  · rw [queueAt_offer_of_ne hp, h]

/-! ## Several inputs -/

theorem node?_foldl_offer (b : Board) (ps : List Position) (q : Position) :
    (ps.foldl offer b).node? q =
      (b.node? q).map (·.offered fun e => if q.step e ∈ ps then b.front? q e else none) := by
  induction ps generalizing b with
  | nil => simp [Node.offered_none]
  | cons p ps ih =>
    rw [List.foldl_cons, ih, node?_offer, Option.map_map]
    congr 1
    funext n
    simp only [Function.comp, Node.offered_offered]
    congr 1
    funext e
    by_cases hp : q.step e = p
    · cases hqueue : b.queueAt q e with
      | nil => simp [front?, queueAt_offer_of_nil hqueue, hqueue]
      | cons value rest => simp [front?, hqueue, hp]
    · simp [hp, front?, queueAt_offer_of_ne hp]

theorem find?_inputs_foldl_offer (b : Board) (ps : List Position) (p : Position) :
    (ps.foldl offer b).inputs.find? p =
      if p ∈ ps then (b.inputs.find? p).map (b.served p) else b.inputs.find? p := by
  induction ps generalizing b with
  | nil => rfl
  | cons r ps ih =>
    rw [List.foldl_cons, ih, find?_inputs_offer]
    by_cases hr : p = r
    · subst hr
      cases hlink : b.inputs.find? p with
      | none => simp
      | some link => simp [served_served hlink]
    · have hserved : (b.offer r).served p = b.served p := by
        funext link
        simp only [served, awaits_offer_of_ne hr]
      simp [hr, hserved]

/-! ## All inputs -/

theorem feed_frame (b : Board) : b.feed.width = b.width ∧ b.feed.height = b.height ∧
    b.feed.outputs = b.outputs ∧ b.feed.ticks = b.ticks := by
  refine List.foldlRecOn b.inputs.positions offer (motive := fun c => c.width = b.width ∧
    c.height = b.height ∧ c.outputs = b.outputs ∧ c.ticks = b.ticks) ⟨rfl, rfl, rfl, rfl⟩ ?_
  rintro c ⟨hwidth, hheight, houtputs, hticks⟩ p _
  obtain ⟨hwidth', hheight', houtputs', hticks'⟩ := offer_frame c p
  exact ⟨hwidth'.trans hwidth, hheight'.trans hheight, houtputs'.trans houtputs,
    hticks'.trans hticks⟩

theorem positions_feed (b : Board) : b.feed.positions = b.positions := by
  obtain ⟨hwidth, hheight, -, -⟩ := feed_frame b
  rw [positions, positions, size, size, hwidth, hheight]

/-- When all inputs had their turn, each mailbox that was empty holds the oldest value of the input
that points at it, if that has one. -/
theorem node?_feed (b : Board) (q : Position) :
    b.feed.node? q = (b.node? q).map (·.offered (b.front? q)) := by
  have hfront : (fun e => if q.step e ∈ b.inputs.positions then b.front? q e else none) =
      b.front? q := by
    funext e
    split
    · rfl
    · next hmem =>
      rw [Registry.mem_positions_iff, Option.not_isSome_iff_eq_none] at hmem
      rw [front?, queueAt_of_none hmem]
      rfl
  rw [feed, node?_foldl_offer, hfront]

theorem find?_inputs_feed (b : Board) (p : Position) :
    b.feed.inputs.find? p = (b.inputs.find? p).map (b.served p) := by
  rw [feed, find?_inputs_foldl_offer]
  split
  · rfl
  · next hmem =>
    rw [Registry.mem_positions_iff, Option.not_isSome_iff_eq_none] at hmem
    rw [hmem, Option.map_none]

theorem mailbox?_feed (b : Board) (q : Position) (e : Direction) :
    b.feed.mailbox? q e = (b.mailbox? q e).map (·.or (b.front? q e)) := by
  simp only [mailbox?, node?_feed, Option.map_map, Function.comp_def, Node.offered, Sides.get_ofFn]

/-- In a tick only the feeding changes the inputs. -/
theorem find?_inputs_step (b : Board) (p : Position) :
    b.step.inputs.find? p = (b.inputs.find? p).map (b.served p) := by
  have hvisits := (visitAll_frame b.feed b.feed.positions).inputs
  show (b.feed.visitAll b.feed.positions).inputs.find? p = _
  rw [hvisits, find?_inputs_feed]

/-! ## Deliveries -/

/-- The value that comes into the mailbox for `e` of the node at `q` in the feeding of the next
tick: the mailbox was empty and is full. -/
def arriving (b : Board) (q : Position) (e : Direction) : Option Int32 :=
  if b.mailbox? q e = some none then (b.feed.mailbox? q e).join else none

/-- The value that comes into the mailbox that the input at `p` points at. -/
def fedBy (b : Board) (p : Position) : Option Int32 :=
  (b.inputs.find? p).bind fun link => b.arriving (p.step link.direction) link.direction.opposite

theorem fedBy_eq (hlink : b.inputs.find? p = some link) :
    b.fedBy p = if b.Awaits p link then link.values.head? else none := by
  rw [fedBy, hlink, Option.bind_some, arriving, mailbox?_feed, front?, queueAt_target hlink]
  by_cases hawaits : b.mailbox? (p.step link.direction) link.direction.opposite = some none
  · simp [Awaits, hawaits]
  · simp [Awaits, hawaits]

/-- Whether an operation leaves the registration of the input at `p` alone. -/
def Operation.KeepsInput (p : Position) : Operation → Prop
  | .addInput q _ _ => q ≠ p
  | _ => True

/-- The values that the input at `p` delivers in an operation. -/
def deliveredBy (b : Board) (p : Position) : Operation → List Int32
  | .step => (b.fedBy p).toList
  | _ => []

/-- The values that the input at `p` delivers during operations, the first one first. -/
def delivered (b : Board) (p : Position) (ops : List Operation) : List Int32 :=
  b.gather (deliveredBy · p) ops

/-- An operation that is no tick changes no input but one that it registers. -/
theorem find?_inputs_perform {op : Operation} (hop : op.KeepsInput p) (hstep : op ≠ .step) :
    (b.perform op).inputs.find? p = b.inputs.find? p := by
  cases op with
  | place q =>
    simp only [perform, place]
    split
    · next hplace =>
      split at hplace
      · cases hplace
        rw [(settle_frame b q).1.inputs]
      · cases hplace
    · rfl
  | fill => exact congrArg (·.find? p) (fill_frame b).1.inputs
  | addInput q d values =>
    have hattach := (modify_frame b (q.step d) (·.link d.opposite)).1.inputs
    have hne : p ≠ q := fun h => hop h.symm
    show ((b.attach q d).inputs.register q d values).find? p = _
    rw [Registry.find?_register, if_neg hne, attach, hattach]
  | addOutput q d =>
    exact congrArg (·.find? p) (modify_frame b (q.step d) (·.link d.opposite)).1.inputs
  | drainOutput q => rfl
  | load q text =>
    simp only [perform]
    split
    · next after faults hload =>
      obtain ⟨program, n, -, -, rfl, -⟩ := load_eq_ok_iff.mp hload
      rw [(set_frame b q _).1.inputs]
    · rfl
  | step => exact absurd rfl hstep

/-- What an operation delivers from an input is what the input no longer holds. -/
theorem deliveredBy_append {op : Operation} (hop : op.KeepsInput p)
    (hlink : b.inputs.find? p = some link) :
    ∃ queue, (b.perform op).inputs.find? p = some { link with values := queue } ∧
      b.deliveredBy p op ++ queue = link.values := by
  by_cases hstep : op = .step
  · subst hstep
    show ∃ queue, b.step.inputs.find? p = _ ∧ (b.fedBy p).toList ++ queue = _
    rw [find?_inputs_step, hlink, fedBy_eq hlink, Option.map_some]
    unfold served
    split
    · exact ⟨link.values.tail, rfl, by cases link.values <;> rfl⟩
    · exact ⟨link.values, rfl, rfl⟩
  · refine ⟨link.values, by rw [find?_inputs_perform hop hstep, hlink], ?_⟩
    cases op with
    | step => exact absurd rfl hstep
    | _ => rfl

theorem delivered_append {ops : List Operation} (hops : ∀ op ∈ ops, op.KeepsInput p)
    (hlink : b.inputs.find? p = some link) :
    ∃ queue, (b.performAll ops).inputs.find? p = some { link with values := queue } ∧
      b.delivered p ops ++ queue = link.values := by
  induction ops generalizing b link with
  | nil => exact ⟨link.values, hlink, rfl⟩
  | cons op ops ih =>
    obtain ⟨rest, hrest, hop⟩ := deliveredBy_append (hops op List.mem_cons_self) hlink
    obtain ⟨queue, hqueue, hdelivered⟩ := ih (fun o ho => hops o (List.mem_cons_of_mem op ho)) hrest
    refine ⟨queue, hqueue, ?_⟩
    calc
      b.delivered p (op :: ops) ++ queue
          = b.deliveredBy p op ++ ((b.perform op).delivered p ops ++ queue) := List.append_assoc ..
      _ = link.values := by rw [hdelivered, hop]

/-- Over any operations that do not register an input anew, the values that it delivers and then
those that it still holds are the values that it held at first. In each tick it delivers its oldest
value if the node that it points at is there with an empty mailbox, and otherwise it keeps all. -/
theorem delivered_append_queue {ops : List Operation} (hops : ∀ op ∈ ops, op.KeepsInput p)
    (hlink : b.inputs.find? p = some link) :
    (∃ queue, (b.performAll ops).inputs.find? p = some { link with values := queue } ∧
        b.delivered p ops ++ queue = link.values) ∧
      ∀ before after, ops = before ++ .step :: after →
        let c := b.performAll before
        ∃ queue, c.inputs.find? p = some { link with values := queue } ∧
          (c.mailbox? (p.step link.direction) link.direction.opposite = some none →
            c.fedBy p = queue.head? ∧
              c.step.inputs.find? p = some { link with values := queue.tail }) ∧
          (c.mailbox? (p.step link.direction) link.direction.opposite ≠ some none →
            c.fedBy p = none ∧ c.step.inputs.find? p = some { link with values := queue }) := by
  refine ⟨delivered_append hops hlink, ?_⟩
  rintro before after rfl
  have hbefore : ∀ op ∈ before, op.KeepsInput p := fun op ho => hops op (List.mem_append_left _ ho)
  obtain ⟨queue, hqueue, -⟩ := delivered_append hbefore hlink
  refine ⟨queue, hqueue, ?_, ?_⟩
  · intro hawaits
    rw [fedBy_eq hqueue, find?_inputs_step, hqueue, Option.map_some]
    exact ⟨if_pos hawaits, congrArg some (if_pos hawaits)⟩
  · intro hawaits
    rw [fedBy_eq hqueue, find?_inputs_step, hqueue, Option.map_some]
    exact ⟨if_neg hawaits, congrArg some (if_neg hawaits)⟩

/-- A node that reads one value in two ticks, and an input next to it. -/
def slowReader : Board :=
  (empty 1 1).performAll [.fill, .addInput ⟨-1, 0⟩ .right [1, 2, 3], .load ⟨0, 0⟩ "ADD LEFT\nNOP"]

/-- In the third tick the second value is still in the mailbox, and the third one stays where it
is. -/
theorem delivered_append_queue_slowReader :
    slowReader.inputs.find? ⟨-1, 0⟩ = some ⟨0, .right, [1, 2, 3]⟩ ∧
      slowReader.delivered ⟨-1, 0⟩ [.step, .step, .step] = [1, 2] ∧
      (slowReader.performAll [.step, .step]).fedBy ⟨-1, 0⟩ = none ∧
      ∃ queue, (slowReader.performAll [.step, .step, .step]).inputs.find? ⟨-1, 0⟩ =
        some ⟨0, .right, queue⟩ ∧ [1, 2] ++ queue = [1, 2, 3] := by
  have hlink : slowReader.inputs.find? ⟨-1, 0⟩ = some ⟨0, .right, [1, 2, 3]⟩ := by decide +kernel
  have hops : ∀ op ∈ [Operation.step, .step, .step], op.KeepsInput ⟨-1, 0⟩ := by
    simp [Operation.KeepsInput]
  have hdelivered : slowReader.delivered ⟨-1, 0⟩ [.step, .step, .step] = [1, 2] := by
    decide +kernel
  have hfull : (slowReader.performAll [.step, .step]).mailbox? ⟨0, 0⟩ .left ≠ some none := by
    decide +kernel
  obtain ⟨⟨queue, hqueue, hvalues⟩, hticks⟩ := delivered_append_queue hops hlink
  obtain ⟨_, _, -, hstalled⟩ := hticks [.step, .step] [] rfl
  exact ⟨hlink, hdelivered, (hstalled hfull).1, queue, hqueue, hdelivered ▸ hvalues⟩

end Board

end NodeGrid
