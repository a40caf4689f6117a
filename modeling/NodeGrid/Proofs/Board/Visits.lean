import NodeGrid.Board.Tick

/-!
# What a visit changes

A visit changes the node that it is made to, offers a value to each of its neighbours and appends
values to the outputs at their positions. Nothing else of the board changes.

* `node?_visit`, `outputs_visit`: all that changes.
* `node?_visitAll`: visits to other nodes offer a node one value from each of its neighbours among
  them, whatever the order in which they come.
-/

namespace NodeGrid

namespace Node

/-- The value that leaves on a side. -/
def outgoing (n : Node) (d : Direction) : Option Int32 :=
  if d ∈ n.links then n.outbox.get d else none

/-- The node after values were offered to its mailboxes. A full one keeps what it has. -/
def offered (n : Node) (values : Direction → Option Int32) : Node :=
  { n with inbox := .ofFn fun d => (n.inbox.get d).or (values d) }

variable (n : Node)

theorem sent_eq_filterMap :
    n.sent = Direction.all.filterMap fun d => (n.outgoing d).map (d, ·) := by
  unfold sent outgoing
  congr 1
  funext d
  split <;> rfl

theorem offered_none : n.offered (fun _ => none) = n := by
  have hinbox : (Sides.ofFn fun d => (n.inbox.get d).or none) = n.inbox := by
    apply Sides.ext_get
    intro d
    rw [Sides.get_ofFn, Option.or_none]
  rw [offered, hinbox]

theorem offered_offered (f g : Direction → Option Int32) :
    (n.offered f).offered g = n.offered fun d => (f d).or (g d) := by
  simp only [offered, Sides.get_ofFn, Option.or_assoc]

theorem receive_eq_offered (d : Direction) (value : Int32) :
    n.receive d value = n.offered fun e => if e = d then some value else none := by
  have hinbox : (n.receive d value).inbox =
      .ofFn fun e => (n.inbox.get e).or (if e = d then some value else none) := by
    apply Sides.ext_get
    intro e
    rw [Sides.get_ofFn]
    unfold receive accepts
    split
    · next hempty =>
      rw [Sides.get_set]
      split
      · next he =>
        subst he
        rw [Option.isNone_iff_eq_none.mp hempty, Option.none_or]
      · rw [Option.or_none]
    · next hfull =>
      split
      · next he =>
        subst he
        cases hvalue : n.inbox.get e with
        | none => simp [hvalue] at hfull
        | some other => rfl
      · rw [Option.or_none]
  calc
    n.receive d value = { n with inbox := (n.receive d value).inbox } := by
      unfold receive
      split <;> rfl
    _ = _ := by rw [hinbox, offered]

end Node

namespace Registry

variable {α : Type}

/-- Changes each link, depending on its position. -/
def mapLinks (r : Registry α) (f : Position → Link α → Link α) : Registry α :=
  { entries := r.entries.map fun entry => (entry.1, f entry.1 entry.2) }

theorem modify_eq_mapLinks (r : Registry α) (p : Position) (f : Link α → Link α) :
    r.modify p f = r.mapLinks fun q link => if q = p then f link else link := by
  unfold modify mapLinks
  congr 1
  apply List.map_congr_left
  intro entry _
  by_cases h : entry.1 = p <;> simp [h]

theorem mapLinks_mapLinks (r : Registry α) (f g : Position → Link α → Link α) :
    (r.mapLinks f).mapLinks g = r.mapLinks fun p link => g p (f p link) := by
  simp only [mapLinks, List.map_map]
  rfl

theorem mapLinks_congr {r : Registry α} {f g : Position → Link α → Link α}
    (h : ∀ p ∈ r.positions, f p = g p) : r.mapLinks f = r.mapLinks g := by
  unfold mapLinks
  congr 1
  apply List.map_congr_left
  intro entry hentry
  rw [h entry.1 (List.mem_map_of_mem hentry)]

theorem mapLinks_self (r : Registry α) : (r.mapLinks fun _ link => link) = r := by
  unfold mapLinks
  rw [List.map_id']

theorem positions_mapLinks (r : Registry α) (f : Position → Link α → Link α) :
    (r.mapLinks f).positions = r.positions := by
  simp only [positions, mapLinks, List.map_map]
  rfl

theorem find?_mapLinks (r : Registry α) (f : Position → Link α → Link α) (p : Position) :
    (r.mapLinks f).find? p = (r.find? p).map (f p) := by
  obtain ⟨entries⟩ := r
  simp only [find?, mapLinks]
  induction entries with
  | nil => rfl
  | cons entry rest ih =>
    obtain ⟨q, link⟩ := entry
    simp only [List.map_cons, List.find?_cons]
    by_cases hq : q = p
    · simp [hq]
    · simp only [hq, decide_false]
      exact ih

end Registry

/-- The link with more values behind those that it holds. -/
def Link.extended (link : Link (Array Int32)) (values : List Int32) : Link (Array Int32) :=
  { link with values := link.values ++ values.toArray }

theorem Link.extended_nil (link : Link (Array Int32)) : link.extended [] = link := by
  simp [extended]

theorem Link.extended_extended (link : Link (Array Int32)) (vs ws : List Int32) :
    (link.extended vs).extended ws = link.extended (vs ++ ws) := by
  simp [extended]

namespace Position

theorem step_eq_iff {p q : Position} {d : Direction} : p.step d = q ↔ q.step d.opposite = p := by
  constructor
  · rintro rfl
    exact step_step_opposite p d
  · rintro rfl
    simpa using step_step_opposite q d.opposite

theorem step_eq_step_iff {p : Position} {d e : Direction} : p.step d = p.step e ↔ d = e := by
  constructor
  · intro h
    have hcol := congrArg Position.col h
    have hrow := congrArg Position.row h
    cases d <;> cases e <;> simp only [Position.step] at hcol hrow <;> first | rfl | omega
  · rintro rfl
    rfl

/-- The way from one position to the next and the way back. -/
theorem step_eq_and_opposite_eq_iff {p q : Position} {d e : Direction} :
    q.step e = p ∧ e.opposite = d ↔ q = p.step d ∧ e = d.opposite := by
  constructor
  · rintro ⟨rfl, rfl⟩
    simp
  · rintro ⟨rfl, rfl⟩
    simp

end Position

namespace Board

/-- Two boards of one size, with the same inputs and after as many ticks. -/
structure SameFrame (b c : Board) : Prop where
  width : b.width = c.width
  height : b.height = c.height
  inputs : b.inputs = c.inputs
  ticks : b.ticks = c.ticks

theorem SameFrame.refl (b : Board) : b.SameFrame b := ⟨rfl, rfl, rfl, rfl⟩

theorem SameFrame.trans {a b c : Board} (hab : a.SameFrame b) (hbc : b.SameFrame c) :
    a.SameFrame c where
  width := hab.width.trans hbc.width
  height := hab.height.trans hbc.height
  inputs := hab.inputs.trans hbc.inputs
  ticks := hab.ticks.trans hbc.ticks

theorem SameFrame.contains_eq {b c : Board} (h : b.SameFrame c) (p : Position) :
    b.contains p = c.contains p := by
  rw [Bool.eq_iff_iff, contains_iff, contains_iff, h.width, h.height]

/-- A change of a node changes nothing else. -/
theorem set_frame (b : Board) (p : Position) (n : Node) :
    (b.set p n).SameFrame b ∧ (b.set p n).outputs = b.outputs := by
  unfold set
  split
  · exact ⟨⟨rfl, rfl, rfl, rfl⟩, rfl⟩
  · exact ⟨.refl b, rfl⟩

theorem modify_frame (b : Board) (p : Position) (f : Node → Node) :
    (b.modify p f).SameFrame b ∧ (b.modify p f).outputs = b.outputs := by
  unfold modify
  split
  · exact set_frame b p _
  · exact ⟨.refl b, rfl⟩

/-- What the node at `p` sends in direction `d` if it is visited. -/
def sends (b : Board) (p : Position) (d : Direction) : Option Int32 :=
  (b.node? p).bind fun n => n.step.1.outgoing d

/-- What a visit to `p` offers to the mailboxes of the node at `q`. -/
def offersTo (b : Board) (p q : Position) (e : Direction) : Option Int32 :=
  if q.step e = p then b.sends p e.opposite else none

/-- What a visit to `p` sends to the position `q`. -/
def sendsTo (b : Board) (p q : Position) : List Int32 :=
  Direction.all.filterMap fun d => if p.step d = q then b.sends p d else none

variable {b : Board}

/-! ## Sending on one side -/

/-- Sends what leaves the node at `p` in direction `d`, if something does. -/
def emit (p : Position) (out : Direction → Option Int32) (b : Board) (d : Direction) : Board :=
  match out d with
  | some value => b.deliver p (d, value)
  | none => b

section Emit

variable (b : Board) (p : Position) (out : Direction → Option Int32)

theorem emit_frame (d : Direction) : (b.emit p out d).SameFrame b := by
  unfold emit
  split
  · next value _ =>
    obtain ⟨hframe, -⟩ := modify_frame b (p.step d) (·.receive d.opposite value)
    exact ⟨hframe.width, hframe.height, hframe.inputs, hframe.ticks⟩
  · exact .refl b

theorem node?_emit (q : Position) (d : Direction) : (b.emit p out d).node? q =
    (b.node? q).map (·.offered fun e => if q.step e = p ∧ e.opposite = d then out d else none) := by
  unfold emit
  cases hout : out d with
  | none => simp [Node.offered_none]
  | some value =>
    have hmodify : (b.deliver p (d, value)).node? q =
        (b.modify (p.step d) (·.receive d.opposite value)).node? q := node?_mk _ _ _ _ _
    rw [hmodify, node?_modify]
    simp only [Position.step_eq_and_opposite_eq_iff]
    split
    · next hq => simp [hq, Node.receive_eq_offered]
    · next hq => simp [hq, Node.offered_none]

theorem outputs_emit (d : Direction) : (b.emit p out d).outputs = b.outputs.mapLinks
    fun t link => link.extended (if p.step d = t then (out d).toList else []) := by
  unfold emit
  cases hout : out d with
  | none => simp [Link.extended_nil, Registry.mapLinks_self]
  | some value =>
    have hmodify : (b.deliver p (d, value)).outputs =
        b.outputs.modify (p.step d) fun link => { link with values := link.values.push value } := by
      obtain ⟨-, houtputs⟩ := modify_frame b (p.step d) (·.receive d.opposite value)
      simp only [deliver, houtputs]
    rw [hmodify, Registry.modify_eq_mapLinks]
    congr 1
    funext t link
    by_cases ht : t = p.step d
    · simp [ht, Link.extended]
    · have hother : ¬ p.step d = t := fun h => ht h.symm
      simp [ht, hother, Link.extended_nil]

/-! ## Sending on several sides -/

theorem foldl_emit_frame (ds : List Direction) : (ds.foldl (emit p out) b).SameFrame b := by
  induction ds generalizing b with
  | nil => exact .refl b
  | cons d ds ih => exact (ih (b.emit p out d)).trans (emit_frame b p out d)

theorem node?_foldl_emit (q : Position) (ds : List Direction) :
    (ds.foldl (emit p out) b).node? q = (b.node? q).map
      (·.offered fun e => if q.step e = p ∧ e.opposite ∈ ds then out e.opposite else none) := by
  induction ds generalizing b with
  | nil => simp [Node.offered_none]
  | cons d ds ih =>
    rw [List.foldl_cons, ih, node?_emit, Option.map_map]
    congr 1
    funext n
    simp only [Function.comp, Node.offered_offered]
    congr 1
    funext e
    by_cases he : q.step e = p
    · by_cases hd : e.opposite = d
      · cases hout : out d <;> simp [he, hd, hout]
      · simp [he, hd]
    · simp [he]

theorem outputs_foldl_emit (ds : List Direction) :
    (ds.foldl (emit p out) b).outputs = b.outputs.mapLinks fun t link =>
      link.extended (ds.filterMap fun d => if p.step d = t then out d else none) := by
  induction ds generalizing b with
  | nil => simp [Link.extended_nil, Registry.mapLinks_self]
  | cons d ds ih =>
    rw [List.foldl_cons, ih, outputs_emit, Registry.mapLinks_mapLinks]
    congr 1
    funext t link
    rw [Link.extended_extended]
    congr 1
    by_cases ht : p.step d = t
    · cases hout : out d <;> simp [ht, hout]
    · simp [ht]

end Emit

/-! ## Visits -/

theorem visit_of_node?_none {p : Position} (h : b.node? p = none) : b.visit p = b := by
  rw [visit, h]

theorem visit_of_node?_some {p : Position} {n : Node} (h : b.node? p = some n) : b.visit p =
    Direction.all.foldl (emit p n.step.1.outgoing) (b.set p n.step.1.drained) := by
  rw [visit, h]
  simp only [Node.sent_eq_filterMap, List.foldl_filterMap]
  congr 1
  funext b d
  unfold emit
  cases n.step.1.outgoing d <;> rfl

/-- A visit changes neither the size of the board nor inputs and ticks. -/
theorem visit_frame (b : Board) (p : Position) : (b.visit p).SameFrame b := by
  cases h : b.node? p with
  | none =>
    rw [visit_of_node?_none h]
    exact .refl b
  | some n =>
    obtain ⟨hframe, -⟩ := set_frame b p n.step.1.drained
    rw [visit_of_node?_some h]
    exact (foldl_emit_frame _ p n.step.1.outgoing Direction.all).trans hframe

/-- A visit makes its own node step and offers values to the neighbours of that node. -/
theorem node?_visit (b : Board) (p q : Position) : (b.visit p).node? q =
    if q = p then (b.node? p).map fun n => n.step.1.drained
    else (b.node? q).map (·.offered (b.offersTo p q)) := by
  cases h : b.node? p with
  | none =>
    have hoffers : b.offersTo p q = fun _ => none := by
      funext e
      simp [offersTo, sends, h]
    rw [visit_of_node?_none h, hoffers]
    split
    · next hq => rw [hq, h, Option.map_none]
    · simp [Node.offered_none]
  | some n =>
    have hoffers : b.offersTo p q =
        fun e => if q.step e = p ∧ e.opposite ∈ Direction.all then n.step.1.outgoing e.opposite
          else none := by
      funext e
      simp [offersTo, sends, h, Direction.mem_all]
    rw [visit_of_node?_some h, node?_foldl_emit, node?_set, ← hoffers]
    by_cases hq : q = p
    · have hself : b.offersTo p q = fun _ => none := by
        funext e
        rw [offersTo, if_neg (hq ▸ Position.step_ne q e)]
      rw [hself, if_pos ⟨hq, contains_of_node? h⟩, if_pos hq, Option.map_some,
        Node.offered_none, Option.map_some]
    · simp [hq]

/-- A visit appends what its node sends to the outputs there, and changes no other output. -/
theorem outputs_visit (b : Board) (p : Position) :
    (b.visit p).outputs = b.outputs.mapLinks fun q link => link.extended (b.sendsTo p q) := by
  cases h : b.node? p with
  | none =>
    have hsends : ∀ q, b.sendsTo p q = [] := by
      intro q
      simp [sendsTo, sends, h]
    rw [visit_of_node?_none h]
    simp only [hsends, Link.extended_nil, Registry.mapLinks_self]
  | some n =>
    have hsends : ∀ d, b.sends p d = n.step.1.outgoing d := by
      intro d
      rw [sends, h, Option.bind_some]
    obtain ⟨-, houtputs⟩ := set_frame b p n.step.1.drained
    rw [visit_of_node?_some h, outputs_foldl_emit, houtputs]
    simp only [sendsTo, hsends]

/-! ## Visits in a row -/

theorem visitAll_cons (b : Board) (p : Position) (ps : List Position) :
    b.visitAll (p :: ps) = (b.visit p).visitAll ps := rfl

theorem visitAll_append (b : Board) (ps qs : List Position) :
    b.visitAll (ps ++ qs) = (b.visitAll ps).visitAll qs := List.foldl_append

theorem visitAll_frame (b : Board) (ps : List Position) : (b.visitAll ps).SameFrame b := by
  induction ps generalizing b with
  | nil => exact .refl b
  | cons p ps ih => exact (ih (b.visit p)).trans (visit_frame b p)

/-- The board when the visits to `ps` come to `p`. -/
def upTo (b : Board) (ps : List Position) (p : Position) : Board :=
  b.visitAll (ps.takeWhile (· ≠ p))

/-- What the node at `p` sends in direction `d` during visits to `ps`, where it has one turn. -/
def sentDuring (b : Board) (ps : List Position) (p : Position) (d : Direction) : Option Int32 :=
  if p ∈ ps then (b.upTo ps p).sends p d else none

theorem sentDuring_of_not_mem {ps : List Position} {p : Position} (h : p ∉ ps) (d : Direction) :
    b.sentDuring ps p d = none := if_neg h

theorem sentDuring_cons (b : Board) (q : Position) (ps : List Position) (p : Position)
    (d : Direction) : b.sentDuring (q :: ps) p d =
      if p = q then b.sends p d else (b.visit q).sentDuring ps p d := by
  by_cases h : p = q
  · subst h
    simp [sentDuring, upTo, visitAll]
  · have hq : q ≠ p := fun hqp => h hqp.symm
    simp [sentDuring, upTo, visitAll, h, hq]

theorem sentDuring_append_of_mem {ps : List Position} {p : Position} (h : p ∈ ps)
    (qs : List Position) (d : Direction) :
    b.sentDuring (ps ++ qs) p d = b.sentDuring ps p d := by
  induction ps generalizing b with
  | nil => cases h
  | cons q ps ih =>
    rw [List.cons_append, sentDuring_cons, sentDuring_cons]
    split
    · rfl
    · next hpq => exact ih (List.mem_of_ne_of_mem hpq h)

theorem sentDuring_append_of_not_mem {ps : List Position} {p : Position} (h : p ∉ ps)
    (qs : List Position) (d : Direction) :
    b.sentDuring (ps ++ qs) p d = (b.visitAll ps).sentDuring qs p d := by
  induction ps generalizing b with
  | nil => rfl
  | cons q ps ih =>
    rw [List.mem_cons, not_or] at h
    rw [List.cons_append, sentDuring_cons, if_neg h.1, ih h.2]
    rfl

/-- Visits to other nodes offer a node what its neighbours among them send towards it. -/
theorem node?_visitAll {ps : List Position} (hps : ps.Nodup) {q : Position} (hq : q ∉ ps) :
    (b.visitAll ps).node? q = (b.node? q).map
      (·.offered fun e => b.sentDuring ps (q.step e) e.opposite) := by
  induction ps generalizing b with
  | nil => simp [visitAll, sentDuring, Node.offered_none]
  | cons p ps ih =>
    obtain ⟨hp, hps⟩ := List.nodup_cons.mp hps
    rw [List.mem_cons, not_or] at hq
    rw [visitAll_cons, ih hps hq.2, node?_visit, if_neg hq.1, Option.map_map]
    congr 1
    funext n
    simp only [Function.comp, Node.offered_offered]
    congr 1
    funext e
    rw [sentDuring_cons, offersTo]
    split
    · next he => rw [he, sentDuring_of_not_mem hp, Option.or_none]
    · rw [Option.none_or]

end Board

end NodeGrid
