import NodeGrid.Board.Registry
import NodeGrid.Node.Basic
import NodeGrid.Program.Fault

/-!
# Boards

A board is a grid of cells, each empty or with a node, and the links at its edge. Cells are stored
column by column, which is also the order in which they are visited (`positions_eq_flatMap`).

The view is `node?`. Different positions have different cells (`index?_inj`), so a change shows at
its own position only (`node?_set`, `node?_modify`), and nothing else is in the cells
(`ext_node?`). `place`, `fill`, `load`, `addInput`, `addOutput` and `drainOutput` set a board up;
`step` in the module on ticks runs it.
-/

namespace NodeGrid

structure Board where
  width : Nat
  height : Nat
  cells : Vector (Option Node) (width * height)
  inputs : Registry (List Int32) := {}
  outputs : Registry (Array Int32) := {}
  ticks : Nat := 0

/-- Why an operation on a board was refused. -/
inductive BoardError where
  | outOfBounds (position : Position) (width height : Nat)
  | noNode (position : Position)
  | parse (error : ParseError)
  deriving DecidableEq

namespace BoardError

def message : BoardError → String
  | outOfBounds p width height =>
    "Position " ++ p.render ++ " is outside the " ++ toString width ++ "x" ++ toString height ++
      " grid"
  | noNode p => "No core placed at " ++ p.render
  | parse e => "Parse error: " ++ e.message

end BoardError

namespace Board

/-- A board without nodes and links. -/
def empty (width height : Nat) : Board :=
  { width, height, cells := .replicate _ none }

def size (b : Board) : Nat := b.width * b.height

/-! ## Cells -/

theorem index_lt {width height col row : Nat} (hc : col < width) (hr : row < height) :
    col * height + row < width * height :=
  calc
    col * height + row < col * height + height := by omega
    _ = (col + 1) * height := by rw [Nat.add_mul, Nat.one_mul]
    _ ≤ width * height := Nat.mul_le_mul_right height hc

/-- The place of a cell in the storage, if the position lies in the grid. -/
def index? (b : Board) (p : Position) : Option (Fin (b.width * b.height)) :=
  if h : (0 ≤ p.col ∧ p.col < b.width) ∧ (0 ≤ p.row ∧ p.row < b.height) then
    some ⟨p.col.toNat * b.height + p.row.toNat, index_lt (by omega) (by omega)⟩
  else none

/-- Whether a position lies in the grid. -/
def contains (b : Board) (p : Position) : Bool := (b.index? p).isSome

/-- The node at a position; there is none in an empty cell or outside the grid. -/
def node? (b : Board) (p : Position) : Option Node :=
  match b.index? p with
  | some i => b.cells[i]
  | none => none

/-- Puts a node into a cell; nothing changes outside the grid. -/
def set (b : Board) (p : Position) (n : Node) : Board :=
  match b.index? p with
  | some i => { b with cells := b.cells.set i (some n) }
  | none => b

/-- Changes the node at a position, if there is one. -/
def modify (b : Board) (p : Position) (f : Node → Node) : Board :=
  match b.node? p with
  | some n => b.set p (f n)
  | none => b

/-- The position of the cell at a place in the storage of columns of the given height. -/
def positionAt (height place : Nat) : Position :=
  ⟨Int.ofNat (place / height), Int.ofNat (place % height)⟩

/-- The positions of all cells, in the order of storage. -/
def positions (b : Board) : List Position := (List.range b.size).map (positionAt b.height)

/-- The nodes in the order of `positions`. -/
def nodes (b : Board) : List Node := b.positions.filterMap b.node?

/-! ## The view of a board -/

theorem index?_eq_some_iff {b : Board} {p : Position} {i : Fin (b.width * b.height)} :
    b.index? p = some i ↔
      (0 ≤ p.col ∧ p.col < b.width) ∧ (0 ≤ p.row ∧ p.row < b.height) ∧
        i.val = p.col.toNat * b.height + p.row.toNat := by
  unfold index?
  split
  · next h =>
    simp only [Option.some.injEq, Fin.ext_iff]
    exact ⟨fun he => ⟨h.1, h.2, he.symm⟩, fun he => he.2.2.symm⟩
  · next h =>
    simp only [reduceCtorEq, false_iff]
    exact fun he => h ⟨he.1, he.2.1⟩

theorem index_inj {height col row col' row' : Nat} (hr : row < height) (hr' : row' < height)
    (h : col * height + row = col' * height + row') : col = col' ∧ row = row' := by
  rcases Nat.lt_trichotomy col col' with hlt | rfl | hlt
  · have hm := Nat.mul_le_mul_right height (Nat.succ_le_of_lt hlt)
    rw [Nat.succ_mul] at hm
    omega
  · omega
  · have hm := Nat.mul_le_mul_right height (Nat.succ_le_of_lt hlt)
    rw [Nat.succ_mul] at hm
    omega

/-- Different positions have different cells. -/
theorem index?_inj {b : Board} {p q : Position} {i : Fin (b.width * b.height)}
    (hp : b.index? p = some i) (hq : b.index? q = some i) : p = q := by
  rw [index?_eq_some_iff] at hp hq
  obtain ⟨hpc, hpr, hpi⟩ := hp
  obtain ⟨hqc, hqr, hqi⟩ := hq
  obtain ⟨hc, hr⟩ := index_inj (by omega) (by omega) (hpi.symm.trans hqi)
  ext <;> omega

theorem contains_iff {b : Board} {p : Position} :
    b.contains p ↔ (0 ≤ p.col ∧ p.col < b.width) ∧ (0 ≤ p.row ∧ p.row < b.height) := by
  unfold contains index?
  split <;> simp_all

theorem positionAt_index {height row : Nat} (col : Nat) (hr : row < height) :
    positionAt height (col * height + row) = ⟨Int.ofNat col, Int.ofNat row⟩ := by
  have hh : 0 < height := Nat.zero_lt_of_lt hr
  have hd : (col * height + row) / height = col := by
    rw [Nat.add_comm, Nat.add_mul_div_right _ _ hh, Nat.div_eq_of_lt hr, Nat.zero_add]
  have hm : (col * height + row) % height = row := by
    rw [Nat.add_comm, Nat.add_mul_mod_self_right, Nat.mod_eq_of_lt hr]
  rw [positionAt, hd, hm]

/-- Every cell has a position, and `positionAt` finds it. -/
theorem index?_positionAt (b : Board) (i : Fin (b.width * b.height)) :
    b.index? (positionAt b.height i.val) = some i := by
  have hi := i.isLt
  have hh : 0 < b.height := Nat.pos_of_ne_zero fun h => by simp [h] at hi
  have hc : i.val / b.height < b.width :=
    Nat.div_lt_of_lt_mul (Nat.lt_of_lt_of_eq hi (Nat.mul_comm ..))
  have hr : i.val % b.height < b.height := Nat.mod_lt _ hh
  refine index?_eq_some_iff.mpr ⟨⟨Int.natCast_nonneg _, Int.ofNat_lt.mpr hc⟩,
    ⟨Int.natCast_nonneg _, Int.ofNat_lt.mpr hr⟩, ?_⟩
  exact (Nat.div_add_mod' ..).symm

theorem mem_positions_iff {b : Board} {p : Position} : p ∈ b.positions ↔ b.contains p := by
  simp only [positions, List.mem_map, List.mem_range, contains, Option.isSome_iff_exists]
  constructor
  · rintro ⟨place, hp, rfl⟩
    exact ⟨⟨place, hp⟩, index?_positionAt b ⟨place, hp⟩⟩
  · rintro ⟨i, hi⟩
    exact ⟨i.val, i.isLt, index?_inj (index?_positionAt b i) hi⟩

/-- The order of storage is column by column, and in a column from the top. -/
theorem positions_eq_flatMap (b : Board) :
    b.positions = (List.range b.width).flatMap fun col =>
      (List.range b.height).map fun row => ⟨Int.ofNat col, Int.ofNat row⟩ := by
  have columns (width : Nat) : (List.range (width * b.height)).map (positionAt b.height) =
      (List.range width).flatMap fun col =>
        (List.range b.height).map fun row => ⟨Int.ofNat col, Int.ofNat row⟩ := by
    induction width with
    | zero => simp
    | succ width ih =>
      rw [Nat.succ_mul, List.range_add, List.map_append, ih, List.range_succ, List.flatMap_append,
        List.flatMap_singleton, List.map_map]
      congr 1
      apply List.map_congr_left
      intro row hr
      exact positionAt_index width (List.mem_range.mp hr)
  exact columns b.width

@[simp] theorem contains_set {b : Board} {p q : Position} {n : Node} :
    (b.set p n).contains q = b.contains q := by
  unfold set
  split <;> rfl

/-- A change shows at its own position only, and only in the grid. -/
theorem node?_set {b : Board} {p q : Position} {n : Node} :
    (b.set p n).node? q = if q = p ∧ b.contains p then some n else b.node? q := by
  unfold set
  cases hp : b.index? p with
  | none => simp [contains, hp]
  | some i =>
    have hi : ∀ cells : Vector (Option Node) (b.width * b.height),
        ({ b with cells := cells } : Board).index? q = b.index? q := fun _ => rfl
    simp only [node?, contains, hp, Option.isSome_some, and_true]
    rw [hi]
    cases hq : b.index? q with
    | none =>
      have : q ≠ p := by
        rintro rfl
        simp [hp] at hq
      simp [this]
    | some j =>
      by_cases hqp : q = p
      · subst hqp
        have : i = j := by simpa [hp] using hq
        subst this
        simp
      · have hij : i.val ≠ j.val := fun h => hqp (index?_inj hq (Fin.ext h ▸ hp))
        simp [hqp, Vector.getElem_set_ne, hij]

theorem contains_of_node? {b : Board} {p : Position} {n : Node} (h : b.node? p = some n) :
    b.contains p := by
  unfold node? at h
  unfold contains
  split at h
  · next hi => simp [hi]
  · contradiction

/-- The view is of the cells only. -/
theorem node?_mk (b : Board) (inputs : Registry (List Int32)) (outputs : Registry (Array Int32))
    (ticks : Nat) (p : Position) :
    ({ b with inputs, outputs, ticks } : Board).node? p = b.node? p := by
  have hindex : index? { b with inputs, outputs, ticks } p = b.index? p := rfl
  unfold node?
  rw [hindex]
  split <;> rfl

theorem node?_modify {b : Board} {p q : Position} {f : Node → Node} :
    (b.modify p f).node? q = if q = p then (b.node? q).map f else b.node? q := by
  unfold modify
  cases hp : b.node? p with
  | none =>
    simp only
    split
    · next h => simp [h, hp]
    · rfl
  | some n =>
    simp only [node?_set, contains_of_node? hp, and_true]
    split
    · next h => simp [h, hp]
    · rfl

/-- Boards with the same view, links and ticks are the same. -/
theorem ext_node? {b c : Board} (hw : b.width = c.width) (hh : b.height = c.height)
    (hn : ∀ p, b.node? p = c.node? p) (hi : b.inputs = c.inputs) (ho : b.outputs = c.outputs)
    (ht : b.ticks = c.ticks) : b = c := by
  obtain ⟨width, height, cells, inputs, outputs, ticks⟩ := b
  obtain ⟨width', height', cells', inputs', outputs', ticks'⟩ := c
  simp only at hw hh hi ho ht
  subst hw hh hi ho ht
  congr 1
  apply Vector.ext
  intro i hi
  have hp := index?_positionAt ⟨width, height, cells, inputs, outputs, ticks⟩ ⟨i, hi⟩
  have hp' : index? ⟨width, height, cells', inputs, outputs, ticks⟩ (positionAt height i) =
      some ⟨i, hi⟩ := hp
  have hn := hn (positionAt height i)
  unfold node? at hn
  rw [hp, hp'] at hn
  exact hn

/-! ## Nodes -/

/-- Puts a fresh node at a position and links it and its neighbours with each other. -/
def settle (b : Board) (p : Position) : Board :=
  let links : LinkSet := .ofFn fun d => (b.node? (p.step d)).isSome
  (Direction.all.foldl (fun b d => b.modify (p.step d) (·.link d.opposite)) b).set p { links }

def place (b : Board) (p : Position) : Except BoardError Board :=
  if b.contains p then .ok (b.settle p) else .error (.outOfBounds p b.width b.height)

/-- Puts a fresh node into every cell. -/
def fill (b : Board) : Board := b.positions.foldl settle b

/-- Installs a program on the node at a position, also a faulty one, and lists its faults. -/
def load (b : Board) (p : Position) (text : String) : Except BoardError (Board × List Fault) :=
  if b.contains p then
    match Program.parse text with
    | .error e => .error (.parse e)
    | .ok program =>
      match b.node? p with
      | none => .error (.noNode p)
      | some n => .ok (b.set p { n with program }, program.faults n.links)
  else .error (.outOfBounds p b.width b.height)

/-! ## Links -/

/-- Links the node that a link at `p` points at back to it. -/
def attach (b : Board) (p : Position) (d : Direction) : Board :=
  b.modify (p.step d) (·.link d.opposite)

def addInput (b : Board) (p : Position) (d : Direction) (values : List Int32) : Board :=
  let b := b.attach p d
  { b with inputs := b.inputs.register p d values }

def addOutput (b : Board) (p : Position) (d : Direction) : Board :=
  let b := b.attach p d
  { b with outputs := b.outputs.register p d #[] }

/-- What the output at a position has collected. -/
def collected (b : Board) (p : Position) : List Int32 :=
  match b.outputs.find? p with
  | some link => link.values.toList
  | none => []

/-- Forgets what the output at a position has collected. -/
def drainOutput (b : Board) (p : Position) : Board :=
  { b with outputs := b.outputs.modify p fun link => { link with values := #[] } }

end Board

end NodeGrid
