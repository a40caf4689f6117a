import NodeGrid.Direction

/-!
# Sides

`Sides α` holds one entry for each direction. The view is `get`; `get_set` and `get_ofFn` say what
the operations do to it, and `ext_get` that nothing else is in it.

`LinkSet` is the set of directions on which a node is linked.
-/

namespace NodeGrid

/-- One entry for each side of a node. -/
structure Sides (α : Type) where
  up : α
  right : α
  down : α
  left : α
  deriving DecidableEq

namespace Sides

variable {α : Type}

/-- The same entry on every side. -/
def replicate (a : α) : Sides α := ⟨a, a, a, a⟩

/-- The entry of `f` on every side. -/
def ofFn (f : Direction → α) : Sides α := ⟨f .up, f .right, f .down, f .left⟩

def get (p : Sides α) : Direction → α
  | .up => p.up
  | .right => p.right
  | .down => p.down
  | .left => p.left

def set (p : Sides α) (d : Direction) (a : α) : Sides α :=
  match d with
  | .up => { p with up := a }
  | .right => { p with right := a }
  | .down => { p with down := a }
  | .left => { p with left := a }

/-- The entries in the order of sides. -/
def toList (p : Sides α) : List α := Direction.all.map p.get

@[simp] theorem get_replicate (a : α) (d : Direction) : (replicate a).get d = a := by
  cases d <;> rfl

@[simp] theorem get_ofFn (f : Direction → α) (d : Direction) : (ofFn f).get d = f d := by
  cases d <;> rfl

/-- A change shows on its own side only. -/
theorem get_set (p : Sides α) (d e : Direction) (a : α) :
    (p.set d a).get e = if e = d then a else p.get e := by
  cases d <;> cases e <;> rfl

@[simp] theorem get_set_self (p : Sides α) (d : Direction) (a : α) : (p.set d a).get d = a := by
  rw [get_set, if_pos rfl]

theorem get_set_of_ne (p : Sides α) {d e : Direction} (a : α) (h : e ≠ d) :
    (p.set d a).get e = p.get e := by
  rw [get_set, if_neg h]

theorem ext_get {p q : Sides α} (h : ∀ d, p.get d = q.get d) : p = q := by
  have hu := h .up
  have hr := h .right
  have hd := h .down
  have hl := h .left
  cases p
  cases q
  simp_all [get]

end Sides

/-! ## Link sets -/

/-- The directions on which a node is linked. -/
abbrev LinkSet := Sides Bool

namespace LinkSet

def empty : LinkSet := Sides.replicate false

instance : Membership Direction LinkSet where
  mem links d := links.get d = true

instance (d : Direction) (links : LinkSet) : Decidable (d ∈ links) :=
  inferInstanceAs (Decidable (links.get d = true))

theorem mem_def {d : Direction} {links : LinkSet} : d ∈ links ↔ links.get d = true := Iff.rfl

def insert (links : LinkSet) (d : Direction) : LinkSet := links.set d true

theorem mem_insert {links : LinkSet} {d e : Direction} :
    e ∈ links.insert d ↔ e = d ∨ e ∈ links := by
  simp only [mem_def, insert, Sides.get_set]
  split <;> simp_all

theorem not_mem_empty (d : Direction) : d ∉ empty := by
  simp [mem_def, empty]

def ofList (ds : List Direction) : LinkSet := ds.foldl insert empty

/-- The members in the order of sides. -/
def toList (links : LinkSet) : List Direction := Direction.all.filter (· ∈ links)

@[simp] theorem mem_toList {links : LinkSet} {d : Direction} : d ∈ links.toList ↔ d ∈ links := by
  simp [toList, Direction.mem_all]

end LinkSet

end NodeGrid
