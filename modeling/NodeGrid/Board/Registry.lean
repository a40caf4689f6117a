import NodeGrid.Board.Position

/-!
# Links at the edge of the grid

A link is a queue at a position. It feeds values into the grid or collects them from it, and its
direction points into the grid. A registry holds the links of one role, one for each position, in
the order in which their positions were first registered; the number of a link is its place in that
order.

Registering at a position again replaces direction and values and keeps place and number.

* `find?_modify`, `find?_register`: a change shows at its own position only.
* `positions_modify`, `positions_register`: no position is forgotten or moved.
-/

namespace NodeGrid

structure Link (α : Type) where
  id : Nat
  direction : Direction
  values : α
  deriving DecidableEq

/-- The links of one role with their positions. -/
structure Registry (α : Type) where
  entries : List (Position × Link α) := []
  deriving DecidableEq

namespace Registry

variable {α : Type}

def find? (r : Registry α) (p : Position) : Option (Link α) :=
  (r.entries.find? (·.1 = p)).map (·.2)

def size (r : Registry α) : Nat := r.entries.length

/-- The positions in order of registration. -/
def positions (r : Registry α) : List Position := r.entries.map (·.1)

/-- Changes the link at a position, if there is one. -/
def modify (r : Registry α) (p : Position) (f : Link α → Link α) : Registry α :=
  { entries := r.entries.map fun entry => if entry.1 = p then (entry.1, f entry.2) else entry }

/-- The number of the link at a position, or the next free number. -/
def idAt (r : Registry α) (p : Position) : Nat :=
  match r.find? p with
  | some link => link.id
  | none => r.size

def register (r : Registry α) (p : Position) (direction : Direction) (values : α) : Registry α :=
  let link : Link α := { id := r.idAt p, direction, values }
  if (r.find? p).isSome then r.modify p fun _ => link
  else { entries := r.entries ++ [(p, link)] }

/-! ## The link at a position -/

theorem find?_modify (r : Registry α) (p q : Position) (f : Link α → Link α) :
    (r.modify p f).find? q = if q = p then (r.find? q).map f else r.find? q := by
  obtain ⟨entries⟩ := r
  simp only [find?, modify]
  induction entries with
  | nil => simp
  | cons entry rest ih =>
    obtain ⟨e, link⟩ := entry
    simp only [List.map_cons, List.find?_cons]
    by_cases hq : e = q
    · subst hq
      by_cases hp : e = p <;> simp [hp]
    · have he : (if e = p then (e, f link) else (e, link)).1 = e := by split <;> rfl
      simp only [he, hq, decide_false]
      exact ih

theorem positions_modify (r : Registry α) (p : Position) (f : Link α → Link α) :
    (r.modify p f).positions = r.positions := by
  simp only [positions, modify, List.map_map]
  apply List.map_congr_left
  intro entry _
  simp only [Function.comp]
  split <;> rfl

theorem mem_positions_iff {r : Registry α} {p : Position} :
    p ∈ r.positions ↔ (r.find? p).isSome := by
  simp [positions, find?, List.find?_isSome]

theorem find?_register (r : Registry α) (p q : Position) (d : Direction) (values : α) :
    (r.register p d values).find? q =
      if q = p then some { id := r.idAt p, direction := d, values } else r.find? q := by
  unfold register
  split
  · next h =>
    rw [find?_modify]
    split
    · next hq =>
      subst hq
      obtain ⟨link, hl⟩ := Option.isSome_iff_exists.mp h
      simp [hl]
    · rfl
  · next h =>
    simp only [find?, List.find?_append, Option.isSome_map, Bool.not_eq_true,
      Option.isSome_eq_false_iff, Option.isNone_iff_eq_none] at h ⊢
    by_cases hq : q = p
    · subst hq
      simp [h]
    · have : ¬ p = q := fun h => hq h.symm
      simp [hq, this]

theorem positions_register (r : Registry α) (p : Position) (d : Direction) (values : α) :
    (r.register p d values).positions =
      if p ∈ r.positions then r.positions else r.positions ++ [p] := by
  simp only [register, ← mem_positions_iff]
  split
  · exact positions_modify r p _
  · simp [positions]

end Registry

end NodeGrid
