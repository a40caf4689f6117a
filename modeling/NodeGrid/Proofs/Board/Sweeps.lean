import NodeGrid.Proofs.Board.Operations
import NodeGrid.Proofs.Board.Visits

/-!
# Orders of visits

A sweep visits every cell once, and each after its left and its upper neighbour. The order of
storage is one sweep, row by row is another.

* `visit_visit_comm`: visits to two cells that are no neighbours may be exchanged. They may have a
  neighbour in common, which then gets the values into two mailboxes.
* `foldl_eq_of_perm`: where such exchanges are all that two orders differ in, they come to the same.
* `visitAll_eq_of_isSweep`: so all sweeps come to the same, if the outputs are outside the grid.
-/

namespace NodeGrid

/-! ## Actions in different orders -/

section Reorder

variable {α β : Type} {f : β → α → β} {P : β → Prop}

/-- An action may come first if it may be exchanged with all that come before it. -/
theorem foldl_append_cons (hP : ∀ s a, P s → P (f s a)) {a : α} {us : List α}
    (hcomm : ∀ u ∈ us, ∀ s, P s → f (f s u) a = f (f s a) u) (vs : List α) {s : β} (hs : P s) :
    (us ++ a :: vs).foldl f s = (us ++ vs).foldl f (f s a) := by
  induction us generalizing s with
  | nil => rfl
  | cons u us ih =>
    have hus : ∀ u' ∈ us, ∀ s, P s → f (f s u') a = f (f s a) u' :=
      fun u' hu' => hcomm u' (List.mem_cons_of_mem u hu')
    rw [List.cons_append, List.foldl_cons, ih hus (hP s u hs), List.cons_append, List.foldl_cons,
      hcomm u List.mem_cons_self s hs]

/-- Two orders come to the same if neither has `a` before `b` where `R b a`, and what `R` does not
relate may be exchanged. -/
theorem foldl_eq_of_perm {R : α → α → Prop} (hP : ∀ s a, P s → P (f s a))
    (hcomm : ∀ a b, a ≠ b → ¬ R a b → ¬ R b a → ∀ s, P s → f (f s a) b = f (f s b) a)
    {as bs : List α} (hperm : as.Perm bs) (hnodup : as.Nodup)
    (has : as.Pairwise fun a b => ¬ R b a) (hbs : bs.Pairwise fun a b => ¬ R b a) {s : β}
    (hs : P s) : as.foldl f s = bs.foldl f s := by
  induction as generalizing bs s with
  | nil => rw [List.nil_perm.mp hperm]
  | cons a as ih =>
    obtain ⟨ha, hnodup⟩ := List.nodup_cons.mp hnodup
    obtain ⟨hafter, has⟩ := List.pairwise_cons.mp has
    obtain ⟨us, vs, rfl⟩ := List.append_of_mem (hperm.mem_iff.mp List.mem_cons_self)
    have hrest : as.Perm (us ++ vs) := (hperm.trans List.perm_middle).cons_inv
    obtain ⟨hus, hvs, hcross⟩ := List.pairwise_append.mp hbs
    -- What comes before `a` in one order comes after it in the other.
    have hfirst : ∀ u ∈ us, ∀ s, P s → f (f s u) a = f (f s a) u := by
      intro u hu
      have hmem : u ∈ as := hrest.mem_iff.mpr (List.mem_append_left vs hu)
      have hne : u ≠ a := fun h => ha (h ▸ hmem)
      exact hcomm u a hne (hafter u hmem) (hcross u hu a List.mem_cons_self)
    have hsub : (us ++ vs).Pairwise fun a b => ¬ R b a :=
      hbs.sublist ((List.sublist_cons_self a vs).append_left us)
    rw [foldl_append_cons hP hfirst vs hs, List.foldl_cons]
    exact ih hrest hnodup has hsub (hP s a hs)

end Reorder

namespace Board

/-- The outputs are at positions outside the grid. -/
def OutputsOutside (b : Board) : Prop := ∀ p ∈ b.outputs.positions, ¬ b.contains p

/-- An order of visits to all cells, each after its left and its upper neighbour. -/
structure IsSweep (b : Board) (order : List Position) : Prop where
  perm : order.Perm b.positions
  ordered : order.Pairwise fun p q => q ≠ p.step .left ∧ q ≠ p.step .up

variable {b : Board} {p q : Position}

/-! ## Exchanging two visits -/

theorem OutputsOutside.visit (h : b.OutputsOutside) (p : Position) :
    (b.visit p).OutputsOutside := by
  intro q hq
  rw [outputs_visit, Registry.positions_mapLinks] at hq
  rw [(visit_frame b p).contains_eq]
  exact h q hq

/-- Outside the grid only one cell is near. -/
theorem contains_of_step_eq (hp : b.contains p) (hq : b.contains q) (hne : p ≠ q)
    {d e : Direction} (h : p.step d = q.step e) : b.contains (p.step d) := by
  rw [contains_iff] at hp hq ⊢
  have hcol := congrArg Position.col h
  have hrow := congrArg Position.row h
  cases d <;> cases e <;> simp only [Position.step] at hcol hrow ⊢ <;>
    first | omega | exact absurd (Position.ext (by omega) (by omega)) hne

theorem exists_step_of_sendsTo_ne_nil {t : Position} (h : b.sendsTo p t ≠ []) :
    b.contains p ∧ ∃ d, p.step d = t := by
  obtain ⟨value, hvalue⟩ := List.exists_mem_of_ne_nil _ h
  obtain ⟨d, -, hd⟩ := List.mem_filterMap.mp hvalue
  split at hd
  · next ht =>
    obtain ⟨n, hn, -⟩ := Option.bind_eq_some_iff.mp hd
    exact ⟨contains_of_node? hn, d, ht⟩
  · cases hd

/-- Of two cells only one sends to a position outside the grid. -/
theorem sendsTo_eq_nil_or {t : Position} (hne : p ≠ q) (ht : ¬ b.contains t) :
    b.sendsTo p t = [] ∨ b.sendsTo q t = [] := by
  by_cases hp : b.sendsTo p t = []
  · exact Or.inl hp
  by_cases hq : b.sendsTo q t = []
  · exact Or.inr hq
  obtain ⟨hpin, d, hd⟩ := exists_step_of_sendsTo_ne_nil hp
  obtain ⟨hqin, e, he⟩ := exists_step_of_sendsTo_ne_nil hq
  exact absurd (hd ▸ contains_of_step_eq hpin hqin hne (hd.trans he.symm)) ht

/-- A visit does not change what other cells send, its neighbours apart. -/
theorem sends_visit (hne : q ≠ p) (hnear : ∀ e, q.step e ≠ p) (d : Direction) :
    (b.visit p).sends q d = b.sends q d := by
  have hoffers : b.offersTo p q = fun _ => none := by
    funext e
    rw [offersTo, if_neg (hnear e)]
  unfold sends
  rw [node?_visit, if_neg hne, hoffers]
  simp only [Node.offered_none, Option.map_id_fun', id]

theorem offersTo_visit (hne : q ≠ p) (hnear : ∀ e, q.step e ≠ p) (r : Position) :
    (b.visit p).offersTo q r = b.offersTo q r := by
  funext e
  simp only [offersTo, sends_visit hne hnear]

theorem sendsTo_visit (hne : q ≠ p) (hnear : ∀ e, q.step e ≠ p) (t : Position) :
    (b.visit p).sendsTo q t = b.sendsTo q t := by
  simp only [sendsTo, sends_visit hne hnear]

/-- Two cells offer to different mailboxes of a node. -/
theorem offersTo_or_comm (hne : p ≠ q) (r : Position) (e : Direction) :
    (b.offersTo p r e).or (b.offersTo q r e) = (b.offersTo q r e).or (b.offersTo p r e) := by
  unfold offersTo
  split
  · next hp =>
    have hq : r.step e ≠ q := fun hq => hne (hp.symm.trans hq)
    rw [if_neg hq, Option.or_none, Option.none_or]
  · rw [Option.none_or, Option.or_none]

/-- The node at `r` after two visits to cells that are no neighbours. -/
theorem node?_visit_visit (hne : p ≠ q) (hnear : ∀ e, q.step e ≠ p) (r : Position) :
    ((b.visit p).visit q).node? r =
      if r = p then (b.node? p).map fun n => n.step.1.drained
      else if r = q then (b.node? q).map fun n => n.step.1.drained
      else (b.node? r).map
        (·.offered fun e => (b.offersTo p r e).or (b.offersTo q r e)) := by
  have hself : ∀ p q : Position, (∀ e, q.step e ≠ p) → b.offersTo p q = fun _ => none := by
    intro p q h
    funext e
    rw [offersTo, if_neg (h e)]
  have hnear' : ∀ e, p.step e ≠ q := fun e he =>
    hnear e.opposite (Position.step_eq_iff.mp he)
  rw [node?_visit, offersTo_visit hne.symm hnear, node?_visit, node?_visit]
  by_cases hrp : r = p
  · rw [if_neg (hrp ▸ hne), if_pos hrp, if_pos hrp, hrp, hself q p hnear']
    simp only [Node.offered_none, Option.map_id_fun', id]
  · by_cases hrq : r = q
    · rw [if_pos hrq, if_neg hne.symm, if_neg hrp, if_pos hrq, hself p q hnear]
      simp [Node.offered_none]
    · rw [if_neg hrq, if_neg hrp, if_neg hrp, if_neg hrq, Option.map_map]
      congr 1
      funext n
      simp only [Function.comp, Node.offered_offered]

/-- Visits to two cells that are no neighbours may be exchanged. -/
theorem visit_visit_comm (hout : b.OutputsOutside) (hne : p ≠ q) (hnear : ∀ e, q.step e ≠ p) :
    (b.visit p).visit q = (b.visit q).visit p := by
  have hnear' : ∀ e, p.step e ≠ q := fun e he =>
    hnear e.opposite (Position.step_eq_iff.mp he)
  have hpq := (visit_frame (b.visit p) q).trans (visit_frame b p)
  have hqp := (visit_frame (b.visit q) p).trans (visit_frame b q)
  apply ext_node?
  · rw [hpq.width, hqp.width]
  · rw [hpq.height, hqp.height]
  · intro r
    rw [node?_visit_visit hne hnear, node?_visit_visit hne.symm hnear']
    simp only [offersTo_or_comm hne]
    by_cases hrp : r = p
    · rw [if_pos hrp, if_neg (hrp ▸ hne), if_pos hrp]
    · rw [if_neg hrp, if_neg hrp]
  · rw [hpq.inputs, hqp.inputs]
  · simp only [outputs_visit, Registry.mapLinks_mapLinks, Link.extended_extended,
      sendsTo_visit hne.symm hnear, sendsTo_visit hne hnear']
    apply Registry.mapLinks_congr
    intro t ht
    funext link
    rcases sendsTo_eq_nil_or hne (hout t ht) with hnil | hnil <;>
      rw [hnil, List.nil_append, List.append_nil]
  · rw [hpq.ticks, hqp.ticks]

/-! ## Sweeps -/

theorem positionAt_ordered {height i j : Nat} (hij : i < j) :
    positionAt height j ≠ (positionAt height i).step .left ∧
      positionAt height j ≠ (positionAt height i).step .up := by
  have hdiv : i / height ≤ j / height := Nat.div_le_div_right (Nat.le_of_lt hij)
  have hi := Nat.div_add_mod i height
  have hj := Nat.div_add_mod j height
  constructor
  · intro h
    have hcol := congrArg Position.col h
    simp only [positionAt, Position.step, Int.ofNat_eq_natCast] at hcol
    omega
  · intro h
    have hcol := congrArg Position.col h
    have hrow := congrArg Position.row h
    simp only [positionAt, Position.step, Int.ofNat_eq_natCast] at hcol hrow
    have hcolumn : j / height = i / height := by omega
    rw [hcolumn] at hj
    omega

theorem nodup_positions (b : Board) : b.positions.Nodup := by
  rw [List.Nodup, positions, List.pairwise_map]
  refine List.pairwise_lt_range.imp fun {i j} hij h => ?_
  have hcol := congrArg Position.col h
  have hrow := congrArg Position.row h
  simp only [positionAt, Int.ofNat_eq_natCast] at hcol hrow
  have hi := Nat.div_add_mod i b.height
  have hj := Nat.div_add_mod j b.height
  rw [show i / b.height = j / b.height by omega] at hi
  omega

theorem IsSweep.nodup {order : List Position} (h : b.IsSweep order) : order.Nodup :=
  h.perm.nodup_iff.mpr (nodup_positions b)

/-- The order of storage is a sweep. -/
theorem isSweep_positions (b : Board) : b.IsSweep b.positions where
  perm := .refl _
  ordered := by
    rw [positions, List.pairwise_map]
    exact List.pairwise_lt_range.imp positionAt_ordered

/-- All cells row by row. -/
def rows (b : Board) : List Position :=
  (List.range b.height).flatMap fun row =>
    (List.range b.width).map fun col => ⟨Int.ofNat col, Int.ofNat row⟩

theorem mem_rows_iff : p ∈ b.rows ↔ b.contains p := by
  simp only [rows, List.mem_flatMap, List.mem_map, List.mem_range, contains_iff]
  constructor
  · rintro ⟨row, hrow, col, hcol, rfl⟩
    simp only [Int.ofNat_eq_natCast]
    omega
  · rintro ⟨⟨hc, hcw⟩, hr, hrh⟩
    exact ⟨p.row.toNat, by omega, p.col.toNat, by omega,
      Position.ext (Int.toNat_of_nonneg hc) (Int.toNat_of_nonneg hr)⟩

theorem pairwise_rows (b : Board) :
    b.rows.Pairwise fun p q => p.row < q.row ∨ p.row = q.row ∧ p.col < q.col := by
  rw [rows, List.pairwise_flatMap]
  constructor
  · intro row _
    rw [List.pairwise_map]
    exact List.pairwise_lt_range.imp fun h => Or.inr ⟨rfl, Int.ofNat_lt.mpr h⟩
  · refine List.pairwise_lt_range.imp fun h => ?_
    intro p hp q hq
    obtain ⟨_, _, rfl⟩ := List.mem_map.mp hp
    obtain ⟨_, _, rfl⟩ := List.mem_map.mp hq
    exact Or.inl (Int.ofNat_lt.mpr h)

/-- Row by row is a sweep too. -/
theorem isSweep_rows (b : Board) : b.IsSweep b.rows where
  perm := by
    have hnodup : b.rows.Nodup := by
      refine (pairwise_rows b).imp fun {p q} h hpq => ?_
      subst hpq
      omega
    exact (List.perm_ext_iff_of_nodup hnodup (nodup_positions b)).mpr fun p =>
      mem_rows_iff.trans mem_positions_iff.symm
  ordered := by
    refine (pairwise_rows b).imp fun {p q} h => ⟨?_, ?_⟩
    · rintro rfl
      simp only [Position.step] at h
      omega
    · rintro rfl
      simp only [Position.step] at h
      omega

/-- Whichever sweep the visits follow, the board after them is the same. -/
theorem visitAll_eq_of_isSweep {order : List Position} (h : b.IsSweep order)
    (hout : b.OutputsOutside) : b.visitAll order = b.visitAll b.positions := by
  have hordered : ∀ {ps : List Position}, b.IsSweep ps →
      ps.Pairwise fun p q => ¬ (q = p.step .left ∨ q = p.step .up) := by
    intro ps hps
    exact hps.ordered.imp not_or.mpr
  refine foldl_eq_of_perm (P := OutputsOutside) (fun c p hc => hc.visit p) ?_ h.perm h.nodup
    (hordered h) (hordered (isSweep_positions b)) hout
  -- No neighbour of a cell is unrelated to it, so unrelated cells are no neighbours.
  intro p q hne hpq hqp c hc
  apply visit_visit_comm hc hne
  intro e he
  cases e
  case left => exact hpq (Or.inl he.symm)
  case up => exact hpq (Or.inr he.symm)
  case right => exact hqp (Or.inl (Position.step_eq_iff.mp he).symm)
  case down => exact hqp (Or.inr (Position.step_eq_iff.mp he).symm)

/-- Five nodes and a hole. What the node in the corner sends leaves on the right in the
same tick. -/
def crossing : Board :=
  (empty 3 2).performAll [.place ⟨0, 0⟩, .place ⟨1, 0⟩, .place ⟨0, 1⟩, .place ⟨1, 1⟩, .place ⟨2, 1⟩,
    .addOutput ⟨3, 1⟩ .left, .load ⟨0, 0⟩ "MOV 7 RIGHT", .load ⟨1, 0⟩ "MOV LEFT DOWN",
    .load ⟨0, 1⟩ "MOV 3 RIGHT", .load ⟨1, 1⟩ "MOV UP RIGHT", .load ⟨2, 1⟩ "MOV LEFT RIGHT"]

/-- Row by row the value goes the same way through the grid, and in the same tick. -/
theorem visitAll_rows_crossing :
    crossing.IsSweep crossing.rows ∧ crossing.OutputsOutside ∧
      crossing.rows ≠ crossing.positions ∧
      (crossing.visitAll crossing.rows).collected ⟨3, 1⟩ = [7] ∧
      crossing.visitAll crossing.rows = crossing.visitAll crossing.positions := by
  have hout : crossing.OutputsOutside := by
    unfold OutputsOutside
    decide +kernel
  refine ⟨isSweep_rows _, hout, by decide +kernel, by decide +kernel, ?_⟩
  exact visitAll_eq_of_isSweep (isSweep_rows _) hout

end Board

end NodeGrid
