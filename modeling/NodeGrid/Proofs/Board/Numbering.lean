import Mathlib.Data.List.Infix
import Mathlib.Data.List.Nodup
import NodeGrid.Proofs.Board.InputOrder
import NodeGrid.Proofs.Board.Sending

/-!
# The numbers of links

A link that is registered first gets the number of links that there are, and one that is registered
anew keeps the number it had. Inputs and outputs are numbered each for themselves, and share
positions freely. Nothing else that is done to a board touches a number.

* `IsDense.register`, `numbering_prefix_register`: numbers are places in the order, and stay so.
* `advances_handle`: all that an operation does to a registry.
* `links_numbered`: inputs and outputs are numbered by their places for good, and what is registered
  anew changes one link of one registry.
-/

namespace NodeGrid

namespace Registry

variable {α : Type} {r s : Registry α} {p : Position} {d : Direction} {values : α}

/-- Each position is registered once, and each link has the number of its place in the order. -/
structure IsDense (r : Registry α) : Prop where
  nodup : r.positions.Nodup
  id_eq : ∀ (place : Nat) (p : Position) (link : Link α),
    r.entries[place]? = some (p, link) → link.id = place

theorem getElem?_numbering (r : Registry α) (place : Nat) :
    r.numbering[place]? = r.entries[place]?.map fun entry => (entry.1, entry.2.id) :=
  List.getElem?_map ..

/-- Only the numbers matter. -/
theorem IsDense.of_numbering_eq (h : r.IsDense) (hs : s.numbering = r.numbering) : s.IsDense where
  nodup := by
    rw [← map_fst_numbering, hs, map_fst_numbering]
    exact h.nodup
  id_eq place p link hlink := by
    have hnumber : r.numbering[place]? = some (p, link.id) := by
      rw [← hs, getElem?_numbering, hlink, Option.map_some]
    rw [getElem?_numbering] at hnumber
    obtain ⟨⟨q, other⟩, hother, heq⟩ := Option.map_eq_some_iff.mp hnumber
    rw [← (Prod.mk.inj heq).2]
    exact h.id_eq place q other hother

theorem isDense_empty : ({} : Registry α).IsDense where
  nodup := List.nodup_nil
  id_eq _ _ _ hlink := by cases hlink

theorem numbering_mapLinks (r : Registry α) {f : Position → Link α → Link α}
    (hf : ∀ p link, (f p link).id = link.id) : (r.mapLinks f).numbering = r.numbering := by
  simp only [numbering, mapLinks, List.map_map, Function.comp_def, hf]

/-! ## Registering -/

/-- The link of an entry is the one that is found at its position. -/
theorem find?_eq_some_of_mem (hnodup : r.positions.Nodup) {link : Link α}
    (hmem : (p, link) ∈ r.entries) : r.find? p = some link := by
  have hsome : (r.entries.find? (·.1 = p)).isSome :=
    List.find?_isSome.mpr ⟨(p, link), hmem, decide_eq_true rfl⟩
  obtain ⟨entry, hentry⟩ := Option.isSome_iff_exists.mp hsome
  have hposition : entry.1 = p := by simpa using List.find?_some hentry
  have heq : entry = (p, link) :=
    List.inj_on_of_nodup_map hnodup (List.mem_of_find?_eq_some hentry) hmem hposition
  rw [find?, hentry, heq, Option.map_some]

/-- What is registered anew changes the one link, in place, and leaves its number. -/
theorem register_of_mem (hnodup : r.positions.Nodup) (hp : p ∈ r.positions) :
    r.register p d values = r.modify p fun link => { link with direction := d, values } := by
  rw [register, if_pos (mem_positions_iff.mp hp), modify, modify]
  congr 1
  apply List.map_congr_left
  rintro ⟨q, link⟩ hmem
  by_cases hq : q = p
  · subst hq
    rw [if_pos rfl, if_pos rfl, idAt, find?_eq_some_of_mem hnodup hmem]
  · rw [if_neg hq, if_neg hq]

/-- What is registered first comes last in the order. -/
theorem entries_register_of_not_mem (hp : p ∉ r.positions) :
    (r.register p d values).entries = r.entries ++ [(p, ⟨r.size, d, values⟩)] := by
  rw [mem_positions_iff, Option.not_isSome_iff_eq_none] at hp
  rw [register, idAt, hp]
  rfl

theorem numbering_register_of_mem (hnodup : r.positions.Nodup) (hp : p ∈ r.positions) :
    (r.register p d values).numbering = r.numbering := by
  rw [register_of_mem hnodup hp]
  exact numbering_modify r p fun _ => rfl

theorem IsDense.register (h : r.IsDense) (p : Position) (d : Direction) (values : α) :
    (r.register p d values).IsDense := by
  by_cases hp : p ∈ r.positions
  · exact h.of_numbering_eq (numbering_register_of_mem h.nodup hp)
  · refine ⟨?_, fun place q link hlink => ?_⟩
    · rw [positions_register, if_neg hp, ← List.concat_eq_append]
      exact h.nodup.concat hp
    · rw [entries_register_of_not_mem hp, List.getElem?_append] at hlink
      split at hlink
      · exact h.id_eq place q link hlink
      · next hlast =>
        rw [List.getElem?_singleton] at hlink
        split at hlink
        · cases hlink
          show r.entries.length = place
          omega
        · cases hlink

theorem numbering_prefix_register (h : r.IsDense) (p : Position) (d : Direction) (values : α) :
    r.numbering <+: (r.register p d values).numbering := by
  by_cases hp : p ∈ r.positions
  · rw [numbering_register_of_mem h.nodup hp]
  · rw [numbering, numbering, entries_register_of_not_mem hp, List.map_append]
    exact List.prefix_append _ _

/-! ## Steps of a registry -/

/-- From one registry to the next one no number changes, or a position is registered. -/
def Advances (r s : Registry α) : Prop :=
  s.numbering = r.numbering ∨ ∃ p d values, s = r.register p d values

theorem Advances.of_eq (h : s = r) : r.Advances s := Or.inl (congrArg numbering h)

theorem IsDense.advances (h : r.IsDense) (hs : r.Advances s) :
    s.IsDense ∧ r.numbering <+: s.numbering := by
  rcases hs with heq | ⟨p, d, values, rfl⟩
  · exact ⟨h.of_numbering_eq heq, heq ▸ List.prefix_refl _⟩
  · exact ⟨h.register p d values, numbering_prefix_register h p d values⟩

end Registry

namespace Board

open Registry

variable {b : Board}

/-! ## Steps of a board -/

theorem numbering_outputs_visitAll (b : Board) (ps : List Position) :
    (b.visitAll ps).outputs.numbering = b.outputs.numbering := by
  refine List.foldlRecOn ps visit (motive := fun c => c.outputs.numbering = b.outputs.numbering)
    rfl ?_
  intro c hc p _
  rw [outputs_visit, numbering_mapLinks, hc]
  exact fun _ _ => rfl

theorem numbering_outputs_step (b : Board) :
    b.step.outputs.numbering = b.outputs.numbering := by
  obtain ⟨-, -, houtputs, -⟩ := feed_frame b
  show (b.feed.visitAll b.feed.positions).outputs.numbering = _
  rw [numbering_outputs_visitAll, houtputs]

theorem advances_of_frame {c : Board} (h : c.SameFrame b ∧ c.outputs = b.outputs) :
    b.inputs.Advances c.inputs ∧ b.outputs.Advances c.outputs :=
  ⟨.of_eq h.1.inputs, .of_eq h.2⟩

/-- An operation on a board registers one link at most, and changes no number. -/
theorem advances_perform (b : Board) (op : Operation) :
    b.inputs.Advances (b.perform op).inputs ∧ b.outputs.Advances (b.perform op).outputs := by
  cases op with
  | place p =>
    simp only [perform, place]
    by_cases hp : b.contains p
    · rw [if_pos hp]
      exact advances_of_frame (settle_frame b p)
    · rw [if_neg hp]
      exact ⟨.of_eq rfl, .of_eq rfl⟩
  | fill => exact advances_of_frame (fill_frame b)
  | addInput p d values =>
    obtain ⟨hframe, houtputs⟩ := modify_frame b (p.step d) (·.link d.opposite)
    refine ⟨Or.inr ⟨p, d, values, ?_⟩, .of_eq houtputs⟩
    rw [← hframe.inputs]
    rfl
  | addOutput p d =>
    obtain ⟨hframe, houtputs⟩ := modify_frame b (p.step d) (·.link d.opposite)
    refine ⟨.of_eq hframe.inputs, Or.inr ⟨p, d, #[], ?_⟩⟩
    rw [← houtputs]
    rfl
  | drainOutput p => exact ⟨.of_eq rfl, Or.inl (numbering_modify b.outputs p fun _ => rfl)⟩
  | load p text =>
    simp only [perform]
    split
    · next after faults hload =>
      obtain ⟨program, n, -, -, rfl, -⟩ := load_eq_ok_iff.mp hload
      exact advances_of_frame (set_frame b p _)
    · exact ⟨.of_eq rfl, .of_eq rfl⟩
  | step => exact ⟨Or.inl (numbering_step b), Or.inl (numbering_outputs_step b)⟩

theorem advances_handle (b : Board) (handling : Handling) :
    b.inputs.Advances (b.handle handling).inputs ∧
      b.outputs.Advances (b.handle handling).outputs := by
  cases handling with
  | board op => exact advances_perform b op
  | node p op => exact advances_of_frame (modify_frame b p (·.perform op))

/-! ## Runs -/

/-- Links that are numbered by their places stay so, and keep places and numbers. -/
theorem isDense_handleAll (hinputs : b.inputs.IsDense) (houtputs : b.outputs.IsDense)
    (hs : List Handling) :
    ((b.handleAll hs).inputs.IsDense ∧ b.inputs.numbering <+: (b.handleAll hs).inputs.numbering) ∧
      ((b.handleAll hs).outputs.IsDense ∧
        b.outputs.numbering <+: (b.handleAll hs).outputs.numbering) := by
  induction hs generalizing b with
  | nil => exact ⟨⟨hinputs, List.prefix_refl _⟩, houtputs, List.prefix_refl _⟩
  | cons handling hs ih =>
    obtain ⟨hin, hout⟩ := advances_handle b handling
    obtain ⟨hinputs', hinprefix⟩ := hinputs.advances hin
    obtain ⟨houtputs', houtprefix⟩ := houtputs.advances hout
    obtain ⟨⟨hin, hinrest⟩, hout, houtrest⟩ := ih hinputs' houtputs'
    exact ⟨⟨hin, hinprefix.trans hinrest⟩, hout, houtprefix.trans houtrest⟩

/-- Whatever is done to a board that was empty at first and to its nodes, inputs and outputs are
numbered by their places in their orders, each position once. Whatever is done further, they keep
their places and numbers. An input that is registered anew gets another direction and other values,
and an output another direction and no values; all other inputs and outputs are what they were. -/
theorem links_numbered (width height : Nat) (hs : List Handling) :
    let b := (empty width height).handleAll hs
    (b.inputs.IsDense ∧ b.outputs.IsDense) ∧
      (∀ later, b.inputs.numbering <+: (b.handleAll later).inputs.numbering ∧
        b.outputs.numbering <+: (b.handleAll later).outputs.numbering) ∧
      (∀ p ∈ b.inputs.positions, ∀ d values, (b.addInput p d values).outputs = b.outputs ∧
        (b.addInput p d values).inputs =
          b.inputs.modify p fun link => { link with direction := d, values }) ∧
      ∀ p ∈ b.outputs.positions, ∀ d, (b.addOutput p d).inputs = b.inputs ∧
        (b.addOutput p d).outputs =
          b.outputs.modify p fun link => { link with direction := d, values := #[] } := by
  intro b
  obtain ⟨⟨hinputs, -⟩, houtputs, -⟩ :=
    isDense_handleAll (b := empty width height) isDense_empty isDense_empty hs
  refine ⟨⟨hinputs, houtputs⟩, fun later => ?_, fun p hp d values => ?_, fun p hp d => ?_⟩
  · obtain ⟨⟨-, hin⟩, -, hout⟩ := isDense_handleAll hinputs houtputs later
    exact ⟨hin, hout⟩
  · obtain ⟨hframe, hout⟩ := modify_frame b (p.step d) (·.link d.opposite)
    refine ⟨hout, ?_⟩
    rw [← register_of_mem hinputs.nodup hp, ← hframe.inputs]
    rfl
  · obtain ⟨hframe, hout⟩ := modify_frame b (p.step d) (·.link d.opposite)
    refine ⟨hframe.inputs, ?_⟩
    rw [← register_of_mem houtputs.nodup hp, ← hout]
    rfl

/-- Two inputs and an output, which has the position of the second input. A tick has moved one value
into the node, and the node has sent one to the output. -/
def sharing : List Handling :=
  [.board .fill, .board (.addInput ⟨-1, 0⟩ .right [1, 2]), .board (.addOutput ⟨0, -1⟩ .down),
    .board (.addInput ⟨0, -1⟩ .down []), .board (.load ⟨0, 0⟩ "MOV LEFT UP"), .board .step]

/-- The first input is registered anew, and then the output. Each time nothing else changes. -/
theorem links_numbered_sharing :
    let b := (empty 1 1).handleAll sharing
    b.inputs.entries = [(⟨-1, 0⟩, ⟨0, .right, [2]⟩), (⟨0, -1⟩, ⟨1, .down, []⟩)] ∧
      b.outputs.entries = [(⟨0, -1⟩, ⟨0, .down, #[1]⟩)] ∧
      ((b.addInput ⟨-1, 0⟩ .up [5]).outputs = b.outputs ∧
        (b.addInput ⟨-1, 0⟩ .up [5]).inputs.entries =
          [(⟨-1, 0⟩, ⟨0, .up, [5]⟩), (⟨0, -1⟩, ⟨1, .down, []⟩)]) ∧
      (b.addOutput ⟨0, -1⟩ .left).inputs = b.inputs ∧
        (b.addOutput ⟨0, -1⟩ .left).outputs.entries = [(⟨0, -1⟩, ⟨0, .left, #[]⟩)] := by
  intro b
  have hinputs : b.inputs = { entries :=
      [(⟨-1, 0⟩, ⟨0, .right, [2]⟩), (⟨0, -1⟩, ⟨1, .down, []⟩)] } := by decide +kernel
  have houtputs : b.outputs = { entries := [(⟨0, -1⟩, ⟨0, .down, #[1]⟩)] } := by decide +kernel
  have hfirst : ⟨-1, 0⟩ ∈ b.inputs.positions := by rw [hinputs]; decide
  have houtput : ⟨0, -1⟩ ∈ b.outputs.positions := by rw [houtputs]; decide
  obtain ⟨-, -, hinput, houtput'⟩ := links_numbered 1 1 sharing
  obtain ⟨hout, hin⟩ := hinput ⟨-1, 0⟩ hfirst .up [5]
  obtain ⟨hin', hout'⟩ := houtput' ⟨0, -1⟩ houtput .left
  refine ⟨congrArg _ hinputs, congrArg _ houtputs, ⟨hout, ?_⟩, hin', ?_⟩
  · exact (congrArg _ hin).trans (by rw [hinputs]; decide)
  · exact (congrArg _ hout').trans (by rw [houtputs]; decide)

end Board

end NodeGrid
