import NodeGrid.Proofs.Program.Reports

/-!
# Links that are added

Links are added to a node after its program was checked. Of the checks of a command only two look at
the links, each at the side in its own slot, so a new link can only take back what was reported of
that side.

* `Fault.isMended`: the faults that added links take back.
* `Command.filter_sourceFaults`, `Command.filter_destinationFaults`: the checks that look at links.
* `Program.faults_of_more_links`: with more links there are the faults that were there before, in
  their order and without those that the new links take back.
-/

namespace NodeGrid

/-- The fault is that a side is not linked, and it is linked in `more`. -/
def Fault.isMended (links more : LinkSet) (fault : Fault) : Bool :=
  match fault.cause, fault.command.operand fault.slot with
  | .direction, .side d => d ∈ more ∧ d ∉ links
  | _, _ => false

theorem Fault.isMended_of_cause_ne {links more : LinkSet} {fault : Fault}
    (h : fault.cause ≠ .direction) : fault.isMended links more = false := by
  unfold isMended
  split
  · next hcause _ => exact absurd hcause h
  · rfl

namespace Command

variable {links more : LinkSet} {program : Program} {c : Command} {slot : Slot}

/-- A check that does not look for links loses no fault. -/
theorem filter_of_cause_ne {faults : List Fault}
    (h : ∀ fault ∈ faults, fault.cause ≠ .direction) :
    faults.filter (fun fault => !fault.isMended links more) = faults := by
  refine List.filter_eq_self.mpr fun fault hfault => ?_
  rw [Fault.isMended_of_cause_ne (h fault hfault), Bool.not_false]

/-- A check of the links at a side loses its fault when that side is linked. -/
theorem filter_side (h : ∀ d ∈ links, d ∈ more) {d : Direction} (hside : c.operand slot = .side d) :
    (if d ∈ links then [] else [(⟨c, slot, .direction⟩ : Fault)]).filter
        (fun fault => !fault.isMended links more) =
      if d ∈ more then [] else [⟨c, slot, .direction⟩] := by
  by_cases hd : d ∈ links
  · rw [if_pos hd, if_pos (h d hd), List.filter_nil]
  · by_cases hm : d ∈ more <;> simp [Fault.isMended, hside, hd, hm]

theorem filter_sourceFaults (h : ∀ d ∈ links, d ∈ more) :
    (c.sourceFaults links).filter (fun fault => !fault.isMended links more) =
      c.sourceFaults more := by
  unfold sourceFaults
  cases hprimary : c.primary with
  | side d => exact filter_side h hprimary
  | number value | acc => rfl
  | empty | label name | text word => rfl

theorem filter_destinationFaults (h : ∀ d ∈ links, d ∈ more) :
    (c.destinationFaults links).filter (fun fault => !fault.isMended links more) =
      c.destinationFaults more := by
  unfold destinationFaults
  cases hsecondary : c.secondary with
  | side d => exact filter_side h hsecondary
  | acc => rfl
  | empty | label name | text word | number value =>
    exact filter_of_cause_ne fun fault hfault => by simp [cause_of_mem_ite hfault]

/-- The checks that look at links lose the faults of the links that were added. -/
theorem filter_faults (h : ∀ d ∈ links, d ∈ more) :
    (c.faults links program).filter (fun fault => !fault.isMended links more) =
      c.faults more program := by
  have hempty (slot : Slot) : (c.emptyFaults slot).filter
      (fun fault => !fault.isMended links more) = c.emptyFaults slot :=
    filter_of_cause_ne fun fault hfault => by simp [cause_of_mem_emptyFaults hfault]
  have htarget : (c.targetFaults program).filter (fun fault => !fault.isMended links more) =
      c.targetFaults program :=
    filter_of_cause_ne fun fault hfault => by
      rcases cause_of_mem_targetFaults hfault with hcause | hcause <;> simp [hcause]
  have hdistance : (c.distanceFaults program).filter (fun fault => !fault.isMended links more) =
      c.distanceFaults program :=
    filter_of_cause_ne fun fault hfault => by simp [cause_of_mem_distanceFaults hfault]
  have hduplicate : (c.duplicateFaults program).filter (fun fault => !fault.isMended links more) =
      c.duplicateFaults program :=
    filter_of_cause_ne fun fault hfault => by simp [cause_of_mem_duplicateFaults hfault]
  unfold faults
  cases c.opcode with
  | nop | swp | sav | neg => simp only [List.filter_append, hempty]
  | mov => simp only [List.filter_append, filter_sourceFaults h, filter_destinationFaults h]
  | add | sub => simp only [List.filter_append, hempty, filter_sourceFaults h]
  | jmp | jez | jnz | jgz | jlz => simp only [List.filter_append, hempty, htarget]
  | jro => simp only [List.filter_append, hempty, hdistance]
  | lbl => exact hduplicate

end Command

namespace Program

/-- With more links a program has the faults that it had before, in their order, but for those of
sides that are linked now. -/
theorem faults_of_more_links {links more : LinkSet} (h : ∀ d ∈ links, d ∈ more)
    (program : Program) :
    program.faults more =
      (program.faults links).filter fun fault => !fault.isMended links more := by
  rw [faults, faults, List.filter_flatMap]
  simp only [Command.filter_faults h]

/-- A command that reads from one side and writes to another, and a jump by what comes from the
second one, which is not looked for. -/
def crossing : Program :=
  [{ line := 0, opcode := .mov, primary := .side .up, secondary := .side .down },
    { line := 1, opcode := .add, primary := .side .down, secondary := .number 1 },
    { line := 2, opcode := .jro, primary := .side .down }]

/-- With a link below, what is reported of the side there goes, and the rest stays. -/
theorem faults_of_more_links_crossing :
    (∀ d ∈ LinkSet.empty, d ∈ LinkSet.ofList [.down]) ∧
      (crossing.faults .empty).map (fun f => (f.line, f.slot, f.cause)) =
        [(0, .primary, .direction), (0, .secondary, .direction), (1, .secondary, .parameter),
          (1, .primary, .direction)] ∧
      crossing.faults (.ofList [.down]) =
        (crossing.faults .empty).filter (fun f => !f.isMended .empty (.ofList [.down])) ∧
      (crossing.faults (.ofList [.down])).map (fun f => (f.line, f.slot, f.cause)) =
        [(0, .primary, .direction), (1, .secondary, .parameter)] := by
  have h : ∀ d ∈ LinkSet.empty, d ∈ LinkSet.ofList [.down] :=
    fun d hd => absurd hd (LinkSet.not_mem_empty d)
  exact ⟨h, by decide, faults_of_more_links h crossing, by decide⟩

end Program

end NodeGrid
