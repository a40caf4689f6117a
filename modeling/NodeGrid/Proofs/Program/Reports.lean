import NodeGrid.Program.Fault

/-!
# Where faults are reported

Each check of a command looks at one of its slots and blames that slot of the command, but for the
check of a label, which blames the other labels of its name. So what is reported about a command
that is no label comes from its own checks.

* `command_of_mem_faults`: the faults of a command are faults of its own, or a label blames another.
* `opcode_of_cause_duplicate`: each check has causes of its own, and only labels find duplicates.
* `reports_iff`: what is reported about a command that is no label.
-/

namespace NodeGrid

namespace Command

variable {links : LinkSet} {program : Program} {c : Command} {fault : Fault} {slot : Slot}
  {cause : FaultCause}

/-! ## One check -/

theorem at_of_mem_singleton (h : fault ∈ [(⟨c, slot, cause⟩ : Fault)]) :
    fault.command = c ∧ fault.slot = slot := by
  rw [List.mem_singleton.mp h]
  exact ⟨rfl, rfl⟩

theorem at_of_mem_ite {passes : Prop} [Decidable passes]
    (h : fault ∈ if passes then [] else [(⟨c, slot, cause⟩ : Fault)]) :
    fault.command = c ∧ fault.slot = slot := by
  split at h
  · cases h
  · exact at_of_mem_singleton h

theorem at_of_mem_emptyFaults (h : fault ∈ c.emptyFaults slot) :
    fault.command = c ∧ fault.slot = slot :=
  at_of_mem_ite h

theorem at_of_mem_sourceFaults (h : fault ∈ c.sourceFaults links) :
    fault.command = c ∧ fault.slot = .primary := by
  unfold sourceFaults at h
  cases hprimary : c.primary with rw [hprimary] at h
  | number value | acc => cases h
  | side d => exact at_of_mem_ite h
  | empty | label name | text word => exact at_of_mem_singleton h

theorem at_of_mem_destinationFaults (h : fault ∈ c.destinationFaults links) :
    fault.command = c ∧ fault.slot = .secondary := by
  unfold destinationFaults at h
  cases hsecondary : c.secondary with rw [hsecondary] at h
  | acc => cases h
  | side d => exact at_of_mem_ite h
  | number value | empty | label name | text word => exact at_of_mem_ite h

theorem at_of_mem_targetFaults (h : fault ∈ c.targetFaults program) :
    fault.command = c ∧ fault.slot = .primary := by
  unfold targetFaults at h
  cases hprimary : c.primary with rw [hprimary] at h
  | text name => exact at_of_mem_ite h
  | number value | acc | side d | empty | label name => exact at_of_mem_singleton h

theorem at_of_mem_distanceFaults (h : fault ∈ c.distanceFaults program) :
    fault.command = c ∧ fault.slot = .primary := by
  unfold distanceFaults at h
  cases hprimary : c.primary with rw [hprimary] at h
  | number value =>
    dsimp only at h
    split at h
    · exact at_of_mem_singleton h
    · cases h
  | acc | side d => cases h
  | empty | label name | text word => exact at_of_mem_singleton h

theorem label?_of_mem_duplicateFaults (h : fault ∈ c.duplicateFaults program) :
    fault.command.label?.isSome ∧ fault.slot = .primary := by
  obtain ⟨other, hother, rfl⟩ := List.mem_map.mp h
  simp only [List.mem_filter, decide_eq_true_eq] at hother
  exact ⟨hother.2.1, rfl⟩

/-! ## What a check finds -/

theorem cause_of_mem_singleton (h : fault ∈ [(⟨c, slot, cause⟩ : Fault)]) :
    fault.cause = cause := by
  rw [List.mem_singleton.mp h]

theorem cause_of_mem_ite {passes : Prop} [Decidable passes]
    (h : fault ∈ if passes then [] else [(⟨c, slot, cause⟩ : Fault)]) : fault.cause = cause := by
  split at h
  · cases h
  · exact cause_of_mem_singleton h

theorem cause_of_mem_emptyFaults (h : fault ∈ c.emptyFaults slot) : fault.cause = .parameter :=
  cause_of_mem_ite h

theorem cause_of_mem_sourceFaults (h : fault ∈ c.sourceFaults links) :
    fault.cause = .parameter ∨ fault.cause = .direction := by
  unfold sourceFaults at h
  cases hprimary : c.primary with rw [hprimary] at h
  | number value | acc => cases h
  | side d => exact Or.inr (cause_of_mem_ite h)
  | empty | label name | text word => exact Or.inl (cause_of_mem_singleton h)

theorem cause_of_mem_destinationFaults (h : fault ∈ c.destinationFaults links) :
    fault.cause = .parameter ∨ fault.cause = .direction := by
  unfold destinationFaults at h
  cases hsecondary : c.secondary with rw [hsecondary] at h
  | acc => cases h
  | side d => exact Or.inr (cause_of_mem_ite h)
  | number value | empty | label name | text word => exact Or.inl (cause_of_mem_ite h)

theorem cause_of_mem_targetFaults (h : fault ∈ c.targetFaults program) :
    fault.cause = .parameter ∨ fault.cause = .label := by
  unfold targetFaults at h
  cases hprimary : c.primary with rw [hprimary] at h
  | text name => exact Or.inr (cause_of_mem_ite h)
  | number value | acc | side d | empty | label name => exact Or.inl (cause_of_mem_singleton h)

theorem cause_of_mem_distanceFaults (h : fault ∈ c.distanceFaults program) :
    fault.cause = .parameter := by
  unfold distanceFaults at h
  cases hprimary : c.primary with rw [hprimary] at h
  | number value =>
    dsimp only at h
    split at h
    · exact cause_of_mem_singleton h
    · cases h
  | acc | side d => cases h
  | empty | label name | text word => exact cause_of_mem_singleton h

theorem cause_of_mem_duplicateFaults (h : fault ∈ c.duplicateFaults program) :
    fault.cause = .duplicate := by
  obtain ⟨other, -, rfl⟩ := List.mem_map.mp h
  rfl

/-! ## All checks -/

/-- The faults of a command are faults of its own, or a label blames another label. -/
theorem command_of_mem_faults (h : fault ∈ c.faults links program) :
    fault.command = c ∨ (c.opcode = .lbl ∧ fault.command.opcode = .lbl) := by
  unfold faults at h
  cases hop : c.opcode with rw [hop] at h
  | nop | swp | sav | neg =>
    rcases List.mem_append.mp h with h | h
    · exact Or.inl (at_of_mem_emptyFaults h).1
    · exact Or.inl (at_of_mem_emptyFaults h).1
  | mov =>
    rcases List.mem_append.mp h with h | h
    · exact Or.inl (at_of_mem_sourceFaults h).1
    · exact Or.inl (at_of_mem_destinationFaults h).1
  | add | sub =>
    rcases List.mem_append.mp h with h | h
    · exact Or.inl (at_of_mem_emptyFaults h).1
    · exact Or.inl (at_of_mem_sourceFaults h).1
  | jmp | jez | jnz | jgz | jlz =>
    rcases List.mem_append.mp h with h | h
    · exact Or.inl (at_of_mem_targetFaults h).1
    · exact Or.inl (at_of_mem_emptyFaults h).1
  | jro =>
    rcases List.mem_append.mp h with h | h
    · exact Or.inl (at_of_mem_distanceFaults h).1
    · exact Or.inl (at_of_mem_emptyFaults h).1
  | lbl =>
    obtain ⟨name, hname⟩ := Option.isSome_iff_exists.mp (label?_of_mem_duplicateFaults h).1
    exact Or.inr ⟨rfl, opcode_of_label? hname⟩

/-- Only a label finds duplicates. -/
theorem opcode_of_cause_duplicate (h : fault ∈ c.faults links program)
    (hcause : fault.cause = .duplicate) : c.opcode = .lbl := by
  unfold faults at h
  cases hop : c.opcode with rw [hop] at h
  | nop | swp | sav | neg =>
    rcases List.mem_append.mp h with h | h <;> simp [cause_of_mem_emptyFaults h] at hcause
  | mov =>
    rcases List.mem_append.mp h with h | h
    · rcases cause_of_mem_sourceFaults h with h | h <;> simp [h] at hcause
    · rcases cause_of_mem_destinationFaults h with h | h <;> simp [h] at hcause
  | add | sub =>
    rcases List.mem_append.mp h with h | h
    · simp [cause_of_mem_emptyFaults h] at hcause
    · rcases cause_of_mem_sourceFaults h with h | h <;> simp [h] at hcause
  | jmp | jez | jnz | jgz | jlz =>
    rcases List.mem_append.mp h with h | h
    · rcases cause_of_mem_targetFaults h with h | h <;> simp [h] at hcause
    · simp [cause_of_mem_emptyFaults h] at hcause
  | jro =>
    rcases List.mem_append.mp h with h | h
    · simp [cause_of_mem_distanceFaults h] at hcause
    · simp [cause_of_mem_emptyFaults h] at hcause

end Command

namespace Program

variable {links : LinkSet} {program : Program} {c : Command} {slot : Slot}

/-- There is a fault for a slot of a command. -/
def Reports (links : LinkSet) (program : Program) (c : Command) (slot : Slot) : Prop :=
  ∃ fault ∈ program.faults links, fault.command = c ∧ fault.slot = slot

instance (links : LinkSet) (program : Program) (c : Command) (slot : Slot) :
    Decidable (Reports links program c slot) :=
  inferInstanceAs (Decidable (∃ fault ∈ program.faults links, _))

theorem not_reports_of_faults_eq_nil (hclean : program.faults links = []) :
    ¬ Reports links program c slot := by
  rintro ⟨fault, hfault, -⟩
  rw [hclean] at hfault
  cases hfault

/-- What is reported about a command that is no label, its own checks have found. -/
theorem reports_iff (hc : c ∈ program) (hop : c.opcode ≠ .lbl) :
    Reports links program c slot ↔ ∃ fault ∈ c.faults links program, fault.slot = slot := by
  constructor
  · rintro ⟨fault, hfault, rfl, hslot⟩
    obtain ⟨other, -, hother⟩ := List.mem_flatMap.mp hfault
    rcases Command.command_of_mem_faults hother with heq | ⟨-, hlabel⟩
    · exact ⟨fault, heq ▸ hother, hslot⟩
    · exact absurd hlabel hop
  · rintro ⟨fault, hfault, hslot⟩
    refine ⟨fault, List.mem_flatMap.mpr ⟨c, hc, hfault⟩, ?_, hslot⟩
    rcases Command.command_of_mem_faults hfault with heq | ⟨hlabel, -⟩
    · exact heq
    · exact absurd hlabel hop

end Program

end NodeGrid
