import Mathlib.Data.Nat.Find
import NodeGrid.Proofs.Board.Feeding
import NodeGrid.Proofs.Board.Visits
import NodeGrid.Sample

/-!
# Limits on ticks

A board that waits for an output ticks until the output holds enough values, or until it has made as
many ticks as the limit allows. The output is looked at before the limit: a board that is past its
limit, or whose output holds enough values from the start, does not tick at all.

* `runUntil_eq`: the wait, one round at a time.
* `runUntil_of_stopsAfter`, `runUntil_of_never`: where it ends, in each of the two cases.
* `limit_decides_finishing`: the limit decides whether the wait ends well and nothing else, so a
  larger limit leaves what ends well as it is, also in the runs of samples.
-/

namespace NodeGrid

namespace Board

variable {b : Board} {p : Position} {count maxTicks t : Nat}

/-! ## Counting ticks -/

@[simp] theorem ticks_step (b : Board) : b.step.ticks = b.ticks + 1 := by
  obtain ⟨-, -, -, hfeed⟩ := feed_frame b
  have hvisits := (visitAll_frame b.feed b.feed.positions).ticks
  rw [← hfeed, ← hvisits]
  rfl

theorem ticks_steps (t : Nat) (b : Board) : (steps t b).ticks = b.ticks + t := by
  induction t generalizing b with
  | zero => rfl
  | succ t ih =>
    rw [steps, ih, ticks_step]
    omega

/-! ## The end of a wait -/

/-- Whether the output at `p` holds `count` values after `t` ticks. -/
def HoldsAfter (b : Board) (p : Position) (count t : Nat) : Prop :=
  count ≤ ((steps t b).collected p).length

instance (b : Board) (p : Position) (count t : Nat) : Decidable (b.HoldsAfter p count t) :=
  inferInstanceAs (Decidable (_ ≤ _))

/-- Whether `t` ticks are the fewest after which the output at `p` holds `count` values. -/
def StopsAfter (b : Board) (p : Position) (count t : Nat) : Prop :=
  b.HoldsAfter p count t ∧ ∀ s < t, ¬ b.HoldsAfter p count s

instance (b : Board) (p : Position) (count t : Nat) : Decidable (b.StopsAfter p count t) :=
  inferInstanceAs (Decidable (_ ∧ _))

/-- Whether the limit lets the board make `t` ticks. No limit forbids to make none. -/
def MayMake (b : Board) (maxTicks t : Nat) : Prop := t = 0 ∨ b.ticks + t ≤ maxTicks

theorem exists_stopsAfter (h : b.HoldsAfter p count t) : ∃ s ≤ t, b.StopsAfter p count s := by
  have hexists : ∃ s, b.HoldsAfter p count s := ⟨t, h⟩
  exact ⟨Nat.find hexists, Nat.find_min' hexists h, Nat.find_spec hexists,
    fun _ => Nat.find_min hexists⟩

theorem MayMake.mono {s n : Nat} (h : b.MayMake maxTicks t) (hs : s ≤ t) (hn : maxTicks ≤ n) :
    b.MayMake n s := by
  unfold MayMake at h ⊢
  omega

/-- The wait, one round at a time. -/
theorem runUntil_eq (b : Board) (p : Position) (count maxTicks : Nat) :
    b.runUntil p count maxTicks =
      if count ≤ (b.collected p).length then .ok b
      else if maxTicks ≤ b.ticks then .error b
      else b.step.runUntil p count maxTicks := by
  have hround : maxTicks - b.step.ticks = maxTicks - b.ticks - 1 := by
    rw [ticks_step]
    omega
  simp only [runUntil, hround]
  cases hleft : maxTicks - b.ticks with
  | zero => rw [awaitOutput, if_pos (show maxTicks ≤ b.ticks by omega)]
  | succ left => rw [awaitOutput, if_neg (show ¬ maxTicks ≤ b.ticks by omega), Nat.add_sub_cancel]

/-- With enough ticks allowed the board stops as soon as the output holds enough values. -/
theorem runUntil_of_stopsAfter (hmay : b.MayMake maxTicks t) (hstops : b.StopsAfter p count t) :
    b.runUntil p count maxTicks = .ok (steps t b) := by
  induction t generalizing b with
  | zero =>
    rw [runUntil_eq]
    exact if_pos hstops.1
  | succ t ih =>
    obtain ⟨hholds, hfirst⟩ := hstops
    have hnow : ¬ count ≤ (b.collected p).length := hfirst 0 (Nat.zero_lt_succ t)
    have hlimit : b.ticks + (t + 1) ≤ maxTicks := hmay.resolve_left (Nat.succ_ne_zero t)
    have hlater : b.step.StopsAfter p count t :=
      ⟨hholds, fun s hs => hfirst (s + 1) (Nat.succ_lt_succ hs)⟩
    have hmaylater : b.step.MayMake maxTicks t := by
      refine Or.inr ?_
      rw [ticks_step]
      omega
    rw [runUntil_eq, if_neg hnow, if_neg (by omega), ih hmaylater hlater]
    rfl

/-- Without enough ticks allowed the board makes all that it may. -/
theorem runUntil_of_never (hnever : ∀ t, b.MayMake maxTicks t → ¬ b.HoldsAfter p count t) :
    b.runUntil p count maxTicks = .error (steps (maxTicks - b.ticks) b) := by
  -- On the ticks that are left: there are none for a board at its limit or past it.
  induction hleft : maxTicks - b.ticks generalizing b with
  | zero =>
    have hnow : ¬ count ≤ (b.collected p).length := hnever 0 (Or.inl rfl)
    rw [runUntil_eq, if_neg hnow, if_pos (by omega)]
    rfl
  | succ left ih =>
    have hnow : ¬ count ≤ (b.collected p).length := hnever 0 (Or.inl rfl)
    have hleftlater : maxTicks - b.step.ticks = left := by
      rw [ticks_step]
      omega
    have hlater : ∀ t, b.step.MayMake maxTicks t → ¬ b.step.HoldsAfter p count t := by
      intro t hmay
      refine hnever (t + 1) (Or.inr ?_)
      unfold MayMake at hmay
      rw [ticks_step] at hmay
      omega
    rw [runUntil_eq, if_neg hnow, if_neg (by omega), ih hlater hleftlater]
    rfl

theorem runUntil_eq_ok_iff {after : Board} : b.runUntil p count maxTicks = .ok after ↔
    ∃ t, b.MayMake maxTicks t ∧ b.StopsAfter p count t ∧ after = steps t b := by
  constructor
  · intro hrun
    by_cases hreach : ∃ t, b.MayMake maxTicks t ∧ b.HoldsAfter p count t
    · obtain ⟨t, hmay, hholds⟩ := hreach
      obtain ⟨s, hs, hstops⟩ := exists_stopsAfter hholds
      have hmay := hmay.mono hs (Nat.le_refl maxTicks)
      rw [runUntil_of_stopsAfter hmay hstops] at hrun
      cases hrun
      exact ⟨s, hmay, hstops, rfl⟩
    · rw [runUntil_of_never fun t hmay hholds => hreach ⟨t, hmay, hholds⟩] at hrun
      cases hrun
  · rintro ⟨t, hmay, hstops, rfl⟩
    exact runUntil_of_stopsAfter hmay hstops

theorem exists_runUntil_eq_ok_iff : (∃ after, b.runUntil p count maxTicks = .ok after) ↔
    ∃ t, b.MayMake maxTicks t ∧ b.HoldsAfter p count t := by
  constructor
  · rintro ⟨after, hrun⟩
    obtain ⟨t, hmay, hstops, -⟩ := runUntil_eq_ok_iff.mp hrun
    exact ⟨t, hmay, hstops.1⟩
  · rintro ⟨t, hmay, hholds⟩
    obtain ⟨s, hs, hstops⟩ := exists_stopsAfter hholds
    exact ⟨_, runUntil_of_stopsAfter (hmay.mono hs (Nat.le_refl maxTicks)) hstops⟩

theorem runUntil_eq_error_iff {after : Board} : b.runUntil p count maxTicks = .error after ↔
    (∀ t, b.MayMake maxTicks t → ¬ b.HoldsAfter p count t) ∧
      after = steps (maxTicks - b.ticks) b := by
  constructor
  · intro hrun
    have hnever : ∀ t, b.MayMake maxTicks t → ¬ b.HoldsAfter p count t := by
      intro t hmay hholds
      obtain ⟨finished, hfinished⟩ := exists_runUntil_eq_ok_iff.mpr ⟨t, hmay, hholds⟩
      rw [hfinished] at hrun
      cases hrun
    rw [runUntil_of_never hnever] at hrun
    cases hrun
    exact ⟨hnever, rfl⟩
  · rintro ⟨hnever, rfl⟩
    exact runUntil_of_never hnever

/-- A larger limit leaves the end of a wait as it is. -/
theorem runUntil_mono {n : Nat} (hn : maxTicks ≤ n) {after : Board}
    (hrun : b.runUntil p count maxTicks = .ok after) : b.runUntil p count n = .ok after := by
  obtain ⟨t, hmay, hstops, rfl⟩ := runUntil_eq_ok_iff.mp hrun
  exact runUntil_of_stopsAfter (hmay.mono (Nat.le_refl t) hn) hstops

/-- A board that gives up has made as many ticks as the limit allows, or had made more before. -/
theorem ticks_of_runUntil_error {after : Board}
    (hrun : b.runUntil p count maxTicks = .error after) :
    after.ticks = max maxTicks b.ticks := by
  obtain ⟨-, rfl⟩ := runUntil_eq_error_iff.mp hrun
  rw [ticks_steps]
  omega

end Board

/-! ## Samples -/

namespace Sample

variable {s : Sample} {maxTicks n : Nat}

theorem run_eq_ok_iff {report : SampleReport} : s.run maxTicks = .ok report ↔
    ∃ b after, s.loaded = .ok b ∧ b.runUntil s.awaited s.count maxTicks = .ok after ∧
      report = s.report after := by
  unfold run
  cases hloaded : s.loaded with
  | error e => simp [bind, Except.bind]
  | ok b =>
    cases hend : b.runUntil s.awaited s.count maxTicks with
    | error after => simp [bind, Except.bind, hend, throw, throwThe, MonadExceptOf.throw]
    | ok after => simp [bind, Except.bind, hend, pure, Except.pure, eq_comm]

/-- A sample that gives up says how many ticks its board has made. -/
theorem run_of_runUntil_error {b after : Board} (hloaded : s.loaded = .ok b)
    (hend : b.runUntil s.awaited s.count maxTicks = .error after) :
    s.run maxTicks = .error (.tickBudget s.name (max maxTicks b.ticks)) := by
  rw [← Board.ticks_of_runUntil_error hend]
  unfold run
  rw [hloaded]
  simp only [bind, Except.bind, hend]
  rfl

theorem run_mono (hn : maxTicks ≤ n) {report : SampleReport}
    (hrun : s.run maxTicks = .ok report) : s.run n = .ok report := by
  obtain ⟨b, after, hloaded, hend, hreport⟩ := run_eq_ok_iff.mp hrun
  exact run_eq_ok_iff.mpr ⟨b, after, hloaded, Board.runUntil_mono hn hend, hreport⟩

theorem runAll_mono (hn : maxTicks ≤ n) {samples : List Sample} {reports : List SampleReport}
    (hrun : runAll samples maxTicks = .ok reports) : runAll samples n = .ok reports := by
  induction samples generalizing reports with
  | nil => exact hrun
  | cons s rest ih =>
    unfold runAll at hrun ih ⊢
    rw [List.mapM_cons] at hrun ⊢
    cases hfirst : s.run maxTicks with
    | error e =>
      rw [hfirst] at hrun
      cases hrun
    | ok report =>
      cases hrest : rest.mapM (·.run maxTicks) with
      | error e =>
        rw [hfirst, hrest] at hrun
        cases hrun
      | ok others =>
        rw [hfirst, hrest] at hrun
        rw [run_mono hn hfirst, ih hrest]
        exact hrun

end Sample

/-! ## The limit -/

namespace Board

/-- The limit decides whether a wait ends well, and nothing else. It ends well exactly when some
number of ticks that may be made is enough, and then the board has made the fewest that are; in
every other case the board has made all ticks that it may, and a sample says how many that are in
all. What ends well under one limit is the same under a larger one, also for samples. -/
theorem limit_decides_finishing (b : Board) (p : Position) (count maxTicks : Nat) :
    ((∃ after, b.runUntil p count maxTicks = .ok after) ↔
      ∃ t, b.MayMake maxTicks t ∧ b.HoldsAfter p count t) ∧
    (∀ after, b.runUntil p count maxTicks = .ok after ↔
      ∃ t, b.MayMake maxTicks t ∧ b.StopsAfter p count t ∧ after = steps t b) ∧
    ((¬ ∃ t, b.MayMake maxTicks t ∧ b.HoldsAfter p count t) →
      b.runUntil p count maxTicks = .error (steps (maxTicks - b.ticks) b) ∧
      (steps (maxTicks - b.ticks) b).ticks = max maxTicks b.ticks ∧
      ∀ s : Sample, s.loaded = .ok b → s.awaited = p → s.count = count →
        s.run maxTicks = .error (.tickBudget s.name (max maxTicks b.ticks))) ∧
    ∀ n, maxTicks ≤ n →
      (∀ after, b.runUntil p count maxTicks = .ok after → b.runUntil p count n = .ok after) ∧
      (∀ (s : Sample) (report : SampleReport),
        s.run maxTicks = .ok report → s.run n = .ok report) ∧
      ∀ (samples : List Sample) (reports : List SampleReport),
        Sample.runAll samples maxTicks = .ok reports → Sample.runAll samples n = .ok reports := by
  refine ⟨exists_runUntil_eq_ok_iff, fun _ => runUntil_eq_ok_iff, fun hnever => ?_,
    fun n hn => ⟨fun _ => runUntil_mono hn, fun _ _ => Sample.run_mono hn,
      fun _ _ => Sample.runAll_mono hn⟩⟩
  have hend := runUntil_of_never fun t hmay hholds => hnever ⟨t, hmay, hholds⟩
  refine ⟨hend, ticks_of_runUntil_error hend, ?_⟩
  rintro s hloaded rfl rfl
  exact Sample.run_of_runUntil_error hloaded hend

/-- The row of two doubling nodes needs eleven ticks for three values. -/
theorem limit_decides_finishing_doubler :
    ∃ b report, Sample.doubler.loaded = .ok b ∧ b.StopsAfter ⟨2, 0⟩ 3 11 ∧
      Sample.doubler.run 10 = .error (.tickBudget "Doubler" 10) ∧
      Sample.doubler.run 11 = .ok report ∧ Sample.doubler.run 1000 = .ok report := by
  have hdoubler : Sample.doubler.loaded.toOption.any
      fun b => b.ticks = 0 ∧ b.StopsAfter ⟨2, 0⟩ 3 11 := by decide +kernel
  cases hloaded : Sample.doubler.loaded with
  | error e =>
    rw [hloaded] at hdoubler
    cases hdoubler
  | ok b =>
    rw [hloaded] at hdoubler
    obtain ⟨hticks, hstops⟩ : b.ticks = 0 ∧ b.StopsAfter ⟨2, 0⟩ 3 11 := of_decide_eq_true hdoubler
    have hten : ¬ ∃ t, b.MayMake 10 t ∧ b.HoldsAfter ⟨2, 0⟩ 3 t := by
      rintro ⟨t, hmay, hholds⟩
      refine hstops.2 t ?_ hholds
      unfold MayMake at hmay
      omega
    obtain ⟨-, -, hnever, -⟩ := limit_decides_finishing b ⟨2, 0⟩ 3 10
    have hgivesUp := (hnever hten).2.2 Sample.doubler hloaded rfl rfl
    obtain ⟨-, hok, -, hlarger⟩ := limit_decides_finishing b ⟨2, 0⟩ 3 11
    have hends := (hok _).mpr ⟨11, Or.inr (by omega), hstops, rfl⟩
    have hruns := Sample.run_eq_ok_iff.mpr ⟨b, _, hloaded, hends, rfl⟩
    rw [hticks] at hgivesUp
    exact ⟨b, _, rfl, hstops, hgivesUp, hruns, (hlarger 1000 (by decide)).2.1 _ _ hruns⟩

end Board

end NodeGrid
