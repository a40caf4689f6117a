import NodeGrid.Proofs.Node.Streams

/-!
# Operations on a node

All that is done to a node from outside, one operation after the other, and what is kept: on at most
one side a value waits to be taken. Nothing in a node says so, for each side has a mailbox of its
own. It is kept because no command runs while a value waits, and a command writes to one side at
most.

* `outbox_step_of_some`: a step leaves a value that waits where it is.
* `PendsOnce.step`: what a step keeps; `PendsOnce.performAll`: what any operations keep.
* `PendsOnce.length_sent_le`: so a node sends at most one value at a time.
-/

namespace NodeGrid.Node

/-- What is done to a node: it is linked anew or on one more side, it gets a program, or it goes on
with its run. -/
inductive Operation where
  | relink (directions : List Direction)
  | link (d : Direction)
  | install (program : Program)
  | act (a : Action)
  deriving DecidableEq

/-- The node after an operation. -/
def perform (n : Node) : Operation → Node
  | .relink directions => { n with links := .ofList directions }
  | .link d => n.link d
  | .install program => { n with program }
  | .act a => n.act a

/-- The node after operations, the first one first. -/
def performAll (n : Node) (ops : List Operation) : Node := ops.foldl perform n

variable {n m : Node} {d : Direction}

/-! ## Values that wait -/

/-- On at most one side a value waits to be taken. -/
def PendsOnce (n : Node) : Prop :=
  ∀ d e, n.outbox.get d ≠ none → n.outbox.get e ≠ none → d = e

theorem isPending_of_outbox_ne (h : n.outbox.get d ≠ none) : n.isPending := by
  rw [← Bool.not_eq_false]
  exact fun hfree => h (isPending_eq_false_iff.mp hfree d)

/-- A step leaves a value that waits where it is. -/
theorem outbox_step_of_some {value : Int32} (h : n.outbox.get d = some value) :
    n.step.1.outbox.get d = some value := by
  have hpending : n.isPending := isPending_of_outbox_ne (d := d) (by simp [h])
  rw [step_of_isPending hpending, wrap_outbox, h]

/-- Where nothing else waits than before, no more sides do. -/
theorem PendsOnce.of_outbox (h : n.PendsOnce)
    (hm : ∀ d, m.outbox.get d ≠ none → n.outbox.get d ≠ none) : m.PendsOnce :=
  fun d e hd he => h d e (hm d hd) (hm e he)

theorem pendsOnce_of_not_isPending (h : n.isPending = false) : n.PendsOnce :=
  fun d _ hd _ => absurd (isPending_eq_false_iff.mp h d) hd

/-- A command fills the mailbox of one side at most. -/
theorem pendsOnce_run (c : Command) (h : n.isPending = false) : (n.run c).1.PendsOnce := by
  have hdestination {e : Direction} (he : (n.run c).1.outbox.get e ≠ none) :
      c.destination? = some e := by
    have hempty : n.outbox.get e = none := isPending_eq_false_iff.mp h e
    have hrun : (n.run c).1.outbox.get e = (n.execute c).1.outbox.get e := rfl
    rw [hrun, execute_outbox, hempty] at he
    split at he
    · assumption
    · exact absurd rfl he
  intro d e hd he
  exact Option.some.inj ((hdestination hd).symm.trans (hdestination he))

namespace PendsOnce

theorem step (h : n.PendsOnce) : n.step.1.PendsOnce := by
  rcases step_cases n with ⟨-, hstep⟩ | ⟨-, -, hstep⟩ | ⟨c, hpending, -, hstep⟩
  · rw [hstep]
    exact h.of_outbox fun d hd => wrap_outbox n ▸ hd
  · rw [hstep]
    exact h.of_outbox fun d hd => wrap_outbox n ▸ hd
  · rw [hstep]
    exact pendsOnce_run c (by rw [wrap_isPending, hpending])

theorem receive (h : n.PendsOnce) (d : Direction) (value : Int32) :
    (n.receive d value).PendsOnce := by
  unfold Node.receive
  split
  · exact h
  · exact h

theorem release (h : n.PendsOnce) (d : Direction) : (n.release d).PendsOnce := by
  refine h.of_outbox fun e he => ?_
  unfold Node.release at he
  rw [Sides.get_set] at he
  split at he
  · exact absurd rfl he
  · exact he

theorem drained (h : n.PendsOnce) : n.drained.PendsOnce := by
  refine h.of_outbox fun d hd => ?_
  unfold Node.drained at hd
  rw [Sides.get_ofFn] at hd
  split at hd
  · exact absurd rfl hd
  · exact hd

theorem act (h : n.PendsOnce) (a : Action) : (n.act a).PendsOnce := by
  cases a with
  | step => exact h.step
  | receive d value => exact h.receive d value
  | release d => exact h.release d

theorem perform (h : n.PendsOnce) (op : Operation) : (n.perform op).PendsOnce := by
  cases op with
  | act a => exact h.act a
  | relink directions | link d | install program => exact h

theorem performAll (h : n.PendsOnce) (ops : List Operation) : (n.performAll ops).PendsOnce := by
  induction ops generalizing n with
  | nil => exact h
  | cons op ops ih => exact ih (h.perform op)

/-! ## Sending -/

/-- What is sent comes from different sides, so it is one value at most. -/
theorem length_sent_le (h : n.PendsOnce) : n.sent.length ≤ 1 := by
  have hfrom {d : Direction} {x : Direction × Int32}
      (hx : (if d ∈ n.links then (n.outbox.get d).map (d, ·) else none) = some x) :
      x.1 = d ∧ n.outbox.get d ≠ none := by
    split at hx
    · obtain ⟨value, hvalue, rfl⟩ := Option.map_eq_some_iff.mp hx
      exact ⟨rfl, by simp [hvalue]⟩
    · cases hx
  have hside : ∀ x ∈ n.sent, n.outbox.get x.1 ≠ none := by
    intro x hx
    obtain ⟨d, -, hd⟩ := List.mem_filterMap.mp hx
    obtain ⟨rfl, hfull⟩ := hfrom hd
    exact hfull
  have hdifferent : n.sent.Pairwise (·.1 ≠ ·.1) := by
    have hall : Direction.all.Pairwise (· ≠ ·) := by decide
    refine List.pairwise_filterMap.mpr (hall.imp fun hne x hx y hy => ?_)
    rwa [(hfrom hx).1, (hfrom hy).1]
  match hsent : n.sent with
  | [] => exact Nat.zero_le 1
  | [_] => exact Nat.le_refl 1
  | x :: y :: rest =>
    rw [hsent] at hside hdifferent
    have hne : x.1 ≠ y.1 := (List.pairwise_cons.mp hdifferent).1 y List.mem_cons_self
    exact absurd (h x.1 y.1 (hside x List.mem_cons_self)
      (hside y (List.mem_cons_of_mem x List.mem_cons_self))) hne

end PendsOnce

end NodeGrid.Node
