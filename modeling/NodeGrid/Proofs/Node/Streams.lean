import Mathlib.Logic.Function.Iterate
import NodeGrid.Proofs.Node.Execution

/-!
# Streams

What a node takes from one direction over time is a stream of values, and what it sends is another.
When the values arrive and when they are taken does not matter to what is sent.

* `Untimed.advance`: a run in which every value is there when it is needed and taken at once;
  `Untimed.advance_of_current?`: what the command at the counter does in it.
* `Follows.after`: every run of a node is a part of such a run. A step that has to wait is none of
  its steps, because it only wraps the counter.
* `emitted_comparable`: of two runs on the same streams one sends what the other sends, or less.
-/

namespace NodeGrid.Node

/-! ## Runs -/

/-- What happens to a node: it steps, a value comes in, or what waits is taken. -/
inductive Action where
  | step
  | receive (d : Direction) (value : Int32)
  | release (d : Direction)
  deriving DecidableEq

def act (n : Node) : Action → Node
  | .step => n.step.1
  | .receive d value => n.receive d value
  | .release d => n.release d

/-- The node after actions, the first one first. -/
def after (n : Node) (as : List Action) : Node := as.foldl act n

/-- The values that an action puts into the mailbox for `d`: none if that is full. -/
def acceptedBy (n : Node) (d : Direction) : Action → List Int32
  | .receive e value => if e = d ∧ n.accepts e then [value] else []
  | _ => []

/-- The values that an action takes out of the mailbox for `d`. -/
def releasedBy (n : Node) (d : Direction) : Action → List Int32
  | .release e => if e = d then (n.outbox.get e).toList else []
  | _ => []

def accepted (n : Node) (d : Direction) : List Action → List Int32
  | [] => []
  | a :: as => n.acceptedBy d a ++ (n.act a).accepted d as

def released (n : Node) (d : Direction) : List Action → List Int32
  | [] => []
  | a :: as => n.releasedBy d a ++ (n.act a).released d as

/-- What was taken for `d` in a run, and then what still waits there. -/
def emitted (n : Node) (d : Direction) (as : List Action) : List Int32 :=
  n.released d as ++ ((n.after as).outbox.get d).toList

/-! ## Runs without time -/

/-- The node with nothing in its mailboxes. -/
def bare (n : Node) : Node := { n with inbox := .replicate none, outbox := .replicate none }

/-- A node on streams: what is still to come from each direction, and what was sent to it. -/
structure Untimed where
  node : Node
  unread : Direction → List Int32
  written : Direction → List Int32

namespace Untimed

/-- The node with the next value of each stream in its mailbox. -/
def ready (s : Untimed) : Node := s.node.withInbox (.ofFn fun d => (s.unread d).head?)

/-- A step, for which all is ready and after which all is taken. -/
def advance (s : Untimed) : Untimed where
  node := s.ready.step.1.bare
  unread d := if s.ready.step.1.inbox.get d = none then (s.unread d).tail else s.unread d
  written d := s.written d ++ (s.ready.step.1.outbox.get d).toList

theorem written_prefix_iterate (s : Untimed) (d : Direction) (k : Nat) :
    s.written d <+: (advance^[k] s).written d := by
  induction k with
  | zero => exact List.prefix_refl _
  | succ k ih =>
    rw [Function.iterate_succ_apply']
    exact ih.trans (List.prefix_append _ _)

theorem written_iterate_mono (s : Untimed) (d : Direction) {j k : Nat} (h : j ≤ k) :
    (advance^[j] s).written d <+: (advance^[k] s).written d := by
  obtain ⟨i, rfl⟩ := Nat.exists_eq_add_of_le' h
  rw [Function.iterate_add_apply]
  exact written_prefix_iterate _ d i

/-- A step of the command at the counter: the stream that it reads goes on, if there is a next
value, and the one that it writes gets the value of its operand, if that has one. -/
theorem advance_of_current? {s : Untimed} {c : Command} (hpending : s.node.isPending = false)
    (hc : s.node.wrap.current? = some c) : s.advance =
      ⟨s.ready.step.1.bare,
        fun d => if c.source? = some d then (s.unread d).tail else s.unread d,
        fun d => s.written d ++
          (if c.destination? = some d then s.ready.value? c.primary else none).toList⟩ := by
  have hready : s.ready.isPending = false := hpending
  have hcurrent : s.ready.wrap.current? = some c := by
    rw [ready, ← wrap_withInbox]
    exact hc
  have hstep := step_of_current?_some hready hcurrent
  have hinbox : ∀ d, s.ready.step.1.inbox.get d =
      if c.source? = some d then none else (s.unread d).head? := by
    intro d
    rw [hstep]
    refine (execute_inbox s.ready.wrap c d).trans ?_
    rw [wrap_inbox, ready, withInbox_inbox, Sides.get_ofFn]
  have houtbox : ∀ d, s.ready.step.1.outbox.get d =
      if c.destination? = some d then s.ready.value? c.primary else none := by
    intro d
    have hempty : s.ready.outbox.get d = none := isPending_eq_false_iff.mp hready d
    have hvalue : s.ready.wrap.value? c.primary = s.ready.value? c.primary := by
      rw [wrap_eq]
      cases c.primary <;> rfl
    rw [hstep]
    refine (execute_outbox s.ready.wrap c d).trans ?_
    rw [wrap_outbox, hempty, Option.or_none, hvalue]
  have hunread : (fun d => if s.ready.step.1.inbox.get d = none then (s.unread d).tail
      else s.unread d) = fun d => if c.source? = some d then (s.unread d).tail
        else s.unread d := by
    funext d
    rw [hinbox]
    by_cases hd : c.source? = some d
    · rw [if_pos hd, if_pos hd, if_pos rfl]
    · rw [if_neg hd, if_neg hd]
      cases s.unread d <;> rfl
  unfold advance
  rw [hunread]
  simp only [houtbox]

/-- A step of the command at the counter, part by part. -/
theorem advance_eq {s t : Untimed} {c : Command} (hpending : s.node.isPending = false)
    (hc : s.node.wrap.current? = some c) (hnode : s.ready.step.1.bare = t.node)
    (hunread : ∀ d, (if c.source? = some d then (s.unread d).tail else s.unread d) = t.unread d)
    (hwritten : ∀ d, s.written d ++
      (if c.destination? = some d then s.ready.value? c.primary else none).toList = t.written d) :
    s.advance = t := by
  rw [advance_of_current? hpending hc, hnode, funext hunread, funext hwritten]

end Untimed

/-! ## Steps that wait -/

variable {n : Node} {s : Untimed}

theorem wrap_wrap (n : Node) : n.wrap.wrap = n.wrap := by
  unfold wrap
  split
  · rfl
  · split <;> rfl

theorem wrap_bare (n : Node) : n.wrap.bare = n.bare.wrap := apply_ite bare _ _ _

theorem move_zero (n : Node) : n.move 0 = n := by
  simp [move]

/-- A step only wraps the counter, or it runs a command that finds what it reads. -/
theorem step_waits_or_runs (n : Node) :
    n.step.1 = n.wrap ∨
      ∃ c, n.isPending = false ∧ n.wrap.current? = some c ∧ n.step.1 = (n.wrap.run c).1 ∧
        ∀ d, c.source? = some d → n.inbox.get d ≠ none := by
  rcases step_cases n with ⟨_, hstep⟩ | ⟨_, _, hstep⟩ | ⟨c, hpending, hc, hstep⟩
  · exact Or.inl (by rw [hstep])
  · exact Or.inl (by rw [hstep])
  · by_cases hwaits : ∃ d, c.source? = some d ∧ n.inbox.get d = none
    · obtain ⟨d, hsource, hnone⟩ := hwaits
      left
      have hexecute : n.wrap.execute c = (n.wrap, 0) :=
        execute_of_inbox_none hsource (by rw [wrap_inbox, hnone])
      rw [hstep]
      show (n.wrap.execute c).1.move (n.wrap.execute c).2 = n.wrap
      rw [hexecute, move_zero]
    · right
      refine ⟨c, hpending, hc, by rw [hstep], ?_⟩
      intro d hsource hnone
      exact hwaits ⟨d, hsource, hnone⟩

/-! ## A run is a part of a run without time -/

/-- A node that has yet to receive `future` and from which `past` was taken is where `s` is, but for
what is in its mailboxes and for a counter that is yet to be wrapped. -/
structure Follows (n : Node) (future past : Direction → List Int32) (s : Untimed) : Prop where
  node : s.node.wrap = n.bare.wrap
  unread : ∀ d, s.unread d = (n.inbox.get d).toList ++ future d
  written : ∀ d, s.written d = past d ++ (n.outbox.get d).toList

namespace Follows

variable {future past : Direction → List Int32} {c : Command}

theorem start (n : Node) (future : Direction → List Int32) :
    Follows n future (fun _ => []) ⟨n.bare, fun d => (n.inbox.get d).toList ++ future d,
      fun d => (n.outbox.get d).toList⟩ :=
  ⟨rfl, fun _ => rfl, fun _ => rfl⟩

theorem wrap (h : Follows n future past s) : Follows n.wrap future past s where
  node := by rw [wrap_bare, wrap_wrap, h.node]
  unread d := by rw [wrap_inbox, h.unread]
  written d := by rw [wrap_outbox, h.written]

/-- Where all is ready the same command runs. -/
theorem step_ready (h : Follows n future past s) (hpending : n.isPending = false)
    (hc : n.wrap.current? = some c) :
    s.ready.step = (n.wrap.withInbox (.ofFn fun d => (s.unread d).head?)).run c := by
  have hwrap : s.ready.wrap = n.wrap.withInbox (.ofFn fun d => (s.unread d).head?) := by
    have houtbox : n.wrap.outbox = .replicate none := by
      apply Sides.ext_get
      intro d
      rw [wrap_outbox, Sides.get_replicate]
      exact isPending_eq_false_iff.mp hpending d
    rw [Untimed.ready, ← wrap_withInbox, h.node, ← wrap_bare, bare, ← houtbox]
    rfl
  have hready : s.ready.isPending = false := by
    rw [← wrap_isPending, hwrap, ← hpending, ← wrap_isPending n]
    rfl
  have hcurrent : s.ready.wrap.current? = some c := by
    rw [hwrap]
    exact hc
  rw [step_of_current?_some hready hcurrent, hwrap]

theorem run (h : Follows n future past s) (hpending : n.isPending = false)
    (hc : n.wrap.current? = some c) (hsource : ∀ d, c.source? = some d → n.inbox.get d ≠ none) :
    Follows (n.wrap.run c).1 future past s.advance := by
  have hstep := h.step_ready hpending hc
  -- The mailbox that is read holds the same value on both sides, and no other counts.
  obtain ⟨j, hj⟩ : ∃ j, s.ready.step.1 = (n.wrap.run c).1.withInbox j := by
    obtain ⟨j, hj⟩ := @execute_withInbox n.wrap c (.ofFn fun d => (s.unread d).head?) <| by
      intro d hd
      obtain ⟨value, hvalue⟩ := Option.ne_none_iff_exists'.mp (hsource d hd)
      rw [Sides.get_ofFn, h.unread, wrap_inbox, hvalue]
      rfl
    refine ⟨j, ?_⟩
    rw [hstep]
    simp only [Node.run, hj]
    rfl
  refine ⟨?_, ?_, ?_⟩
  · show s.ready.step.1.bare.wrap = _
    rw [hj]
    rfl
  · intro d
    have hready : s.ready.step.1.inbox.get d =
        if c.source? = some d then none else (s.unread d).head? := by
      rw [hstep]
      exact (execute_inbox _ c d).trans (by rw [withInbox_inbox, Sides.get_ofFn])
    have hinbox : (n.wrap.run c).1.inbox.get d =
        if c.source? = some d then none else n.inbox.get d := by
      rw [← wrap_inbox n]
      exact execute_inbox n.wrap c d
    show (if s.ready.step.1.inbox.get d = none then (s.unread d).tail else s.unread d) = _
    rw [hready, hinbox, h.unread]
    -- What is read goes from mailbox and stream; any other mailbox stays as it was made ready.
    by_cases hd : c.source? = some d
    · obtain ⟨value, hvalue⟩ := Option.ne_none_iff_exists'.mp (hsource d hd)
      simp [hd, hvalue]
    · rw [if_neg hd, if_neg hd]
      split
      · next hhead => rw [List.head?_eq_none_iff.mp hhead, List.tail_nil]
      · rfl
  · intro d
    show s.written d ++ (s.ready.step.1.outbox.get d).toList = _
    rw [hj, h.written, isPending_eq_false_iff.mp hpending d, Option.toList_none, List.append_nil]
    rfl

theorem step (h : Follows n future past s) :
    ∃ k, Follows n.step.1 future past (Untimed.advance^[k] s) := by
  rcases step_waits_or_runs n with hstep | ⟨c, hpending, hc, hstep, hsource⟩
  · exact ⟨0, hstep ▸ h.wrap⟩
  · exact ⟨1, hstep ▸ h.run hpending hc hsource⟩

theorem receive {d : Direction} {value : Int32}
    (h : Follows n (fun e => n.acceptedBy e (.receive d value) ++ future e) past s) :
    Follows (n.receive d value) future past s := by
  unfold Node.receive
  cases haccepts : n.accepts d with
  | false =>
    rw [if_neg Bool.false_ne_true]
    refine ⟨h.node, ?_, h.written⟩
    intro e
    simp [h.unread, acceptedBy, haccepts]
  | true =>
    rw [if_pos rfl]
    refine ⟨h.node, ?_, h.written⟩
    intro e
    by_cases he : d = e
    · subst he
      have hnone : n.inbox.get d = none := Option.isNone_iff_eq_none.mp haccepts
      simp [h.unread, acceptedBy, haccepts, hnone]
    · have hother : e ≠ d := fun hed => he hed.symm
      simp [h.unread, acceptedBy, he, Sides.get_set_of_ne _ _ hother]

theorem release (h : Follows n future past s) (d : Direction) :
    Follows (n.release d) future (fun e => past e ++ n.releasedBy e (.release d)) s := by
  refine ⟨h.node, h.unread, ?_⟩
  intro e
  by_cases he : d = e
  · subst he
    simp [h.written, releasedBy, Node.release]
  · have hother : e ≠ d := fun hed => he hed.symm
    simp [h.written, releasedBy, Node.release, he, Sides.get_set_of_ne _ _ hother]

theorem act {a : Action} (h : Follows n (fun d => n.acceptedBy d a ++ future d) past s) :
    ∃ k, Follows (n.act a) future (fun d => past d ++ n.releasedBy d a)
      (Untimed.advance^[k] s) := by
  cases a with
  | step => simpa [acceptedBy, releasedBy, Node.act] using h.step
  | receive d value => exact ⟨0, by simpa [releasedBy, Node.act] using h.receive⟩
  | release d => exact ⟨0, by simpa [acceptedBy, Node.act] using h.release d⟩

theorem after {as : List Action}
    (h : Follows n (fun d => n.accepted d as ++ future d) past s) :
    ∃ k, Follows (n.after as) future (fun d => past d ++ n.released d as)
      (Untimed.advance^[k] s) := by
  induction as generalizing n past s with
  | nil => exact ⟨0, by simpa [accepted, released, Node.after] using h⟩
  | cons a as ih =>
    simp only [accepted, List.append_assoc] at h
    obtain ⟨j, hact⟩ := h.act
    obtain ⟨k, hafter⟩ := ih hact
    refine ⟨k + j, ?_⟩
    rw [Function.iterate_add_apply]
    simp only [released, ← List.append_assoc]
    exact hafter

end Follows

/-! ## Two runs -/

theorem exists_emitted_eq (n : Node) (as : List Action) (future : Direction → List Int32) :
    ∃ k, ∀ d, n.emitted d as = (Untimed.advance^[k] ⟨n.bare,
      fun d => (n.inbox.get d).toList ++ (n.accepted d as ++ future d),
      fun d => (n.outbox.get d).toList⟩).written d := by
  obtain ⟨k, hk⟩ := (Follows.start n fun d => n.accepted d as ++ future d).after
  refine ⟨k, fun d => ?_⟩
  rw [hk.written, List.nil_append]
  rfl

/-- The longer of two lists, one of which is the start of the other, written in two ways. -/
theorem append_drop_eq_append_drop {xs ys : List Int32} (h : xs <+: ys ∨ ys <+: xs) :
    xs ++ ys.drop xs.length = ys ++ xs.drop ys.length := by
  rcases h with ⟨us, rfl⟩ | ⟨vs, rfl⟩
  · simp
  · simp

/-- One of two runs on the same streams is behind the other on all sides. -/
theorem emitted_behind_or_ahead (n : Node) (as bs : List Action)
    (h : ∀ d, n.accepted d as <+: n.accepted d bs ∨ n.accepted d bs <+: n.accepted d as) :
    (∀ d, n.emitted d as <+: n.emitted d bs) ∨ ∀ d, n.emitted d bs <+: n.emitted d as := by
  -- Both runs are parts of one run on the longer stream of each direction.
  have hstreams := fun d => append_drop_eq_append_drop (h d)
  obtain ⟨j, hj⟩ := exists_emitted_eq n as fun d =>
    (n.accepted d bs).drop (n.accepted d as).length
  obtain ⟨k, hk⟩ := exists_emitted_eq n bs fun d =>
    (n.accepted d as).drop (n.accepted d bs).length
  simp only [hstreams] at hj
  rcases Nat.le_total j k with hjk | hkj
  · left
    intro d
    rw [hj, hk]
    exact Untimed.written_iterate_mono _ d hjk
  · right
    intro d
    rw [hj, hk]
    exact Untimed.written_iterate_mono _ d hkj

/-- When values arrive and when they are taken changes how much a node sends, and not what. -/
theorem emitted_comparable (n : Node) (as bs : List Action)
    (h : ∀ d, n.accepted d as <+: n.accepted d bs ∨ n.accepted d bs <+: n.accepted d as) :
    ∀ d, n.emitted d as <+: n.emitted d bs ∨ n.emitted d bs <+: n.emitted d as := by
  intro d
  rcases emitted_behind_or_ahead n as bs h with hbehind | hahead
  · exact Or.inl (hbehind d)
  · exact Or.inr (hahead d)

/-- A node that sends on what comes in. -/
def copying : Node :=
  { program := [{ line := 0, opcode := .mov, primary := .side .left, secondary := .side .right }] }

/-- Without the first step the values come and go at other times. A value that finds the mailbox
full is not part of the stream. -/
theorem emitted_comparable_copying :
    let as := [.step, .receive .left 5, .step, .receive .left 6, .receive .left 7, .step]
    let bs := [.receive .left 5, .step, .receive .left 6, .release .right, .step, .release .right]
    (∀ d, copying.accepted d as <+: copying.accepted d bs ∨
        copying.accepted d bs <+: copying.accepted d as) ∧
      copying.emitted .right as = [5] ∧ copying.emitted .right bs = [5, 6] ∧
      ∀ d, copying.emitted d as <+: copying.emitted d bs ∨
        copying.emitted d bs <+: copying.emitted d as := by
  intro as bs
  have h : ∀ d, copying.accepted d as <+: copying.accepted d bs ∨
      copying.accepted d bs <+: copying.accepted d as := by
    intro d
    cases d <;> decide
  exact ⟨h, by decide, by decide, emitted_comparable copying as bs h⟩

end NodeGrid.Node
