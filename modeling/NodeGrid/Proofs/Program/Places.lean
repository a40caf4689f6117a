import Mathlib.Data.List.Chain
import NodeGrid.Proofs.Program.Origins

/-!
# Places of lexemes

Where in a text a lexeme stands. Whether a character belongs to a comment is known from what stands
before it (`endsInComment`), so every part of a text can be looked at by itself
(`spread_classify_append`).

* `exists_run_of_mem_scan`: every lexeme is that of a longest run of one kind in the text, and is
  named a label exactly if a colon comes next, commas apart.
* `IsRunAt.ofChar_eq`: outside comments the kind of a run is that of its characters.
* `IsRunAt.getLast?_ne`: which is not the kind of the character before it.
-/

namespace NodeGrid.Lexeme

/-! ## Runs among runs -/

section

variable {α : Type}

theorem getLast?_flatMap_elements {rs : List (Kind × List α)} (h : ∀ run ∈ rs, run.2 ≠ []) :
    (rs.flatMap elements).getLast?.map Prod.fst = rs.getLast?.map Prod.fst := by
  rcases List.eq_nil_or_concat rs with rfl | ⟨front, run, rfl⟩
  · rfl
  · have hrun : run.2 ≠ [] := h run (by simp)
    obtain ⟨as, a, ha⟩ := (List.eq_nil_or_concat run.2).resolve_left hrun
    simp [elements, ha]

/-- Runs of one kind next to one another are line breaks. -/
theorem isChain_runs (es : List (Kind × α)) :
    (runs es).IsChain fun run next => run.1 = next.1 → run.1 = .newline := by
  induction es with
  | nil => exact .nil
  | cons e es ih =>
    rw [runs]
    unfold extend
    split
    · exact .singleton _
    · next next run others hruns =>
      rw [hruns] at ih
      split
      · next h =>
        rw [h.1]
        exact List.isChain_cons.mpr (List.isChain_cons.mp ih)
      · next h =>
        refine .cons_cons (fun hkind => ?_) ih
        exact Classical.byContradiction fun hnewline => h ⟨hkind, hnewline⟩

/-- A run is a part of the elements that nothing of its kind stands before, line breaks apart. -/
theorem eq_append_of_runs_eq {es : List (Kind × α)} {before after : List (Kind × List α)}
    {kind : Kind} {run : List α} (h : runs es = before ++ (kind, run) :: after) :
    es = before.flatMap elements ++ run.map (kind, ·) ++ after.flatMap elements ∧
      (kind = .newline ∨ (before.flatMap elements).getLast?.map Prod.fst ≠ some kind) := by
  constructor
  · rw [← flatMap_elements_runs es, h, List.flatMap_append, List.flatMap_cons, List.append_assoc]
    rfl
  · have hbefore : ∀ other ∈ before, other.2 ≠ [] :=
      fun other hother => nonempty_of_mem_runs other (by rw [h]; simp [hother])
    have hchain := isChain_runs es
    rw [h, List.isChain_append] at hchain
    rw [getLast?_flatMap_elements hbefore]
    by_cases hkind : before.getLast?.map Prod.fst = some kind
    · obtain ⟨last, hlast, rfl⟩ := Option.map_eq_some_iff.mp hkind
      exact Or.inl (hchain.2.2 last hlast _ rfl rfl)
    · exact Or.inr hkind

variable {spell : List α → String} {lexeme : Lexeme}

/-- Where the lexemes of runs stand among the elements. -/
theorem exists_split_of_mem_assemble_runs {es : List (Kind × α)}
    (h : lexeme ∈ assemble ((runs es).map fun run => (run.1, spell run.2))) :
    ∃ before kind run after, es = before ++ run.map (kind, ·) ++ after ∧ run ≠ [] ∧
      kind ≠ .comma ∧ kind ≠ .label ∧
      (kind = .newline ∨ before.getLast?.map Prod.fst ≠ some kind) ∧
      lexeme = if firstKind? after = some .label then { ofRun kind (spell run) with kind := .label }
        else ofRun kind (spell run) := by
  obtain ⟨_, _, _, _, hrs, hcomma, hlabel, rfl⟩ := exists_split_of_mem_assemble h
  obtain ⟨before, _, hruns, rfl, hrest⟩ := List.map_eq_append_iff.mp hrs
  obtain ⟨⟨kind, run⟩, after, rfl, he, rfl⟩ := List.map_eq_cons_iff.mp hrest
  cases he
  have hnonempty : ∀ other ∈ (kind, run) :: after, other.2 ≠ [] :=
    fun other hother => nonempty_of_mem_runs other (by rw [hruns]; simp [hother])
  obtain ⟨hrun, hafter⟩ := List.forall_mem_cons.mp hnonempty
  obtain ⟨hes, hlongest⟩ := eq_append_of_runs_eq hruns
  refine ⟨_, kind, run, _, hes, hrun, hcomma, hlabel, hlongest, ?_⟩
  simp only [closesLabel_map spell hafter, decide_eq_true_eq]

end

/-! ## Comments -/

/-- Whether a character belongs to a comment, given whether the one before it does. -/
def inComment (before : Bool) (c : Char) : Bool := c ≠ '\n' && (before || c = '#')

/-- Whether a text ends inside a comment. -/
def endsInComment (cs : List Char) : Bool := cs.foldl inComment false

/-- The kind that a character has in a text. -/
def kindIn (inside : Bool) (c : Char) : Kind :=
  if inComment inside c then .comment else Kind.ofChar c

theorem spread_classify_cons (inside : Bool) (c : Char) (cs : List Char) :
    spread inside (classify (c :: cs)) =
      (kindIn inside c, c) :: spread (inComment inside c) (classify cs) := by
  have hcomment : Kind.ofChar c = .comment ↔ c = '#' := ofChar_eq_iff rfl
  have hnewline : Kind.ofChar c = .newline ↔ c = '\n' := ofChar_eq_iff rfl
  show spread inside ((Kind.ofChar c, c) :: classify cs) = _
  by_cases hbreak : c = '\n'
  · simp [spread, kindIn, inComment, hbreak, Kind.ofChar]
  · simp only [spread, hnewline, hcomment, hbreak, kindIn, inComment, if_false]
    cases inside <;> by_cases hsign : c = '#' <;> simp [hsign, hbreak]

/-- A character belongs to a comment exactly if that is its kind. -/
theorem inComment_eq (inside : Bool) (c : Char) :
    inComment inside c = decide (kindIn inside c = .comment) := by
  unfold kindIn
  split
  · next h => simp [h]
  · next h =>
    have hsign : c ≠ '#' := by
      rintro rfl
      exact h (by simp [inComment])
    have hcomment : Kind.ofChar c ≠ .comment := fun hk => hsign ((ofChar_eq_iff rfl).mp hk)
    simpa [hcomment] using h

theorem inside_eq_false {inside : Bool} {c : Char} (hcomment : kindIn inside c ≠ .comment)
    (hnewline : kindIn inside c ≠ .newline) : inside = false := by
  have hout : inComment inside c = false := by simpa [inComment_eq] using hcomment
  have hbreak : c ≠ '\n' := by
    rintro rfl
    exact hnewline (by simp [kindIn, hout, Kind.ofChar])
  simp only [inComment, hbreak, ne_eq, not_false_eq_true, decide_true, Bool.true_and,
    Bool.or_eq_false_iff] at hout
  exact hout.1

/-- No comment begins without its sign. -/
theorem foldl_inComment_of_not_mem {cs : List Char} (h : '#' ∉ cs) :
    cs.foldl inComment false = false := by
  induction cs with
  | nil => rfl
  | cons c cs ih =>
    rw [List.mem_cons, not_or] at h
    have hc : inComment false c = false := by simp [inComment, Ne.symm h.1]
    rw [List.foldl_cons, hc, ih h.2]

theorem spread_classify_append (inside : Bool) (xs ys : List Char) :
    spread inside (classify (xs ++ ys)) =
      spread inside (classify xs) ++ spread (xs.foldl inComment inside) (classify ys) := by
  induction xs generalizing inside with
  | nil => rfl
  | cons x xs ih =>
    rw [List.cons_append, spread_classify_cons, spread_classify_cons, ih]
    rfl

/-- What a text is divided into by kinds, it is itself divided into. -/
theorem exists_append_of_spread_classify {inside : Bool} {cs : List Char}
    {xs ys : List (Kind × Char)} (h : spread inside (classify cs) = xs ++ ys) :
    ∃ before after, cs = before ++ after ∧ xs = spread inside (classify before) ∧
      ys = spread (before.foldl inComment inside) (classify after) := by
  induction xs generalizing inside cs with
  | nil => exact ⟨[], cs, rfl, rfl, h.symm⟩
  | cons x xs ih =>
    cases cs with
    | nil => cases h
    | cons c cs =>
      rw [spread_classify_cons] at h
      obtain ⟨rfl, hrest⟩ := List.cons.inj h
      obtain ⟨before, after, rfl, rfl, rfl⟩ := ih hrest
      exact ⟨c :: before, after, rfl, (spread_classify_cons ..).symm, rfl⟩

theorem map_snd_spread_classify (inside : Bool) (cs : List Char) :
    (spread inside (classify cs)).map Prod.snd = cs := by
  induction cs generalizing inside with
  | nil => rfl
  | cons c cs ih => rw [spread_classify_cons, List.map_cons, ih]

/-! ## Runs of a text -/

/-- A run of a text: after what stands before it, the longest one of a kind. -/
structure IsRunAt (before run : List Char) (kind : Kind) : Prop where
  nonempty : run ≠ []
  kinds : spread (endsInComment before) (classify run) = run.map (kind, ·)
  longest : kind = .newline ∨ (spread false (classify before)).getLast?.map Prod.fst ≠ some kind

theorem endsInComment_append (xs ys : List Char) :
    endsInComment (xs ++ ys) = ys.foldl inComment (endsInComment xs) :=
  List.foldl_append

namespace IsRunAt

variable {before run : List Char} {kind : Kind}

/-- After a comment the text is still inside it, and after anything else it is not. -/
theorem endsInComment_eq (h : IsRunAt before run kind) :
    endsInComment (before ++ run) = decide (kind = .comment) := by
  have hfold {inside : Bool} {cs : List Char} (hcs : cs ≠ [])
      (hkinds : spread inside (classify cs) = cs.map (kind, ·)) :
      cs.foldl inComment inside = decide (kind = .comment) := by
    induction cs generalizing inside with
    | nil => contradiction
    | cons c cs ih =>
      rw [spread_classify_cons, List.map_cons] at hkinds
      obtain ⟨hc, hrest⟩ := List.cons.inj hkinds
      obtain rfl : kindIn inside c = kind := congrArg Prod.fst hc
      by_cases hempty : cs = []
      · rw [hempty, List.foldl_cons, List.foldl_nil, inComment_eq]
      · rw [List.foldl_cons, ih hempty hrest]
  rw [endsInComment_append, hfold h.nonempty h.kinds]

/-- Outside comments the kind of a run is that of its characters. -/
theorem ofChar_eq (h : IsRunAt before run kind) (hcomment : kind ≠ .comment) :
    ∀ c ∈ run, Kind.ofChar c = kind := by
  have hchars {inside : Bool} {cs : List Char}
      (hkinds : spread inside (classify cs) = cs.map (kind, ·)) :
      ∀ c ∈ cs, Kind.ofChar c = kind := by
    induction cs generalizing inside with
    | nil => nofun
    | cons c cs ih =>
      rw [spread_classify_cons, List.map_cons] at hkinds
      obtain ⟨hc, hrest⟩ := List.cons.inj hkinds
      have hkind : kindIn inside c = kind := congrArg Prod.fst hc
      have hout : inComment inside c = false := by simp [inComment_eq, hkind, hcomment]
      refine List.forall_mem_cons.mpr ⟨?_, ih hrest⟩
      rwa [kindIn, hout] at hkind
  exact hchars h.kinds

/-- A run that is no comment and no line break starts outside comments. -/
theorem endsInComment_before (h : IsRunAt before run kind) (hcomment : kind ≠ .comment)
    (hnewline : kind ≠ .newline) : endsInComment before = false := by
  obtain ⟨c, cs, hcs⟩ := List.exists_cons_of_ne_nil h.nonempty
  have hkinds := h.kinds
  rw [hcs, spread_classify_cons, List.map_cons] at hkinds
  obtain rfl : kindIn (endsInComment before) c = kind :=
    congrArg Prod.fst (List.cons.inj hkinds).1
  exact inside_eq_false hcomment hnewline

/-- No run of a kind has a character of that kind right before it. -/
theorem getLast?_ne (h : IsRunAt before run kind) (hcomment : kind ≠ .comment)
    (hnewline : kind ≠ .newline) : before.getLast?.map Kind.ofChar ≠ some kind := by
  have hout := h.endsInComment_before hcomment hnewline
  rcases List.eq_nil_or_concat before with rfl | ⟨front, c, rfl⟩
  · nofun
  · have hlongest := h.longest.resolve_left hnewline
    rw [List.concat_eq_append] at hout hlongest ⊢
    have hlast : inComment (front.foldl inComment false) c = false := by
      rwa [endsInComment_append, List.foldl_cons, List.foldl_nil] at hout
    rw [spread_classify_append, spread_classify_cons] at hlongest
    simpa [kindIn, hlast, classify, spread] using hlongest

end IsRunAt

/-- Every lexeme is that of a run of the text. A colon names it a label if it comes next. -/
theorem exists_run_of_mem_scan {cs : List Char} {lexeme : Lexeme}
    (h : lexeme ∈ scan String.ofList (classify cs)) :
    ∃ before run after kind, cs = before ++ run ++ after ∧ IsRunAt before run kind ∧
      kind ≠ .comma ∧ kind ≠ .label ∧ lexeme =
        if firstKind? (spread (endsInComment (before ++ run)) (classify after)) = some .label then
          { ofRun kind (String.ofList run) with kind := .label }
        else ofRun kind (String.ofList run) := by
  obtain ⟨xs, kind, run, ys, hes, hrun, hcomma, hlabel, hlongest, rfl⟩ :=
    exists_split_of_mem_assemble_runs h
  rw [List.append_assoc] at hes
  obtain ⟨before, rest, rfl, rfl, hrest⟩ := exists_append_of_spread_classify hes
  obtain ⟨run', after, rfl, hkinds, rfl⟩ := exists_append_of_spread_classify hrest.symm
  obtain rfl : run = run' := by
    have hchars := congrArg (List.map Prod.snd) hkinds
    rw [map_snd_spread_classify, List.map_map] at hchars
    simpa [Function.comp_def] using hchars
  refine ⟨before, run, after, kind, by simp, ⟨hrun, hkinds.symm, hlongest⟩, hcomma, hlabel, ?_⟩
  rw [endsInComment_append]
  rfl

end NodeGrid.Lexeme
