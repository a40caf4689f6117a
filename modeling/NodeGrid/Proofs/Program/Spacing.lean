import NodeGrid.Program.Fault
import NodeGrid.Proofs.Program.Places

/-!
# Spacing

Blanks and commas outside comments only divide a text. How many of them stand between two lexemes,
and in which order, makes no difference, unless a colon comes next: a comma lets it reach the lexeme
before it, and a blank does not. Nor does it make a difference how the line breaks are written.

* `Respaced`: a text with other separators.
* `Respaced.sameSolids`: its runs are the same but for those of blanks and commas.
* `SameSolids.filter_assemble`: which leave nothing that bears on the meaning.
* `readAlike_of_layout`: so the lexemes are the same, and the program and its faults.
-/

namespace NodeGrid.Lexeme

/-! ## Runs between separators -/

section

variable {α β : Type} {gap gap' rs rs' : List (Kind × α)}

/-- The kinds that only divide. -/
def isSpacing (kind : Kind) : Bool := kind = .blank ∨ kind = .comma

/-- Runs of blanks and commas. -/
structure IsGap (gap : List (Kind × α)) : Prop where
  nonempty : gap ≠ []
  spacing : ∀ run ∈ gap, isSpacing run.1

/-- What comes next, if anything, is no separator and no colon. -/
def StartsSolid (rs : List (Kind × α)) : Prop :=
  ∀ kind ∈ rs.head?.map Prod.fst, isSpacing kind = false ∧ kind ≠ .label

/-- The same runs but for those of blanks and commas, with no colon after these. -/
inductive SameSolids : List (Kind × α) → List (Kind × α) → Prop
  | nil : SameSolids [] []
  | run {run : Kind × α} {rs rs' : List (Kind × α)} (hrun : isSpacing run.1 = false)
      (h : SameSolids rs rs') : SameSolids (run :: rs) (run :: rs')
  | gap {gap gap' rs rs' : List (Kind × α)} (hgap : IsGap gap) (hgap' : IsGap gap')
      (hrs : StartsSolid rs) (hrs' : StartsSolid rs') (h : SameSolids rs rs') :
      SameSolids (gap ++ rs) (gap' ++ rs')

theorem IsGap.map (h : IsGap gap) (f : α → β) : IsGap (gap.map (Prod.map id f)) where
  nonempty := by simpa using h.nonempty
  spacing := List.forall_mem_map.mpr h.spacing

theorem StartsSolid.map (h : StartsSolid rs) (f : α → β) :
    StartsSolid (rs.map (Prod.map id f)) := by
  cases rs with
  | nil => nofun
  | cons run rs => simpa [StartsSolid] using h

theorem SameSolids.map (h : SameSolids rs rs') (f : α → β) :
    SameSolids (rs.map (Prod.map id f)) (rs'.map (Prod.map id f)) := by
  induction h with
  | nil => exact .nil
  | run hrun h ih => exact .run hrun ih
  | gap hgap hgap' hrs hrs' h ih =>
    rw [List.map_append, List.map_append]
    exact .gap (hgap.map f) (hgap'.map f) (hrs.map f) (hrs'.map f) ih

end

section

variable {gap rs rs' : List (Kind × String)}

/-- Blanks and commas leave blanks only, which bear on nothing. -/
theorem filter_assemble_gap (hgap : ∀ run ∈ gap, isSpacing run.1) (hrs : StartsSolid rs) :
    closesLabel (gap ++ rs) = false ∧
      (assemble (gap ++ rs)).filter (·.kind ≠ .blank) = (assemble rs).filter (·.kind ≠ .blank) := by
  induction gap with
  | nil =>
    refine ⟨?_, rfl⟩
    cases rs with
    | nil => rfl
    | cons run rs =>
      obtain ⟨hspacing, hlabel⟩ := hrs run.1 rfl
      obtain ⟨kind, spelling⟩ := run
      cases kind <;> simp_all [closesLabel, isSpacing]
  | cons run gap ih =>
    obtain ⟨hrun, hgap⟩ := List.forall_mem_cons.mp hgap
    obtain ⟨hcloses, hfilter⟩ := ih hgap
    obtain ⟨kind, spelling⟩ := run
    cases kind with
    | comma => exact ⟨hcloses, hfilter⟩
    | blank =>
      refine ⟨rfl, ?_⟩
      rw [List.cons_append, assemble, hcloses]
      · exact hfilter
      all_goals simp
    | newline | comment | label | number | word => cases hrun

/-- The same runs but for blanks and commas make the same lexemes but for blanks. -/
theorem SameSolids.filter_assemble (h : SameSolids rs rs') :
    closesLabel rs = closesLabel rs' ∧
      (assemble rs).filter (·.kind ≠ .blank) = (assemble rs').filter (·.kind ≠ .blank) := by
  induction h with
  | nil => exact ⟨rfl, rfl⟩
  | @run run rs rs' hrun h ih =>
    obtain ⟨hcloses, hfilter⟩ := ih
    obtain ⟨kind, spelling⟩ := run
    cases kind with
    | blank | comma => cases hrun
    | label => exact ⟨rfl, hfilter⟩
    | newline | comment | number | word =>
      refine ⟨rfl, ?_⟩
      rw [assemble, assemble, hcloses, List.filter_cons, List.filter_cons, hfilter]
      all_goals simp
  | gap hgap hgap' hrs hrs' h ih =>
    obtain ⟨hcloses, hfilter⟩ := filter_assemble_gap hgap.spacing hrs
    obtain ⟨hcloses', hfilter'⟩ := filter_assemble_gap hgap'.spacing hrs'
    exact ⟨hcloses.trans hcloses'.symm, hfilter.trans (ih.2.trans hfilter'.symm)⟩

end

/-- The same element in front that is no separator. -/
theorem SameSolids.extend {α : Type} {rs rs' : List (Kind × List α)} (h : SameSolids rs rs')
    {kind : Kind} (hkind : isSpacing kind = false) (a : α) :
    SameSolids (Lexeme.extend kind a rs) (Lexeme.extend kind a rs') := by
  have happart {gap : List (Kind × List α)} (hgap : IsGap gap) (rs : List (Kind × List α)) :
      Lexeme.extend kind a (gap ++ rs) = (kind, [a]) :: (gap ++ rs) := by
    obtain ⟨run, others, rfl⟩ := List.exists_cons_of_ne_nil hgap.nonempty
    refine extend_of_head?_ne a (Or.inr fun he => ?_)
    obtain rfl : run.1 = kind := Option.some.inj he
    rw [hgap.spacing run List.mem_cons_self] at hkind
    cases hkind
  cases h with
  | nil => exact .run hkind .nil
  | @run run rs rs' hrun h =>
    simp only [Lexeme.extend]
    split
    · exact .run hkind h
    · exact .run hkind (.run hrun h)
  | gap hgap hgap' hrs hrs' h =>
    rw [happart hgap, happart hgap']
    exact .run hkind (.gap hgap hgap' hrs hrs' h)

/-! ## Separators -/

/-- A separator: blanks and commas, at least one. -/
structure IsSeparator (cs : List Char) : Prop where
  nonempty : cs ≠ []
  chars : ∀ c ∈ cs, c = ' ' ∨ c = ','

/-- The second text is the first one with other separators in the places of those outside comments.
A separator reaches as far as there are blanks and commas. -/
inductive Respaced : Bool → List Char → List Char → Prop
  | nil (inside : Bool) : Respaced inside [] []
  | char {inside : Bool} {c : Char} {cs ds : List Char}
      (hc : inside = true ∨ (c ≠ ' ' ∧ c ≠ ',')) (h : Respaced (inComment inside c) cs ds) :
      Respaced inside (c :: cs) (c :: ds)
  | separator {gap gap' cs ds : List Char} (hgap : IsSeparator gap) (hgap' : IsSeparator gap')
      (hcs : ∀ c ∈ cs.head?, c ≠ ' ' ∧ c ≠ ',') (h : Respaced false cs ds) :
      Respaced false (gap ++ cs) (gap' ++ ds)

/-- A separator outside comments with a colon right after it. -/
def HasSpacedColon (cs : List Char) : Prop :=
  ∃ before c after, cs = before ++ c :: ':' :: after ∧ (c = ' ' ∨ c = ',') ∧
    endsInComment before = false

theorem hasSpacedColon_iff {cs : List Char} :
    HasSpacedColon cs ↔ ∃ i < cs.length, (cs[i]? = some ' ' ∨ cs[i]? = some ',') ∧
      cs[i + 1]? = some ':' ∧ endsInComment (cs.take i) = false := by
  constructor
  · rintro ⟨before, c, after, rfl, hc, hout⟩
    refine ⟨before.length, by simp, ?_, by simp, by simpa using hout⟩
    rcases hc with rfl | rfl <;> simp
  · rintro ⟨i, hi, hc, hcolon, hout⟩
    obtain ⟨_, hcolon⟩ := List.getElem?_eq_some_iff.mp hcolon
    rw [List.getElem?_eq_getElem hi, Option.some.injEq, Option.some.injEq] at hc
    refine ⟨cs.take i, cs[i], cs.drop (i + 2), ?_, hc, hout⟩
    rw [← hcolon, List.getElem_cons_drop, List.getElem_cons_drop, List.take_append_drop]

instance (cs : List Char) : Decidable (HasSpacedColon cs) :=
  decidable_of_iff _ hasSpacedColon_iff.symm

namespace IsSeparator

variable {gap : List Char}

theorem not_mem (h : IsSeparator gap) {c : Char} (hblank : c ≠ ' ') (hcomma : c ≠ ',') :
    c ∉ gap := by
  intro hc
  rcases h.chars c hc with he | he
  · exact hblank he
  · exact hcomma he

theorem head? (h : IsSeparator gap) (cs : List Char) :
    ∃ c, (gap ++ cs).head? = some c ∧ (c = ' ' ∨ c = ',') := by
  obtain ⟨c, rest, rfl⟩ := List.exists_cons_of_ne_nil h.nonempty
  exact ⟨c, rfl, h.chars c List.mem_cons_self⟩

theorem isGap (h : IsSeparator gap) : IsGap (runs (classify gap)) where
  nonempty := by
    refine runs_ne_nil fun hnil => h.nonempty ?_
    simpa [classify] using hnil
  spacing run hrun := by
    have hmem := isRunOf_of_mem_runs hrun
    obtain ⟨a, ha⟩ := List.exists_mem_of_ne_nil run.2 hmem.nonempty
    obtain ⟨c, hc, he⟩ := List.mem_map.mp (hmem.mem a ha)
    have hkind : Kind.ofChar c = run.1 := congrArg Prod.fst he
    rw [← hkind]
    rcases h.chars c hc with rfl | rfl <;> rfl

end IsSeparator

theorem isSpacing_ofChar {c : Char} : isSpacing (Kind.ofChar c) ↔ c = ' ' ∨ c = ',' := by
  rw [isSpacing, decide_eq_true_iff, ofChar_eq_iff rfl, ofChar_eq_iff rfl]

theorem isSpacing_kindIn {inside : Bool} {c : Char} (hc : inside = true ∨ (c ≠ ' ' ∧ c ≠ ',')) :
    isSpacing (kindIn inside c) = false := by
  unfold kindIn
  split
  · rfl
  · next h =>
    refine Bool.eq_false_iff.mpr fun hspacing => ?_
    have hchar := isSpacing_ofChar.mp hspacing
    rcases hc with rfl | ⟨hblank, hcomma⟩
    · rcases hchar with rfl | rfl <;> exact h rfl
    · exact hchar.elim hblank hcomma

/-- A text that starts with no separator and no colon has runs that do not either. -/
theorem startsSolid_runs {cs : List Char} (h : ∀ c ∈ cs.head?, c ≠ ' ' ∧ c ≠ ',' ∧ c ≠ ':') :
    StartsSolid (runs (spread false (classify (unifyBreaks cs)))) := by
  cases cs with
  | nil => nofun
  | cons c cs =>
    obtain ⟨hblank, hcomma, hcolon⟩ := h c rfl
    have hsolid {c : Char} (hblank : c ≠ ' ') (hcomma : c ≠ ',') (hcolon : c ≠ ':')
        (cs : List Char) : StartsSolid (runs (spread false (classify (c :: cs)))) := by
      rw [StartsSolid, head?_runs, spread_classify_cons]
      intro kind hkind
      obtain rfl : kindIn false c = kind := Option.some.inj hkind
      refine ⟨isSpacing_kindIn (Or.inr ⟨hblank, hcomma⟩), ?_⟩
      unfold kindIn
      split
      · nofun
      · exact fun hlabel => hcolon ((ofChar_eq_iff rfl).mp hlabel)
    rw [unifyBreaks_cons]
    split
    · next hpair =>
      obtain ⟨rest, rfl⟩ := List.head?_eq_some_iff.mp hpair.2
      exact hsolid (by decide) (by decide) (by decide) _
    · exact hsolid hblank hcomma hcolon _

/-- A separator has its own runs before a text that starts with none and with no colon. -/
theorem IsSeparator.runs_append {gap : List Char} (h : IsSeparator gap) {cs : List Char}
    (hcs : StartsSolid (runs (spread false (classify (unifyBreaks cs))))) :
    runs (spread false (classify (unifyBreaks (gap ++ cs)))) =
      runs (classify gap) ++ runs (spread false (classify (unifyBreaks cs))) := by
  have hsign : '#' ∉ gap := h.not_mem (by decide) (by decide)
  have hreturn : '\r' ∉ gap := h.not_mem (by decide) (by decide)
  have hgap : spread false (classify gap) = classify gap :=
    spread_eq_self (kind_ne_of_mem_classify rfl hsign)
  rw [unifyBreaks_append_of_not_mem hreturn, spread_classify_append,
    foldl_inComment_of_not_mem hsign, hgap]
  cases hes : spread false (classify (unifyBreaks cs)) with
  | nil => rw [List.append_nil, runs, List.append_nil]
  | cons e es =>
    rw [hes, StartsSolid, head?_runs] at hcs
    obtain ⟨hspacing, -⟩ := hcs e.1 rfl
    refine runs_append_cons (Or.inr fun x hx hkind => ?_) e.2 es
    obtain ⟨c, hc, rfl⟩ := List.mem_map.mp hx
    rw [← hkind, isSpacing_ofChar.mpr (h.chars c hc)] at hspacing
    cases hspacing

/-! ## Texts with other separators -/

namespace Respaced

variable {inside : Bool} {cs ds : List Char}

/-- What is no separator is the same in both texts. -/
theorem head?_eq (h : Respaced inside cs ds) :
    cs.head? = ds.head? ∨ ∃ c d, cs.head? = some c ∧ ds.head? = some d ∧
      (c = ' ' ∨ c = ',') ∧ (d = ' ' ∨ d = ',') := by
  cases h with
  | nil => exact Or.inl rfl
  | char hc h => exact Or.inl rfl
  | @separator gap gap' cs ds hgap hgap' hcs h =>
    obtain ⟨c, hc, hspacing⟩ := hgap.head? cs
    obtain ⟨d, hd, hspacing'⟩ := hgap'.head? ds
    exact Or.inr ⟨c, d, hc, hd, hspacing, hspacing'⟩

theorem head?_eq_newline_iff (h : Respaced inside cs ds) :
    cs.head? = some '\n' ↔ ds.head? = some '\n' := by
  rcases h.head?_eq with he | ⟨c, d, hc, hd, hspacing, hspacing'⟩
  · rw [he]
  · rw [hc, hd, Option.some.injEq, Option.some.injEq]
    constructor
    · rintro rfl
      simp at hspacing
    · rintro rfl
      simp at hspacing'

/-- Other separators leave all other runs as they are. -/
theorem sameSolids (h : Respaced inside cs ds)
    (hcolon : ∀ before c after, cs = before ++ c :: ':' :: after → c = ' ' ∨ c = ',' →
      before.foldl inComment inside = true) :
    SameSolids (runs (spread inside (classify (unifyBreaks cs))))
      (runs (spread inside (classify (unifyBreaks ds)))) := by
  induction h with
  | nil inside => exact .nil
  | @char inside c cs ds hc h ih =>
    have hrest := ih fun before d after hcs hd =>
      hcolon (c :: before) d after (by rw [hcs]; rfl) hd
    rw [unifyBreaks_cons, unifyBreaks_cons]
    by_cases hpair : c = '\r' ∧ cs.head? = some '\n'
    · rw [if_pos hpair, if_pos ⟨hpair.1, h.head?_eq_newline_iff.mp hpair.2⟩]
      obtain rfl := hpair.1
      have hsame : inComment inside '\r' = inside := by simp [inComment]
      rwa [hsame] at hrest
    · rw [if_neg hpair, if_neg fun hpair' => hpair
        ⟨hpair'.1, h.head?_eq_newline_iff.mpr hpair'.2⟩, spread_classify_cons, spread_classify_cons]
      exact hrest.extend (isSpacing_kindIn hc) c
  | @separator gap gap' cs ds hgap hgap' hcs h ih =>
    have hsign : '#' ∉ gap := hgap.not_mem (by decide) (by decide)
    have hrest := ih fun before c after hsplit hc => by
      have := hcolon (gap ++ before) c after (by rw [hsplit, List.append_assoc]) hc
      rwa [List.foldl_append, foldl_inComment_of_not_mem hsign] at this
    have hsolid : ∀ c ∈ cs.head?, c ≠ ' ' ∧ c ≠ ',' ∧ c ≠ ':' := by
      intro c hc
      refine ⟨(hcs c hc).1, (hcs c hc).2, ?_⟩
      rintro rfl
      obtain ⟨after, rfl⟩ := List.head?_eq_some_iff.mp hc
      obtain ⟨front, x, rfl⟩ := (List.eq_nil_or_concat gap).resolve_left hgap.nonempty
      have hinside := hcolon front x after (by simp) (hgap.chars x (by simp))
      rw [foldl_inComment_of_not_mem fun hfront => hsign (by simp [hfront])] at hinside
      cases hinside
    have hsolid' : ∀ c ∈ ds.head?, c ≠ ' ' ∧ c ≠ ',' ∧ c ≠ ':' := by
      rcases h.head?_eq with he | ⟨c, -, hc, -, hspacing, -⟩
      · rwa [← he]
      · exact absurd hspacing (not_or.mpr (hcs c hc))
    have hstarts := startsSolid_runs hsolid
    have hstarts' := startsSolid_runs hsolid'
    rw [hgap.runs_append hstarts, hgap'.runs_append hstarts']
    exact .gap hgap.isGap hgap'.isGap hstarts hstarts' hrest

theorem ofText_eq {text other : String} (h : Respaced false text.toList other.toList)
    (hcolon : ¬ HasSpacedColon text.toList) : ofText other = ofText text := by
  have hsolids := h.sameSolids fun before c after hsplit hc => by
    by_contra houtside
    exact hcolon ⟨before, c, after, hsplit, hc, eq_false_of_ne_true houtside⟩
  exact (hsolids.map String.ofList).filter_assemble.2.symm

end Respaced

/-! ## Texts with other line breaks -/

/-- The second text is the first one with some of its line breaks written as pairs. -/
inductive Rebroken : List Char → List Char → Prop
  | nil : Rebroken [] []
  | char (c : Char) {cs ds : List Char} (h : Rebroken cs ds) : Rebroken (c :: cs) (c :: ds)
  | pair {cs ds : List Char} (h : Rebroken cs ds) : Rebroken ('\n' :: cs) ('\r' :: '\n' :: ds)

theorem Rebroken.unifyBreaks_eq {cs ds : List Char} (h : Rebroken cs ds) (hcs : '\r' ∉ cs) :
    unifyBreaks ds = cs := by
  induction h with
  | nil => rfl
  | char c h ih =>
    rw [List.mem_cons, not_or] at hcs
    rw [unifyBreaks_cons, if_neg fun hpair => hcs.1 hpair.1.symm, ih hcs.2]
  | pair h ih =>
    rw [List.mem_cons, not_or] at hcs
    rw [unifyBreaks, ih hcs.2]

theorem Rebroken.ofText_eq {text other : String} (h : Rebroken text.toList other.toList)
    (hreturn : '\r' ∉ text.toList) : ofText other = ofText text := by
  have hbreaks : unifyBreaks other.toList = unifyBreaks text.toList := by
    rw [h.unifyBreaks_eq hreturn, unifyBreaks_eq_self hreturn]
  rw [ofText, ofText, all, all, hbreaks]

/-! ## The reading of texts -/

/-- Two texts are the same to a node: they have the same lexemes, are the same program or are
refused with the same error, and have the same faults whatever the links are. -/
structure ReadAlike (text other : String) : Prop where
  lexemes : ofText other = ofText text
  program : Program.parse other = Program.parse text
  faults : ∀ links : LinkSet,
    (Program.parse other).map (Program.faults links) =
      (Program.parse text).map (Program.faults links)

theorem ReadAlike.of_ofText_eq {text other : String} (h : ofText other = ofText text) :
    ReadAlike text other := by
  have hprogram : Program.parse other = Program.parse text := congrArg Program.ofLexemes h
  exact ⟨h, hprogram, fun links => by rw [hprogram]⟩

/-- Layout does not matter: a text is read alike with other separators, if no colon stands right
after one, and with other line breaks, if it has no carriage return. -/
theorem readAlike_of_layout (text : String) :
    (¬ HasSpacedColon text.toList →
        ∀ other, Respaced false text.toList other.toList → ReadAlike text other) ∧
      ('\r' ∉ text.toList →
        ∀ other, Rebroken text.toList other.toList → ReadAlike text other) :=
  ⟨fun hcolon _ h => .of_ofText_eq (h.ofText_eq hcolon),
    fun hreturn _ h => .of_ofText_eq (h.ofText_eq hreturn)⟩

theorem readAlike_add :
    ReadAlike "ADD 1 #," "ADD,1, #," ∧ ReadAlike "A:\nNOP\n" "A:\r\nNOP\n" := by
  have hblank : IsSeparator [' '] := ⟨nofun, by simp⟩
  have hcomma : IsSeparator [','] := ⟨nofun, by simp⟩
  have hboth : IsSeparator [',', ' '] := ⟨nofun, by simp⟩
  have hcomment : Respaced false ['#', ','] ['#', ','] :=
    .char (by decide) (.char (Or.inl rfl) (.nil true))
  have hnumber : Respaced false ['1', ' ', '#', ','] ['1', ',', ' ', '#', ','] :=
    .char (by decide) (.separator hblank hboth (by simp) hcomment)
  have hadd : Respaced false ['A', 'D', 'D', ' ', '1', ' ', '#', ',']
      ['A', 'D', 'D', ',', '1', ',', ' ', '#', ','] :=
    .char (by decide) (.char (by decide) (.char (by decide)
      (.separator hblank hcomma (by simp) hnumber)))
  have hbreaks : Rebroken "A:\nNOP\n".toList "A:\r\nNOP\n".toList :=
    .char 'A' (.char ':' (.pair (.char 'N' (.char 'O' (.char 'P' (.char '\n' .nil))))))
  exact ⟨(readAlike_of_layout _).1 (by decide) _ hadd,
    (readAlike_of_layout _).2 (by decide) _ hbreaks⟩

end NodeGrid.Lexeme
