import NodeGrid.Proofs.Program.Places

/-!
# What a colon names

A colon makes a label of the lexeme before it, commas apart. That is the word or the number that
stands there, if one does. But a blank and a line break are lexemes as well, and a colon after one
of them makes a label of it, with a blank for its name or with none.

* `namesRun_or_hasLooseColon`: a label is named by a word or a number with a colon next, or the text
  has a colon after a blank or a line break.
* `exists_label_of_hasLooseColon`: such a colon does make a label of the blank or the line break.
* `colonsNameRuns_iff`: so these colons are all that keeps labels from being words and numbers, and
  line breaks from being counted.
* `not_colonsNameRuns`: and there are texts with such colons.
-/

namespace NodeGrid.Lexeme

/-- A longest run of a word or of a number outside comments with a colon next, commas apart. -/
structure IsClosedRun (before run after : List Char) (kind : Kind) : Prop where
  solid : kind = .word ∨ kind = .number
  nonempty : run ≠ []
  chars : ∀ c ∈ run, Kind.ofChar c = kind
  longest : before.getLast?.map Kind.ofChar ≠ some kind
  uncommented : endsInComment before = false
  colon : after.find? (· ≠ ',') = some ':'

/-- The name is such a run of the text. -/
def NamesRun (cs : List Char) (name : String) : Prop :=
  ∃ before run after kind, cs = before ++ run ++ after ∧ name = String.ofList run ∧
    IsClosedRun before run after kind

/-- A colon outside comments stands after a blank or a line break, commas apart. -/
def HasLooseColon (cs : List Char) : Prop :=
  ∃ before c after, cs = before ++ c :: after ∧
    (c = '\n' ∨ c = ' ' ∧ endsInComment before = false) ∧ after.find? (· ≠ ',') = some ':'

/-- Every label is named by a word or a number with a colon next, and all line breaks are there. -/
def ColonsNameRuns (text : String) : Prop :=
  (∀ lexeme ∈ join (kinds text) text, lexeme.kind = .label →
      NamesRun (unifyBreaks text.toList) lexeme.text) ∧
    (join (kinds text) text).countP (·.kind = .newline) = (unifyBreaks text.toList).count '\n'

/-! ## Labels -/

section

variable {cs : List Char} {lexeme : Lexeme}

theorem firstKind?_spread_true (cs : List Char) :
    firstKind? (spread true (classify cs)) ≠ some .label := by
  cases cs with
  | nil => nofun
  | cons c cs =>
    by_cases hbreak : c = '\n'
    · simp [spread_classify_cons, firstKind?, kindIn, inComment, hbreak, Kind.ofChar]
    · simp [spread_classify_cons, firstKind?, kindIn, inComment, hbreak]

/-- After a run a colon comes next only outside comments. -/
theorem IsRunAt.colon_next {before run after : List Char} {kind : Kind}
    (h : IsRunAt before run kind)
    (hcolon : firstKind? (spread (endsInComment (before ++ run)) (classify after)) =
      some .label) : kind ≠ .comment ∧ after.find? (· ≠ ',') = some ':' := by
  rw [h.endsInComment_eq] at hcolon
  by_cases hcomment : kind = .comment
  · rw [decide_eq_true hcomment] at hcolon
    exact absurd hcolon (firstKind?_spread_true after)
  · rw [decide_eq_false hcomment, firstKind?_spread] at hcolon
    exact ⟨hcomment, firstKind?_classify_eq_label_iff.mp hcolon⟩

/-- A colon after a run of blanks or of line breaks is loose: it stands after the last of them. -/
theorem hasLooseColon_of_isRunAt {before run after : List Char} {kind : Kind}
    (h : IsRunAt before run kind) (hkind : kind = .blank ∨ kind = .newline)
    (hcolon : after.find? (· ≠ ',') = some ':') : HasLooseColon (before ++ run ++ after) := by
  obtain ⟨front, c, hrun⟩ := (List.eq_nil_or_concat run).resolve_left h.nonempty
  rw [List.concat_eq_append] at hrun
  subst hrun
  refine ⟨before ++ front, c, after, by simp, ?_, hcolon⟩
  rcases hkind with rfl | rfl
  · have hchars := h.ofChar_eq nofun
    have hfront : '#' ∉ front := fun hsign => by cases hchars '#' (by simp [hsign])
    refine Or.inr ⟨(ofChar_eq_iff rfl).mp (hchars c (by simp)), ?_⟩
    rw [endsInComment_append, h.endsInComment_before nofun nofun,
      foldl_inComment_of_not_mem hfront]
  · exact Or.inl ((ofChar_eq_iff rfl).mp (h.ofChar_eq nofun c (by simp)))

/-- A label is named by a word or a number, or it comes from a loose colon. -/
theorem namesRun_or_hasLooseColon (h : lexeme ∈ scan String.ofList (classify cs))
    (hlabel : lexeme.kind = .label) : NamesRun cs lexeme.text ∨ HasLooseColon cs := by
  obtain ⟨before, run, after, kind, rfl, hrun, hnocomma, hnolabel, rfl⟩ := exists_run_of_mem_scan h
  split at hlabel
  · next hnext =>
    rw [if_pos hnext]
    obtain ⟨hcomment, hcolon⟩ := hrun.colon_next hnext
    have hclosed (hsolid : kind = .word ∨ kind = .number) : IsClosedRun before run after kind := by
      have hnewline : kind ≠ .newline := by rcases hsolid with rfl | rfl <;> nofun
      exact ⟨hsolid, hrun.nonempty, hrun.ofChar_eq hcomment, hrun.getLast?_ne hcomment hnewline,
        hrun.endsInComment_before hcomment hnewline, hcolon⟩
    cases kind with
    | blank => exact Or.inr (hasLooseColon_of_isRunAt hrun (Or.inl rfl) hcolon)
    | newline => exact Or.inr (hasLooseColon_of_isRunAt hrun (Or.inr rfl) hcolon)
    | word => exact Or.inl ⟨before, run, after, .word, rfl, rfl, hclosed (Or.inl rfl)⟩
    | number => exact Or.inl ⟨before, run, after, .number, rfl, rfl, hclosed (Or.inr rfl)⟩
    | comma | comment | label => contradiction
  · rw [kind_ofRun] at hlabel
    contradiction

end

/-! ## Loose colons -/

section

variable {α : Type} {spell : List α → String}

theorem getLast?_runs (es : List (Kind × α)) :
    (runs es).getLast?.map Prod.fst = es.getLast?.map Prod.fst := by
  rw [← getLast?_flatMap_elements nonempty_of_mem_runs, flatMap_elements_runs]

/-- A colon names the run before it, whatever the run is. -/
theorem mem_assemble_of_closesLabel {kind : Kind} (hcomma : kind ≠ .comma) (hlabel : kind ≠ .label)
    (rs : List (Kind × String)) (spelling : String) {ts : List (Kind × String)}
    (h : closesLabel ts) :
    { ofRun kind spelling with kind := .label } ∈ assemble (rs ++ (kind, spelling) :: ts) := by
  rw [assemble_append_cons hcomma hlabel, assemble, if_pos h]
  · simp
  · exact hcomma
  · exact hlabel

/-- Before a colon, commas apart, a run ends. -/
theorem runs_append_of_firstKind? {kind : Kind} (hcomma : kind ≠ .comma) (hlabel : kind ≠ .label)
    (xs : List (Kind × α)) (a : α) {ys : List (Kind × α)} (h : firstKind? ys = some .label) :
    runs (xs ++ (kind, a) :: ys) = runs (xs ++ [(kind, a)]) ++ runs ys := by
  cases ys with
  | nil => cases h
  | cons y ys =>
    have hy : y.1 = .comma ∨ y.1 = .label := by
      by_cases hc : y.1 = .comma
      · exact Or.inl hc
      · simpa [firstKind?, hc] using h
    have hne : (xs ++ [(kind, a)]).getLast?.map Prod.fst ≠ some y.1 := by
      rw [List.getLast?_concat]
      rcases hy with hk | hk
      · simpa [hk] using hcomma
      · simpa [hk] using hlabel
    simpa using runs_append_cons_of_getLast? (Or.inr hne) y.2 ys

/-- A colon names the run of the element before it. -/
theorem exists_label_of_firstKind? {kind : Kind} (hcomma : kind ≠ .comma) (hlabel : kind ≠ .label)
    (xs : List (Kind × α)) (a : α) {ys : List (Kind × α)} (h : firstKind? ys = some .label) :
    ∃ run, { ofRun kind (spell run) with kind := .label } ∈
      assemble ((runs (xs ++ (kind, a) :: ys)).map fun run => (run.1, spell run.2)) := by
  have hkind : (runs (xs ++ [(kind, a)])).getLast?.map Prod.fst = some kind := by
    rw [getLast?_runs, List.getLast?_concat]
    rfl
  obtain ⟨last, hlast, rfl⟩ := Option.map_eq_some_iff.mp hkind
  obtain ⟨front, hfront⟩ := List.getLast?_eq_some_iff.mp hlast
  have hcloses : closesLabel ((runs ys).map fun run => (run.1, spell run.2)) := by
    rw [closesLabel_runs]
    exact decide_eq_true h
  refine ⟨last.2, ?_⟩
  rw [runs_append_of_firstKind? hcomma hlabel xs a h, hfront, List.append_assoc,
    List.singleton_append, List.map_append, List.map_cons]
  exact mem_assemble_of_closesLabel hcomma hlabel _ _ hcloses

end

/-- A loose colon makes a label of the blank or the line break before it. -/
theorem exists_label_of_hasLooseColon {cs : List Char} (h : HasLooseColon cs) :
    ∃ name, (name = " " ∨ name = "") ∧ ⟨.label, name⟩ ∈ scan String.ofList (classify cs) := by
  obtain ⟨before, c, after, rfl, hc, hcolon⟩ := h
  have hlabel : firstKind? (spread false (classify after)) = some .label := by
    rw [firstKind?_spread, firstKind?_classify_eq_label_iff, hcolon]
  have hspread (hout : inComment (endsInComment before) c = false) :
      spread false (classify (before ++ c :: after)) =
        spread false (classify before) ++ (Kind.ofChar c, c) :: spread false (classify after) := by
    rw [spread_classify_append, spread_classify_cons, kindIn, ← endsInComment, hout]
    rfl
  have hnewline : Kind.newline ≠ .comma ∧ Kind.newline ≠ .label := by decide
  have hblank : Kind.blank ≠ .comma ∧ Kind.blank ≠ .label := by decide
  rcases hc with rfl | ⟨rfl, hout⟩
  · obtain ⟨run, hmem⟩ := exists_label_of_firstKind? hnewline.1 hnewline.2
      (spread false (classify before)) '\n' hlabel
    refine ⟨"", Or.inr rfl, ?_⟩
    rw [scan, hspread (by simp [inComment])]
    exact hmem
  · obtain ⟨run, hmem⟩ := exists_label_of_firstKind? hblank.1 hblank.2
      (spread false (classify before)) ' ' hlabel
    refine ⟨" ", Or.inl rfl, ?_⟩
    rw [scan, hspread (by simp [inComment, hout])]
    exact hmem

theorem NamesRun.ne {cs : List Char} {name : String} (h : NamesRun cs name) :
    name ≠ " " ∧ name ≠ "" := by
  obtain ⟨before, run, after, kind, -, rfl, hrun⟩ := h
  constructor
  · intro hblank
    have hchars : run = [' '] := by simpa using congrArg String.toList hblank
    have hkind := hrun.chars ' ' (by simp [hchars])
    rcases hrun.solid with rfl | rfl <;> cases hkind
  · intro hempty
    exact hrun.nonempty (by simpa using congrArg String.toList hempty)

/-! ## Line breaks -/

theorem HasLooseColon.append {ys : List Char} (h : HasLooseColon ys) (xs : List Char) :
    HasLooseColon (xs ++ '\n' :: ys) := by
  obtain ⟨before, c, after, rfl, hc, hcolon⟩ := h
  refine ⟨xs ++ '\n' :: before, c, after, by simp, hc.imp_right fun ⟨hblank, hout⟩ => ⟨hblank, ?_⟩,
    hcolon⟩
  have hbreak : inComment (endsInComment xs) '\n' = false := by simp [inComment]
  rw [endsInComment_append, List.foldl_cons, hbreak]
  exact hout

theorem kind_ne_newline_of_mem_scan {cs : List Char} (h : '\n' ∉ cs) {lexeme : Lexeme}
    (hlexeme : lexeme ∈ scan String.ofList (classify cs)) : lexeme.kind ≠ .newline := by
  intro hkind
  obtain ⟨before, run, after, kind, rfl, hrun, -, -, rfl⟩ := exists_run_of_mem_scan hlexeme
  split at hkind
  · cases hkind
  · rw [kind_ofRun] at hkind
    obtain ⟨c, hc⟩ := List.exists_mem_of_ne_nil run hrun.nonempty
    have hbreak := hrun.ofChar_eq (by rw [hkind]; nofun) c hc
    rw [hkind, ofChar_eq_iff rfl] at hbreak
    subst hbreak
    exact h (by simp [hc])

/-- Without loose colons every line break is a lexeme of its own. -/
theorem countP_newline_scan {cs : List Char} (h : ¬ HasLooseColon cs) :
    (scan String.ofList (classify cs)).countP (·.kind = .newline) = cs.count '\n' := by
  have hline {cs : List Char} (hcs : '\n' ∉ cs) :
      (scan String.ofList (classify cs)).countP (·.kind = .newline) = cs.count '\n' := by
    rw [List.count_eq_zero_of_not_mem hcs, List.countP_eq_zero]
    exact fun lexeme hlexeme => by simpa using kind_ne_newline_of_mem_scan hcs hlexeme
  induction hn : cs.length using Nat.strongRecOn generalizing cs with
  | ind n ih =>
    by_cases hbreak : '\n' ∈ cs
    · obtain ⟨xs, ys, rfl, hxs⟩ := List.eq_append_cons_of_mem hbreak
      have hys := ih ys.length (by simp at hn; omega) (fun hys => h (hys.append xs)) rfl
      have hnext : firstKind? (classify ys) ≠ some .label := by
        intro hlabel
        exact h ⟨xs, '\n', ys, rfl, Or.inl rfl, firstKind?_classify_eq_label_iff.mp hlabel⟩
      have hkind : Kind.ofChar '\n' = .newline := rfl
      rw [classify_append_cons, hkind, scan_append_newline, if_neg hnext, List.countP_append,
        List.countP_cons, hline hxs, hys, List.count_append, List.count_cons]
      rfl
    · exact hline hbreak

/-! ## Texts -/

/-- Every label is named by a word or a number, and every line break is there, exactly if no colon
outside comments stands after a blank or a line break, commas apart. -/
theorem colonsNameRuns_iff (text : String) :
    ColonsNameRuns text ↔ ¬ HasLooseColon (unifyBreaks text.toList) := by
  rw [ColonsNameRuns, join_kinds, all_eq_scan]
  constructor
  · rintro ⟨hnames, -⟩ hloose
    obtain ⟨name, hname, hlabel⟩ := exists_label_of_hasLooseColon hloose
    obtain ⟨hblank, hempty⟩ := (hnames _ hlabel rfl).ne
    rcases hname with rfl | rfl
    · exact hblank rfl
    · exact hempty rfl
  · intro hloose
    refine ⟨fun lexeme hlexeme hlabel => ?_, countP_newline_scan hloose⟩
    exact (namesRun_or_hasLooseColon hlexeme hlabel).resolve_right hloose

/-- A colon first on a line makes a label of the line break before it. -/
theorem not_colonsNameRuns : ¬ ∀ text, ColonsNameRuns text := by
  intro h
  obtain ⟨-, hcount⟩ := h "A\n:B"
  exact absurd hcount (by decide)

end NodeGrid.Lexeme
