import NodeGrid.Proofs.Program.Scanning

/-!
# Origins of lexemes

Where lexemes come from (`origin_of_mem_scan`): a lexeme is a run of plain characters, perhaps named
a label by a colon, or a comment, or a line break. A colon never meets a comment, which takes in all
of its line. But it does meet the line break before it, and makes a label without a name of it.

* `cases_of_mem_ofText`: so a lexeme of a text is a comment with its sign, a line break, a label
  without a name, and then some line opens with a colon, or it has a text without a comment sign.
-/

namespace NodeGrid

/-- The kinds whose runs stand for themselves. -/
def Kind.isPlain : Kind → Bool
  | blank | number | word => true
  | newline | comma | comment | label => false

namespace Lexeme

section

variable {α : Type} {spell : List α → String} {es : List (Kind × α)} {lexeme : Lexeme}

/-! ## Runs -/

/-- A run is a part of the elements, all of one kind. -/
structure IsRunOf (es : List (Kind × α)) (kind : Kind) (run : List α) : Prop where
  nonempty : run ≠ []
  mem : ∀ a ∈ run, (kind, a) ∈ es

theorem IsRunOf.mono {es fs : List (Kind × α)} (h : es ⊆ fs) {kind : Kind} {run : List α}
    (hrun : IsRunOf es kind run) : IsRunOf fs kind run :=
  ⟨hrun.nonempty, fun a ha => h (hrun.mem a ha)⟩

theorem isRunOf_of_mem_runs {es : List (Kind × α)} {kind : Kind} {run : List α}
    (h : (kind, run) ∈ runs es) : IsRunOf es kind run where
  nonempty := nonempty_of_mem_runs _ h
  mem a ha := by
    have hmem : (kind, a) ∈ (runs es).flatMap elements :=
      List.mem_flatMap.mpr ⟨_, h, List.mem_map_of_mem ha⟩
    rwa [flatMap_elements_runs] at hmem

/-- A lexeme is that of a run, and is named a label if a colon comes next. -/
theorem exists_split_of_mem_assemble {rs : List (Kind × String)} (h : lexeme ∈ assemble rs) :
    ∃ before kind spelling after, rs = before ++ (kind, spelling) :: after ∧ kind ≠ .comma ∧
      kind ≠ .label ∧ lexeme =
        if closesLabel after then { ofRun kind spelling with kind := .label }
        else ofRun kind spelling := by
  fun_induction assemble rs with
  | case1 => cases h
  | case2 spelling rest ih | case3 spelling rest ih =>
    obtain ⟨before, kind, text, after, rfl, hkind⟩ := ih h
    exact ⟨_ :: before, kind, text, after, rfl, hkind⟩
  | case4 kind text rest hcomma hlabel run ih =>
    rcases List.mem_cons.mp h with rfl | h
    · exact ⟨[], kind, text, rest, rfl, hcomma, hlabel, rfl⟩
    · obtain ⟨before, other, text', after, rfl, hkind⟩ := ih h
      exact ⟨_ :: before, other, text', after, rfl, hkind⟩

/-! ## Lines of elements -/

theorem spread_true {es : List (Kind × α)} (h : ∀ e ∈ es, e.1 ≠ .newline) :
    spread true es = es.map fun e => (.comment, e.2) := by
  induction es with
  | nil => rfl
  | cons e es ih =>
    have he : e.1 ≠ .newline := h e List.mem_cons_self
    simp [spread, he, ih fun e he => h e (List.mem_cons_of_mem _ he)]

theorem spread_append_comment {xs : List (Kind × α)} (hxs : ∀ x ∈ xs, x.1 ≠ .comment)
    (a : α) (zs : List (Kind × α)) :
    spread false (xs ++ (.comment, a) :: zs) = xs ++ (.comment, a) :: spread true zs := by
  induction xs with
  | nil => rfl
  | cons x xs ih =>
    have hx : x.1 ≠ .comment := hxs x List.mem_cons_self
    simp [spread, hx, ih fun x hx => hxs x (List.mem_cons_of_mem _ hx)]

/-- A comment is the last lexeme of its line. -/
theorem scan_append_comment {xs : List (Kind × α)} (hxs : ∀ x ∈ xs, x.1 ≠ .comment)
    (a : α) {zs : List (Kind × α)} (hzs : ∀ z ∈ zs, z.1 ≠ .newline) :
    scan spell (xs ++ (.comment, a) :: zs) =
      scan spell xs ++ [⟨.comment, spell (a :: zs.map Prod.snd)⟩] := by
  have hcomment : runs ((.comment, a) :: spread true zs) = [(.comment, a :: zs.map Prod.snd)] := by
    have hne : a :: zs.map Prod.snd ≠ [] := List.cons_ne_nil a _
    have hblock := @runs_block α .comment nofun _ hne [] nofun
    rw [List.append_nil, List.map_cons, List.map_map] at hblock
    rw [spread_true hzs]
    exact hblock
  have hkind : Kind.comment ≠ .comma ∧ Kind.comment ≠ .label := ⟨nofun, nofun⟩
  unfold scan
  rw [spread_append_comment hxs, runs_append_cons (Or.inr hxs), hcomment, spread_eq_self hxs,
    List.map_append, List.map_cons, assemble_append_cons hkind.1 hkind.2]
  rfl

/-! ## Lexemes -/

/-- What a lexeme can be made of. -/
inductive Origin (spell : List α → String) (es : List (Kind × α)) : Lexeme → Prop
  | plain {kind : Kind} {run : List α} (hkind : kind.isPlain) (hrun : IsRunOf es kind run) :
      Origin spell es (ofRun kind (spell run))
  | named {kind : Kind} {run : List α} (hkind : kind.isPlain) (hrun : IsRunOf es kind run) :
      Origin spell es { ofRun kind (spell run) with kind := .label }
  | comment {a : α} (run : List α) (hsign : (.comment, a) ∈ es) :
      Origin spell es ⟨.comment, spell (a :: run)⟩
  | lineBreak : Origin spell es ⟨.newline, ""⟩
  | nameless {xs : List (Kind × α)} {a : α} {ys : List (Kind × α)}
      (hes : es = xs ++ (.newline, a) :: ys) (hcolon : firstKind? ys = some .label) :
      Origin spell es ⟨.label, ""⟩

theorem firstKind?_append {ys : List (Kind × α)} {kind : Kind} (h : firstKind? ys = some kind)
    (zs : List (Kind × α)) : firstKind? (ys ++ zs) = some kind := by
  unfold firstKind? at h ⊢
  rw [List.map_append, List.find?_append, h]
  rfl

theorem Origin.append (h : Origin spell es lexeme) (xs zs : List (Kind × α)) :
    Origin spell (xs ++ es ++ zs) lexeme := by
  have hsubset : es ⊆ xs ++ es ++ zs := fun e he => by simp [he]
  cases h with
  | plain hkind hrun => exact .plain hkind (hrun.mono hsubset)
  | named hkind hrun => exact .named hkind (hrun.mono hsubset)
  | comment run hsign => exact .comment run (hsubset hsign)
  | lineBreak => exact .lineBreak
  | @nameless us a ys hes hcolon =>
    have hsplit : xs ++ es ++ zs = (xs ++ us) ++ (.newline, a) :: (ys ++ zs) := by simp [hes]
    exact .nameless hsplit (firstKind?_append hcolon zs)

theorem origin_of_plain (hcomment : ∀ e ∈ es, e.1 ≠ .comment) (hnewline : ∀ e ∈ es, e.1 ≠ .newline)
    (h : lexeme ∈ scan spell es) : Origin spell es lexeme := by
  rw [scan, spread_eq_self hcomment] at h
  obtain ⟨before, _, _, after, hrs, hcomma, hlabel, rfl⟩ := exists_split_of_mem_assemble h
  obtain ⟨_, _, hruns, -, hrest⟩ := List.map_eq_append_iff.mp hrs
  obtain ⟨⟨kind, run⟩, _, rfl, he, -⟩ := List.map_eq_cons_iff.mp hrest
  cases he
  have hrun : IsRunOf es kind run := isRunOf_of_mem_runs (by simp [hruns])
  have hkind : kind.isPlain := by
    obtain ⟨a, ha⟩ := List.exists_mem_of_ne_nil run hrun.nonempty
    have := hcomment _ (hrun.mem a ha)
    have := hnewline _ (hrun.mem a ha)
    cases kind <;> first | rfl | contradiction
  split
  · exact .named hkind hrun
  · exact .plain hkind hrun

/-- The elements up to the first one of a kind. -/
theorem exists_first_of_kind (kind : Kind) (es : List (Kind × α)) :
    (∀ e ∈ es, e.1 ≠ kind) ∨
      ∃ xs a ys, es = xs ++ (kind, a) :: ys ∧ ∀ x ∈ xs, x.1 ≠ kind := by
  cases hfind : es.find? (·.1 = kind) with
  | none => exact Or.inl (by simpa using hfind)
  | some e =>
    obtain ⟨hkind, xs, ys, rfl, hxs⟩ := List.find?_eq_some_iff_append.mp hfind
    obtain rfl : e.1 = kind := by simpa using hkind
    exact Or.inr ⟨xs, e.2, ys, rfl, by simpa using hxs⟩

theorem origin_of_line (hnewline : ∀ e ∈ es, e.1 ≠ .newline) (h : lexeme ∈ scan spell es) :
    Origin spell es lexeme := by
  rcases exists_first_of_kind .comment es with hcomment | ⟨xs, a, zs, rfl, hxs⟩
  · exact origin_of_plain hcomment hnewline h
  · have hzs : ∀ z ∈ zs, z.1 ≠ .newline := fun z hz => hnewline z (by simp [hz])
    rw [scan_append_comment hxs a hzs, List.mem_append, List.mem_singleton] at h
    rcases h with h | rfl
    · exact (origin_of_plain hxs (fun x hx => hnewline x (by simp [hx])) h).append [] _
    · exact .comment _ (by simp)

/-- Every lexeme comes from a run of plain characters, a comment or a line break. -/
theorem origin_of_mem_scan (h : lexeme ∈ scan spell es) : Origin spell es lexeme := by
  induction hn : es.length using Nat.strongRecOn generalizing es with
  | ind n ih =>
    rcases exists_first_of_kind .newline es with hnewline | ⟨xs, a, ys, rfl, hxs⟩
    · exact origin_of_line hnewline h
    · rw [scan_append_newline, List.mem_append, List.mem_cons] at h
      rcases h with h | rfl | h
      · exact (origin_of_line hxs h).append [] _
      · split
        · next hcolon => exact .nameless rfl hcolon
        · exact .lineBreak
      · have hys : Origin spell ys lexeme := ih ys.length (by simp at hn; omega) h rfl
        have hsplit : xs ++ (.newline, a) :: ys = xs ++ [(.newline, a)] ++ ys ++ [] := by simp
        rw [hsplit]
        exact hys.append _ _

end

/-! ## Lexemes of a text -/

/-- Some line after the first opens with a colon, commas apart. -/
def OpensWithColon (text : String) : Prop :=
  ∃ before after, text.toList = before ++ '\n' :: after ∧ after.find? (· ≠ ',') = some ':'

theorem exists_of_unifyBreaks_eq {cs us vs : List Char}
    (h : unifyBreaks cs = us ++ '\n' :: vs) :
    ∃ before after, cs = before ++ '\n' :: after ∧ unifyBreaks after = vs := by
  fun_induction unifyBreaks cs generalizing us with
  | case1 => simp at h
  | case2 rest ih =>
    cases us with
    | nil => exact ⟨['\r'], rest, rfl, (List.cons.inj h).2⟩
    | cons u us =>
      obtain ⟨before, after, rfl, hafter⟩ := ih (List.cons.inj h).2
      exact ⟨'\r' :: '\n' :: before, after, rfl, hafter⟩
  | case3 c rest hpair ih =>
    cases us with
    | nil =>
      obtain ⟨rfl, hrest⟩ := List.cons.inj h
      exact ⟨[], rest, rfl, hrest⟩
    | cons u us =>
      obtain ⟨before, after, rfl, hafter⟩ := ih (List.cons.inj h).2
      exact ⟨c :: before, after, rfl, hafter⟩

theorem ofChar_of_mem_classify {cs : List Char} {kind : Kind} {c : Char}
    (h : (kind, c) ∈ classify cs) : Kind.ofChar c = kind := by
  obtain ⟨d, _, he⟩ := List.mem_map.mp h
  cases he
  rfl

@[simp] theorem kind_ofRun (kind : Kind) (spelling : String) :
    (ofRun kind spelling).kind = kind := by
  cases kind <;> rfl

/-- A plain run has a text, and no comment sign in it. -/
theorem text_ofRun {cs run : List Char} {kind : Kind} (hkind : kind.isPlain)
    (hrun : IsRunOf (classify cs) kind run) :
    (ofRun kind (String.ofList run)).text ≠ "" ∧
      '#' ∉ (ofRun kind (String.ofList run)).text.toList := by
  have hspelling : String.ofList run ≠ "" ∧ '#' ∉ (String.ofList run).toList := by
    refine ⟨by simpa using hrun.nonempty, fun hsign => ?_⟩
    rw [String.toList_ofList] at hsign
    cases ofChar_of_mem_classify (hrun.mem '#' hsign)
    cases hkind
  cases kind with
  | blank => exact ⟨by simp [ofRun], by simp [ofRun]⟩
  | number | word => exact hspelling
  | newline | comma | comment | label => cases hkind

/-- A colon first after a line break of the unified text is there in the text itself. -/
theorem opensWithColon_of_unified {text : String} {xs ys : List (Kind × Char)} {c : Char}
    (h : classify (unifyBreaks text.toList) = xs ++ (.newline, c) :: ys)
    (hcolon : firstKind? ys = some .label) : OpensWithColon text := by
  obtain ⟨us, vs, hunified, -, hvs⟩ := List.map_eq_append_iff.mp h
  obtain ⟨d, ds, rfl, hd, rfl⟩ := List.map_eq_cons_iff.mp hvs
  obtain rfl : d = '\n' := (ofChar_eq_iff rfl).mp (congrArg Prod.fst hd)
  obtain ⟨before, after, htext, rfl⟩ := exists_of_unifyBreaks_eq hunified
  refine ⟨before, after, htext, Classical.byContradiction fun hfind => ?_⟩
  exact find?_unifyBreaks hfind (firstKind?_classify_eq_label_iff.mp hcolon)

/-- What a lexeme of a text is: a comment with its sign, a line break without a text, a line break
that a colon makes a label, or a lexeme with a text of its own. -/
theorem cases_of_mem_ofText {text : String} {lexeme : Lexeme} (h : lexeme ∈ ofText text) :
    (lexeme.kind = .comment ∧ '#' ∈ lexeme.text.toList) ∨
      (lexeme.kind = .newline ∧ lexeme.text = "") ∨
      (lexeme = ⟨.label, ""⟩ ∧ OpensWithColon text) ∨
      (lexeme.kind ≠ .comment ∧ lexeme.kind ≠ .newline ∧ lexeme.text ≠ "" ∧
        '#' ∉ lexeme.text.toList) := by
  have hall : lexeme ∈ all text := (List.mem_filter.mp h).1
  rw [all_eq_scan] at hall
  cases origin_of_mem_scan hall with
  | @plain kind run hkind hrun =>
    have hown : kind ≠ .comment ∧ kind ≠ .newline := by
      constructor <;> (rintro rfl; cases hkind)
    refine Or.inr (Or.inr (Or.inr ⟨?_, ?_, text_ofRun hkind hrun⟩))
    · rw [kind_ofRun]
      exact hown.1
    · rw [kind_ofRun]
      exact hown.2
  | named hkind hrun => exact Or.inr (Or.inr (Or.inr ⟨nofun, nofun, text_ofRun hkind hrun⟩))
  | @comment a run hsign =>
    have ha : a = '#' := (ofChar_eq_iff rfl).mp (ofChar_of_mem_classify hsign)
    exact Or.inl ⟨rfl, by simp [ha]⟩
  | lineBreak => exact Or.inr (Or.inl ⟨rfl, rfl⟩)
  | nameless hes hcolon =>
    exact Or.inr (Or.inr (Or.inl ⟨rfl, opensWithColon_of_unified hes hcolon⟩))

end Lexeme

end NodeGrid
