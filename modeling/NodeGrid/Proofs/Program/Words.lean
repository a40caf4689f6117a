import NodeGrid.Proofs.Program.Scanning

/-!
# Words and numbers

Lines that are made of words and numbers, and how they are scanned.

* `ofText_label`: a word before a colon is a label.
* `ofText_intercalate`: words and numbers with spaces between them are read back.
-/

namespace NodeGrid.Lexeme

/-! ## Solid lexemes -/

/-- A word or a number as it is written. -/
structure IsSolid (lexeme : Lexeme) : Prop where
  kind : lexeme.kind = .word ∨ lexeme.kind = .number
  nonempty : lexeme.text.toList ≠ []
  chars : ∀ c ∈ lexeme.text.toList, Kind.ofChar c = lexeme.kind ∧ c ≠ '\r'

namespace IsSolid

variable {lexeme : Lexeme}

theorem kind_ne (h : lexeme.IsSolid) (kind : Kind) (hword : kind ≠ .word)
    (hnumber : kind ≠ .number) : lexeme.kind ≠ kind := by
  rcases h.kind with hk | hk
  · exact fun he => hword (he.symm.trans hk)
  · exact fun he => hnumber (he.symm.trans hk)

theorem chars_plain (h : lexeme.IsSolid) :
    ∀ c ∈ lexeme.text.toList, c ≠ '\r' ∧ Kind.ofChar c ≠ .comment := by
  intro c hc
  obtain ⟨hkind, hreturn⟩ := h.chars c hc
  exact ⟨hreturn, hkind ▸ h.kind_ne .comment nofun nofun⟩

theorem classify_toList (h : lexeme.IsSolid) :
    classify lexeme.text.toList = lexeme.text.toList.map (lexeme.kind, ·) := by
  apply List.map_congr_left
  intro c hc
  rw [(h.chars c hc).1]

theorem head?_classify (h : lexeme.IsSolid) (cs : List Char) :
    (classify (lexeme.text.toList ++ cs)).head?.map Prod.fst = some lexeme.kind := by
  obtain ⟨c, rest, hrest⟩ := List.exists_cons_of_ne_nil h.nonempty
  have hc : c ∈ lexeme.text.toList := by simp [hrest]
  simp [classify, hrest, (h.chars c hc).1]

theorem head?_classify_ne_blank (h : lexeme.IsSolid) (cs : List Char) :
    (classify (lexeme.text.toList ++ cs)).head?.map Prod.fst ≠ some .blank := by
  rw [h.head?_classify]
  intro he
  exact h.kind_ne .blank nofun nofun (Option.some.inj he)

theorem runs_append (h : lexeme.IsSolid) {cs : List Char}
    (hcs : (classify cs).head?.map Prod.fst ≠ some lexeme.kind) :
    runs (classify (lexeme.text.toList ++ cs)) =
      (lexeme.kind, lexeme.text.toList) :: runs (classify cs) := by
  have hnewline : lexeme.kind ≠ .newline := h.kind_ne .newline nofun nofun
  rw [classify, List.map_append, ← classify, ← classify, h.classify_toList]
  exact runs_block hnewline h.nonempty hcs

theorem runs_append_blank (h : lexeme.IsSolid) {cs : List Char}
    (hcs : (classify cs).head?.map Prod.fst ≠ some .blank) :
    runs (classify (lexeme.text.toList ++ ' ' :: cs)) =
      (lexeme.kind, lexeme.text.toList) :: (.blank, [' ']) :: runs (classify cs) := by
  have hruns : runs (classify (lexeme.text.toList ++ ' ' :: cs)) =
      (lexeme.kind, lexeme.text.toList) :: runs (classify (' ' :: cs)) := by
    refine h.runs_append ?_
    intro he
    exact h.kind_ne .blank nofun nofun (Option.some.inj he).symm
  have hblank : runs (classify (' ' :: cs)) = (.blank, [' ']) :: runs (classify cs) :=
    extend_of_head?_ne ' ' (Or.inr (by rwa [head?_runs]))
  rw [hruns, hblank]

theorem assemble_cons (h : lexeme.IsSolid) {rs : List (Kind × String)}
    (hrs : closesLabel rs = false) :
    assemble ((lexeme.kind, lexeme.text) :: rs) = lexeme :: assemble rs := by
  obtain ⟨kind, text⟩ := lexeme
  rcases h.kind with hk | hk
  · cases hk
    simp [assemble, hrs, ofRun]
  · cases hk
    simp [assemble, hrs, ofRun]

end IsSolid

/-! ## Lines of solid lexemes -/

/-- Without comments and carriage returns all that counts is the runs. -/
theorem all_eq_assemble {text : String}
    (h : ∀ c ∈ text.toList, c ≠ '\r' ∧ Kind.ofChar c ≠ .comment) :
    all text =
      assemble ((runs (classify text.toList)).map fun run => (run.1, String.ofList run.2)) := by
  have hreturn : '\r' ∉ text.toList := fun hmem => (h _ hmem).1 rfl
  have hcomment : ∀ e ∈ classify text.toList, e.1 ≠ .comment := by
    intro e he
    obtain ⟨c, hc, rfl⟩ := List.mem_map.mp he
    exact (h c hc).2
  unfold all scan
  rw [unifyBreaks_eq_self hreturn, ← classify, spread_eq_self hcomment]

/-- A word or a number before a colon is a label. -/
theorem ofText_label {lexeme : Lexeme} (h : lexeme.IsSolid) :
    ofText (lexeme.text ++ ":") = [⟨.label, lexeme.text⟩] := by
  have hchars : (lexeme.text ++ ":").toList = lexeme.text.toList ++ [':'] := by simp
  have hplain : ∀ c ∈ (lexeme.text ++ ":").toList, c ≠ '\r' ∧ Kind.ofChar c ≠ .comment := by
    intro c hc
    rw [hchars, List.mem_append, List.mem_singleton] at hc
    rcases hc with hc | rfl
    · exact h.chars_plain c hc
    · exact ⟨by decide, by decide⟩
  have hruns : runs (classify (lexeme.text.toList ++ [':'])) =
      [(lexeme.kind, lexeme.text.toList), (.label, [':'])] := by
    refine h.runs_append ?_
    intro he
    exact h.kind_ne .label nofun nofun (Option.some.inj he).symm
  rw [ofText, all_eq_assemble hplain, hchars, hruns]
  rcases h.kind with hk | hk
  · simp [hk, assemble, closesLabel, ofRun]
  · simp [hk, assemble, closesLabel, ofRun]

/-- Words and numbers with spaces between them, as runs. -/
def spaced : List Lexeme → List (Kind × String)
  | [] => []
  | [lexeme] => [(lexeme.kind, lexeme.text)]
  | lexeme :: rest => (lexeme.kind, lexeme.text) :: (.blank, " ") :: spaced rest

theorem runs_spaced {lexemes : List Lexeme} (h : ∀ lexeme ∈ lexemes, lexeme.IsSolid) :
    (runs (classify (" ".intercalate (lexemes.map text)).toList)).map
      (fun run => (run.1, String.ofList run.2)) = spaced lexemes := by
  induction lexemes with
  | nil => rfl
  | cons lexeme rest ih =>
    have hlexeme := h lexeme (by simp)
    have hrest := ih fun l hl => h l (List.mem_cons_of_mem _ hl)
    cases rest with
    | nil =>
      have hruns : runs (classify (lexeme.text.toList ++ [])) =
          (lexeme.kind, lexeme.text.toList) :: runs [] := hlexeme.runs_append (by simp [classify])
      rw [List.append_nil] at hruns
      simp only [List.map_cons, List.map_nil, String.intercalate_singleton, hruns, runs, spaced,
        String.ofList_toList]
    | cons next others =>
      have hnext := h next (by simp)
      obtain ⟨cs, hcs⟩ := exists_toList_intercalate " " next.text (others.map text)
      have hnextBlank : (classify (" ".intercalate ((next :: others).map text)).toList).head?.map
          Prod.fst ≠ some .blank := by
        rw [List.map_cons, hcs]
        exact hnext.head?_classify_ne_blank cs
      have hchars : (" ".intercalate ((lexeme :: next :: others).map text)).toList =
          lexeme.text.toList ++ ' ' :: (" ".intercalate ((next :: others).map text)).toList := by
        simp [String.intercalate_cons_cons]
      rw [hchars, hlexeme.runs_append_blank hnextBlank, List.map_cons, List.map_cons, hrest,
        String.ofList_toList]
      rfl

theorem closesLabel_spaced {lexemes : List Lexeme} (h : ∀ lexeme ∈ lexemes, lexeme.IsSolid) :
    closesLabel (spaced lexemes) = false := by
  cases lexemes with
  | nil => rfl
  | cons lexeme rest =>
    rcases (h lexeme (by simp)).kind with hk | hk
    · cases rest <;> simp [spaced, hk, closesLabel]
    · cases rest <;> simp [spaced, hk, closesLabel]

theorem filter_assemble_spaced {lexemes : List Lexeme} (h : ∀ lexeme ∈ lexemes, lexeme.IsSolid) :
    (assemble (spaced lexemes)).filter (·.kind ≠ .blank) = lexemes := by
  induction lexemes with
  | nil => rfl
  | cons lexeme rest ih =>
    have hlexeme := h lexeme (by simp)
    have hsolid := fun l hl => h l (List.mem_cons_of_mem lexeme hl)
    have hblank : lexeme.kind ≠ .blank := hlexeme.kind_ne .blank nofun nofun
    cases rest with
    | nil =>
      rw [spaced, hlexeme.assemble_cons rfl]
      simp [assemble, hblank]
    | cons next others =>
      have hassemble : assemble (spaced (lexeme :: next :: others)) =
          lexeme :: ⟨.blank, " "⟩ :: assemble (spaced (next :: others)) := by
        rw [spaced, hlexeme.assemble_cons rfl, assemble, closesLabel_spaced hsolid]
        · rfl
        · simp
        · simp
        · simp
      rw [hassemble, List.filter_cons_of_pos (by simpa using hblank),
        List.filter_cons_of_neg (by simp), ih hsolid]

/-- Words and numbers with spaces between them are read back. -/
theorem ofText_intercalate {lexemes : List Lexeme} (h : ∀ lexeme ∈ lexemes, lexeme.IsSolid) :
    ofText (" ".intercalate (lexemes.map text)) = lexemes := by
  have hplain : ∀ c ∈ (" ".intercalate (lexemes.map text)).toList,
      c ≠ '\r' ∧ Kind.ofChar c ≠ .comment := by
    apply forall_mem_intercalate
    · exact List.forall_mem_singleton.mpr ⟨by decide, by decide⟩
    · intro s hs c hc
      obtain ⟨lexeme, hlexeme, rfl⟩ := List.mem_map.mp hs
      exact (h lexeme hlexeme).chars_plain c hc
  rw [ofText, all_eq_assemble hplain, runs_spaced h, filter_assemble_spaced h]

/-! ## First and last characters -/

theorem getLast?_ne {cs : List Char} (h : ∀ c ∈ cs, c ≠ '\r') : cs.getLast? ≠ some '\r' :=
  fun hlast => h _ (List.mem_of_getLast? hlast) rfl

theorem IsSolid.exists_head? {lexeme : Lexeme} (h : lexeme.IsSolid) (hk : lexeme.kind = .word)
    (rest : List Char) :
    ∃ c, (lexeme.text.toList ++ rest).head? = some c ∧ Kind.ofChar c = .word := by
  obtain ⟨c, cs, hcs⟩ := List.exists_cons_of_ne_nil h.nonempty
  have hc : c ∈ lexeme.text.toList := by simp [hcs]
  exact ⟨c, by simp [hcs], (h.chars c hc).1.trans hk⟩

theorem isLine_label {lexeme : Lexeme} (h : lexeme.IsSolid) (hk : lexeme.kind = .word) :
    IsLine (lexeme.text ++ ":") where
  first := by simpa using h.exists_head? hk [':']
  last := by simp

theorem isLine_intercalate {lexeme : Lexeme} {rest : List Lexeme}
    (h : ∀ l ∈ lexeme :: rest, l.IsSolid) (hk : lexeme.kind = .word) :
    IsLine (" ".intercalate ((lexeme :: rest).map text)) where
  first := by
    obtain ⟨cs, hcs⟩ := exists_toList_intercalate " " lexeme.text (rest.map text)
    rw [List.map_cons, hcs]
    exact (h lexeme (by simp)).exists_head? hk cs
  last := by
    apply getLast?_ne
    apply forall_mem_intercalate
    · exact List.forall_mem_singleton.mpr (by decide)
    · intro s hs c hc
      obtain ⟨l, hl, rfl⟩ := List.mem_map.mp hs
      exact ((h l hl).chars_plain c hc).1

end NodeGrid.Lexeme
