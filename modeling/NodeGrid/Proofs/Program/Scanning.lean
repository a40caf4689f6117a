import NodeGrid.Program.Lexeme

/-!
# Scanning

How the lexemes of a text depend on its parts.

* `ofText_append_newline`: a text is scanned line by line. Only a colon reaches back over a line
  break, if nothing but commas stands between.
* `ofText_lines`: so lines that start with a word have their own lexemes.
* `length_ofText_le`: a text has no more lexemes than characters.
-/

namespace NodeGrid.Lexeme

/-! ## Lengths -/

theorem length_unifyBreaks_le (cs : List Char) : (unifyBreaks cs).length ≤ cs.length := by
  fun_induction unifyBreaks cs with
  | case1 => exact Nat.le_refl 0
  | case2 rest ih =>
    simp only [List.length_cons]
    omega
  | case3 c rest h ih =>
    simp only [List.length_cons]
    omega

section

variable {α : Type}

theorem length_spread (inComment : Bool) (elements : List (Kind × α)) :
    (spread inComment elements).length = elements.length := by
  fun_induction spread inComment elements <;> simp_all

theorem length_extend_le (kind : Kind) (a : α) (rs : List (Kind × List α)) :
    (extend kind a rs).length ≤ rs.length + 1 := by
  unfold extend
  split
  · simp
  · split <;> simp

theorem length_runs_le (elements : List (Kind × α)) : (runs elements).length ≤ elements.length := by
  induction elements with
  | nil => exact Nat.le_refl 0
  | cons e rest ih =>
    exact Nat.le_trans (length_extend_le e.1 e.2 (runs rest)) (Nat.succ_le_succ ih)

end

theorem length_assemble_le (rs : List (Kind × String)) : (assemble rs).length ≤ rs.length := by
  fun_induction assemble rs <;> simp only [List.length_cons, List.length_nil] <;> omega

/-- A text has no more lexemes than characters. -/
theorem length_ofText_le (text : String) : (ofText text).length ≤ text.length := by
  calc
    (ofText text).length ≤ (all text).length := List.length_filter_le _ _
    _ ≤ (unifyBreaks text.toList).length := by
      refine Nat.le_trans (length_assemble_le _) ?_
      rw [List.length_map]
      refine Nat.le_trans (length_runs_le _) (Nat.le_of_eq ?_)
      rw [length_spread, List.length_map]
    _ ≤ text.length := length_unifyBreaks_le text.toList

/-! ## Line breaks -/

theorem unifyBreaks_cons (c : Char) (cs : List Char) :
    unifyBreaks (c :: cs) =
      if c = '\r' ∧ cs.head? = some '\n' then unifyBreaks cs else c :: unifyBreaks cs := by
  cases cs with
  | nil => simp [unifyBreaks]
  | cons d ds =>
    by_cases h : c = '\r' ∧ d = '\n'
    · obtain ⟨rfl, rfl⟩ := h
      simp [unifyBreaks]
    · rw [unifyBreaks]
      · simpa using h
      · exact fun rest hc hd => h ⟨hc, (List.cons.inj hd).1⟩

theorem unifyBreaks_append_newline {cs : List Char} (h : cs.getLast? ≠ some '\r')
    (ds : List Char) :
    unifyBreaks (cs ++ '\n' :: ds) = unifyBreaks cs ++ '\n' :: unifyBreaks ds := by
  induction cs with
  | nil => rfl
  | cons c cs ih =>
    cases cs with
    | nil =>
      have hc : c ≠ '\r' := by simpa using h
      simp [unifyBreaks, hc]
    | cons d cs =>
      have hrest := ih (by simpa using h)
      have hhead : (d :: cs ++ '\n' :: ds).head? = (d :: cs).head? := rfl
      rw [List.cons_append, unifyBreaks_cons, unifyBreaks_cons c, hrest, hhead]
      split <;> rfl

theorem unifyBreaks_append_of_not_mem {cs : List Char} (h : '\r' ∉ cs) (ds : List Char) :
    unifyBreaks (cs ++ ds) = cs ++ unifyBreaks ds := by
  induction cs with
  | nil => rfl
  | cons c cs ih =>
    rw [List.mem_cons, not_or] at h
    rw [List.cons_append, unifyBreaks_cons, if_neg fun hpair => h.1 hpair.1.symm, ih h.2,
      List.cons_append]

theorem unifyBreaks_eq_self {cs : List Char} (h : '\r' ∉ cs) : unifyBreaks cs = cs := by
  simpa [unifyBreaks] using unifyBreaks_append_of_not_mem h []

section Lines

variable {α : Type}

theorem spread_append_newline (inComment : Bool) (xs : List (Kind × α)) (a : α)
    (ys : List (Kind × α)) :
    spread inComment (xs ++ (.newline, a) :: ys) =
      spread inComment xs ++ (.newline, a) :: spread false ys := by
  induction xs generalizing inComment with
  | nil => simp [spread]
  | cons x xs ih =>
    obtain ⟨kind, b⟩ := x
    simp only [List.cons_append, spread]
    split
    · rw [ih, List.cons_append]
    · split <;> rw [ih, List.cons_append]

theorem spread_eq_self {es : List (Kind × α)} (h : ∀ e ∈ es, e.1 ≠ .comment) :
    spread false es = es := by
  induction es with
  | nil => rfl
  | cons e es ih =>
    have hcomment : e.1 ≠ .comment := h e List.mem_cons_self
    simp [spread, hcomment, ih fun e he => h e (List.mem_cons_of_mem _ he)]

/-- The elements that a run is made of. -/
def elements (run : Kind × List α) : List (Kind × α) := run.2.map (run.1, ·)

theorem flatMap_elements_extend (kind : Kind) (a : α) (rs : List (Kind × List α)) :
    (extend kind a rs).flatMap elements = (kind, a) :: rs.flatMap elements := by
  unfold extend
  split
  · rfl
  · split
    · next h => simp [elements, h.1]
    · rfl

/-- Runs cover the elements, in order. -/
theorem flatMap_elements_runs (es : List (Kind × α)) : (runs es).flatMap elements = es := by
  induction es with
  | nil => rfl
  | cons e es ih => rw [runs, flatMap_elements_extend, ih]

theorem nonempty_of_mem_runs {es : List (Kind × α)} : ∀ run ∈ runs es, run.2 ≠ [] := by
  induction es with
  | nil => nofun
  | cons e es ih =>
    rw [runs]
    unfold extend
    split
    · simp
    · next next run others hruns =>
      rw [hruns] at ih
      obtain ⟨-, hothers⟩ := List.forall_mem_cons.mp ih
      split
      · exact List.forall_mem_cons.mpr ⟨List.cons_ne_nil _ _, hothers⟩
      · exact List.forall_mem_cons.mpr ⟨List.cons_ne_nil _ _, ih⟩

theorem extend_append (kind : Kind) (a : α) {rs : List (Kind × List α)} (h : rs ≠ [])
    (ts : List (Kind × List α)) : extend kind a (rs ++ ts) = extend kind a rs ++ ts := by
  cases rs with
  | nil => contradiction
  | cons r rs =>
    simp only [List.cons_append, extend]
    split <;> rfl

theorem head?_extend (kind : Kind) (a : α) (rs : List (Kind × List α)) :
    (extend kind a rs).head?.map Prod.fst = some kind := by
  unfold extend
  split
  · rfl
  · split <;> rfl

theorem head?_runs (es : List (Kind × α)) :
    (runs es).head?.map Prod.fst = es.head?.map Prod.fst := by
  cases es with
  | nil => rfl
  | cons e es => exact head?_extend e.1 e.2 (runs es)

theorem runs_ne_nil {es : List (Kind × α)} (h : es ≠ []) : runs es ≠ [] := by
  intro he
  have hhead := head?_runs es
  rw [he] at hhead
  exact h (by simpa using hhead.symm)

/-- A line break, and an element before a run of another kind, is a run of its own. -/
theorem extend_of_head?_ne {kind : Kind} (a : α) {rs : List (Kind × List α)}
    (h : kind = .newline ∨ rs.head?.map Prod.fst ≠ some kind) :
    extend kind a rs = (kind, [a]) :: rs := by
  cases rs with
  | nil => rfl
  | cons r rs =>
    rcases h with rfl | h
    · simp [extend]
    · have hkind : kind ≠ r.1 := fun he => h (congrArg some he.symm)
      simp [extend, hkind]

/-- Elements of one kind are a run, if the next element is of another kind. -/
theorem runs_block {kind : Kind} (hkind : kind ≠ .newline) {block : List α} (hblock : block ≠ [])
    {rest : List (Kind × α)} (hrest : rest.head?.map Prod.fst ≠ some kind) :
    runs (block.map (kind, ·) ++ rest) = (kind, block) :: runs rest := by
  have hruns : (runs rest).head?.map Prod.fst ≠ some kind := by rwa [head?_runs]
  induction block with
  | nil => contradiction
  | cons a block ih =>
    cases block with
    | nil => exact extend_of_head?_ne a (Or.inr hruns)
    | cons b block =>
      have hrun := ih (List.cons_ne_nil b block)
      rw [List.map_cons, List.cons_append, runs, hrun]
      simp [extend, hkind]

/-- Runs end where a line break stands, or an element of another kind than the last one. -/
theorem runs_append_cons_of_getLast? {xs : List (Kind × α)} {kind : Kind}
    (h : kind = .newline ∨ xs.getLast?.map Prod.fst ≠ some kind) (a : α) (ys : List (Kind × α)) :
    runs (xs ++ (kind, a) :: ys) = runs xs ++ runs ((kind, a) :: ys) := by
  have hhead : (runs ((kind, a) :: ys)).head?.map Prod.fst = some kind := head?_runs _
  induction xs with
  | nil => rfl
  | cons x xs ih =>
    cases xs with
    | nil =>
      have hapart : x.1 = .newline ∨ (runs ((kind, a) :: ys)).head?.map Prod.fst ≠ some x.1 := by
        rw [hhead]
        rcases h with rfl | hne
        · by_cases hx : x.1 = .newline
          · exact Or.inl hx
          · exact Or.inr fun he => hx (Option.some.inj he).symm
        · exact Or.inr fun he => hne he.symm
      exact extend_of_head?_ne x.2 hapart
    | cons y xs =>
      have hruns : runs (y :: xs) ≠ [] := runs_ne_nil (List.cons_ne_nil y xs)
      show extend x.1 x.2 (runs (y :: xs ++ _)) = extend x.1 x.2 (runs (y :: xs)) ++ _
      rw [ih (by rwa [List.getLast?_cons_cons] at h)]
      exact extend_append x.1 x.2 hruns _

/-- Runs end where a line break stands, or an element of a new kind. -/
theorem runs_append_cons {xs : List (Kind × α)} {kind : Kind}
    (h : kind = .newline ∨ ∀ x ∈ xs, x.1 ≠ kind) (a : α) (ys : List (Kind × α)) :
    runs (xs ++ (kind, a) :: ys) = runs xs ++ runs ((kind, a) :: ys) := by
  refine runs_append_cons_of_getLast? (h.imp_right fun hne hlast => ?_) a ys
  obtain ⟨x, hx, hkind⟩ := Option.map_eq_some_iff.mp hlast
  exact hne x (List.mem_of_getLast? hx) hkind

theorem closesLabel_append_cons {kind : Kind} (hcomma : kind ≠ .comma) (hlabel : kind ≠ .label)
    (rs : List (Kind × String)) (spelling : String) (ts : List (Kind × String)) :
    closesLabel (rs ++ (kind, spelling) :: ts) = closesLabel rs := by
  fun_induction closesLabel rs with
  | case1 => cases kind <;> simp_all [closesLabel]
  | case2 spelling rest ih => exact ih
  | case3 next spelling rest hnext => cases next <;> simp_all [closesLabel]

/-- A run that is no separator is assembled apart from the runs before it. -/
theorem assemble_append_cons {kind : Kind} (hcomma : kind ≠ .comma) (hlabel : kind ≠ .label)
    (rs : List (Kind × String)) (spelling : String) (ts : List (Kind × String)) :
    assemble (rs ++ (kind, spelling) :: ts) = assemble rs ++ assemble ((kind, spelling) :: ts) := by
  fun_induction assemble rs with
  | case1 => rfl
  | case2 spelling rest ih => exact ih
  | case3 spelling rest ih => exact ih
  | case4 next text rest hnextComma hnextLabel lexeme ih =>
    rw [List.cons_append, assemble, closesLabel_append_cons hcomma hlabel, ih]
    · rfl
    · exact hnextComma
    · exact hnextLabel

theorem assemble_newline (spelling : String) (rs : List (Kind × String)) :
    assemble ((.newline, spelling) :: rs) =
      ⟨if closesLabel rs then .label else .newline, ""⟩ :: assemble rs := by
  cases hrs : closesLabel rs <;> simp [assemble, ofRun, hrs]

/-- The kind of the first element, commas apart. -/
def firstKind? (es : List (Kind × α)) : Option Kind :=
  (es.map Prod.fst).find? (· ≠ .comma)

theorem firstKind?_spread (es : List (Kind × α)) :
    firstKind? (spread false es) = firstKind? es := by
  induction es with
  | nil => rfl
  | cons e es ih =>
    obtain ⟨kind, a⟩ := e
    unfold firstKind? at ih ⊢
    cases kind <;> simp_all [spread]

theorem firstKind?_elements_append {run : Kind × List α} (hrun : run.2 ≠ [])
    (es : List (Kind × α)) :
    firstKind? (elements run ++ es) = if run.1 = .comma then firstKind? es else some run.1 := by
  obtain ⟨a, as, ha⟩ := List.exists_cons_of_ne_nil hrun
  unfold firstKind?
  split
  · next hcomma =>
    have hnone : ((elements run).map Prod.fst).find? (· ≠ .comma) = none := by
      rw [List.find?_eq_none]
      intro kind hkind
      obtain ⟨e, he, rfl⟩ := List.mem_map.mp hkind
      obtain ⟨b, -, rfl⟩ := List.mem_map.mp he
      simp [hcomma]
    rw [List.map_append, List.find?_append, hnone, Option.none_or]
  · next hcomma => simp [elements, ha, hcomma]

/-- Whether a colon comes next is seen on the elements. -/
theorem closesLabel_map (spell : List α → String) {rs : List (Kind × List α)}
    (h : ∀ run ∈ rs, run.2 ≠ []) :
    closesLabel (rs.map fun run => (run.1, spell run.2)) =
      decide (firstKind? (rs.flatMap elements) = some .label) := by
  induction rs with
  | nil => rfl
  | cons run rs ih =>
    obtain ⟨hrun, hrs⟩ := List.forall_mem_cons.mp h
    obtain ⟨kind, as⟩ := run
    rw [List.flatMap_cons, firstKind?_elements_append hrun, List.map_cons]
    by_cases hcomma : kind = .comma
    · simp only [hcomma, closesLabel, if_true, ih hrs]
    · simp [hcomma, closesLabel]

theorem closesLabel_runs (spell : List α → String) (es : List (Kind × α)) :
    closesLabel ((runs es).map fun run => (run.1, spell run.2)) =
      decide (firstKind? es = some .label) := by
  rw [closesLabel_map spell nonempty_of_mem_runs, flatMap_elements_runs]

/-- What stands before a line break and what stands after it are scanned apart. The break itself
becomes a label if a colon comes first after it. -/
theorem scan_append_newline (spell : List α → String) (xs : List (Kind × α)) (a : α)
    (ys : List (Kind × α)) :
    scan spell (xs ++ (.newline, a) :: ys) =
      scan spell xs ++ ⟨if firstKind? ys = some .label then .label else .newline, ""⟩ ::
        scan spell ys := by
  have hruns : runs ((.newline, a) :: spread false ys) =
      (.newline, [a]) :: runs (spread false ys) :=
    extend_of_head?_ne a (Or.inl rfl)
  have hnewline : Kind.newline ≠ .comma ∧ Kind.newline ≠ .label := ⟨nofun, nofun⟩
  unfold scan
  rw [spread_append_newline, runs_append_cons (Or.inl rfl), hruns, List.map_append, List.map_cons,
    assemble_append_cons hnewline.1 hnewline.2, assemble_newline, closesLabel_runs,
    firstKind?_spread]
  simp only [decide_eq_true_eq]

end Lines

/-! ## Texts line by line -/

/-- The characters of a text with their kinds. -/
def classify (cs : List Char) : List (Kind × Char) := cs.map fun c => (Kind.ofChar c, c)

/-- The only character of a kind, if it has just one. -/
def sign? : Kind → Option Char
  | .blank => some ' '
  | .newline => some '\n'
  | .comma => some ','
  | .comment => some '#'
  | .label => some ':'
  | .number | .word => none

theorem ofChar_eq_iff {kind : Kind} {sign c : Char} (h : sign? kind = some sign) :
    Kind.ofChar c = kind ↔ c = sign := by
  constructor
  · rintro rfl
    unfold Kind.ofChar at h
    repeat' split at h
    all_goals cases h
    all_goals assumption
  · rintro rfl
    cases kind <;> cases h <;> rfl

theorem kind_ne_of_mem_classify {kind : Kind} {sign : Char} (h : sign? kind = some sign)
    {cs : List Char} (hcs : sign ∉ cs) : ∀ e ∈ classify cs, e.1 ≠ kind := by
  intro e he hkind
  obtain ⟨c, hc, rfl⟩ := List.mem_map.mp he
  exact hcs ((ofChar_eq_iff h).mp hkind ▸ hc)

theorem classify_append_cons (xs : List Char) (c : Char) (ys : List Char) :
    classify (xs ++ c :: ys) = classify xs ++ (Kind.ofChar c, c) :: classify ys := by
  simp [classify]

theorem ofChar_eq_label_iff {c : Char} : Kind.ofChar c = .label ↔ c = ':' :=
  ofChar_eq_iff rfl

theorem ofChar_eq_comma_iff {c : Char} : Kind.ofChar c = .comma ↔ c = ',' :=
  ofChar_eq_iff rfl

theorem find?_unifyBreaks {cs : List Char} (h : cs.find? (· ≠ ',') ≠ some ':') :
    (unifyBreaks cs).find? (· ≠ ',') ≠ some ':' := by
  fun_induction unifyBreaks cs with
  | case1 => exact h
  | case2 rest ih => simp
  | case3 c rest hpair ih =>
    by_cases hc : c = ','
    · simp only [hc, List.find?_cons, ne_eq, not_true, decide_false] at h ⊢
      exact ih h
    · simpa [hc] using h

theorem firstKind?_classify (cs : List Char) :
    firstKind? (classify cs) = (cs.find? (· ≠ ',')).map Kind.ofChar := by
  have hpredicate : (fun kind : Kind => decide (kind ≠ .comma)) ∘ Kind.ofChar =
      fun c : Char => decide (c ≠ ',') := by
    funext c
    simp [ofChar_eq_comma_iff]
  rw [firstKind?, classify, List.map_map, ← hpredicate, ← List.find?_map]
  rfl

/-- A colon comes first, commas apart. -/
theorem firstKind?_classify_eq_label_iff {cs : List Char} :
    firstKind? (classify cs) = some .label ↔ cs.find? (· ≠ ',') = some ':' := by
  rw [firstKind?_classify, Option.map_eq_some_iff]
  simp [ofChar_eq_label_iff]

theorem all_eq_scan (text : String) :
    all text = scan String.ofList (classify (unifyBreaks text.toList)) := rfl

theorem all_append_newline {a b : String} (ha : a.toList.getLast? ≠ some '\r')
    (hb : b.toList.find? (· ≠ ',') ≠ some ':') :
    all (a ++ "\n" ++ b) = all a ++ ⟨.newline, ""⟩ :: all b := by
  have hchars : (a ++ "\n" ++ b).toList = a.toList ++ '\n' :: b.toList := by simp
  have hfirst := mt firstKind?_classify_eq_label_iff.mp (find?_unifyBreaks hb)
  have hnewline : Kind.ofChar '\n' = .newline := rfl
  rw [all_eq_scan, hchars, unifyBreaks_append_newline ha, classify_append_cons, hnewline,
    scan_append_newline, if_neg hfirst, ← all_eq_scan, ← all_eq_scan]

/-- A text is scanned line by line, as long as no colon comes first on the next line. -/
theorem ofText_append_newline {a b : String} (ha : a.toList.getLast? ≠ some '\r')
    (hb : b.toList.find? (· ≠ ',') ≠ some ':') :
    ofText (a ++ "\n" ++ b) = ofText a ++ ⟨.newline, ""⟩ :: ofText b := by
  unfold ofText
  rw [all_append_newline ha hb, List.filter_append]
  rfl

theorem exists_toList_intercalate (separator first : String) (others : List String) :
    ∃ rest, (separator.intercalate (first :: others)).toList = first.toList ++ rest := by
  cases others with
  | nil => exact ⟨[], by simp⟩
  | cons second others =>
    refine ⟨separator.toList ++ (separator.intercalate (second :: others)).toList, ?_⟩
    rw [String.intercalate_cons_cons, String.toList_append, String.toList_append,
      List.append_assoc]

theorem forall_mem_intercalate {P : Char → Prop} {separator : String} {strings : List String}
    (hseparator : ∀ c ∈ separator.toList, P c) (h : ∀ s ∈ strings, ∀ c ∈ s.toList, P c) :
    ∀ c ∈ (separator.intercalate strings).toList, P c := by
  induction strings with
  | nil => simp
  | cons first others ih =>
    have hothers := ih fun s hs => h s (List.mem_cons_of_mem _ hs)
    cases others with
    | nil => simpa using h first (by simp)
    | cons second others =>
      intro c hc
      rw [String.intercalate_cons_cons, String.toList_append, String.toList_append,
        List.mem_append, List.mem_append] at hc
      rcases hc with (hc | hc) | hc
      · exact h first (by simp) c hc
      · exact hseparator c hc
      · exact hothers c hc

/-- A line that starts with a word. -/
structure IsLine (line : String) : Prop where
  first : ∃ c, line.toList.head? = some c ∧ Kind.ofChar c = .word
  last : line.toList.getLast? ≠ some '\r'

theorem ofText_lines {lines : List String} (h : ∀ line ∈ lines, IsLine line) :
    ofText ("\n".intercalate lines) = [⟨.newline, ""⟩].intercalate (lines.map ofText) := by
  induction lines with
  | nil => simp; rfl
  | cons line lines ih =>
    have hlines := ih fun l hl => h l (List.mem_cons_of_mem _ hl)
    cases lines with
    | nil => simp
    | cons next lines =>
      have hnext : ("\n".intercalate (next :: lines)).toList.find? (· ≠ ',') ≠ some ':' := by
        obtain ⟨c, hc, hkind⟩ := (h next (by simp)).first
        obtain ⟨cs, hnext⟩ := List.head?_eq_some_iff.mp hc
        obtain ⟨rest, hrest⟩ := exists_toList_intercalate "\n" next lines
        have hcomma : c ≠ ',' := fun he => by simp [ofChar_eq_comma_iff.mpr he] at hkind
        have hcolon : c ≠ ':' := fun he => by simp [ofChar_eq_label_iff.mpr he] at hkind
        simp [hrest, hnext, hcomma, hcolon]
      rw [String.intercalate_cons_cons, ofText_append_newline (h line (by simp)).last hnext, hlines]
      simp [List.intercalate_cons_cons]

end NodeGrid.Lexeme
