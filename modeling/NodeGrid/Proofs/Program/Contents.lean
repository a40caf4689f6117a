import Mathlib.Data.List.TakeWhile
import NodeGrid.Proofs.Program.Origins

/-!
# What lexemes keep of a text

Lexemes lose and invent nothing: their texts, one after the other, are the text without what only
divides it. A line is divided by blanks, commas and colons as far as its comment, and the comment
is kept whole.

* `texts_scan_line`: what is kept of a line.
* `join_text_join`: what is kept of a text.
-/

namespace NodeGrid

/-- The kinds whose runs stand in their lexemes as they are written. -/
def Kind.isWritten : Kind → Bool
  | number | word | comment => true
  | blank | newline | comma | label => false

namespace Lexeme

/-! ## Texts of lexemes -/

/-- The texts of lexemes, one after the other, less single blanks. -/
def texts (lexemes : List Lexeme) : List Char :=
  (lexemes.filter (·.text ≠ " ")).flatMap (·.text.toList)

theorem texts_append (xs ys : List Lexeme) : texts (xs ++ ys) = texts xs ++ texts ys := by
  rw [texts, List.filter_append, List.flatMap_append]
  rfl

theorem texts_cons (x : Lexeme) (xs : List Lexeme) : texts (x :: xs) = texts [x] ++ texts xs :=
  texts_append [x] xs

theorem texts_assemble_cons {kind : Kind} {spelling : String}
    (h : kind.isWritten → spelling ≠ " ") (rs : List (Kind × String)) :
    texts (assemble ((kind, spelling) :: rs)) =
      (if kind.isWritten then spelling.toList else []) ++ texts (assemble rs) := by
  cases kind with
  | comma | label => rfl
  | blank | newline =>
    rw [assemble, texts_cons]
    · cases closesLabel rs <;> rfl
    all_goals simp
  | comment | number | word =>
    rw [assemble, texts_cons]
    · cases closesLabel rs <;> simp [texts, ofRun, Kind.isWritten, h rfl]
    all_goals simp

/-- The runs of a kind that is written are kept, if none of them is a single blank. -/
theorem texts_assemble {rs : List (Kind × List Char)}
    (h : ∀ run ∈ rs, run.1.isWritten → String.ofList run.2 ≠ " ") :
    texts (assemble (rs.map fun run => (run.1, String.ofList run.2))) =
      ((rs.flatMap elements).filter (·.1.isWritten)).map Prod.snd := by
  induction rs with
  | nil => rfl
  | cons run rs ih =>
    obtain ⟨hrun, hrs⟩ := List.forall_mem_cons.mp h
    have helements : ((elements run).filter (·.1.isWritten)).map Prod.snd =
        if run.1.isWritten then run.2 else [] := by
      cases hkind : run.1.isWritten <;> simp [elements, List.filter_map, Function.comp_def, hkind]
    rw [List.map_cons, texts_assemble_cons hrun, ih hrs, List.flatMap_cons, List.filter_append,
      List.map_append, helements, String.toList_ofList]

/-! ## Lines -/

/-- What is kept of a line: its comment, and before it all but blanks, commas and colons. -/
def written (line : List Char) : List Char :=
  (line.takeWhile (· ≠ '#')).filter (· ∉ [' ', ',', ':']) ++ line.dropWhile (· ≠ '#')

theorem isWritten_ofChar {c : Char} (hcomment : c ≠ '#') (hnewline : c ≠ '\n') :
    (Kind.ofChar c).isWritten = decide (c ∉ [' ', ',', ':']) := by
  unfold Kind.ofChar
  repeat' split
  all_goals simp_all [Kind.isWritten]

/-- What is kept of a line without a comment. -/
theorem texts_scan_plain {cs : List Char} (hcomment : '#' ∉ cs) (hnewline : '\n' ∉ cs) :
    texts (scan String.ofList (classify cs)) = cs.filter (· ∉ [' ', ',', ':']) := by
  have hkinds : ∀ e ∈ classify cs, e.1 ≠ .comment := kind_ne_of_mem_classify rfl hcomment
  have hruns : ∀ run ∈ runs (classify cs), run.1.isWritten → String.ofList run.2 ≠ " " := by
    intro run hrun hwritten hblank
    have hrunBlank : run.2 = [' '] := by simpa using congrArg String.toList hblank
    have hmem := (isRunOf_of_mem_runs hrun).mem ' ' (by rw [hrunBlank]; exact List.mem_cons_self)
    rw [← ofChar_of_mem_classify hmem] at hwritten
    cases hwritten
  rw [scan, spread_eq_self hkinds, texts_assemble hruns, flatMap_elements_runs, classify,
    List.filter_map, List.map_map]
  show (cs.filter _).map id = _
  rw [List.map_id]
  refine List.filter_congr fun c hc => ?_
  exact isWritten_ofChar (ne_of_mem_of_not_mem hc hcomment) (ne_of_mem_of_not_mem hc hnewline)

theorem written_append_comment {xs : List Char} (hxs : '#' ∉ xs) (zs : List Char) :
    written (xs ++ '#' :: zs) = xs.filter (· ∉ [' ', ',', ':']) ++ '#' :: zs := by
  have hplain : ∀ c ∈ xs, decide (c ≠ '#') = true :=
    fun c hc => decide_eq_true (ne_of_mem_of_not_mem hc hxs)
  rw [written, List.takeWhile_append_of_pos hplain, List.dropWhile_append_of_pos hplain]
  simp

theorem written_of_not_mem {cs : List Char} (hcs : '#' ∉ cs) :
    written cs = cs.filter (· ∉ [' ', ',', ':']) := by
  have hplain : ∀ c ∈ cs, decide (c ≠ '#') = true :=
    fun c hc => decide_eq_true (ne_of_mem_of_not_mem hc hcs)
  rw [written, List.takeWhile_eq_self_iff.mpr hplain, List.dropWhile_eq_nil_iff.mpr hplain,
    List.append_nil]

theorem texts_comment (zs : List Char) :
    texts [⟨.comment, String.ofList ('#' :: zs)⟩] = '#' :: zs := by
  have hne : String.ofList ('#' :: zs) ≠ " " := by
    intro he
    simpa using congrArg String.toList he
  simp only [texts, List.filter_cons, hne, ne_eq, not_false_eq_true, decide_true, if_true,
    List.filter_nil, List.flatMap_cons, List.flatMap_nil, List.append_nil, String.toList_ofList]

/-- A comment is kept whole. -/
theorem texts_scan_line {cs : List Char} (hnewline : '\n' ∉ cs) :
    texts (scan String.ofList (classify cs)) = written cs := by
  by_cases hcomment : '#' ∈ cs
  · obtain ⟨xs, zs, rfl, hxs⟩ := List.eq_append_cons_of_mem hcomment
    have hxsNewline : '\n' ∉ xs := fun h => hnewline (by simp [h])
    have hzsNewline : '\n' ∉ zs := fun h => hnewline (by simp [h])
    have hsign : Kind.ofChar '#' = .comment := rfl
    have hchars : (classify zs).map Prod.snd = zs := by simp [classify, Function.comp_def]
    rw [classify_append_cons, hsign,
      scan_append_comment (kind_ne_of_mem_classify rfl hxs) '#'
        (kind_ne_of_mem_classify rfl hzsNewline),
      texts_append, texts_scan_plain hxs hxsNewline, hchars, texts_comment,
      written_append_comment hxs]
  · rw [texts_scan_plain hcomment hnewline, written_of_not_mem hcomment]

/-! ## Texts -/

/-- What is kept of a text, line by line. -/
theorem texts_scan (cs : List Char) :
    texts (scan String.ofList (classify cs)) = (cs.splitOn '\n').flatMap written := by
  induction hn : cs.length using Nat.strongRecOn generalizing cs with
  | ind n ih =>
    by_cases hnewline : '\n' ∈ cs
    · obtain ⟨xs, ys, rfl, hxs⟩ := List.eq_append_cons_of_mem hnewline
      have hbreak : Kind.ofChar '\n' = .newline := rfl
      have hys := ih ys.length (by simp at hn; omega) ys rfl
      rw [classify_append_cons, hbreak, scan_append_newline, texts_append, texts_cons,
        texts_scan_line hxs, hys, List.splitOn_append_cons_self_of_not_mem hxs, List.flatMap_cons]
      rfl
    · rw [texts_scan_line hnewline, List.splitOn_eq_singleton hnewline, List.flatMap_singleton]

/-- The texts of the lexemes, one after the other, are the text less all blanks, commas, colons and
line breaks outside comments. -/
theorem join_text_join (text : String) :
    String.join (((join (kinds text) text).filter (·.text ≠ " ")).map (·.text)) =
      String.ofList (((unifyBreaks text.toList).splitOn '\n').flatMap written) := by
  rw [join_kinds, all_eq_scan, ← texts_scan, ← String.toList_inj, String.toList_join,
    List.flatMap_map, String.toList_ofList]
  rfl

end Lexeme

end NodeGrid
