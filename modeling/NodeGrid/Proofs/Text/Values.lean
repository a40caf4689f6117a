import NodeGrid.Proofs.Text.Numerals
import NodeGrid.Text.ValueList

/-!
# Lists of values read back

A written list of values is read as that list, also with white space around its values and with more
commas than the values need. Reading fails at the first item that is neither blank nor a numeral.

* `items_eq_splitOn`: the items of a text are what stands between its commas.
* `readItems_of_isSpread`: items that hold the values, with blank items among them.
* `readItems_eq_error_iff`: the item at which reading fails.
* `read_values_or_fault`: both for whole texts.
-/

namespace NodeGrid

/-! ## Trimming -/

namespace Blank

/-- Nothing but white space. -/
def IsGap (text : List Char) : Prop := ∀ c ∈ text, isBlank c

instance (text : List Char) : Decidable (IsGap text) := List.decidableBAll _ _

theorem isBlank_of_isDigit {c : Char} (h : c.isDigit) : isBlank c = false := by
  have hlow : 48 ≤ c.toNat := (Char.isDigit_iff_toNat.mp h).1
  have hhigh : c.toNat ≤ 57 := (Char.isDigit_iff_toNat.mp h).2
  simp only [isBlank, Bool.or_eq_false_iff, Bool.and_eq_false_iff, decide_eq_false_iff_not]
  omega

theorem trim_gap {gap : List Char} (h : IsGap gap) : trim gap = [] := by
  have hdrop : gap.dropWhile isBlank = [] := by
    rw [← List.append_nil gap, List.dropWhile_append_of_pos h]
    rfl
  rw [trim, hdrop]
  rfl

theorem dropWhile_solid {text : List Char} (hne : text ≠ []) (htext : ∀ c ∈ text, isBlank c = false)
    (rest : List Char) : (text ++ rest).dropWhile isBlank = text ++ rest := by
  obtain ⟨c, cs, rfl⟩ := List.exists_cons_of_ne_nil hne
  rw [List.cons_append, List.dropWhile_cons_of_neg]
  simp [htext c List.mem_cons_self]

/-- Trimming takes away the white space at both ends. -/
theorem trim_append {left text right : List Char} (hleft : IsGap left) (hright : IsGap right)
    (hne : text ≠ []) (htext : ∀ c ∈ text, isBlank c = false) :
    trim (left ++ text ++ right) = text := by
  have hrightReverse : IsGap right.reverse := fun c hc => hright c (List.mem_reverse.mp hc)
  have htextReverse : ∀ c ∈ text.reverse, isBlank c = false :=
    fun c hc => htext c (List.mem_reverse.mp hc)
  have hneReverse : text.reverse ≠ [] := mt List.reverse_eq_nil_iff.mp hne
  have hend := dropWhile_solid hneReverse htextReverse []
  rw [List.append_nil] at hend
  rw [trim, List.append_assoc, List.dropWhile_append_of_pos hleft, dropWhile_solid hne htext,
    List.reverse_append, List.dropWhile_append_of_pos hrightReverse, hend, List.reverse_reverse]

end Blank

namespace ValueList

open Blank

variable {values : List Int32} {parts : List String} {item : List Char} {rest : List (List Char)}

/-! ## Items -/

/-- The items of a text are what stands between its commas. -/
theorem items_eq_splitOn (text : List Char) : items text = text.splitOn ',' := by
  induction text with
  | nil => rfl
  | cons c rest ih =>
    rw [List.splitOn_cons_eq_if_modifyHead, ← ih]
    by_cases hc : c = ','
    · subst hc
      rfl
    · have hne : items rest ≠ [] := ih ▸ List.splitOn_ne_nil ',' rest
      obtain ⟨item, others, hitems⟩ := List.exists_cons_of_ne_nil hne
      simp [items, hc, hitems]

/-- The values of items, with blank items passed over. -/
def readItems (items : List (List Char)) : Except InvalidItem (List Int32) :=
  ((items.map trim).filter (· ≠ [])).mapM readItem

theorem read_eq (text : String) : read text = readItems (text.toList.splitOn ',') := by
  rw [← items_eq_splitOn]
  rfl

theorem readItems_cons_of_blank (h : trim item = []) :
    readItems (item :: rest) = readItems rest := by
  simp [readItems, h]

theorem readItems_cons_of_solid (h : trim item ≠ []) :
    readItems (item :: rest) = do return (← readItem (trim item)) :: (← readItems rest) := by
  simp [readItems, h, List.mapM_cons]

theorem readItems_cons_of_ok (h : trim item ≠ []) {value : Int32}
    (hvalue : readItem (trim item) = .ok value) :
    readItems (item :: rest) = (readItems rest).map (value :: ·) := by
  rw [readItems_cons_of_solid h, hvalue]
  cases readItems rest <;> rfl

theorem readItems_cons_of_error (h : trim item ≠ []) {e : InvalidItem}
    (herror : readItem (trim item) = .error e) : readItems (item :: rest) = .error e := by
  rw [readItems_cons_of_solid h, herror]
  rfl

/-! ## Values with space around them -/

/-- Parts that hold the values one after the other, each with white space around it, and blank parts
among them. -/
inductive IsSpread : List Int32 → List String → Prop
  | nil : IsSpread [] []
  | gap {values : List Int32} {parts : List String} (gap : String) :
    IsGap gap.toList → IsSpread values parts → IsSpread values (gap :: parts)
  | value {values : List Int32} {parts : List String} (value : Int32) (left right : String) :
    IsGap left.toList → IsGap right.toList → IsSpread values parts →
      IsSpread (value :: values) ((left ++ printValue value ++ right) :: parts)

theorem printValue_ne_nil (value : Int32) : (printValue value).toList ≠ [] :=
  (Numeral.chars_of_readInt32 (Numeral.readInt32_print value)).1

theorem chars_printValue {value : Int32} {c : Char} (hc : c ∈ (printValue value).toList) :
    isBlank c = false ∧ c ≠ ',' := by
  obtain ⟨-, hchars⟩ := Numeral.chars_of_readInt32 (Numeral.readInt32_print value)
  rcases hchars c hc with hdigit | rfl | rfl
  · refine ⟨isBlank_of_isDigit hdigit, ?_⟩
    rintro rfl
    exact absurd hdigit (by decide)
  · decide
  · decide

theorem trim_printValue (value : Int32) {left right : String} (hleft : IsGap left.toList)
    (hright : IsGap right.toList) :
    trim (left ++ printValue value ++ right).toList = (printValue value).toList := by
  rw [String.toList_append, String.toList_append]
  exact trim_append hleft hright (printValue_ne_nil value) fun c hc => (chars_printValue hc).1

theorem readItem_printValue (value : Int32) : readItem (printValue value).toList = .ok value := by
  have hread : Numeral.readInt32 (printValue value) = .ok value := Numeral.readInt32_print value
  simp only [readItem, String.ofList_toList, hread]
  rfl

theorem IsSpread.comma_not_mem (h : IsSpread values parts) : ∀ part ∈ parts, ',' ∉ part.toList := by
  have hgap {gap : List Char} (hgap : IsGap gap) : ',' ∉ gap :=
    fun hmem => absurd (hgap ',' hmem) (by decide)
  induction h with
  | nil => nofun
  | gap gap hblank _ ih => exact List.forall_mem_cons.mpr ⟨hgap hblank, ih⟩
  | value value left right hleft hright _ ih =>
    refine List.forall_mem_cons.mpr ⟨?_, ih⟩
    simp only [String.toList_append, List.mem_append, not_or]
    exact ⟨⟨hgap hleft, fun hmem => (chars_printValue hmem).2 rfl⟩, hgap hright⟩

theorem readItems_of_isSpread (h : IsSpread values parts) :
    readItems (parts.map String.toList) = .ok values := by
  induction h with
  | nil => rfl
  | gap gap hgap _ ih => rwa [List.map_cons, readItems_cons_of_blank (trim_gap hgap)]
  | value value left right hleft hright _ ih =>
    have htrim := trim_printValue value hleft hright
    have hread : readItem (trim (left ++ printValue value ++ right).toList) = .ok value := by
      rw [htrim, readItem_printValue]
    rw [List.map_cons, readItems_cons_of_ok (htrim ▸ printValue_ne_nil value) hread, ih]
    rfl

theorem isSpread_map_printValue (values : List Int32) :
    IsSpread values (values.map printValue) := by
  induction values with
  | nil => exact .nil
  | cons value values ih =>
    have hvalue := IsSpread.value value "" "" (by decide) (by decide) ih
    rwa [String.empty_append, String.append_empty] at hvalue

/-- Values that are spread over the parts of a text are read. -/
theorem read_of_isSpread (h : IsSpread values parts) :
    read (",".intercalate parts) = .ok values := by
  -- A text has at least one item, so the text of no parts has one that is blank.
  cases hparts : parts with
  | nil =>
    subst hparts
    cases h
    rfl
  | cons part others =>
    have hsplit : (",".intercalate parts).toList.splitOn ',' = parts.map String.toList := by
      rw [String.toList_intercalate]
      refine List.splitOn_intercalate ',' ?_ (by simp [hparts])
      intro cs hcs
      obtain ⟨part, hpart, rfl⟩ := List.mem_map.mp hcs
      exact h.comma_not_mem part hpart
    rw [← hparts, read_eq, hsplit]
    exact readItems_of_isSpread h

/-! ## Faults -/

/-- An item that is neither blank nor a numeral. -/
def IsFaulty (item : List Char) : Prop := trim item ≠ [] ∧ ¬ Numeral.IsInt32 (trim item)

theorem readItem_eq (item : List Char) : readItem item =
    (Numeral.readInt32 (String.ofList item)).mapError (⟨String.ofList item, ·⟩) := rfl

theorem readItem_eq_ok_iff {value : Int32} :
    readItem item = .ok value ↔ Numeral.readInt32 (String.ofList item) = .ok value := by
  rw [readItem_eq]
  cases Numeral.readInt32 (String.ofList item) with
  | error reason => exact iff_of_false nofun nofun
  | ok read =>
    constructor
    · rintro ⟨⟩
      rfl
    · rintro ⟨⟩
      rfl

theorem exists_readItem_iff : (∃ value, readItem item = .ok value) ↔ Numeral.IsInt32 item := by
  simp only [readItem_eq_ok_iff, Numeral.exists_readInt32_iff, String.toList_ofList]

theorem item_of_readItem_error {e : InvalidItem} (h : readItem item = .error e) :
    e.item = String.ofList item := by
  rw [readItem_eq] at h
  cases hread : Numeral.readInt32 (String.ofList item) with
  | error reason =>
    rw [hread] at h
    cases h
    rfl
  | ok value =>
    rw [hread] at h
    cases h

/-- Reading goes on after an item without a fault. -/
theorem readItems_cons_eq_error_iff (h : ¬ IsFaulty item) {e : InvalidItem} :
    readItems (item :: rest) = .error e ↔ readItems rest = .error e := by
  by_cases hblank : trim item = []
  · rw [readItems_cons_of_blank hblank]
  · have hnumeral : Numeral.IsInt32 (trim item) := Classical.not_not.mp fun hnot => h ⟨hblank, hnot⟩
    obtain ⟨value, hvalue⟩ := exists_readItem_iff.mpr hnumeral
    rw [readItems_cons_of_ok hblank hvalue]
    cases readItems rest <;> simp [Except.map]

/-- Reading stops at a fault. -/
theorem readItems_cons_of_isFaulty (h : IsFaulty item) (rest : List (List Char)) :
    ∃ e, readItem (trim item) = .error e ∧ readItems (item :: rest) = .error e := by
  cases hread : readItem (trim item) with
  | ok value => exact absurd (exists_readItem_iff.mp ⟨value, hread⟩) h.2
  | error e => exact ⟨e, rfl, readItems_cons_of_error h.1 hread⟩

/-- Reading fails at the first item with a fault. -/
theorem readItems_eq_error_iff {items : List (List Char)} {e : InvalidItem} :
    readItems items = .error e ↔ ∃ before item after, items = before ++ item :: after ∧
      (∀ other ∈ before, ¬ IsFaulty other) ∧ IsFaulty item ∧ readItem (trim item) = .error e := by
  constructor
  · intro hread
    induction items with
    | nil => cases hread
    | cons first rest ih =>
      by_cases hfaulty : IsFaulty first
      · obtain ⟨e', herror, hstop⟩ := readItems_cons_of_isFaulty hfaulty rest
        rw [hstop] at hread
        cases hread
        exact ⟨[], first, rest, rfl, nofun, hfaulty, herror⟩
      · obtain ⟨before, item, after, hrest, hbefore, hitem⟩ :=
          ih ((readItems_cons_eq_error_iff hfaulty).mp hread)
        refine
          ⟨first :: before, item, after, ?_, List.forall_mem_cons.mpr ⟨hfaulty, hbefore⟩, hitem⟩
        rw [hrest, List.cons_append]
  · rintro ⟨before, item, after, rfl, hbefore, hfaulty, herror⟩
    induction before with
    | nil => exact readItems_cons_of_error hfaulty.1 herror
    | cons first before ih =>
      obtain ⟨hfirst, hbefore⟩ := List.forall_mem_cons.mp hbefore
      rw [List.cons_append, readItems_cons_eq_error_iff hfirst]
      exact ih hbefore

theorem exists_readItems_error_iff {items : List (List Char)} :
    (∃ e, readItems items = .error e) ↔ ∃ item ∈ items, IsFaulty item := by
  constructor
  · rintro ⟨e, hread⟩
    obtain ⟨before, item, after, rfl, -, hfaulty, -⟩ := readItems_eq_error_iff.mp hread
    exact ⟨item, List.mem_append_right before List.mem_cons_self, hfaulty⟩
  · rintro ⟨item, hmem, hfaulty⟩
    induction items with
    | nil => cases hmem
    | cons first rest ih =>
      by_cases hfirst : IsFaulty first
      · obtain ⟨e, -, hstop⟩ := readItems_cons_of_isFaulty hfirst rest
        exact ⟨e, hstop⟩
      · have hrest : item ∈ rest := by
          rcases List.mem_cons.mp hmem with rfl | hrest
          · exact absurd hfaulty hfirst
          · exact hrest
        obtain ⟨e, hread⟩ := ih hrest
        exact ⟨e, (readItems_cons_eq_error_iff hfirst).mpr hread⟩

/-! ## Texts -/

/-- Values that were written are read, also where white space and blank items have been added.
Reading a text fails exactly where an item between its commas is neither blank nor a numeral of 32
bits, and the message names the first such item. -/
theorem read_values_or_fault :
    (∀ values, read (print values) = .ok values) ∧
    (∀ values parts, IsSpread values parts → read (",".intercalate parts) = .ok values) ∧
    ∀ text, ((∃ e, read text = .error e) ↔ ∃ item ∈ text.toList.splitOn ',', IsFaulty item) ∧
      ∀ e, read text = .error e → ∃ before item after,
        text.toList.splitOn ',' = before ++ item :: after ∧
          (∀ other ∈ before, ¬ IsFaulty other) ∧ IsFaulty item ∧
          e.item = String.ofList (trim item) ∧
          e.message = "Invalid input value: " ++ String.ofList (trim item) := by
  refine ⟨fun values => read_of_isSpread (isSpread_map_printValue values),
    fun values parts => read_of_isSpread, fun text => ?_⟩
  rw [read_eq]
  refine ⟨exists_readItems_error_iff, fun e hread => ?_⟩
  obtain ⟨before, item, after, hitems, hbefore, hfaulty, herror⟩ := readItems_eq_error_iff.mp hread
  have hitem := item_of_readItem_error herror
  exact ⟨before, item, after, hitems, hbefore, hfaulty, hitem,
    congrArg ("Invalid input value: " ++ ·) hitem⟩

/-- Two values with blank items around them, and a text in which a word comes before a number that
is out of range. -/
theorem read_values_or_fault_mixed :
    IsSpread [-2147483648, 7] ["", " -2147483648\t", " \n ", "7"] ∧
      read ", -2147483648\t, \n ,7" = .ok [-2147483648, 7] ∧
      ∃ e, read "+1,, x ,99999999999" = .error e ∧
        ∃ item ∈ "+1,, x ,99999999999".toList.splitOn ',', IsFaulty item ∧
          e.message = "Invalid input value: " ++ String.ofList (trim item) ∧ e.item = "x" := by
  have hspread : IsSpread [-2147483648, 7] ["", " -2147483648\t", " \n ", "7"] :=
    .gap "" (by decide) <| .value (-2147483648) " " "\t" (by decide) (by decide) <|
      .gap " \n " (by decide) <| .value 7 "" "" (by decide) (by decide) .nil
  have hfails : read "+1,, x ,99999999999" = .error ⟨"x", .invalidDigit⟩ := rfl
  obtain ⟨-, hvalues, hfaults⟩ := read_values_or_fault
  obtain ⟨before, item, after, hitems, -, hfaulty, -, hmessage⟩ := (hfaults _).2 _ hfails
  refine ⟨hspread, hvalues _ _ hspread, _, hfails, item, ?_, hfaulty, hmessage, rfl⟩
  rw [hitems]
  exact List.mem_append_right before List.mem_cons_self

end ValueList

end NodeGrid
