/-!
# Decimal numerals

A numeral is an optional sign and at least one ASCII digit, nothing else. Reading stops at the
first character that cannot continue a numeral in range, so of two faults the one further left is
reported. A range without negative numbers has no minus sign: there `-` is an invalid digit.

* `read_print`: what is written for a number in range reads back.
* `chars_of_readInt32`: only signs and digits read as a number.
-/

namespace NodeGrid.Numeral

/-- Why a text is no numeral in range. -/
inductive Error where
  | blank
  | invalidDigit
  | tooLarge
  | tooSmall
  deriving DecidableEq

def Error.message : Error → String
  | blank => "cannot parse integer from empty string"
  | invalidDigit => "invalid digit found in string"
  | tooLarge => "number too large to fit in target type"
  | tooSmall => "number too small to fit in target type"

/-! ## Reading -/

/-- Continues `value` with the given digits, up to the magnitude `limit`. -/
def readDigits (limit : Nat) (excess : Error) (value : Nat) : List Char → Except Error Nat
  | [] => .ok value
  | c :: rest =>
    if c.isDigit then
      let next := 10 * value + (c.toNat - '0'.toNat)
      if next ≤ limit then readDigits limit excess next rest else .error excess
    else .error .invalidDigit

/-- At least one digit. -/
def readMagnitude (limit : Nat) (excess : Error) : List Char → Except Error Nat
  | [] => .error .invalidDigit
  | digits => readDigits limit excess 0 digits

/-- The number from `-least` to `greatest` that a numeral denotes. -/
def read (least greatest : Nat) : List Char → Except Error Int
  | [] => .error .blank
  | '+' :: digits => (readMagnitude greatest .tooLarge digits).map Int.ofNat
  | '-' :: digits =>
    if least = 0 then .error .invalidDigit
    else (readMagnitude least .tooSmall digits).map fun n => -Int.ofNat n
  | digits => (readMagnitude greatest .tooLarge digits).map Int.ofNat

/-- A 32-bit signed number. -/
def readInt32 (text : String) : Except Error Int32 :=
  (read Int32.minValue.toInt.natAbs Int32.maxValue.toInt.toNat text.toList).map Int32.ofInt

/-- A 64-bit unsigned number. -/
def readUInt64 (text : String) : Except Error Nat :=
  (read 0 (UInt64.size - 1) text.toList).map Int.toNat

/-! ## Writing -/

/-- The digits of a number after a minus sign where it is negative. -/
def print : Int → List Char
  | .ofNat n => Nat.toDigits 10 n
  | .negSucc n => '-' :: Nat.toDigits 10 (n + 1)

/-! ## Reading what was written -/

theorem le_ofDigitChars (digits : List Char) (value : Nat) :
    value ≤ Nat.ofDigitChars 10 digits value := by
  induction digits generalizing value with
  | nil => exact Nat.le_refl _
  | cons c rest ih =>
    rw [Nat.ofDigitChars_cons]
    exact Nat.le_trans (by omega) (ih _)

/-- Digits whose decimal value is within the limit are read as that value. -/
theorem readDigits_eq {limit : Nat} {excess : Error} {digits : List Char} {value : Nat}
    (hd : ∀ c ∈ digits, c.isDigit) (hl : Nat.ofDigitChars 10 digits value ≤ limit) :
    readDigits limit excess value digits = .ok (Nat.ofDigitChars 10 digits value) := by
  induction digits generalizing value with
  | nil => rfl
  | cons c rest ih =>
    rw [Nat.ofDigitChars_cons] at hl ⊢
    have hn := Nat.le_trans (le_ofDigitChars rest _) hl
    rw [readDigits, if_pos (hd c (by simp)), if_pos hn]
    exact ih (fun c hc => hd c (by simp [hc])) hl

theorem isDigit_of_mem_toDigits {n : Nat} {c : Char} (h : c ∈ Nat.toDigits 10 n) : c.isDigit :=
  Nat.isDigit_of_mem_toDigits (by decide) (by decide) h

theorem readMagnitude_toDigits {limit : Nat} {excess : Error} {n : Nat} (h : n ≤ limit) :
    readMagnitude limit excess (Nat.toDigits 10 n) = .ok n := by
  have hd : ∀ c ∈ Nat.toDigits 10 n, c.isDigit := fun _ => isDigit_of_mem_toDigits
  have hv : Nat.ofDigitChars 10 (Nat.toDigits 10 n) 0 = n := Nat.ofDigitChars_ten_toDigits
  cases hs : Nat.toDigits 10 n with
  | nil => exact absurd hs Nat.toDigits_ne_nil
  | cons c rest =>
    rw [hs] at hd hv
    have hr : readDigits limit excess 0 (c :: rest) = .ok _ :=
      readDigits_eq hd (by rw [hv]; exact h)
    rwa [hv] at hr

/-- A text that starts with a digit has no sign. -/
theorem read_of_isDigit {least greatest : Nat} {c : Char} {rest : List Char} (h : c.isDigit) :
    read least greatest (c :: rest) =
      (readMagnitude greatest .tooLarge (c :: rest)).map Int.ofNat := by
  unfold read
  split
  · contradiction
  · next he =>
    cases he
    exact absurd h (by decide)
  · next he =>
    cases he
    exact absurd h (by decide)
  · rfl

/-- A number in range reads back from its numeral. -/
theorem read_print {least greatest : Nat} {n : Int} (low : -(least : Int) ≤ n)
    (high : n ≤ greatest) : read least greatest (print n) = .ok n := by
  cases n with
  | ofNat n =>
    have hm : readMagnitude greatest .tooLarge (Nat.toDigits 10 n) = .ok n :=
      readMagnitude_toDigits (Int.ofNat_le.mp high)
    rw [print]
    cases hs : Nat.toDigits 10 n with
    | nil => exact absurd hs Nat.toDigits_ne_nil
    | cons c rest =>
      have hc : c.isDigit := isDigit_of_mem_toDigits (by rw [hs]; exact List.mem_cons_self)
      rw [read_of_isDigit hc, ← hs, hm]
      rfl
  | negSucc n =>
    have hn : n + 1 ≤ least := by omega
    rw [print, read, if_neg (by omega), readMagnitude_toDigits hn]
    rfl

theorem readInt32_print (value : Int32) :
    readInt32 (String.ofList (print value.toInt)) = .ok value := by
  have low : -(Int32.minValue.toInt.natAbs : Int) ≤ value.toInt := value.le_toInt
  have high : value.toInt ≤ Int32.maxValue.toInt.toNat := Int.le_of_lt_add_one value.toInt_lt
  rw [readInt32, String.toList_ofList, read_print low high]
  simp [Except.map]

/-! ## What can be read -/

theorem isDigit_of_readDigits {limit : Nat} {excess : Error} {digits : List Char} {value n : Nat}
    (h : readDigits limit excess value digits = .ok n) : ∀ c ∈ digits, c.isDigit := by
  induction digits generalizing value with
  | nil => nofun
  | cons c rest ih =>
    rw [readDigits] at h
    split at h
    · next hdigit =>
      dsimp only at h
      split at h
      · exact List.forall_mem_cons.mpr ⟨hdigit, ih h⟩
      · cases h
    · cases h

theorem isDigit_of_readMagnitude {limit : Nat} {excess : Error} {digits : List Char} {n : Nat}
    (h : readMagnitude limit excess digits = .ok n) : ∀ c ∈ digits, c.isDigit := by
  unfold readMagnitude at h
  split at h
  · cases h
  · exact isDigit_of_readDigits h

/-- Only signs and digits read as a number, and at least one of them. -/
theorem chars_of_read {least greatest : Nat} {cs : List Char} {n : Int}
    (h : read least greatest cs = .ok n) :
    cs ≠ [] ∧ ∀ c ∈ cs, c.isDigit ∨ c = '+' ∨ c = '-' := by
  have hdigits {limit : Nat} {excess : Error} {ds : List Char} {f : Nat → Int}
      (hmap : (readMagnitude limit excess ds).map f = .ok n) : ∀ c ∈ ds, c.isDigit := by
    cases hread : readMagnitude limit excess ds with
    | error e =>
      rw [hread] at hmap
      cases hmap
    | ok m => exact isDigit_of_readMagnitude hread
  unfold read at h
  split at h
  · cases h
  · next ds =>
    refine ⟨List.cons_ne_nil _ _, List.forall_mem_cons.mpr ⟨Or.inr (Or.inl rfl), ?_⟩⟩
    exact fun c hc => Or.inl (hdigits h c hc)
  · next ds =>
    split at h
    · cases h
    · refine ⟨List.cons_ne_nil _ _, List.forall_mem_cons.mpr ⟨Or.inr (Or.inr rfl), ?_⟩⟩
      exact fun c hc => Or.inl (hdigits h c hc)
  · next hblank _ _ => exact ⟨hblank, fun c hc => Or.inl (hdigits h c hc)⟩

theorem chars_of_readInt32 {text : String} {value : Int32} (h : readInt32 text = .ok value) :
    text.toList ≠ [] ∧ ∀ c ∈ text.toList, c.isDigit ∨ c = '+' ∨ c = '-' := by
  unfold readInt32 at h
  cases hread : read Int32.minValue.toInt.natAbs Int32.maxValue.toInt.toNat text.toList with
  | error e =>
    rw [hread] at h
    cases h
  | ok n => exact chars_of_read hread

end NodeGrid.Numeral
