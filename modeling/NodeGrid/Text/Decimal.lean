/-!
# Decimal fractions

A decimal fraction without a sign is a number of digits times a power of ten, exactly. Floats of 64
bits reach up to `2 ^ 1024 - 2 ^ 971`; what is nearer to `2 ^ 1024` than to that, and the middle
between the two, overflows. Main statement: `overflows_iff`, that the test, which bounds the
exponent first, decides this for every exponent.
-/

namespace NodeGrid

/-- The number `digits * 10 ^ exponent`. -/
structure Decimal where
  digits : Nat
  exponent : Int
  deriving DecidableEq

namespace Decimal

/-- The number `10 ^ n`. -/
def powerOfTen (n : Nat) : Nat := Nat.pow 10 n

/-- The least number that overflows. -/
def overflowBound : Nat := Nat.pow 2 1024 - Nat.pow 2 970

/-- Whether `digits * 10 ^ exponent` is at least the bound, all in natural numbers. -/
def reachesBound (d : Decimal) : Prop :=
  overflowBound * powerOfTen (-d.exponent).toNat ≤ d.digits * powerOfTen d.exponent.toNat

instance (d : Decimal) : Decidable d.reachesBound := inferInstanceAs (Decidable (_ ≤ _))

/-- More than the decimal places of the digits. -/
def places (d : Decimal) : Nat := d.digits.log2 + 1

/-- An exponent from which on one digit is enough to overflow. -/
def largeExponent : Nat := 309

/-- The same digits with an exponent between bounds past which the digits do not matter. -/
def bounded (d : Decimal) : Decimal where
  digits := d.digits
  exponent := max (-d.places) (min d.exponent largeExponent)

/-- Whether a float of 64 bits has no finite number nearest to this one. -/
def overflows (d : Decimal) : Bool := decide d.bounded.reachesBound

theorem powerOfTen_zero : powerOfTen 0 = 1 := rfl

theorem powerOfTen_pos (n : Nat) : 0 < powerOfTen n := Nat.pow_pos (by decide)

theorem powerOfTen_mono {m n : Nat} (h : m ≤ n) : powerOfTen m ≤ powerOfTen n :=
  Nat.pow_le_pow_right (by decide) h

theorem digits_lt (d : Decimal) : d.digits < powerOfTen d.places :=
  Nat.lt_of_lt_of_le Nat.lt_log2_self (Nat.pow_le_pow_left (by decide) _)

theorem overflowBound_pos : 0 < overflowBound := by decide +kernel

theorem overflowBound_le : overflowBound ≤ powerOfTen largeExponent := by decide +kernel

/-- A number without digits does not overflow. -/
theorem not_reachesBound_of_digits_eq_zero {d : Decimal} (h : d.digits = 0) :
    ¬ d.reachesBound := by
  have := Nat.mul_pos overflowBound_pos (powerOfTen_pos (-d.exponent).toNat)
  simp only [reachesBound, h]
  omega

/-- From a large exponent on, every other number overflows. -/
theorem reachesBound_of_le {d : Decimal} (h : largeExponent ≤ d.exponent) (hd : d.digits ≠ 0) :
    d.reachesBound := by
  have hneg : (-d.exponent).toNat = 0 := by omega
  have hpow : powerOfTen largeExponent ≤ powerOfTen d.exponent.toNat :=
    powerOfTen_mono (by omega)
  have hmul := Nat.le_mul_of_pos_left (powerOfTen d.exponent.toNat) (Nat.pos_of_ne_zero hd)
  simp only [reachesBound, hneg, powerOfTen_zero, Nat.mul_one]
  exact Nat.le_trans overflowBound_le (Nat.le_trans hpow hmul)

/-- Up to a small exponent, every number is below one. -/
theorem not_reachesBound_of_le {d : Decimal} (h : d.exponent ≤ -d.places) :
    ¬ d.reachesBound := by
  have hpos : d.exponent.toNat = 0 := by omega
  have hpow : powerOfTen d.places ≤ powerOfTen (-d.exponent).toNat :=
    powerOfTen_mono (by omega)
  have hmul := Nat.le_mul_of_pos_left (powerOfTen (-d.exponent).toNat) overflowBound_pos
  have := d.digits_lt
  simp only [reachesBound, hpos, powerOfTen_zero, Nat.mul_one, Nat.not_le]
  omega

theorem bounded_reachesBound (d : Decimal) : d.bounded.reachesBound ↔ d.reachesBound := by
  by_cases hd : d.digits = 0
  · exact iff_of_false (not_reachesBound_of_digits_eq_zero (d := d.bounded) hd)
      (not_reachesBound_of_digits_eq_zero hd)
  · by_cases hlow : d.exponent ≤ -d.places
    · have : d.bounded.exponent ≤ -d.bounded.places := by
        simp only [bounded, places] at hlow ⊢
        omega
      exact iff_of_false (not_reachesBound_of_le this) (not_reachesBound_of_le hlow)
    · by_cases hhigh : largeExponent ≤ d.exponent
      · have : largeExponent ≤ d.bounded.exponent := by
          simp only [bounded]
          omega
        exact iff_of_true (reachesBound_of_le this hd) (reachesBound_of_le hhigh hd)
      · have : d.bounded = d := by
          obtain ⟨digits, exponent⟩ := d
          simp only [bounded, places, mk.injEq, true_and] at hlow hhigh ⊢
          omega
        rw [this]

/-- The bounds on the exponent change no answer. -/
theorem overflows_iff (d : Decimal) :
    d.overflows = true ↔
      overflowBound * powerOfTen (-d.exponent).toNat ≤ d.digits * powerOfTen d.exponent.toNat :=
  decide_eq_true_iff.trans d.bounded_reachesBound

end Decimal

end NodeGrid
