import Mathlib.Data.Nat.Digits.Defs

/-!
# Decimal numerals

A natural number as the list of its decimal digits, most significant first, and
the value of such a list.  `value_digits` is the print/parse round trip, and
`digit_lt_ten` is what a reader of digit characters needs about the printed
list.
-/

namespace Decimal

/-- The decimal digits of a number, most significant first. -/
def digits (n : Nat) : List Nat :=
  if n = 0 then [0] else (Nat.digits 10 n).reverse

/-- The value of a list of decimal digits, most significant first. -/
def value (ds : List Nat) : Nat :=
  ds.foldl (fun acc d => acc * 10 + d) 0

/-- Every number has a digit. -/
theorem digits_ne_nil (n : Nat) : digits n ≠ [] := by
  unfold digits
  split
  · simp
  · rename_i h
    simpa using Nat.digits_ne_nil_iff_ne_zero.mpr h

/-- Printed digits are decimal digits. -/
theorem digit_lt_ten {n d : Nat} (h : d ∈ digits n) : d < 10 := by
  unfold digits at h
  split at h
  · simp at h
    omega
  · exact Nat.digits_lt_base (by omega) (List.mem_reverse.mp h)

/-- The value read most significant digit first is Mathlib's `Nat.ofDigits` of
the reversed list. -/
theorem value_eq_ofDigits (ds : List Nat) : value ds = Nat.ofDigits 10 ds.reverse := by
  unfold value
  rw [Nat.ofDigits_eq_foldr, List.foldr_reverse]
  congr 1
  funext acc d
  simp [Nat.mul_comm, Nat.add_comm]

/-- **Round trip.**  The printed digits of a number have its value. -/
theorem value_digits (n : Nat) : value (digits n) = n := by
  unfold digits
  split
  · rename_i h
    simp [value, h]
  · rw [value_eq_ofDigits, List.reverse_reverse, Nat.ofDigits_digits]

end Decimal
