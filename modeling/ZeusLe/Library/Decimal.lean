import Mathlib.Algebra.Order.Group.Nat
import Mathlib.Data.List.Basic

/-! Decimal numerals of fixed minimal width, and reading them back. -/

namespace ZeusLe.Library.Decimal

def padded (width n : Nat) : List Char :=
  (Nat.toDigits 10 n).leftpad width '0'

/-- The number that a list of digit characters denotes. -/
def value (digits : List Char) : Nat :=
  Nat.ofDigitChars 10 digits 0

theorem value_padded (width n : Nat) : value (padded width n) = n := by
  rw [value, padded, List.leftpad, Nat.ofDigitChars_append,
    Nat.ofDigitChars_replicate_zero, Nat.mul_zero, Nat.ofDigitChars_ten_toDigits]

theorem padded_injective (width : Nat) : Function.Injective (padded width) := by
  intro m n h
  rw [← value_padded width m, h, value_padded]

theorem isDigit_of_mem_padded {width n : Nat} {c : Char} (hc : c ∈ padded width n) :
    c.isDigit = true := by
  rcases List.mem_append.mp hc with hzero | hdigit
  · rw [(List.mem_replicate.mp hzero).2]
    rfl
  · exact Nat.isDigit_of_mem_toDigits (by decide) (by decide) hdigit

theorem padded_ne_nil (width n : Nat) : padded width n ≠ [] := by
  intro h
  have hdigits := (List.append_eq_nil_iff.mp h).2
  exact Nat.toDigits_ne_nil hdigits

theorem length_padded_le {width bound n : Nat} (hpos : 0 < bound) (hwidth : width ≤ bound)
    (hn : n < 10 ^ bound) : (padded width n).length ≤ bound := by
  rw [padded, List.length_leftpad]
  exact Nat.max_le.mpr
    ⟨hwidth, (Nat.length_toDigits_le_iff (by decide) hpos).mpr hn⟩

theorem takeWhile_padded_append (width n : Nat) {c : Char} (hc : c.isDigit = false)
    (rest : List Char) :
    (padded width n ++ c :: rest).takeWhile Char.isDigit = padded width n := by
  rw [List.takeWhile_append_of_pos fun _ hmem => isDigit_of_mem_padded hmem]
  simp [hc]

theorem dropWhile_padded_append (width n : Nat) {c : Char} (hc : c.isDigit = false)
    (rest : List Char) :
    (padded width n ++ c :: rest).dropWhile Char.isDigit = c :: rest := by
  rw [List.dropWhile_append_of_pos fun _ hmem => isDigit_of_mem_padded hmem]
  simp [hc]

end ZeusLe.Library.Decimal
