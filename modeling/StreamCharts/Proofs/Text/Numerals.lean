import Mathlib.Algebra.Ring.Int.Defs
import StreamCharts.Numeral

/-!
# Spellings of integers

An integer can be spelled in many ways: with or without a plus sign, and with any number of leading zeros. `Spells` says which texts
spell an integer, by the digits that `decimal` writes. Each of them is read as that integer (`Spells.integer?_eq`); as a 64-bit
integer it is read if it fits (`Spells.int64?_of_toInt`), and refused if it does not (`Spells.int64?_eq_none`). A 32-bit number is
read back from its decimal digits (`uint32?_decimal`).
-/

namespace StreamCharts.Numeral

/-- A text spells an integer: behind a sign, which is needed only if it is a minus sign, stand any number of zeros and the decimal
digits of its magnitude. -/
inductive Spells (n : Int) : String → Prop where
  | plain (h : 0 ≤ n) (zeros : Nat) : Spells n (String.ofList (List.replicate zeros '0') ++ decimal n.natAbs)
  | plus (h : 0 ≤ n) (zeros : Nat) : Spells n ("+" ++ String.ofList (List.replicate zeros '0') ++ decimal n.natAbs)
  | minus (h : n ≤ 0) (zeros : Nat) : Spells n ("-" ++ String.ofList (List.replicate zeros '0') ++ decimal n.natAbs)

/-- The digits of a number behind leading zeros. -/
def padded (zeros n : Nat) : List Char :=
  List.replicate zeros '0' ++ Nat.toDigits 10 n

/-- The number that digits denote, in the terms of the library. -/
theorem accumulate_eq_ofDigitChars (n : Nat) (cs : List Char) : accumulate 10 digitValue n cs = Nat.ofDigitChars 10 cs n := by
  induction cs generalizing n with
  | nil => rfl
  | cons c cs ih =>
    rw [accumulate, ih, Nat.mul_comm]
    rfl

/-- Leading zeros do not count. -/
theorem accumulate_replicate_zero (zeros : Nat) (cs : List Char) :
    accumulate 10 digitValue 0 (List.replicate zeros '0' ++ cs) = accumulate 10 digitValue 0 cs := by
  induction zeros with
  | zero => rfl
  | succ zeros ih => exact ih

/-- Padded digits are digits. -/
theorem all_isDigit_padded (zeros n : Nat) : (padded zeros n).all isDigit = true := by
  rw [padded, List.all_append, Bool.and_eq_true, List.all_eq_true, List.all_eq_true]
  constructor
  · intro c hc
    obtain rfl := List.eq_of_mem_replicate hc
    rfl
  · intro c hc
    exact Nat.isDigit_of_mem_toDigits (by decide) (by decide) hc

/-- Padded digits denote their number. -/
theorem natural?_padded (zeros n : Nat) : natural? (padded zeros n) = some n := by
  have hne : (padded zeros n).isEmpty = false := by simp [padded, Nat.toDigits_ne_nil]
  rw [natural?, hne, all_isDigit_padded, ofDigits, padded, accumulate_replicate_zero, accumulate_eq_ofDigitChars,
    Nat.ofDigitChars_toDigits (by decide) (by decide)]
  rfl

/-- The digits of a 32-bit number are read as that number. -/
theorem uint32?_decimal (x : UInt32) : uint32? (decimal x.toNat) = some x := by
  have hdigits := all_isDigit_padded 0 x.toNat
  have hvalue : natural? (Nat.toDigits 10 x.toNat) = some x.toNat := natural?_padded 0 x.toNat
  unfold uint32?
  rw [decimal, String.toList_ofList]
  split
  · next cs hplus => simp [padded, hplus, isDigit] at hdigits
  · dsimp only
    rw [hvalue]
    simp [UInt32.toNat_lt_size]

/-- Padded digits carry no sign. -/
theorem splitSign_padded (zeros n : Nat) : splitSign (padded zeros n) = (false, padded zeros n) := by
  have hdigits := all_isDigit_padded zeros n
  unfold splitSign
  split
  · next heq => simp [heq, isDigit] at hdigits
  · next heq => simp [heq, isDigit] at hdigits
  · rfl

namespace Spells

variable {n : Int} {text : String}

/-- The characters of a spelling: padded digits, behind a sign or not. -/
theorem exists_padded (h : Spells n text) : ∃ zeros, (0 ≤ n ∧ text.toList = padded zeros n.natAbs) ∨
    (0 ≤ n ∧ text.toList = '+' :: padded zeros n.natAbs) ∨ (n ≤ 0 ∧ text.toList = '-' :: padded zeros n.natAbs) := by
  cases h with
  | plain h zeros => exact ⟨zeros, Or.inl ⟨h, by simp [decimal, padded]⟩⟩
  | plus h zeros => exact ⟨zeros, Or.inr (Or.inl ⟨h, by simp [decimal, padded]⟩)⟩
  | minus h zeros => exact ⟨zeros, Or.inr (Or.inr ⟨h, by simp [decimal, padded]⟩)⟩

/-- A spelling is read as the integer that it spells. -/
theorem integer?_eq (h : Spells n text) : integer? text.toList = some n := by
  obtain ⟨zeros, h⟩ := h.exists_padded
  generalize hm : n.natAbs = magnitude at h
  rcases h with ⟨hn, htext⟩ | ⟨hn, htext⟩ | ⟨hn, htext⟩
  · have hvalue : (magnitude : Int) = n := by omega
    rw [htext, integer?, splitSign_padded]
    simp [natural?_padded, hvalue]
  · have hvalue : (magnitude : Int) = n := by omega
    rw [htext, integer?, splitSign]
    simp [natural?_padded, hvalue]
  · have hvalue : -(magnitude : Int) = n := by omega
    rw [htext, integer?, splitSign]
    simp [natural?_padded, hvalue]

/-- A spelling of a 64-bit integer is read as that integer. -/
theorem int64?_of_toInt {x : Int64} (h : Spells x.toInt text) : int64? text = some x := by
  rw [int64?, h.integer?_eq]
  simp only [if_pos (And.intro x.minValue_le_toInt x.toInt_le), Int64.ofInt_toInt]

/-- A spelling of an integer that 64 bits do not hold is refused. -/
theorem int64?_eq_none (h : Spells n text) (hn : n < -2 ^ 63 ∨ 2 ^ 63 - 1 < n) : int64? text = none := by
  have hout : ¬ (Int64.minValue.toInt ≤ n ∧ n ≤ Int64.maxValue.toInt) := by
    have hmin : Int64.minValue.toInt = -2 ^ 63 := by decide
    have hmax : Int64.maxValue.toInt = 2 ^ 63 - 1 := by decide
    omega
  rw [int64?, h.integer?_eq]
  exact if_neg hout

end Spells

end StreamCharts.Numeral
