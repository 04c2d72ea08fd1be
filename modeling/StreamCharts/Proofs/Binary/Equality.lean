import StreamCharts.Log.Parse
import StreamCharts.Proofs.Binary.Rounding

/-!
# Equality of numbers and the keys of timestamps

`Binary.Equal` is the equality of IEEE 754, said of exact values. A number plus zero is the number itself, but for a negative
zero, which becomes positive (`Binary.finite_add_zero`). So the key that is kept of a timestamp stands for exactly the numbers
that are equal to it, and NaN, which equals nothing, has no key (`timestampKey?_eq_iff`).
-/

namespace StreamCharts

namespace Binary

variable {f : Format}

/-- Equality as IEEE 754 has it: finite numbers are equal if their exact values are, also the two zeros, infinities are equal if
their signs are, and NaN equals nothing. -/
inductive Equal : Binary f → Binary f → Prop where
  | infinite (negative : Bool) : Equal (.infinite negative) (.infinite negative)
  | finite {s t : Bool} {i j : Fin f.infinityRank} (h : (Binary.finite s i).value = (Binary.finite t j).value) :
      Equal (.finite s i) (.finite t j)

/-- Finite numbers with one exact value are one number, or two zeros. -/
theorem value_eq_iff (s t : Bool) (i j : Fin f.infinityRank) :
    (finite s i).value = (finite t j).value ↔ (i.val = 0 ∧ j.val = 0) ∨ (s = t ∧ i = j) := by
  constructor
  · intro h
    have hround := congrArg (round f false) h
    rw [round_value, round_value] at hround
    by_cases hi : i.val = 0
    · rw [if_pos hi] at hround
      by_cases hj : j.val = 0
      · exact Or.inl ⟨hi, hj⟩
      · rw [if_neg hj] at hround
        injection hround with _ hij
        exact absurd (hij ▸ hi) hj
    · rw [if_neg hi] at hround
      by_cases hj : j.val = 0
      · rw [if_pos hj] at hround
        injection hround with _ hij
        exact absurd (hij ▸ hj) hi
      · rw [if_neg hj] at hround
        injection hround with hst hij
        exact Or.inr ⟨hst, hij⟩
  · rintro (⟨hi, hj⟩ | ⟨rfl, rfl⟩)
    · simp [value, hi, hj, f.magnitude_zero]
    · rfl

/-- Infinities are equal if they have one sign. -/
theorem equal_infinite_iff (s t : Bool) : (infinite s : Binary f).Equal (.infinite t) ↔ s = t := by
  constructor
  · rintro ⟨⟩
    rfl
  · rintro rfl
    exact .infinite s

/-- Finite numbers are equal if their exact values are. -/
theorem equal_finite_iff (s t : Bool) (i j : Fin f.infinityRank) :
    (finite s i).Equal (.finite t j) ↔ (finite s i).value = (finite t j).value := by
  constructor
  · intro h
    cases h with
    | finite h => exact h
  · exact .finite

/-- The comparison of places in the order of numbers decides their equality. -/
theorem same_iff_equal (hf : 0 < f.infinityRank) (a b : Binary f) : a.same b = true ↔ a.Equal b := by
  cases a with
  | nan => exact ⟨nofun, nofun⟩
  | infinite s =>
    cases b with
    | nan => exact ⟨nofun, nofun⟩
    | infinite t =>
      have hne : (f.infinityRank : Int) ≠ -f.infinityRank := by omega
      cases s <;> cases t <;> simp [same, place?, hne, hne.symm, equal_infinite_iff]
    | finite t j =>
      -- a finite number stands strictly between the infinities
      have hrank := j.isLt
      refine ⟨fun h => ?_, nofun⟩
      cases s <;> cases t <;> simp [same, place?] at h <;> omega
  | finite s i =>
    cases b with
    | nan => exact ⟨nofun, nofun⟩
    | infinite t =>
      have hrank := i.isLt
      refine ⟨fun h => ?_, nofun⟩
      cases s <;> cases t <;> simp [same, place?] at h <;> omega
    | finite t j =>
      rw [equal_finite_iff, value_eq_iff]
      cases s <;> cases t <;> simp [same, place?, Fin.ext_iff] <;> omega

/-- What equals something is not NaN. -/
theorem Equal.isNaN_eq_false {a b : Binary f} (h : a.Equal b) : a.isNaN = false ∧ b.isNaN = false := by
  cases h with
  | infinite => exact ⟨rfl, rfl⟩
  | finite => exact ⟨rfl, rfl⟩

/-- Equality of numbers of 64 bits is decided by their places. -/
instance (a b : Binary64) : Decidable (a.Equal b) :=
  decidable_of_iff (a.same b = true) (same_iff_equal (by decide) a b)

/-! ## Adding zero -/

/-- The number 0 is the positive zero. -/
theorem zero_eq (hf : 0 < f.infinityRank) : (0 : Binary f) = .finite false ⟨0, hf⟩ := by
  have hcast : ((0 : Nat) : ℚ) = 0 := rfl
  change ofRat f ((0 : Nat) : ℚ) = _
  rw [hcast, ofRat, round, if_pos rfl, ofRank, dif_pos hf]

/-- A finite number plus zero is the number itself, but a negative zero becomes positive. -/
theorem finite_add_zero (s : Bool) (i : Fin f.infinityRank) :
    (finite s i : Binary f) + 0 = if i.val = 0 then .finite false i else .finite s i := by
  have hf : 0 < f.infinityRank := Nat.zero_lt_of_lt i.isLt
  have hvalue : (finite false ⟨0, hf⟩ : Binary f).value = 0 := f.magnitude_zero
  rw [zero_eq hf]
  change round f (s && false) ((finite s i).value + (finite false ⟨0, hf⟩).value) = _
  rw [hvalue, add_zero, Bool.and_false, round_value]

/-- An infinity plus zero is that infinity. -/
theorem infinite_add_zero (hf : 0 < f.infinityRank) (s : Bool) : (infinite s : Binary f) + 0 = .infinite s := by
  rw [zero_eq hf]
  rfl

/-- Numbers that become one number when zero is added to them are the equal ones, NaN aside. -/
theorem add_zero_eq_iff_equal (hf : 0 < f.infinityRank) {a b : Binary f} (ha : a.isNaN = false) (hb : b.isNaN = false) :
    a + 0 = b + 0 ↔ a.Equal b := by
  cases a with
  | nan => exact nomatch ha
  | infinite s =>
    rw [infinite_add_zero hf]
    cases b with
    | nan => exact nomatch hb
    | infinite t => rw [infinite_add_zero hf, equal_infinite_iff, infinite.injEq]
    | finite t j =>
      rw [finite_add_zero]
      constructor
      · intro h
        split at h <;> exact nomatch h
      · exact nofun
  | finite s i =>
    rw [finite_add_zero]
    cases b with
    | nan => exact nomatch hb
    | infinite t =>
      rw [infinite_add_zero hf]
      constructor
      · intro h
        split at h <;> exact nomatch h
      · exact nofun
    | finite t j =>
      rw [finite_add_zero, equal_finite_iff, value_eq_iff]
      by_cases hi : i.val = 0
      · by_cases hj : j.val = 0
        · have hij : i = j := Fin.ext (hi.trans hj.symm)
          simp [hij, hj]
        · have hij : i ≠ j := fun h => hj (h ▸ hi)
          simp [hi, hj, hij]
      · by_cases hj : j.val = 0
        · have hij : i ≠ j := fun h => hi (h ▸ hj)
          simp [hi, hj, hij]
        · simp [hi, hj]

end Binary

/-! ## Keys -/

/-- A timestamp other than NaN has a key. -/
theorem timestampKey?_of_not_isNaN {time : Binary64} (h : time.isNaN = false) : timestampKey? time = some (time + 0) := by
  rw [timestampKey?, h]
  rfl

/-- NaN has no key. -/
theorem timestampKey?_of_isNaN {time : Binary64} (h : time.isNaN = true) : timestampKey? time = none := by
  rw [timestampKey?, h]
  rfl

/-- The key of a timestamp stands for exactly the numbers that equal it; NaN has none, as it equals nothing. -/
theorem timestampKey?_eq_iff (a b : Binary64) :
    (∃ key, timestampKey? a = some key ∧ timestampKey? b = some key) ↔ a.Equal b := by
  by_cases ha : a.isNaN = true
  · rw [timestampKey?_of_isNaN ha]
    exact ⟨nofun, fun h => absurd ha (Bool.eq_false_iff.mp h.isNaN_eq_false.1)⟩
  by_cases hb : b.isNaN = true
  · rw [timestampKey?_of_isNaN hb]
    exact ⟨nofun, fun h => absurd hb (Bool.eq_false_iff.mp h.isNaN_eq_false.2)⟩
  rw [Bool.not_eq_true] at ha hb
  rw [← Binary.add_zero_eq_iff_equal (by decide) ha hb, timestampKey?_of_not_isNaN ha, timestampKey?_of_not_isNaN hb]
  constructor
  · rintro ⟨key, hkey, hkey'⟩
    exact Option.some.inj (hkey.trans hkey'.symm)
  · intro h
    exact ⟨a + 0, rfl, congrArg some h.symm⟩

end StreamCharts
