import StreamCharts.Binary.Decimal
import StreamCharts.Proofs.Binary.Rounding

/-!
# The bits of numbers

A number is read back from its bits, so that numbers with the same bits are one number (`Binary.toBits_injective`). This holds of
NaN too, the sign of which is the one that stands before its word in a text (`Binary.ofText?_eq_nan_iff`).
-/

namespace StreamCharts.Binary

variable {f : Format}

/-! ## Reading bits back -/

/-- Behind the rank of infinity there is one more binade, for NaN. -/
theorem infinityRank_add_binade (f : Format) : f.infinityRank + f.binade = f.binade * Nat.pow 2 f.exponentBits := by
  have hpos : 0 < 2 ^ f.exponentBits := Nat.two_pow_pos _
  rw [Format.infinityRank, Nat.pow_eq, Nat.sub_mul, Nat.one_mul, Nat.mul_comm f.binade]
  exact Nat.sub_add_cancel (Nat.le_mul_of_pos_left _ hpos)

/-- Bits are read back as the rank below the sign bit. -/
theorem ofBits_signBit_add (negative : Bool) {rank : Nat} (h : rank < f.infinityRank + f.binade) :
    ofBits f (signBit f negative + rank) = if f.infinityRank < rank then .nan negative else ofRank f negative rank := by
  rw [infinityRank_add_binade] at h
  have hrank : (signBit f negative + rank) % (f.binade * Nat.pow 2 f.exponentBits) = rank := by
    cases negative with
    | false => rw [signBit, if_neg Bool.false_ne_true, Nat.zero_add, Nat.mod_eq_of_lt h]
    | true => rw [signBit, if_pos rfl, Nat.add_mod_left, Nat.mod_eq_of_lt h]
  have hsign : decide (f.binade * Nat.pow 2 f.exponentBits ≤ signBit f negative + rank) = negative := by
    cases negative with
    | false => simpa [signBit] using h
    | true => simp [signBit]
  simp only [ofBits, hrank, hsign]

/-- A number is read back from its bits, if a fraction has room for the bit of NaN. -/
theorem ofBits_toBits (hf : 1 < f.binade) (x : Binary f) : ofBits f x.toBits = x := by
  cases x with
  | nan negative =>
    rw [toBits, ofBits_signBit_add negative (by omega), if_pos (by omega)]
  | infinite negative =>
    rw [toBits, ofBits_signBit_add negative (by omega), if_neg (Nat.lt_irrefl _), ofRank, dif_neg (Nat.lt_irrefl _)]
  | finite negative rank =>
    have hrank := rank.isLt
    rw [toBits, ofBits_signBit_add negative (by omega), if_neg (by omega), ofRank, dif_pos hrank]

/-- Numbers with the same bits are one number, NaN included. -/
theorem toBits_injective (hf : 1 < f.binade) : Function.Injective (toBits : Binary f → Nat) :=
  Function.LeftInverse.injective (ofBits_toBits hf)

/-! ## Texts of NaN -/

/-- A rank stands for no NaN. -/
theorem ofRank_ne_nan (negative : Bool) (rank : Nat) (negative' : Bool) : ofRank f negative rank ≠ .nan negative' := by
  intro h
  rw [ofRank] at h
  split at h
  · cases h
  · cases h

/-- Digits stand for no NaN. -/
theorem toBinary_ne_nan (d : Decimal) (negative : Bool) : d.toBinary f ≠ .nan negative := by
  simp only [Decimal.toBinary]
  split_ifs
  · exact ofRank_ne_nan _ _ _
  · intro h
    cases h
  · exact ofRank_ne_nan _ _ _
  · exact ofRank_ne_nan _ _ _

/-- A text without its sign stands for NaN if it is the word for it, and then for the NaN of the sign. -/
theorem unsigned?_eq_nan_iff (negative negative' : Bool) (cs : List Char) :
    unsigned? f negative cs = some (.nan negative') ↔ cs.map Char.toLower = ['n', 'a', 'n'] ∧ negative = negative' := by
  have hword (word : String) : String.ofList (cs.map Char.toLower) = word ↔ cs.map Char.toLower = word.toList := by
    rw [← String.toList_inj, String.toList_ofList]
  have hnan : "nan".toList = ['n', 'a', 'n'] := rfl
  simp only [unsigned?, ofWord?, Bool.or_eq_true, decide_eq_true_eq, hword, hnan]
  split_ifs with hinf hnan
  · rcases hinf with h | h <;> simp [h]
  · simp [hnan]
  · simp only [hnan, false_and, iff_false]
    intro h
    obtain ⟨d, -, hd⟩ := Option.map_eq_some_iff.mp h
    exact toBinary_ne_nan d negative' hd

/-- A text is the word for NaN, in letters of any case, behind a minus sign or behind another or none. -/
def WordOfNaN (text : String) (negative : Bool) : Prop :=
  ∃ word : List Char, word.map Char.toLower = ['n', 'a', 'n'] ∧
    (text.toList = '-' :: word ∧ negative = true ∨ (text.toList = '+' :: word ∨ text.toList = word) ∧ negative = false)

/-- The word for NaN stands for NaN with the sign before it, and no other text stands for NaN. -/
theorem ofText?_eq_nan_iff (text : String) (negative : Bool) : ofText? f text = some (.nan negative) ↔ WordOfNaN text negative := by
  rw [ofText?, WordOfNaN]
  split
  · rename_i cs h
    rw [unsigned?_eq_nan_iff]
    constructor
    · rintro ⟨hword, rfl⟩
      exact ⟨cs, hword, Or.inl ⟨h, rfl⟩⟩
    · rintro ⟨word, hword, ⟨hw, rfl⟩ | ⟨hw | hw, rfl⟩⟩
      · simp_all
      · simp_all
      · rw [h] at hw
        subst hw
        simp at hword
  · rename_i cs h
    rw [unsigned?_eq_nan_iff]
    constructor
    · rintro ⟨hword, rfl⟩
      exact ⟨cs, hword, Or.inr ⟨Or.inl h, rfl⟩⟩
    · rintro ⟨word, hword, ⟨hw, rfl⟩ | ⟨hw | hw, rfl⟩⟩
      · simp_all
      · simp_all
      · rw [h] at hw
        subst hw
        simp at hword
  · rename_i hminus hplus
    rw [unsigned?_eq_nan_iff]
    constructor
    · rintro ⟨hword, rfl⟩
      exact ⟨_, hword, Or.inr ⟨Or.inr rfl, rfl⟩⟩
    · rintro ⟨word, hword, ⟨hw, rfl⟩ | ⟨hw | hw, rfl⟩⟩
      · exact absurd hw (hminus word)
      · exact absurd hw (hplus word)
      · rw [hw]
        exact ⟨hword, rfl⟩

end StreamCharts.Binary
