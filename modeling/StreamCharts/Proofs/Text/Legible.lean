import StreamCharts.Proofs.Text.Lines

/-!
# What bytes show

Bytes show the text that they are (`legible_utf8`), and bytes that are no text show a replacement somewhere. So a text without
replacements is shown by its own bytes and by no others (`legible_eq_iff`). An ASCII character shows only where its byte stands
(`ascii_mem_of_mem_legible`).
-/

namespace StreamCharts.Text

/-- A text is shown by its bytes. -/
theorem legible_utf8 (text : String) : legible (utf8 text) = text := by
  rw [legible, ofUtf8?_utf8]

/-- Bytes that begin with a character begin with all its bytes. -/
theorem eq_append_of_firstChar? {bytes : List UInt8} {c : Char} (h : firstChar? bytes = some c) :
    bytes = String.utf8EncodeChar c ++ bytes.drop c.utf8Size := by
  have hsome : (ByteArray.utf8DecodeChar? ⟨bytes.toArray⟩ 0).isSome = true := by
    rw [firstChar?] at h
    rw [h, Option.isSome_some]
  have hdecode : ByteArray.utf8DecodeChar ⟨bytes.toArray⟩ 0 hsome = c := by
    rw [ByteArray.utf8DecodeChar]
    exact Option.get_of_eq_some _ h
  have hencode := ByteArray.utf8EncodeChar_utf8DecodeChar (h := hsome)
  rw [hdecode, Nat.zero_add] at hencode
  have htake : String.utf8EncodeChar c = bytes.take c.utf8Size := by
    have hdata := congrArg (fun b : ByteArray => b.data.toList) hencode
    simpa [ByteArray.data_extract] using hdata
  rw [htake, List.take_append_drop]

/-- Bytes that show no replacement are those of the characters that they show. -/
theorem drop_eq_of_replacement_notMem (skip : Nat) (bytes : List UInt8) (h : replacement ∉ legibleChars skip bytes) :
    bytes.drop skip = (legibleChars skip bytes).flatMap String.utf8EncodeChar := by
  induction bytes generalizing skip with
  | nil => simp [legibleChars]
  | cons byte bytes ih =>
    rw [legibleChars] at h ⊢
    split at h
    · rename_i hskip
      obtain ⟨skip, rfl⟩ := Nat.exists_eq_succ_of_ne_zero hskip.ne'
      rw [if_pos hskip, List.drop_succ_cons]
      exact ih skip h
    · rename_i hskip
      obtain rfl : skip = 0 := Nat.eq_zero_of_not_pos hskip
      rw [if_neg hskip, List.drop_zero]
      split at h
      · rename_i c hc
        obtain ⟨size, hsize⟩ := Nat.exists_eq_succ_of_ne_zero c.utf8Size_pos.ne'
        have hbytes := eq_append_of_firstChar? hc
        rw [hsize, List.drop_succ_cons] at hbytes
        rw [hsize, Nat.succ_sub_one] at h
        rw [List.flatMap_cons, hsize, Nat.succ_sub_one, ← ih size fun hmem => h (List.mem_cons_of_mem _ hmem)]
        exact hbytes
      · exact absurd List.mem_cons_self h

/-- An ASCII character that bytes show is among them. -/
theorem ascii_mem_of_mem_legibleChars {a : Char} (ha : a.val.toNat < 128) (skip : Nat) (bytes : List UInt8)
    (h : a ∈ legibleChars skip bytes) : UInt8.ofNat a.val.toNat ∈ bytes := by
  induction bytes generalizing skip with
  | nil => exact absurd h (by simp [legibleChars])
  | cons byte bytes ih =>
    rw [legibleChars] at h
    split at h
    · exact List.mem_cons_of_mem _ (ih _ h)
    · split at h
      · rename_i c hc
        rcases List.mem_cons.mp h with rfl | h
        · rw [eq_append_of_firstChar? hc, utf8EncodeChar_ascii ha]
          exact List.mem_append_left _ (List.mem_singleton.mpr rfl)
        · exact List.mem_cons_of_mem _ (ih _ h)
      · rcases List.mem_cons.mp h with rfl | h
        · exact absurd ha (by decide)
        · exact List.mem_cons_of_mem _ (ih _ h)

/-- Bytes are those of the text that they show, or they are no text and show a replacement. -/
theorem legible_cases (bytes : List UInt8) :
    bytes = utf8 (legible bytes) ∨ ofUtf8? bytes = none ∧ replacement ∈ (legible bytes).toList := by
  cases htext : ofUtf8? bytes with
  | some text =>
    left
    rw [legible, htext]
    exact (ofUtf8?_eq_some_iff bytes text).mp htext
  | none =>
    refine Or.inr ⟨rfl, ?_⟩
    by_contra hno
    rw [legible, htext, String.toList_ofList] at hno
    have hbytes := drop_eq_of_replacement_notMem 0 bytes hno
    rw [List.drop_zero, ← utf8_ofList] at hbytes
    rw [(ofUtf8?_eq_some_iff _ _).mpr hbytes] at htext
    cases htext

/-- A text without replacements is shown by its own bytes and by no others. -/
theorem legible_eq_iff {text : String} (h : replacement ∉ text.toList) (bytes : List UInt8) :
    legible bytes = text ↔ bytes = utf8 text := by
  constructor
  · rintro rfl
    rcases legible_cases bytes with hbytes | ⟨-, hreplaced⟩
    · exact hbytes
    · exact absurd hreplaced h
  · rintro rfl
    exact legible_utf8 text

/-- An ASCII character that shows in a text is among the bytes. -/
theorem ascii_mem_of_mem_legible {a : Char} (ha : a.val.toNat < 128) {bytes : List UInt8} (h : a ∈ (legible bytes).toList) :
    UInt8.ofNat a.val.toNat ∈ bytes := by
  rw [legible] at h
  split at h
  · rename_i text htext
    rw [(ofUtf8?_eq_some_iff bytes text).mp htext, ← String.ofList_toList (s := text), utf8_ofList]
    refine List.mem_flatMap.mpr ⟨a, h, ?_⟩
    rw [utf8EncodeChar_ascii ha]
    exact List.mem_singleton.mpr rfl
  · rw [String.toList_ofList] at h
    exact ascii_mem_of_mem_legibleChars ha 0 bytes h

end StreamCharts.Text
