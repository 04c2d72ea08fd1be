import StreamCharts.Proofs.Input.Lines

/-!
# Lines of a text

The lines of a text are its characters up to and with each newline. A newline byte encodes nothing but the newline character, so
the lines of the bytes of a text are the bytes of its lines (`lines_utf8`), and each of them is text again (`ofUtf8?_utf8`). A newline
behind bytes does not decide whether they are text (`ofUtf8?_append_newline_eq_none_iff`).
-/

namespace StreamCharts.Text

/-- The lines of a sequence of characters: a line ends behind a newline, and what stands behind the last newline is a line
unless it is empty. -/
def charLines : List Char → List (List Char)
  | [] => []
  | c :: cs =>
    if c = '\n' then [c] :: charLines cs
    else match charLines cs with
      | [] => [[c]]
      | line :: rest => (c :: line) :: rest

/-- The lines of a text, each with the newline that ends it. -/
def textLines (text : String) : List String :=
  (charLines text.toList).map String.ofList

/-! ## Bytes of characters -/

/-- The bytes of a text are those of its characters. -/
theorem utf8_ofList (cs : List Char) : utf8 (String.ofList cs) = cs.flatMap String.utf8EncodeChar := by
  simp [utf8, List.utf8Encode]

/-- The bytes of a text are the bytes of a text. -/
theorem ofUtf8?_utf8 (text : String) : ofUtf8? (utf8 text) = some text := by
  have hbytes : (⟨(utf8 text).toArray⟩ : ByteArray) = text.toByteArray := by simp [utf8]
  rw [ofUtf8?, hbytes, String.fromUTF8?, dif_pos text.isValidUTF8]
  rfl

/-- Bytes encode the text whose bytes they are, and no other. -/
theorem ofUtf8?_eq_some_iff (bytes : List UInt8) (text : String) : ofUtf8? bytes = some text ↔ bytes = utf8 text := by
  constructor
  · intro h
    rw [ofUtf8?, String.fromUTF8?] at h
    split at h
    · obtain rfl := Option.some.inj h
      simp [utf8, String.fromUTF8]
    · cases h
  · rintro rfl
    exact ofUtf8?_utf8 text

/-- Texts with the same bytes are one text. -/
theorem utf8_injective : Function.Injective utf8 := by
  intro a b h
  have hback := congrArg ofUtf8? h
  rw [ofUtf8?_utf8, ofUtf8?_utf8] at hback
  exact Option.some.inj hback

/-- The bytes of two texts together are the bytes of the first and then those of the second. -/
theorem utf8_append (text more : String) : utf8 (text ++ more) = utf8 text ++ utf8 more := by
  rw [utf8, String.toByteArray_append]
  simp [utf8]

/-- The newline character is one byte. -/
theorem utf8EncodeChar_newline : String.utf8EncodeChar '\n' = [newline] := by
  decide

/-- An ASCII character is one byte. -/
theorem utf8EncodeChar_ascii {a : Char} (ha : a.val.toNat < 128) : String.utf8EncodeChar a = [UInt8.ofNat a.val.toNat] := by
  simp only [String.utf8EncodeChar]
  rw [if_pos (by omega)]

/-- No other character has the byte of an ASCII character. -/
theorem ascii_notMem_utf8EncodeChar {a c : Char} (ha : a.val.toNat < 128) (h : c ≠ a) :
    UInt8.ofNat a.val.toNat ∉ String.utf8EncodeChar c := by
  have hval : c.val.toNat ≠ a.val.toNat := fun hc => h (Char.toNat_inj.mp hc)
  have hbyte {n : Nat} (hn : n % 256 ≠ a.val.toNat) : UInt8.ofNat a.val.toNat ≠ UInt8.ofNat n := by
    intro heq
    have hnat := congrArg UInt8.toNat heq
    rw [UInt8.toNat_ofNat', UInt8.toNat_ofNat', Nat.mod_eq_of_lt (by omega)] at hnat
    exact hn hnat.symm
  simp only [String.utf8EncodeChar]
  split_ifs with h₁ h₂ h₃
  · rw [List.mem_singleton]
    exact hbyte (by omega)
  · simp only [List.mem_cons, List.not_mem_nil, or_false, not_or]
    exact ⟨hbyte (by omega), hbyte (by omega)⟩
  · simp only [List.mem_cons, List.not_mem_nil, or_false, not_or]
    exact ⟨hbyte (by omega), hbyte (by omega), hbyte (by omega)⟩
  · simp only [List.mem_cons, List.not_mem_nil, or_false, not_or]
    exact ⟨hbyte (by omega), hbyte (by omega), hbyte (by omega), hbyte (by omega)⟩

/-- No other character has the byte of the newline. -/
theorem newline_notMem_utf8EncodeChar {c : Char} (h : c ≠ '\n') : newline ∉ String.utf8EncodeChar c :=
  ascii_notMem_utf8EncodeChar (a := '\n') (by decide) h

/-- A text ends with an ASCII character exactly if its bytes end with the byte of that character. -/
theorem getLast?_utf8_eq_some_iff {a : Char} (ha : a.val.toNat < 128) (text : String) :
    (utf8 text).getLast? = some (UInt8.ofNat a.val.toNat) ↔ text.toList.getLast? = some a := by
  rw [← String.ofList_toList (s := text), utf8_ofList, String.ofList_toList]
  rcases List.eq_nil_or_concat text.toList with hnil | ⟨cs, c, hcs⟩
  · simp [hnil]
  · rw [hcs, List.concat_eq_append, List.flatMap_append, List.flatMap_singleton,
      List.getLast?_append_of_ne_nil _ String.utf8EncodeChar_ne_nil, List.getLast?_concat, Option.some.injEq]
    constructor
    · intro hlast
      by_contra hc
      exact ascii_notMem_utf8EncodeChar ha hc (List.mem_of_getLast? hlast)
    · rintro rfl
      rw [utf8EncodeChar_ascii ha]
      rfl

/-- A newline before the end of a text is a newline before the end of its bytes. -/
theorem newline_mem_dropLast_utf8 {text : String} (h : '\n' ∈ text.toList.dropLast) : newline ∈ (utf8 text).dropLast := by
  rw [← String.ofList_toList (s := text), utf8_ofList]
  rcases List.eq_nil_or_concat text.toList with hnil | ⟨cs, c, hcs⟩
  · simp [hnil] at h
  · rw [hcs, List.concat_eq_append, List.dropLast_concat] at h
    rw [hcs, List.concat_eq_append, List.flatMap_append, List.flatMap_singleton,
      List.dropLast_append_of_ne_nil String.utf8EncodeChar_ne_nil]
    exact List.mem_append_left _ (List.mem_flatMap.mpr ⟨'\n', h, by decide⟩)

/-- Bytes before an ASCII character are no text exactly if they are none together with it. -/
theorem ofUtf8?_append_ascii_eq_none_iff {a : Char} (ha : a.val.toNat < 128) (bytes : List UInt8) :
    ofUtf8? (bytes ++ [UInt8.ofNat a.val.toNat]) = none ↔ ofUtf8? bytes = none := by
  rw [← not_iff_not, ← ne_eq, ← ne_eq, Option.ne_none_iff_exists', Option.ne_none_iff_exists']
  constructor
  · rintro ⟨text, htext⟩
    rw [ofUtf8?_eq_some_iff] at htext
    have hlast : text.toList.getLast? = some a := by
      rw [← getLast?_utf8_eq_some_iff ha, ← htext, List.getLast?_concat]
    rw [← String.ofList_toList (s := text), ← List.dropLast_append_getLast? a hlast, utf8_ofList, List.flatMap_append,
      List.flatMap_singleton, utf8EncodeChar_ascii ha, ← utf8_ofList] at htext
    exact ⟨_, (ofUtf8?_eq_some_iff _ _).mpr (List.append_cancel_right htext)⟩
  · rintro ⟨text, htext⟩
    rw [ofUtf8?_eq_some_iff] at htext
    refine ⟨text ++ String.singleton a, (ofUtf8?_eq_some_iff _ _).mpr ?_⟩
    rw [htext, utf8_append, ← String.ofList_toList (s := String.singleton a), utf8_ofList, String.toList_singleton,
      List.flatMap_singleton, utf8EncodeChar_ascii ha]

/-- Bytes before a newline are no text exactly if they are none together with it. -/
theorem ofUtf8?_append_newline_eq_none_iff (bytes : List UInt8) :
    ofUtf8? (bytes ++ [newline]) = none ↔ ofUtf8? bytes = none :=
  ofUtf8?_append_ascii_eq_none_iff (a := '\n') (by decide) bytes

/-! ## Bytes of lines -/

/-- Bytes without a newline before others begin their first line. -/
theorem lines_append_of_notMem {bytes : List UInt8} (hne : bytes ≠ []) (h : newline ∉ bytes) (more : List UInt8) :
    lines (bytes ++ more) = (bytes ++ (lines more).headD []) :: (lines more).tail := by
  induction bytes with
  | nil => exact absurd rfl hne
  | cons byte bytes ih =>
    rw [List.mem_cons, not_or] at h
    rw [List.cons_append, lines, if_neg (Ne.symm h.1)]
    by_cases hbytes : bytes = []
    · subst hbytes
      rw [List.nil_append]
      cases lines more with
      | nil => rfl
      | cons line rest => rfl
    · rw [ih hbytes h.2]
      rfl

/-- The lines of the bytes of characters are the bytes of the lines. -/
theorem lines_flatMap_utf8EncodeChar (cs : List Char) :
    lines (cs.flatMap String.utf8EncodeChar) = (charLines cs).map fun line => line.flatMap String.utf8EncodeChar := by
  induction cs with
  | nil => rfl
  | cons c cs ih =>
    rw [List.flatMap_cons, charLines]
    by_cases hc : c = '\n'
    · rw [if_pos hc, hc, utf8EncodeChar_newline, List.singleton_append, lines, if_pos rfl, ih, List.map_cons,
        List.flatMap_singleton, utf8EncodeChar_newline]
    · rw [if_neg hc, lines_append_of_notMem String.utf8EncodeChar_ne_nil (newline_notMem_utf8EncodeChar hc), ih]
      cases charLines cs with
      | nil => simp
      | cons line rest => simp

/-- The lines of the bytes of a text are the bytes of its lines. -/
theorem lines_utf8 (text : String) : lines (utf8 text) = (textLines text).map utf8 := by
  rw [← String.ofList_toList (s := text), utf8_ofList, lines_flatMap_utf8EncodeChar, String.ofList_toList, textLines,
    List.map_map]
  exact List.map_congr_left fun line _ => (utf8_ofList line).symm

end StreamCharts.Text
