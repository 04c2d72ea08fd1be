import StreamCharts.Proofs.Text.Fields
import StreamCharts.Proofs.Text.Lines

/-!
# Rows as they are written

`WrittenRow` is a row with all that its writer may choose: the blanks in front of it, and behind each field. However it is laid out,
its fields are those that were written (`WrittenRow.fields_text`), and the newline behind it changes nothing about that
(`WrittenRow.exists_fields`). Rows that are written one below the other are the lines of their bytes (`lines_written_append`).
-/

namespace StreamCharts.Text

/-- A gap within a line: blanks other than the newline, or nothing. -/
def IsGap (gap : String) : Prop :=
  ∀ c ∈ gap.toList, isBlank c = true ∧ c ≠ '\n'

/-- A field that can be told apart by blanks around it: it is not empty and holds none. -/
def IsField (field : String) : Prop :=
  field ≠ "" ∧ ∀ c ∈ field.toList, isBlank c = false

instance (gap : String) : Decidable (IsGap gap) :=
  List.decidableBAll (fun c => isBlank c = true ∧ c ≠ '\n') gap.toList

instance (field : String) : Decidable (IsField field) :=
  have := List.decidableBAll (fun c => isBlank c = false) field.toList
  inferInstanceAs (Decidable (field ≠ "" ∧ ∀ c ∈ field.toList, isBlank c = false))

/-- A row as it is written: a gap in front, and fields, each with the gap behind it. Only the gap in front and the one behind the
last field may be empty. -/
structure WrittenRow where
  margin : String
  cells : List (String × String)
  isGap_margin : IsGap margin
  isField_fst : ∀ cell ∈ cells, IsField cell.1
  isGap_snd : ∀ cell ∈ cells, IsGap cell.2
  snd_ne : ∀ cell ∈ cells.dropLast, cell.2 ≠ ""

/-- The text of fields, each with the gap behind it. -/
def cellsText (cells : List (String × String)) : String :=
  String.join (cells.map fun cell => cell.1 ++ cell.2)

/-- Lines of text one below the other, each with a newline behind it. -/
def written (texts : List String) : List UInt8 :=
  utf8 (String.join (texts.map (· ++ "\n")))

namespace WrittenRow

/-- The text of a row. -/
def text (row : WrittenRow) : String :=
  row.margin ++ cellsText row.cells

/-- The fields that were written in a row. -/
def fields (row : WrittenRow) : List String :=
  row.cells.map Prod.fst

end WrittenRow

/-! ## Fields of rows -/

/-- Blanks in front of a text change none of its runs. -/
theorem Runs.blanks_append {gap cs : List Char} {rs : List (List Char)} (hg : ∀ c ∈ gap, isBlank c = true) (h : Runs cs rs) :
    Runs (gap ++ cs) rs := by
  rw [runs_iff, runs_append_blanks gap cs hg, h.eq_runs]

/-- Blanks behind a text change none of its runs. -/
theorem Runs.append_blanks {gap cs : List Char} {rs : List (List Char)} (hg : ∀ c ∈ gap, isBlank c = true) (h : Runs cs rs) :
    Runs (cs ++ gap) rs := by
  induction h with
  | blanks hcs => exact .blanks fun c hc => (List.mem_append.mp hc).elim (hcs c) (hg c)
  | @run margin run rest rs hmargin hne hr hend _ ih =>
    rw [List.append_assoc]
    refine .run hmargin hne hr (fun c hc => ?_) ih
    cases rest with
    | nil => exact hg c (List.mem_of_mem_head? hc)
    | cons d rest => exact hend c hc

/-- Fields with gaps behind them, of which only the last may be empty, are the runs of their text. -/
theorem runs_cellsText {cells : List (String × String)} (hfields : ∀ cell ∈ cells, IsField cell.1)
    (hgaps : ∀ cell ∈ cells, IsGap cell.2) (hapart : ∀ cell ∈ cells.dropLast, cell.2 ≠ "") :
    Runs (cellsText cells).toList (cells.map fun cell => cell.1.toList) := by
  induction cells with
  | nil => exact .blanks (by simp [cellsText])
  | cons cell cells ih =>
    obtain ⟨⟨hne, hfield⟩, hfields⟩ := List.forall_mem_cons.mp hfields
    obtain ⟨hgap, hgaps⟩ := List.forall_mem_cons.mp hgaps
    have htext : (cellsText (cell :: cells)).toList =
        [] ++ cell.1.toList ++ (cell.2.toList ++ (cellsText cells).toList) := by
      simp [cellsText]
    obtain ⟨hlast, hapart⟩ : (cells = [] ∨ cell.2 ≠ "") ∧ ∀ cell ∈ cells.dropLast, cell.2 ≠ "" := by
      rcases cells with _ | ⟨next, cells⟩
      · exact ⟨Or.inl rfl, by simp⟩
      · rw [List.dropLast_cons_of_ne_nil (by simp), List.forall_mem_cons] at hapart
        exact ⟨Or.inr hapart.1, hapart.2⟩
    rw [htext, List.map_cons]
    refine .run (by simp) (by simpa using hne) hfield (fun c hc => ?_) ?_
    · -- what follows the field is its gap, or nothing
      cases hsnd : cell.2.toList with
      | nil =>
        rcases hlast with rfl | hne
        · simp [hsnd, cellsText] at hc
        · exact absurd (String.toList_eq_nil_iff.mp hsnd) hne
      | cons d ds =>
        obtain rfl : d = c := by simpa [hsnd] using hc
        exact (hgap d (by simp [hsnd])).1
    · exact Runs.blanks_append (fun c hc => (hgap c hc).1) (ih hfields hgaps hapart)

namespace WrittenRow

variable (row : WrittenRow)

/-- The fields of a written row are those that were written. -/
theorem fields_text : Fields row.text row.fields := by
  have h := Runs.blanks_append (fun c hc => (row.isGap_margin c hc).1)
    (runs_cellsText row.isField_fst row.isGap_snd row.snd_ne)
  simpa [Fields, text, fields, Function.comp_def] using h

/-- A written row holds no newline. -/
theorem newline_notMem_text : '\n' ∉ row.text.toList := by
  intro hmem
  rw [text, String.toList_append, List.mem_append, cellsText, String.toList_join] at hmem
  rcases hmem with hmem | hmem
  · exact (row.isGap_margin _ hmem).2 rfl
  · obtain ⟨_, htext, hmem⟩ := List.mem_flatMap.mp hmem
    obtain ⟨cell, hcell, rfl⟩ := List.mem_map.mp htext
    rw [String.toList_append, List.mem_append] at hmem
    rcases hmem with hmem | hmem
    · exact absurd ((row.isField_fst cell hcell).2 _ hmem) (by decide)
    · exact (row.isGap_snd cell hcell _ hmem).2 rfl

/-- A row with fields has bytes. -/
theorem utf8_text_ne (h : row.fields ≠ []) : utf8 row.text ≠ [] := by
  intro hempty
  have htext : row.text = "" := Option.some.inj ((ofUtf8?_utf8 _).symm.trans ((congrArg ofUtf8? hempty).trans (ofUtf8?_utf8 "")))
  have hruns := row.fields_text
  rw [Fields, htext] at hruns
  exact h (List.map_eq_nil_iff.mp hruns.eq_runs.symm)

/-- The line of a row, with its newline or without it: it is text, and has the fields of the row. -/
theorem exists_fields {line : List UInt8} (h : line = utf8 row.text ∨ line = utf8 row.text ++ [newline]) :
    ∃ text, ofUtf8? line = some text ∧ Fields text row.fields := by
  rcases h with rfl | rfl
  · exact ⟨row.text, ofUtf8?_utf8 _, row.fields_text⟩
  · refine ⟨row.text ++ "\n", ?_, ?_⟩
    · rw [ofUtf8?_eq_some_iff, utf8_append]
      rfl
    · rw [Fields, String.toList_append]
      exact Runs.append_blanks (List.forall_mem_singleton.mpr (by decide)) row.fields_text

end WrittenRow

/-! ## Lines of written texts -/

/-- A text without the newline has no newline byte. -/
theorem newline_notMem_utf8 {text : String} (h : '\n' ∉ text.toList) : newline ∉ utf8 text := by
  rw [← String.ofList_toList (s := text), utf8_ofList, List.mem_flatMap]
  rintro ⟨c, hc, hmem⟩
  exact newline_notMem_utf8EncodeChar (fun heq => h (heq ▸ hc)) hmem

/-- The bytes of written texts are those of the texts, each with a newline. -/
theorem written_eq_flatten (texts : List String) : written texts = (texts.map fun text => utf8 text ++ [newline]).flatten := by
  induction texts with
  | nil => rfl
  | cons text texts ih =>
    rw [List.map_cons, List.flatten_cons, ← ih, written, List.map_cons, String.join_cons, utf8_append, utf8_append]
    rfl

/-- Written texts in front of other bytes are its first lines. -/
theorem lines_written_append {texts : List String} (h : ∀ text ∈ texts, '\n' ∉ text.toList) (more : List UInt8) :
    lines (written texts ++ more) = (texts.map fun text => utf8 text ++ [newline]) ++ lines more := by
  rw [written_eq_flatten]
  refine lines_flatten_append (fun line hline => ?_) more
  obtain ⟨text, htext, rfl⟩ := List.mem_map.mp hline
  exact ⟨utf8 text, newline_notMem_utf8 (h text htext), rfl⟩

end StreamCharts.Text
