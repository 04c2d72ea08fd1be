import Mathlib.Data.List.DropRight
import StreamCharts.Input.Reading

/-!
# Lines

What the lines of a sequence of bytes are, said without chunks: `lines`, which make up the bytes (`flatten_lines`), and `completed`,
the part of the bytes that is made of ended lines. A reader that keeps the bytes of an unfinished line finds these lines in
whatever chunks the bytes arrive (`completeLines_append`, `lines_completeLines`). Bytes that come behind ended lines are lines of
their own (`lines_append`).
-/

namespace StreamCharts.Text

/-- The lines of bytes: a line ends behind a newline, and what stands behind the last newline is a line unless it is empty. -/
def lines : List UInt8 → List (List UInt8)
  | [] => []
  | byte :: bytes =>
    if byte = newline then [byte] :: lines bytes
    else match lines bytes with
      | [] => [[byte]]
      | line :: rest => (byte :: line) :: rest

/-- The bytes of the ended lines: all up to the last newline. -/
def completed (bytes : List UInt8) : List UInt8 :=
  bytes.rdropWhile (· != newline)

/-- A line with the newline that ends it. -/
def EndedLine (line : List UInt8) : Prop :=
  ∃ body, newline ∉ body ∧ line = body ++ [newline]

/-! ## The lines of bytes -/

/-- An ended line before other bytes is their first line. -/
theorem lines_ended_append {line : List UInt8} (h : EndedLine line) (bytes : List UInt8) :
    lines (line ++ bytes) = line :: lines bytes := by
  obtain ⟨body, hb, rfl⟩ := h
  induction body with
  | nil => simp [lines]
  | cons byte body ih =>
    rw [List.mem_cons, not_or] at hb
    simp only [List.cons_append, lines, if_neg (Ne.symm hb.1)]
    rw [ih hb.2]

/-- Bytes without a newline are one line. -/
theorem lines_open {bytes : List UInt8} (hne : bytes ≠ []) (h : newline ∉ bytes) : lines bytes = [bytes] := by
  induction bytes with
  | nil => exact absurd rfl hne
  | cons byte bytes ih =>
    rw [List.mem_cons, not_or] at h
    rw [lines, if_neg (Ne.symm h.1)]
    by_cases hbytes : bytes = []
    · rw [hbytes, lines]
    · rw [ih hbytes h.2]

/-- Ended lines before other bytes are their first lines. -/
theorem lines_flatten_append {ls : List (List UInt8)} (h : ∀ l ∈ ls, EndedLine l) (bytes : List UInt8) :
    lines (ls.flatten ++ bytes) = ls ++ lines bytes := by
  induction ls with
  | nil => rfl
  | cons line ls ih =>
    obtain ⟨hline, hls⟩ := List.forall_mem_cons.mp h
    rw [List.flatten_cons, List.append_assoc, lines_ended_append hline, ih hls]
    rfl

/-- The lines of bytes make them up. -/
theorem flatten_lines (bytes : List UInt8) : (lines bytes).flatten = bytes := by
  induction bytes with
  | nil => rfl
  | cons byte bytes ih =>
    by_cases hb : byte = newline
    · rw [lines, if_pos hb, List.flatten_cons, ih, hb]
      rfl
    · rw [lines, if_neg hb]
      rcases h : lines bytes with _ | ⟨line, rest⟩
      · rw [h] at ih
        rw [← ih]
        rfl
      · rw [h, List.flatten_cons] at ih
        rw [← ih]
        rfl

/-! ## Ended lines -/

/-- Ended lines are the ended part of what they make up with bytes behind them that hold no newline. -/
theorem completed_flatten_append {ls : List (List UInt8)} (h : ∀ l ∈ ls, EndedLine l) {bytes : List UInt8}
    (hb : newline ∉ bytes) : completed (ls.flatten ++ bytes) = ls.flatten := by
  have hopen : ∀ byte ∈ bytes, (byte != newline) = true := fun byte hbyte => by
    rw [bne_iff_ne]
    exact fun he => hb (he ▸ hbyte)
  rcases List.eq_nil_or_concat ls with rfl | ⟨first, last, rfl⟩
  · simpa [completed] using hopen
  · obtain ⟨body, -, hbody⟩ := h last (by simp)
    rw [completed, List.rdropWhile, List.reverse_append, List.dropWhile_append_of_pos (by simpa using hopen), hbody]
    simp

/-- Each of the ended lines holds one newline. -/
theorem count_newline_flatten {ls : List (List UInt8)} (h : ∀ l ∈ ls, EndedLine l) :
    ls.flatten.count newline = ls.length := by
  induction ls with
  | nil => rfl
  | cons line ls ih =>
    obtain ⟨⟨body, hb, rfl⟩, hls⟩ := List.forall_mem_cons.mp h
    rw [List.flatten_cons, List.count_append, ih hls, List.count_append, List.count_eq_zero_of_not_mem hb]
    simp [Nat.add_comm]

end StreamCharts.Text

namespace StreamCharts

open Text

/-! ## A reader that keeps an unfinished line -/

/-- The line that is left unfinished where the bytes end, if it has begun. -/
def openLine (pending : List UInt8) : List (List UInt8) :=
  if pending.isEmpty then [] else [pending.reverse]

/-- The lines completed by two chunks are those completed by the first, and those that the second completes after it. -/
theorem completeLines_append (pending chunk more : List UInt8) :
    completeLines pending (chunk ++ more) =
      ((completeLines pending chunk).1 ++ (completeLines (completeLines pending chunk).2 more).1,
        (completeLines (completeLines pending chunk).2 more).2) := by
  induction chunk generalizing pending with
  | nil => rfl
  | cons byte chunk ih =>
    by_cases hb : byte = newline
    · simp [completeLines, hb, ih]
    · simp [completeLines, hb, ih]

/-- An unfinished line holds no newline. -/
theorem newline_notMem_completeLines {pending : List UInt8} (hp : newline ∉ pending) (chunk : List UInt8) :
    newline ∉ (completeLines pending chunk).2 := by
  induction chunk generalizing pending with
  | nil => exact hp
  | cons byte chunk ih =>
    by_cases hb : byte = newline
    · simpa [completeLines, hb] using @ih [] (by simp)
    · simp only [completeLines, hb, if_false]
      exact ih (by simp [hp, Ne.symm hb])

/-- Completed lines are ended lines. -/
theorem endedLine_of_mem_completeLines {pending : List UInt8} (hp : newline ∉ pending) (chunk : List UInt8) :
    ∀ l ∈ (completeLines pending chunk).1, EndedLine l := by
  induction chunk generalizing pending with
  | nil => simp [completeLines]
  | cons byte chunk ih =>
    by_cases hb : byte = newline
    · simp only [completeLines, hb, if_true, List.reverse_cons]
      exact List.forall_mem_cons.mpr ⟨⟨pending.reverse, by simpa using hp, rfl⟩, ih (by simp)⟩
    · simp only [completeLines, hb, if_false]
      exact ih (by simp [hp, Ne.symm hb])

/-- No byte is lost: a chunk after an unfinished line is the completed lines and the line that is left. -/
theorem completeLines_joined (pending chunk : List UInt8) :
    (completeLines pending chunk).1.flatten ++ (completeLines pending chunk).2.reverse = pending.reverse ++ chunk := by
  induction chunk generalizing pending with
  | nil => simp [completeLines]
  | cons byte chunk ih =>
    by_cases hb : byte = newline
    · simpa [completeLines, hb] using ih []
    · simpa [completeLines, hb] using ih (byte :: pending)

/-- Bytes are cut into ended lines and an open one without a newline. -/
theorem completeLines_split (bytes : List UInt8) :
    (∀ l ∈ (completeLines [] bytes).1, EndedLine l) ∧ newline ∉ (completeLines [] bytes).2.reverse ∧
      (completeLines [] bytes).1.flatten ++ (completeLines [] bytes).2.reverse = bytes := by
  refine ⟨endedLine_of_mem_completeLines (by simp) bytes, ?_, ?_⟩
  · rw [List.mem_reverse]
    exact newline_notMem_completeLines (by simp) bytes
  · simpa using completeLines_joined [] bytes

/-- The lines of bytes are those that a reader completes, and the one that is left open. -/
theorem lines_completeLines (bytes : List UInt8) :
    lines bytes = (completeLines [] bytes).1 ++ openLine (completeLines [] bytes).2 := by
  obtain ⟨hended, hopen, hjoined⟩ := completeLines_split bytes
  rw [← hjoined, lines_flatten_append hended, hjoined]
  rcases h : (completeLines [] bytes).2 with _ | ⟨byte, rest⟩
  · rfl
  · rw [h] at hopen
    rw [lines_open (by simp) hopen]
    rfl

/-- The bytes of the ended lines are those of the lines that a reader completes. -/
theorem completed_eq_flatten (bytes : List UInt8) : completed bytes = (completeLines [] bytes).1.flatten := by
  obtain ⟨hended, hopen, hjoined⟩ := completeLines_split bytes
  have h := completed_flatten_append hended hopen
  rwa [hjoined] at h

/-- The lines of the ended part are the lines that a reader completes. -/
theorem lines_completed (bytes : List UInt8) : lines (completed bytes) = (completeLines [] bytes).1 := by
  have h := lines_flatten_append (completeLines_split bytes).1 []
  rw [completed_eq_flatten]
  simpa [lines] using h

/-- There are as many ended lines as newlines. -/
theorem length_lines_completed (bytes : List UInt8) : (lines (completed bytes)).length = bytes.count newline := by
  obtain ⟨hended, hopen, hjoined⟩ := completeLines_split bytes
  rw [lines_completed]
  calc (completeLines [] bytes).1.length
      = (completeLines [] bytes).1.flatten.count newline := (count_newline_flatten hended).symm
    _ = ((completeLines [] bytes).1.flatten ++ (completeLines [] bytes).2.reverse).count newline := by
      rw [List.count_append, List.count_eq_zero_of_not_mem hopen, Nat.add_zero]
    _ = bytes.count newline := by rw [hjoined]

/-- All bytes are made of ended lines if there are none, or if a newline ends them. -/
theorem completed_of_ended {bytes : List UInt8} (h : bytes = [] ∨ bytes.getLast? = some newline) : completed bytes = bytes := by
  refine List.rdropWhile_eq_self_iff.mpr fun hne => ?_
  rcases h with hnil | hlast
  · exact absurd hnil hne
  · rw [List.getLast?_eq_some_getLast hne, Option.some.injEq] at hlast
    simp [hlast]

/-- Bytes that follow ended lines add their lines to them. -/
theorem lines_append {bytes : List UInt8} (h : bytes = [] ∨ bytes.getLast? = some newline) (more : List UInt8) :
    lines (bytes ++ more) = lines bytes ++ lines more := by
  have hended := (completeLines_split bytes).1
  have hself := completed_of_ended h
  calc lines (bytes ++ more) = lines ((completeLines [] bytes).1.flatten ++ more) := by rw [← completed_eq_flatten, hself]
    _ = (completeLines [] bytes).1 ++ lines more := lines_flatten_append hended more
    _ = lines bytes ++ lines more := by rw [← lines_completed, hself]

end StreamCharts
