import Mathlib.Order.Basic
import Mathlib.Order.Nat
import StreamCharts.Text.Category

/-!
# Looking categories up

The runs that are read from a table are in ascending order whatever the table writes, since no run is empty. So the search by halving
finds the last run that begins at or before a code point. Main statement: `Text.Category.lastRun_ofCodePoint`.
-/

namespace StreamCharts.Text.Category

/-! ## Runs in order -/

/-- The runs begin one behind the other, and all before the end of the last. -/
structure Runs.Ordered (runs : Runs) : Prop where
  ascending : runs.starts.toList.Pairwise fun run later => run.1 < later.1
  next : ∀ run ∈ runs.starts.toList, run.1 < runs.next

namespace Runs.Ordered

variable {runs : Runs}

/-- A run that is not empty goes behind the others. -/
theorem add (h : runs.Ordered) {length : Nat} (hlength : 0 < length) (category : Category) : (runs.add length category).Ordered := by
  refine ⟨?_, ?_⟩
  · rw [Runs.add, Array.toList_push, List.pairwise_append]
    refine ⟨h.ascending, List.pairwise_singleton _ _, fun run hrun last hlast => ?_⟩
    obtain rfl := List.mem_singleton.mp hlast
    exact h.next run hrun
  · intro run hrun
    rw [Runs.add, Array.toList_push] at hrun
    obtain hrun | hrun := List.mem_append.mp hrun
    · exact (h.next run hrun).trans_le (Nat.le_add_right _ _)
    · obtain rfl := List.mem_singleton.mp hrun
      exact Nat.lt_add_of_pos_right hlength

/-- Pairs of letters go behind the others. -/
theorem addPairs (h : runs.Ordered) (count : Nat) : (runs.addPairs count).Ordered := by
  induction count generalizing runs with
  | zero => exact h
  | succ count ih => exact ih ((h.add Nat.one_pos _).add Nat.one_pos _)

/-- Runs that are read go behind the others. -/
theorem read (h : runs.Ordered) (digits : Nat) (cs : List Char) : (runs.read digits cs).Ordered := by
  induction cs generalizing runs digits with
  | nil => exact h
  | cons c cs ih =>
    have hlength : 0 < if digits = 0 then 1 else digits := by
      split
      · exact Nat.one_pos
      · exact Nat.pos_of_ne_zero ‹_›
    rw [Runs.read]
    split
    · exact ih h _
    · split
      · exact ih (h.addPairs _) 0
      · split
        · exact ih (h.add hlength _) 0
        · exact ih h 0

end Runs.Ordered

/-! ## Runs that stay -/

/-- A run that is added leaves those before it as they are. -/
theorem Runs.starts_add (runs : Runs) (length : Nat) (category : Category) :
    runs.starts.toList <+: (runs.add length category).starts.toList := by
  rw [Runs.add, Array.toList_push]
  exact List.prefix_append _ _

/-- Pairs of letters that are added do so too. -/
theorem Runs.starts_addPairs (runs : Runs) (count : Nat) : runs.starts.toList <+: (runs.addPairs count).starts.toList := by
  induction count generalizing runs with
  | zero => exact List.prefix_refl _
  | succ count ih => exact ((runs.starts_add _ _).trans (Runs.starts_add _ _ _)).trans (ih _)

/-- Reading leaves the runs before it as they are. -/
theorem Runs.starts_read (runs : Runs) (digits : Nat) (cs : List Char) :
    runs.starts.toList <+: (runs.read digits cs).starts.toList := by
  induction cs generalizing runs digits with
  | nil => exact List.prefix_refl _
  | cons c cs ih =>
    rw [Runs.read]
    split
    · exact ih runs _
    · split
      · exact (runs.starts_addPairs _).trans (ih _ 0)
      · split
        · exact (runs.starts_add _ _).trans (ih _ 0)
        · exact ih runs 0

/-! ## The search -/

/-- A category is that of the last run that begins at or before a code point. -/
def LastRun (starts : Array (Nat × Category)) (n : Nat) (category : Category) : Prop :=
  ∃ (k : Nat) (run : Nat × Category), starts[k]? = some run ∧ run.1 ≤ n ∧
    (∀ (l : Nat) (later : Nat × Category), k < l → starts[l]? = some later → n < later.1) ∧ category = run.2

/-- The last run that begins at or before a code point is one from `low` up to but not including `high`. -/
structure Between (starts : Array (Nat × Category)) (n low high : Nat) : Prop where
  lt : low < high
  le_size : high ≤ starts.size
  low : ∀ run, starts[low]? = some run → run.1 ≤ n
  high : ∀ l later, high ≤ l → starts[l]? = some later → n < later.1

section Search

variable {starts : Array (Nat × Category)} {n low high : Nat}

/-- Later runs begin later. -/
theorem lt_of_ascending (h : starts.toList.Pairwise fun run later => run.1 < later.1) {k l : Nat} {run later : Nat × Category}
    (hkl : k < l) (hk : starts[k]? = some run) (hl : starts[l]? = some later) : run.1 < later.1 := by
  obtain ⟨hklt, rfl⟩ := Array.getElem?_eq_some_iff.mp hk
  obtain ⟨hllt, rfl⟩ := Array.getElem?_eq_some_iff.mp hl
  exact List.pairwise_iff_getElem.mp h k l hklt hllt hkl

/-- If but one run is left it is the last. -/
theorem Between.lastRun (h : Between starts n low high) (hone : high ≤ low + 1) :
    LastRun starts n (starts.getD low (0, .unassigned)).2 := by
  have hlow : low < starts.size := h.lt.trans_le h.le_size
  have hget : starts[low]? = some starts[low] := Array.getElem?_eq_getElem hlow
  refine ⟨low, starts[low], hget, h.low _ hget, fun l later hl => h.high l later (hone.trans hl), ?_⟩
  rw [Array.getD_eq_getD_getElem?, hget, Option.getD_some]

/-- A step of the search keeps the half in which the run is. -/
theorem Between.half (hordered : starts.toList.Pairwise fun run later => run.1 < later.1) (h : Between starts n low high)
    (middle : Nat) (hlow : low < middle) (hhigh : middle < high) :
    if (starts.getD middle (0, .unassigned)).1 ≤ n then Between starts n middle high else Between starts n low middle := by
  have hmiddle : middle < starts.size := hhigh.trans_le h.le_size
  have hget : starts[middle]? = some starts[middle] := Array.getElem?_eq_getElem hmiddle
  rw [Array.getD_eq_getD_getElem?, hget, Option.getD_some]
  split
  · rename_i hle
    refine ⟨hhigh, h.le_size, fun run hrun => ?_, h.high⟩
    rw [hget] at hrun
    cases hrun
    exact hle
  · rename_i hlt
    refine ⟨hlow, hmiddle.le, h.low, fun l later hl hlater => ?_⟩
    obtain rfl | hl := hl.eq_or_lt
    · rw [hget] at hlater
      cases hlater
      exact Nat.lt_of_not_le hlt
    · exact (Nat.lt_of_not_le hlt).trans (lt_of_ascending hordered hl hget hlater)

/-- The search by halving finds the last run, with no more steps than there are runs. -/
theorem lastRun_find (hordered : starts.toList.Pairwise fun run later => run.1 < later.1) {steps : Nat}
    (h : Between starts n low high) (hsteps : high ≤ low + steps + 1) : LastRun starts n (Runs.find starts n steps low high) := by
  induction steps generalizing low high with
  | zero => exact h.lastRun hsteps
  | succ steps ih =>
    rw [Runs.find]
    split
    · exact h.lastRun ‹_›
    · have hhalf := h.half hordered ((low + high) / 2) (by omega) (by omega)
      split
      · rename_i hle
        rw [if_pos hle] at hhalf
        exact ih hhalf (by omega)
      · rename_i hlt
        rw [if_neg hlt] at hhalf
        exact ih hhalf (by omega)

/-- Among runs in order of which the first begins at 0 the search over all of them finds the last run. -/
theorem lastRun_find_all (hordered : starts.toList.Pairwise fun run later => run.1 < later.1) {category : Category}
    (hfirst : starts[0]? = some (0, category)) (n : Nat) : LastRun starts n (Runs.find starts n starts.size 0 starts.size) := by
  obtain ⟨hsize, -⟩ := Array.getElem?_eq_some_iff.mp hfirst
  refine lastRun_find hordered ⟨hsize, le_refl _, ?_, ?_⟩ (by omega)
  · intro run hrun
    rw [hfirst] at hrun
    cases hrun
    exact Nat.zero_le n
  · intro l later hl hlater
    obtain ⟨hlt, -⟩ := Array.getElem?_eq_some_iff.mp hlater
    omega

end Search

/-! ## The table -/

/-- The runs that a text writes are in order. -/
theorem ascending_written (text : List Char) : (Runs.written text).toList.Pairwise fun run later => run.1 < later.1 := by
  have hempty : Runs.Ordered ⟨#[], 0⟩ := ⟨List.Pairwise.nil, fun run hrun => absurd hrun List.not_mem_nil⟩
  exact (hempty.read 0 text).ascending

/-- A text that begins with 32 control characters writes a first run that begins at 0. -/
theorem first_written (rest : List Char) : (Runs.written ('3' :: '2' :: 'Z' :: rest))[0]? = some (0, .control) := by
  have hread : Runs.written ('3' :: '2' :: 'Z' :: rest) = (Runs.read ⟨#[(0, .control)], 32⟩ 0 rest).starts := rfl
  obtain ⟨later, hlater⟩ := Runs.starts_read ⟨#[(0, .control)], 32⟩ 0 rest
  rw [hread, ← Array.getElem?_toList, ← hlater]
  rfl

/-- The table begins with 32 control characters. -/
theorem exists_table_eq : ∃ line lines, table = line :: lines ∧ ['3', '2', 'Z'] <+: line.toList :=
  ⟨_, _, rfl, by decide +kernel⟩

/-- The category of a code point is that of the last run of the table that begins at or before it. -/
theorem lastRun_ofCodePoint (n : Nat) : LastRun runs n (ofCodePoint n) := by
  have hfirst : runs[0]? = some (0, .control) := by
    obtain ⟨line, lines, htable, rest, hrest⟩ := exists_table_eq
    rw [runs, htable, String.join_cons, String.toList_append, ← hrest]
    exact first_written _
  exact lastRun_find_all (ascending_written _) hfirst n

end StreamCharts.Text.Category
