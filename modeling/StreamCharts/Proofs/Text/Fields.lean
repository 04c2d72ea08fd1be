import StreamCharts.Text.Blank

/-!
# Fields as maximal runs

`Runs cs rs` says without a scan that `rs` are the maximal runs of non-blank characters of `cs`, from left to right. `fields`
finds exactly these (`fields_iff`), so whatever is said of the fields of a line can be said of its layout.
-/

namespace StreamCharts.Text

/-- The maximal runs of non-blank characters of a text, from left to right: before each run stand blanks only, and what follows
it is nothing or begins with a blank. -/
inductive Runs : List Char → List (List Char) → Prop where
  | blanks {cs : List Char} (h : ∀ c ∈ cs, isBlank c = true) : Runs cs []
  | run {gap run rest : List Char} {rs : List (List Char)} (hg : ∀ c ∈ gap, isBlank c = true) (hne : run ≠ [])
      (hr : ∀ c ∈ run, isBlank c = false) (hend : ∀ c ∈ rest.head?, isBlank c = true) (h : Runs rest rs) :
      Runs (gap ++ run ++ rest) (run :: rs)

/-- The fields of a line, said of its layout. -/
def Fields (line : String) (fs : List String) : Prop :=
  Runs line.toList (fs.map String.toList)

/-- A blank before a text changes none of its runs. -/
theorem Runs.cons_blank {c : Char} {cs : List Char} {rs : List (List Char)} (hc : isBlank c = true) (h : Runs cs rs) :
    Runs (c :: cs) rs := by
  cases h with
  | blanks h => exact Runs.blanks (List.forall_mem_cons.mpr ⟨hc, h⟩)
  | @run gap run rest rs hg hne hr hend h =>
    exact @Runs.run (c :: gap) run rest rs (List.forall_mem_cons.mpr ⟨hc, hg⟩) hne hr hend h

/-! ## The scan finds the runs -/

/-- The scan of blanks before a text: the runs it found are the later ones. -/
theorem scanRuns_blanks (gap cs : List Char) (hg : ∀ c ∈ gap, isBlank c = true) (hne : gap ≠ []) :
    scanRuns (gap ++ cs) = ([], runs cs) := by
  induction gap with
  | nil => exact absurd rfl hne
  | cons c gap ih =>
    obtain ⟨hc, hg⟩ := List.forall_mem_cons.mp hg
    by_cases hgap : gap = []
    · subst hgap
      simp [scanRuns, hc, runs]
    · rw [List.cons_append, scanRuns, ih hg hgap]
      simp [hc, consRun]

/-- The scan of a run that ends before a blank or with the text. -/
theorem scanRuns_run (run rest : List Char) (hr : ∀ c ∈ run, isBlank c = false)
    (hend : ∀ c ∈ rest.head?, isBlank c = true) : scanRuns (run ++ rest) = (run, runs rest) := by
  induction run with
  | nil =>
    cases rest with
    | nil => rfl
    | cons c rest =>
      have hc : isBlank c = true := hend c rfl
      simp [scanRuns, runs, hc, consRun]
  | cons c run ih =>
    obtain ⟨hc, hr⟩ := List.forall_mem_cons.mp hr
    rw [List.cons_append, scanRuns, ih hr]
    simp [hc]

/-- A gap of blanks before a text changes none of the runs that are found. -/
theorem runs_append_blanks (gap cs : List Char) (hg : ∀ c ∈ gap, isBlank c = true) : runs (gap ++ cs) = runs cs := by
  by_cases hne : gap = []
  · rw [hne, List.nil_append]
  · rw [runs, scanRuns_blanks gap cs hg hne]
    rfl

/-- The runs of a text are found. -/
theorem Runs.eq_runs {cs : List Char} {rs : List (List Char)} (h : Runs cs rs) : runs cs = rs := by
  induction h with
  | @blanks cs h =>
    rw [← List.append_nil cs, runs_append_blanks cs [] h]
    rfl
  | @run gap run rest rs hg hne hr hend _ ih =>
    rw [List.append_assoc, runs_append_blanks gap _ hg, runs, scanRuns_run run rest hr hend, ih]
    simp [consRun, hne]

/-- A run that may be empty, put before what follows it. -/
theorem Runs.consRun {run rest : List Char} {rs : List (List Char)} (hr : ∀ c ∈ run, isBlank c = false)
    (hend : ∀ c ∈ rest.head?, isBlank c = true) (h : Runs rest rs) : Runs (run ++ rest) (consRun run rs) := by
  by_cases hne : run = []
  · simpa [Text.consRun, hne] using h
  · simpa [Text.consRun, hne] using @Runs.run [] run rest rs (by simp) hne hr hend h

/-- What the scan finds: the run at the beginning, and the runs of what follows it. -/
theorem scanRuns_sound (cs : List Char) : ∃ rest, cs = (scanRuns cs).1 ++ rest ∧ (∀ c ∈ (scanRuns cs).1, isBlank c = false) ∧
    (∀ c ∈ rest.head?, isBlank c = true) ∧ Runs rest (scanRuns cs).2 := by
  induction cs with
  | nil => exact ⟨[], rfl, by simp [scanRuns], by simp, Runs.blanks (by simp)⟩
  | cons c cs ih =>
    obtain ⟨rest, hcs, hrun, hend, hrest⟩ := ih
    cases hc : isBlank c with
    | false =>
      refine ⟨rest, ?_, ?_, hend, ?_⟩
      · simpa [scanRuns, hc] using hcs
      · simpa [scanRuns, hc] using hrun
      · simpa [scanRuns, hc] using hrest
    | true =>
      -- the run found behind the blank is complete, so it joins the later ones
      have h := Runs.cons_blank hc (Runs.consRun hrun hend hrest)
      rw [← hcs] at h
      exact ⟨c :: cs, by simp [scanRuns, hc], by simp [scanRuns, hc], by simp [hc], by simpa [scanRuns, hc] using h⟩

/-- What is found are the runs of a text. -/
theorem runs_sound (cs : List Char) : Runs cs (runs cs) := by
  obtain ⟨rest, hcs, hrun, hend, hrest⟩ := scanRuns_sound cs
  have h := Runs.consRun hrun hend hrest
  rwa [← hcs] at h

/-- The runs of a text are exactly those that are found. -/
theorem runs_iff (cs : List Char) (rs : List (List Char)) : Runs cs rs ↔ runs cs = rs :=
  ⟨Runs.eq_runs, fun h => h ▸ runs_sound cs⟩

/-- The fields of a line are exactly those that are found. -/
theorem fields_iff (line : String) (fs : List String) : Fields line fs ↔ fields line = fs := by
  rw [Fields, runs_iff, fields]
  constructor
  · intro h
    rw [h, List.map_map]
    simp [Function.comp_def]
  · rintro rfl
    rw [List.map_map]
    simp [Function.comp_def]

end StreamCharts.Text
