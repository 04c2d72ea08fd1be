import StreamCharts.Proofs.Input.Delivered

/-!
# What each request takes

A request for a line takes bytes from the input, whether it gives a line or fails. `Script.takes` are the requests of a script
with the bytes they take, and their outcomes are those of the readings (`outcomes_takes`). Every take but the last before the end
takes one whole line, or, where a read fails, a part of a line (`takesAfter_firm`), so newlines are counted by takes
(`count_newline_takes`).
-/

namespace StreamCharts

open Text

/-- One request for a line: the bytes it takes from the input, and its outcome. -/
structure Take where
  bytes : List UInt8
  outcome : Outcome
deriving DecidableEq

namespace Take

/-- A line that is taken. -/
def ofLine (line : List UInt8) : Take := ⟨line, Outcome.ofBytes line⟩

/-- The request that finds the end. -/
def atEnd : Take := ⟨[], .finished⟩

/-- Whether a take is a line with its newline that was not given, because it is no text. -/
def isRefused (take : Take) : Bool :=
  !take.outcome.isLine && decide (newline ∈ take.bytes)

/-- A take that is an ended line, or a part of a line that was not given. -/
def Firm (take : Take) : Prop :=
  EndedLine take.bytes ∨ newline ∉ take.bytes ∧ take.outcome.isLine = false

end Take

/-- The takes of a script, after the bytes (last first) of an unfinished line. -/
def takesAfter (pending : List UInt8) : Script → List Take
  | [] => (openLine pending).map Take.ofLine ++ [Take.atEnd]
  | .interruption :: script => takesAfter pending script
  | .failure fault :: script => ⟨pending.reverse, .failed fault⟩ :: takesAfter [] script
  | .change _ :: script => takesAfter pending script
  | .bytes chunk :: script =>
    (completeLines pending chunk).1.map Take.ofLine ++ takesAfter (completeLines pending chunk).2 script

/-- What the requests for a line take, one after another, up to the end. -/
def Script.takes (script : Script) : List Take :=
  takesAfter [] script

/-! ## Takes and readings -/

/-- The outcomes of taken lines. -/
theorem map_outcome_ofLine (ls : List (List UInt8)) : (ls.map Take.ofLine).map (·.outcome) = ls.map Outcome.ofBytes := by
  rw [List.map_map]
  rfl

/-- Takes and readings after an unfinished line have the same outcomes. -/
theorem outcomes_takesAfter (script : Script) (pending : List UInt8) (changes : List Edit) :
    (takesAfter pending script).map (·.outcome) = outcomes (readingsAfter pending changes script) := by
  induction script generalizing pending changes with
  | nil => rw [takesAfter, List.map_append, map_outcome_ofLine, outcomes_readingsAfter_nil]; rfl
  | cons delivery script ih =>
    cases delivery with
    | bytes chunk =>
      obtain ⟨later, hb⟩ := outcomes_readingsAfter_bytes pending changes chunk script
      rw [takesAfter, List.map_append, map_outcome_ofLine, ih _ later, hb]
    | interruption => exact ih pending changes
    | failure fault => exact congrArg (Outcome.failed fault :: ·) (ih [] [])
    | change edits => exact ih pending (changes ++ edits)

/-- The outcomes of the takes are those of the readings. -/
theorem outcomes_takes (script : Script) : script.takes.map (·.outcome) = outcomes script.readings :=
  outcomes_takesAfter script [] []

/-- A taken line that is given is the text of its bytes. -/
theorem Take.ofUtf8?_of_ofLine {line : List UInt8} {text : String} (h : (ofLine line).outcome = .line text) :
    ofUtf8? (ofLine line).bytes = some text := by
  rw [ofLine, Outcome.ofBytes] at h
  rw [ofLine]
  split at h
  · next found hfound => rw [hfound, Outcome.line.inj h]
  · cases h

/-- After an unfinished line too, what a request gives is the text of the bytes it takes. -/
theorem ofUtf8?_of_mem_takesAfter (script : Script) (pending : List UInt8) :
    ∀ take ∈ takesAfter pending script, ∀ text, take.outcome = .line text → ofUtf8? take.bytes = some text := by
  have hlines (ls : List (List UInt8)) :
      ∀ take ∈ ls.map Take.ofLine, ∀ text, take.outcome = .line text → ofUtf8? take.bytes = some text := by
    intro take htake text ht
    obtain ⟨line, -, rfl⟩ := List.mem_map.mp htake
    exact Take.ofUtf8?_of_ofLine ht
  induction script generalizing pending with
  | nil =>
    rw [takesAfter]
    refine List.forall_mem_append.mpr ⟨hlines _, ?_⟩
    simp [Take.atEnd]
  | cons delivery script ih =>
    cases delivery with
    | bytes chunk =>
      rw [takesAfter]
      exact List.forall_mem_append.mpr ⟨hlines _, ih _⟩
    | interruption => exact ih pending
    | failure fault =>
      rw [takesAfter]
      exact List.forall_mem_cons.mpr ⟨nofun, ih []⟩
    | change edits => exact ih pending

/-! ## Takes and newlines -/

/-- Ended lines are taken firmly. -/
theorem firm_of_mem_map_ofLine {ls : List (List UInt8)} (h : ∀ l ∈ ls, EndedLine l) :
    ∀ take ∈ ls.map Take.ofLine, take.Firm := by
  intro take htake
  obtain ⟨line, hline, rfl⟩ := List.mem_map.mp htake
  exact .inl (h line hline)

/-- All takes are firm but the end, and at most one before it. -/
theorem takesAfter_firm (script : Script) {pending : List UInt8} (hp : newline ∉ pending) :
    ∃ firm last, takesAfter pending script = firm ++ last ++ [Take.atEnd] ∧ (∀ take ∈ firm, take.Firm) ∧ last.length ≤ 1 := by
  induction script generalizing pending with
  | nil =>
    refine ⟨[], (openLine pending).map Take.ofLine, rfl, by simp, ?_⟩
    rw [List.length_map, openLine]
    split <;> simp
  | cons delivery script ih =>
    cases delivery with
    | bytes chunk =>
      obtain ⟨firm, last, htakes, hfirm, hlast⟩ := ih (newline_notMem_completeLines hp chunk)
      refine ⟨(completeLines pending chunk).1.map Take.ofLine ++ firm, last, ?_, ?_, hlast⟩
      · rw [takesAfter, htakes]
        simp only [List.append_assoc]
      · intro take htake
        rcases List.mem_append.mp htake with htake | htake
        · exact firm_of_mem_map_ofLine (endedLine_of_mem_completeLines hp chunk) take htake
        · exact hfirm take htake
    | interruption => exact ih hp
    | failure fault =>
      obtain ⟨firm, last, htakes, hfirm, hlast⟩ := ih (List.not_mem_nil (a := newline))
      refine ⟨⟨pending.reverse, .failed fault⟩ :: firm, last, ?_, ?_, hlast⟩
      · rw [takesAfter, htakes]
        rfl
      · exact List.forall_mem_cons.mpr ⟨.inr ⟨by simpa using hp, rfl⟩, hfirm⟩
    | change edits => exact ih hp

/-- After an unfinished line too, a newline stands only at the end of the bytes of a take. -/
theorem newline_notMem_dropLast_of_mem_takesAfter (script : Script) {pending : List UInt8} (hp : newline ∉ pending) :
    ∀ take ∈ takesAfter pending script, newline ∉ take.bytes.dropLast := by
  have hwithin {bytes : List UInt8} (h : newline ∉ bytes) : newline ∉ bytes.dropLast :=
    fun hmem => h (List.dropLast_subset _ hmem)
  induction script generalizing pending with
  | nil =>
    have hopen : ∀ take ∈ (openLine pending).map Take.ofLine, newline ∉ take.bytes.dropLast := by
      rw [openLine]
      split
      · exact nofun
      · rw [List.map_singleton, List.forall_mem_singleton]
        exact hwithin (by rwa [Take.ofLine, List.mem_reverse])
    exact List.forall_mem_append.mpr ⟨hopen, by simp [Take.atEnd]⟩
  | cons delivery script ih =>
    cases delivery with
    | bytes chunk =>
      refine List.forall_mem_append.mpr ⟨?_, ih (newline_notMem_completeLines hp chunk)⟩
      intro take htake
      obtain ⟨line, hline, rfl⟩ := List.mem_map.mp htake
      obtain ⟨body, hbody, heq⟩ := endedLine_of_mem_completeLines hp chunk line hline
      rw [Take.ofLine, heq, List.dropLast_concat]
      exact hbody
    | interruption => exact ih hp
    | failure fault =>
      exact List.forall_mem_cons.mpr ⟨hwithin (by rwa [List.mem_reverse]), ih (List.not_mem_nil (a := newline))⟩
    | change edits => exact ih hp

/-- Before a take that is not the end all takes are firm. -/
theorem firm_of_takes {script : Script} {before after : List Take} {take : Take}
    (h : script.takes = before ++ take :: after) (ht : take.outcome ≠ .finished) : ∀ t ∈ before, t.Firm := by
  obtain ⟨firm, last, htakes, hfirm, hlast⟩ := takesAfter_firm script (List.not_mem_nil (a := newline))
  have hall : before ++ take :: after = firm ++ (last ++ [Take.atEnd]) := by
    rw [← h, Script.takes, htakes, List.append_assoc]
  intro t hmem
  rcases List.append_eq_append_iff.mp hall with ⟨more, rfl, -⟩ | ⟨more, rfl, hbehind⟩
  · exact hfirm t (List.mem_append_left _ hmem)
  · -- only the end and one more take stand behind the firm ones, and the take is not the end
    have hmore : more = [] := by
      rcases last with _ | ⟨x, _ | ⟨y, last⟩⟩
      · rcases more with _ | ⟨z, more⟩
        · rfl
        · simp at hbehind
      · rcases more with _ | ⟨z, _ | ⟨z', more⟩⟩
        · rfl
        · obtain ⟨-, rfl, -⟩ : x = z ∧ Take.atEnd = take ∧ [] = after := by simpa using hbehind
          exact absurd rfl ht
        · simp at hbehind
      · simp at hlast
    rw [hmore, List.append_nil] at hmem
    exact hfirm t hmem

/-- A firm take holds a newline if it is a line, or one that was refused. -/
theorem Take.Firm.count_newline {take : Take} (h : take.Firm) :
    take.bytes.count newline = (if take.outcome.isLine then 1 else 0) + if take.isRefused then 1 else 0 := by
  rcases h with ⟨body, hbody, hbytes⟩ | ⟨hnone, hline⟩
  · have hone : take.bytes.count newline = 1 := by
      rw [hbytes, List.count_append, List.count_eq_zero_of_not_mem hbody]
      rfl
    have hmem : newline ∈ take.bytes := by simp [hbytes]
    rw [hone, isRefused]
    cases take.outcome.isLine <;> simp [hmem]
  · rw [List.count_eq_zero_of_not_mem hnone, isRefused]
    simp [hline, hnone]

/-- Firm takes hold as many newlines as there are lines and refused lines among them. -/
theorem count_newline_takes {takes : List Take} (h : ∀ take ∈ takes, take.Firm) :
    (takes.flatMap (·.bytes)).count newline = takes.countP (·.outcome.isLine) + takes.countP Take.isRefused := by
  induction takes with
  | nil => rfl
  | cons take takes ih =>
    obtain ⟨htake, htakes⟩ := List.forall_mem_cons.mp h
    rw [List.flatMap_cons, List.count_append, ih htakes, htake.count_newline, List.countP_cons, List.countP_cons]
    omega

end StreamCharts
