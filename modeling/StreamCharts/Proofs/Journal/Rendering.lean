import Mathlib.Data.List.Basic
import StreamCharts.Journal.Rendering

/-!
# What rendering keeps

Rendered messages consist of shown characters, so that they give a terminal no commands (`isShown_of_mem_rendered`), and every line of
one but the first is indented, so that none can pass for a record of its own (`indented_rendered`). To leave out characters is all
that is done to make a text plain (`plainText_sublist`): what holds no control characters is kept (`plainText_of_shown`), and of what
a control sequence stands in nothing else is lost (`plainText_of_sequence`).
-/

namespace StreamCharts

variable {c : Char} {cs : List Char} {showing : Bool} {state : ControlState}

/-! ## Characters -/

/-- White space that breaks off a sequence is shown. -/
theorem isShown_of_isLayout (h : isLayout c = true) : isShown c = true := by
  rw [isShown, h, Bool.true_or]

/-- What is left of a character and those behind it: they begin with it, which is then shown, or it is left out. -/
theorem shownChars_cons_cases (showing : Bool) (state : ControlState) (c : Char) (cs : List Char) :
    (isShown c = true ∧ ∃ state', shownChars showing state (c :: cs) = c :: shownChars true state' cs) ∨
      shownChars showing state (c :: cs) = shownChars false (state.next c) cs := by
  rw [shownChars]
  cases showing with
  | true =>
    by_cases hshown : isShown c = true
    · exact .inl ⟨hshown, _, if_pos hshown⟩
    · exact .inr (if_neg hshown)
  | false =>
    by_cases hbegins : (if state = .outside then isShown c else state.yields && isLayout c) = true
    · refine .inl ⟨?_, _, if_pos hbegins⟩
      split at hbegins
      · exact hbegins
      · exact isShown_of_isLayout (Bool.and_eq_true_iff.mp hbegins).2
    · exact .inr (if_neg hbegins)

/-- While text is shown a character that may be shown is. -/
theorem shownChars_true_of_isShown (h : isShown c = true) (state : ControlState) (cs : List Char) :
    ∃ state', shownChars true state (c :: cs) = c :: shownChars true state' cs := by
  rw [shownChars, if_pos rfl, if_pos h]
  exact ⟨_, rfl⟩

/-- The characters that are left are characters of the text, in its order. -/
theorem shownChars_sublist (showing : Bool) (state : ControlState) (cs : List Char) : (shownChars showing state cs).Sublist cs := by
  induction cs generalizing showing state with
  | nil => exact List.Sublist.slnil
  | cons c cs ih =>
    obtain ⟨-, state', h⟩ | h := shownChars_cons_cases showing state c cs
    · rw [h]
      exact (ih true state').cons_cons c
    · rw [h]
      exact (ih false _).cons c

/-- A text is made plain by leaving characters out. -/
theorem plainText_sublist (text : String) : (plainText text).toList.Sublist text.toList := by
  rw [plainText, String.toList_ofList]
  exact shownChars_sublist true .outside text.toList

/-- The characters that are left may be shown. -/
theorem isShown_of_mem_shownChars (h : c ∈ shownChars showing state cs) : isShown c = true := by
  induction cs generalizing showing state with
  | nil => cases h
  | cons d cs ih =>
    obtain ⟨hd, state', heq⟩ | heq := shownChars_cons_cases showing state d cs
    · rw [heq] at h
      obtain rfl | h := List.mem_cons.mp h
      · exact hd
      · exact ih h
    · rw [heq] at h
      exact ih h

/-! ## Texts without sequences -/

/-- Outside of sequences a character that may be shown is, and one stays outside. -/
theorem shownChars_outside_cons (h : isShown c = true) (showing : Bool) (cs : List Char) :
    shownChars showing .outside (c :: cs) = c :: shownChars true .outside cs := by
  rw [shownChars, if_pos rfl, h, ite_self, if_pos rfl, ite_self]

/-- Outside of sequences characters that may be shown are kept. -/
theorem shownChars_outside_append (h : ∀ c ∈ cs, isShown c = true) (showing : Bool) (rest : List Char) :
    ∃ showing', shownChars showing .outside (cs ++ rest) = cs ++ shownChars showing' .outside rest := by
  induction cs generalizing showing with
  | nil => exact ⟨showing, rfl⟩
  | cons c cs ih =>
    obtain ⟨showing', hrest⟩ := ih (fun d hd => h d (List.mem_cons_of_mem c hd)) true
    refine ⟨showing', ?_⟩
    rw [List.cons_append, shownChars_outside_cons (h c List.mem_cons_self), hrest, List.cons_append]

/-- A text whose characters may all be shown is kept. -/
theorem plainText_of_shown {text : String} (h : ∀ c ∈ text.toList, isShown c = true) : plainText text = text := by
  obtain ⟨showing, hall⟩ := shownChars_outside_append h true []
  rw [List.append_nil] at hall
  rw [plainText, hall, shownChars, List.append_nil, String.ofList_toList]

/-! ## Sequences with parameters -/

/-- Characters that may stand among the parameters of a sequence. -/
def isParameter (c : Char) : Bool :=
  0x20 ≤ c.toNat && c.toNat < 0x40

/-- White space that breaks off a sequence is a control character. -/
theorem isLayout_eq_false (h : 0x20 ≤ c.toNat) : isLayout c = false := by
  rw [Bool.eq_false_iff]
  intro hlayout
  simp only [isLayout, Bool.or_eq_true, decide_eq_true_eq] at hlayout
  obtain ((rfl | rfl) | rfl) | rfl := hlayout <;> exact absurd h (by decide)

/-- In a sequence what is no white space is left out. -/
theorem shownChars_of_sequence (hstate : state ≠ .outside) (h : 0x20 ≤ c.toNat) (cs : List Char) :
    shownChars false state (c :: cs) = shownChars false (state.next c) cs := by
  rw [shownChars, if_neg Bool.false_ne_true, if_neg hstate, isLayout_eq_false h, Bool.and_false, if_neg Bool.false_ne_true]

/-- Parameters are left out, and do not end their sequence. -/
theorem shownChars_parameters (h : ∀ c ∈ cs, isParameter c = true) (rest : List Char) :
    shownChars false .parameters (cs ++ rest) = shownChars false .parameters rest := by
  induction cs with
  | nil => rfl
  | cons c cs ih =>
    have hc : 0x20 ≤ c.toNat ∧ c.toNat < 0x40 := by simpa [isParameter] using h c List.mem_cons_self
    have hnext : ControlState.next .parameters c = .parameters := by
      simp only [ControlState.next, Bool.or_eq_true, Bool.and_eq_true, decide_eq_true_eq]
      rw [if_neg (by omega), if_neg (by omega), if_neg (by omega)]
    rw [List.cons_append, shownChars_of_sequence (by decide) hc.1, hnext, ih fun d hd => h d (List.mem_cons_of_mem c hd)]

/-- A sequence with parameters ends with its letter. -/
theorem next_parameters (h : 0x40 ≤ c.toNat ∧ c.toNat ≤ 0x7E) : ControlState.next .parameters c = .outside := by
  simp only [ControlState.next, Bool.or_eq_true, Bool.and_eq_true, decide_eq_true_eq]
  rw [if_neg (by omega), if_neg (by omega), if_pos h]

/-- Of a text in which a sequence with parameters stands the rest is kept. -/
theorem plainText_of_sequence {before behind parameters : List Char} {final : Char} (hbefore : ∀ c ∈ before, isShown c = true)
    (hparameters : ∀ c ∈ parameters, isParameter c = true) (hfinal : 0x40 ≤ final.toNat ∧ final.toNat ≤ 0x7E)
    (hbehind : ∀ c ∈ behind, isShown c = true) :
    plainText (String.ofList (before ++ '\x1b' :: '[' :: (parameters ++ final :: behind))) = String.ofList (before ++ behind) := by
  have hopening : ∀ showing rest, shownChars showing .outside ('\x1b' :: '[' :: rest) = shownChars false .parameters rest := by
    intro showing rest
    cases showing <;> rfl
  obtain ⟨showing, htext⟩ := shownChars_outside_append hbefore true ('\x1b' :: '[' :: (parameters ++ final :: behind))
  obtain ⟨showing', hrest⟩ := shownChars_outside_append hbehind false []
  rw [plainText, String.toList_ofList, htext, hopening, shownChars_parameters hparameters,
    shownChars_of_sequence (by decide) (by omega), next_parameters hfinal, ← List.append_nil behind, hrest, shownChars]

/-! ## Lines -/

/-- Behind the end of each line the next one is indented. -/
def Indented (cs : List Char) : Prop :=
  ∀ before behind, cs = before ++ '\n' :: behind → [' ', ' ', ' ', ' '] <+: behind

/-- Lines are indented if the first that ends is followed by an indentation and the others are. -/
theorem indented_cons (hline : c = '\n' → [' ', ' ', ' ', ' '] <+: cs) (h : Indented cs) : Indented (c :: cs) := by
  intro before behind heq
  cases before with
  | nil =>
    obtain ⟨rfl, rfl⟩ := List.cons.inj heq
    exact hline rfl
  | cons d before => exact h before behind (List.cons.inj heq).2

/-- A character that ends no line changes nothing about indentation. -/
theorem Indented.cons (hc : c ≠ '\n') (h : ∀ showing state, Indented (shownChars showing state cs)) (showing : Bool)
    (state : ControlState) : Indented (shownChars showing state (c :: cs)) := by
  obtain ⟨-, state', heq⟩ | heq := shownChars_cons_cases showing state c cs
  · rw [heq]
    exact indented_cons (fun hline => absurd hline hc) (h true state')
  · rw [heq]
    exact h false _

/-- Spaces are shown behind the end of a line that is shown. -/
theorem shownChars_spaces (state : ControlState) (cs : List Char) :
    ∃ state', shownChars true state (' ' :: ' ' :: ' ' :: ' ' :: cs) = ' ' :: ' ' :: ' ' :: ' ' :: shownChars true state' cs := by
  have hspace : isShown ' ' = true := by decide
  obtain ⟨state₁, h₁⟩ := shownChars_true_of_isShown hspace state (' ' :: ' ' :: ' ' :: cs)
  obtain ⟨state₂, h₂⟩ := shownChars_true_of_isShown hspace state₁ (' ' :: ' ' :: cs)
  obtain ⟨state₃, h₃⟩ := shownChars_true_of_isShown hspace state₂ (' ' :: cs)
  obtain ⟨state₄, h₄⟩ := shownChars_true_of_isShown hspace state₃ cs
  exact ⟨state₄, by rw [h₁, h₂, h₃, h₄]⟩

/-- The end of a line with an indentation behind it keeps it, if it is shown at all. -/
theorem Indented.newline (h : ∀ showing state, Indented (shownChars showing state cs)) (showing : Bool) (state : ControlState) :
    Indented (shownChars showing state ('\n' :: ' ' :: ' ' :: ' ' :: ' ' :: cs)) := by
  have hspaces : ∀ showing state, Indented (shownChars showing state (' ' :: ' ' :: ' ' :: ' ' :: cs)) :=
    Indented.cons (by decide) (Indented.cons (by decide) (Indented.cons (by decide) (Indented.cons (by decide) h)))
  obtain ⟨-, state', heq⟩ | heq := shownChars_cons_cases showing state '\n' (' ' :: ' ' :: ' ' :: ' ' :: cs)
  · obtain ⟨state'', hshown⟩ := shownChars_spaces state' cs
    rw [heq]
    refine indented_cons (fun _ => ?_) (hspaces true state')
    rw [hshown]
    exact ⟨_, rfl⟩
  · rw [heq]
    exact hspaces false _

/-- The lines of a message stay indented. -/
theorem indented_shownChars (cs : List Char) (showing : Bool) (state : ControlState) :
    Indented (shownChars showing state (cs.flatMap fun c => if c = '\n' then ['\n', ' ', ' ', ' ', ' '] else [c])) := by
  induction cs generalizing showing state with
  | nil => exact fun before behind heq => by simp [shownChars] at heq
  | cons c cs ih =>
    rw [List.flatMap_cons]
    split
    · rename_i hc
      exact .newline ih showing state
    · rename_i hc
      exact .cons hc ih showing state

/-! ## Records -/

/-- A rendered message consists of characters that may be shown. -/
theorem isShown_of_mem_rendered {record : Record} (h : c ∈ record.rendered.toList) : isShown c = true := by
  rw [Record.rendered, plainText, String.toList_ofList] at h
  exact isShown_of_mem_shownChars h

/-- All lines of a rendered message but the first are indented. -/
theorem indented_rendered (record : Record) : Indented record.rendered.toList := by
  rw [Record.rendered, plainText, indented, String.toList_ofList, String.toList_ofList]
  exact indented_shownChars _ true .outside

/-- A message on one line of characters that may be shown is rendered as it is. -/
theorem rendered_of_shown {record : Record} (h : ∀ c ∈ record.message.toList, isShown c = true ∧ c ≠ '\n') :
    record.rendered = record.message := by
  have hindented : indented record.message = record.message := by
    have hflat : (record.message.toList.flatMap fun c => if c = '\n' then ['\n', ' ', ' ', ' ', ' '] else [c]) =
        record.message.toList.flatMap fun c => [c] :=
      List.flatMap_congr fun c hc => if_neg (h c hc).2
    rw [indented, hflat, List.flatMap_singleton', String.ofList_toList]
  rw [Record.rendered, hindented]
  exact plainText_of_shown fun c hc => (h c hc).1

end StreamCharts
