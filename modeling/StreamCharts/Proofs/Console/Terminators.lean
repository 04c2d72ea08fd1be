import StreamCharts.Proofs.Console.Exchanges
import StreamCharts.Proofs.Console.Limits
import StreamCharts.Proofs.Input.Takes
import StreamCharts.Proofs.Text.Lines

/-!
# How answers are terminated

An answer is what its line holds before the terminator, be that a newline, a carriage return and a newline, or nothing at the end of
the input. `Text.Holds` says that bytes hold lines of some contents, however each of them is terminated, and `Script.SameContents` that
two scripts hold the same contents between the same failures. Dialogues on two such inputs go alike (`dialogues_agree`). The main
statement, `answers_are_contents_of_lines`, adds that each listed name without a newline can be chosen, by its line ended with a
carriage return and a newline, and that a name with a newline is never chosen.
-/

namespace StreamCharts

open Text

namespace Text

/-! ## Contents of lines -/

/-- The byte of a carriage return. -/
def carriageReturn : UInt8 := 13

/-- What a line holds before its terminator: no newline, and no carriage return at the end. -/
structure IsContent (content : List UInt8) : Prop where
  within : newline ∉ content
  plain : content.getLast? ≠ some carriageReturn

/-- Bytes hold lines of these contents. A newline ends a line, or a carriage return and a newline; the last line may go without
either, unless it is empty. -/
inductive Holds : List (List UInt8) → List UInt8 → Prop where
  | nil : Holds [] []
  | lf {content bytes : List UInt8} {contents : List (List UInt8)} (h : IsContent content) (hrest : Holds contents bytes) :
      Holds (content :: contents) (content ++ [newline] ++ bytes)
  | crlf {content bytes : List UInt8} {contents : List (List UInt8)} (h : IsContent content) (hrest : Holds contents bytes) :
      Holds (content :: contents) (content ++ [carriageReturn, newline] ++ bytes)
  | bare {content : List UInt8} (h : IsContent content) (hne : content ≠ []) : Holds [content] content

end Text

/-! ## Requests -/

namespace Outcome

/-- What a request gives on a line of this content: a text with the content as its answer, or a failure if the content is no
text. -/
inductive Gives (content : List UInt8) : Outcome → Prop where
  | line {text answer : String} (hcontent : ofUtf8? content = some answer) (h : Answers text answer) : Gives content (.line text)
  | notText (hcontent : ofUtf8? content = none) : Gives content (.failed .notText)

/-- Two requests give the same, but for the terminator of a line. -/
inductive SameAnswer : Outcome → Outcome → Prop where
  | line {text text' answer : String} (h : Answers text answer) (h' : Answers text' answer) : SameAnswer (.line text) (.line text')
  | refl (outcome : Outcome) : SameAnswer outcome outcome

variable {content : List UInt8} {outcome outcome' : Outcome}

/-- Requests on two lines of one content give the same, but for the terminator. -/
theorem Gives.sameAnswer (h : Gives content outcome) (h' : Gives content outcome') : SameAnswer outcome outcome' := by
  cases h with
  | line hcontent h =>
    cases h' with
    | line hcontent' h' =>
      obtain rfl := Option.some.inj (hcontent.symm.trans hcontent')
      exact .line h h'
    | notText hcontent' => exact absurd (hcontent.symm.trans hcontent') nofun
  | notText hcontent =>
    cases h' with
    | line hcontent' h' => exact absurd (hcontent.symm.trans hcontent') nofun
    | notText hcontent' => exact .refl _

end Outcome

namespace Text.IsContent

variable {content : List UInt8}

/-- The text of a content does not end with a carriage return. -/
theorem getLast?_ne_return {answer : String} (h : IsContent content) (htext : ofUtf8? content = some answer) :
    answer.toList.getLast? ≠ some '\r' := by
  rw [ofUtf8?_eq_some_iff] at htext
  rw [ne_eq, ← getLast?_utf8_eq_some_iff (by decide), ← htext]
  exact h.plain

/-- A newline behind a content ends its line. -/
theorem gives_newline (h : IsContent content) : Outcome.Gives content (Outcome.ofBytes (content ++ [newline])) := by
  cases htext : ofUtf8? content with
  | none =>
    rw [Outcome.ofBytes, (ofUtf8?_append_newline_eq_none_iff content).mpr htext]
    exact .notText htext
  | some answer =>
    have hline : ofUtf8? (content ++ [newline]) = some (answer ++ "\n") := by
      rw [ofUtf8?_eq_some_iff, utf8_append, ← (ofUtf8?_eq_some_iff _ _).mp htext]
      rfl
    rw [Outcome.ofBytes, hline]
    exact .line htext (.newline answer (h.getLast?_ne_return htext))

/-- So do a carriage return and a newline. -/
theorem gives_crlf : Outcome.Gives content (Outcome.ofBytes (content ++ [carriageReturn, newline])) := by
  cases htext : ofUtf8? content with
  | none =>
    have hreturn : ofUtf8? (content ++ [carriageReturn]) = none :=
      (ofUtf8?_append_ascii_eq_none_iff (a := '\r') (by decide) content).mpr htext
    have hboth := (ofUtf8?_append_newline_eq_none_iff _).mpr hreturn
    rw [List.append_assoc, List.singleton_append] at hboth
    rw [Outcome.ofBytes, hboth]
    exact .notText htext
  | some answer =>
    have hline : ofUtf8? (content ++ [carriageReturn, newline]) = some (answer ++ "\r\n") := by
      rw [ofUtf8?_eq_some_iff, utf8_append, ← (ofUtf8?_eq_some_iff _ _).mp htext]
      rfl
    rw [Outcome.ofBytes, hline]
    exact .line htext (.crlf answer)

/-- At the end of the input a content is a line by itself. -/
theorem gives_bare (h : IsContent content) : Outcome.Gives content (Outcome.ofBytes content) := by
  cases htext : ofUtf8? content with
  | none =>
    rw [Outcome.ofBytes, htext]
    exact .notText htext
  | some answer =>
    have hlast : answer.toList.getLast? ≠ some '\n' := by
      rw [ne_eq, ← getLast?_utf8_eq_some_iff (by decide), ← (ofUtf8?_eq_some_iff _ _).mp htext]
      exact fun hnewline => h.within (List.mem_of_getLast? hnewline)
    rw [Outcome.ofBytes, htext]
    exact .line htext (.bare answer hlast)

end Text.IsContent

/-- The requests for the lines of bytes give the contents that the bytes hold, one after another. -/
theorem Text.Holds.gives {contents : List (List UInt8)} {bytes : List UInt8} (h : Holds contents bytes) :
    List.Forall₂ Outcome.Gives contents ((lines bytes).map Outcome.ofBytes) := by
  induction h with
  | nil => exact .nil
  | lf hcontent hrest ih =>
    rw [lines_ended_append ⟨_, hcontent.within, rfl⟩]
    exact .cons hcontent.gives_newline ih
  | @crlf content bytes contents hcontent hrest ih =>
    have hended : EndedLine (content ++ [carriageReturn, newline]) := by
      refine ⟨content ++ [carriageReturn], ?_, by rw [List.append_assoc, List.singleton_append]⟩
      rw [List.mem_append, List.mem_singleton, not_or]
      exact ⟨hcontent.within, by decide⟩
    rw [lines_ended_append hended]
    exact .cons Text.IsContent.gives_crlf ih
  | bare hcontent hne =>
    rw [lines_open hne hcontent.within]
    exact .cons hcontent.gives_bare .nil

/-! ## Scripts of the same contents -/

/-- Two scripts, in whatever pieces they arrive, hold lines of the same contents: those of all delivered bytes, or if both fail in the
same way, those of the lines ended before that, and the scripts behind the failures do so again. -/
inductive Script.SameContents : Script → Script → Prop where
  | unbroken {script script' : Script} {contents : List (List UInt8)} (h : script.failure? = none) (h' : script'.failure? = none)
      (hholds : Holds contents script.delivered) (hholds' : Holds contents script'.delivered) : SameContents script script'
  | broken {script script' : Script} {contents : List (List UInt8)} {fault : Fault} (h : script.failure? = some fault)
      (h' : script'.failure? = some fault) (hholds : Holds contents (completed script.delivered))
      (hholds' : Holds contents (completed script'.delivered)) (hbehind : SameContents script.behindFailure script'.behindFailure) :
      SameContents script script'

/-- Two inputs give the same, request by request, but for the terminators of the lines. -/
def SameAnswers (input input' : List Reading) : Prop :=
  List.Forall₂ (fun reading reading' => reading.outcome.SameAnswer reading'.outcome) input input'

/-- Requests that give one list of contents give the same answers. -/
theorem forall₂_sameAnswer {contents : List (List UInt8)} {os os' : List Outcome} (h : List.Forall₂ Outcome.Gives contents os)
    (h' : List.Forall₂ Outcome.Gives contents os') : List.Forall₂ Outcome.SameAnswer os os' := by
  induction h generalizing os' with
  | nil =>
    cases h'
    exact .nil
  | cons hfirst _ ih =>
    cases h' with
    | cons hfirst' hrest' => exact .cons (hfirst.sameAnswer hfirst') (ih hrest')

/-- Scripts of the same contents give the same answers. -/
theorem Script.SameContents.sameAnswers {script script' : Script} (h : script.SameContents script') :
    SameAnswers script.readings script'.readings := by
  have houtcomes : List.Forall₂ Outcome.SameAnswer (outcomes script.readings) (outcomes script'.readings) := by
    induction h with
    | unbroken h h' hholds hholds' =>
      rw [outcomes_of_unbroken _ h, outcomes_of_unbroken _ h']
      exact List.rel_append (forall₂_sameAnswer hholds.gives hholds'.gives) (.cons (.refl _) .nil)
    | broken h h' hholds hholds' _ ih =>
      rw [outcomes_of_broken _ h, outcomes_of_broken _ h']
      exact List.rel_append (forall₂_sameAnswer hholds.gives hholds'.gives) (.cons (.refl _) ih)
  rw [outcomes, outcomes, List.forall₂_map_left_iff, List.forall₂_map_right_iff] at houtcomes
  exact houtcomes

/-! ## Dialogues that go alike -/

/-- Two dialogues on two inputs have the same result and the same number of rounds, have printed and noted the same, and have
consumed the same lines. -/
structure Dialogue.Agrees {σ : Type} (input input' : List Reading) (d d' : Dialogue σ) : Prop where
  outcome : d.outcome = d'.outcome
  rounds : d.rounds = d'.rounds
  state : d.state = d'.state
  sink : d.sink = d'.sink
  journal : d.journal = d'.journal
  consumed : ∃ n, d.input = input.drop n ∧ d'.input = input'.drop n

/-- Dialogues that agree on what is left of two inputs agree on the inputs. -/
theorem Dialogue.Agrees.of_drop {σ : Type} {input input' : List Reading} {d d' : Dialogue σ} {n : Nat}
    (h : Dialogue.Agrees (input.drop n) (input'.drop n) d d') : Dialogue.Agrees input input' d d' := by
  obtain ⟨m, hinput, hinput'⟩ := h.consumed
  rw [List.drop_drop] at hinput hinput'
  exact ⟨h.outcome, h.rounds, h.state, h.sink, h.journal, n + m, hinput, hinput'⟩

/-- Questions, each about the candidates that are listed in its rounds. -/
def inquiriesOf (questions : List (Question × (Nat → Except SelectionError (List String)))) : List (Inquiry Nat) :=
  questions.map fun (q, L) => ⟨q, .ofRounds L, 0⟩

namespace Question

/-- A round looks at the answer in a line only. -/
theorem closeRound_congr (q : Question) (candidates : List String) {outcome outcome' : Outcome} (h : outcome.SameAnswer outcome')
    (sink : Sink) : q.closeRound candidates outcome sink = q.closeRound candidates outcome' sink := by
  cases h with
  | line h h' =>
    rw [answers_iff] at h h'
    simp only [closeRound, h, h']
  | refl => rfl

/-- The dialogues of a question on two inputs with the same answers agree. -/
theorem askFrom_agrees (q : Question) (L : Nat → Except SelectionError (List String)) {input input' : List Reading}
    (h : SameAnswers input input') (rounds state : Nat) (sink : Sink) :
    Dialogue.Agrees input input' (q.askFrom (.ofRounds L) rounds state sink input)
      (q.askFrom (.ofRounds L) rounds state sink input') := by
  induction h generalizing rounds state sink with
  | nil =>
    rcases hopen : q.openRound (.ofRounds L) state sink with ⟨e | candidates, shown⟩
    · rw [askFrom_of_not_open hopen]
      exact ⟨rfl, rfl, rfl, rfl, rfl, 0, rfl, rfl⟩
    · rw [askFrom_nil_of_open hopen]
      exact ⟨rfl, rfl, rfl, rfl, rfl, 0, rfl, rfl⟩
  | @cons reading reading' rest rest' hfirst _ ih =>
    rcases hopen : q.openRound (.ofRounds L) state sink with ⟨e | candidates, shown⟩
    · rw [askFrom_of_not_open hopen, askFrom_of_not_open hopen]
      exact ⟨rfl, rfl, rfl, rfl, rfl, 0, rfl, rfl⟩
    · have hsame := q.closeRound_congr candidates hfirst shown
      rcases hclose : q.closeRound candidates reading.outcome shown with ⟨_ | result, written, journal⟩
      · obtain ⟨houtcome, hrounds, hstate, hsink, hjournal, n, hinput, hinput'⟩ := ih (rounds + 1) (state + 1) written
        rw [askFrom_cons_of_not_close hopen hclose, askFrom_cons_of_not_close hopen (hsame.symm.trans hclose)]
        exact ⟨houtcome, hrounds, hstate, hsink, congrArg (journal ++ ·) hjournal, n + 1, hinput, hinput'⟩
      · rw [askFrom_cons_of_close hopen hclose, askFrom_cons_of_close hopen (hsame.symm.trans hclose)]
        exact ⟨rfl, rfl, rfl, rfl, rfl, 1, rfl, rfl⟩

end Question

/-- Dialogues one after another on two inputs with the same answers agree. -/
theorem dialogues_agree {input input' : List Reading} (h : SameAnswers input input') (sink : Sink)
    (questions : List (Question × (Nat → Except SelectionError (List String)))) :
    List.Forall₂ (Dialogue.Agrees input input') (dialogues sink input (inquiriesOf questions))
      (dialogues sink input' (inquiriesOf questions)) := by
  induction questions generalizing sink input input' with
  | nil => exact .nil
  | cons question questions ih =>
    obtain ⟨q, L⟩ := question
    have hfirst : Dialogue.Agrees input input' (q.ask (.ofRounds L) 0 sink input) (q.ask (.ofRounds L) 0 sink input') :=
      q.askFrom_agrees L h 0 0 sink
    obtain ⟨n, hinput, hinput'⟩ := hfirst.consumed
    have hrest := ih (List.forall₂_drop n h) (q.ask (.ofRounds L) 0 sink input).sink
    refine .cons hfirst ?_
    dsimp only
    rw [← hfirst.sink, hinput, hinput']
    exact hrest.imp fun d d' => Dialogue.Agrees.of_drop

/-! ## Names that can be chosen -/

/-- A name without a newline, behind ended lines and ended with a carriage return and a newline, is the line behind these. -/
theorem lines_of_terminated_name {before : List (List UInt8)} (hbefore : ∀ line ∈ before, EndedLine line) {name : String}
    (hname : '\n' ∉ name.toList) (behind : List UInt8) :
    lines (before.flatten ++ utf8 (name ++ "\r\n") ++ behind) = before ++ utf8 (name ++ "\r\n") :: lines behind := by
  have hreturn : utf8 (name ++ "\r\n") = utf8 (name ++ "\r") ++ [newline] := by
    rw [show name ++ "\r\n" = name ++ "\r" ++ "\n" by rw [String.append_assoc]; rfl, utf8_append]
    rfl
  have hended : EndedLine (utf8 (name ++ "\r\n")) := by
    refine ⟨utf8 (name ++ "\r"), ?_, hreturn⟩
    rw [← String.ofList_toList (s := name ++ "\r"), utf8_ofList, List.mem_flatMap]
    rintro ⟨c, hc, hnewline⟩
    have hne : c ≠ '\n' := by
      rintro rfl
      rw [String.toList_append, List.mem_append] at hc
      rcases hc with hmem | hmem
      · exact hname hmem
      · exact absurd hmem (by decide)
    exact newline_notMem_utf8EncodeChar hne hnewline
  rw [List.append_assoc, lines_flatten_append hbefore, lines_ended_append hended]

namespace Question

/-- A dialogue on an output that never fails chooses a listed name without a newline when it reads the name, ended with a carriage
return and a newline, in the round behind those that reject their answers. -/
theorem ask_chooses_name (q : Question) {L : Nat → Except SelectionError (List String)} {script : Script}
    (hscript : script.failure? = none) {sink : Sink} (hsink : sink.NeverFails) {before : List (List UInt8)}
    (hbefore : ∀ line ∈ before, EndedLine line) {name : String} (hname : '\n' ∉ name.toList) {behind : List UInt8}
    (hdelivered : script.delivered = before.flatten ++ utf8 (name ++ "\r\n") ++ behind) {consumed : Nat} {rejected : List String}
    (hlength : before.length = consumed + rejected.length)
    (hrejects : ∀ r answer, rejected[r]? = some answer → Rejects (L r) (lineAt (script.linesAfter consumed) r) answer)
    {candidates : List String} (hlist : L rejected.length = .ok candidates) (hmem : name ∈ candidates) :
    (q.ask (.ofRounds L) 0 sink (script.readings.drop consumed)).outcome = .ok name ∧
      (q.ask (.ofRounds L) 0 sink (script.readings.drop consumed)).rounds = rejected.length + 1 ∧
      (q.ask (.ofRounds L) 0 sink (script.readings.drop consumed)).input = script.readings.drop (before.length + 1) := by
  have hread : lineAt (script.linesAfter consumed) rejected.length = .line (name ++ "\r\n") := by
    rw [lineAt, Script.linesAfter, List.getElem?_drop, ← hlength, hdelivered, lines_of_terminated_name hbefore hname,
      List.getElem?_append_right le_rfl, Nat.sub_self, List.getElem?_cons_zero, Option.map_some, Option.getD_some, Outcome.ofBytes,
      ofUtf8?_utf8]
  have hends : Ends (L rejected.length) (lineAt (script.linesAfter consumed) rejected.length) (.ok name) := by
    rw [hlist, hread]
    exact .chosen (.crlf name) hmem
  obtain ⟨rejected', result, hcourse, hask⟩ := q.askFrom_course (.ofRounds L) (script.readings.drop consumed) 0 0 sink hsink L <| by
    intro r hr
    rw [Catalogue.foldl_advance_ofRounds, List.length_take_of_le hr]
    rfl
  rw [readAt_drop_readings hscript] at hcourse
  obtain ⟨rfl, rfl⟩ := hcourse.unique ⟨hrejects, hends⟩
  rw [ask, hask, hlist, linesRead]
  refine ⟨rfl, by dsimp only; omega, ?_⟩
  dsimp only
  rw [List.drop_drop, hlength, Nat.add_assoc]

/-- What a round chooses is the answer in a line. -/
theorem closeRound_chosen {q : Question} {candidates : List String} {outcome : Outcome} {sink sink' : Sink} {choice : String}
    {journal : Journal} (h : q.closeRound candidates outcome sink = (some (.ok choice), sink', journal)) :
    ∃ text, outcome = .line text ∧ Answers text choice := by
  cases outcome with
  | finished => cases h
  | failed fault => cases h
  | line text =>
    rw [closeRound, validate] at h
    by_cases hmem : candidates.contains (answerOf text) = true
    · rw [if_pos hmem] at h
      obtain ⟨hchoice, -⟩ := Prod.mk.inj h
      exact ⟨text, rfl, (answers_iff text choice).mpr (Except.ok.inj (Option.some.inj hchoice))⟩
    · rw [if_neg hmem] at h
      dsimp only at h
      split at h <;> cases h

variable {σ : Type} {q : Question} {catalogue : Catalogue σ}

/-- What a dialogue chooses is the answer in a line that it reads. -/
theorem askFrom_chosen {rounds : Nat} {state : σ} {sink : Sink} {input : List Reading} {choice : String}
    (h : (q.askFrom catalogue rounds state sink input).outcome = .ok choice) :
    ∃ reading ∈ input, ∃ text, reading.outcome = .line text ∧ Answers text choice := by
  induction input generalizing rounds state sink with
  | nil =>
    rcases hopen : q.openRound catalogue state sink with ⟨e | candidates, shown⟩
    · rw [askFrom_of_not_open hopen] at h
      cases h
    · rw [askFrom_nil_of_open hopen] at h
      cases h
  | cons reading rest ih =>
    rcases hopen : q.openRound catalogue state sink with ⟨e | candidates, shown⟩
    · rw [askFrom_of_not_open hopen] at h
      cases h
    · rcases hclose : q.closeRound candidates reading.outcome shown with ⟨_ | result, written, journal⟩
      · rw [askFrom_cons_of_not_close hopen hclose] at h
        obtain ⟨reading', hmem, hline⟩ := ih h
        exact ⟨reading', List.mem_cons_of_mem _ hmem, hline⟩
      · rw [askFrom_cons_of_close hopen hclose] at h
        dsimp only at h
        rw [h] at hclose
        exact ⟨reading, List.mem_cons_self, closeRound_chosen hclose⟩

/-- What a dialogue leaves of its input is the end of it. -/
theorem askFrom_suffix (rounds : Nat) (state : σ) (sink : Sink) (input : List Reading) :
    (q.askFrom catalogue rounds state sink input).input <:+ input := by
  induction input generalizing rounds state sink with
  | nil =>
    rcases hopen : q.openRound catalogue state sink with ⟨e | candidates, shown⟩
    · rw [askFrom_of_not_open hopen]
    · rw [askFrom_nil_of_open hopen]
  | cons reading rest ih =>
    rcases hopen : q.openRound catalogue state sink with ⟨e | candidates, shown⟩
    · rw [askFrom_of_not_open hopen]
    · rcases hclose : q.closeRound candidates reading.outcome shown with ⟨_ | result, written, journal⟩
      · rw [askFrom_cons_of_not_close hopen hclose]
        exact (ih _ _ _).trans (List.suffix_cons reading rest)
      · rw [askFrom_cons_of_close hopen hclose]
        exact List.suffix_cons reading rest

end Question

/-- What dialogues one after another choose are answers in lines of their input. -/
theorem dialogues_chosen {σ : Type} {sink : Sink} {input : List Reading} {inquiries : List (Inquiry σ)} {dialogue : Dialogue σ}
    (hmem : dialogue ∈ dialogues sink input inquiries) {choice : String} (h : dialogue.outcome = .ok choice) :
    ∃ reading ∈ input, ∃ text, reading.outcome = .line text ∧ Answers text choice := by
  induction inquiries generalizing sink input with
  | nil => cases hmem
  | cons inquiry inquiries ih =>
    rw [dialogues, List.mem_cons] at hmem
    rcases hmem with rfl | hmem
    · exact Question.askFrom_chosen h
    · obtain ⟨reading, hreading, hline⟩ := ih hmem
      exact ⟨reading, (Question.askFrom_suffix _ _ _ _).subset hreading, hline⟩

/-- A newline stands only at the end of a line that is read. -/
theorem newline_notMem_dropLast_of_line {script : Script} {reading : Reading} (hmem : reading ∈ script.readings) {text : String}
    (h : reading.outcome = .line text) : '\n' ∉ text.toList.dropLast := by
  have houtcome : reading.outcome ∈ script.takes.map (·.outcome) := by
    rw [outcomes_takes]
    exact List.mem_map_of_mem hmem
  obtain ⟨take, htake, heq⟩ := List.mem_map.mp houtcome
  have hbytes := (ofUtf8?_eq_some_iff _ _).mp (ofUtf8?_of_mem_takesAfter script [] take htake text (heq.trans h))
  have hwithin := newline_notMem_dropLast_of_mem_takesAfter script (List.not_mem_nil (a := newline)) take htake
  rw [hbytes] at hwithin
  exact fun hnewline => hwithin (newline_mem_dropLast_utf8 hnewline)

/-- So there is none in an answer. -/
theorem Answers.newline_notMem {text answer : String} (h : Answers text answer) (hwithin : '\n' ∉ text.toList.dropLast) :
    '\n' ∉ answer.toList := by
  cases h with
  | crlf =>
    intro hmem
    refine hwithin ?_
    rw [String.toList_append, List.dropLast_append_of_ne_nil (by decide)]
    exact List.mem_append_left _ hmem
  | newline =>
    intro hmem
    refine hwithin ?_
    rw [String.toList_append, List.dropLast_append_of_ne_nil (by decide)]
    exact List.mem_append_left _ hmem
  | bare _ hlast =>
    intro hmem
    rcases List.eq_nil_or_concat text.toList with hnil | ⟨cs, c, hcs⟩
    · rw [hnil] at hmem
      cases hmem
    · rw [hcs, List.concat_eq_append, List.mem_append, List.mem_singleton] at hmem
      rw [hcs, List.concat_eq_append] at hwithin hlast
      rw [List.dropLast_concat] at hwithin
      rw [List.getLast?_concat] at hlast
      rcases hmem with hmem | rfl
      · exact hwithin hmem
      · exact hlast rfl

/-- Dialogues about any questions, on any output, go alike on two inputs that hold lines of the same contents, however each line is
terminated and in whatever pieces the bytes arrive: results, rounds, printed bytes and consumed lines are the same. A listed name
without a newline, whatever else it holds, is chosen by its line ended with a carriage return and a newline, in any round that is
reached. And a name with a newline is never chosen. -/
theorem answers_are_contents_of_lines :
    (∀ {script script' : Script}, script.SameContents script' → ∀ (sink : Sink)
      (questions : List (Question × (Nat → Except SelectionError (List String)))),
      List.Forall₂ (Dialogue.Agrees script.readings script'.readings) (dialogues sink script.readings (inquiriesOf questions))
        (dialogues sink script'.readings (inquiriesOf questions))) ∧
    (∀ (q : Question) (L : Nat → Except SelectionError (List String)) (script : Script) (sink : Sink) (before : List (List UInt8))
      (name : String) (behind : List UInt8) (consumed : Nat) (rejected candidates : List String), script.failure? = none →
      sink.NeverFails → (∀ line ∈ before, EndedLine line) → '\n' ∉ name.toList →
      script.delivered = before.flatten ++ utf8 (name ++ "\r\n") ++ behind → before.length = consumed + rejected.length →
      (∀ r answer, rejected[r]? = some answer → Rejects (L r) (lineAt (script.linesAfter consumed) r) answer) →
      L rejected.length = .ok candidates → name ∈ candidates →
      (q.ask (.ofRounds L) 0 sink (script.readings.drop consumed)).outcome = .ok name ∧
        (q.ask (.ofRounds L) 0 sink (script.readings.drop consumed)).rounds = rejected.length + 1 ∧
        (q.ask (.ofRounds L) 0 sink (script.readings.drop consumed)).input = script.readings.drop (before.length + 1)) ∧
    (∀ {σ : Type} (script : Script) (sink : Sink) (inquiries : List (Inquiry σ)),
      ∀ dialogue ∈ dialogues sink script.readings inquiries, ∀ choice, dialogue.outcome = .ok choice → '\n' ∉ choice.toList) := by
  refine ⟨?_, ?_, ?_⟩
  · intro script script' h sink questions
    exact dialogues_agree h.sameAnswers sink questions
  · intro q L script sink before name behind consumed rejected candidates hscript hsink hbefore hname hdelivered hlength hrejects
      hlist hmem
    exact q.ask_chooses_name hscript hsink hbefore hname hdelivered hlength hrejects hlist hmem
  · intro σ script sink inquiries dialogue hdialogue choice hchoice
    obtain ⟨reading, hreading, text, htext, hanswer⟩ := dialogues_chosen hdialogue hchoice
    exact hanswer.newline_notMem (newline_notMem_dropLast_of_line hreading htext)

/-- An answer that is rejected and one with a space before it, with other terminators and in other pieces; a name that ends with a
carriage return itself, in the second round; and a name with a newline, which is asked for in vain. -/
theorem names_with_space_return_and_newline :
    List.Forall₂ (Dialogue.Agrees (Script.readings [.bytes (utf8 "x\n a\n")])
        (Script.readings [.bytes (utf8 "x\r"), .interruption, .bytes (utf8 "\n a")]))
      (dialogues .unlimited (Script.readings [.bytes (utf8 "x\n a\n")])
        (inquiriesOf [(⟨none, "p", "no"⟩, fun _ => .ok ["a", " a"])]))
      (dialogues .unlimited (Script.readings [.bytes (utf8 "x\r"), .interruption, .bytes (utf8 "\n a")])
        (inquiriesOf [(⟨none, "p", "no"⟩, fun _ => .ok ["a", " a"])])) ∧
    ((Question.mk none "p" "no").ask (.ofRounds fun _ => .ok ["a", "a\r"]) 0 .unlimited
      (Script.readings [.bytes (utf8 "x\na\r\r\n")])).outcome = .ok "a\r" ∧
    ∀ dialogue ∈ dialogues .unlimited (Script.readings [.bytes (utf8 "a\nb\n")])
      (inquiriesOf [(⟨none, "p", "no"⟩, fun _ => .ok ["a\nb"])]), dialogue.outcome ≠ .ok "a\nb" := by
  obtain ⟨halike, hchosen, hnever⟩ := answers_are_contents_of_lines
  have hx : IsContent [120] := ⟨by decide, by decide⟩
  have ha : IsContent [32, 97] := ⟨by decide, by decide⟩
  refine ⟨halike (.unbroken rfl rfl (.lf hx (.lf ha .nil)) (.crlf hx (.bare ha (by decide)))) _ _, ?_, ?_⟩
  · have hrejects : ∀ r answer, ["x"][r]? = some answer →
        Rejects (.ok ["a", "a\r"]) (lineAt (Script.linesAfter [.bytes (utf8 "x\na\r\r\n")] 0) r) answer := by
      intro r answer hanswer
      obtain ⟨rfl, rfl⟩ : r = 0 ∧ answer = "x" := by
        cases r with
        | zero => exact ⟨rfl, (Option.some.inj hanswer).symm⟩
        | succ r => cases hanswer
      have hline : lineAt (Script.linesAfter [.bytes (utf8 "x\na\r\r\n")] 0) 0 = .line ("x" ++ "\n") := by decide +kernel
      rw [hline]
      exact .mk (.newline "x" (by decide)) (by decide)
    have hbefore : ∀ line ∈ [utf8 "x\n"], EndedLine line :=
      List.forall_mem_singleton.mpr ⟨[120], by decide, by decide +kernel⟩
    exact (hchosen ⟨none, "p", "no"⟩ (fun _ => .ok ["a", "a\r"]) [.bytes (utf8 "x\na\r\r\n")] .unlimited [utf8 "x\n"] "a\r" [] 0
      ["x"] ["a", "a\r"] rfl Sink.neverFails_unlimited hbefore (by decide) (by decide +kernel) rfl hrejects rfl (by decide)).1
  · intro dialogue hdialogue hchoice
    exact hnever _ _ _ dialogue hdialogue _ hchoice (by decide)

end StreamCharts
