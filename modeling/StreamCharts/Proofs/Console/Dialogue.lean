import Mathlib.Data.List.Basic
import StreamCharts.Console.Question
import StreamCharts.Proofs.Input.Delivered

/-!
# The course of a dialogue

A question is asked round by round. A round `Rejects` its answer if that is none of the candidates listed in the round, and
otherwise it `Ends` the dialogue: without a listing, at the end of the input, with a failed read, or with a candidate. `Course`
says that a dialogue rejects some answers and then ends. The main statement is `question_ends_in_first_deciding_round`: what a
dialogue printed, read and noted follows from the listings and the lines of its input.
-/

namespace StreamCharts

/-! ## Answers -/

/-- The answer in a text: without the one newline, or carriage return and newline, that ends it. -/
inductive Answers : String → String → Prop where
  | crlf (answer : String) : Answers (answer ++ "\r\n") answer
  | newline (answer : String) (h : answer.toList.getLast? ≠ some '\r') : Answers (answer ++ "\n") answer
  | bare (answer : String) (h : answer.toList.getLast? ≠ some '\n') : Answers answer answer

/-- A text that ends with a character is what stands before it, and that character. -/
theorem eq_append_of_getLast? {text : String} {chars : List Char} {c : Char} (hchars : text.toList = chars)
    (h : chars.getLast? = some c) : text = String.ofList chars.dropLast ++ String.singleton c := by
  apply String.toList_injective
  rw [String.toList_append, String.toList_ofList, String.toList_singleton, hchars]
  exact (List.dropLast_append_getLast? c h).symm

/-- The answer that is cut out of a text is the answer in it. -/
theorem answers_iff (text answer : String) : Answers text answer ↔ answerOf text = answer := by
  constructor
  · intro h
    cases h with
    | crlf => simp [answerOf, String.toList_append]
    | newline _ h => simp [answerOf, String.toList_append, h]
    | bare _ h => simp [answerOf, h]
  · rintro rfl
    unfold answerOf
    dsimp only
    split
    · rename_i hnewline
      have htext := eq_append_of_getLast? rfl hnewline
      split
      · rename_i hreturn
        have hbefore := eq_append_of_getLast? String.toList_ofList hreturn
        have hboth := Answers.crlf (String.ofList text.toList.dropLast.dropLast)
        rwa [show "\r\n" = String.singleton '\r' ++ String.singleton '\n' from rfl, ← String.append_assoc, ← hbefore,
          ← htext] at hboth
      · rename_i hreturn
        have hone := Answers.newline (String.ofList text.toList.dropLast) (by rwa [String.toList_ofList])
        rwa [show "\n" = String.singleton '\n' from rfl, ← htext] at hone
    · rename_i hnewline
      exact .bare text hnewline

/-! ## An output without limits -/

namespace Sink

/-- An output that takes and hands on whatever is written. -/
structure NeverFails (sink : Sink) : Prop where
  room : sink.room = none
  flushes : sink.flushes = none

/-- An output without limits never fails. -/
theorem neverFails_unlimited : unlimited.NeverFails :=
  ⟨rfl, rfl⟩

/-- An output behind a text that was written to it. -/
def after (sink : Sink) (text : String) : Sink :=
  { sink with written := sink.written ++ Text.utf8 text }

variable {sink : Sink}

/-- An output that never fails goes on never failing. -/
theorem NeverFails.after (h : sink.NeverFails) (text : String) : (sink.after text).NeverFails :=
  ⟨h.room, h.flushes⟩

/-- Two texts one after the other are one text. -/
theorem after_after (sink : Sink) (a b : String) : (sink.after a).after b = sink.after (a ++ b) := by
  simp [Sink.after, Text.utf8, String.toByteArray_append]

/-- The empty text changes nothing. -/
theorem after_empty (sink : Sink) : sink.after "" = sink := by
  simp [Sink.after, Text.utf8]

/-- What is written to an output that never fails is written. -/
theorem NeverFails.write (h : sink.NeverFails) (text : String) : sink.write text = (.ok (), sink.after text) := by
  simp [Sink.write, writeBytes, h.room, Sink.after]

/-- What is printed on an output that never fails is written and handed on. -/
theorem NeverFails.print (h : sink.NeverFails) (text : String) : sink.print text = (.ok (), sink.after text) := by
  rw [Sink.print, h.write]
  simp [flush, (h.after text).flushes]

end Sink

/-! ## One round -/

/-- A round with a listing and what is read in it rejects an answer: the answer is none of the candidates. -/
inductive Rejects : Except SelectionError (List String) → Outcome → String → Prop where
  | mk {candidates : List String} {text answer : String} (h : Answers text answer) (hno : answer ∉ candidates) :
      Rejects (.ok candidates) (.line text) answer

/-- A round with a listing and what is read in it ends a dialogue. A failed listing comes before anything that could be read. -/
inductive Ends : Except SelectionError (List String) → Outcome → Except SelectionError String → Prop where
  | notListed (e : SelectionError) (outcome : Outcome) : Ends (.error e) outcome (.error e)
  | closed (candidates : List String) : Ends (.ok candidates) .finished (.error .inputClosed)
  | notRead (candidates : List String) (fault : Fault) : Ends (.ok candidates) (.failed fault) (.error (.console fault))
  | chosen {candidates : List String} {text answer : String} (h : Answers text answer) (hmem : answer ∈ candidates) :
      Ends (.ok candidates) (.line text) (.ok answer)

/-- A round that rejects an answer does not end the dialogue. -/
theorem Rejects.not_ends {listing : Except SelectionError (List String)} {outcome : Outcome} {answer : String}
    (h : Rejects listing outcome answer) (result : Except SelectionError String) : ¬ Ends listing outcome result := by
  obtain ⟨hrejected, hno⟩ := h
  intro hends
  cases hends with
  | chosen hanswer hmem =>
    rw [answers_iff] at hrejected hanswer
    exact hno (hrejected ▸ hanswer ▸ hmem)

namespace Question

variable {σ : Type} (q : Question) (catalogue : Catalogue σ) {sink : Sink}

/-- A round whose candidates cannot be listed shows nothing. -/
theorem openRound_of_error {state : σ} {e : SelectionError} (h : catalogue.list state = .error e) :
    q.openRound catalogue state sink = (.error e, sink) := by
  rw [openRound, h]

/-- A round begins with the candidates and the prompt. -/
theorem openRound_of_ok (hsink : sink.NeverFails) {state : σ} {candidates : List String}
    (h : catalogue.list state = .ok candidates) :
    q.openRound catalogue state sink = (.ok candidates, sink.after (q.opening candidates)) := by
  rw [openRound, h]
  simp only [hsink.print]

/-- What is read in a round ends the dialogue, or it is an answer that is rejected and noted. -/
theorem closeRound_cases (hsink : sink.NeverFails) (candidates : List String) (outcome : Outcome) :
    (∃ result, Ends (.ok candidates) outcome result ∧ q.closeRound candidates outcome sink = (some result, sink, [])) ∨
      ∃ answer, Rejects (.ok candidates) outcome answer ∧
        q.closeRound candidates outcome sink = (none, sink.after q.rejectionLine, [rejectedRecord answer]) := by
  cases outcome with
  | finished => exact Or.inl ⟨_, .closed candidates, rfl⟩
  | failed fault => exact Or.inl ⟨_, .notRead candidates fault, rfl⟩
  | line text =>
    have hanswer := (answers_iff text _).mpr rfl
    by_cases hmem : answerOf text ∈ candidates
    · refine Or.inl ⟨_, .chosen hanswer hmem, ?_⟩
      simp [closeRound, validate, hmem]
    · refine Or.inr ⟨_, .mk hanswer hmem, ?_⟩
      simp [closeRound, validate, hmem, hsink.write]

/-! ## All rounds -/

/-- What a round shows before it reads: its candidates and the prompt, or nothing if they cannot be listed. -/
def shown : Except SelectionError (List String) → String
  | .ok candidates => q.opening candidates
  | .error _ => ""

/-- What a dialogue prints that goes through the rounds `0..i`, each but the last with a rejected answer. -/
def transcript (L : Nat → Except SelectionError (List String)) (i : Nat) : String :=
  String.join ((List.range i).map fun r => q.shown (L r) ++ q.rejectionLine) ++ q.shown (L i)

/-- The transcript of a dialogue begins with its first round. -/
theorem transcript_succ (L : Nat → Except SelectionError (List String)) (i : Nat) :
    q.transcript L (i + 1) = q.shown (L 0) ++ q.rejectionLine ++ q.transcript (fun r => L (r + 1)) i := by
  rw [transcript, List.range_succ_eq_map, List.map_cons, List.map_map, String.join_cons, String.append_assoc]
  rfl

end Question

/-- How many lines the last round of a dialogue asks for: one, if its candidates were listed. -/
def linesRead : Except SelectionError (List String) → Nat
  | .ok _ => 1
  | .error _ => 0

/-- What is read in round `r`; behind its last reading the input stays at its end. -/
def readAt (input : List Reading) (r : Nat) : Outcome :=
  (input[r]?.map (·.outcome)).getD .finished

/-- A dialogue with the listings `L` that reads `read` round by round rejects some answers, one in each round, and ends in the
round behind them. -/
structure Course (L : Nat → Except SelectionError (List String)) (read : Nat → Outcome) (rejected : List String)
    (result : Except SelectionError String) : Prop where
  rejects : ∀ r answer, rejected[r]? = some answer → Rejects (L r) (read r) answer
  ends : Ends (L rejected.length) (read rejected.length) result

/-- A dialogue that ends in its first round. -/
theorem Course.nil {L : Nat → Except SelectionError (List String)} {read : Nat → Outcome} {result : Except SelectionError String}
    (h : Ends (L 0) (read 0) result) : Course L read [] result :=
  ⟨by simp, h⟩

/-- A dialogue goes on behind a rejected answer. -/
theorem Course.cons {L : Nat → Except SelectionError (List String)} {read : Nat → Outcome} {answer : String}
    {rejected : List String} {result : Except SelectionError String} (h : Rejects (L 0) (read 0) answer)
    (hrest : Course (fun r => L (r + 1)) (fun r => read (r + 1)) rejected result) : Course L read (answer :: rejected) result := by
  refine ⟨fun r answer' hanswer' => ?_, hrest.ends⟩
  cases r with
  | zero =>
    obtain rfl : answer = answer' := by simpa using hanswer'
    exact h
  | succ r => exact hrest.rejects r answer' (by simpa using hanswer')

namespace Question

variable {σ : Type} (q : Question) (catalogue : Catalogue σ)

/-- The dialogue of a question on an output that never fails, with the listings `L`, round by round. -/
theorem askFrom_course (input : List Reading) (rounds : Nat) (state : σ) (sink : Sink) (hsink : sink.NeverFails)
    (L : Nat → Except SelectionError (List String))
    (hL : ∀ r ≤ input.length, catalogue.list ((input.take r).foldl catalogue.advance state) = L r) :
    ∃ rejected result, Course L (readAt input) rejected result ∧
      q.askFrom catalogue rounds state sink input =
        ⟨result, rounds + rejected.length + 1, input.drop (rejected.length + linesRead (L rejected.length)),
          (input.take (rejected.length + linesRead (L rejected.length))).foldl catalogue.advance state,
          sink.after (q.transcript L rejected.length), rejected.map rejectedRecord⟩ := by
  induction input generalizing rounds state sink L with
  | nil =>
    have hlist : catalogue.list state = L 0 := hL 0 le_rfl
    cases hfirst : L 0 with
    | error e =>
      rw [hfirst] at hlist
      refine ⟨[], .error e, .nil (hfirst ▸ .notListed e _), ?_⟩
      simp [askFrom, q.openRound_of_error catalogue hlist, transcript, shown, hfirst, String.join_nil, Sink.after_empty]
    | ok candidates =>
      rw [hfirst] at hlist
      refine ⟨[], .error .inputClosed, .nil (hfirst ▸ .closed candidates), ?_⟩
      simp [askFrom, q.openRound_of_ok catalogue hsink hlist, transcript, shown, hfirst, String.join_nil]
  | cons reading rest ih =>
    have hlist : catalogue.list state = L 0 := hL 0 (Nat.zero_le _)
    cases hfirst : L 0 with
    | error e =>
      rw [hfirst] at hlist
      refine ⟨[], .error e, .nil (hfirst ▸ .notListed e _), ?_⟩
      simp [askFrom, q.openRound_of_error catalogue hlist, transcript, shown, hfirst, String.join_nil, Sink.after_empty,
        linesRead]
    | ok candidates =>
      rw [hfirst] at hlist
      have hopen := q.openRound_of_ok catalogue hsink hlist
      have hshown := hsink.after (q.opening candidates)
      rcases q.closeRound_cases hshown candidates reading.outcome with ⟨result, hends, hclose⟩ | ⟨answer, hrejects, hclose⟩
      · refine ⟨[], result, .nil (hfirst ▸ hends), ?_⟩
        simp [askFrom, hopen, hclose, transcript, shown, hfirst, String.join_nil, linesRead]
      · obtain ⟨rejected, result, hcourse, hask⟩ := ih (rounds + 1) (catalogue.advance state reading)
          ((sink.after (q.opening candidates)).after q.rejectionLine) (hshown.after _) (fun r => L (r + 1))
          fun r hr => hL (r + 1) (Nat.succ_le_succ hr)
        refine ⟨answer :: rejected, result, .cons (hfirst ▸ hrejects) hcourse, ?_⟩
        have hnumber : rejected.length + 1 + linesRead (L (rejected.length + 1)) =
            (rejected.length + linesRead (L (rejected.length + 1))) + 1 := by omega
        simp only [askFrom, hopen, hclose]
        rw [hask]
        simp only [List.length_cons, List.map_cons, q.transcript_succ, hfirst, shown, Sink.after_after, hnumber,
          List.drop_succ_cons, List.take_succ_cons, List.foldl_cons, List.singleton_append, String.append_assoc]
        congr 1
        omega

end Question

/-! ## Listings by rounds and lines of input -/

/-- The listings of the rounds of one dialogue, whatever is read in them. -/
def Catalogue.ofRounds (L : Nat → Except SelectionError (List String)) : Catalogue Nat :=
  ⟨L, fun round _ => round + 1⟩

/-- Behind so many readings so many rounds have gone by. -/
theorem Catalogue.foldl_advance_ofRounds (L : Nat → Except SelectionError (List String)) (readings : List Reading) :
    readings.foldl (ofRounds L).advance 0 = readings.length := by
  simp [ofRounds]

/-- What is read in round `r` of a dialogue that has some lines before it, one for each round. -/
def lineAt (ls : List (List UInt8)) (r : Nat) : Outcome :=
  (ls[r]?.map Outcome.ofBytes).getD .finished

/-- The lines of an input that are left behind so many. -/
def Script.linesAfter (script : Script) (consumed : Nat) : List (List UInt8) :=
  (Text.lines script.delivered).drop consumed

/-- An input without failures gives the lines of the delivered bytes, also behind those that were read before. -/
theorem readAt_drop_readings {script : Script} (h : script.failure? = none) (consumed : Nat) :
    readAt (script.readings.drop consumed) = lineAt (script.linesAfter consumed) := by
  funext r
  have hread : readAt (script.readings.drop consumed) r = ((outcomes script.readings)[consumed + r]?).getD .finished := by
    simp [readAt, outcomes]
  rw [hread, outcomes_of_unbroken script h, lineAt, Script.linesAfter, List.getElem?_drop]
  rcases Nat.lt_or_ge (consumed + r) (Text.lines script.delivered).length with hlt | hge
  · rw [List.getElem?_append_left (by simpa using hlt), List.getElem?_map]
  · rw [List.getElem?_append_right (by simpa using hge), List.getElem?_eq_none hge, List.length_map]
    cases consumed + r - (Text.lines script.delivered).length with
    | zero => rfl
    | succ n => rfl

/-- Before the round in which a dialogue ends no round would have ended it. -/
theorem Course.not_ends_before {L : Nat → Except SelectionError (List String)} {read : Nat → Outcome} {rejected : List String}
    {result : Except SelectionError String} (h : Course L read rejected result) :
    ∀ r < rejected.length, ∀ result', ¬ Ends (L r) (read r) result' := by
  intro r hr
  exact (h.rejects r rejected[r] (List.getElem?_eq_getElem hr)).not_ends

/-- Each rejected answer is a line of its own. -/
theorem Course.length_rejected_le {L : Nat → Except SelectionError (List String)} {ls : List (List UInt8)}
    {rejected : List String} {result : Except SelectionError String} (h : Course L (lineAt ls) rejected result) :
    rejected.length ≤ ls.length := by
  rcases Nat.lt_or_ge ls.length rejected.length with hlt | hle
  · obtain ⟨answer, hanswer⟩ : ∃ answer, rejected[ls.length]? = some answer := ⟨_, List.getElem?_eq_getElem hlt⟩
    have hrejects := h.rejects ls.length answer hanswer
    rw [show lineAt ls ls.length = .finished by simp [lineAt]] at hrejects
    exact absurd hrejects (by generalize L ls.length = listing; exact nofun)
  · exact hle

/-- A question with the listings `L`, on an output that never fails and an input without failures of which some lines were read
before, is asked for at most one round more than there are lines left. It rejects the answers of its first rounds and ends in the
first round that has no listing, no line, a line that is no text, or a candidate of its own listing as the answer. What it prints,
what it leaves of the input and what it notes are given by these rounds. -/
theorem question_ends_in_first_deciding_round (q : Question) (L : Nat → Except SelectionError (List String)) (script : Script)
    (consumed : Nat) (sink : Sink) (hscript : script.failure? = none) (hsink : sink.NeverFails) :
    ∃ rejected result round, Course L (lineAt (script.linesAfter consumed)) rejected result ∧
      (∀ r < rejected.length, ∀ result', ¬ Ends (L r) (lineAt (script.linesAfter consumed) r) result') ∧
      rejected.length ≤ (script.linesAfter consumed).length ∧
      q.ask (.ofRounds L) 0 sink (script.readings.drop consumed) =
        ⟨result, rejected.length + 1, script.readings.drop (consumed + rejected.length + linesRead (L rejected.length)), round,
          sink.after (q.transcript L rejected.length), rejected.map Question.rejectedRecord⟩ := by
  obtain ⟨rejected, result, hcourse, hask⟩ := q.askFrom_course (.ofRounds L) (script.readings.drop consumed) 0 0 sink hsink L <| by
    intro r hr
    rw [Catalogue.foldl_advance_ofRounds, List.length_take_of_le hr]
    rfl
  rw [readAt_drop_readings hscript] at hcourse
  rw [List.drop_drop, Nat.zero_add, ← Nat.add_assoc] at hask
  exact ⟨rejected, result, _, hcourse, hcourse.not_ends_before, hcourse.length_rejected_le, hask⟩

/-- The candidates change after the first round, and the second answer is cut inside its terminator: it is accepted, and the
third line is not read. -/
theorem second_answer_in_second_listing :
    ∃ rejected, Course (fun r => if r = 0 then .ok ["a"] else .ok ["b"])
        (lineAt [Text.utf8 "b\n", Text.utf8 "b\r\n", Text.utf8 "c"]) rejected (.ok "b") ∧ rejected.length = 1 ∧
      ((Question.mk (some "h") "p" "no").ask (.ofRounds fun r => if r = 0 then .ok ["a"] else .ok ["b"]) 0 .unlimited
          (Script.readings [.bytes (Text.utf8 "b\nb\r"), .interruption, .bytes (Text.utf8 "\nc")])).sink =
        Sink.unlimited.after "h\n['a']\npno\nh\n['b']\np" ∧
      ((Question.mk (some "h") "p" "no").ask (.ofRounds fun r => if r = 0 then .ok ["a"] else .ok ["b"]) 0 .unlimited
          (Script.readings [.bytes (Text.utf8 "b\nb\r"), .interruption, .bytes (Text.utf8 "\nc")])).input =
        [⟨.line "c", []⟩, ⟨.finished, []⟩] := by
  obtain ⟨rejected, result, round, hcourse, -, -, hask⟩ := question_ends_in_first_deciding_round ⟨some "h", "p", "no"⟩
    (fun r => if r = 0 then .ok ["a"] else .ok ["b"]) [.bytes (Text.utf8 "b\nb\r"), .interruption, .bytes (Text.utf8 "\nc")] 0
    .unlimited rfl ⟨rfl, rfl⟩
  rw [List.drop_zero] at hask
  have hresult : result = .ok "b" := (congrArg Dialogue.outcome hask).symm.trans (by decide +kernel)
  have hrounds : rejected.length + 1 = 2 := (congrArg Dialogue.rounds hask).symm.trans (by decide +kernel)
  obtain rfl := hresult
  refine ⟨rejected, hcourse, by omega, ?_, ?_⟩
  · decide +kernel
  · decide +kernel

end StreamCharts
