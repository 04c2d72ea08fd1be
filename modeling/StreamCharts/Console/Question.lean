import StreamCharts.Console.Sink
import StreamCharts.Input.Reading
import StreamCharts.Journal.Record
import StreamCharts.Text.Quoted

/-!
# Questions

A question is asked until the answer is one of the candidates, which are listed anew in each round. Main definitions: `Question`,
`SelectionError`, `validate`, the two halves of a round, `Question.openRound` and `Question.closeRound`, `Question.ask`, the
dialogue of one question, and `dialogues`, those of several.
-/

namespace StreamCharts

/-- Why no selection was made. -/
inductive SelectionError where
  /-- An answer is none of the candidates. -/
  | notFound (input : String)
  /-- The input ended before a valid answer. -/
  | inputClosed
  /-- The candidates could not be listed. -/
  | notListed (directory : String) (cause : Fault)
  /-- The console could not be read or written. -/
  | console (cause : Fault)
deriving DecidableEq

namespace SelectionError

/-- The text by which an error is reported. -/
def message : SelectionError → String
  | .notFound input => Text.quoted input ++ " is not one of the available entries"
  | .inputClosed => "input closed before a valid selection was made"
  | .notListed directory _ => "failed to list " ++ directory
  | .console cause => "console I/O failed: " ++ cause.message

/-- The fault that caused an error, if one did. -/
def cause? : SelectionError → Option Fault
  | .notListed _ cause => some cause
  | .console cause => some cause
  | .notFound _ => none
  | .inputClosed => none

/-- The messages of an error and of its cause. -/
def chain (e : SelectionError) : String :=
  match e.cause? with
  | some cause => e.message ++ ": " ++ cause.message
  | none => e.message

end SelectionError

/-- The candidate that an answer names exactly. -/
def validate (input : String) (candidates : List String) : Except SelectionError String :=
  if candidates.contains input then .ok input else .error (.notFound input)

/-- Candidates as they are shown: in brackets, each between single quotes. -/
def formatCandidates (candidates : List String) : String :=
  "[" ++ String.intercalate ", " (candidates.map fun candidate => "'" ++ candidate ++ "'") ++ "]"

/-- The answer in a line: the line without the newline that ends it, and without one carriage return before that. -/
def answerOf (line : String) : String :=
  let chars := line.toList
  if chars.getLast? = some '\n' then
    let rest := chars.dropLast
    if rest.getLast? = some '\r' then String.ofList rest.dropLast else String.ofList rest
  else line

/-- The words of a question. -/
structure Question where
  /-- A line before the candidates. -/
  heading? : Option String
  /-- What stands right before the answer. -/
  prompt : String
  /-- The line after an answer that is no candidate. -/
  rejection : String
deriving DecidableEq

/-- How candidates are listed from round to round: the listing in a state of the world, and the state behind a reading. -/
structure Catalogue (σ : Type) where
  list : σ → Except SelectionError (List String)
  advance : σ → Reading → σ

/-- How the dialogue of a question ended: the selection or why there is none, how often the candidates were listed, what is left
of the input, the state of the world, the output, and the notes on the way. -/
structure Dialogue (σ : Type) where
  outcome : Except SelectionError String
  rounds : Nat
  input : List Reading
  state : σ
  sink : Sink
  journal : Journal

namespace Question

/-- What is shown at the start of a round. -/
def opening (q : Question) (candidates : List String) : String :=
  let heading := match q.heading? with
    | some heading => heading ++ "\n"
    | none => ""
  heading ++ formatCandidates candidates ++ "\n" ++ q.prompt

/-- What is shown after an answer that is no candidate. -/
def rejectionLine (q : Question) : String :=
  q.rejection ++ "\n"

/-- The note on an answer that is no candidate. -/
def rejectedRecord (input : String) : Record :=
  ⟨.debug, .prompt, "Rejected selection " ++ Text.quoted input⟩

/-- Begins a round: lists the candidates, shows them and hands on the prompt. -/
def openRound {σ : Type} (q : Question) (catalogue : Catalogue σ) (state : σ) (sink : Sink) :
    Except SelectionError (List String) × Sink :=
  match catalogue.list state with
  | .error e => (.error e, sink)
  | .ok candidates =>
    match sink.print (q.opening candidates) with
    | (.error fault, sink) => (.error (.console fault), sink)
    | (.ok (), sink) => (.ok candidates, sink)

/-- Ends a round by what was read: the outcome of the dialogue, or none if the question is to be asked again. -/
def closeRound (q : Question) (candidates : List String) (outcome : Outcome) (sink : Sink) :
    Option (Except SelectionError String) × Sink × Journal :=
  match outcome with
  | .finished => (some (.error .inputClosed), sink, [])
  | .failed fault => (some (.error (.console fault)), sink, [])
  | .line text =>
    let answer := answerOf text
    match validate answer candidates with
    | .ok choice => (some (.ok choice), sink, [])
    | .error _ =>
      match sink.write q.rejectionLine with
      | (.error fault, sink) => (some (.error (.console fault)), sink, [rejectedRecord answer])
      | (.ok (), sink) => (none, sink, [rejectedRecord answer])

/-- Asks until the answer is one of the candidates listed in its round; only that ends the dialogue with a selection. Without one
it ends when the listing fails, when the console fails, or with the input. -/
def askFrom {σ : Type} (q : Question) (catalogue : Catalogue σ) (rounds : Nat) (state : σ) (sink : Sink) :
    List Reading → Dialogue σ
  | [] =>
    match q.openRound catalogue state sink with
    | (.error e, sink) => ⟨.error e, rounds + 1, [], state, sink, []⟩
    | (.ok _, sink) => ⟨.error .inputClosed, rounds + 1, [], state, sink, []⟩
  | reading :: rest =>
    match q.openRound catalogue state sink with
    | (.error e, sink) => ⟨.error e, rounds + 1, reading :: rest, state, sink, []⟩
    | (.ok candidates, sink) =>
      let state := catalogue.advance state reading
      match q.closeRound candidates reading.outcome sink with
      | (some outcome, sink, journal) => ⟨outcome, rounds + 1, rest, state, sink, journal⟩
      | (none, sink, journal) =>
        let dialogue := askFrom q catalogue (rounds + 1) state sink rest
        { dialogue with journal := journal ++ dialogue.journal }

/-- The dialogue of a question. -/
def ask {σ : Type} (q : Question) (catalogue : Catalogue σ) (state : σ) (sink : Sink) (input : List Reading) : Dialogue σ :=
  q.askFrom catalogue 0 state sink input

end Question

/-- A question with the way in which its candidates are listed. -/
structure Inquiry (σ : Type) where
  question : Question
  catalogue : Catalogue σ
  state : σ

/-- The dialogues of questions that are asked one after another at one console: each goes on with the input and the output that
the one before it left. -/
def dialogues {σ : Type} (sink : Sink) (input : List Reading) : List (Inquiry σ) → List (Dialogue σ)
  | [] => []
  | inquiry :: inquiries =>
    let dialogue := inquiry.question.ask inquiry.catalogue inquiry.state sink input
    dialogue :: dialogues dialogue.sink dialogue.input inquiries

end StreamCharts
