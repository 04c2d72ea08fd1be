import StreamCharts.Proofs.Console.Dialogue

/-!
# Outputs with room for so many bytes

Dialogues on an output that takes only so many bytes, against the same dialogues on one without limits. A dialogue goes on as
long as what it writes fits; the first write that does not fit ends it, and all dialogues behind it end with their first write.
So the limited output holds the beginning of the transcript (`limited_output_holds_start_of_transcript`). Where a transcript
outruns the output is said by `Question.OutrunBy`: before which answer the first byte without room is shown.
-/

namespace StreamCharts

namespace Sink

/-- An empty output with room for so many bytes. -/
def limited (limit : Nat) : Sink :=
  ⟨[], some limit, none⟩

/-- The output with room for so many bytes to which the same was written. -/
def cut (limit : Nat) (sink : Sink) : Sink :=
  ⟨sink.written.take limit, some (limit - sink.written.length), none⟩

/-- Before anything is written. -/
theorem cut_unlimited (limit : Nat) : unlimited.cut limit = limited limit := by
  simp [cut, unlimited, limited]

/-- How much was written behind a text. -/
theorem length_written_after (sink : Sink) (text : String) :
    (sink.after text).written.length = sink.written.length + (Text.utf8 text).length := by
  simp [Sink.after]

/-- Behind its limit an output takes nothing more. -/
theorem cut_after_of_le {limit : Nat} {sink : Sink} (h : limit ≤ sink.written.length) (text : String) :
    (sink.after text).cut limit = sink.cut limit := by
  have hroom : limit - (sink.written.length + (Text.utf8 text).length) = 0 := by omega
  have hfull : limit - sink.written.length = 0 := by omega
  simp [cut, Sink.after, List.take_append, hroom, hfull]

/-- A text that is not empty is written as far as it fits, and fails unless it fits as a whole. -/
theorem write_cut (limit : Nat) (sink : Sink) {text : String} (h : text ≠ "") :
    (sink.cut limit).write text =
      (if (sink.after text).written.length ≤ limit then .ok () else .error .outputFull, (sink.after text).cut limit) := by
  have hpos : 0 < (Text.utf8 text).length := by
    simpa [Text.utf8, List.length_pos_iff, Nat.pos_iff_ne_zero] using h
  have hfits : (Text.utf8 text).length ≤ limit - sink.written.length ↔ (sink.after text).written.length ≤ limit := by
    rw [length_written_after]
    omega
  simp only [write, writeBytes, cut, hfits, Sink.after, List.take_append, List.length_append, Nat.sub_add_eq]

/-- A text that is not empty is printed as it is written: to hand it on does not fail. -/
theorem print_cut (limit : Nat) (sink : Sink) {text : String} (h : text ≠ "") :
    (sink.cut limit).print text =
      (if (sink.after text).written.length ≤ limit then .ok () else .error .outputFull, (sink.after text).cut limit) := by
  rw [print, write_cut limit sink h]
  split_ifs
  · rfl
  · rfl

end Sink

/-! ## Where a transcript outruns its output -/

/-- The listings of the rounds of a dialogue, one behind each reading. -/
def Catalogue.listings {σ : Type} (catalogue : Catalogue σ) (state : σ) (input : List Reading) (r : Nat) :
    Except SelectionError (List String) :=
  catalogue.list ((input.take r).foldl catalogue.advance state)

/-- Candidates can be listed, whatever is read before. -/
def Catalogue.AlwaysLists {σ : Type} (catalogue : Catalogue σ) (state : σ) : Prop :=
  ∀ readings : List Reading, ∃ candidates, catalogue.list (readings.foldl catalogue.advance state) = .ok candidates

/-- There are candidates in the first round. -/
theorem Catalogue.AlwaysLists.list {σ : Type} {catalogue : Catalogue σ} {state : σ} (h : catalogue.AlwaysLists state) :
    ∃ candidates, catalogue.list state = .ok candidates :=
  h []

/-- There are candidates behind a reading. -/
theorem Catalogue.AlwaysLists.behind {σ : Type} {catalogue : Catalogue σ} {state : σ} (h : catalogue.AlwaysLists state)
    (reading : Reading) : catalogue.AlwaysLists (catalogue.advance state reading) :=
  fun readings => h (reading :: readings)

/-- A dialogue as it goes on an output with room for so many bytes on which everything fits. -/
def Dialogue.cut {σ : Type} (limit : Nat) (dialogue : Dialogue σ) : Dialogue σ :=
  { dialogue with sink := dialogue.sink.cut limit }

/-- A dialogue that is broken off by its output, against the same dialogue without limits: it fails with the fault of the
output, which is full, and goes on with the input behind the answers it has read. -/
structure Dialogue.BrokenOff {σ : Type} (limit : Nat) (input : List Reading) (answers : Nat) (free limited : Dialogue σ) :
    Prop where
  exceeds : limit < free.sink.written.length
  outcome : limited.outcome = .error (.console .outputFull)
  sink : limited.sink = free.sink.cut limit
  input : limited.input = input.drop answers

/-- The transcript of a dialogue that begins behind `start` bytes outruns the limit when `answers` answers are read: what is
shown before each of these fits, and what is shown before the next one does not. -/
structure Question.OutrunsAt (q : Question) (L : Nat → Except SelectionError (List String)) (start limit answers : Nat) :
    Prop where
  fits : ∀ r < answers, start + (Text.utf8 (q.transcript L r)).length ≤ limit
  exceeds : limit < start + (Text.utf8 (q.transcript L answers)).length

namespace Question

variable {σ : Type} {q : Question} {catalogue : Catalogue σ} {limit : Nat} {sink : Sink}

/-- How much is shown up to the second answer of a dialogue, or to a later one. -/
theorem length_transcript_succ (L : Nat → Except SelectionError (List String)) (i : Nat) :
    (Text.utf8 (q.transcript L (i + 1))).length = (Text.utf8 (q.shown (L 0))).length + (Text.utf8 q.rejectionLine).length +
      (Text.utf8 (q.transcript (fun r => L (r + 1)) i)).length := by
  rw [transcript_succ]
  simp [Text.utf8, String.toByteArray_append, Nat.add_assoc]

/-- What is shown before the first answer of a dialogue. -/
theorem transcript_zero (L : Nat → Except SelectionError (List String)) : q.transcript L 0 = q.shown (L 0) := by
  simp [transcript, String.join_nil]

/-- A transcript outruns the limit before the first answer. -/
theorem OutrunsAt.zero {L : Nat → Except SelectionError (List String)} {start : Nat}
    (h : limit < start + (Text.utf8 (q.shown (L 0))).length) : q.OutrunsAt L start limit 0 :=
  ⟨nofun, by rwa [transcript_zero]⟩

/-- A transcript outruns the limit behind its first round. -/
theorem OutrunsAt.succ {L : Nat → Except SelectionError (List String)} {start answers : Nat}
    (hfirst : start + (Text.utf8 (q.shown (L 0))).length ≤ limit)
    (h : q.OutrunsAt (fun r => L (r + 1))
      (start + (Text.utf8 (q.shown (L 0))).length + (Text.utf8 q.rejectionLine).length) limit answers) :
    q.OutrunsAt L start limit (answers + 1) := by
  refine ⟨fun r hr => ?_, ?_⟩
  · cases r with
    | zero => rwa [transcript_zero]
    | succ r =>
      have hfits := h.fits r (Nat.lt_of_succ_lt_succ hr)
      rw [length_transcript_succ]
      omega
  · have hexceeds := h.exceeds
    rw [length_transcript_succ]
    omega

/-! ## One round -/

/-- A round shows something. -/
theorem opening_ne_empty (q : Question) (candidates : List String) : q.opening candidates ≠ "" := by
  intro h
  have hchars := congrArg String.toList h
  simp [opening, String.toList_append] at hchars

/-- A rejection shows something. -/
theorem rejectionLine_ne_empty (q : Question) : q.rejectionLine ≠ "" := by
  intro h
  have hchars := congrArg String.toList h
  simp [rejectionLine, String.toList_append] at hchars

/-- A round begins if what it shows fits. -/
theorem openRound_cut (limit : Nat) (sink : Sink) {state : σ} {candidates : List String}
    (h : catalogue.list state = .ok candidates) :
    q.openRound catalogue state (sink.cut limit) =
      (if (sink.after (q.opening candidates)).written.length ≤ limit then .ok candidates
        else .error (.console .outputFull), (sink.after (q.opening candidates)).cut limit) := by
  rw [openRound, h]
  simp only [Sink.print_cut limit sink (q.opening_ne_empty candidates)]
  split_ifs
  · rfl
  · rfl

/-- What ends a dialogue is not looked for in the output. -/
theorem closeRound_of_ends {candidates : List String} {outcome : Outcome} {result : Except SelectionError String}
    (h : Ends (.ok candidates) outcome result) (sink : Sink) :
    q.closeRound candidates outcome sink = (some result, sink, []) := by
  cases h with
  | closed => rfl
  | notRead => rfl
  | chosen h hmem =>
    rw [answers_iff] at h
    subst h
    simp [closeRound, validate, hmem]

/-- A rejected answer ends a dialogue if its rejection does not fit. -/
theorem closeRound_cut_of_rejects (limit : Nat) (sink : Sink) {candidates : List String} {outcome : Outcome} {answer : String}
    (h : Rejects (.ok candidates) outcome answer) :
    q.closeRound candidates outcome (sink.cut limit) =
      (if (sink.after q.rejectionLine).written.length ≤ limit then none else some (.error (.console .outputFull)),
        (sink.after q.rejectionLine).cut limit, [rejectedRecord answer]) := by
  obtain ⟨h, hno⟩ := h
  rw [answers_iff] at h
  subst h
  simp only [closeRound, validate, List.contains_eq_mem, decide_eq_true_eq, if_neg hno,
    Sink.write_cut limit sink q.rejectionLine_ne_empty]
  split_ifs
  · rfl
  · rfl

/-! ## One dialogue -/

/-- What the first round of a dialogue shows before its answer. -/
theorem shown_listings_zero {state : σ} {candidates : List String} (hlist : catalogue.list state = .ok candidates)
    (input : List Reading) : q.shown (catalogue.listings state input 0) = q.opening candidates := by
  rw [show catalogue.listings state input 0 = catalogue.list state from rfl, hlist, shown]

/-- On an output that never fails a dialogue goes through a round, and adds what it shows there and later to what was written.
-/
theorem exists_sink_askFrom {state : σ} {candidates : List String} (hlist : catalogue.list state = .ok candidates)
    (hsink : sink.NeverFails) (rounds : Nat) (input : List Reading) :
    rounds < (q.askFrom catalogue rounds state sink input).rounds ∧
      ∃ text, (q.askFrom catalogue rounds state sink input).sink = (sink.after (q.opening candidates)).after text := by
  obtain ⟨rejected, result, -, hask⟩ :=
    q.askFrom_course catalogue input rounds state sink hsink (catalogue.listings state input) fun _ _ => rfl
  have hshown := shown_listings_zero (q := q) hlist input
  rw [hask]
  refine ⟨by dsimp only; omega, ?_⟩
  cases rejected.length with
  | zero => exact ⟨"", by rw [transcript_zero, hshown, Sink.after_empty]⟩
  | succ i => exact ⟨_, by rw [transcript_succ, hshown, String.append_assoc, ← Sink.after_after]⟩

section Steps

variable {state : σ} {sink₁ sink₂ : Sink} {candidates : List String} {journal : Journal}

/-- A dialogue whose round cannot begin ends there. -/
theorem askFrom_of_not_open {e : SelectionError} (hopen : q.openRound catalogue state sink = (.error e, sink₁)) (rounds : Nat)
    (input : List Reading) : q.askFrom catalogue rounds state sink input = ⟨.error e, rounds + 1, input, state, sink₁, []⟩ := by
  cases input with
  | nil => rw [askFrom, hopen]
  | cons reading rest => rw [askFrom, hopen]

/-- A dialogue whose round begins where the input has ended. -/
theorem askFrom_nil_of_open (hopen : q.openRound catalogue state sink = (.ok candidates, sink₁)) (rounds : Nat) :
    q.askFrom catalogue rounds state sink [] = ⟨.error .inputClosed, rounds + 1, [], state, sink₁, []⟩ := by
  rw [askFrom, hopen]

/-- A dialogue whose round ends it. -/
theorem askFrom_cons_of_close {reading : Reading} {result : Except SelectionError String}
    (hopen : q.openRound catalogue state sink = (.ok candidates, sink₁))
    (hclose : q.closeRound candidates reading.outcome sink₁ = (some result, sink₂, journal)) (rounds : Nat)
    (rest : List Reading) : q.askFrom catalogue rounds state sink (reading :: rest) =
      ⟨result, rounds + 1, rest, catalogue.advance state reading, sink₂, journal⟩ := by
  simp only [askFrom, hopen, hclose]

/-- A dialogue whose round goes over into another. -/
theorem askFrom_cons_of_not_close {reading : Reading}
    (hopen : q.openRound catalogue state sink = (.ok candidates, sink₁))
    (hclose : q.closeRound candidates reading.outcome sink₁ = (none, sink₂, journal)) (rounds : Nat)
    (rest : List Reading) : q.askFrom catalogue rounds state sink (reading :: rest) =
      { q.askFrom catalogue (rounds + 1) (catalogue.advance state reading) sink₂ rest with
        journal := journal ++ (q.askFrom catalogue (rounds + 1) (catalogue.advance state reading) sink₂ rest).journal } := by
  simp only [askFrom, hopen, hclose]

end Steps

/-- A dialogue is broken off before its first answer if what its first round shows does not fit. -/
theorem brokenOff_of_opening {state : σ} {candidates : List String} (hlist : catalogue.list state = .ok candidates)
    (hsink : sink.NeverFails) (hlong : limit < (sink.after (q.opening candidates)).written.length) (rounds : Nat)
    (input : List Reading) :
    q.OutrunsAt (catalogue.listings state input) sink.written.length limit 0 ∧
      (q.askFrom catalogue rounds state sink input).BrokenOff limit input 0
        (q.askFrom catalogue rounds state (sink.cut limit) input) := by
  obtain ⟨-, text, htext⟩ := exists_sink_askFrom (q := q) hlist hsink rounds input
  have hopen := q.openRound_cut limit sink hlist
  rw [if_neg (Nat.not_le.mpr hlong)] at hopen
  refine ⟨.zero ?_, ?_⟩
  · rw [Sink.length_written_after] at hlong
    rwa [shown_listings_zero hlist]
  · rw [askFrom_of_not_open hopen]
    refine ⟨?_, rfl, ?_, rfl⟩
    · rw [htext, Sink.length_written_after]
      omega
    · rw [htext, Sink.cut_after_of_le hlong.le]

/-- On a limited output a dialogue goes as without limits if its transcript fits. Otherwise it is broken off by the first write
that does not fit, and the answers that were read by then are consumed. -/
theorem askFrom_cut (limit : Nat) {state : σ} (hlisted : catalogue.AlwaysLists state) (hsink : sink.NeverFails) (rounds : Nat)
    (input : List Reading) :
    ((q.askFrom catalogue rounds state sink input).sink.written.length ≤ limit ∧
        q.askFrom catalogue rounds state (sink.cut limit) input =
          (q.askFrom catalogue rounds state sink input).cut limit) ∨
      ∃ answers, rounds + answers < (q.askFrom catalogue rounds state sink input).rounds ∧
        q.OutrunsAt (catalogue.listings state input) sink.written.length limit answers ∧
        (q.askFrom catalogue rounds state sink input).BrokenOff limit input answers
          (q.askFrom catalogue rounds state (sink.cut limit) input) := by
  induction input generalizing rounds state sink with
  | nil =>
    obtain ⟨candidates, hlist⟩ := hlisted.list
    rcases Nat.lt_or_ge limit (sink.after (q.opening candidates)).written.length with hlong | hfits
    · exact Or.inr ⟨0, (exists_sink_askFrom hlist hsink rounds []).1, brokenOff_of_opening hlist hsink hlong rounds []⟩
    · have hopen := q.openRound_cut limit sink hlist
      rw [if_pos hfits] at hopen
      rw [askFrom_nil_of_open hopen, askFrom_nil_of_open (q.openRound_of_ok catalogue hsink hlist)]
      exact Or.inl ⟨hfits, rfl⟩
  | cons reading rest ih =>
    obtain ⟨candidates, hlist⟩ := hlisted.list
    rcases Nat.lt_or_ge limit (sink.after (q.opening candidates)).written.length with hlong | hfits
    · exact Or.inr ⟨0, (exists_sink_askFrom hlist hsink rounds _).1, brokenOff_of_opening hlist hsink hlong rounds _⟩
    have hopen := q.openRound_cut limit sink hlist
    rw [if_pos hfits] at hopen
    have hfree := q.openRound_of_ok catalogue hsink hlist
    have hshown := hsink.after (q.opening candidates)
    rcases q.closeRound_cases hshown candidates reading.outcome with ⟨result, hends, hclose⟩ | ⟨answer, hrejects, hclose⟩
    · rw [askFrom_cons_of_close hopen (closeRound_of_ends hends _), askFrom_cons_of_close hfree hclose]
      exact Or.inl ⟨hfits, rfl⟩
    · have hclose' := q.closeRound_cut_of_rejects limit (sink.after (q.opening candidates)) hrejects
      have hnext := ih (hlisted.behind reading) (hshown.after q.rejectionLine) (rounds + 1)
      rw [askFrom_cons_of_not_close hfree hclose]
      have hshownFirst : sink.written.length + (Text.utf8 (q.shown (catalogue.listings state (reading :: rest) 0))).length =
          (sink.after (q.opening candidates)).written.length := by
        rw [shown_listings_zero hlist, Sink.length_written_after]
      have hstart := Sink.length_written_after (sink.after (q.opening candidates)) q.rejectionLine
      split_ifs at hclose' with hrejection
      · rw [askFrom_cons_of_not_close hopen hclose']
        rcases hnext with ⟨hle, hsame⟩ | ⟨answers, hlt, houtruns, hbroken⟩
        · exact Or.inl ⟨hle, by rw [hsame]; rfl⟩
        · refine Or.inr ⟨answers + 1, by dsimp only; omega, .succ (hshownFirst.trans_le hfits) ?_, ?_⟩
          · rw [hshownFirst, ← hstart]
            exact houtruns
          · exact ⟨hbroken.exceeds, hbroken.outcome, hbroken.sink, hbroken.input⟩
      · obtain ⟨candidates', hlist'⟩ := (hlisted.behind reading).list
        obtain ⟨hrounds, text, htext⟩ :=
          exists_sink_askFrom (q := q) hlist' (hshown.after q.rejectionLine) (rounds + 1) rest
        rw [Sink.after_after _ (q.opening candidates') text] at htext
        rw [askFrom_cons_of_close hopen hclose']
        refine Or.inr ⟨1, hrounds, .succ (hshownFirst.trans_le hfits) (.zero ?_), ?_, rfl, ?_, rfl⟩
        · omega
        · dsimp only
          rw [htext, Sink.length_written_after]
          omega
        · dsimp only
          rw [htext, Sink.cut_after_of_le (Nat.le_of_not_le hrejection)]

end Question

/-! ## Several dialogues -/

section Dialogues

variable {σ : Type}

/-- The output behind dialogues: that of the last one, or the given one if there are none. -/
def sinkBehind (sink : Sink) (ds : List (Dialogue σ)) : Sink :=
  ds.foldl (fun _ dialogue => dialogue.sink) sink

/-- The input behind dialogues: that of the last one, or the given one if there are none. -/
def inputBehind (input : List Reading) (ds : List (Dialogue σ)) : List Reading :=
  ds.foldl (fun _ dialogue => dialogue.input) input

/-- The output behind a dialogue and others. -/
theorem sinkBehind_cons (sink : Sink) (dialogue : Dialogue σ) (ds : List (Dialogue σ)) :
    sinkBehind sink (dialogue :: ds) = sinkBehind dialogue.sink ds :=
  rfl

/-- The candidates of an inquiry can be listed, whatever is read before. -/
def Inquiry.AlwaysLists (inquiry : Inquiry σ) : Prop :=
  inquiry.catalogue.AlwaysLists inquiry.state

/-- Dialogues outrun a limit in an inquiry when `answers` answers to it are read: what was written before the inquiry fits, and
in its dialogue the byte behind the limit is written. -/
structure OutrunIn (limit : Nat) (sink : Sink) (input : List Reading) (before : List (Inquiry σ)) (inquiry : Inquiry σ)
    (answers : Nat) : Prop where
  fits : (sinkBehind sink (dialogues sink input before)).written.length ≤ limit
  exceeds : limit < (sinkBehind sink (dialogues sink input (before ++ [inquiry]))).written.length
  outruns : inquiry.question.OutrunsAt
    (inquiry.catalogue.listings inquiry.state (inputBehind input (dialogues sink input before)))
    (sinkBehind sink (dialogues sink input before)).written.length limit answers

variable {limit : Nat} {sink : Sink} {input : List Reading} {inquiries : List (Inquiry σ)}

/-- On an output that never fails a dialogue only adds to what was written. -/
theorem Inquiry.AlwaysLists.exists_sink {inquiry : Inquiry σ} (h : inquiry.AlwaysLists) (hsink : sink.NeverFails)
    (input : List Reading) :
    ∃ text, (inquiry.question.ask inquiry.catalogue inquiry.state sink input).sink = sink.after text := by
  obtain ⟨candidates, hlist⟩ := h.list
  obtain ⟨-, text, htext⟩ := Question.exists_sink_askFrom (q := inquiry.question) hlist hsink 0 input
  exact ⟨inquiry.question.opening candidates ++ text, by rw [Question.ask, htext, Sink.after_after]⟩

/-- On an output that never fails dialogues only add to what was written. -/
theorem exists_sinkBehind_eq (hlisted : ∀ inquiry ∈ inquiries, inquiry.AlwaysLists) (hsink : sink.NeverFails)
    (input : List Reading) : ∃ text, sinkBehind sink (dialogues sink input inquiries) = sink.after text := by
  induction inquiries generalizing sink input with
  | nil => exact ⟨"", sink.after_empty.symm⟩
  | cons inquiry rest ih =>
    obtain ⟨hfirst, hrest⟩ := List.forall_mem_cons.mp hlisted
    obtain ⟨text, htext⟩ := hfirst.exists_sink hsink input
    obtain ⟨later, hlater⟩ := ih hrest (htext ▸ hsink.after text)
      (inquiry.question.ask inquiry.catalogue inquiry.state sink input).input
    refine ⟨text ++ later, ?_⟩
    rw [← Sink.after_after, ← htext, ← hlater]
    rfl

/-- On an output that is full a dialogue fails with its first write, and nothing is read. -/
theorem Inquiry.AlwaysLists.ask_of_full {inquiry : Inquiry σ} (h : inquiry.AlwaysLists) (hsink : sink.NeverFails)
    (hfull : limit < sink.written.length) (input : List Reading) :
    (inquiry.question.ask inquiry.catalogue inquiry.state (sink.cut limit) input).outcome = .error (.console .outputFull) ∧
      (inquiry.question.ask inquiry.catalogue inquiry.state (sink.cut limit) input).input = input ∧
      (inquiry.question.ask inquiry.catalogue inquiry.state (sink.cut limit) input).sink = sink.cut limit := by
  obtain ⟨text, htext⟩ := h.exists_sink hsink input
  rw [Question.ask] at htext
  rcases Question.askFrom_cut (q := inquiry.question) limit h hsink 0 input with
    ⟨hfits, -⟩ | ⟨answers, -, houtruns, hbroken⟩
  · rw [htext, Sink.length_written_after] at hfits
    omega
  · have hnone : answers = 0 := by
      by_contra hpos
      have hfits := houtruns.fits 0 (Nat.pos_of_ne_zero hpos)
      omega
    subst hnone
    exact ⟨hbroken.outcome, hbroken.input, by rw [Question.ask, hbroken.sink, htext, Sink.cut_after_of_le hfull.le]⟩

/-- On an output that is full each dialogue fails with its first write, and nothing is read. -/
theorem dialogues_of_full (hlisted : ∀ inquiry ∈ inquiries, inquiry.AlwaysLists) (hsink : sink.NeverFails)
    (hfull : limit < sink.written.length) (input : List Reading) :
    (dialogues (sink.cut limit) input inquiries).length = inquiries.length ∧
      sinkBehind (sink.cut limit) (dialogues (sink.cut limit) input inquiries) = sink.cut limit ∧
      ∀ dialogue ∈ dialogues (sink.cut limit) input inquiries,
        dialogue.outcome = .error (.console .outputFull) ∧ dialogue.input = input := by
  induction inquiries with
  | nil => exact ⟨rfl, rfl, nofun⟩
  | cons inquiry rest ih =>
    obtain ⟨hfirst, hrest⟩ := List.forall_mem_cons.mp hlisted
    obtain ⟨houtcome, hinput, hsame⟩ := hfirst.ask_of_full hsink hfull input
    obtain ⟨hlength, hbehind, hall⟩ := ih hrest
    rw [dialogues]
    simp only [hsame, hinput]
    refine ⟨by rw [List.length_cons, hlength, List.length_cons], ?_, List.forall_mem_cons.mpr ⟨⟨houtcome, hinput⟩, hall⟩⟩
    rw [sinkBehind_cons, hsame, hbehind]

/-- Dialogues on a limited output go as without limits if their transcript fits. Otherwise one of them is broken off by the
first write that does not fit, and it and all behind it fail and read nothing more. In both cases the output holds what fits of
the transcript. -/
theorem dialogues_cut (limit : Nat) (hlisted : ∀ inquiry ∈ inquiries, inquiry.AlwaysLists) (hsink : sink.NeverFails)
    (input : List Reading) (hfits : sink.written.length ≤ limit) :
    sinkBehind (sink.cut limit) (dialogues (sink.cut limit) input inquiries) =
        (sinkBehind sink (dialogues sink input inquiries)).cut limit ∧
      (((sinkBehind sink (dialogues sink input inquiries)).written.length ≤ limit ∧
          dialogues (sink.cut limit) input inquiries = (dialogues sink input inquiries).map (·.cut limit)) ∨
        limit < (sinkBehind sink (dialogues sink input inquiries)).written.length ∧
        ∃ before inquiry rest answers failed, inquiries = before ++ inquiry :: rest ∧
          OutrunIn limit sink input before inquiry answers ∧ failed.length = rest.length + 1 ∧
          dialogues (sink.cut limit) input inquiries = (dialogues sink input before).map (·.cut limit) ++ failed ∧
          ∀ dialogue ∈ failed, dialogue.outcome = .error (.console .outputFull) ∧
            dialogue.input = (inputBehind input (dialogues sink input before)).drop answers) := by
  induction inquiries generalizing sink input with
  | nil => exact ⟨rfl, Or.inl ⟨hfits, rfl⟩⟩
  | cons inquiry rest ih =>
    obtain ⟨hfirst, hrest⟩ := List.forall_mem_cons.mp hlisted
    obtain ⟨text, htext⟩ := hfirst.exists_sink hsink input
    have hfree : (inquiry.question.ask inquiry.catalogue inquiry.state sink input).sink.NeverFails := htext ▸ hsink.after text
    rcases Question.askFrom_cut (q := inquiry.question) limit hfirst hsink 0 input with
      ⟨hshort, hsame⟩ | ⟨answers, -, houtruns, hbroken⟩
    · rw [← Question.ask, ← Question.ask] at hsame
      obtain ⟨hbehind, hcases⟩ := ih hrest hfree
        (inquiry.question.ask inquiry.catalogue inquiry.state sink input).input hshort
      have hcut : dialogues (sink.cut limit) input (inquiry :: rest) =
          (inquiry.question.ask inquiry.catalogue inquiry.state sink input).cut limit ::
            dialogues ((inquiry.question.ask inquiry.catalogue inquiry.state sink input).sink.cut limit)
              (inquiry.question.ask inquiry.catalogue inquiry.state sink input).input rest := by
        rw [dialogues, hsame]
        rfl
      rw [hcut]
      refine ⟨hbehind, ?_⟩
      rcases hcases with ⟨hle, heq⟩ | ⟨hlong, before, inquiry', rest', answers, failed, rfl, hin, hlength, heq, hall⟩
      · exact Or.inl ⟨hle, by rw [heq]; rfl⟩
      · exact Or.inr ⟨hlong, inquiry :: before, inquiry', rest', answers, failed, rfl,
          ⟨hin.fits, hin.exceeds, hin.outruns⟩, hlength, by rw [heq]; rfl, hall⟩
    · rw [← Question.ask, ← Question.ask] at hbroken
      obtain ⟨hlength, hbehind, hall⟩ := dialogues_of_full hrest hfree hbroken.exceeds (input.drop answers)
      obtain ⟨later, hlater⟩ := exists_sinkBehind_eq hrest hfree
        (inquiry.question.ask inquiry.catalogue inquiry.state sink input).input
      have hcut : dialogues (sink.cut limit) input (inquiry :: rest) =
          inquiry.question.ask inquiry.catalogue inquiry.state (sink.cut limit) input ::
            dialogues ((inquiry.question.ask inquiry.catalogue inquiry.state sink input).sink.cut limit)
              (input.drop answers) rest := by
        rw [dialogues, hbroken.sink, hbroken.input]
      rw [hcut]
      refine ⟨?_, Or.inr ⟨?_, [], inquiry, rest, answers, _, rfl, ⟨hfits, hbroken.exceeds, houtruns⟩, ?_, rfl, ?_⟩⟩
      · rw [sinkBehind_cons, hbroken.sink, hbehind, dialogues, sinkBehind_cons, hlater,
          Sink.cut_after_of_le hbroken.exceeds.le]
      · rw [dialogues, sinkBehind_cons, hlater, Sink.length_written_after]
        exact Nat.lt_add_right _ hbroken.exceeds
      · rw [List.length_cons, hlength]
      · exact List.forall_mem_cons.mpr ⟨⟨hbroken.outcome, hbroken.input⟩, hall⟩

end Dialogues

/-- Dialogues one after another, in which no listing fails, on an output with room for `limit` bytes, against the same dialogues
on one without limits. What the limited output holds at the end is the beginning of the transcript, as far as there is room. If
the transcript fits, the dialogues go as without limits. If it does not, the dialogues before the one that writes the first byte
without room go as without limits; that one and all behind it fail with the fault of the output, and what is left of the input
is what stands behind the answers that were read before that byte was to be written. -/
theorem limited_output_holds_start_of_transcript {σ : Type} (inquiries : List (Inquiry σ))
    (hlisted : ∀ inquiry ∈ inquiries, inquiry.AlwaysLists) (input : List Reading) (limit : Nat) :
    (sinkBehind (.limited limit) (dialogues (.limited limit) input inquiries)).written =
        (sinkBehind .unlimited (dialogues .unlimited input inquiries)).written.take limit ∧
      ((sinkBehind .unlimited (dialogues .unlimited input inquiries)).written.length ≤ limit →
        dialogues (.limited limit) input inquiries = (dialogues .unlimited input inquiries).map (·.cut limit)) ∧
      (limit < (sinkBehind .unlimited (dialogues .unlimited input inquiries)).written.length →
        ∃ before inquiry rest answers failed, inquiries = before ++ inquiry :: rest ∧
          OutrunIn limit .unlimited input before inquiry answers ∧ failed.length = rest.length + 1 ∧
          dialogues (.limited limit) input inquiries = (dialogues .unlimited input before).map (·.cut limit) ++ failed ∧
          ∀ dialogue ∈ failed, dialogue.outcome = .error (.console .outputFull) ∧
            dialogue.input = (inputBehind input (dialogues .unlimited input before)).drop answers) := by
  have hcut := dialogues_cut limit hlisted Sink.neverFails_unlimited input (Nat.zero_le limit)
  rw [Sink.cut_unlimited] at hcut
  obtain ⟨hbehind, hcases⟩ := hcut
  refine ⟨by rw [hbehind]; rfl, fun hshort => ?_, fun hlong => ?_⟩
  · rcases hcases with ⟨-, hsame⟩ | ⟨hlong, -⟩
    · exact hsame
    · exact absurd hlong (Nat.not_lt.mpr hshort)
  · rcases hcases with ⟨hshort, -⟩ | ⟨-, hbroken⟩
    · exact absurd hlong (Nat.not_lt.mpr hshort)
    · exact hbroken

/-- Three times the same question: the output ends inside the rejection of the third answer, and the third question fails at
once. -/
theorem rejection_outruns_output :
    (∀ inquiry ∈ List.replicate 3 (Inquiry.mk ⟨none, "p", "no"⟩ (.ofRounds fun _ => .ok ["a"]) 0), inquiry.AlwaysLists) ∧
      (sinkBehind (.limited 25) (dialogues (.limited 25) (Script.readings [.bytes (Text.utf8 "b\na\nx\na\n")])
          (List.replicate 3 ⟨⟨none, "p", "no"⟩, .ofRounds fun _ => .ok ["a"], 0⟩))).written =
        Text.utf8 "['a']\npno\n['a']\np['a']\npn" ∧
      ∃ free failed, dialogues (.limited 25) (Script.readings [.bytes (Text.utf8 "b\na\nx\na\n")])
          (List.replicate 3 ⟨⟨none, "p", "no"⟩, .ofRounds fun _ => .ok ["a"], 0⟩) = free ++ failed ∧ failed ≠ [] ∧
        ∀ dialogue ∈ failed, dialogue.outcome = .error (.console .outputFull) := by
  have hlisted : ∀ inquiry ∈ List.replicate 3 (Inquiry.mk ⟨none, "p", "no"⟩ (.ofRounds fun _ => .ok ["a"]) 0),
      inquiry.AlwaysLists := by
    intro inquiry hmem
    obtain rfl := List.eq_of_mem_replicate hmem
    exact fun _ => ⟨["a"], rfl⟩
  obtain ⟨hwritten, -, hbroken⟩ := limited_output_holds_start_of_transcript _ hlisted
    (Script.readings [.bytes (Text.utf8 "b\na\nx\na\n")]) 25
  obtain ⟨before, inquiry, rest, answers, failed, -, -, hlength, hall, hfailed⟩ := hbroken (by decide +kernel)
  refine ⟨hlisted, hwritten.trans (by decide +kernel), _, failed, hall, ?_, fun dialogue hmem => (hfailed dialogue hmem).1⟩
  rintro rfl
  cases hlength

end StreamCharts
