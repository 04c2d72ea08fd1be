import StreamCharts.Proofs.Console.Containment
import StreamCharts.Proofs.Console.Limits

/-!
# Which files an answer is held against

A round lists its directory, shows the listing, and then reads a line; others may change the files at any time, so also between the
listing and the end of the line. The answer is held against the listing, which is that of the files at the start of the round
(`answers_held_against_round_start`). It is not held against the files as they stand when the line has been read
(`entries_changed_while_line_is_read`); both verdicts are the same if and only if the entry neither appears nor vanishes in
between. An entry is named by what its name shows, which is the name itself where that is text. Nothing is assumed about the output,
on which any write may fail.
-/

namespace StreamCharts

/-! ## What becomes of an answer -/

namespace Dialogue

variable {σ : Type}

/-- A dialogue ends with the answer given in round `r`. -/
def AcceptsIn (dialogue : Dialogue σ) (r : Nat) (answer : String) : Prop :=
  dialogue.outcome = .ok answer ∧ dialogue.rounds = r + 1

/-- The answer given in round `r` of a dialogue is noted as rejected. -/
def RejectsIn (dialogue : Dialogue σ) (r : Nat) (answer : String) : Prop :=
  dialogue.journal[r]? = some (Question.rejectedRecord answer)

/-- In round `r` of a dialogue that has `start` readings before it a line is read, and this is the answer in it. -/
structure Answered (input : List Reading) (start : Nat) (dialogue : Dialogue σ) (r : Nat) (answer : String) : Prop where
  read : start + r < input.length - dialogue.input.length
  line : ∃ text, readAt input (start + r) = .line text ∧ Answers text answer

end Dialogue

namespace Question

variable {σ : Type} (q : Question) (catalogue : Catalogue σ)

/-- What becomes of a line: a candidate ends the dialogue; anything else is noted as rejected, and is not chosen. -/
theorem closeRound_line (candidates : List String) {text answer : String} (h : Answers text answer) (sink : Sink) :
    (answer ∈ candidates ∧ q.closeRound candidates (.line text) sink = (some (.ok answer), sink, [])) ∨
      (answer ∉ candidates ∧ (q.closeRound candidates (.line text) sink).2.2 = [rejectedRecord answer] ∧
        ∀ choice, (q.closeRound candidates (.line text) sink).1 ≠ some (.ok choice)) := by
  by_cases hmem : answer ∈ candidates
  · exact Or.inl ⟨hmem, closeRound_of_ends (.chosen h hmem) sink⟩
  · exact Or.inr ⟨hmem, q.closeRound_of_notMem h hmem sink⟩

/-- A round that does not end the dialogue makes one note. -/
theorem length_journal_of_not_close {candidates : List String} {outcome : Outcome} {sink sink' : Sink} {journal : Journal}
    (h : q.closeRound candidates outcome sink = (none, sink', journal)) : journal.length = 1 := by
  cases outcome with
  | finished => cases h
  | failed fault => cases h
  | line text =>
    rcases q.closeRound_line candidates ((answers_iff text _).mpr rfl) sink with ⟨-, hclose⟩ | ⟨-, hnote, -⟩
    · rw [h] at hclose
      cases hclose
    · rw [h] at hnote
      exact congrArg List.length hnote

/-- A dialogue has a round more than those before it, at least. -/
theorem lt_rounds_askFrom (input : List Reading) (rounds : Nat) (state : σ) (sink : Sink) :
    rounds < (q.askFrom catalogue rounds state sink input).rounds := by
  induction input generalizing rounds state sink with
  | nil =>
    rcases hopen : q.openRound catalogue state sink with ⟨_ | candidates, sink₁⟩
    · rw [askFrom_of_not_open hopen]
      exact Nat.lt_succ_self rounds
    · rw [askFrom_nil_of_open hopen]
      exact Nat.lt_succ_self rounds
  | cons reading rest ih =>
    rcases hopen : q.openRound catalogue state sink with ⟨_ | candidates, sink₁⟩
    · rw [askFrom_of_not_open hopen]
      exact Nat.lt_succ_self rounds
    · rcases hclose : q.closeRound candidates reading.outcome sink₁ with ⟨_ | result, sink₂, journal⟩
      · rw [askFrom_cons_of_not_close hopen hclose]
        exact Nat.lt_of_succ_lt (ih (rounds + 1) _ sink₂)
      · rw [askFrom_cons_of_close hopen hclose]
        exact Nat.lt_succ_self rounds

section Rounds

variable {q catalogue} {state : σ} {sink sink₁ : Sink} {candidates : List String} {reading : Reading}

/-- The line of the first round ends the dialogue if its answer is a candidate, and otherwise the first note says that it is
rejected. -/
theorem askFrom_first_line {text answer : String} (hopen : q.openRound catalogue state sink = (.ok candidates, sink₁))
    (hline : reading.outcome = .line text) (hanswer : Answers text answer) (rounds : Nat) (rest : List Reading) :
    ((q.askFrom catalogue rounds state sink (reading :: rest)).outcome = .ok answer ∧
      (q.askFrom catalogue rounds state sink (reading :: rest)).rounds = rounds + 1 ↔ answer ∈ candidates) ∧
    ((q.askFrom catalogue rounds state sink (reading :: rest)).journal[0]? = some (rejectedRecord answer) ↔
      answer ∉ candidates) := by
  rcases q.closeRound_line candidates hanswer sink₁ with ⟨hmem, hchosen⟩ | ⟨hno, hnote, hchoice⟩
  · rw [← hline] at hchosen
    rw [askFrom_cons_of_close hopen hchosen]
    simp [hmem]
  · rw [← hline] at hnote hchoice
    rcases hclose : q.closeRound candidates reading.outcome sink₁ with ⟨_ | result, sink₂, journal⟩
    · -- the dialogue may yet end with this answer, but in a later round
      have hrounds := q.lt_rounds_askFrom catalogue rest (rounds + 1) (catalogue.advance state reading) sink₂
      rw [hclose] at hnote
      dsimp only at hnote
      rw [askFrom_cons_of_not_close hopen hclose]
      simp [hnote, hno, hrounds.ne']
    · rw [hclose] at hnote hchoice
      dsimp only at hnote hchoice
      have hother : result ≠ .ok answer := fun h => hchoice answer (congrArg some h)
      rw [askFrom_cons_of_close hopen hclose]
      simp [hnote, hno, hother]

/-- A dialogue that reads a line behind that of its first round goes over into the next round, with one note. -/
theorem askFrom_later_line (hopen : q.openRound catalogue state sink = (.ok candidates, sink₁)) {rounds r : Nat}
    {rest : List Reading}
    (hread : r + 1 < (reading :: rest).length - (q.askFrom catalogue rounds state sink (reading :: rest)).input.length) :
    ∃ (sink₂ : Sink) (journal : Journal), journal.length = 1 ∧ q.askFrom catalogue rounds state sink (reading :: rest) =
      { q.askFrom catalogue (rounds + 1) (catalogue.advance state reading) sink₂ rest with
        journal := journal ++ (q.askFrom catalogue (rounds + 1) (catalogue.advance state reading) sink₂ rest).journal } := by
  rcases hclose : q.closeRound candidates reading.outcome sink₁ with ⟨_ | result, sink₂, journal⟩
  · exact ⟨sink₂, journal, q.length_journal_of_not_close hclose, askFrom_cons_of_not_close hopen hclose rounds rest⟩
  · rw [askFrom_cons_of_close hopen hclose, List.length_cons] at hread
    dsimp only at hread
    omega

end Rounds

/-- A line that a dialogue reads in some round is held against the listing of this round, and against no other. -/
theorem askFrom_held_against_listing (input : List Reading) (rounds : Nat) (state : σ) (sink : Sink) {r : Nat}
    {text answer : String} (hread : r < input.length - (q.askFrom catalogue rounds state sink input).input.length)
    (hline : readAt input r = .line text) (hanswer : Answers text answer) :
    ∃ candidates, catalogue.listings state input r = .ok candidates ∧
      ((q.askFrom catalogue rounds state sink input).outcome = .ok answer ∧
        (q.askFrom catalogue rounds state sink input).rounds = rounds + r + 1 ↔ answer ∈ candidates) ∧
      ((q.askFrom catalogue rounds state sink input).journal[r]? = some (rejectedRecord answer) ↔ answer ∉ candidates) := by
  induction input generalizing rounds state sink r with
  | nil => exact absurd hread (by simp)
  | cons reading rest ih =>
    rcases hopen : q.openRound catalogue state sink with ⟨_ | candidates, sink₁⟩
    · rw [askFrom_of_not_open hopen] at hread
      exact absurd hread (by simp)
    cases r with
    | zero => exact ⟨candidates, q.listed_of_openRound catalogue hopen, askFrom_first_line hopen hline hanswer rounds rest⟩
    | succ r =>
      obtain ⟨sink₂, journal, hnote, hnext⟩ := askFrom_later_line hopen hread
      rw [hnext, List.length_cons] at hread
      dsimp only at hread
      obtain ⟨candidates', hlist, haccepts, hrejects⟩ := ih (rounds + 1) (catalogue.advance state reading) sink₂ (r := r)
        (by omega) hline
      refine ⟨candidates', hlist, ?_, ?_⟩
      · rw [hnext, ← haccepts, show rounds + (r + 1) + 1 = rounds + 1 + r + 1 by omega]
      · rw [hnext, ← hrejects]
        dsimp only
        rw [List.getElem?_append_right (by omega), hnote, Nat.add_sub_cancel]

end Question

namespace FileSystem

variable {σ : Type} {files : FileSystem σ} {state : σ} {root : String} {sink : Sink} {input : List Reading} {start : Nat}
  {directory : String} {dialogue : Dialogue σ}

/-! ## The dialogues of a selection -/

/-- The dialogues that a selection conducts, with the readings before each and the directory that it lists: the one about the
root, and if that ends with an algorithm, the one about the directory of the algorithm. -/
inductive Conducts (files : FileSystem σ) (state : σ) (root : String) (sink : Sink) (input : List Reading) :
    Nat → String → Dialogue σ → Prop where
  | algorithm : Conducts files state root sink input 0 root (algorithmQuestion.ask (files.catalogue root) state sink input)
  | clientCount {first : Dialogue σ} {algorithm : String} {start : Nat}
      (hfirst : algorithmQuestion.ask (files.catalogue root) state sink input = first) (hok : first.outcome = .ok algorithm)
      (hstart : input.length - first.input.length = start) :
      Conducts files state root sink input start (Path.join root algorithm)
        (clientCountQuestion.ask (files.catalogue (Path.join root algorithm)) first.state first.sink first.input)

/-- Behind the readings that are gone stand those that are left. -/
theorem drop_length_sub (input : List Reading) (n : Nat) :
    input.drop (input.length - (input.drop n).length) = input.drop n ∧
      input.take (input.length - (input.drop n).length) = input.take n := by
  rw [List.length_drop]
  rcases Nat.le_total n input.length with hle | hge
  · rw [Nat.sub_sub_self hle]
    exact ⟨rfl, rfl⟩
  · rw [Nat.sub_eq_zero_of_le hge, Nat.sub_zero, List.drop_length, List.drop_of_length_le hge, List.take_length,
      List.take_of_length_le hge]
    exact ⟨rfl, rfl⟩

/-- A dialogue of a selection asks among the files behind the readings before it, and goes on with the input behind these. -/
theorem Conducts.exists_ask (h : files.Conducts state root sink input start directory dialogue) :
    ∃ (q : Question) (sink' : Sink), dialogue =
      q.ask (files.catalogue directory) (files.behind state input start) sink' (input.drop start) := by
  cases h with
  | algorithm => exact ⟨algorithmQuestion, sink, rfl⟩
  | @clientCount first algorithm start hfirst hok hstart =>
    obtain ⟨n, hinput, hstate, -⟩ := algorithmQuestion.listed_of_askFrom (files.catalogue root) input 0 state sink
    rw [← Question.ask, hfirst] at hinput hstate
    obtain ⟨hdrop, htake⟩ := drop_length_sub input n
    refine ⟨clientCountQuestion, first.sink, ?_⟩
    rw [← hstart, hinput, hdrop, behind, htake, hstate]
    rfl

/-- A line that is read in a round of a selection is held against the listing of its directory at the start of the round. -/
theorem Conducts.held_against_listing (h : files.Conducts state root sink input start directory dialogue) {r : Nat}
    {answer : String} (hanswer : dialogue.Answered input start r answer) :
    ∃ names, files.listEntries (files.behind state input (start + r)) directory = .ok names ∧
      (dialogue.AcceptsIn r answer ↔ answer ∈ names) ∧ (dialogue.RejectsIn r answer ↔ answer ∉ names) := by
  obtain ⟨q, sink', rfl⟩ := h.exists_ask
  obtain ⟨text, hline, htext⟩ := hanswer.line
  have hread := hanswer.read
  obtain ⟨names, hlist, haccepts, hrejects⟩ := q.askFrom_held_against_listing (files.catalogue directory) (input.drop start) 0
    (files.behind state input start) sink' (r := r) (by rw [List.length_drop]; rw [Question.ask] at hread; omega)
    (by rwa [readAt_drop]) htext
  refine ⟨names, ?_, ?_, hrejects⟩
  · rw [behind_add]
    exact hlist
  · rw [Nat.zero_add] at haccepts
    exact haccepts

end FileSystem

/-- In whatever round of a selection in a tree a line is read, on an output that may fail: the answer in it is accepted if and only
if it is shown by an entry of the directory that the dialogue lists, in the tree as it stood at the start of the round, and otherwise
it is noted as rejected. So the answer is accepted if and only if it is shown by an entry in the tree as it stands when the line has
been read, unless the entry has appeared or vanished since the start of the round; and if it has, this is not so. An entry that
shows an answer without replacements is the entry of that name. -/
theorem answers_held_against_round_start {tree : Tree} {root : String} {sink : Sink} {input : List Reading} {start : Nat}
    {directory : String} {dialogue : Dialogue Tree}
    (hdialogue : Tree.fileSystem.Conducts tree root sink input start directory dialogue) {r : Nat} {answer : String}
    (hanswer : dialogue.Answered input start r answer) :
    (dialogue.AcceptsIn r answer ↔ (Tree.fileSystem.behind tree input (start + r)).ShowsEntry directory answer) ∧
    (dialogue.RejectsIn r answer ↔ ¬ (Tree.fileSystem.behind tree input (start + r)).ShowsEntry directory answer) ∧
    ((dialogue.AcceptsIn r answer ↔ (Tree.fileSystem.behind tree input (start + r + 1)).ShowsEntry directory answer) ↔
      ((Tree.fileSystem.behind tree input (start + r)).ShowsEntry directory answer ↔
        (Tree.fileSystem.behind tree input (start + r + 1)).ShowsEntry directory answer)) ∧
    (Text.replacement ∉ answer.toList → ∀ n, (Tree.fileSystem.behind tree input n).ShowsEntry directory answer ↔
      (Tree.fileSystem.behind tree input n).HasEntry directory (Text.utf8 answer)) := by
  obtain ⟨names, hlist, haccepts, hrejects⟩ := hdialogue.held_against_listing hanswer
  have hentry := Tree.mem_of_listEntries hlist answer
  refine ⟨haccepts.trans hentry, hrejects.trans (not_congr hentry), ?_, fun hplain n => Tree.showsEntry_iff _ _ hplain⟩
  rw [haccepts, hentry]

/-- The directory `b` is made while the first line is read, which names it in vain; the second line is held against a listing of its
own, and so is the line with the number of clients. -/
theorem second_answer_held_against_second_round :
    ∃ first second : Dialogue Tree,
      Tree.fileSystem.Conducts (Tree.empty.edits [.makeDirectory "/r/a"]) "/r" .unlimited
        (Script.readings [.change [.makeDirectory "/r/b/2"], .bytes (Text.utf8 "b\nb\n2\n")]) 0 "/r" first ∧
      Tree.fileSystem.Conducts (Tree.empty.edits [.makeDirectory "/r/a"]) "/r" .unlimited
        (Script.readings [.change [.makeDirectory "/r/b/2"], .bytes (Text.utf8 "b\nb\n2\n")]) 2 (Path.join "/r" "b") second ∧
      first.RejectsIn 0 "b" ∧ first.AcceptsIn 1 "b" ∧ second.AcceptsIn 0 "2" := by
  refine ⟨_, _, .algorithm, .clientCount rfl (by cbv) (by cbv), ?_, ?_, ?_⟩
  · refine (answers_held_against_round_start .algorithm ⟨by cbv, "b\n", by cbv, .newline "b" (by decide)⟩).2.1.mpr ?_
    have hlist : listEntries (Tree.fileSystem.behind (Tree.empty.edits [.makeDirectory "/r/a"])
        (Script.readings [.change [.makeDirectory "/r/b/2"], .bytes (Text.utf8 "b\nb\n2\n")]) 0) "/r" = .ok ["a"] := by cbv
    rw [← Tree.mem_of_listEntries hlist]
    decide
  · refine (answers_held_against_round_start .algorithm ⟨by cbv, "b\n", by cbv, .newline "b" (by decide)⟩).1.mpr ?_
    exact ⟨Text.utf8 "b", ⟨[Text.utf8 "r"], by cbv, by cbv, by cbv⟩, by cbv⟩
  · refine (answers_held_against_round_start (.clientCount rfl (by cbv) (by cbv))
      ⟨by cbv, "2\n", by cbv, .newline "2" (by decide)⟩).1.mpr ?_
    exact ⟨Text.utf8 "2", ⟨[Text.utf8 "r", Text.utf8 "b"], by cbv, by cbv, by cbv⟩, by cbv⟩

/-- A directory that is made while the line is read is rejected although it is there, and one that is removed meanwhile is accepted
although it is gone. A replacement is accepted for a directory whose name is no text. -/
theorem entries_changed_while_line_is_read :
    (∃ dialogue : Dialogue Tree,
      Tree.fileSystem.Conducts (Tree.empty.edits [.makeDirectory "r/a"]) "r" .unlimited
        (Script.readings [.change [.makeDirectory "r/b/2"], .bytes (Text.utf8 "b\n2\n")]) 0 "r" dialogue ∧
      dialogue.Answered (Script.readings [.change [.makeDirectory "r/b/2"], .bytes (Text.utf8 "b\n2\n")]) 0 0 "b" ∧
      (Tree.fileSystem.behind (Tree.empty.edits [.makeDirectory "r/a"])
        (Script.readings [.change [.makeDirectory "r/b/2"], .bytes (Text.utf8 "b\n2\n")]) 1).HasEntry "r" (Text.utf8 "b") ∧
      ¬ dialogue.AcceptsIn 0 "b") ∧
    (∃ dialogue : Dialogue Tree,
      Tree.fileSystem.Conducts (Tree.empty.edits [.makeDirectory "r/b"]) "r" .unlimited
        (Script.readings [.change [.remove "r/b"], .bytes (Text.utf8 "b\n2\n")]) 0 "r" dialogue ∧
      dialogue.Answered (Script.readings [.change [.remove "r/b"], .bytes (Text.utf8 "b\n2\n")]) 0 0 "b" ∧
      ¬ (Tree.fileSystem.behind (Tree.empty.edits [.makeDirectory "r/b"])
        (Script.readings [.change [.remove "r/b"], .bytes (Text.utf8 "b\n2\n")]) 1).HasEntry "r" (Text.utf8 "b") ∧
      dialogue.AcceptsIn 0 "b") ∧
    ∃ dialogue : Dialogue Tree,
      Tree.fileSystem.Conducts (Tree.empty.edits [.makeDirectory ⟨[0x72, RawPath.slash, 0xFF]⟩]) "r" .unlimited
        (Script.readings [.bytes (Text.utf8 "\uFFFD\n")]) 0 "r" dialogue ∧
      dialogue.Answered (Script.readings [.bytes (Text.utf8 "\uFFFD\n")]) 0 0 "\uFFFD" ∧
      ¬ (Tree.fileSystem.behind (Tree.empty.edits [.makeDirectory ⟨[0x72, RawPath.slash, 0xFF]⟩])
        (Script.readings [.bytes (Text.utf8 "\uFFFD\n")]) 1).HasEntry "r" (Text.utf8 "\uFFFD") ∧
      dialogue.AcceptsIn 0 "\uFFFD" := by
  refine ⟨⟨_, .algorithm, ⟨by cbv, "b\n", by cbv, .newline "b" (by decide)⟩, ⟨Place.ofPath Tree.empty.home "r", by cbv, by cbv, by cbv⟩, ?_⟩,
    ⟨_, .algorithm, ⟨by cbv, "b\n", by cbv, .newline "b" (by decide)⟩, ?_, ⟨by cbv, by cbv⟩⟩,
    _, .algorithm, ⟨by cbv, "\uFFFD\n", by cbv, .newline "\uFFFD" (by decide)⟩, ?_, ⟨by cbv, by cbv⟩⟩
  · rintro ⟨hok, -⟩
    have hclosed : (algorithmQuestion.ask (Tree.fileSystem.catalogue "r") (Tree.empty.edits [.makeDirectory "r/a"]) .unlimited
        (Script.readings [.change [.makeDirectory "r/b/2"], .bytes (Text.utf8 "b\n2\n")])).outcome = .error .inputClosed := by cbv
    rw [hclosed] at hok
    cases hok
  · have hread : Tree.read (Tree.fileSystem.behind (Tree.empty.edits [.makeDirectory "r/b"])
        (Script.readings [.change [.remove "r/b"], .bytes (Text.utf8 "b\n2\n")]) 1) "r" = .ok [] := by cbv
    rw [← Tree.mem_read_iff hread]
    exact List.not_mem_nil
  · have hread : Tree.read (Tree.fileSystem.behind (Tree.empty.edits [.makeDirectory ⟨[0x72, RawPath.slash, 0xFF]⟩])
        (Script.readings [.bytes (Text.utf8 "\uFFFD\n")]) 1) "r" = .ok [[0xFF]] := by cbv
    rw [← Tree.mem_read_iff hread]
    decide

end StreamCharts
