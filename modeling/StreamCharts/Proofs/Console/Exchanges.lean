import Mathlib
import StreamCharts.Console.Selection
import StreamCharts.Proofs.Console.Dialogue

/-!
# The two exchanges of a selection

The files change while the operator answers, so each round of a selection has a listing of its own: that of the files behind all
readings before the round. An `Exchange` is the course of one question about the names in a directory; it is determined by these
listings and by what is read (`Course.unique`). The main statement is `selection_follows_two_exchanges`: a selection is the exchange
about the root, and if that ends with an algorithm, the exchange about the directory of the algorithm, which begins with the next
reading.
-/

namespace StreamCharts

/-! ## Courses are determined -/

/-- A text has one answer. -/
theorem Answers.unique {text answer answer' : String} (h : Answers text answer) (h' : Answers text answer') : answer = answer' := by
  rw [answers_iff] at h h'
  exact h.symm.trans h'

/-- A round rejects one answer. -/
theorem Rejects.unique {listing : Except SelectionError (List String)} {outcome : Outcome} {answer answer' : String}
    (h : Rejects listing outcome answer) (h' : Rejects listing outcome answer') : answer = answer' := by
  obtain ⟨h, -⟩ := h
  obtain ⟨h', -⟩ := h'
  exact h.unique h'

/-- A round ends a dialogue in one way. -/
theorem Ends.unique {listing : Except SelectionError (List String)} {outcome : Outcome}
    {result result' : Except SelectionError String} (h : Ends listing outcome result) (h' : Ends listing outcome result') :
    result = result' := by
  cases h with
  | notListed => cases h'; rfl
  | closed => cases h'; rfl
  | notRead => cases h'; rfl
  | chosen h _ =>
    cases h' with
    | chosen h' _ => rw [h.unique h']

section Course

variable {L L' : Nat → Except SelectionError (List String)} {read read' : Nat → Outcome} {rejected rejected' : List String}
  {result result' : Except SelectionError String}

/-- The listings and what is read determine a course: none can go on behind a round that ends another. -/
theorem Course.unique (h : Course L read rejected result) (h' : Course L read rejected' result') :
    rejected = rejected' ∧ result = result' := by
  have hlength : rejected.length = rejected'.length := by
    rcases Nat.lt_trichotomy rejected.length rejected'.length with hlt | heq | hgt
    · exact absurd h.ends (h'.not_ends_before _ hlt result)
    · exact heq
    · exact absurd h'.ends (h.not_ends_before _ hgt result')
  have hrejected : rejected = rejected' := by
    refine List.ext_getElem hlength fun r hr hr' => ?_
    exact (h.rejects r _ (List.getElem?_eq_getElem hr)).unique (h'.rejects r _ (List.getElem?_eq_getElem hr'))
  subst hrejected
  exact ⟨rfl, h.ends.unique h'.ends⟩

/-- A course depends on the listings of its rounds, and on what is read in them. -/
theorem Course.congr (h : Course L read rejected result) (hL : ∀ r ≤ rejected.length, L r = L' r)
    (hread : ∀ r ≤ rejected.length, read r = read' r) : Course L' read' rejected result := by
  refine ⟨fun r answer hanswer => ?_, ?_⟩
  · have hr : r < rejected.length := (List.getElem?_eq_some_iff.mp hanswer).1
    rw [← hL r hr.le, ← hread r hr.le]
    exact h.rejects r answer hanswer
  · rw [← hL _ le_rfl, ← hread _ le_rfl]
    exact h.ends

/-- The round that ends with a candidate has listed it, and reads one line. -/
theorem Course.linesRead_of_ok {answer : String} (h : Course L read rejected (.ok answer)) :
    linesRead (L rejected.length) = 1 := by
  have hends := h.ends
  generalize L rejected.length = listing at hends
  generalize read rejected.length = outcome at hends
  cases hends
  rfl

end Course

/-- What is read behind some readings. -/
theorem readAt_drop (input : List Reading) (n : Nat) : readAt (input.drop n) = fun r => readAt input (n + r) := by
  funext r
  rw [readAt, readAt, List.getElem?_drop]

/-- What is read in a round depends on the readings up to it. -/
theorem readAt_eq_of_take_eq {input input' : List Reading} {n r : Nat} (h : input.take n = input'.take n) (hr : r < n) :
    readAt input r = readAt input' r := by
  rw [readAt, readAt, ← List.getElem?_take_of_lt hr, h, List.getElem?_take_of_lt hr]

namespace FileSystem

variable {σ : Type} (files : FileSystem σ) (state : σ) (input : List Reading)

/-! ## Exchanges -/

/-- The files behind so many readings, with all changes that were made while these went on. -/
def behind (n : Nat) : σ :=
  (input.take n).foldl (fun state reading => files.change state reading.changes) state

/-- The listing of a directory at the start of round `r` of an exchange that has `start` readings before it. -/
def listingAt (directory : String) (start r : Nat) : Except SelectionError (List String) :=
  files.listEntries (files.behind state input (start + r)) directory

/-- An exchange about the names in a directory that has `start` readings before it: the answers it rejects, one in each round, and
its result in the round behind them. -/
def Exchange (directory : String) (start : Nat) (rejected : List String) (result : Except SelectionError String) : Prop :=
  Course (files.listingAt state input directory start) (fun r => readAt input (start + r)) rejected result

/-- How many readings lie before the end of an exchange. -/
def consumed (directory : String) (start : Nat) (rejected : List String) : Nat :=
  start + (rejected.length + linesRead (files.listingAt state input directory start rejected.length))

/-- What is printed in an exchange. -/
def transcript (q : Question) (directory : String) (start : Nat) (rejected : List String) : String :=
  q.transcript (files.listingAt state input directory start) rejected.length

/-- The files behind some readings and those behind these. -/
theorem behind_add (n m : Nat) :
    files.behind state input (n + m) =
      ((input.drop n).take m).foldl (fun state reading => files.change state reading.changes) (files.behind state input n) := by
  rw [behind, List.take_add, List.foldl_append]
  rfl

/-- How the files stand depends on the readings before. -/
theorem behind_eq_of_take_eq {input input' : List Reading} {n m : Nat} (h : input.take n = input'.take n) (hm : m ≤ n) :
    files.behind state input m = files.behind state input' m := by
  have htake : input.take m = input'.take m := by
    rw [← Nat.min_eq_left hm, ← List.take_take, h, List.take_take]
  rw [behind, htake, behind]

section Exchange

variable {files state input} {directory root : String} {start : Nat} {rejected rejected' : List String} {algorithm : String}
  {result : Except SelectionError String} {e : SelectionError} {sink : Sink}

/-- An exchange that ends with a candidate reads one line more than it rejects. -/
theorem Exchange.consumed_of_ok {answer : String} (h : files.Exchange state input directory start rejected (.ok answer)) :
    files.consumed state input directory start rejected = start + (rejected.length + 1) := by
  rw [consumed, h.linesRead_of_ok]

/-- Why an exchange fails: its last round has no listing of its directory, or what is read in it is no text or nothing. -/
theorem Exchange.error_cases (h : files.Exchange state input directory start rejected (.error e)) :
    (∃ fault, files.list (files.behind state input (start + rejected.length)) directory = .error fault ∧
        e = .notListed directory fault) ∨
      ∃ names, files.list (files.behind state input (start + rejected.length)) directory = .ok names ∧
        ((∃ fault, readAt input (start + rejected.length) = .failed fault ∧ e = .console fault) ∨
          (readAt input (start + rejected.length) = .finished ∧ e = .inputClosed)) := by
  have hends := h.ends
  simp only [listingAt, listEntries] at hends
  cases hlist : files.list (files.behind state input (start + rejected.length)) directory with
  | error fault =>
    rw [hlist] at hends
    cases hends
    exact Or.inl ⟨fault, rfl, rfl⟩
  | ok names =>
    rw [hlist] at hends
    refine Or.inr ⟨names, rfl, ?_⟩
    generalize readAt input (start + rejected.length) = outcome at hends
    cases hends with
    | closed => exact Or.inr ⟨rfl, rfl⟩
    | notRead _ fault => exact Or.inl ⟨fault, rfl, rfl⟩

/-- Readings behind the end of an exchange have no part in it. -/
theorem Exchange.congr {input' : List Reading} (h : files.Exchange state input directory start rejected result)
    (htake : input.take (start + (rejected.length + 1)) = input'.take (start + (rejected.length + 1))) :
    files.Exchange state input' directory start rejected result := by
  refine Course.congr h (fun r hr => ?_) fun r hr => ?_
  · rw [listingAt, listingAt, files.behind_eq_of_take_eq state htake (by omega)]
  · exact readAt_eq_of_take_eq htake (by omega)

/-- The dialogue of a question about the names in a directory is an exchange. -/
theorem ask_catalogue (files : FileSystem σ) (state : σ) (input : List Reading) (q : Question) (directory : String) (start : Nat)
    (hsink : sink.NeverFails) :
    ∃ rejected result, files.Exchange state input directory start rejected result ∧
      q.ask (files.catalogue directory) (files.behind state input start) sink (input.drop start) =
        ⟨result, rejected.length + 1, input.drop (files.consumed state input directory start rejected),
          files.behind state input (files.consumed state input directory start rejected),
          sink.after (files.transcript state input q directory start rejected), rejected.map Question.rejectedRecord⟩ := by
  obtain ⟨rejected, result, hcourse, hask⟩ := q.askFrom_course (files.catalogue directory) (input.drop start) 0
    (files.behind state input start) sink hsink (files.listingAt state input directory start) fun r _ => by
      rw [listingAt, behind_add]
      rfl
  rw [readAt_drop] at hcourse
  refine ⟨rejected, result, hcourse, ?_⟩
  rw [Question.ask, hask, consumed, behind_add, List.drop_drop, Nat.zero_add]
  rfl

/-! ## Selections -/

/-- A selection that ends in its first exchange. -/
theorem select_of_error (hsink : sink.NeverFails) (h : files.Exchange state input root 0 rejected (.error e)) :
    files.select state root sink input =
      ⟨.error e, input.drop (files.consumed state input root 0 rejected),
        files.behind state input (files.consumed state input root 0 rejected),
        sink.after (files.transcript state input algorithmQuestion root 0 rejected), rejected.map Question.rejectedRecord⟩ := by
  obtain ⟨rejected', result, hcourse, hask⟩ := files.ask_catalogue state input algorithmQuestion root 0 hsink
  obtain ⟨rfl, rfl⟩ := hcourse.unique h
  rw [show files.behind state input 0 = state from rfl, List.drop_zero] at hask
  simp only [select, hask]

/-- A selection that goes on to its second exchange. -/
theorem select_of_ok (hsink : sink.NeverFails) (h : files.Exchange state input root 0 rejected (.ok algorithm))
    (h' : files.Exchange state input (Path.join root algorithm) (rejected.length + 1) rejected' result) :
    files.select state root sink input =
      ⟨result.map fun clientCount => ⟨root, algorithm, clientCount⟩,
        input.drop (files.consumed state input (Path.join root algorithm) (rejected.length + 1) rejected'),
        files.behind state input (files.consumed state input (Path.join root algorithm) (rejected.length + 1) rejected'),
        sink.after (files.transcript state input algorithmQuestion root 0 rejected ++
          files.transcript state input clientCountQuestion (Path.join root algorithm) (rejected.length + 1) rejected'),
        (rejected ++ rejected').map Question.rejectedRecord⟩ := by
  obtain ⟨rejected₁, result₁, hcourse, hask⟩ := files.ask_catalogue state input algorithmQuestion root 0 hsink
  obtain ⟨rfl, rfl⟩ := hcourse.unique h
  rw [show files.behind state input 0 = state from rfl, List.drop_zero, h.consumed_of_ok, Nat.zero_add] at hask
  have hshown := hsink.after (files.transcript state input algorithmQuestion root 0 rejected₁)
  obtain ⟨rejected₂, result₂, hcourse', hask'⟩ := files.ask_catalogue state input clientCountQuestion (Path.join root algorithm)
    (rejected₁.length + 1) hshown
  obtain ⟨rfl, rfl⟩ := hcourse'.unique h'
  simp only [select, hask, hask', Sink.after_after, List.map_append]

/-- There is an exchange about any directory, wherever it begins. -/
theorem exists_exchange (files : FileSystem σ) (state : σ) (input : List Reading) (directory : String) (start : Nat) :
    ∃ rejected result, files.Exchange state input directory start rejected result := by
  obtain ⟨rejected, result, h, -⟩ := files.ask_catalogue state input algorithmQuestion directory start Sink.neverFails_unlimited
  exact ⟨rejected, result, h⟩

/-- A selection succeeds by two exchanges that do. -/
theorem select_eq_ok_iff (hsink : sink.NeverFails) (scenario : ScenarioPath) :
    (files.select state root sink input).outcome = .ok scenario ↔
      scenario.root = root ∧ ∃ rejected rejected', files.Exchange state input root 0 rejected (.ok scenario.algorithm) ∧
        files.Exchange state input (Path.join root scenario.algorithm) (rejected.length + 1) rejected'
          (.ok scenario.clientCount) := by
  constructor
  · intro hok
    obtain ⟨rejected, _ | algorithm, h⟩ := files.exists_exchange state input root 0
    · rw [select_of_error hsink h] at hok
      cases hok
    · obtain ⟨rejected', result, h'⟩ := files.exists_exchange state input (Path.join root algorithm) (rejected.length + 1)
      rw [select_of_ok hsink h h'] at hok
      cases result with
      | error e => cases hok
      | ok clientCount =>
        cases hok
        exact ⟨rfl, rejected, rejected', h, h'⟩
  · rintro ⟨rfl, rejected, rejected', h, h'⟩
    rw [select_of_ok hsink h h']
    rfl

/-- A selection fails by its first exchange, or by its second. -/
theorem select_eq_error_iff (hsink : sink.NeverFails) (e : SelectionError) :
    (files.select state root sink input).outcome = .error e ↔
      (∃ rejected, files.Exchange state input root 0 rejected (.error e)) ∨
        ∃ rejected algorithm rejected', files.Exchange state input root 0 rejected (.ok algorithm) ∧
          files.Exchange state input (Path.join root algorithm) (rejected.length + 1) rejected' (.error e) := by
  constructor
  · intro herror
    obtain ⟨rejected, e' | algorithm, h⟩ := files.exists_exchange state input root 0
    · rw [select_of_error hsink h] at herror
      cases herror
      exact Or.inl ⟨rejected, h⟩
    · obtain ⟨rejected', result, h'⟩ := files.exists_exchange state input (Path.join root algorithm) (rejected.length + 1)
      rw [select_of_ok hsink h h'] at herror
      cases result with
      | error e' =>
        cases herror
        exact Or.inr ⟨rejected, algorithm, rejected', h, h'⟩
      | ok clientCount => cases herror
  · rintro (⟨rejected, h⟩ | ⟨rejected, algorithm, rejected', h, h'⟩)
    · rw [select_of_error hsink h]
    · rw [select_of_ok hsink h h']
      rfl

/-- A selection notes the answers it rejects. -/
theorem journal_of_select (files : FileSystem σ) (state : σ) (root : String) (hsink : sink.NeverFails) (input : List Reading) :
    ∃ rejected : List String, (files.select state root sink input).journal = rejected.map Question.rejectedRecord := by
  obtain ⟨rejected, _ | algorithm, h⟩ := files.exists_exchange state input root 0
  · exact ⟨rejected, by rw [select_of_error hsink h]⟩
  · obtain ⟨rejected', result, h'⟩ := files.exists_exchange state input (Path.join root algorithm) (rejected.length + 1)
    exact ⟨rejected ++ rejected', by rw [select_of_ok hsink h h']⟩

/-- Files with the same listings behind all readings give the same selection. -/
theorem select_congr {τ : Type} {files' : FileSystem τ} {state' : τ} (root : String) (hsink : sink.NeverFails)
    (h : ∀ n, files.list (files.behind state input n) = files'.list (files'.behind state' input n)) :
    (files.select state root sink input).outcome = (files'.select state' root sink input).outcome ∧
      (files.select state root sink input).input = (files'.select state' root sink input).input ∧
      (files.select state root sink input).sink = (files'.select state' root sink input).sink ∧
      (files.select state root sink input).journal = (files'.select state' root sink input).journal := by
  have hlisting : files.listingAt state input = files'.listingAt state' input := by
    funext directory start r
    rw [listingAt, listingAt, listEntries, listEntries, h]
  have hexchange {directory : String} {start : Nat} {rejected : List String} {result : Except SelectionError String}
      (hcourse : files.Exchange state input directory start rejected result) :
      files'.Exchange state' input directory start rejected result := by
    rwa [Exchange, hlisting] at hcourse
  obtain ⟨rejected, _ | algorithm, hfirst⟩ := files.exists_exchange state input root 0
  · rw [select_of_error hsink hfirst, select_of_error hsink (hexchange hfirst)]
    simp only [consumed, transcript, hlisting, and_self]
  · obtain ⟨rejected', result, hsecond⟩ := files.exists_exchange state input (Path.join root algorithm) (rejected.length + 1)
    rw [select_of_ok hsink hfirst hsecond, select_of_ok hsink (hexchange hfirst) (hexchange hsecond)]
    simp only [consumed, transcript, hlisting, and_self]

end Exchange

end FileSystem

/-- A selection among files that others change, on an output that never fails. It succeeds if and only if an exchange about the root
ends with the algorithm, and one about the directory of the algorithm, which begins with the next reading, ends with the number of
clients. It fails if and only if one of these exchanges does: without a listing of its directory at the start of a round, with a
line that cannot be read, or at the end of the input. What the exchanges print stands one behind the other, and the readings
behind them are left. What is read behind the answer with the algorithm cannot change the algorithm. -/
theorem selection_follows_two_exchanges {σ : Type} (files : FileSystem σ) (state : σ) (root : String) {sink : Sink}
    (hsink : sink.NeverFails) (input : List Reading) :
    (∀ scenario, (files.select state root sink input).outcome = .ok scenario ↔
      scenario.root = root ∧ ∃ rejected rejected', files.Exchange state input root 0 rejected (.ok scenario.algorithm) ∧
        files.Exchange state input (Path.join root scenario.algorithm) (rejected.length + 1) rejected'
          (.ok scenario.clientCount)) ∧
    (∀ e, (files.select state root sink input).outcome = .error e ↔
      (∃ rejected, files.Exchange state input root 0 rejected (.error e)) ∨
        ∃ rejected algorithm rejected', files.Exchange state input root 0 rejected (.ok algorithm) ∧
          files.Exchange state input (Path.join root algorithm) (rejected.length + 1) rejected' (.error e)) ∧
    (∀ directory start rejected e, files.Exchange state input directory start rejected (.error e) →
      (∃ fault, files.list (files.behind state input (start + rejected.length)) directory = .error fault ∧
          e = .notListed directory fault) ∨
        ∃ names, files.list (files.behind state input (start + rejected.length)) directory = .ok names ∧
          ((∃ fault, readAt input (start + rejected.length) = .failed fault ∧ e = .console fault) ∨
            (readAt input (start + rejected.length) = .finished ∧ e = .inputClosed))) ∧
    (∀ rejected e, files.Exchange state input root 0 rejected (.error e) →
      (files.select state root sink input).sink =
          sink.after (files.transcript state input algorithmQuestion root 0 rejected) ∧
        (files.select state root sink input).input = input.drop (files.consumed state input root 0 rejected)) ∧
    ∀ rejected algorithm, files.Exchange state input root 0 rejected (.ok algorithm) →
      (∀ rejected' result, files.Exchange state input (Path.join root algorithm) (rejected.length + 1) rejected' result →
        (files.select state root sink input).sink =
            sink.after (files.transcript state input algorithmQuestion root 0 rejected ++
              files.transcript state input clientCountQuestion (Path.join root algorithm) (rejected.length + 1) rejected') ∧
          (files.select state root sink input).input =
            input.drop (files.consumed state input (Path.join root algorithm) (rejected.length + 1) rejected')) ∧
      ∀ input', input.take (rejected.length + 1) = input'.take (rejected.length + 1) →
        files.Exchange state input' root 0 rejected (.ok algorithm) ∧
          ∀ scenario, (files.select state root sink input').outcome = .ok scenario → scenario.algorithm = algorithm := by
  refine ⟨FileSystem.select_eq_ok_iff hsink, FileSystem.select_eq_error_iff hsink, ?_, ?_, ?_⟩
  · intro directory start rejected e h
    exact h.error_cases
  · intro rejected e h
    rw [FileSystem.select_of_error hsink h]
    exact ⟨rfl, rfl⟩
  · intro rejected algorithm h
    refine ⟨fun rejected' result h' => ?_, fun input' htake => ?_⟩
    · rw [FileSystem.select_of_ok hsink h h']
      exact ⟨rfl, rfl⟩
    · rw [← Nat.zero_add (rejected.length + 1)] at htake
      have hsame := h.congr htake
      refine ⟨hsame, fun scenario hok => ?_⟩
      obtain ⟨-, rejected', -, h', -⟩ := (FileSystem.select_eq_ok_iff hsink scenario).mp hok
      exact Except.ok.inj (h'.unique hsame).2

/-- The directory `b` is made while the first line is read, which names it in vain; the second line chooses it. -/
theorem selection_of_directory_made_meanwhile :
    ∃ rejected rejected', Tree.fileSystem.Exchange (Tree.empty.edits [.makeDirectory "r/a"])
        (Script.readings [.change [.makeDirectory "r/b/2"], .bytes (Text.utf8 "b\nb\n2\n")]) "r" 0 rejected (.ok "b") ∧
      Tree.fileSystem.Exchange (Tree.empty.edits [.makeDirectory "r/a"])
        (Script.readings [.change [.makeDirectory "r/b/2"], .bytes (Text.utf8 "b\nb\n2\n")]) (Path.join "r" "b")
        (rejected.length + 1) rejected' (.ok "2") := by
  have hselect := (selection_follows_two_exchanges Tree.fileSystem (Tree.empty.edits [.makeDirectory "r/a"]) "r"
    Sink.neverFails_unlimited
    (Script.readings [.change [.makeDirectory "r/b/2"], .bytes (Text.utf8 "b\nb\n2\n")])).1 ⟨"r", "b", "2"⟩
  exact (hselect.mp (by cbv)).2

end StreamCharts
