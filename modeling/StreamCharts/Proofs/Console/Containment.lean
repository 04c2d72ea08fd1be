import StreamCharts.Proofs.Console.Exchanges
import StreamCharts.Proofs.Files.Listing

/-!
# Selections stay below the root

What is selected was listed, also on an output that fails (`FileSystem.listed_of_select`). So if directories list nothing but names,
the directory of a scenario is two steps below the root, and scenarios that differ have different directories; an answer that would
lead elsewhere is never a candidate. The main statement is `selection_stays_below_root`. The files of a tree that was made by edits
list nothing but names (`Tree.Named.listsNames`).
-/

namespace StreamCharts

namespace Question

variable {σ : Type} (q : Question) (catalogue : Catalogue σ)

/-! ## What is chosen was listed -/

/-- A round that goes on has a listing. -/
theorem listed_of_openRound {state : σ} {sink sink' : Sink} {candidates : List String}
    (h : q.openRound catalogue state sink = (.ok candidates, sink')) : catalogue.list state = .ok candidates := by
  rw [openRound] at h
  split at h
  · cases h
  · rename_i listed hlisted
    split at h
    · cases h
    · cases h
      exact hlisted

/-- An answer that is no candidate is noted as rejected and not chosen, whether or not the rejection can be written. -/
theorem closeRound_of_notMem {candidates : List String} {text answer : String} (h : Answers text answer)
    (hno : answer ∉ candidates) (sink : Sink) :
    (q.closeRound candidates (.line text) sink).2.2 = [rejectedRecord answer] ∧
      ∀ choice, (q.closeRound candidates (.line text) sink).1 ≠ some (.ok choice) := by
  rw [answers_iff] at h
  subst h
  simp only [closeRound, validate, List.contains_eq_mem, decide_eq_true_eq, if_neg hno]
  rcases sink.write q.rejectionLine with ⟨_ | _, sink'⟩
  · exact ⟨rfl, fun choice h => by cases h⟩
  · exact ⟨rfl, fun choice h => by cases h⟩

/-- A round chooses nothing but a candidate. -/
theorem mem_of_closeRound {candidates : List String} {outcome : Outcome} {sink sink' : Sink} {choice : String} {journal : Journal}
    (h : q.closeRound candidates outcome sink = (some (.ok choice), sink', journal)) : choice ∈ candidates := by
  cases outcome with
  | finished => cases h
  | failed fault => cases h
  | line text =>
    by_cases hmem : answerOf text ∈ candidates
    · simp only [closeRound, validate, List.contains_eq_mem, decide_eq_true_eq, if_pos hmem] at h
      cases h
      exact hmem
    · have hno := (q.closeRound_of_notMem ((answers_iff text _).mpr rfl) hmem sink).2 choice
      rw [h] at hno
      exact absurd rfl hno

/-- Wherever a dialogue ends, some readings have gone by, and its choice was a candidate at the start of a round. -/
theorem listed_of_askFrom (input : List Reading) (rounds : Nat) (state : σ) (sink : Sink) :
    ∃ n, (q.askFrom catalogue rounds state sink input).input = input.drop n ∧
      (q.askFrom catalogue rounds state sink input).state = (input.take n).foldl catalogue.advance state ∧
      ∀ choice, (q.askFrom catalogue rounds state sink input).outcome = .ok choice →
        ∃ m candidates, catalogue.list ((input.take m).foldl catalogue.advance state) = .ok candidates ∧ choice ∈ candidates := by
  induction input generalizing rounds state sink with
  | nil =>
    rw [askFrom]
    split
    · exact ⟨0, rfl, rfl, fun choice h => by cases h⟩
    · exact ⟨0, rfl, rfl, fun choice h => by cases h⟩
  | cons reading rest ih =>
    rw [askFrom]
    split
    · exact ⟨0, rfl, rfl, fun choice h => by cases h⟩
    · rename_i candidates sink₁ hopen
      have hlisted := q.listed_of_openRound catalogue hopen
      dsimp only
      split
      · rename_i outcome sink₂ journal hclose
        refine ⟨1, rfl, rfl, ?_⟩
        rintro choice rfl
        exact ⟨0, candidates, hlisted, q.mem_of_closeRound hclose⟩
      · obtain ⟨n, hinput, hstate, hchoice⟩ := ih (rounds + 1) (catalogue.advance state reading) _
        refine ⟨n + 1, hinput, hstate, fun choice hok => ?_⟩
        obtain ⟨m, candidates', hlisted', hmem⟩ := hchoice choice hok
        exact ⟨m + 1, candidates', hlisted', hmem⟩

end Question

/-- An answer that is none of the candidates of its round is rejected in that round. -/
theorem Course.rejected_of_notMem {L : Nat → Except SelectionError (List String)} {read : Nat → Outcome} {rejected : List String}
    {result : Except SelectionError String} (h : Course L read rejected result) {r : Nat} (hr : r ≤ rejected.length)
    {candidates : List String} (hlisting : L r = .ok candidates) {text answer : String} (hread : read r = .line text)
    (hanswer : Answers text answer) (hno : answer ∉ candidates) : rejected[r]? = some answer := by
  have hrejects : Rejects (L r) (read r) answer := by
    rw [hlisting, hread]
    exact .mk hanswer hno
  rcases hr.lt_or_eq with hlt | rfl
  · rw [List.getElem?_eq_getElem hlt, (h.rejects r _ (List.getElem?_eq_getElem hlt)).unique hrejects]
  · exact absurd h.ends (hrejects.not_ends result)

namespace FileSystem

variable {σ : Type} (files : FileSystem σ) (state : σ) (input : List Reading)

/-- The names in a selected scenario were listed: the algorithm in the root, the number of clients in the directory of the
algorithm. -/
theorem listed_of_select {root : String} {sink : Sink} {scenario : ScenarioPath}
    (h : (files.select state root sink input).outcome = .ok scenario) :
    scenario.root = root ∧
      (∃ n names, files.list (files.behind state input n) root = .ok names ∧ scenario.algorithm ∈ names) ∧
      ∃ n names, files.list (files.behind state input n) (Path.join root scenario.algorithm) = .ok names ∧
        scenario.clientCount ∈ names := by
  obtain ⟨n, hinput, hstate, hfirst⟩ := algorithmQuestion.listed_of_askFrom (files.catalogue root) input 0 state sink
  simp only [select, Question.ask] at h
  generalize algorithmQuestion.askFrom (files.catalogue root) 0 state sink input = first at h hinput hstate hfirst
  split at h
  · cases h
  · rename_i algorithm halgorithm
    obtain ⟨m, names, hlisted, hmem⟩ := hfirst algorithm halgorithm
    obtain ⟨-, -, -, hsecond⟩ := clientCountQuestion.listed_of_askFrom (files.catalogue (Path.join root algorithm)) first.input 0
      first.state first.sink
    generalize clientCountQuestion.askFrom (files.catalogue (Path.join root algorithm)) 0 first.state first.sink first.input =
      second at h hsecond
    cases hclients : second.outcome with
    | error e =>
      rw [hclients] at h
      cases h
    | ok clientCount =>
      rw [hclients] at h
      cases h
      obtain ⟨m', names', hlisted', hmem'⟩ := hsecond clientCount hclients
      rw [hinput, hstate] at hlisted'
      refine ⟨rfl, ⟨m, names, listEntries_eq_ok_iff.mp hlisted, hmem⟩, n + m', names', ?_, hmem'⟩
      rw [behind_add]
      exact listEntries_eq_ok_iff.mp hlisted'

/-- Directories list nothing but names, whatever readings have gone by. -/
def ListsNames : Prop :=
  ∀ n directory names, files.list (files.behind state input n) directory = .ok names → ∀ name ∈ names, Path.IsName name

end FileSystem

/-- Files that are read as proper names are listed by names: what such a name shows is one. -/
theorem FileSystem.listsNames_of_proper {σ : Type} {files : FileSystem σ} {state : σ} {input : List Reading}
    (h : ∀ n directory (found : List FileName), files.read (files.behind state input n) directory = .ok (found.map .ok) →
      ∀ name ∈ found, FileName.Proper name) : files.ListsNames state input := by
  intro n directory names hlist name hname
  obtain ⟨found, hread, rfl⟩ := list_eq_ok_iff.mp hlist
  rw [List.mem_mergeSort] at hname
  obtain ⟨fileName, hmem, rfl⟩ := List.mem_map.mp hname
  exact (h n directory found hread fileName hmem).legible

/-- A tree whose places are made of names lists nothing but names, whatever edits are made meanwhile. -/
theorem Tree.Named.listsNames {tree : Tree} (h : tree.Named) (input : List Reading) :
    Tree.fileSystem.ListsNames tree input := by
  apply FileSystem.listsNames_of_proper
  intro n directory found hread
  have hnamed : Tree.Named (Tree.fileSystem.behind tree input n) := by
    rw [FileSystem.behind]
    clear hread
    induction input.take n generalizing tree with
    | nil => exact h
    | cons reading readings ih => exact ih (h.edits reading.changes)
  exact hnamed.of_read (Tree.fileSystem_read_eq_ok_iff.mp hread)

/-! ## Directories of scenarios -/

namespace ScenarioPath

variable {scenario scenario' : ScenarioPath}

/-- The directory of a scenario is two steps below its root. -/
theorem parts_directory (ha : Path.IsName scenario.algorithm) (hc : Path.IsName scenario.clientCount) :
    Path.parts scenario.directory = Path.parts scenario.root ++ [scenario.algorithm, scenario.clientCount] := by
  rw [directory, Path.parts_join _ hc, Path.parts_join _ ha, List.append_assoc]
  rfl

/-- Scenarios below one root that differ have different directories. -/
theorem same_directory_eq_false (ha : Path.IsName scenario.algorithm) (hc : Path.IsName scenario.clientCount)
    (ha' : Path.IsName scenario'.algorithm) (hc' : Path.IsName scenario'.clientCount) (hroot : scenario.root = scenario'.root)
    (hne : (scenario.algorithm, scenario.clientCount) ≠ (scenario'.algorithm, scenario'.clientCount)) :
    Path.same scenario.directory scenario'.directory = false := by
  rw [Path.same, parts_directory ha hc, parts_directory ha' hc', hroot, Bool.and_eq_false_iff]
  refine Or.inr (beq_eq_false_iff_ne.mpr fun h => hne ?_)
  simpa using List.append_cancel_left h

end ScenarioPath

/-- Where directories list nothing but names, a selection stays below its root. The algorithm and the number of clients are names,
and the directory of the scenario is made of the parts of the root and of these two, and leads two steps down from where the root
leads, from whichever working directory; it is the directory whose names were listed
for the number of clients, with that number joined. In no round is an answer accepted that is empty, `.` or `..`, or that
holds a slash. Two selections below one root with different results have different directories, also as spellings of a path. -/
theorem selection_stays_below_root {σ : Type} (files : FileSystem σ) (state : σ) (root : String) (sink : Sink)
    (input : List Reading) (hnames : files.ListsNames state input) :
    (∀ scenario, (files.select state root sink input).outcome = .ok scenario →
      Path.IsName scenario.algorithm ∧ Path.IsName scenario.clientCount ∧
        Path.isAbsolute scenario.directory = Path.isAbsolute root ∧
        Path.parts scenario.directory = Path.parts root ++ [scenario.algorithm, scenario.clientCount] ∧
        (∀ home, Place.ofPath home scenario.directory =
          Place.ofPath home root ++ [Text.utf8 scenario.algorithm, Text.utf8 scenario.clientCount]) ∧
        ∃ n names, files.list (files.behind state input n) (Path.join root scenario.algorithm) = .ok names ∧
          scenario.clientCount ∈ names ∧
          scenario.directory = Path.join (Path.join root scenario.algorithm) scenario.clientCount) ∧
    (∀ answer, (answer = "" ∨ answer = "." ∨ answer = ".." ∨ '/' ∈ answer.toList) →
      ∀ directory start r names, files.listingAt state input directory start r = .ok names → ∀ text, Answers text answer →
        (∀ (q : Question) (sink : Sink), (q.closeRound names (.line text) sink).2.2 = [Question.rejectedRecord answer] ∧
            ∀ choice, (q.closeRound names (.line text) sink).1 ≠ some (.ok choice)) ∧
          ∀ rejected result, files.Exchange state input directory start rejected result → r ≤ rejected.length →
            readAt input (start + r) = .line text → rejected[r]? = some answer) ∧
    ∀ (τ : Type) (files' : FileSystem τ) (state' : τ) (sink' : Sink) (input' : List Reading), files'.ListsNames state' input' →
      ∀ scenario scenario', (files.select state root sink input).outcome = .ok scenario →
        (files'.select state' root sink' input').outcome = .ok scenario' →
          (scenario.algorithm, scenario.clientCount) ≠ (scenario'.algorithm, scenario'.clientCount) →
            Path.same scenario.directory scenario'.directory = false := by
  have hselected : ∀ {τ : Type} {files : FileSystem τ} {state : τ} {sink : Sink} {input : List Reading} {scenario : ScenarioPath},
      files.ListsNames state input → (files.select state root sink input).outcome = .ok scenario →
        scenario.root = root ∧ Path.IsName scenario.algorithm ∧ Path.IsName scenario.clientCount := by
    intro τ files state sink input scenario hnames hok
    obtain ⟨hroot, ⟨n, names, hlist, hmem⟩, n', names', hlist', hmem'⟩ := files.listed_of_select state input hok
    exact ⟨hroot, hnames n _ names hlist _ hmem, hnames n' _ names' hlist' _ hmem'⟩
  refine ⟨fun scenario hok => ?_, fun answer hform directory start r names hlisting text hanswer => ?_, ?_⟩
  · obtain ⟨rfl, ha, hc⟩ := hselected hnames hok
    obtain ⟨-, -, n, names, hlist, hmem⟩ := files.listed_of_select state input hok
    refine ⟨ha, hc, ?_, ScenarioPath.parts_directory ha hc, ?_, n, names, hlist, hmem, rfl⟩
    · rw [ScenarioPath.directory, Path.isAbsolute_join _ hc, Path.isAbsolute_join _ ha]
    · intro home
      rw [ScenarioPath.directory, Place.ofPath_join home _ hc, Place.ofPath_join home _ ha, List.append_assoc]
      rfl
  · have hno : answer ∉ names := by
      intro hmem
      have hname := hnames (start + r) directory names (FileSystem.listEntries_eq_ok_iff.mp hlisting) answer hmem
      rcases hform with h | h | h | h
      · exact hname.nonempty h
      · exact hname.not_dot h
      · exact hname.not_dots h
      · exact hname.slash h
    refine ⟨fun q sink => q.closeRound_of_notMem hanswer hno sink, fun rejected result hexchange hr hread => ?_⟩
    exact hexchange.rejected_of_notMem hr hlisting hread hanswer hno
  · intro τ files' state' sink' input' hnames' scenario scenario' hok hok' hne
    obtain ⟨hroot, ha, hc⟩ := hselected hnames hok
    obtain ⟨hroot', ha', hc'⟩ := hselected hnames' hok'
    exact ScenarioPath.same_directory_eq_false ha hc ha' hc' (hroot.trans hroot'.symm) hne

/-- Below a root with a slash at its end, and after answers that are no names, a selection is two steps below. -/
theorem directory_two_steps_below_root :
    (Tree.fileSystem.select (Tree.empty.edits [.makeDirectory "/r/a/1"]) "../../r/" .unlimited
        (Script.readings [.bytes (Text.utf8 "..\n/a\na/\na\n1\n")])).outcome = .ok ⟨"../../r/", "a", "1"⟩ ∧
      Path.parts (ScenarioPath.directory ⟨"../../r/", "a", "1"⟩) = Path.parts "../../r/" ++ ["a", "1"] := by
  have hnames := (Tree.named_empty.edits [.makeDirectory "/r/a/1"]).listsNames
    (Script.readings [.bytes (Text.utf8 "..\n/a\na/\na\n1\n")])
  have hok : (Tree.fileSystem.select (Tree.empty.edits [.makeDirectory "/r/a/1"]) "../../r/" .unlimited
      (Script.readings [.bytes (Text.utf8 "..\n/a\na/\na\n1\n")])).outcome = .ok ⟨"../../r/", "a", "1"⟩ := by cbv
  obtain ⟨hbelow, -⟩ := selection_stays_below_root _ _ _ .unlimited _ hnames
  obtain ⟨-, -, -, hparts, -⟩ := hbelow _ hok
  exact ⟨hok, hparts⟩

end StreamCharts
