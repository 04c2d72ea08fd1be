import StreamCharts.Proofs.Console.Exchanges
import StreamCharts.Proofs.Files.Outline
import StreamCharts.Proofs.Journal.Filter
import StreamCharts.Proofs.Journal.Rendering
import StreamCharts.Proofs.Log.Loading
import StreamCharts.Session

/-!
# The stages of a run

A run is configured, then a scenario is selected, then its logs are loaded, and then the window is opened. `Ending` says in which
stage a run ends, with what, and what the stages up to it have noted; a run has exactly one ending (`Session.ending_iff`). What ends
it is the error of the first stage that fails, and the stages behind that have no part in the run (`run_congr_of_selection_error`,
`run_congr_of_not_loaded`).
-/

namespace StreamCharts

/-! ## Trees with one outline -/

/-- Trees with one outline have one outline behind readings, and so the same listings. -/
theorem Tree.list_behind_congr {tree tree' : Tree} (h : tree.outline = tree'.outline) (input : List Reading) (n : Nat) :
    Tree.fileSystem.list (Tree.fileSystem.behind tree input n) = Tree.fileSystem.list (Tree.fileSystem.behind tree' input n) := by
  have hbehind : (Tree.fileSystem.behind tree input n).outline = (Tree.fileSystem.behind tree' input n).outline := by
    rw [FileSystem.behind, FileSystem.behind]
    induction input.take n generalizing tree tree' with
    | nil => exact h
    | cons reading readings ih => exact ih (Tree.outline_edits_congr h reading.changes)
  have hread : (Tree.fileSystem.behind tree input n).read = (Tree.fileSystem.behind tree' input n).read := by
    rw [← Tree.read_outline, hbehind, Tree.read_outline]
  funext directory
  simp only [FileSystem.list, Tree.fileSystem] at hread ⊢
  rw [hread]

/-- The configuration depends on what stands at the path of its file. -/
theorem Config.loadOrStandard_congr {tree tree' : Tree} {path : String} (h : tree.find path = tree'.find path) :
    loadOrStandard tree.openFile tree.isFile path = loadOrStandard tree'.openFile tree'.isFile path := by
  have hopen : tree.openFile path = tree'.openFile path := by rw [Tree.openFile, Tree.openFile, h]
  have hfile : tree.isFile path = tree'.isFile path := by rw [Tree.isFile, Tree.isFile, h]
  rw [loadOrStandard, loadOrStandard, load, load, fileText, fileText, hopen, hfile]

namespace Session

/-! ## Stages -/

/-- A run is configured by its file, or in the standard way where there is none. -/
inductive Configured (tree : Tree) : Config → Prop where
  | loaded {config : Config} (hfile : tree.isFile Config.fileName = true)
      (hload : Config.load tree.openFile Config.fileName = .ok config) : Configured tree config
  | standard (hfile : tree.isFile Config.fileName = false) : Configured tree .standard

/-- The file that should configure a run cannot be loaded. -/
structure Misconfigured (tree : Tree) (e : ConfigError) : Prop where
  isFile : tree.isFile Config.fileName = true
  load : Config.load tree.openFile Config.fileName = .error e

/-- The words in which the text of the configuration is refused. -/
def refusal (host : Host) (tree : Tree) : String :=
  Config.refusal host.refuse tree.openFile Config.fileName

/-- What is noted on the configuration. -/
def configNotes (tree : Tree) : Journal :=
  (Config.loadOrStandard tree.openFile tree.isFile Config.fileName).2

/-- The selection of a run with a configuration. -/
def selection (tree : Tree) (input : Script) (config : Config) : Selection Tree :=
  selectScenario tree config.logRoot .unlimited input.readings

/-- A run is configured, and a scenario is selected. -/
structure Selected (tree : Tree) (input : Script) (config : Config) (scenario : ScenarioPath) : Prop where
  configured : Configured tree config
  outcome : (selection tree input config).outcome = .ok scenario

/-- What is noted up to the selection of a scenario. -/
def selectedNotes (tree : Tree) (input : Script) (config : Config) (scenario : ScenarioPath) : Journal :=
  configNotes tree ++ (selection tree input config).journal ++ [selectedRecord scenario]

/-- How the files are opened once a scenario is selected. -/
def opener (tree : Tree) (input : Script) (config : Config) : Opener :=
  (selection tree input config).state.openFile

/-- A run is configured, a scenario is selected, and its logs are loaded. -/
structure Loaded (tree : Tree) (input : Script) (config : Config) (scenario : ScenarioPath) (logs : ScenarioLogs) : Prop where
  selected : Selected tree input config scenario
  reads : ScenarioLogs.Reads (opener tree input config) scenario.directory config.naming logs

/-- What is noted up to the window. -/
def loadedNotes (tree : Tree) (input : Script) (config : Config) (scenario : ScenarioPath) (logs : ScenarioLogs) : Journal :=
  selectedNotes tree input config scenario ++
    (LogKind.all.flatMap (ScenarioLogs.notesOn (opener tree input config) scenario.directory config.naming) ++ logs.warnings) ++
    [windowRecord]

/-- The stage in which a run ends, with its error if it fails, and what is noted up to there. -/
inductive Ending (tree : Tree) (input : Script) (host : Host) : Option SessionError → Journal → Prop where
  | config {e : ConfigError} (h : Misconfigured tree e) :
      Ending tree input host (some (.config e (refusal host tree))) (configNotes tree)
  | selection {config : Config} {e : SelectionError} (h : Configured tree config)
      (hselect : (selection tree input config).outcome = .error e) :
      Ending tree input host (some (.selection e)) (configNotes tree ++ (Session.selection tree input config).journal)
  | logs {config : Config} {scenario : ScenarioPath} {earlier : List LogKind} {kind : LogKind} {e : LogError}
      (h : Selected tree input config scenario)
      (hfails : ScenarioLogs.FailsFirst (opener tree input config) scenario.directory config.naming earlier kind e) :
      Ending tree input host (some (.logs scenario e)) (selectedNotes tree input config scenario ++
        (earlier ++ [kind]).flatMap (ScenarioLogs.notesOn (opener tree input config) scenario.directory config.naming))
  | window {config : Config} {scenario : ScenarioPath} {logs : ScenarioLogs} {reason : String}
      (h : Loaded tree input config scenario logs) (hwindow : host.openWindow (window config scenario logs) = .error reason) :
      Ending tree input host (some (.window reason)) (loadedNotes tree input config scenario logs)
  | closed {config : Config} {scenario : ScenarioPath} {logs : ScenarioLogs} (h : Loaded tree input config scenario logs)
      (hwindow : host.openWindow (window config scenario logs) = .ok ()) :
      Ending tree input host none (loadedNotes tree input config scenario logs)

section Run

variable {tree tree' : Tree} {input input' : Script} {host : Host} {openWindow : WindowSystem} {config : Config}
  {scenario : ScenarioPath} {logs : ScenarioLogs} {earlier : List LogKind} {kind : LogKind} {failure? : Option SessionError}
  {notes : Journal}

/-! ### Configuration -/

/-- A run is configured by what its file or its absence gives. -/
theorem configured_iff :
    Configured tree config ↔ (Config.loadOrStandard tree.openFile tree.isFile Config.fileName).1 = .ok config := by
  rw [Config.loadOrStandard]
  split
  · rename_i hfile
    constructor
    · rintro (⟨-, hload⟩ | hno)
      · exact hload
      · rw [hfile] at hno
        cases hno
    · exact .loaded hfile
  · rename_i hfile
    rw [Bool.not_eq_true] at hfile
    constructor
    · rintro (⟨hyes, -⟩ | -)
      · rw [hfile] at hyes
        cases hyes
      · rfl
    · intro h
      cases h
      exact .standard hfile

/-- A run is not configured if its file gives an error. -/
theorem misconfigured_iff {e : ConfigError} :
    Misconfigured tree e ↔ (Config.loadOrStandard tree.openFile tree.isFile Config.fileName).1 = .error e := by
  rw [Config.loadOrStandard]
  split
  · rename_i hfile
    exact ⟨fun h => h.load, fun h => ⟨hfile, h⟩⟩
  · rename_i hfile
    exact ⟨fun h => absurd h.isFile hfile, nofun⟩

/-- Each note on the configuration is for all operators. -/
theorem of_mem_configNotes {record : Record} (h : record ∈ configNotes tree) : record.level = .info ∧ record.topic = .config := by
  rw [configNotes, Config.loadOrStandard] at h
  split at h
  · obtain rfl := List.mem_singleton.mp h
    exact ⟨rfl, rfl⟩
  · obtain rfl := List.mem_singleton.mp h
    exact ⟨rfl, rfl⟩

/-- A run ends with a configuration that fails. -/
theorem run_of_misconfigured {e : ConfigError} (h : Misconfigured tree e) :
    run tree input host =
      ⟨some (.config e (refusal host tree)), input.readings, .unlimited,
        startRecord :: (configNotes tree ++ closing (some (.config e (refusal host tree))))⟩ := by
  have hload : Config.loadOrStandard tree.openFile tree.isFile Config.fileName = (.error e, configNotes tree) :=
    Prod.ext (misconfigured_iff.mp h) rfl
  simp only [run, hload]
  rfl

/-! ### Selection -/

/-- Each note on a selection is for those who look for faults. -/
theorem of_mem_selection {record : Record} (h : record ∈ (selection tree input config).journal) :
    record.level = .debug ∧ record.topic = .prompt := by
  obtain ⟨rejected, hjournal⟩ := FileSystem.journal_of_select Tree.fileSystem tree config.logRoot Sink.neverFails_unlimited
    input.readings
  rw [selection, selectScenario, hjournal] at h
  obtain ⟨answer, -, rfl⟩ := List.mem_map.mp h
  exact ⟨rfl, rfl⟩

/-- A run ends with a selection that fails. -/
theorem run_of_selection_error {e : SelectionError} (h : Configured tree config)
    (hselect : (selection tree input config).outcome = .error e) :
    run tree input host =
      ⟨some (.selection e), (selection tree input config).input, (selection tree input config).sink,
        startRecord :: (configNotes tree ++ (selection tree input config).journal ++ closing (some (.selection e)))⟩ := by
  have hload : Config.loadOrStandard tree.openFile tree.isFile Config.fileName = (.ok config, configNotes tree) :=
    Prod.ext (configured_iff.mp h) rfl
  rw [selection] at hselect
  simp only [run, hload, hselect]
  rfl

/-- A run with a scenario goes on with its logs and the window. -/
theorem run_of_selected (h : Selected tree input config scenario) :
    run tree input host =
      ⟨(showScenario (opener tree input config) host.openWindow config scenario).1, (selection tree input config).input,
        (selection tree input config).sink, startRecord :: (selectedNotes tree input config scenario ++
          (showScenario (opener tree input config) host.openWindow config scenario).2 ++
          closing (showScenario (opener tree input config) host.openWindow config scenario).1)⟩ := by
  have hload : Config.loadOrStandard tree.openFile tree.isFile Config.fileName = (.ok config, configNotes tree) :=
    Prod.ext (configured_iff.mp h.configured) rfl
  have hselect := h.outcome
  rw [selection] at hselect
  simp only [run, hload, hselect]
  rfl

/-! ### Logs and window -/

/-- The last stages end with a log that cannot be read. -/
theorem showScenario_of_failsFirst {opener : Opener} {e : LogError}
    (h : ScenarioLogs.FailsFirst opener scenario.directory config.naming earlier kind e) :
    showScenario opener openWindow config scenario = (some (.logs scenario e),
      (earlier ++ [kind]).flatMap (ScenarioLogs.notesOn opener scenario.directory config.naming)) := by
  rw [showScenario, ScenarioLogs.load_of_failsFirst h]

/-- The last stages end with the window once the logs can be read. -/
theorem showScenario_of_reads {opener : Opener} (h : ScenarioLogs.Reads opener scenario.directory config.naming logs) :
    showScenario opener openWindow config scenario =
      (match openWindow (window config scenario logs) with
        | .ok () => none
        | .error reason => some (.window reason),
      LogKind.all.flatMap (ScenarioLogs.notesOn opener scenario.directory config.naming) ++ logs.warnings ++ [windowRecord]) := by
  rw [showScenario, ScenarioLogs.load_of_reads h]
  dsimp only
  cases openWindow (window config scenario logs) with
  | ok => rfl
  | error reason => rfl

/-! ## Endings -/

/-- The ending of a run determines its error and all that is noted. -/
theorem Ending.run_eq (h : Ending tree input host failure? notes) :
    (run tree input host).failure? = failure? ∧
      (run tree input host).journal = startRecord :: (notes ++ closing failure?) := by
  cases h with
  | config h =>
    rw [run_of_misconfigured h]
    exact ⟨rfl, rfl⟩
  | selection h hselect =>
    rw [run_of_selection_error h hselect]
    exact ⟨rfl, rfl⟩
  | logs h hfails =>
    rw [run_of_selected h, showScenario_of_failsFirst hfails]
    exact ⟨rfl, rfl⟩
  | window h hwindow =>
    rw [run_of_selected h.selected, showScenario_of_reads h.reads, hwindow]
    exact ⟨rfl, by simp only [loadedNotes, List.append_assoc]⟩
  | closed h hwindow =>
    rw [run_of_selected h.selected, showScenario_of_reads h.reads, hwindow]
    exact ⟨rfl, by simp only [loadedNotes, List.append_assoc]⟩

/-- Every run has an ending. -/
theorem exists_ending (tree : Tree) (input : Script) (host : Host) :
    ∃ failure? notes, Ending tree input host failure? notes := by
  rcases hconfig : (Config.loadOrStandard tree.openFile tree.isFile Config.fileName).1 with e | config
  · exact ⟨_, _, .config (misconfigured_iff.mpr hconfig)⟩
  · have hconfigured := configured_iff.mpr hconfig
    rcases hselect : (selection tree input config).outcome with e | scenario
    · exact ⟨_, _, .selection hconfigured hselect⟩
    · have hselected : Selected tree input config scenario := ⟨hconfigured, hselect⟩
      rcases ScenarioLogs.load_cases (opener tree input config) scenario.directory config.naming with
        ⟨logs, hreads⟩ | ⟨earlier, kind, e, hfails⟩
      · rcases hwindow : host.openWindow (window config scenario logs) with reason | _
        · exact ⟨_, _, .window ⟨hselected, hreads⟩ hwindow⟩
        · exact ⟨_, _, .closed ⟨hselected, hreads⟩ hwindow⟩
      · exact ⟨_, _, .logs hselected hfails⟩

/-- The ending of a run. -/
theorem run_ending (tree : Tree) (input : Script) (host : Host) :
    ∃ notes, Ending tree input host (run tree input host).failure? notes ∧
      (run tree input host).journal = startRecord :: (notes ++ closing (run tree input host).failure?) := by
  obtain ⟨failure?, notes, hending⟩ := exists_ending tree input host
  obtain ⟨hfailure, hjournal⟩ := hending.run_eq
  rw [hfailure]
  exact ⟨notes, hending, hjournal⟩

/-- A run has one ending: its error, and the notes between its first and the note on the error. -/
theorem ending_iff (tree : Tree) (input : Script) (host : Host) (failure? : Option SessionError) (notes : Journal) :
    Ending tree input host failure? notes ↔ (run tree input host).failure? = failure? ∧
      (run tree input host).journal = startRecord :: (notes ++ closing failure?) := by
  constructor
  · exact Ending.run_eq
  · rintro ⟨rfl, hjournal⟩
    obtain ⟨notes', hending, hjournal'⟩ := run_ending tree input host
    obtain rfl : notes' = notes := List.append_cancel_right (List.cons.inj (hjournal'.symm.trans hjournal)).2
    exact hending

/-! ## Notes -/

/-- A note that is no error and not on the window. -/
def Preliminary (record : Record) : Prop :=
  record.level ≠ .error ∧ record.topic ≠ .window

/-- The notes on the configuration. -/
theorem preliminary_of_mem_configNotes : ∀ record ∈ configNotes tree, Preliminary record := by
  intro record hrecord
  obtain ⟨hlevel, htopic⟩ := of_mem_configNotes hrecord
  simp [Preliminary, hlevel, htopic]

/-- The notes on a selection. -/
theorem preliminary_of_mem_selection : ∀ record ∈ (selection tree input config).journal, Preliminary record := by
  intro record hrecord
  obtain ⟨hlevel, htopic⟩ := of_mem_selection hrecord
  simp [Preliminary, hlevel, htopic]

/-- The notes up to the selection of a scenario. -/
theorem preliminary_of_mem_selectedNotes : ∀ record ∈ selectedNotes tree input config scenario, Preliminary record := by
  intro record hrecord
  rw [selectedNotes, List.mem_append, List.mem_append, List.mem_singleton] at hrecord
  rcases hrecord with (hrecord | hrecord) | rfl
  · exact preliminary_of_mem_configNotes record hrecord
  · exact preliminary_of_mem_selection record hrecord
  · exact ⟨nofun, nofun⟩

/-- The notes on logs. -/
theorem preliminary_of_mem_notesOn {opener : Opener} {directory : String} {naming : LogNaming} {kinds : List LogKind} :
    ∀ record ∈ kinds.flatMap (ScenarioLogs.notesOn opener directory naming), Preliminary record := by
  intro record hrecord
  obtain ⟨kind, -, hmem⟩ := List.mem_flatMap.mp hrecord
  obtain ⟨hlevel, htopic⟩ := ScenarioLogs.notesOn_levels kind record hmem
  rcases hlevel with hlevel | hlevel
  · simp [Preliminary, hlevel, htopic]
  · simp [Preliminary, hlevel, htopic]

/-- The warnings about logs. -/
theorem preliminary_of_mem_warnings : ∀ record ∈ logs.warnings, Preliminary record := by
  intro record hrecord
  obtain ⟨kind, -, rfl⟩ := List.mem_map.mp hrecord
  exact ⟨nofun, nofun⟩

/-- The notes up to the window, and the one on the window. -/
theorem preliminary_of_mem_loadedNotes :
    ∀ record ∈ loadedNotes tree input config scenario logs, Preliminary record ∨ record = windowRecord := by
  intro record hrecord
  rw [loadedNotes, List.mem_append, List.mem_append, List.mem_append, List.mem_singleton] at hrecord
  rcases hrecord with (hrecord | hrecord | hrecord) | hrecord
  · exact Or.inl (preliminary_of_mem_selectedNotes record hrecord)
  · exact Or.inl (preliminary_of_mem_notesOn record hrecord)
  · exact Or.inl (preliminary_of_mem_warnings record hrecord)
  · exact Or.inr hrecord

/-- All that is noted up to an ending is preliminary, but for the window once the logs are loaded. -/
theorem Ending.preliminary (h : Ending tree input host failure? notes) : ∀ record ∈ notes,
    Preliminary record ∨ record = windowRecord ∧ ∃ config scenario logs, Loaded tree input config scenario logs := by
  intro record hrecord
  cases h with
  | config h => exact Or.inl (preliminary_of_mem_configNotes record hrecord)
  | selection h hselect =>
    rcases List.mem_append.mp hrecord with hrecord | hrecord
    · exact Or.inl (preliminary_of_mem_configNotes record hrecord)
    · exact Or.inl (preliminary_of_mem_selection record hrecord)
  | logs h hfails =>
    rcases List.mem_append.mp hrecord with hrecord | hrecord
    · exact Or.inl (preliminary_of_mem_selectedNotes record hrecord)
    · exact Or.inl (preliminary_of_mem_notesOn record hrecord)
  | window h hwindow => exact (preliminary_of_mem_loadedNotes record hrecord).imp_right fun heq => ⟨heq, _, _, _, h⟩
  | closed h hwindow => exact (preliminary_of_mem_loadedNotes record hrecord).imp_right fun heq => ⟨heq, _, _, _, h⟩

/-- Nothing that is noted between the first note of a run and its end is an error. -/
theorem Ending.level_ne_error (h : Ending tree input host failure? notes) :
    ∀ record ∈ startRecord :: notes, record.level ≠ .error := by
  intro record hrecord
  rcases List.mem_cons.mp hrecord with rfl | hrecord
  · exact nofun
  · rcases h.preliminary record hrecord with hpreliminary | ⟨rfl, -⟩
    · exact hpreliminary.1
    · exact nofun

/-- The window is noted if and only if a run gets through the stages before. -/
theorem windowRecord_mem_iff (tree : Tree) (input : Script) (host : Host) :
    windowRecord ∈ (run tree input host).journal ↔ ∃ config scenario logs, Loaded tree input config scenario logs := by
  constructor
  · obtain ⟨notes, hending, hjournal⟩ := run_ending tree input host
    rw [hjournal, List.mem_cons, List.mem_append]
    rintro (hmem | hmem | hmem)
    · exact absurd hmem (by decide)
    · rcases hending.preliminary _ hmem with hpreliminary | ⟨-, hloaded⟩
      · exact absurd rfl hpreliminary.2
      · exact hloaded
    · cases hfailure : (run tree input host).failure? with
      | none =>
        rw [hfailure] at hmem
        cases hmem
      | some e =>
        rw [hfailure, closing, List.mem_singleton] at hmem
        exact absurd (congrArg Record.topic hmem) nofun
  · rintro ⟨config, scenario, logs, h⟩
    have hmem : windowRecord ∈ loadedNotes tree input config scenario logs := by simp [loadedNotes]
    cases hwindow : host.openWindow (window config scenario logs) with
    | ok =>
      rw [(Ending.closed h hwindow).run_eq.2]
      exact List.mem_cons_of_mem _ (List.mem_append_left _ hmem)
    | error reason =>
      rw [(Ending.window h hwindow).run_eq.2]
      exact List.mem_cons_of_mem _ (List.mem_append_left _ hmem)

/-! ## What has no part in a run -/

/-- A run whose selection fails depends on no file but that of the configuration. -/
theorem run_congr_of_selection_error {e : SelectionError} (h : Configured tree config)
    (hselect : (selection tree input config).outcome = .error e) (houtline : tree.outline = tree'.outline)
    (hfile : tree.find Config.fileName = tree'.find Config.fileName) :
    run tree' input host = run tree input host := by
  have hload := Config.loadOrStandard_congr hfile
  have hconfigured : Configured tree' config := by rwa [configured_iff, ← hload, ← configured_iff]
  obtain ⟨houtcome, hinput, hsink, hjournal⟩ := FileSystem.select_congr config.logRoot Sink.neverFails_unlimited
    (Tree.list_behind_congr houtline input.readings)
  have hselect' : (selection tree' input config).outcome = .error e := houtcome.symm.trans hselect
  rw [run_of_selection_error hconfigured hselect', run_of_selection_error h hselect, configNotes, configNotes, hload]
  rw [selection, selectScenario, selection, selectScenario, hinput, hsink, hjournal]

/-- A run that does not come to its window does not depend on the window system. -/
theorem run_congr_of_not_loaded (h : windowRecord ∉ (run tree input host).journal) :
    run tree input { host with openWindow } = run tree input host := by
  obtain ⟨notes, hending, -⟩ := run_ending tree input host
  have hno : ∀ config scenario logs, ¬ Loaded tree input config scenario logs := fun config scenario logs hloaded =>
    h ((windowRecord_mem_iff tree input host).mpr ⟨config, scenario, logs, hloaded⟩)
  generalize (run tree input host).failure? = failure? at hending
  cases hending with
  | config h =>
    rw [run_of_misconfigured h, run_of_misconfigured h]
    rfl
  | selection h hselect => rw [run_of_selection_error h hselect, run_of_selection_error h hselect]
  | logs h hfails =>
    rw [run_of_selected h, run_of_selected h, showScenario_of_failsFirst hfails, showScenario_of_failsFirst hfails]
  | window h hwindow => exact absurd h (hno _ _ _)
  | closed h hwindow => exact absurd h (hno _ _ _)

/-! ## What an operator gets -/

/-- A run that fails has the exit status 1, and its last note, which is its only error, has the chain of the error. -/
theorem exitCode_of_failure {e : SessionError} (h : (run tree input host).failure? = some e) :
    (run tree input host).exitCode = 1 ∧ ∃ before, (run tree input host).journal = before ++ [⟨.error, .program, e.chain⟩] ∧
      ∀ record ∈ before, record.level ≠ .error := by
  obtain ⟨notes, hending, hjournal⟩ := run_ending tree input host
  rw [h] at hjournal
  exact ⟨by rw [exitCode, h]; rfl, startRecord :: notes, hjournal, hending.level_ne_error⟩

/-- A run that does not fail has the exit status 0, and no note of an error. -/
theorem exitCode_of_success (h : (run tree input host).failure? = none) :
    (run tree input host).exitCode = 0 ∧ ∀ record ∈ (run tree input host).journal, record.level ≠ .error := by
  obtain ⟨notes, hending, hjournal⟩ := run_ending tree input host
  rw [h, closing, List.append_nil] at hjournal
  exact ⟨by rw [exitCode, h]; rfl, hjournal ▸ hending.level_ne_error⟩

/-- A run without a configuration writes nothing and leaves the input as it is, whatever that is. -/
theorem untouched_of_misconfigured {e : ConfigError} (h : Misconfigured tree e) :
    (run tree input host).sink = .unlimited ∧ (run tree input host).input = input.readings ∧
      ∀ input', run tree input' host = { run tree input host with input := input'.readings } := by
  rw [run_of_misconfigured h]
  exact ⟨rfl, rfl, fun input' => run_of_misconfigured h⟩

/-- A run without a scenario notes nothing on logs. -/
theorem topic_ne_logs_of_selection_error {e : SelectionError} (h : Configured tree config)
    (hselect : (selection tree input config).outcome = .error e) :
    ∀ record ∈ (run tree input host).journal, record.topic ≠ .logs := by
  intro record hrecord
  rw [run_of_selection_error h hselect, List.mem_cons, List.mem_append, List.mem_append] at hrecord
  rcases hrecord with rfl | (hrecord | hrecord) | hrecord
  · exact nofun
  · exact fun h => by simp [(of_mem_configNotes hrecord).2] at h
  · exact fun h => by simp [(of_mem_selection hrecord).2] at h
  · obtain rfl := List.mem_singleton.mp hrecord
    exact nofun

/-- The levels that an operator sets choose among the notes, and change neither what is written nor the exit status. -/
theorem report_of_levels (session : Session) (levels? : Option String) :
    (session.report levels?).exitCode = session.exitCode ∧ (session.report levels?).output = session.sink.text ∧
      (session.report levels?).notes = (session.journal.filter (Filter.ofSetting levels?).shows).map
        fun record => { record with message := record.rendered } :=
  ⟨rfl, rfl, rfl⟩

/-- An operator who sets no levels gets the notes up to `info`. -/
theorem report_of_none (session : Session) :
    (session.report none).notes = (session.journal.filter fun record => decide (record.level.rank ≤ Level.info.rank)).map
      fun record => { record with message := record.rendered } := by
  have hshows : ∀ record, (Filter.ofSetting none).shows record = decide (record.level.rank ≤ Level.info.rank) := by
    intro record
    rw [Filter.ofSetting, Bool.eq_iff_iff, Filter.shows_standard, decide_eq_true_eq]
  obtain ⟨-, -, hnotes⟩ := session.report_of_levels none
  rw [hnotes, List.filter_congr fun record _ => hshows record]

/-- An operator gets no control characters other than white space, and each line but the first of a note is indented. -/
theorem of_mem_report {session : Session} {levels? : Option String} {record : Record} (h : record ∈ (session.report levels?).notes) :
    (∀ c ∈ record.message.toList, isShown c = true) ∧ Indented record.message.toList := by
  obtain ⟨-, -, hnotes⟩ := session.report_of_levels levels?
  rw [hnotes] at h
  obtain ⟨noted, -, rfl⟩ := List.mem_map.mp h
  refine ⟨fun c hc => ?_, indented_rendered noted⟩
  have hmem : c ∈ noted.rendered.toList := hc
  exact isShown_of_mem_rendered hmem

/-- A configured run writes what its selection writes. -/
theorem sink_of_configured (h : Configured tree config) :
    (run tree input host).sink = (selection tree input config).sink := by
  cases hselect : (selection tree input config).outcome with
  | error e => rw [run_of_selection_error h hselect]
  | ok scenario => rw [run_of_selected ⟨h, hselect⟩]

end Run

end Session

end StreamCharts
