import StreamCharts.Proofs.Config.Loading
import StreamCharts.Proofs.Console.Limits
import StreamCharts.Proofs.Session.Stages
import StreamCharts.Session.Steps

/-!
# The requests of a run

A run that goes from request to request in a world of its own comes to the end that `Session.run` describes, with the same notes, the
same rest of the input and the same output (`Session.leads_run`): each stage is followed through its positions, the rounds of a query
by induction on the readings. So what a run asks for can be read off its stages. Behind a configuration that fails no directory is
listed, no line is read and nothing is written; behind a selection that fails no log is opened (`Session.requested_prefix`).
-/

namespace StreamCharts

namespace Session

/-! ## From position to position -/

/-- A run goes from one position to another, making requests and notes; the world answers, and changes meanwhile. -/
inductive Leads (host : Host) : World → Position → List Request → Journal → World → Position → Prop where
  | refl (world : World) (position : Position) : Leads host world position [] [] world position
  | step {world world' : World} {position position' : Position} {request : Request} {next : request.Answer → Journal × Position}
      {requests : List Request} {journal : Journal} (h : position.move host.refuse = .ask request next)
      (hrest : Leads host (world.answer host.openWindow request).2 (next (world.answer host.openWindow request).1).2 requests
        journal world' position') :
      Leads host world position (request :: requests) ((next (world.answer host.openWindow request).1).1 ++ journal) world' position'

section Leads

variable {host : Host} {world world' world'' : World} {position position' position'' : Position}
  {requests requests' : List Request} {journal journal' : Journal} {failure? : Option SessionError}

/-- One way goes on where another ends. -/
theorem Leads.trans (h : Leads host world position requests journal world' position')
    (h' : Leads host world' position' requests' journal' world'' position'') :
    Leads host world position (requests ++ requests') (journal ++ journal') world'' position'' := by
  induction h with
  | refl => exact h'
  | step hmove _ ih =>
    rw [List.cons_append, List.append_assoc]
    exact .step hmove (ih h')

/-- What a run does at a position depends on the answer alone: to one that ends, every other is a part from its start. -/
theorem Leads.prefix_of_ended (h : Leads host world position requests journal world' (.ended failure?))
    (h' : Leads host world position requests' journal' world'' position'') : requests' <+: requests ∧ journal' <+: journal := by
  generalize hended : Position.ended failure? = last at h
  induction h generalizing requests' journal' with
  | refl =>
    subst hended
    cases h' with
    | refl => exact ⟨List.prefix_refl _, List.prefix_refl _⟩
    | step hmove _ => cases hmove
  | step hmove _ ih =>
    cases h' with
    | refl => exact ⟨List.nil_prefix, List.nil_prefix⟩
    | step hmove' hrest' =>
      obtain ⟨rfl, hnext⟩ := Move.ask.inj (hmove.symm.trans hmove')
      obtain rfl := eq_of_heq hnext
      obtain ⟨hrequests, hjournal⟩ := ih hrest' hended
      exact ⟨List.cons_prefix_cons.mpr ⟨rfl, hrequests⟩, (List.prefix_append_right_inj _).mpr hjournal⟩

end Leads

section Phases

variable {host : Host} {world world' : World} {tree : Tree} {input : Script} {readings : List Reading} {sink sink' : Sink}
  {config : Config} {query : Query} {candidates : List String} {scenario : ScenarioPath} {logs : ScenarioLogs}
  {earlier : List LogKind} {kind : LogKind} {notes : Journal} {failure? : Option SessionError}

/-- A single request and its answer. -/
theorem Leads.ask {position position' : Position} {request : Request} {next : request.Answer → Journal × Position}
    {answer : request.Answer} (h : position.move host.refuse = .ask request next)
    (hanswer : world.answer host.openWindow request = (answer, world')) (hnext : next answer = (notes, position')) :
    Leads host world position [request] notes world' position' := by
  have hone := Leads.step h (.refl (world.answer host.openWindow request).2 _)
  rwa [List.append_nil, hanswer, hnext] at hone

/-! ## Queries -/

/-- A request of a query: a listing, or a use of the console. -/
def Request.OfQuery : Request → Prop
  | .readDirectory _ | .print _ | .write _ | .readLine => True
  | .isFile _ | .openFile _ | .openWindow _ => False

/-- A run goes from one position to another with requests of a query alone. -/
def Asks (host : Host) (world : World) (position : Position) (journal : Journal) (world' : World) (position' : Position) : Prop :=
  ∃ requests, (∀ request ∈ requests, request.OfQuery) ∧ Leads host world position requests journal world' position'

/-- A single request of a query and its answer. -/
theorem Asks.ask {position position' : Position} {request : Request} {next : request.Answer → Journal × Position}
    {answer : request.Answer} (h : position.move host.refuse = .ask request next) (hquery : request.OfQuery)
    (hanswer : world.answer host.openWindow request = (answer, world')) (hnext : next answer = (notes, position')) :
    Asks host world position notes world' position' :=
  ⟨[request], List.forall_mem_singleton.mpr hquery, .ask h hanswer hnext⟩

/-- One way goes on where another ends. -/
theorem Asks.trans {world'' : World} {position position' position'' : Position} {notes' : Journal}
    (h : Asks host world position notes world' position') (h' : Asks host world' position' notes' world'' position'') :
    Asks host world position (notes ++ notes') world'' position'' := by
  obtain ⟨requests, hquery, hleads⟩ := h
  obtain ⟨requests', hquery', hleads'⟩ := h'
  exact ⟨_, List.forall_mem_append.mpr ⟨hquery, hquery'⟩, hleads.trans hleads'⟩

/-- The candidates of a query. -/
def catalogue (config : Config) (query : Query) : Catalogue Tree :=
  Tree.fileSystem.catalogue (query.directory config.logRoot)

/-- Without a list of candidates a query is over. -/
theorem asks_of_not_listed {e : SelectionError} (h : (catalogue config query).list tree = .error e) :
    Asks host ⟨tree, readings, sink⟩ (.listing config query) (query.turn config (.error e)).1 ⟨tree, readings, sink⟩
      (query.turn config (.error e)).2 := by
  have hlisting : (answering (Tree.fileSystem.read tree (query.directory config.logRoot))).listEntries ()
      (query.directory config.logRoot) = .error e := h
  exact .ask rfl trivial rfl (by simp only [hlisting])

/-- A list of candidates is shown next. -/
theorem asks_of_listed (h : (catalogue config query).list tree = .ok candidates) :
    Asks host ⟨tree, readings, sink⟩ (.listing config query) [] ⟨tree, readings, sink⟩ (.showing config query candidates) := by
  have hlisting : (answering (Tree.fileSystem.read tree (query.directory config.logRoot))).listEntries ()
      (query.directory config.logRoot) = .ok candidates := h
  exact .ask rfl trivial rfl (by simp only [hlisting])

/-- A round that cannot be begun ends its query. -/
theorem asks_of_not_open {e : SelectionError}
    (h : query.question.openRound (catalogue config query) tree sink = (.error e, sink')) :
    Asks host ⟨tree, readings, sink⟩ (.listing config query) (query.turn config (.error e)).1 ⟨tree, readings, sink'⟩
      (query.turn config (.error e)).2 := by
  rw [Question.openRound] at h
  split at h
  · rename_i e' hlist
    cases h
    exact asks_of_not_listed hlist
  · rename_i candidates hlist
    split at h
    · rename_i fault sink₁ hprint
      cases h
      exact (asks_of_listed hlist).trans (.ask rfl trivial (by rw [World.answer, hprint]) rfl)
    · cases h

/-- A round that is begun goes on with the answer. -/
theorem asks_of_open (h : query.question.openRound (catalogue config query) tree sink = (.ok candidates, sink')) :
    Asks host ⟨tree, readings, sink⟩ (.listing config query) [] ⟨tree, readings, sink'⟩ (.hearing config query candidates) := by
  rw [Question.openRound] at h
  split at h
  · cases h
  · rename_i candidates' hlist
    split at h
    · cases h
    · rename_i sink₁ hprint
      cases h
      exact (asks_of_listed hlist).trans (.ask rfl trivial (by rw [World.answer, hprint]) rfl)

/-- How a run goes on behind a round: with the result of its query, or with another round. -/
def Query.next (config : Config) (query : Query) : Option (Except SelectionError String) → Journal × Position
  | some result => query.turn config result
  | none => ([], .listing config query)

/-- What is read ends a round. -/
theorem asks_of_close {outcome : Outcome} {result? : Option (Except SelectionError String)}
    (hread : world.answer host.openWindow .readLine = (outcome, ⟨tree, readings, sink⟩))
    (hclose : query.question.closeRound candidates outcome sink = (result?, sink', notes)) :
    Asks host world (.hearing config query candidates) (notes ++ (query.next config result?).1) ⟨tree, readings, sink'⟩
      (query.next config result?).2 := by
  cases outcome with
  | finished =>
    cases hclose
    exact .ask rfl trivial hread rfl
  | failed fault =>
    cases hclose
    exact .ask rfl trivial hread rfl
  | line text =>
    simp only [Question.closeRound] at hclose
    split at hclose
    · rename_i choice hvalid
      cases hclose
      refine .ask rfl trivial hread ?_
      simp only [hvalid]
      rfl
    · rename_i e hinvalid
      have hheard : Asks host world (.hearing config query candidates) [Question.rejectedRecord (answerOf text)]
          ⟨tree, readings, sink⟩ (.rejecting config query) := .ask rfl trivial hread (by simp only [hinvalid])
      -- what becomes of the rejection decides whether there is another round
      split at hclose
      · rename_i fault sink₁ hwrite
        cases hclose
        exact hheard.trans (.ask rfl trivial (by rw [World.answer, hwrite]) rfl)
      · rename_i sink₁ hwrite
        cases hclose
        exact hheard.trans (.ask rfl trivial (by rw [World.answer, hwrite]) rfl)

/-- A query is followed from round to round to its result. -/
theorem asks_query (host : Host) (config : Config) (query : Query) (readings : List Reading) (rounds : Nat) (tree : Tree)
    (sink : Sink) {dialogue : Dialogue Tree}
    (h : query.question.askFrom (catalogue config query) rounds tree sink readings = dialogue) :
    Asks host ⟨tree, readings, sink⟩ (.listing config query) (dialogue.journal ++ (query.turn config dialogue.outcome).1)
      ⟨dialogue.state, dialogue.input, dialogue.sink⟩ (query.turn config dialogue.outcome).2 := by
  subst h
  induction readings generalizing rounds tree sink with
  | nil =>
    rcases hopen : query.question.openRound (catalogue config query) tree sink with ⟨_ | candidates, sink₁⟩
    · rw [Question.askFrom_of_not_open hopen]
      exact asks_of_not_open hopen
    · rw [Question.askFrom_nil_of_open hopen]
      exact (asks_of_open hopen).trans (.ask rfl trivial rfl rfl)
  | cons reading rest ih =>
    rcases hopen : query.question.openRound (catalogue config query) tree sink with ⟨_ | candidates, sink₁⟩
    · rw [Question.askFrom_of_not_open hopen]
      exact asks_of_not_open hopen
    have hread : World.answer host.openWindow ⟨tree, reading :: rest, sink₁⟩ .readLine =
        (reading.outcome, ⟨(catalogue config query).advance tree reading, rest, sink₁⟩) := rfl
    rcases hclose : query.question.closeRound candidates reading.outcome sink₁ with ⟨_ | result, sink₂, notes⟩
    · rw [Question.askFrom_cons_of_not_close hopen hclose]
      have hround := (asks_of_open hopen).trans (asks_of_close hread hclose)
      have hrest := hround.trans (ih (rounds + 1) _ sink₂)
      simpa only [Query.next, List.nil_append, List.append_nil, List.append_assoc] using hrest
    · rw [Question.askFrom_cons_of_close hopen hclose]
      exact (asks_of_open hopen).trans (asks_of_close hread hclose)

/-- How a run goes on behind a selection. -/
def selected (config : Config) : Except SelectionError ScenarioPath → Journal × Position
  | .error e => finish (some (.selection e))
  | .ok scenario => ([selectedRecord scenario, beforeLog config scenario .adaptation], .adaptationLog config scenario)

/-- A selection is followed through its two queries. -/
theorem asks_select (host : Host) (config : Config) (readings : List Reading) (tree : Tree) (sink : Sink)
    {selection : Selection Tree} (h : selectScenario tree config.logRoot sink readings = selection) :
    Asks host ⟨tree, readings, sink⟩ (.listing config .algorithm)
      (selection.journal ++ (selected config selection.outcome).1) ⟨selection.state, selection.input, selection.sink⟩
      (selected config selection.outcome).2 := by
  subst h
  rw [selectScenario, FileSystem.select]
  generalize hask : algorithmQuestion.ask (Tree.fileSystem.catalogue config.logRoot) tree sink readings = first
  have hfirst := asks_query host config .algorithm readings 0 tree sink hask
  dsimp only
  cases hchosen : first.outcome with
  | error e =>
    rw [hchosen] at hfirst
    exact hfirst
  | ok chosen =>
    rw [hchosen] at hfirst
    dsimp only
    generalize hask' : clientCountQuestion.ask (Tree.fileSystem.catalogue (Path.join config.logRoot chosen)) first.state first.sink
      first.input = second
    have hboth := hfirst.trans (asks_query host config (.clientCount chosen) first.input 0 first.state first.sink hask')
    rw [show (Query.turn config .algorithm (.ok chosen)).1 = [] from rfl, List.append_nil, ← List.append_assoc] at hboth
    cases hcount : second.outcome with
    | error e =>
      rw [hcount] at hboth
      exact hboth
    | ok clientCount =>
      rw [hcount] at hboth
      exact hboth

/-! ## Configuration -/

/-- What a run asks for its configuration: whether there is a file, and if so for the file. -/
def configRequests (tree : Tree) : List Request :=
  .isFile Config.fileName :: if tree.isFile Config.fileName then [.openFile Config.fileName] else []

/-- A run without a configuration is over. -/
theorem leads_of_misconfigured {e : ConfigError} (h : Misconfigured tree e) (readings : List Reading) (sink : Sink) :
    Leads host ⟨tree, readings, sink⟩ .seeking (configRequests tree)
      (configNotes tree ++ closing (some (.config e (refusal host tree)))) ⟨tree, readings, sink⟩
      (.ended (some (.config e (refusal host tree)))) := by
  have hload : Config.load (fun _ => tree.openFile Config.fileName) Config.fileName = .error e := h.load
  have hnotes : configNotes tree = [Config.foundRecord Config.fileName] := by
    rw [configNotes, Config.loadOrStandard, if_pos h.isFile]
  have hfound : Leads host ⟨tree, readings, sink⟩ .seeking [.isFile Config.fileName] [Config.foundRecord Config.fileName]
      ⟨tree, readings, sink⟩ .configuring := .ask rfl rfl (by simp only [h.isFile, if_true])
  rw [hnotes, configRequests, if_pos h.isFile]
  refine hfound.trans (.ask rfl rfl ?_)
  simp only [hload]
  rfl

/-- A run with a configuration goes on with the first query. -/
theorem leads_of_configured (h : Configured tree config) (readings : List Reading) (sink : Sink) :
    Leads host ⟨tree, readings, sink⟩ .seeking (configRequests tree) (configNotes tree) ⟨tree, readings, sink⟩
      (.listing config .algorithm) := by
  cases h with
  | loaded hfile hload =>
    have hopened : Config.load (fun _ => tree.openFile Config.fileName) Config.fileName = .ok config := hload
    have hnotes : configNotes tree = [Config.foundRecord Config.fileName] := by
      rw [configNotes, Config.loadOrStandard, if_pos hfile]
    have hfound : Leads host ⟨tree, readings, sink⟩ .seeking [.isFile Config.fileName] [Config.foundRecord Config.fileName]
        ⟨tree, readings, sink⟩ .configuring := .ask rfl rfl (by simp only [hfile, if_true])
    rw [hnotes, configRequests, if_pos hfile]
    exact hfound.trans (.ask rfl rfl (by simp only [hopened]))
  | standard hfile =>
    have hnotes : configNotes tree = [Config.absentRecord Config.fileName] := by
      rw [configNotes, Config.loadOrStandard, hfile, if_neg Bool.false_ne_true]
    rw [hnotes, configRequests, hfile, if_neg Bool.false_ne_true]
    exact .ask rfl rfl (by simp only [hfile, Bool.false_eq_true, if_false])

/-! ## Logs and window -/

/-- The path of a log of a scenario. -/
abbrev logPath (config : Config) (scenario : ScenarioPath) (kind : LogKind) : String :=
  ScenarioLogs.path scenario.directory config.naming kind

/-- The request for a log of a scenario. -/
abbrev logRequest (config : Config) (scenario : ScenarioPath) (kind : LogKind) : Request :=
  .openFile (logPath config scenario kind)

section Logs

variable {adaptation : AdaptationSeries} {buffer : BufferSeries} {repeated : Journal} {e : LogError}

/-- A log that is opened before it is read. -/
theorem loadAdaptation_opened (opener : Opener) (path : String) :
    loadAdaptation (fun _ => opener path) path = loadAdaptation opener path := rfl

/-- A log that is opened before it is read. -/
theorem loadBuffer_opened (opener : Opener) (path : String) : loadBuffer (fun _ => opener path) path = loadBuffer opener path := rfl

/-- A log that is opened before it is read. -/
theorem loadThroughput_opened (opener : Opener) (path : String) :
    loadThroughput (fun _ => opener path) path = loadThroughput opener path := rfl

/-- A run reads the adaptation log and goes on with the next. -/
theorem leads_of_adaptation (h : loadAdaptation world.tree.openFile (logPath config scenario .adaptation) = .ok adaptation) :
    Leads host world (.adaptationLog config scenario) [logRequest config scenario .adaptation]
      [ScenarioLogs.parsedRecord .adaptation adaptation.length, beforeLog config scenario .buffer] world
      (.bufferLog config scenario adaptation) := by
  exact .ask rfl rfl (by simp only [loadAdaptation_opened, h])

/-- A run that cannot read the adaptation log is over. -/
theorem leads_of_adaptation_error (h : loadAdaptation world.tree.openFile (logPath config scenario .adaptation) = .error e) :
    Leads host world (.adaptationLog config scenario) [logRequest config scenario .adaptation]
      (closing (some (.logs scenario e))) world (.ended (some (.logs scenario e))) := by
  exact .ask rfl rfl (by simp only [loadAdaptation_opened, h, finish])

/-- A run reads the buffer log and goes on with the next. -/
theorem leads_of_buffer (h : loadBuffer world.tree.openFile (logPath config scenario .buffer) = .ok buffer) :
    Leads host world (.bufferLog config scenario adaptation) [logRequest config scenario .buffer]
      [ScenarioLogs.parsedRecord .buffer buffer.length, beforeLog config scenario .throughput] world
      (.throughputLog config scenario adaptation buffer) := by
  exact .ask rfl rfl (by simp only [loadBuffer_opened, h])

/-- A run that cannot read the buffer log is over. -/
theorem leads_of_buffer_error (h : loadBuffer world.tree.openFile (logPath config scenario .buffer) = .error e) :
    Leads host world (.bufferLog config scenario adaptation) [logRequest config scenario .buffer]
      (closing (some (.logs scenario e))) world (.ended (some (.logs scenario e))) := by
  exact .ask rfl rfl (by simp only [loadBuffer_opened, h, finish])

/-- A run that reads the throughput log goes on with its window. -/
theorem leads_of_throughput
    (h : loadThroughput world.tree.openFile (logPath config scenario .throughput) = (.ok logs.throughput, repeated)) :
    Leads host world (.throughputLog config scenario logs.adaptation logs.buffer) [logRequest config scenario .throughput]
      (repeated ++ [ScenarioLogs.parsedRecord .throughput logs.throughput.length] ++ logs.warnings ++ [windowRecord]) world
      (.presenting config scenario logs) := by
  exact .ask rfl rfl (by simp only [loadThroughput_opened, h])

/-- A run that cannot read the throughput log is over. -/
theorem leads_of_throughput_error
    (h : loadThroughput world.tree.openFile (logPath config scenario .throughput) = (.error e, repeated)) :
    Leads host world (.throughputLog config scenario adaptation buffer) [logRequest config scenario .throughput]
      (repeated ++ closing (some (.logs scenario e))) world (.ended (some (.logs scenario e))) := by
  exact .ask rfl rfl (by simp only [loadThroughput_opened, h, finish])

/-- The window ends a run. -/
theorem leads_of_window {failure? : Option SessionError}
    (h : failure? = match host.openWindow (window config scenario logs) with
      | .ok () => none
      | .error reason => some (.window reason)) :
    Leads host world (.presenting config scenario logs) [.openWindow (window config scenario logs)] (closing failure?) world
      (.ended failure?) := by
  refine .ask rfl rfl ?_
  subst h
  cases host.openWindow (window config scenario logs) with
  | ok => rfl
  | error reason => rfl

/-- The logs are opened one after another up to the first that cannot be read. -/
theorem leads_of_failsFirst (host : Host) (world : World)
    (h : ScenarioLogs.FailsFirst world.tree.openFile scenario.directory config.naming earlier kind e) :
    ∃ journal, Leads host world (.adaptationLog config scenario) ((earlier ++ [kind]).map (logRequest config scenario)) journal world
        (.ended (some (.logs scenario e))) ∧
      beforeLog config scenario .adaptation :: journal =
        (earlier ++ [kind]).flatMap (ScenarioLogs.notesOn world.tree.openFile scenario.directory config.naming) ++
          closing (some (.logs scenario e)) := by
  obtain ⟨⟨later, horder⟩, hreadable, hfails⟩ := h
  -- the kinds before the failing one are none, one or two, and these are known to be readable
  rcases earlier with _ | ⟨first, _ | ⟨second, _ | ⟨third, earlier⟩⟩⟩
  · cases horder
    rw [ScenarioLogs.failure?, errorOf?_eq_some_iff] at hfails
    refine ⟨_, leads_of_adaptation_error hfails, ?_⟩
    simp [beforeLog, ScenarioLogs.notesOn, ScenarioLogs.reading, hfails, Except.map]
  · cases horder
    obtain ⟨adaptation, ha⟩ := (errorOf?_eq_none_iff _).mp (hreadable .adaptation (by simp))
    rw [ScenarioLogs.failure?, errorOf?_eq_some_iff] at hfails
    refine ⟨_, (leads_of_adaptation ha).trans (leads_of_buffer_error hfails), ?_⟩
    simp [beforeLog, ScenarioLogs.notesOn, ScenarioLogs.reading, ha, hfails, Except.map]
  · cases horder
    obtain ⟨adaptation, ha⟩ := (errorOf?_eq_none_iff _).mp (hreadable .adaptation (by simp))
    obtain ⟨buffer, hb⟩ := (errorOf?_eq_none_iff _).mp (hreadable .buffer (by simp))
    rw [ScenarioLogs.failure?, errorOf?_eq_some_iff] at hfails
    rcases hload : loadThroughput world.tree.openFile (logPath config scenario .throughput) with ⟨result, repeated⟩
    obtain rfl : result = .error e := by rwa [hload] at hfails
    refine ⟨_, (leads_of_adaptation ha).trans ((leads_of_buffer hb).trans (leads_of_throughput_error hload)), ?_⟩
    simp [beforeLog, ScenarioLogs.notesOn, ScenarioLogs.reading, ha, hb, hload, Except.map]
  · exact absurd (congrArg List.length horder) (by simp [LogKind.all])

/-- Once the logs are read the window is opened, and what comes of it ends the run. -/
theorem leads_of_reads (host : Host) (world : World)
    (h : ScenarioLogs.Reads world.tree.openFile scenario.directory config.naming logs) {failure? : Option SessionError}
    (hwindow : failure? = match host.openWindow (window config scenario logs) with
      | .ok () => none
      | .error reason => some (.window reason)) :
    ∃ journal, Leads host world (.adaptationLog config scenario)
        (LogKind.all.map (logRequest config scenario) ++ [.openWindow (window config scenario logs)]) journal world (.ended failure?) ∧
      beforeLog config scenario .adaptation :: journal =
        LogKind.all.flatMap (ScenarioLogs.notesOn world.tree.openFile scenario.directory config.naming) ++ logs.warnings ++
          [windowRecord] ++ closing failure? := by
  obtain ⟨ha, hb, ht⟩ := h
  rcases hload : loadThroughput world.tree.openFile (logPath config scenario .throughput) with ⟨result, repeated⟩
  obtain rfl : result = .ok logs.throughput := by rwa [hload] at ht
  refine ⟨_, (leads_of_adaptation ha).trans ((leads_of_buffer hb).trans ((leads_of_throughput hload).trans
    (leads_of_window hwindow))), ?_⟩
  simp [beforeLog, LogKind.all, ScenarioLogs.notesOn, ScenarioLogs.reading, ha, hb, hload, Except.map]

end Logs

/-! ## Whole runs -/

/-- What a run asks for up to the stage in which it ends. -/
inductive Requested (tree : Tree) (input : Script) (host : Host) : List Request → Prop where
  | config {e : ConfigError} (h : Misconfigured tree e) : Requested tree input host (configRequests tree)
  | selection {config : Config} {e : SelectionError} {queries : List Request} (h : Configured tree config)
      (hselect : (selection tree input config).outcome = .error e) (hqueries : ∀ request ∈ queries, request.OfQuery) :
      Requested tree input host (configRequests tree ++ queries)
  | logs {config : Config} {scenario : ScenarioPath} {queries : List Request} {earlier : List LogKind} {kind : LogKind}
      {e : LogError} (h : Selected tree input config scenario) (hqueries : ∀ request ∈ queries, request.OfQuery)
      (hfails : ScenarioLogs.FailsFirst (opener tree input config) scenario.directory config.naming earlier kind e) :
      Requested tree input host (configRequests tree ++ (queries ++ (earlier ++ [kind]).map (logRequest config scenario)))
  | window {config : Config} {scenario : ScenarioPath} {logs : ScenarioLogs} {queries : List Request}
      (h : Loaded tree input config scenario logs) (hqueries : ∀ request ∈ queries, request.OfQuery) :
      Requested tree input host (configRequests tree ++
        (queries ++ (LogKind.all.map (logRequest config scenario) ++ [.openWindow (window config scenario logs)])))

/-- The world behind the selection of a run. -/
abbrev worldSelected (tree : Tree) (input : Script) (config : Config) : World :=
  ⟨(selection tree input config).state, (selection tree input config).input, (selection tree input config).sink⟩

/-- A run with a scenario goes on with its logs. -/
theorem leads_of_selected (host : Host) (h : Selected tree input config scenario) :
    ∃ queries, (∀ request ∈ queries, request.OfQuery) ∧
      Leads host (.start tree input) .seeking (configRequests tree ++ queries)
        (selectedNotes tree input config scenario ++ [beforeLog config scenario .adaptation])
        (worldSelected tree input config) (.adaptationLog config scenario) := by
  obtain ⟨queries, hqueries, hselect⟩ := asks_select host config input.readings tree .unlimited rfl
  refine ⟨queries, hqueries, ?_⟩
  have houtcome : (selectScenario tree config.logRoot .unlimited input.readings).outcome = .ok scenario := h.outcome
  rw [houtcome] at hselect
  have hleads := (leads_of_configured h.configured input.readings .unlimited).trans hselect
  rw [selectedNotes, List.append_assoc, List.append_assoc]
  exact hleads

/-- A run that loads its logs comes to its window, and ends by what comes of it. -/
theorem leads_of_loaded (h : Loaded tree input config scenario logs)
    (hwindow : failure? = match host.openWindow (window config scenario logs) with
      | .ok () => none
      | .error reason => some (.window reason)) :
    ∃ requests, Requested tree input host requests ∧
      Leads host (.start tree input) .seeking requests (loadedNotes tree input config scenario logs ++ closing failure?)
        (worldSelected tree input config) (.ended failure?) := by
  obtain ⟨queries, hqueries, hselected⟩ := leads_of_selected host h.selected
  obtain ⟨journal, hlogs, hjournal⟩ := leads_of_reads host (worldSelected tree input config) h.reads hwindow
  refine ⟨_, .window h hqueries, ?_⟩
  have hrun := hselected.trans hlogs
  rw [List.append_assoc (selectedNotes tree input config scenario), List.singleton_append, hjournal] at hrun
  simpa only [loadedNotes, opener, List.append_assoc] using hrun

/-- A run that goes from request to request comes to its end, with the same notes. -/
theorem leads_of_ending (h : Ending tree input host failure? notes) :
    ∃ requests tree', Requested tree input host requests ∧
      Leads host (.start tree input) .seeking requests (notes ++ closing failure?)
        ⟨tree', (run tree input host).input, (run tree input host).sink⟩ (.ended failure?) := by
  cases h with
  | config h =>
    rw [run_of_misconfigured h]
    exact ⟨_, tree, .config h, leads_of_misconfigured h input.readings .unlimited⟩
  | @selection config e h hselect =>
    obtain ⟨queries, hqueries, hselected⟩ := asks_select host config input.readings tree .unlimited rfl
    have houtcome : (selectScenario tree config.logRoot .unlimited input.readings).outcome = .error e := hselect
    rw [houtcome] at hselected
    rw [run_of_selection_error h hselect, List.append_assoc]
    exact ⟨_, _, .selection h hselect hqueries, (leads_of_configured h input.readings .unlimited).trans hselected⟩
  | @logs config scenario earlier kind e h hfails =>
    obtain ⟨queries, hqueries, hselected⟩ := leads_of_selected host h
    obtain ⟨journal, hlogs, hjournal⟩ := leads_of_failsFirst host (worldSelected tree input config) hfails
    have hrun := hselected.trans hlogs
    rw [List.append_assoc (selectedNotes tree input config scenario), List.singleton_append, hjournal,
      ← List.append_assoc (selectedNotes tree input config scenario), List.append_assoc (configRequests tree)] at hrun
    rw [run_of_selected h]
    exact ⟨_, _, .logs h hqueries hfails, hrun⟩
  | window h hwindow =>
    obtain ⟨requests, hrequests, hrun⟩ := leads_of_loaded h (by rw [hwindow])
    rw [run_of_selected h.selected]
    exact ⟨requests, _, hrequests, hrun⟩
  | closed h hwindow =>
    obtain ⟨requests, hrequests, hrun⟩ := leads_of_loaded h (by rw [hwindow])
    rw [run_of_selected h.selected]
    exact ⟨requests, _, hrequests, hrun⟩

/-- Every run comes to its end from request to request, with its notes, its output and what it leaves of the input. -/
theorem exists_leads (tree : Tree) (input : Script) (host : Host) :
    ∃ requests journal world, Requested tree input host requests ∧
      Leads host (.start tree input) .seeking requests journal world (.ended (run tree input host).failure?) ∧
      (run tree input host).journal = startRecord :: journal ∧ (run tree input host).input = world.input ∧
      (run tree input host).sink = world.sink := by
  obtain ⟨notes, hending, hjournal⟩ := run_ending tree input host
  obtain ⟨requests, tree', hrequests, hleads⟩ := leads_of_ending hending
  exact ⟨requests, _, _, hrequests, hleads, hjournal, rfl, rfl⟩

/-- However far a run has come, its requests are the first of those up to its end. -/
theorem requested_prefix {requests : List Request} {journal : Journal} {position : Position}
    (h : Leads host (.start tree input) .seeking requests journal world position) :
    ∃ whole, Requested tree input host whole ∧ requests <+: whole := by
  obtain ⟨whole, journal', world', hwhole, hleads, -⟩ := exists_leads tree input host
  exact ⟨whole, hwhole, (hleads.prefix_of_ended h).1⟩

/-- A run is not both configured and misconfigured. -/
theorem Configured.not_misconfigured {e : ConfigError} (h : Configured tree config) : ¬ Misconfigured tree e := by
  intro hno
  rw [configured_iff] at h
  rw [misconfigured_iff, h] at hno
  cases hno

/-- A run without a configuration asks for nothing but that. -/
theorem Requested.of_misconfigured {e : ConfigError} {requests : List Request} (h : Requested tree input host requests)
    (hno : Misconfigured tree e) : requests = configRequests tree := by
  cases h with
  | config _ => rfl
  | selection hconfigured _ _ => exact absurd hno hconfigured.not_misconfigured
  | logs hselected _ _ => exact absurd hno hselected.configured.not_misconfigured
  | window hloaded _ => exact absurd hno hloaded.selected.configured.not_misconfigured

/-- A run with a configuration has one. -/
theorem Configured.unique {config' : Config} (h : Configured tree config) (h' : Configured tree config') : config = config' := by
  rw [configured_iff] at h h'
  exact Except.ok.inj (h.symm.trans h')

/-- A run without a scenario opens no file but that of the configuration. -/
theorem configOnly_of_selection_error {e : SelectionError} {requests : List Request} (h : Requested tree input host requests)
    (hconfigured : Configured tree config) (hselect : (selection tree input config).outcome = .error e) {path : String}
    (hopen : .openFile path ∈ requests) : path = Config.fileName := by
  have hno {scenario : ScenarioPath} {config' : Config} (hselected : Selected tree input config' scenario) : False := by
    obtain rfl := hconfigured.unique hselected.configured
    rw [hselected.outcome] at hselect
    cases hselect
  cases h with
  | config hmisconfigured => exact absurd hmisconfigured hconfigured.not_misconfigured
  | selection _ _ hqueries =>
    rcases List.mem_append.mp hopen with hopen | hopen
    · rw [configRequests] at hopen
      split at hopen
      · simpa using hopen
      · simp at hopen
    · exact (hqueries _ hopen).elim
  | logs hselected _ _ => exact (hno hselected).elim
  | window hloaded _ => exact (hno hloaded.selected).elim

end Phases

end Session

/-- A run goes through its stages in order and stops at the first that fails: its ending says in which stage it ends, with what, and
what is noted up to there. Made request by request, it comes to the same end, and asks for what its stages need and for no more. The
window is noted if and only if the configuration, the selection and all logs succeed. A run that fails has the exit status 1, and its
last note, which is its only error, has the chain of the error. Behind a configuration that fails nothing is written and nothing is
read; behind a selection that fails no log is opened, and the contents of the logs have no part; where the window is not noted the
window system has none. What is written is what the selection writes. The levels that an operator sets choose among the notes, and
change neither what is written nor the exit status; if none are set, the notes up to `info` are shown. -/
theorem run_stops_at_first_failing_stage (tree : Tree) (input : Script) (host : Session.Host) :
    (∀ failure? notes, Session.Ending tree input host failure? notes ↔
      (Session.run tree input host).failure? = failure? ∧
        (Session.run tree input host).journal = Session.startRecord :: (notes ++ Session.closing failure?)) ∧
    (∃ requests journal world, Session.Requested tree input host requests ∧
      Session.Leads host (.start tree input) .seeking requests journal world (.ended (Session.run tree input host).failure?) ∧
      (Session.run tree input host).journal = Session.startRecord :: journal ∧
      (Session.run tree input host).input = world.input ∧ (Session.run tree input host).sink = world.sink) ∧
    (Session.windowRecord ∈ (Session.run tree input host).journal ↔
      ∃ config scenario logs, Session.Loaded tree input config scenario logs) ∧
    (∀ e, (Session.run tree input host).failure? = some e →
      (Session.run tree input host).exitCode = 1 ∧ ∃ before,
        (Session.run tree input host).journal = before ++ [⟨.error, .program, e.chain⟩] ∧
          ∀ record ∈ before, record.level ≠ .error) ∧
    ((Session.run tree input host).failure? = none →
      (Session.run tree input host).exitCode = 0 ∧
        ∀ record ∈ (Session.run tree input host).journal, record.level ≠ .error) ∧
    (∀ e, Session.Misconfigured tree e →
      ((Session.run tree input host).sink = .unlimited ∧ (Session.run tree input host).input = input.readings ∧
        ∀ input', Session.run tree input' host = { Session.run tree input host with input := input'.readings }) ∧
      ∀ requests journal world position, Session.Leads host (.start tree input) .seeking requests journal world position →
        requests <+: Session.configRequests tree) ∧
    (∀ config e, Session.Configured tree config → (Session.selection tree input config).outcome = .error e →
      (∀ record ∈ (Session.run tree input host).journal, record.topic ≠ .logs) ∧
      (∀ tree' : Tree, tree.outline = tree'.outline → tree.find Config.fileName = tree'.find Config.fileName →
          Session.run tree' input host = Session.run tree input host) ∧
      ∀ requests journal world position, Session.Leads host (.start tree input) .seeking requests journal world position →
        ∀ path, .openFile path ∈ requests → path = Config.fileName) ∧
    (Session.windowRecord ∉ (Session.run tree input host).journal → ∀ openWindow,
      Session.run tree input { host with openWindow } = Session.run tree input host) ∧
    (∀ config, Session.Configured tree config →
      (Session.run tree input host).sink = (Session.selection tree input config).sink) ∧
    (∀ levels?, ((Session.run tree input host).report levels?).exitCode = (Session.run tree input host).exitCode ∧
      ((Session.run tree input host).report levels?).output = (Session.run tree input host).sink.text ∧
      ((Session.run tree input host).report levels?).notes =
        ((Session.run tree input host).journal.filter (Filter.ofSetting levels?).shows).map
          fun record => { record with message := record.rendered }) ∧
    ((Session.run tree input host).report none).notes =
      ((Session.run tree input host).journal.filter fun record => decide (record.level.rank ≤ Level.info.rank)).map
        fun record => { record with message := record.rendered } := by
  refine ⟨Session.ending_iff tree input host, Session.exists_leads tree input host, Session.windowRecord_mem_iff tree input host,
    fun e => Session.exitCode_of_failure, Session.exitCode_of_success,
    fun e h => ⟨Session.untouched_of_misconfigured h, fun requests journal world position hleads => ?_⟩,
    fun config e h hselect => ⟨Session.topic_ne_logs_of_selection_error h hselect, fun tree' houtline hfile => ?_,
      fun requests journal world position hleads path hopen => ?_⟩,
    fun h openWindow => Session.run_congr_of_not_loaded h, fun config => Session.sink_of_configured,
    (Session.run tree input host).report_of_levels, (Session.run tree input host).report_of_none⟩
  · obtain ⟨whole, hwhole, hfirst⟩ := Session.requested_prefix hleads
    rwa [hwhole.of_misconfigured h] at hfirst
  · exact Session.run_congr_of_selection_error h hselect houtline hfile
  · obtain ⟨whole, hwhole, hfirst⟩ := Session.requested_prefix hleads
    exact Session.configOnly_of_selection_error hwhole h hselect (hfirst.subset hopen)

/-! ## A run with a log root outside the working directory -/

/-- The text of a configuration whose log root is elsewhere. -/
def plottedText : String := "log-root = \"/data/dash\"\nclient-id = 3\n"

/-- A working directory with this configuration, and the logs of one scenario below the root; the buffer log has the given text. -/
def plotted (bufferLog : String) : Tree :=
  let place (names : List String) : Place := names.map Text.utf8
  ⟨place ["home", "operator"],
    [(place ["home", "operator", "visualizer.toml"], .file (Text.utf8 plottedText)),
      (place ["data"], .directory), (place ["data", "dash"], .directory), (place ["data", "dash", "panda"], .directory),
      (place ["data", "dash", "panda", "2"], .directory),
      (place ["data", "dash", "panda", "2", "sim1_cl3_adaptationLog.txt"], .file (Text.utf8 "segIndex rep time case delayCase\n0 4 0.0 A B\n")),
      (place ["data", "dash", "panda", "2", "sim1_cl3_bufferLog.txt"], .file (Text.utf8 bufferLog)),
      (place ["data", "dash", "panda", "2", "sim1_cl3_throughputLog.txt"], .file (Text.utf8 "timeNow bandwidth\n0 100\n"))]⟩

/-- The configuration in this directory. -/
def plottedConfig : Config :=
  { Config.standard with logRoot := "/data/dash", client := 3 }

/-- The scenario below its log root. -/
def plottedScenario : ScenarioPath :=
  ⟨"/data/dash", "panda", "2"⟩

/-- Answers that choose it. -/
def plottedAnswers : Script :=
  [.bytes (Text.utf8 "panda\n2\n")]

namespace Session

/-- The configuration is loaded. -/
theorem configured_plotted (bufferLog : String) : Configured (plotted bufferLog) plottedConfig := by
  have hopen : (plotted bufferLog).openFile Config.fileName = .ok [.bytes (Text.utf8 plottedText)] := by cbv
  have hdelivers : (plotted bufferLog).openFile.Delivers Config.fileName plottedText := ⟨_, hopen, by decide +kernel⟩
  refine .loaded (by cbv) ?_
  rw [Config.load_of_delivers hdelivers]
  decide +kernel

/-- The scenario is selected, and the files stay as they are. -/
theorem selection_plotted (bufferLog : String) :
    (selection (plotted bufferLog) plottedAnswers plottedConfig).outcome = .ok plottedScenario ∧
      (selection (plotted bufferLog) plottedAnswers plottedConfig).state = plotted bufferLog := by
  have hreadings : plottedAnswers.readings = [⟨.line "panda\n", []⟩, ⟨.line "2\n", []⟩, ⟨.finished, []⟩] := by decide +kernel
  have hroot : listEntries (plotted bufferLog) "/data/dash" = .ok ["panda"] := by cbv
  have hjoin : Path.join "/data/dash" "panda" = "/data/dash/panda" := by decide +kernel
  have hpanda : listEntries (plotted bufferLog) (Path.join "/data/dash" "panda") = .ok ["2"] := by
    rw [hjoin]
    cbv
  have hfirst : Tree.fileSystem.Exchange (plotted bufferLog) plottedAnswers.readings "/data/dash" 0 [] (.ok "panda") := by
    refine ⟨fun r answer h => absurd h (by simp), ?_⟩
    rw [hreadings]
    change Ends (listEntries (plotted bufferLog) "/data/dash") _ _
    rw [hroot]
    exact .chosen (.newline "panda" (by decide)) (by decide)
  have hsecond : Tree.fileSystem.Exchange (plotted bufferLog) plottedAnswers.readings (Path.join "/data/dash" "panda") 1 []
      (.ok "2") := by
    refine ⟨fun r answer h => absurd h (by simp), ?_⟩
    rw [hreadings]
    change Ends (listEntries (plotted bufferLog) (Path.join "/data/dash" "panda")) _ _
    rw [hpanda]
    exact .chosen (.newline "2" (by decide)) (by decide)
  have hlines := hsecond.linesRead_of_ok
  have hselection : selection (plotted bufferLog) plottedAnswers plottedConfig =
      Tree.fileSystem.select (plotted bufferLog) "/data/dash" .unlimited plottedAnswers.readings := rfl
  rw [hselection, FileSystem.select_of_ok Sink.neverFails_unlimited hfirst hsecond]
  simp only [FileSystem.consumed, List.length_nil, Nat.zero_add] at hlines ⊢
  rw [hlines, hreadings]
  exact ⟨rfl, rfl⟩

/-- The adaptation log can be read. -/
theorem adaptation_plotted (bufferLog : String) :
    ∃ adaptation, loadAdaptation (plotted bufferLog).openFile (logPath plottedConfig plottedScenario .adaptation) = .ok adaptation := by
  have hpath : logPath plottedConfig plottedScenario .adaptation = "/data/dash/panda/2/sim1_cl3_adaptationLog.txt" := by
    decide +kernel
  have hopen : (plotted bufferLog).openFile "/data/dash/panda/2/sim1_cl3_adaptationLog.txt" =
      .ok [.bytes (Text.utf8 "segIndex rep time case delayCase\n0 4 0.0 A B\n")] := by cbv
  rw [hpath, loadAdaptation, hopen]
  exact ⟨⟨[(0, 4)]⟩, by decide +kernel⟩

/-- The buffer log holds the given text. -/
theorem buffer_plotted (bufferLog : String) :
    loadBuffer (plotted bufferLog).openFile (logPath plottedConfig plottedScenario .buffer) =
      parseBuffer "/data/dash/panda/2/sim1_cl3_bufferLog.txt" [.bytes (Text.utf8 bufferLog)] := by
  have hpath : logPath plottedConfig plottedScenario .buffer = "/data/dash/panda/2/sim1_cl3_bufferLog.txt" := by
    decide +kernel
  have hopen : (plotted bufferLog).openFile "/data/dash/panda/2/sim1_cl3_bufferLog.txt" =
      .ok [.bytes (Text.utf8 bufferLog)] := by cbv
  rw [hpath, loadBuffer, hopen]

/-- The throughput log can be read. -/
theorem throughput_plotted (bufferLog : String) :
    ∃ throughput,
      (loadThroughput (plotted bufferLog).openFile (logPath plottedConfig plottedScenario .throughput)).1 = .ok throughput := by
  have hpath : logPath plottedConfig plottedScenario .throughput = "/data/dash/panda/2/sim1_cl3_throughputLog.txt" := by
    decide +kernel
  have hopen : (plotted bufferLog).openFile "/data/dash/panda/2/sim1_cl3_throughputLog.txt" =
      .ok [.bytes (Text.utf8 "timeNow bandwidth\n0 100\n")] := by cbv
  rw [hpath, loadThroughput, hopen]
  exact ⟨⟨[(0, 100)]⟩, by decide +kernel⟩

/-- A run with a buffer log that can be read gets to its window. -/
theorem loaded_plotted {bufferLog : String} {buffer : BufferSeries}
    (h : parseBuffer "/data/dash/panda/2/sim1_cl3_bufferLog.txt" [.bytes (Text.utf8 bufferLog)] = .ok buffer) :
    ∃ logs, Loaded (plotted bufferLog) plottedAnswers plottedConfig plottedScenario logs := by
  obtain ⟨houtcome, hstate⟩ := selection_plotted bufferLog
  obtain ⟨adaptation, hadaptation⟩ := adaptation_plotted bufferLog
  obtain ⟨throughput, hthroughput⟩ := throughput_plotted bufferLog
  have hopener : opener (plotted bufferLog) plottedAnswers plottedConfig = (plotted bufferLog).openFile := by
    rw [opener, hstate]
  refine ⟨⟨adaptation, buffer, throughput⟩, ⟨configured_plotted bufferLog, houtcome⟩, ?_⟩
  rw [hopener]
  exact ⟨hadaptation, (buffer_plotted bufferLog).trans h, hthroughput⟩

/-- A run with a buffer log that cannot be read ends there. -/
theorem ending_plotted (host : Host) {bufferLog : String} {e : LogError}
    (h : parseBuffer "/data/dash/panda/2/sim1_cl3_bufferLog.txt" [.bytes (Text.utf8 bufferLog)] = .error e) :
    ∃ notes, Ending (plotted bufferLog) plottedAnswers host (some (.logs plottedScenario e)) notes := by
  obtain ⟨houtcome, hstate⟩ := selection_plotted bufferLog
  obtain ⟨adaptation, hadaptation⟩ := adaptation_plotted bufferLog
  have hopener : opener (plotted bufferLog) plottedAnswers plottedConfig = (plotted bufferLog).openFile := by
    rw [opener, hstate]
  have hfails : ScenarioLogs.FailsFirst (plotted bufferLog).openFile plottedScenario.directory plottedConfig.naming [.adaptation]
      .buffer e := by
    refine ⟨⟨[.throughput], rfl⟩, List.forall_mem_singleton.mpr ?_, ?_⟩
    · exact (errorOf?_eq_none_iff _).mpr ⟨adaptation, hadaptation⟩
    · exact (errorOf?_eq_some_iff _ _).mpr ((buffer_plotted bufferLog).trans h)
  exact ⟨_, .logs ⟨configured_plotted bufferLog, houtcome⟩ (hopener ▸ hfails)⟩

end Session

/-- A host whose windows open. -/
def plottedHost : Session.Host :=
  ⟨fun _ => "", fun _ => .ok ()⟩

/-- Below a log root outside the working directory a run gets to its window. With a word for a number in the buffer log it ends at
that log, and the window is not noted. -/
theorem run_with_log_root_outside :
    Session.windowRecord ∈ (Session.run (plotted "timeNow bufferLevel\n1 10\n") plottedAnswers plottedHost).journal ∧
      (Session.run (plotted "timeNow bufferLevel\n1 10\n") plottedAnswers plottedHost).exitCode = 0 ∧
      (Session.run (plotted "timeNow bufferLevel\n1 ten\n") plottedAnswers plottedHost).exitCode = 1 ∧
      ∃ before, (Session.run (plotted "timeNow bufferLevel\n1 ten\n") plottedAnswers plottedHost).journal =
          before ++ [⟨.error, .program, "Failed to load logs for panda with 2 clients: " ++
            "/data/dash/panda/2/sim1_cl3_bufferLog.txt:2: invalid buffer level value \"ten\""⟩] ∧
        ∀ record ∈ before, record.level ≠ .error := by
  have hgood : parseBuffer "/data/dash/panda/2/sim1_cl3_bufferLog.txt" [.bytes (Text.utf8 "timeNow bufferLevel\n1 10\n")] =
      .ok ⟨[(1, 10)]⟩ := by decide +kernel
  have hbad : parseBuffer "/data/dash/panda/2/sim1_cl3_bufferLog.txt" [.bytes (Text.utf8 "timeNow bufferLevel\n1 ten\n")] =
      .error (.invalidNumber "/data/dash/panda/2/sim1_cl3_bufferLog.txt" 2 "buffer level" "ten") := by decide +kernel
  obtain ⟨logs, hloaded⟩ := Session.loaded_plotted hgood
  obtain ⟨notes, hending⟩ := Session.ending_plotted plottedHost hbad
  obtain ⟨hendings, -, hwindow, -, hsuccess, -⟩ := run_stops_at_first_failing_stage (plotted "timeNow bufferLevel\n1 10\n")
    plottedAnswers plottedHost
  obtain ⟨hclosed, -⟩ := (hendings _ _).mp (.closed hloaded rfl)
  obtain ⟨hendings', -, -, hfailure, -⟩ := run_stops_at_first_failing_stage (plotted "timeNow bufferLevel\n1 ten\n") plottedAnswers
    plottedHost
  obtain ⟨hfailed, -⟩ := (hendings' _ _).mp hending
  obtain ⟨hcode, before, hjournal, hlevels⟩ := hfailure _ hfailed
  have hchain : SessionError.chain (.logs plottedScenario
      (.invalidNumber "/data/dash/panda/2/sim1_cl3_bufferLog.txt" 2 "buffer level" "ten")) =
      "Failed to load logs for panda with 2 clients: " ++
        "/data/dash/panda/2/sim1_cl3_bufferLog.txt:2: invalid buffer level value \"ten\"" := by decide +kernel
  rw [hchain] at hjournal
  exact ⟨hwindow.mpr ⟨_, _, logs, hloaded⟩, (hsuccess hclosed).1, hcode, before, hjournal, hlevels⟩

end StreamCharts
