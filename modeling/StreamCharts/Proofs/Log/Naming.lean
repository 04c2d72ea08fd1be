import StreamCharts.Config
import StreamCharts.Proofs.Files.Names
import StreamCharts.Proofs.Log.Loading
import StreamCharts.Proofs.Text.Numerals

/-!
# Names of log files

The name of a log file consists of three parts between underscores: the simulation, the client, and the word for the kind. None of
them holds an underscore, so the name can be taken apart again, and all three are read back from it
(`LogNaming.ofFileName?_fileName`). As no name holds a slash either, each log lies directly in the directory of its scenario, and
has a name of its own there. The main statement is `log_files_told_apart_by_name`.
-/

namespace StreamCharts

namespace LogNaming

/-! ## The parts of a file name -/

/-- What stands between the underscores of a file name: the simulation, the client and the kind. -/
def fileNameParts (naming : LogNaming) (kind : LogKind) : List (List Char) :=
  ['s' :: 'i' :: 'm' :: Nat.toDigits 10 naming.simulation.toNat, 'c' :: 'l' :: Nat.toDigits 10 naming.client.toNat,
    (kind.word ++ "Log.txt").toList]

/-- A file name is its parts, with underscores between them. -/
theorem toList_fileName (naming : LogNaming) (kind : LogKind) :
    (naming.fileName kind).toList = ['_'].intercalate (naming.fileNameParts kind) := by
  simp [fileName, fileNameParts, Numeral.decimal, String.toList_append, List.intercalate]

/-- The parts of a file name are made of letters, digits and dots. -/
theorem chars_fileNameParts (naming : LogNaming) (kind : LogKind) :
    ∀ part ∈ naming.fileNameParts kind, ∀ c ∈ part, c.isAlphanum = true ∨ c = '.' := by
  have hdigits (n : Nat) : ∀ c ∈ Nat.toDigits 10 n, c.isAlphanum = true ∨ c = '.' := by
    intro c hc
    have hdigit := Nat.isDigit_of_mem_toDigits (by decide) (by decide) hc
    exact Or.inl (by simp [Char.isAlphanum, hdigit])
  -- a computation on the list: to decide a statement about characters would go through all of them
  have hall : ((kind.word ++ "Log.txt").toList.all fun c => c.isAlphanum || c == '.') = true := by
    cases kind <;> decide
  have hword : ∀ c ∈ (kind.word ++ "Log.txt").toList, c.isAlphanum = true ∨ c = '.' := by
    simpa only [List.all_eq_true, Bool.or_eq_true, beq_iff_eq] using hall
  intro part hpart
  simp only [fileNameParts, List.mem_cons, List.not_mem_nil, or_false] at hpart
  rcases hpart with rfl | rfl | rfl
  · simpa using hdigits naming.simulation.toNat
  · simpa using hdigits naming.client.toNat
  · exact hword

/-- The underscores of a file name are those between its parts. -/
theorem splitOn_fileName (naming : LogNaming) (kind : LogKind) :
    (naming.fileName kind).toList.splitOn '_' = naming.fileNameParts kind := by
  rw [toList_fileName]
  refine List.splitOn_intercalate '_' (fun part hpart hmem => ?_) (by simp [fileNameParts])
  exact absurd (naming.chars_fileNameParts kind part hpart '_' hmem) (by decide)

/-- No file name holds a slash. -/
theorem slash_notMem_fileName (naming : LogNaming) (kind : LogKind) : '/' ∉ (naming.fileName kind).toList := by
  have hparts : ∀ part ∈ naming.fileNameParts kind, '/' ∉ part := by
    intro part hpart hmem
    exact absurd (naming.chars_fileNameParts kind part hpart '/' hmem) (by decide)
  simp only [fileNameParts, List.forall_mem_cons] at hparts
  obtain ⟨hsimulation, hclient, hkind, -⟩ := hparts
  rw [toList_fileName, fileNameParts]
  simp only [List.intercalate, List.intersperse_cons_cons, List.intersperse_singleton, List.flatten_cons, List.flatten_nil,
    List.mem_append, not_or]
  exact ⟨hsimulation, by decide, hclient, by decide, hkind, by decide⟩

/-- A file name leads one step down from its directory. -/
theorem isName_fileName (naming : LogNaming) (kind : LogKind) : Path.IsName (naming.fileName kind) := by
  have hhead : (naming.fileName kind).toList.head? = some 's' := by simp [fileName, String.toList_append]
  have hne (name : String) (hname : name.toList.head? ≠ some 's') : naming.fileName kind ≠ name := by
    rintro rfl
    exact hname hhead
  exact ⟨hne "" (by decide), hne "." (by decide), hne ".." (by decide), naming.slash_notMem_fileName kind⟩

/-! ## Reading back -/

/-- Takes a file name apart: the simulation behind `sim`, the client behind `cl`, and the kind by its word. -/
def ofFileName? (name : String) : Option (LogNaming × LogKind) :=
  match name.toList.splitOn '_' with
  | ['s' :: 'i' :: 'm' :: simulation, 'c' :: 'l' :: client, word] => do
    let simulation ← Numeral.uint32? (String.ofList simulation)
    let client ← Numeral.uint32? (String.ofList client)
    let kind ← LogKind.all.find? fun kind => kind.word ++ "Log.txt" == String.ofList word
    some (⟨simulation, client⟩, kind)
  | _ => none

/-- Each kind is found by what its file names end with. -/
theorem find?_word (kind : LogKind) :
    (LogKind.all.find? fun kind' => kind'.word ++ "Log.txt" == kind.word ++ "Log.txt") = some kind := by
  cases kind <;> decide

/-- The simulation, the client and the kind are read back from a file name. -/
theorem ofFileName?_fileName (naming : LogNaming) (kind : LogKind) : ofFileName? (naming.fileName kind) = some (naming, kind) := by
  have hnumber (x : UInt32) : Numeral.uint32? (String.ofList (Nat.toDigits 10 x.toNat)) = some x := Numeral.uint32?_decimal x
  rw [ofFileName?, splitOn_fileName, fileNameParts]
  simp [hnumber, find?_word]

/-- Different logs have files of different names. -/
theorem fileName_injective : Function.Injective fun log : LogNaming × LogKind => log.1.fileName log.2 := by
  rintro ⟨naming, kind⟩ ⟨naming', kind'⟩ h
  have hback := congrArg ofFileName? h
  dsimp only at hback
  rw [ofFileName?_fileName, ofFileName?_fileName] at hback
  exact Option.some.inj hback

end LogNaming

namespace ScenarioLogs

variable {directory : String} {naming naming' : LogNaming} {kind kind' : LogKind}

/-! ## Paths -/

/-- The path of a log is that of its directory and a part more, the file name. -/
theorem parts_path (directory : String) (naming : LogNaming) (kind : LogKind) :
    Path.parts (path directory naming kind) = Path.parts directory ++ [naming.fileName kind] :=
  Path.parts_join directory (naming.isName_fileName kind)

/-- The path of a log starts where that of its directory does. -/
theorem isAbsolute_path (directory : String) (naming : LogNaming) (kind : LogKind) :
    Path.isAbsolute (path directory naming kind) = Path.isAbsolute directory :=
  Path.isAbsolute_join directory (naming.isName_fileName kind)

/-- The place of a log is directly below that of its directory. -/
theorem place_path (home : Place) (directory : String) (naming : LogNaming) (kind : LogKind) :
    Place.ofPath home (path directory naming kind) = Place.ofPath home directory ++ [Text.utf8 (naming.fileName kind)] :=
  Place.ofPath_join home directory (naming.isName_fileName kind)

/-- Paths of different logs in a directory are no spellings of one path. -/
theorem same_path_eq_false (h : (naming, kind) ≠ (naming', kind')) :
    Path.same (path directory naming kind) (path directory naming' kind') = false := by
  rw [Path.same, Bool.and_eq_false_iff]
  right
  rw [beq_eq_false_iff_ne, parts_path, parts_path]
  intro hparts
  have hname : naming.fileName kind = naming'.fileName kind' := by simpa using hparts
  exact h (LogNaming.fileName_injective hname)

/-- In no tree do paths of different logs in a directory lead to one place. -/
theorem resolve_path_ne (h : (naming, kind) ≠ (naming', kind')) {tree : Tree} {place place' : Place}
    (hplace : tree.resolve (path directory naming kind) = .ok place)
    (hplace' : tree.resolve (path directory naming' kind') = .ok place') : place ≠ place' := by
  rw [Tree.place_of_resolve hplace, Tree.place_of_resolve hplace', place_path, place_path]
  intro hsame
  have hbytes : Text.utf8 (naming.fileName kind) = Text.utf8 (naming'.fileName kind') := by simpa using hsame
  exact h (LogNaming.fileName_injective (Text.utf8_injective hbytes))

/-! ## Logs of two configurations -/

/-- Configurations with different simulations or clients have no log in common. -/
theorem log_ne_of_config {config config' : Config} (h : config.simulation ≠ config'.simulation ∨ config.client ≠ config'.client)
    (kind kind' : LogKind) : (config.naming, kind) ≠ (config'.naming, kind') := by
  intro hlog
  have hnaming : config.naming = config'.naming := congrArg Prod.fst hlog
  rcases h with hsimulation | hclient
  · exact hsimulation (congrArg LogNaming.simulation hnaming)
  · exact hclient (congrArg LogNaming.client hnaming)

/-- What is loaded for a configuration depends on no file at a path for the logs of another. -/
theorem load_congr_of_other {config config' : Config}
    (h : config.simulation ≠ config'.simulation ∨ config.client ≠ config'.client) {opener opener' : Opener}
    (hagree : ∀ path, (∀ kind, Path.same path (ScenarioLogs.path directory config'.naming kind) = false) →
      opener path = opener' path) :
    load opener directory config.naming = load opener' directory config.naming :=
  load_congr fun kind => hagree _ fun kind' => same_path_eq_false (log_ne_of_config h kind kind')

end ScenarioLogs

/-- The simulation, the client and the kind of a log are read back from the name of its file, so different logs have files of
different names. No such name holds a slash, and in whatever directory, the path of a log is that of the directory with the name
below it. The logs of two kinds have paths of which neither is a spelling of the other. Of two configurations with different
simulations or clients, the paths are different in the same way, for all kinds, and in no tree do they lead to one place; what is
loaded for one of them depends on no file at a path for the other. -/
theorem log_files_told_apart_by_name :
    (∀ naming kind, LogNaming.ofFileName? (naming.fileName kind) = some (naming, kind)) ∧
    (Function.Injective fun log : LogNaming × LogKind => log.1.fileName log.2) ∧
    (∀ (naming : LogNaming) (kind : LogKind), '/' ∉ (naming.fileName kind).toList) ∧
    ∀ directory,
      (∀ naming kind,
        Path.isAbsolute (ScenarioLogs.path directory naming kind) = Path.isAbsolute directory ∧
          Path.parts (ScenarioLogs.path directory naming kind) = Path.parts directory ++ [naming.fileName kind] ∧
          ∀ home, Place.ofPath home (ScenarioLogs.path directory naming kind) =
            Place.ofPath home directory ++ [Text.utf8 (naming.fileName kind)]) ∧
      (∀ naming kind kind', kind ≠ kind' →
        Path.same (ScenarioLogs.path directory naming kind) (ScenarioLogs.path directory naming kind') = false) ∧
      ∀ config config' : Config, config.simulation ≠ config'.simulation ∨ config.client ≠ config'.client →
        (∀ kind kind', Path.same (ScenarioLogs.path directory config.naming kind)
          (ScenarioLogs.path directory config'.naming kind') = false) ∧
        (∀ (tree : Tree) kind kind' place place', tree.resolve (ScenarioLogs.path directory config.naming kind) = .ok place →
          tree.resolve (ScenarioLogs.path directory config'.naming kind') = .ok place' → place ≠ place') ∧
        ∀ opener opener' : Opener,
          (∀ path, (∀ kind, Path.same path (ScenarioLogs.path directory config'.naming kind) = false) →
            opener path = opener' path) →
          ScenarioLogs.load opener directory config.naming = ScenarioLogs.load opener' directory config.naming := by
  refine ⟨LogNaming.ofFileName?_fileName, LogNaming.fileName_injective, LogNaming.slash_notMem_fileName, fun directory => ?_⟩
  refine ⟨fun naming kind => ?_, fun naming kind kind' hne => ?_, fun config config' hne => ⟨fun kind kind' => ?_, ?_, ?_⟩⟩
  · exact ⟨ScenarioLogs.isAbsolute_path directory naming kind, ScenarioLogs.parts_path directory naming kind,
      fun home => ScenarioLogs.place_path home directory naming kind⟩
  · exact ScenarioLogs.same_path_eq_false fun h => hne (congrArg Prod.snd h)
  · exact ScenarioLogs.same_path_eq_false (ScenarioLogs.log_ne_of_config hne kind kind')
  · intro tree kind kind' place place' hplace hplace'
    exact ScenarioLogs.resolve_path_ne (ScenarioLogs.log_ne_of_config hne kind kind') hplace hplace'
  · exact fun opener opener' hagree => ScenarioLogs.load_congr_of_other hne hagree

/-- The first simulation and its eleventh client, against the eleventh simulation and its first client: the buffer log of the latter
has no part in what is loaded for the former. -/
theorem logs_of_one_eleven_and_eleven_one :
    ({ Config.standard with simulation := 1, client := 11 } : Config).simulation ≠
        ({ Config.standard with simulation := 11, client := 1 } : Config).simulation ∧
      LogNaming.ofFileName? "sim1_cl11_bufferLog.txt" = some (⟨1, 11⟩, .buffer) ∧
      LogNaming.ofFileName? "sim11_cl1_bufferLog.txt" = some (⟨11, 1⟩, .buffer) ∧
      Path.same "d/sim1_cl11_bufferLog.txt" "d/sim11_cl1_bufferLog.txt" = false ∧
      ScenarioLogs.load (fun path => if path = "d/sim11_cl1_bufferLog.txt" then .ok [.bytes (Text.utf8 "h\n1 2\n")]
          else .error .missing) "d" ⟨1, 11⟩ =
        ScenarioLogs.load (fun _ => .error .missing) "d" ⟨1, 11⟩ := by
  obtain ⟨hback, -, -, hdirectory⟩ := log_files_told_apart_by_name
  obtain ⟨-, -, hconfigs⟩ := hdirectory "d"
  have hne : ({ Config.standard with simulation := 1, client := 11 } : Config).simulation ≠
      ({ Config.standard with simulation := 11, client := 1 } : Config).simulation := by decide
  obtain ⟨hpaths, -, hload⟩ := hconfigs _ _ (Or.inl hne)
  refine ⟨hne, hback ⟨1, 11⟩ .buffer, hback ⟨11, 1⟩ .buffer, hpaths .buffer .buffer, hload _ _ fun path hother => ?_⟩
  refine if_neg ?_
  rintro rfl
  exact absurd (hother .buffer) (by decide +kernel)

end StreamCharts
