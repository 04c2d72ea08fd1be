import StreamCharts.Proofs.Config.Entries
import StreamCharts.Proofs.Text.Lines
import StreamCharts.Proofs.Toml.Lines
import StreamCharts.Proofs.Toml.Order

/-!
# Loading of configurations

A file gives a configuration if and only if its text is a document whose every entry is taken by a setting; its lines may then
stand in any order (`Config.ofText_of_lines_perm`). Otherwise the error is that the text is no document, or what is wrong with
the first entry that is not taken (`config_decided_by_first_flawed_key`).
-/

namespace StreamCharts

open Toml (Value Entries documentOfText? statementsOf? namedKeys body IsLine WrittenIn)

/-- Whether a file with a given text is opened at a path. -/
def Opener.Delivers (opener : Opener) (path text : String) : Prop :=
  ∃ script, opener path = .ok script ∧ script.content = .ok (Text.utf8 text)

/-- A value that a setting takes is plain. -/
theorem Setting.HasType.isPlain {setting : Setting} {value : Value} (h : setting.HasType value) : value.IsPlain := by
  cases setting <;> cases value <;> first | exact trivial | exact h.elim

/-- So are the values of entries that are taken. -/
theorem isPlain_of_taken {entries : Entries} (h : ∀ entry ∈ entries, Taken entry) : ∀ entry ∈ entries, entry.2.IsPlain := by
  intro entry hentry
  obtain ⟨setting, -, htype, -⟩ := h entry hentry
  exact htype.isPlain

namespace Config

/-- The text of a file decides what is loaded. -/
theorem load_of_delivers {opener : Opener} {path text : String} (h : opener.Delivers path text) :
    load opener path = ofText path text := by
  obtain ⟨script, hopen, hcontent⟩ := h
  have htext : fileText opener path = .ok text := by
    rw [fileText, hopen]
    simp only [bind, Except.bind, hcontent, Text.ofUtf8?_utf8]
  rw [load, htext]

/-- What is loaded of a document is what its entries give. -/
theorem ofText_of_document (path : String) {text : String} {entries : Entries} (h : documentOfText? text = some entries) :
    ofText path text = (ofEntries entries).mapError (.flawed path) := by
  rw [ofText, h]
  dsimp only
  cases ofEntries entries <;> rfl

/-- A text that is no document is refused. -/
theorem ofText_of_none (path : String) {text : String} (h : documentOfText? text = none) :
    ofText path text = .error (.notToml path) := by
  rw [ofText, h]

/-- A text gives a configuration if it is a document whose entries give it. -/
theorem ofText_eq_ok_iff (path text : String) (config : Config) : ofText path text = .ok config ↔
    ∃ entries, documentOfText? text = some entries ∧ ofEntries entries = .ok config := by
  cases hdocument : documentOfText? text with
  | none =>
    rw [ofText_of_none path hdocument]
    simp
  | some entries =>
    rw [ofText_of_document path hdocument]
    cases hentries : ofEntries entries <;> simp [Except.mapError, hentries]

/-- A text has a flaw if it is a document whose entries have it. -/
theorem ofText_eq_flawed_iff (path text : String) (flaw : ConfigFlaw) : ofText path text = .error (.flawed path flaw) ↔
    ∃ entries, documentOfText? text = some entries ∧ FirstFlaw entries flaw := by
  cases hdocument : documentOfText? text with
  | none =>
    rw [ofText_of_none path hdocument]
    simp
  | some entries =>
    rw [ofText_of_document path hdocument]
    simp only [Option.some_inj, exists_eq_left', ← ofEntries_eq_error_iff]
    cases hentries : ofEntries entries <;> simp [Except.mapError]

/-- The entries of a text that gives a configuration are taken, and their keys are all different. -/
theorem exists_taken_of_ofText {path text : String} {config : Config} (h : ofText path text = .ok config) :
    ∃ entries, documentOfText? text = some entries ∧ (∀ entry ∈ entries, Taken entry) ∧ (entries.map Prod.fst).Nodup ∧
      ofEntries entries = .ok config := by
  obtain ⟨entries, hdocument, hentries⟩ := (ofText_eq_ok_iff path text config).mp h
  have ht := (exists_ofEntries_iff entries).mp ⟨config, hentries⟩
  exact ⟨entries, hdocument, ht, ((Toml.documentOfText?_eq_some_iff text (isPlain_of_taken ht)).mp hdocument).2, hentries⟩

/-- Lines in another order give the same configuration. -/
theorem ofText_of_lines_perm {path text : String} {config : Config} (h : ofText path text = .ok config)
    {lines lines' : List (List Char)} (hw : WrittenIn (body text) lines) (hl : ∀ line ∈ lines, IsLine line)
    (hp : lines.Perm lines') {text' : String} (hw' : WrittenIn (body text') lines') (path' : String) :
    ofText path' text' = .ok config := by
  obtain ⟨entries, hdocument, ht, hn, hconfig⟩ := exists_taken_of_ofText h
  obtain ⟨entries', hdocument', hperm⟩ :=
    Toml.document_perm_of_lines_perm (isPlain_of_taken ht) hdocument hw hl hp hw'
  have hconfig' := ofEntries_of_perm hperm hn hconfig
  exact (ofText_eq_ok_iff path' text' config).mpr ⟨entries', hdocument', hconfig'⟩

/-! ## What is loaded of a file -/

section Load

variable {opener : Opener} {path text : String}

/-- The keys of a document are those that its statements name. -/
theorem exists_statements_of_document {entries : Entries} (h : documentOfText? text = some entries) :
    ∃ ss, statementsOf? (body text) = some ss ∧ entries.map Prod.fst = namedKeys false [] ss := by
  obtain ⟨ss, hss, hentries⟩ := Option.bind_eq_some_iff.mp h
  exact ⟨ss, hss, Toml.keys_of_document hentries⟩

/-- A file gives a configuration if and only if all entries of its document are taken. -/
theorem exists_load_iff (h : opener.Delivers path text) :
    (∃ config, load opener path = .ok config) ↔ ∃ entries, documentOfText? text = some entries ∧ ∀ entry ∈ entries, Taken entry := by
  rw [load_of_delivers h]
  simp only [ofText_eq_ok_iff, ← exists_ofEntries_iff]
  constructor
  · rintro ⟨config, entries, hdocument, hconfig⟩
    exact ⟨entries, hdocument, config, hconfig⟩
  · rintro ⟨entries, hdocument, config, hconfig⟩
    exact ⟨config, entries, hdocument, hconfig⟩

/-- A configuration is settled by the entries of its file. -/
theorem settled_of_load (h : opener.Delivers path text) {config : Config} (hload : load opener path = .ok config) :
    ∃ entries, documentOfText? text = some entries ∧ (entries.map Prod.fst).Nodup ∧ Settled .standard entries config := by
  rw [load_of_delivers h] at hload
  obtain ⟨entries, hdocument, -, hn, hentries⟩ := exists_taken_of_ofText hload
  obtain ⟨-, hsettled⟩ := (ofEntries_eq_ok_iff hn config).mp hentries
  exact ⟨entries, hdocument, hn, hsettled⟩

/-- The text of a configuration can be cut into lines that have one key at most. -/
theorem exists_lines_of_load (h : opener.Delivers path text) {config : Config} (hload : load opener path = .ok config) :
    ∃ lines, WrittenIn (body text) lines ∧ ∀ line ∈ lines, IsLine line := by
  rw [load_of_delivers h] at hload
  obtain ⟨entries, hdocument, ht, -⟩ := exists_taken_of_ofText hload
  exact Toml.exists_lines_of_document (isPlain_of_taken ht) hdocument

/-- A file with the same lines in another order gives the same configuration. -/
theorem load_of_lines_perm (h : opener.Delivers path text) {config : Config} (hload : load opener path = .ok config)
    {lines lines' : List (List Char)} (hw : WrittenIn (body text) lines) (hl : ∀ line ∈ lines, IsLine line)
    (hp : lines.Perm lines') {opener' : Opener} {path' text' : String} (hw' : WrittenIn (body text') lines')
    (h' : opener'.Delivers path' text') : load opener' path' = .ok config := by
  rw [load_of_delivers h] at hload
  rw [load_of_delivers h']
  exact ofText_of_lines_perm hload hw hl hp hw' path'

/-- The error of a file is its first flaw. -/
theorem load_eq_flawed_iff (h : opener.Delivers path text) (flaw : ConfigFlaw) :
    load opener path = .error (.flawed path flaw) ↔
      ∃ entries, documentOfText? text = some entries ∧ FirstFlaw entries flaw := by
  rw [load_of_delivers h]
  exact ofText_eq_flawed_iff path text flaw

/-- A file with an entry that is not taken has a flaw. -/
theorem exists_flaw_of_not_taken (h : opener.Delivers path text) {entries : Entries} (hdocument : documentOfText? text = some entries)
    (hnot : ∃ entry ∈ entries, ¬ Taken entry) : ∃ flaw, load opener path = .error (.flawed path flaw) := by
  obtain ⟨entry, hentry, hnot⟩ := hnot
  rcases taken_or_firstFlaw entries with hall | ⟨flaw, hflaw⟩
  · exact absurd (hall entry hentry) hnot
  · exact ⟨flaw, (load_eq_flawed_iff h flaw).mpr ⟨entries, hdocument, hflaw⟩⟩

/-- A file whose text is no document is refused as such. -/
theorem load_of_none (h : opener.Delivers path text) (hdocument : documentOfText? text = none) :
    load opener path = .error (.notToml path) := by
  rw [load_of_delivers h]
  exact ofText_of_none path hdocument

end Load

end Config

/-- A file gives a configuration if and only if its text is a document whose every key is that of a setting and has a value that
the setting takes. Then each key that is given settles its own field, the others stay standard, and the lines, of which each has
one key at most, may stand in any order. Otherwise the first key that is not taken, in the order of the document, is the error,
whatever follows it. -/
theorem config_decided_by_first_flawed_key {opener : Opener} {path text : String} (h : opener.Delivers path text) :
    (∀ entries, documentOfText? text = some entries →
      ∃ ss, statementsOf? (body text) = some ss ∧ entries.map Prod.fst = namedKeys false [] ss) ∧
    ((∃ config, Config.load opener path = .ok config) ↔
      ∃ entries, documentOfText? text = some entries ∧ ∀ entry ∈ entries, Taken entry) ∧
    (∀ config, Config.load opener path = .ok config →
      (∃ entries, documentOfText? text = some entries ∧ (entries.map Prod.fst).Nodup ∧
        Config.Settled .standard entries config) ∧
      (∃ lines, WrittenIn (body text) lines ∧ ∀ line ∈ lines, IsLine line) ∧
      ∀ lines lines' text' opener' path', WrittenIn (body text) lines → (∀ line ∈ lines, IsLine line) → lines.Perm lines' →
        WrittenIn (body text') lines' → Opener.Delivers opener' path' text' → Config.load opener' path' = .ok config) ∧
    (∀ flaw, Config.load opener path = .error (.flawed path flaw) ↔
      ∃ entries, documentOfText? text = some entries ∧ FirstFlaw entries flaw) ∧
    (∀ entries, documentOfText? text = some entries → (∃ entry ∈ entries, ¬ Taken entry) →
      ∃ flaw, Config.load opener path = .error (.flawed path flaw)) ∧
    (documentOfText? text = none → Config.load opener path = .error (.notToml path)) := by
  refine ⟨fun entries => Config.exists_statements_of_document, Config.exists_load_iff h, fun config hload => ?_,
    Config.load_eq_flawed_iff h, fun entries => Config.exists_flaw_of_not_taken h, Config.load_of_none h⟩
  refine ⟨Config.settled_of_load h hload, Config.exists_lines_of_load h hload, ?_⟩
  intro lines lines' text' opener' path' hw hl hp hw' h'
  exact Config.load_of_lines_perm h hload hw hl hp hw' h'

/-- Of three flawed keys the first is reported. -/
theorem first_of_three_flawed_keys :
    Opener.Delivers (fun _ => .ok [.bytes (Text.utf8 "client-id = -1\nclient_id = 2\nlog-root = []\n")]) Config.fileName
        "client-id = -1\nclient_id = 2\nlog-root = []\n" ∧
      ∃ entries, documentOfText? "client-id = -1\nclient_id = 2\nlog-root = []\n" = some entries ∧
        FirstFlaw entries (.outOfRange (-1) .client) := by
  have hfile : Opener.Delivers (fun _ => .ok [.bytes (Text.utf8 "client-id = -1\nclient_id = 2\nlog-root = []\n")])
      Config.fileName "client-id = -1\nclient_id = 2\nlog-root = []\n" :=
    ⟨_, rfl, congrArg _ (List.append_nil _)⟩
  obtain ⟨-, -, -, hflawed, -⟩ := config_decided_by_first_flawed_key hfile
  exact ⟨hfile, (hflawed _).mp (by decide +kernel)⟩

end StreamCharts
