import Mathlib.Data.List.Perm.Basic
import StreamCharts.Proofs.Toml.Rounds
import StreamCharts.Proofs.Toml.Statements

/-!
# Lines by themselves

A document of keys with plain values is written in lines that are read by themselves, each with one key at most
(`exists_lines_of_document`), and lines that are read by themselves are read one after another, whatever line ends are between
them (`WrittenIn.rounds`). So the lines of such a document may stand in any order (`document_perm_of_lines_perm`).
-/

namespace StreamCharts.Toml

/-- Whether a text is written in given lines, with a line end of either kind between each and the next. -/
inductive WrittenIn : List Char → List (List Char) → Prop where
  | last (line : List Char) : WrittenIn line [line]
  | newline {cs : List Char} {lines : List (List Char)} (line : List Char) (h : WrittenIn cs lines) :
    WrittenIn (line ++ '\n' :: cs) (line :: lines)
  | carriage {cs : List Char} {lines : List (List Char)} (line : List Char) (h : WrittenIn cs lines) :
    WrittenIn (line ++ '\r' :: '\n' :: cs) (line :: lines)

/-- Of nothing no statement is read. -/
theorem Rounds.eq_nil {ss : List Statement} (h : Rounds [] ss) : ss = [] :=
  (Option.some.inj ((statements?_of_blanks 0 rfl).symm.trans (h.statements?_eq Nat.one_pos))).symm

/-- A line end and what follows it are left behind the last round of a line. -/
theorem Round.rounds_append {line behind more : List Char} {ss ss' : List Statement} (h : Round line ss [])
    (hend : LineEnd behind more) (hne : behind ≠ []) (hm : Rounds more ss') : Rounds (line ++ behind) (ss ++ ss') := by
  obtain ⟨line, own, rfl, hown, hreads⟩ := h.reads
  have hlt := hend.length_lt hne
  by_cases hnil : own = []
  · rw [hnil, List.append_nil]
    exact .round (hreads behind more hend) (by simp; omega) hm
  · -- the line has a line end of its own, and a line without characters is between the two
    have hvoid : Round behind [] more := .void hend.lineEnd?_eq
    rw [List.append_assoc]
    refine .round (hreads _ _ (hown.append hnil behind)) ?_ (.round hvoid hlt hm)
    have hpos := List.length_pos_iff.mpr hnil
    simp
    omega

/-- Behind a line that is read by itself the reading goes on. -/
theorem Rounds.append {line behind more : List Char} {ss ss' : List Statement} (h : Rounds line ss)
    (hend : LineEnd behind more) (hne : behind ≠ []) (hm : Rounds more ss') : Rounds (line ++ behind) (ss ++ ss') := by
  induction h with
  | last h => exact h.rounds_append hend hne hm
  | @round cs rest first others h hlt hr ih =>
    obtain ⟨line, own, rfl, hown, hreads⟩ := h.reads
    by_cases hnil : own = []
    · subst hnil
      obtain rfl := hown.eq_nil
      have hfirst : first ++ others = first := by rw [hr.eq_nil, List.append_nil]
      rw [hfirst]
      exact h.rounds_append hend hne hm
    · rw [List.append_assoc, List.append_assoc]
      refine .round (hreads _ _ (hown.append hnil behind)) ?_ ih
      have hlt' := hown.length_lt hnil
      simp
      omega

/-- Lines that are read by themselves are read one after another. -/
theorem WrittenIn.rounds {cs : List Char} {lines : List (List Char)} (h : WrittenIn cs lines) {ss : List Char → List Statement}
    (hl : ∀ line ∈ lines, Rounds line (ss line)) : Rounds cs (lines.flatMap ss) := by
  induction h with
  | last line => simpa using hl
  | newline line h ih =>
    obtain ⟨hline, hlines⟩ := List.forall_mem_cons.mp hl
    exact hline.append (.newline _) nofun (ih hlines)
  | carriage line h ih =>
    obtain ⟨hline, hlines⟩ := List.forall_mem_cons.mp hl
    exact hline.append (.carriage _) nofun (ih hlines)

/-- A text that is read in rounds is written in lines that are read by themselves, each with one statement at most. -/
theorem Rounds.exists_lines {cs : List Char} {ss : List Statement} (h : Rounds cs ss) :
    ∃ pieces : List (List Char × List Statement), WrittenIn cs (pieces.map Prod.fst) ∧ ss = pieces.flatMap Prod.snd ∧
      ∀ piece ∈ pieces, Rounds piece.1 piece.2 ∧ piece.2.length ≤ 1 := by
  have hempty : Rounds [] [] := .last (.void rfl)
  induction h with
  | @last cs ss h =>
    obtain ⟨line, behind, rfl, hend, hreads⟩ := h.reads
    have hline : Rounds line ss ∧ ss.length ≤ 1 := ⟨.last (by simpa using hreads _ _ .last), h.length_le⟩
    have hlines : ∀ piece ∈ [(line, ss), ([], [])], Rounds piece.1 piece.2 ∧ piece.2.length ≤ 1 := by
      simpa using ⟨hline, hempty⟩
    cases hend with
    | last => exact ⟨[(line, ss)], by simpa using .last line, by simp, by simpa using hline⟩
    | newline => exact ⟨[(line, ss), ([], [])], .newline line (.last []), by simp, hlines⟩
    | carriage => exact ⟨[(line, ss), ([], [])], .carriage line (.last []), by simp, hlines⟩
  | @round cs rest first others h hlt hr ih =>
    obtain ⟨line, behind, rfl, hend, hreads⟩ := h.reads
    have hline : Rounds line first ∧ first.length ≤ 1 := ⟨.last (by simpa using hreads _ _ .last), h.length_le⟩
    obtain ⟨pieces, htext, rfl, hpieces⟩ := ih
    cases hend with
    | last =>
      rw [hr.eq_nil]
      exact ⟨[(line, first)], by simpa using .last line, by simp, by simpa using hline⟩
    | newline => exact ⟨(line, first) :: pieces, .newline line htext, rfl, List.forall_mem_cons.mpr ⟨hline, hpieces⟩⟩
    | carriage => exact ⟨(line, first) :: pieces, .carriage line htext, rfl, List.forall_mem_cons.mpr ⟨hline, hpieces⟩⟩

/-! ## Documents of keys with plain values -/

/-- The characters of a text without the byte order mark before it. -/
def body (text : String) : List Char :=
  match text.toList with
  | '\uFEFF' :: rest => rest
  | cs => cs

/-- Whether a text by itself is a line of a document: it holds one key with a plain value at most. -/
def IsLine (line : List Char) : Prop :=
  ∃ entries : Entries, statementsOf? line = some (entries.map .top) ∧ entries.length ≤ 1 ∧ ∀ entry ∈ entries, entry.2.IsPlain

/-- A plain value is no table. -/
theorem Value.IsPlain.not_isTable {value : Value} (h : value.IsPlain) : ¬ value.IsTable := by
  cases value with
  | table => exact h.elim
  | tables => exact h.elim
  | _ => exact id

/-- Statements are told apart by their keys and values. -/
theorem Statement.top_injective : Function.Injective Statement.top := by
  rintro ⟨key, value⟩ ⟨key', value'⟩ h
  cases h
  rfl

/-- Plain values make plain statements. -/
theorem isPlain_of_mem_map_top {entries : Entries} (hp : ∀ entry ∈ entries, entry.2.IsPlain) :
    ∀ s ∈ entries.map Statement.top, s.IsPlain := by
  intro s hs
  obtain ⟨entry, hentry, rfl⟩ := List.mem_map.mp hs
  exact hp entry hentry

/-- A text is a document of keys with plain values if its statements are such keys and none occurs twice. -/
theorem documentOfText?_eq_some_iff (text : String) {entries : Entries} (hp : ∀ entry ∈ entries, entry.2.IsPlain) :
    documentOfText? text = some entries ↔
      statementsOf? (body text) = some (entries.map .top) ∧ (entries.map Prod.fst).Nodup := by
  have hdocument : documentOfText? text = (statementsOf? (body text)).bind documentOfStatements? := rfl
  rw [hdocument, Option.bind_eq_some_iff]
  constructor
  · rintro ⟨statements, hstatements, h⟩
    have htable : ¬ entries.HasTable := fun ⟨entry, hentry, ht⟩ => (hp entry hentry).not_isTable ht
    obtain ⟨rfl, hn⟩ := eq_top_of_documentOfStatements? h htable
    exact ⟨hstatements, hn⟩
  · rintro ⟨hstatements, hn⟩
    exact ⟨_, hstatements, documentOfStatements?_top hn⟩

/-- Some of the statements of keys with values are such statements. -/
theorem exists_eq_map_top {entries : Entries} {ss : List Statement} (h : ∀ s ∈ ss, s ∈ entries.map Statement.top) :
    ∃ own : Entries, ss = own.map .top ∧ ∀ entry ∈ own, entry ∈ entries := by
  induction ss with
  | nil => exact ⟨[], rfl, by simp⟩
  | cons s ss ih =>
    obtain ⟨hs, hss⟩ := List.forall_mem_cons.mp h
    obtain ⟨entry, hentry, rfl⟩ := List.mem_map.mp hs
    obtain ⟨own, rfl, hown⟩ := ih hss
    exact ⟨entry :: own, rfl, List.forall_mem_cons.mpr ⟨hentry, hown⟩⟩

/-- A document of keys with plain values is written in lines. -/
theorem exists_lines_of_document {text : String} {entries : Entries} (hp : ∀ entry ∈ entries, entry.2.IsPlain)
    (h : documentOfText? text = some entries) : ∃ lines, WrittenIn (body text) lines ∧ ∀ line ∈ lines, IsLine line := by
  obtain ⟨hread, -⟩ := (documentOfText?_eq_some_iff text hp).mp h
  have hrounds := (statementsOf?_eq_some_iff (isPlain_of_mem_map_top hp)).mp hread
  obtain ⟨pieces, hwritten, hstatements, hpieces⟩ := hrounds.exists_lines
  refine ⟨_, hwritten, fun line hline => ?_⟩
  obtain ⟨⟨line, ss⟩, hpiece, rfl⟩ := List.mem_map.mp hline
  obtain ⟨hread, hlength⟩ := hpieces _ hpiece
  have hmem : ∀ s ∈ ss, s ∈ entries.map Statement.top := fun s hs =>
    hstatements ▸ List.mem_flatMap.mpr ⟨_, hpiece, hs⟩
  obtain ⟨own, rfl, hown⟩ := exists_eq_map_top hmem
  have hplain : ∀ entry ∈ own, entry.2.IsPlain := fun entry hentry => hp entry (hown entry hentry)
  exact ⟨own, (statementsOf?_eq_some_iff (isPlain_of_mem_map_top hplain)).mpr hread, by simpa using hlength, hplain⟩

/-- The statements of lines that are read by themselves are those of the text that is written in them. -/
theorem WrittenIn.statementsOf?_eq {cs : List Char} {lines : List (List Char)} (h : WrittenIn cs lines)
    {own : List Char → Entries} (hread : ∀ line ∈ lines, statementsOf? line = some ((own line).map .top))
    (hplain : ∀ line ∈ lines, ∀ entry ∈ own line, entry.2.IsPlain) :
    statementsOf? cs = some ((lines.flatMap own).map .top) := by
  have hplains : ∀ entry ∈ lines.flatMap own, entry.2.IsPlain := by
    intro entry hentry
    obtain ⟨line, hline, hentry⟩ := List.mem_flatMap.mp hentry
    exact hplain line hline entry hentry
  rw [statementsOf?_eq_some_iff (isPlain_of_mem_map_top hplains), List.map_flatMap]
  refine h.rounds fun line hline => ?_
  exact (statementsOf?_eq_some_iff (isPlain_of_mem_map_top (hplain line hline))).mp (hread line hline)

/-- Lines in another order are a document with the same keys and values, in another order. -/
theorem document_perm_of_lines_perm {text text' : String} {lines lines' : List (List Char)} {entries : Entries}
    (hp : ∀ entry ∈ entries, entry.2.IsPlain) (h : documentOfText? text = some entries) (hw : WrittenIn (body text) lines)
    (hl : ∀ line ∈ lines, IsLine line) (hperm : lines.Perm lines') (hw' : WrittenIn (body text') lines') :
    ∃ entries', documentOfText? text' = some entries' ∧ entries.Perm entries' := by
  choose! own hread _ hplain using hl
  obtain ⟨hgiven, hn⟩ := (documentOfText?_eq_some_iff text hp).mp h
  have hentries : entries = lines.flatMap own := by
    have hlines := hw.statementsOf?_eq hread hplain
    exact List.map_injective_iff.mpr Statement.top_injective (Option.some.inj (hgiven.symm.trans hlines))
  have hperm' : entries.Perm (lines'.flatMap own) := by
    rw [hentries]
    exact hperm.flatMap_right own
  have hmem : ∀ line ∈ lines', line ∈ lines := fun line hline => hperm.mem_iff.mpr hline
  have hgiven' : statementsOf? (body text') = some ((lines'.flatMap own).map .top) :=
    hw'.statementsOf?_eq (fun line hline => hread line (hmem line hline)) fun line hline => hplain line (hmem line hline)
  have hp' : ∀ entry ∈ lines'.flatMap own, entry.2.IsPlain := fun entry hentry => hp entry (hperm'.mem_iff.mpr hentry)
  have hn' := (hperm'.map Prod.fst).nodup_iff.mp hn
  exact ⟨_, (documentOfText?_eq_some_iff text' hp').mpr ⟨hgiven', hn'⟩, hperm'⟩

end StreamCharts.Toml
