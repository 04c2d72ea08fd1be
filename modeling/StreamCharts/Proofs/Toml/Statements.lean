import Mathlib.Data.List.Nodup
import StreamCharts.Toml.Document

/-!
# Documents without tables

A header or a dotted key leaves a table in the document (`close_hasTable`, `assign_cases`), and nothing takes it out again. So a
document whose values are no tables is made of keys with values alone, in their order, and no key occurs twice
(`eq_top_of_documentOfStatements?`); and such statements are always a document (`documentOfStatements?_top`).
-/

namespace StreamCharts.Toml

/-- Whether a value is a table, or several. -/
def Value.IsTable : Value → Prop
  | .table _ _ => True
  | .tables _ => True
  | _ => False

namespace Entries

/-- Whether a value among entries is a table. -/
def HasTable (entries : Entries) : Prop :=
  ∃ entry ∈ entries, entry.2.IsTable

/-- A key is not found exactly if no entry has it. -/
theorem find?_eq_none_iff (entries : Entries) (key : String) : entries.find? key = none ↔ key ∉ entries.map Prod.fst := by
  induction entries with
  | nil => simp [find?]
  | cons entry entries ih =>
    rw [find?] at ih
    rw [find?, List.lookup_cons, List.map_cons, List.mem_cons, not_or]
    by_cases hkey : key = entry.1
    · simp [hkey]
    · rw [beq_false_of_ne hkey]
      simpa [hkey] using ih

/-- What is put in the place of a key is among the entries. -/
theorem mem_replace {entries : Entries} {key : String} {old : Value} (h : entries.find? key = some old) (value : Value) :
    (key, value) ∈ entries.replace key value := by
  have hmem : key ∈ entries.map Prod.fst := by
    by_contra hnone
    rw [(find?_eq_none_iff entries key).mpr hnone] at h
    cases h
  obtain ⟨entry, hentry, hkey⟩ := List.mem_map.mp hmem
  exact List.mem_map.mpr ⟨entry, hentry, if_pos hkey⟩

/-- More entries behind a table leave it there. -/
theorem HasTable.append {entries : Entries} (h : HasTable entries) (more : Entries) : HasTable (entries ++ more) := by
  obtain ⟨entry, hentry, htable⟩ := h
  exact ⟨entry, List.mem_append_left _ hentry, htable⟩

/-- A path that is not empty leads through a table. -/
theorem hasTable_of_alter {α : Type} {dotted : Bool} {change : TableStyle → Entries → Option (Entries × α)} {key : String}
    {path : List String} {style : TableStyle} {entries changed : Entries} {result : α}
    (h : alter dotted change (key :: path) style entries = some (changed, result)) : HasTable changed := by
  rw [alter] at h
  cases hfound : entries.find? key with
  | none =>
    rw [hfound] at h
    obtain ⟨⟨below, result'⟩, -, hpair⟩ := Option.bind_eq_some_iff.mp h
    obtain ⟨rfl, -⟩ := Prod.mk.inj (Option.some.inj hpair)
    exact ⟨_, List.mem_append_right _ (List.mem_singleton_self _), trivial⟩
  | some value =>
    rw [hfound] at h
    cases value with
    | table style' below =>
      simp only at h
      split at h
      · cases h
      · obtain ⟨⟨below', result'⟩, -, hpair⟩ := Option.bind_eq_some_iff.mp h
        obtain ⟨rfl, -⟩ := Prod.mk.inj (Option.some.inj hpair)
        exact ⟨_, mem_replace hfound _, trivial⟩
    | tables items =>
      obtain ⟨last, -, hrest⟩ := Option.bind_eq_some_iff.mp h
      obtain ⟨⟨below', result'⟩, -, hpair⟩ := Option.bind_eq_some_iff.mp hrest
      obtain ⟨rfl, -⟩ := Prod.mk.inj (Option.some.inj hpair)
      exact ⟨_, mem_replace hfound _, trivial⟩
    | _ => cases h

/-- A key without a path is put behind the others, and must be new. -/
theorem assign_top (entries : Entries) (key : String) (value : Value) :
    entries.assign .header [] key value = if key ∈ entries.map Prod.fst then none else some (entries ++ [(key, value)]) := by
  by_cases hmem : key ∈ entries.map Prod.fst
  · have hfound : (entries.find? key).isSome = true := by
      rw [Option.isSome_iff_ne_none]
      exact fun hnone => (find?_eq_none_iff entries key).mp hnone hmem
    simp [assign, alter, hfound, hmem]
  · have hnone := (find?_eq_none_iff entries key).mpr hmem
    simp [assign, alter, hnone, hmem]

/-- A key with a path makes a table, and a key without one leaves those that are there. -/
theorem hasTable_of_assign {entries changed : Entries} {path : List String} {key : String} {value : Value}
    (h : entries.assign .header path key value = some changed) (ht : path = [] → HasTable entries) : HasTable changed := by
  cases path with
  | nil =>
    rw [assign_top] at h
    split at h
    · cases h
    · rw [← Option.some.inj h]
      exact (ht rfl).append _
  | cons first path =>
    obtain ⟨⟨changed', result⟩, halter, rfl⟩ := Option.map_eq_some_iff.mp h
    exact hasTable_of_alter halter

/-- The table of a header is a table of the document once it is put back. -/
theorem hasTable_of_closeTable {entries changed : Entries} {path : List String} {key : String} {table : Entries}
    (h : entries.closeTable path key table = some changed) : HasTable changed := by
  obtain ⟨⟨changed', result⟩, halter, rfl⟩ := Option.map_eq_some_iff.mp h
  cases path with
  | nil =>
    obtain ⟨rfl, -⟩ := Prod.mk.inj (Option.some.inj halter)
    exact ⟨_, List.mem_append_right _ (List.mem_singleton_self _), trivial⟩
  | cons first path => exact hasTable_of_alter halter

/-- So are the tables of a repeated header. -/
theorem hasTable_of_closeTables {entries changed : Entries} {path : List String} {key : String} {table : Entries}
    (h : entries.closeTables path key table = some changed) : HasTable changed := by
  obtain ⟨⟨changed', result⟩, halter, rfl⟩ := Option.map_eq_some_iff.mp h
  cases path with
  | nil =>
    rw [alter] at halter
    split at halter
    · next items hfound =>
      obtain ⟨rfl, -⟩ := Prod.mk.inj (Option.some.inj halter)
      exact ⟨_, mem_replace hfound _, trivial⟩
    · cases halter
  | cons first path => exact hasTable_of_alter halter

end Entries

open Entries

/-! ## Drafts -/

/-- The statement of a key with a value, outside all tables. -/
def Statement.top (entry : String × Value) : Statement :=
  .pair [] entry.1 entry.2

namespace Draft

/-- A draft of keys with values alone. -/
def ofEntries (entries : Entries) : Draft := ⟨[], entries, none⟩

/-- Whether a draft is under a header or holds a table. -/
def Tabled (draft : Draft) : Prop :=
  draft.header?.isSome = true ∨ HasTable draft.current

/-- A header leaves a table in the closed document, and a table that is there stays. -/
theorem Tabled.close {draft : Draft} (h : draft.Tabled) {entries : Entries} (hc : draft.close = some entries) :
    HasTable entries := by
  rw [Draft.close] at hc
  split at hc
  · next hnone =>
    rw [← Option.some.inj hc]
    rcases h with h | h
    · rw [hnone] at h
      cases h
    · exact h
  · split at hc
    · exact hasTable_of_closeTables hc
    · exact hasTable_of_closeTable hc

/-- Behind a header the draft is under it. -/
theorem header?_of_add_header {draft added : Draft} {h : Header} (ha : draft.add (.header h) = some added) :
    added.header? = some h := by
  obtain ⟨closed, -, hopen⟩ := Option.bind_eq_some_iff.mp ha
  split at hopen
  · obtain ⟨complete, -, hadded⟩ := Option.bind_eq_some_iff.mp hopen
    rw [← Option.some.inj hadded]
  · obtain ⟨⟨complete, current⟩, -, hadded⟩ := Option.bind_eq_some_iff.mp hopen
    rw [← Option.some.inj hadded]

/-- No statement undoes that a draft is tabled. -/
theorem Tabled.add {draft added : Draft} (h : draft.Tabled) {statement : Statement} (ha : draft.add statement = some added) :
    added.Tabled := by
  cases statement with
  | header header => exact .inl (by rw [header?_of_add_header ha, Option.isSome_some])
  | pair path key value =>
    obtain ⟨current, hcurrent, hadded⟩ := Option.bind_eq_some_iff.mp ha
    obtain rfl := Option.some.inj hadded
    exact h.imp id fun ht => hasTable_of_assign hcurrent fun _ => ht

/-- A statement adds a new key with its value to a draft of such, or makes it tabled. -/
theorem add_ofEntries {entries : Entries} {statement : Statement} {added : Draft}
    (h : (ofEntries entries).add statement = some added) :
    (∃ entry, statement = .top entry ∧ entry.1 ∉ entries.map Prod.fst ∧ added = ofEntries (entries ++ [entry])) ∨
      added.Tabled := by
  cases statement with
  | header header => exact .inr (.inl (by rw [header?_of_add_header h, Option.isSome_some]))
  | pair path key value =>
    obtain ⟨current, hcurrent, hadded⟩ := Option.bind_eq_some_iff.mp h
    obtain rfl := Option.some.inj hadded
    cases path with
    | nil =>
      rw [ofEntries, assign_top] at hcurrent
      split at hcurrent
      · cases hcurrent
      · next hnew =>
        obtain rfl := Option.some.inj hcurrent
        exact .inl ⟨(key, value), rfl, hnew, rfl⟩
    | cons first path => exact .inr (.inr (hasTable_of_assign hcurrent nofun))

/-- A new key with its value is added to a draft of such. -/
theorem add_top {entries : Entries} {entry : String × Value} (h : entry.1 ∉ entries.map Prod.fst) :
    (ofEntries entries).add (.top entry) = some (ofEntries (entries ++ [entry])) := by
  rw [Statement.top, add, ofEntries, assign_top, if_neg h]
  rfl

end Draft

/-! ## Documents -/

/-- A draft that is tabled stays so through all statements. -/
theorem Draft.Tabled.foldlM_add {statements : List Statement} {draft last : Draft} (ht : draft.Tabled)
    (h : statements.foldlM Draft.add draft = some last) : last.Tabled := by
  induction statements generalizing draft with
  | nil =>
    rw [← Option.some.inj h]
    exact ht
  | cons statement statements ih =>
    obtain ⟨added, hadded, hrest⟩ := Option.bind_eq_some_iff.mp (List.foldlM_cons.symm.trans h)
    exact ih (ht.add hadded) hrest

/-- Statements behind some keys with values are more of them, or make the draft tabled. -/
theorem foldlM_add_ofEntries {statements : List Statement} {entries : Entries} {last : Draft}
    (hn : (entries.map Prod.fst).Nodup) (h : statements.foldlM Draft.add (.ofEntries entries) = some last) :
    (∃ more, statements = more.map .top ∧ last = .ofEntries (entries ++ more) ∧ ((entries ++ more).map Prod.fst).Nodup) ∨
      last.Tabled := by
  induction statements generalizing entries with
  | nil => exact .inl ⟨[], rfl, by rw [List.append_nil, ← Option.some.inj h], by rwa [List.append_nil]⟩
  | cons statement statements ih =>
    obtain ⟨added, hadded, hrest⟩ := Option.bind_eq_some_iff.mp (List.foldlM_cons.symm.trans h)
    rcases Draft.add_ofEntries hadded with ⟨entry, rfl, hnew, rfl⟩ | ht
    · have hn' : ((entries ++ [entry]).map Prod.fst).Nodup := by
        rw [List.map_append, List.map_singleton, List.nodup_append]
        refine ⟨hn, List.nodup_singleton _, fun key hkey key' hkey' heq => hnew ?_⟩
        rwa [← List.mem_singleton.mp hkey', ← heq]
      rcases ih hn' hrest with ⟨more, rfl, hlast, hnodup⟩ | ht
      · rw [List.append_assoc, List.singleton_append] at hlast hnodup
        exact .inl ⟨entry :: more, rfl, hlast, hnodup⟩
      · exact .inr ht
    · exact .inr (ht.foldlM_add hrest)

/-- A document without tables is made of keys with values, in their order, and no key occurs twice. -/
theorem eq_top_of_documentOfStatements? {statements : List Statement} {entries : Entries}
    (h : documentOfStatements? statements = some entries) (ht : ¬ HasTable entries) :
    statements = entries.map .top ∧ (entries.map Prod.fst).Nodup := by
  obtain ⟨last, hlast, hclose⟩ := Option.bind_eq_some_iff.mp h
  have hall : statements.foldlM Draft.add (.ofEntries []) = some last := hlast
  have hnone : (([] : Entries).map Prod.fst).Nodup := List.nodup_nil
  rcases foldlM_add_ofEntries hnone hall with ⟨more, hmore, rfl, hnodup⟩ | htabled
  · obtain rfl := Option.some.inj hclose
    exact ⟨hmore, hnodup⟩
  · exact absurd (htabled.close hclose) ht

/-- More keys with values are added to those that are there, if no key occurs twice. -/
theorem foldlM_add_top {entries more : Entries} (hn : ((entries ++ more).map Prod.fst).Nodup) :
    (more.map Statement.top).foldlM Draft.add (.ofEntries entries) = some (.ofEntries (entries ++ more)) := by
  induction more generalizing entries with
  | nil => rw [List.append_nil]; rfl
  | cons entry more ih =>
    have hnew : entry.1 ∉ entries.map Prod.fst := by
      rw [List.map_append, List.map_cons, List.nodup_append] at hn
      exact fun hmem => hn.2.2 entry.1 hmem entry.1 List.mem_cons_self rfl
    have hassoc : entries ++ [entry] ++ more = entries ++ entry :: more := List.append_assoc _ _ _
    rw [List.map_cons, List.foldlM_cons, Draft.add_top hnew, ← hassoc]
    exact ih (hassoc ▸ hn)

/-- Keys with values are a document if no key occurs twice. -/
theorem documentOfStatements?_top {entries : Entries} (hn : (entries.map Prod.fst).Nodup) :
    documentOfStatements? (entries.map .top) = some entries := by
  have hall : (entries.map Statement.top).foldlM Draft.add .empty = some (.ofEntries entries) :=
    @foldlM_add_top [] entries hn
  rw [documentOfStatements?, hall]
  rfl

end StreamCharts.Toml
