import StreamCharts.Proofs.Toml.Statements

/-!
# The order of keys

The keys of a document stand in the order of its statements (`keys_of_document`): a key stands where a statement names it
first, but a table stands at the header of its own, if there is one.
-/

namespace StreamCharts.Toml

/-- Some keys with one more behind them, unless it is among them. -/
def nameKey (keys : List String) (key : String) : List String :=
  if key ∈ keys then keys else keys ++ [key]

/-- A header begins a table; the keys below it belong to that table. -/
def Statement.isHeader : Statement → Bool
  | .header _ => true
  | .pair _ _ _ => false

/-- The keys of a document behind one more statement, which may stand below a header. -/
def Statement.name (below : Bool) (keys : List String) : Statement → List String
  | .pair path key _ => if below then keys else nameKey keys (path.headD key)
  | .header ⟨false, [], key⟩ => keys.filter (· != key) ++ [key]
  | .header h => nameKey keys (h.path.headD h.key)

/-- The keys of a document behind more statements, in their order. -/
def namedKeys : (below : Bool) → (keys : List String) → List Statement → List String
  | _, keys, [] => keys
  | below, keys, s :: ss => namedKeys (below || s.isHeader) (s.name below keys) ss

/-- A key that is among them already changes nothing. -/
theorem nameKey_nameKey (keys : List String) (key : String) : nameKey (nameKey keys key) key = nameKey keys key := by
  have hmem : key ∈ nameKey keys key := by
    rw [nameKey]
    split
    · assumption
    · simp
  exact if_pos hmem

namespace Entries

/-- Another value in the place of one leaves the keys. -/
theorem map_fst_replace (entries : Entries) (key : String) (value : Value) :
    (entries.replace key value).map Prod.fst = entries.map Prod.fst := by
  rw [replace, List.map_map]
  refine List.map_congr_left fun entry _ => ?_
  by_cases hkey : entry.1 = key
  · simp [hkey]
  · simp [hkey]

/-- A key that is found is among the keys. -/
theorem nameKey_of_find? {entries : Entries} {key : String} {value : Value} (h : entries.find? key = some value) :
    nameKey (entries.map Prod.fst) key = entries.map Prod.fst := by
  refine if_pos ?_
  by_contra hnone
  rw [(find?_eq_none_iff entries key).mpr hnone] at h
  cases h

/-- A key that is not found comes behind them. -/
theorem nameKey_of_find?_none {entries : Entries} {key : String} (h : entries.find? key = none) :
    nameKey (entries.map Prod.fst) key = entries.map Prod.fst ++ [key] :=
  if_neg ((find?_eq_none_iff entries key).mp h)

/-- A path names its first key. -/
theorem keys_of_alter {α : Type} {dotted : Bool} {change : TableStyle → Entries → Option (Entries × α)} {key : String}
    {path : List String} {style : TableStyle} {entries changed : Entries} {result : α}
    (h : alter dotted change (key :: path) style entries = some (changed, result)) :
    changed.map Prod.fst = nameKey (entries.map Prod.fst) key := by
  rw [alter] at h
  cases hfound : entries.find? key with
  | none =>
    rw [hfound] at h
    obtain ⟨⟨below, result'⟩, -, hpair⟩ := Option.bind_eq_some_iff.mp h
    obtain ⟨rfl, -⟩ := Prod.mk.inj (Option.some.inj hpair)
    rw [nameKey_of_find?_none hfound, List.map_append, List.map_singleton]
  | some value =>
    rw [nameKey_of_find? hfound]
    rw [hfound] at h
    cases value with
    | table style' below =>
      simp only at h
      split at h
      · cases h
      · obtain ⟨⟨below', result'⟩, -, hpair⟩ := Option.bind_eq_some_iff.mp h
        obtain ⟨rfl, -⟩ := Prod.mk.inj (Option.some.inj hpair)
        exact map_fst_replace entries key _
    | tables items =>
      obtain ⟨last, -, hrest⟩ := Option.bind_eq_some_iff.mp h
      obtain ⟨⟨below', result'⟩, -, hpair⟩ := Option.bind_eq_some_iff.mp hrest
      obtain ⟨rfl, -⟩ := Prod.mk.inj (Option.some.inj hpair)
      exact map_fst_replace entries key _
    | _ => cases h

/-- A key with a value names the first key of its path. -/
theorem keys_of_assign {entries changed : Entries} {path : List String} {key : String} {value : Value}
    (h : entries.assign .header path key value = some changed) :
    changed.map Prod.fst = nameKey (entries.map Prod.fst) (path.headD key) := by
  cases path with
  | nil =>
    rw [assign_top] at h
    split at h
    · cases h
    · next hnew =>
      rw [← Option.some.inj h, List.map_append, List.map_singleton]
      exact (if_neg hnew).symm
  | cons first path =>
    obtain ⟨⟨changed', result⟩, halter, rfl⟩ := Option.map_eq_some_iff.mp h
    exact keys_of_alter halter

/-- The table of a header without a path comes behind the others. -/
theorem keys_of_closeTable_nil {entries changed : Entries} {key : String} {table : Entries}
    (h : entries.closeTable [] key table = some changed) : changed.map Prod.fst = entries.map Prod.fst ++ [key] := by
  obtain rfl := Option.some.inj h
  exact List.map_append

/-- The table of another header names the first key of its path. -/
theorem keys_of_closeTable_cons {entries changed : Entries} {first : String} {path : List String} {key : String}
    {table : Entries} (h : entries.closeTable (first :: path) key table = some changed) :
    changed.map Prod.fst = nameKey (entries.map Prod.fst) first := by
  obtain ⟨⟨changed', result⟩, halter, rfl⟩ := Option.map_eq_some_iff.mp h
  exact keys_of_alter halter

/-- A table of a repeated header names the first key of its path. -/
theorem keys_of_closeTables {entries changed : Entries} {path : List String} {key : String} {table : Entries}
    (h : entries.closeTables path key table = some changed) :
    changed.map Prod.fst = nameKey (entries.map Prod.fst) (path.headD key) := by
  obtain ⟨⟨changed', result⟩, halter, rfl⟩ := Option.map_eq_some_iff.mp h
  cases path with
  | nil =>
    rw [alter] at halter
    split at halter
    · next items hfound =>
      obtain ⟨rfl, -⟩ := Prod.mk.inj (Option.some.inj halter)
      rw [List.headD_nil, nameKey_of_find? hfound]
      exact map_fst_replace entries key _
    · cases halter
  | cons first path => exact keys_of_alter halter

/-- The table of a header without a path is taken out where it is begun. -/
theorem keys_of_openTable_nil {entries changed table : Entries} {key : String}
    (h : entries.openTable [] key = some (changed, table)) :
    changed.map Prod.fst = (entries.map Prod.fst).filter (· != key) := by
  rw [openTable, alter] at h
  split at h
  · next hfound =>
    obtain ⟨rfl, -⟩ := Prod.mk.inj (Option.some.inj h)
    have hnone := (find?_eq_none_iff entries key).mp hfound
    refine (List.filter_eq_self.mpr fun other hother => ?_).symm
    rw [bne_iff_ne]
    rintro rfl
    exact hnone hother
  · obtain ⟨rfl, -⟩ := Prod.mk.inj (Option.some.inj h)
    rw [List.filter_map]
    rfl
  · cases h

/-- The tables of a repeated header are put in where the first of them is begun. -/
theorem keys_of_openTables {entries changed : Entries} {path : List String} {key : String}
    (h : entries.openTables path key = some changed) :
    changed.map Prod.fst = nameKey (entries.map Prod.fst) (path.headD key) := by
  obtain ⟨⟨changed', result⟩, halter, rfl⟩ := Option.map_eq_some_iff.mp h
  cases path with
  | nil =>
    rw [alter] at halter
    split at halter
    · next hfound =>
      obtain ⟨rfl, -⟩ := Prod.mk.inj (Option.some.inj halter)
      rw [List.headD_nil, nameKey_of_find?_none hfound, List.map_append, List.map_singleton]
    · next items hfound =>
      obtain ⟨rfl, -⟩ := Prod.mk.inj (Option.some.inj halter)
      rw [List.headD_nil, nameKey_of_find? hfound]
    · cases halter
  | cons first path => exact keys_of_alter halter

end Entries

open Entries

namespace Draft

/-- The keys of the document that a draft would be if it were closed. -/
def keys (draft : Draft) : List String :=
  match draft.header? with
  | none => draft.current.map Prod.fst
  | some ⟨false, [], key⟩ => draft.complete.map Prod.fst ++ [key]
  | some h => nameKey (draft.complete.map Prod.fst) (h.path.headD h.key)

/-- A closed document has these keys. -/
theorem keys_of_close {draft : Draft} {entries : Entries} (h : draft.close = some entries) :
    entries.map Prod.fst = draft.keys := by
  obtain ⟨complete, current, header?⟩ := draft
  rcases header? with _ | ⟨_ | _, path, key⟩
  · rw [← Option.some.inj h]
    rfl
  · cases path with
    | nil => exact keys_of_closeTable_nil h
    | cons first path => exact keys_of_closeTable_cons h
  · cases path <;> exact keys_of_closeTables h

/-- A header puts the key that it names into its place. -/
theorem keys_of_add_header {draft added : Draft} {h : Header} (ha : draft.add (.header h) = some added) (below : Bool) :
    added.keys = (Statement.header h).name below draft.keys := by
  obtain ⟨closed, hclosed, hopen⟩ := Option.bind_eq_some_iff.mp ha
  have hkeys := keys_of_close hclosed
  obtain ⟨repeated, path, key⟩ := h
  cases repeated with
  | true =>
    obtain ⟨complete, hcomplete, hadded⟩ := Option.bind_eq_some_iff.mp hopen
    obtain rfl := Option.some.inj hadded
    have hcomplete := keys_of_openTables hcomplete
    simp only [keys, Statement.name, hcomplete, nameKey_nameKey, hkeys]
  | false =>
    obtain ⟨⟨complete, current⟩, hcomplete, hadded⟩ := Option.bind_eq_some_iff.mp hopen
    obtain rfl := Option.some.inj hadded
    cases path with
    | nil => simp only [keys, Statement.name, keys_of_openTable_nil hcomplete, hkeys]
    | cons first path => simp only [keys, Statement.name, keys_of_alter hcomplete, List.headD_cons, nameKey_nameKey, hkeys]

/-- A statement names its keys in the draft. -/
theorem keys_of_add {draft added : Draft} {s : Statement} (h : draft.add s = some added) :
    added.keys = s.name draft.header?.isSome draft.keys ∧ added.header?.isSome = (draft.header?.isSome || s.isHeader) := by
  cases s with
  | header header =>
    rw [header?_of_add_header h]
    exact ⟨keys_of_add_header h _, by simp [Statement.isHeader]⟩
  | pair path key value =>
    obtain ⟨current, hcurrent, hadded⟩ := Option.bind_eq_some_iff.mp h
    obtain rfl := Option.some.inj hadded
    refine ⟨?_, by simp [Statement.isHeader]⟩
    obtain ⟨complete, current', header?⟩ := draft
    cases header? with
    | none => exact keys_of_assign hcurrent
    | some header =>
      obtain ⟨_ | _, _ | _, _⟩ := header
      all_goals rfl

/-- So do all statements. -/
theorem keys_of_foldlM_add {ss : List Statement} {draft last : Draft} (h : ss.foldlM add draft = some last) :
    last.keys = namedKeys draft.header?.isSome draft.keys ss := by
  induction ss generalizing draft with
  | nil =>
    rw [← Option.some.inj h]
    rfl
  | cons s ss ih =>
    obtain ⟨added, hadded, hrest⟩ := Option.bind_eq_some_iff.mp (List.foldlM_cons.symm.trans h)
    obtain ⟨hkeys, hheader⟩ := keys_of_add hadded
    rw [ih hrest, hkeys, hheader, namedKeys]

end Draft

/-- The keys of a document stand in the order in which its statements name them. -/
theorem keys_of_document {ss : List Statement} {entries : Entries} (h : documentOfStatements? ss = some entries) :
    entries.map Prod.fst = namedKeys false [] ss := by
  obtain ⟨last, hlast, hclose⟩ := Option.bind_eq_some_iff.mp h
  rw [Draft.keys_of_close hclose, Draft.keys_of_foldlM_add hlast]
  rfl

end StreamCharts.Toml
