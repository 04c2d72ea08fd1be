import Mathlib.Data.List.Basic
import StreamCharts.Files.Tree

/-!
# Outlines of trees

The outline of a tree has its directories, and its files without their contents. Paths lead through a tree as through its outline,
and so the directories of the outline hold the same names (`Tree.read_outline`), also behind edits (`Tree.outline_edits_congr`): the content of no
file has a part in them.
-/

namespace StreamCharts

/-- An entry without its content. -/
def Entry.outline : Entry → Entry
  | .directory => .directory
  | .file _ => .file []

namespace Tree

/-- A tree without the contents of its files. -/
def outline (t : Tree) : Tree :=
  { t with rows := t.rows.map fun row => (row.1, row.2.outline) }

/-! ## Paths and directories -/

/-- What stands at a place of an outline. -/
theorem entry?_outline (t : Tree) (place : Place) : t.outline.entry? place = (t.entry? place).map Entry.outline := by
  rw [Tree.entry?, Tree.entry?]
  change (if place.isPrefixOf t.home then _ else _) = _
  split
  · rfl
  · rw [outline]
    dsimp only
    induction t.rows with
    | nil => rfl
    | cons row rows ih =>
      rw [List.map_cons, List.lookup_cons, List.lookup_cons]
      cases place == row.1 with
      | true => rfl
      | false => exact ih

/-- Something stands at a place if it stands there in the outline. -/
theorem isSome_entry?_outline (t : Tree) (place : Place) : (t.outline.entry? place).isSome = (t.entry? place).isSome := by
  rw [entry?_outline, Option.isSome_map]

/-- Names lead through an outline as through the tree. -/
theorem follow_outline (t : Tree) : t.outline.follow = t.follow := by
  funext place name
  rw [follow, follow, isSome_entry?_outline, entry?_outline]
  rcases t.entry? place with _ | _ | content <;> rfl

/-- Paths lead through an outline as through the tree. -/
theorem resolve_outline (t : Tree) (path : RawPath) : t.outline.resolve path = t.resolve path := by
  rw [resolve, resolve, follow_outline]
  rfl

/-- An outline has the places of the tree. -/
theorem places_outline (t : Tree) : t.outline.places = t.places := by
  rw [places, outline, List.map_map]
  rfl

/-- The directories of an outline hold the names that those of the tree hold. -/
theorem read_outline (t : Tree) : t.outline.read = t.read := by
  funext path
  simp only [read, resolve_outline, entry?_outline, children, places_outline, bind, Except.bind]
  cases t.resolve path with
  | error fault => rfl
  | ok place =>
    dsimp only
    rcases t.entry? place with _ | _ | content <;> rfl

/-! ## Edits -/

/-- The outline with an entry put somewhere. -/
theorem outline_put (t : Tree) (place : Place) (entry : Entry) :
    (t.put place entry).outline = t.outline.put place entry.outline := by
  rw [put, put]
  change _ = if place.isPrefixOf t.home then _ else _
  split
  · rfl
  · rw [outline, outline, List.map_cons, List.filter_map]
    rfl

/-- The outline with a directory put where nothing stands. -/
theorem outline_addDirectory (t : Tree) (place : Place) : (t.addDirectory place).outline = t.outline.addDirectory place := by
  rw [addDirectory, addDirectory, isSome_entry?_outline]
  split
  · rfl
  · exact t.outline_put place .directory

/-- The outline with the directories that lead to a place. -/
theorem outline_addDirectories (t : Tree) (place : Place) :
    (t.addDirectories place).outline = t.outline.addDirectories place := by
  rw [addDirectories, addDirectories]
  generalize place.way = way
  induction way generalizing t with
  | nil => rfl
  | cons part way ih => rw [List.foldl_cons, List.foldl_cons, ih, outline_addDirectory]

/-- Trees with one outline have one outline behind an edit. -/
theorem outline_edit_congr {t t' : Tree} (h : t.outline = t'.outline) (e : Edit) : (t.edit e).outline = (t'.edit e).outline := by
  have hhome : t.home = t'.home := show t.outline.home = t'.outline.home by rw [h]
  cases e with
  | makeDirectory path => rw [edit, edit, outline_addDirectories, outline_addDirectories, h, hhome]
  | write path content =>
    rw [edit, edit, outline_put, outline_put, outline_addDirectories, outline_addDirectories, h, hhome]
  | remove path =>
    have hfilter : ∀ t : Tree, (t.edit (.remove path)).outline =
        { t.outline with rows := t.outline.rows.filter fun row => !(Place.ofPath t.home path).isPrefixOf row.1 } := by
      intro t
      rw [edit, outline, outline, List.filter_map]
      rfl
    rw [hfilter, hfilter, h, hhome]

/-- Trees with one outline have one outline behind edits. -/
theorem outline_edits_congr {t t' : Tree} (h : t.outline = t'.outline) (changes : List Edit) :
    (t.edits changes).outline = (t'.edits changes).outline := by
  induction changes generalizing t t' with
  | nil => exact h
  | cons e changes ih => exact ih (outline_edit_congr h e)

end Tree

end StreamCharts
