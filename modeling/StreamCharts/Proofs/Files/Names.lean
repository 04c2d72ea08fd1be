import Mathlib.Data.List.Nodup
import StreamCharts.Files.Tree
import StreamCharts.Proofs.Text.Legible

/-!
# Names in paths and trees

A name is a path of a single component that leads one step down. A path below which a name is joined keeps its own components, and
the name comes behind them (`Path.parts_join`, `Place.ofPath_join`). The places of a tree are made of names, whatever edits made it
(`Tree.Named.edits`), and so is what its directories hold (`Tree.Named.of_read`) and what these names show (`FileName.Proper.legible`).
-/

namespace StreamCharts

namespace Path

/-! ## Names -/

/-- A single component that leads one step down: it is not empty, it does not stay or go back, and it holds no slash. -/
structure IsName (name : String) : Prop where
  nonempty : name ≠ ""
  not_dot : name ≠ "."
  not_dots : name ≠ ".."
  slash : '/' ∉ name.toList

/-- The components of two texts around a slash. -/
theorem components_slash (a b : String) : components (a ++ "/" ++ b) = components a ++ components b := by
  rw [components, String.toList_append, String.toList_append, List.append_assoc]
  rw [show "/".toList ++ b.toList = '/' :: b.toList from rfl, List.splitOn_append_cons_self, List.map_append]
  rfl

/-- A text without slashes is one component. -/
theorem components_of_slash {name : String} (h : '/' ∉ name.toList) : components name = [name] := by
  have hsplit : name.toList.splitOn '/' = [name.toList] :=
    List.splitOnP_eq_singleton fun c hc => by
      rw [beq_eq_false_iff_ne]
      exact fun hslash => h (hslash ▸ hc)
  rw [components, hsplit, List.map_singleton, String.ofList_toList]

/-- A name is not absolute. -/
theorem IsName.not_isAbsolute {name : String} (h : IsName name) : isAbsolute name = false := by
  rw [isAbsolute, beq_eq_false_iff_ne]
  intro hhead
  exact h.slash (List.mem_of_mem_head? hhead)

/-! ## Joined paths -/

/-- A name that is joined below a path comes behind its components; only an empty component at their end gives way. -/
theorem components_join (base : String) {name : String} (h : IsName name) :
    ∃ above, components (join base name) = above ++ [name] ∧ (components base = above ∨ components base = above ++ [""]) := by
  have hname := components_of_slash h.slash
  rw [join, h.not_isAbsolute]
  simp only [Bool.false_eq_true, if_false]
  split
  · rename_i hempty
    obtain rfl : base = "" := by simpa using hempty
    exact ⟨[], hname, Or.inr rfl⟩
  · split
    · rename_i hslash
      obtain ⟨front, rfl⟩ : ∃ front, base = front ++ "/" := by
        refine ⟨String.ofList base.toList.dropLast, String.toList_injective ?_⟩
        rw [String.toList_append, String.toList_ofList]
        exact (List.dropLast_append_getLast? '/' (beq_iff_eq.mp hslash)).symm
      refine ⟨components front, ?_, Or.inr ?_⟩
      · rw [components_slash, hname]
      · have hfront := components_slash front ""
        rwa [String.append_empty] at hfront
    · exact ⟨components base, by rw [components_slash, hname], Or.inl rfl⟩

/-- The components that say where a path leads, of all its components. -/
def leading : List String → List String
  | [] => []
  | first :: rest => ([first].filter fun name => name != "") ++ rest.filter fun name => name != "" && name != "."

/-- The parts of a path are its leading components. -/
theorem parts_eq_leading (path : String) : parts path = leading (components path) := by
  unfold parts
  dsimp only
  split
  · simp [leading, *]
  · rename_i names hdot
    cases hcomponents : components path with
    | nil => rfl
    | cons first rest =>
      have hfirst : first ≠ "." := fun h => hdot rest (by rw [hcomponents, h])
      simp [leading, List.filter_cons, hfirst]
      split <;> simp

/-- A name leads one step down from what stands before it. -/
theorem leading_append_name (above : List String) {name : String} (h : IsName name) :
    leading (above ++ [name]) = leading above ++ [name] := by
  cases above with
  | nil => simp [leading, h.nonempty]
  | cons first above => simp [leading, List.filter_append, h.nonempty, h.not_dot]

/-- An empty component behind others leads nowhere. -/
theorem leading_append_empty (above : List String) : leading (above ++ [""]) = leading above := by
  cases above with
  | nil => simp [leading]
  | cons first above => simp [leading, List.filter_append]

/-- The parts of a path with a name below it. -/
theorem parts_join (base : String) {name : String} (h : IsName name) : parts (join base name) = parts base ++ [name] := by
  obtain ⟨above, hjoin, hbase⟩ := components_join base h
  rw [parts_eq_leading, parts_eq_leading, hjoin, leading_append_name above h]
  rcases hbase with hbase | hbase
  · rw [hbase]
  · rw [hbase, leading_append_empty]

/-- A path begins where the path begins that it is below. -/
theorem isAbsolute_join (base : String) {name : String} (h : IsName name) : isAbsolute (join base name) = isAbsolute base := by
  have hname := h.not_isAbsolute
  rw [join, hname]
  simp only [Bool.false_eq_true, if_false]
  split
  · rename_i hempty
    obtain rfl : base = "" := by simpa using hempty
    exact hname
  · rename_i hbase
    have hne : base.toList ≠ [] := by simpa using hbase
    split
    · simp [isAbsolute, String.toList_append, List.head?_append_of_ne_nil _ hne]
    · simp [isAbsolute, String.toList_append, List.head?_append_of_ne_nil _ hne]

end Path

/-! ## Paths as bytes -/

/-- No piece between separators holds a separator. -/
theorem notMem_of_mem_splitOn {α : Type} [DecidableEq α] (separator : α) (xs : List α) :
    ∀ piece ∈ xs.splitOn separator, separator ∉ piece := by
  induction xs with
  | nil => simp
  | cons x xs ih =>
    intro piece hpiece
    rw [List.splitOn, List.splitOnP_cons_eq_if_modifyHead] at hpiece
    split at hpiece
    · rcases List.mem_cons.mp hpiece with rfl | hpiece
      · simp
      · exact ih piece hpiece
    · rename_i hx
      obtain ⟨first, rest, hsplit⟩ := List.exists_cons_of_ne_nil (List.splitOnP_ne_nil (· == separator) xs)
      rw [hsplit, List.modifyHead_cons] at hpiece
      rw [List.splitOn, hsplit] at ih
      rcases List.mem_cons.mp hpiece with rfl | hpiece
      · have hfirst := ih first (by simp)
        simp only [List.mem_cons, not_or]
        exact ⟨fun h => hx (by simp [← h]), hfirst⟩
      · exact ih piece (by simp [hpiece])

/-- Elements without a separator come before the first piece. -/
theorem splitOn_append_of_notMem {α : Type} [DecidableEq α] {separator : α} {front : List α} (h : separator ∉ front) (xs : List α) :
    (front ++ xs).splitOn separator = (xs.splitOn separator).modifyHead (front ++ ·) := by
  induction front with
  | nil => exact (List.modifyHead_id.symm ▸ rfl : xs.splitOn separator = (xs.splitOn separator).modifyHead id)
  | cons x front ih =>
    rw [List.mem_cons, not_or] at h
    have hx : ¬ (x == separator) = true := fun heq => h.1 (beq_iff_eq.mp heq).symm
    rw [List.cons_append, List.splitOn, List.splitOnP_cons_eq_if_modifyHead, if_neg hx, ← List.splitOn, ih h.2,
      List.modifyHead_modifyHead]
    rfl

/-- The byte of the slash. -/
theorem utf8EncodeChar_slash : String.utf8EncodeChar '/' = [RawPath.slash] :=
  Text.utf8EncodeChar_ascii (a := '/') (by decide)

/-- No other character has this byte. -/
theorem slash_notMem_utf8EncodeChar {c : Char} (h : c ≠ '/') : RawPath.slash ∉ String.utf8EncodeChar c :=
  Text.ascii_notMem_utf8EncodeChar (a := '/') (by decide) h

/-- The bytes between the slashes of a text are those of the pieces of the text. -/
theorem splitOn_flatMap_utf8EncodeChar (cs : List Char) :
    (cs.flatMap String.utf8EncodeChar).splitOn RawPath.slash = (cs.splitOn '/').map (·.flatMap String.utf8EncodeChar) := by
  induction cs with
  | nil => rfl
  | cons c cs ih =>
    have hchars : (c :: cs).splitOn '/' = if c == '/' then [] :: cs.splitOn '/' else (cs.splitOn '/').modifyHead (c :: ·) :=
      List.splitOnP_cons_eq_if_modifyHead ..
    rw [List.flatMap_cons, hchars]
    split
    · rename_i hc
      obtain rfl : c = '/' := by simpa using hc
      rw [utf8EncodeChar_slash, List.singleton_append, List.splitOn, List.splitOnP_cons_eq_if_modifyHead, if_pos (by simp),
        ← List.splitOn, ih]
      rfl
    · rename_i hc
      have hne : c ≠ '/' := by simpa using hc
      rw [splitOn_append_of_notMem (slash_notMem_utf8EncodeChar hne), ih]
      obtain ⟨first, rest, hsplit⟩ := List.exists_cons_of_ne_nil (List.splitOnP_ne_nil (· == '/') cs)
      rw [List.splitOn, hsplit]
      rfl

namespace RawPath

/-- The names of a text as a path are the bytes of its components. -/
theorem names_coe (path : String) : (path : RawPath).names = (Path.components path).map Text.utf8 := by
  rw [names, Path.components, List.map_map]
  change (Text.utf8 path).splitOn slash = _
  rw [← String.ofList_toList (s := path), Text.utf8_ofList, String.toList_ofList, splitOn_flatMap_utf8EncodeChar]
  refine List.map_congr_left fun piece _ => ?_
  rw [Function.comp_apply, Text.utf8_ofList]

/-- A text is absolute as a path if it begins with a slash. -/
theorem isAbsolute_coe (path : String) : (path : RawPath).isAbsolute = Path.isAbsolute path := by
  rw [isAbsolute, Path.isAbsolute]
  change ((Text.utf8 path).head? == some slash) = _
  rw [← String.ofList_toList (s := path), Text.utf8_ofList, String.toList_ofList, Bool.eq_iff_iff, beq_iff_eq, beq_iff_eq]
  cases path.toList with
  | nil => simp
  | cons c cs =>
    rw [List.flatMap_cons, List.head?_append_of_ne_nil _ String.utf8EncodeChar_ne_nil, List.head?_cons, Option.some.injEq]
    constructor
    · intro hhead
      by_contra hc
      exact slash_notMem_utf8EncodeChar hc (List.mem_of_mem_head? hhead)
    · rintro rfl
      rw [utf8EncodeChar_slash]
      rfl

end RawPath

/-! ## Names as bytes -/

namespace FileName

/-- A name that leads one step down: it is not empty, it does not stay or go back, and it holds no slash. -/
structure Proper (name : FileName) : Prop where
  nonempty : name ≠ []
  not_dot : name ≠ Text.utf8 "."
  not_dots : name ≠ Text.utf8 ".."
  slash : RawPath.slash ∉ name

/-- What a name that leads one step down shows does so as well. -/
theorem Proper.legible {name : FileName} (h : Proper name) : Path.IsName (Text.legible name) := by
  have hshown {text : String} (htext : Text.replacement ∉ text.toList) (hname : name ≠ Text.utf8 text) :
      Text.legible name ≠ text :=
    fun heq => hname ((Text.legible_eq_iff htext name).mp heq)
  refine ⟨hshown (by decide) h.nonempty, hshown (by decide) h.not_dot, hshown (by decide) h.not_dots, fun hslash => h.slash ?_⟩
  exact Text.ascii_mem_of_mem_legible (a := '/') (by decide) hslash

end FileName

/-! ## Places -/

namespace Place

/-- A place is made of names that lead one step down. -/
def Named (place : Place) : Prop :=
  ∀ name ∈ place, FileName.Proper name

/-- A name leads one step down. -/
theorem step_name (place : Place) {name : String} (h : Path.IsName name) :
    place.step (Text.utf8 name) = place ++ [Text.utf8 name] := by
  have hne (text : String) (htext : name ≠ text) : Text.utf8 name ≠ Text.utf8 text := fun heq => htext (Text.utf8_injective heq)
  have hempty : Text.utf8 name ≠ [] := hne "" h.nonempty
  rw [step, if_neg (by simp [hempty, hne "." h.not_dot]), if_neg (hne ".." h.not_dots)]

/-- The place of a path with a name below it. -/
theorem ofPath_join (home : Place) (base : String) {name : String} (h : Path.IsName name) :
    ofPath home (Path.join base name) = ofPath home base ++ [Text.utf8 name] := by
  obtain ⟨above, hjoin, hbase⟩ := Path.components_join base h
  have hstart : start home (Path.join base name) = start home base := by
    rw [start, start, RawPath.isAbsolute_coe, RawPath.isAbsolute_coe, Path.isAbsolute_join base h]
  rw [ofPath, ofPath, hstart, RawPath.names_coe, RawPath.names_coe, hjoin, List.map_append, List.foldl_append, List.map_singleton,
    List.foldl_cons, List.foldl_nil, step_name _ h]
  rcases hbase with hbase | hbase
  · rw [hbase]
  · rw [hbase, List.map_append, List.foldl_append]
    rfl

/-- A beginning of a place. -/
theorem Named.of_sublist {place part : Place} (h : place.Named) (hpart : part.Sublist place) : part.Named :=
  fun name hname => h name (hpart.subset hname)

/-- The places on the way to a place. -/
theorem Named.way {place : Place} (h : place.Named) : ∀ part ∈ place.way, part.Named := by
  intro part hpart
  obtain ⟨n, -, rfl⟩ := List.mem_map.mp hpart
  exact h.of_sublist (List.take_sublist n place)

/-- A step from a place made of names leads to another one. -/
theorem Named.step {place : Place} (h : place.Named) {name : FileName} (hslash : RawPath.slash ∉ name) : (place.step name).Named := by
  rw [Place.step]
  split
  · exact h
  · rename_i hstay
    simp only [Bool.or_eq_true, decide_eq_true_eq, not_or] at hstay
    split
    · exact h.of_sublist (List.dropLast_sublist place)
    · rename_i hback
      intro name' hname'
      rcases List.mem_append.mp hname' with hname' | hname'
      · exact h name' hname'
      · obtain rfl := List.mem_singleton.mp hname'
        exact ⟨hstay.1, hstay.2, hback, hslash⟩

/-- The place of a path is made of names. -/
theorem named_ofPath {home : Place} (h : home.Named) (path : RawPath) : (ofPath home path).Named := by
  have hstart : (start home path).Named := by
    rw [start]
    split
    · simp [Named]
    · exact h
  have hslash : ∀ name ∈ path.names, RawPath.slash ∉ name := notMem_of_mem_splitOn _ _
  rw [ofPath]
  generalize path.names = names at hslash
  generalize start home path = place at hstart
  induction names generalizing place with
  | nil => exact hstart
  | cons name names ih =>
    obtain ⟨hname, hnames⟩ := List.forall_mem_cons.mp hslash
    exact ih hnames _ (hstart.step hname)

/-- A place is on the way to another if it is a beginning of it. -/
theorem mem_way_iff (part place : Place) : part ∈ place.way ↔ part <+: place := by
  rw [way, List.mem_map]
  constructor
  · rintro ⟨n, -, rfl⟩
    exact List.take_prefix n place
  · intro h
    refine ⟨part.length, List.mem_range.mpr (Nat.lt_succ_of_le h.length_le), ?_⟩
    exact (List.prefix_iff_eq_take.mp h).symm

end Place

namespace Tree

variable {t : Tree}

/-! ## Trees -/

/-- Something stands at the places of a tree, and nowhere else. -/
theorem isSome_entry?_iff (t : Tree) (place : Place) : (t.entry? place).isSome = true ↔ place ∈ t.places := by
  rw [places, List.mem_append, Place.mem_way_iff, ← List.isPrefixOf_iff_prefix, entry?]
  split
  · rename_i hhome
    simp [hhome]
  · rename_i hhome
    constructor
    · intro h
      obtain ⟨entry, hentry⟩ := Option.isSome_iff_exists.mp h
      obtain ⟨before, behind, hrows, -⟩ := List.lookup_eq_some_iff.mp hentry
      simp [hrows]
    · intro h
      obtain ⟨row, hrow, rfl⟩ := List.mem_map.mp (h.resolve_left hhome)
      rw [Option.isSome_iff_ne_none]
      intro hnone
      have hmiss := List.lookup_eq_none_iff.mp hnone _ hrow
      simp at hmiss

/-- The places behind an entry that is put somewhere. -/
theorem mem_places_put {place : Place} {entry : Entry} {place' : Place} (h : place' ∈ (t.put place entry).places) :
    place' = place ∨ place' ∈ t.places := by
  rw [put] at h
  split at h
  · exact Or.inr h
  · simp only [places, List.map_cons, List.mem_append, List.mem_cons] at h
    rw [places, List.mem_append]
    rcases h with h | rfl | h
    · exact Or.inr (Or.inl h)
    · exact Or.inl rfl
    · exact Or.inr (Or.inr ((List.filter_sublist.map Prod.fst).subset h))

/-- A tree all places of which are made of names. -/
def Named (t : Tree) : Prop :=
  ∀ place ∈ t.places, place.Named

/-- A tree with nothing but a working directory that is made of names. -/
theorem named_bare {home : Place} (h : home.Named) : (bare home).Named := by
  intro place hplace
  rw [places, List.mem_append] at hplace
  rcases hplace with hplace | hplace
  · exact h.way place hplace
  · cases hplace

/-- The working directory of an operator alone. -/
theorem named_empty : empty.Named :=
  named_bare fun name hname => by
    rcases List.mem_pair.mp hname with rfl | rfl
    · exact ⟨by decide, by decide, by decide, by decide⟩
    · exact ⟨by decide, by decide, by decide, by decide⟩

/-- The working directory is made of names. -/
theorem Named.home (h : t.Named) : t.home.Named :=
  h _ (List.mem_append_left _ ((Place.mem_way_iff _ _).mpr (List.prefix_refl _)))

/-- An entry at a place made of names. -/
theorem Named.put (h : t.Named) {place : Place} (hplace : place.Named) (entry : Entry) : (t.put place entry).Named := by
  intro place' hplace'
  rcases mem_places_put hplace' with rfl | hold
  · exact hplace
  · exact h place' hold

/-- The directories that lead to a place made of names. -/
theorem Named.addDirectories (h : t.Named) {place : Place} (hplace : place.Named) : (t.addDirectories place).Named := by
  rw [Tree.addDirectories]
  have hway := hplace.way
  generalize place.way = way at hway
  induction way generalizing t with
  | nil => exact h
  | cons part way ih =>
    obtain ⟨hpart, hrest⟩ := List.forall_mem_cons.mp hway
    rw [List.foldl_cons]
    refine ih ?_ hrest
    rw [addDirectory]
    split
    · exact h
    · exact h.put hpart _

/-- An edit keeps to names. -/
theorem Named.edit (h : t.Named) (e : Edit) : (t.edit e).Named := by
  cases e with
  | makeDirectory path => exact h.addDirectories (Place.named_ofPath h.home path)
  | write path content =>
    have hplace := Place.named_ofPath h.home path
    exact (h.addDirectories (hplace.of_sublist (List.dropLast_sublist _))).put hplace _
  | remove path =>
    intro place hplace
    rw [Tree.edit, places, List.mem_append] at hplace
    refine h place (List.mem_append.mpr (hplace.imp_right fun hrow => ?_))
    exact (List.filter_sublist.map Prod.fst).subset hrow

/-- Edits keep to names. -/
theorem Named.edits (h : t.Named) (changes : List Edit) : (t.edits changes).Named := by
  induction changes generalizing t with
  | nil => exact h
  | cons e changes ih => exact ih (h.edit e)

/-! ### Paths through a tree -/

/-- Where a name can be followed, it leads to the place that it names. -/
theorem step_of_follow {place place' : Place} {name : FileName} (h : t.follow place name = .ok place') : place' = place.step name := by
  rw [follow] at h
  split at h
  · split_ifs at h
    exact (Except.ok.inj h).symm
  · cases h
  · cases h

/-- A path that leads somewhere leads to the place that it names. -/
theorem place_of_resolve {path : RawPath} {place : Place} (h : t.resolve path = .ok place) : place = Place.ofPath t.home path := by
  have hfold : path.names.foldlM t.follow (Place.start t.home path) = .ok place := by
    simp only [resolve] at h
    split_ifs at h
    exact h
  rw [Place.ofPath]
  clear h
  generalize path.names = names at hfold
  generalize Place.start t.home path = start at hfold
  induction names generalizing start with
  | nil => exact (Except.ok.inj hfold).symm
  | cons name names ih =>
    rw [List.foldlM_cons] at hfold
    simp only [bind, Except.bind] at hfold
    split at hfold
    · cases hfold
    · rename_i next hnext
      rw [List.foldl_cons, ← step_of_follow hnext]
      exact ih next hfold

/-! ### Directories -/

/-- A place lies directly below another under its last name. -/
theorem childName?_eq_some_iff (place below : Place) (name : FileName) :
    childName? place below = some name ↔ below = place ++ [name] := by
  constructor
  · intro h
    rw [childName?] at h
    split at h
    · rename_i last hlast
      split at h
      · rename_i hplace
        obtain rfl := Option.some.inj h
        rw [← hplace, List.dropLast_append_getLast? last hlast]
      · cases h
    · cases h
  · rintro rfl
    simp [childName?]

/-- Below a place stand the names under which something stands there. -/
theorem mem_children_iff (t : Tree) (place : Place) (name : FileName) : name ∈ t.children place ↔ place ++ [name] ∈ t.places := by
  simp only [children, List.mem_filterMap, childName?_eq_some_iff, exists_eq_right]

/-- A directory holds the names of what stands directly below its place. -/
theorem read_eq_ok_iff (t : Tree) (path : RawPath) (names : List FileName) :
    t.read path = .ok names ↔
      ∃ place, t.resolve path = .ok place ∧ t.entry? place = some .directory ∧ names = t.children place := by
  simp only [read, bind, Except.bind]
  cases t.resolve path with
  | error fault => simp
  | ok place =>
    dsimp only
    rcases hentry : t.entry? place with _ | _ | content
    · simp [hentry]
    · simp [hentry, eq_comm]
    · simp [hentry]

/-- What a directory holds are names. -/
theorem Named.of_read (h : t.Named) {path : RawPath} {names : List FileName} (hread : t.read path = .ok names) :
    ∀ name ∈ names, FileName.Proper name := by
  obtain ⟨place, -, -, rfl⟩ := (t.read_eq_ok_iff path names).mp hread
  intro name hname
  exact h _ ((t.mem_children_iff place name).mp hname) name (by simp)

end Tree

end StreamCharts
