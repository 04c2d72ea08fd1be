import Mathlib.Order.Basic
import Mathlib.Order.Nat
import StreamCharts.Pattern.Syntax

/-!
# Readers of patterns go forward

No reader of a part of a pattern leaves more than it was given, and those of a whole part leave less. So a reader that takes a round
of fuel for each part never runs out of it when it has one more than there are characters, and further fuel changes nothing: what is
refused is not well formed. Main statements: `Pattern.read?_fuel`, and for sets in brackets `Pattern.bracketBody?_fuel`.
-/

namespace StreamCharts.Pattern

variable {mode : Mode} {cs rest : List Char} {c : Char}

/-! ## Modes -/

/-- No layout leaves more than it was given. -/
theorem length_skipLayout_le (inComment : Bool) (cs : List Char) : (Mode.skipLayout inComment cs).length ≤ cs.length := by
  induction cs generalizing inComment with
  | nil => exact Nat.le_refl _
  | cons c cs ih =>
    rw [Mode.skipLayout]
    split
    · exact (ih _).trans (Nat.le_succ _)
    · split
      · exact (ih _).trans (Nat.le_succ _)
      · split
        · exact (ih _).trans (Nat.le_succ _)
        · exact Nat.le_refl _

/-- Nor does what the mode ignores. -/
theorem length_skip_le (mode : Mode) (cs : List Char) : (mode.skip cs).length ≤ cs.length := by
  rw [Mode.skip]
  split
  · exact length_skipLayout_le false cs
  · exact Nat.le_refl _

/-- What is left behind the first character that is not ignored is less. -/
theorem lt_of_skip (h : mode.skip cs = c :: rest) : rest.length < cs.length := by
  have hle := length_skip_le mode cs
  rw [h, List.length_cons] at hle
  exact hle

/-- Flags are followed by a sign that ends them. -/
theorem lt_of_flags? {seen : List Char} {changed : Mode} (h : mode.flags? seen cs = some (changed, c, rest)) :
    rest.length < cs.length := by
  induction cs generalizing mode seen with
  | nil => cases h
  | cons d cs ih =>
    rw [Mode.flags?] at h
    split at h
    · split at h
      · cases h
      · cases h
        exact Nat.lt_succ_self _
    · split at h
      · cases h
      · split at h
        · exact (ih h).trans (Nat.lt_succ_self _)
        · split at h
          · exact (ih h).trans (Nat.lt_succ_self _)
          · cases h

/-! ## Escapes -/

/-- Digits leave no more than was given. -/
theorem le_of_hexDigits? {count : Nat} {digits : List Char} (h : hexDigits? mode count cs = some (digits, rest)) :
    rest.length ≤ cs.length := by
  induction count generalizing cs digits with
  | zero =>
    cases h
    exact Nat.le_refl _
  | succ count ih =>
    rw [hexDigits?] at h
    split at h
    · cases h
    · rename_i heq
      split at h
      · obtain ⟨⟨others, behind⟩, hothers, h⟩ := Option.map_eq_some_iff.mp h
        cases h
        exact (ih hothers).trans (lt_of_skip heq).le
      · cases h

/-- A text in braces ends with one. -/
theorem lt_of_braced? {fuel : Nat} {text : List Char} (h : braced? mode fuel cs = some (text, rest)) : rest.length < cs.length := by
  induction fuel generalizing cs text with
  | zero => cases h
  | succ fuel ih =>
    rw [braced?] at h
    split at h
    · cases h
    · rename_i heq
      cases h
      exact lt_of_skip heq
    · rename_i heq
      obtain ⟨⟨others, behind⟩, hothers, h⟩ := Option.map_eq_some_iff.mp h
      cases h
      exact (ih hothers).trans (lt_of_skip heq)

/-- A code point leaves no more than was given. -/
theorem le_of_codePoint? {count : Nat} (h : codePoint? mode count cs = some (c, rest)) : rest.length ≤ cs.length := by
  rw [codePoint?] at h
  split at h
  · rename_i heq
    obtain ⟨⟨digits, behind⟩, hdigits, h⟩ := Option.bind_eq_some_iff.mp h
    dsimp only at h
    split at h
    · cases h
    · obtain ⟨d, -, h⟩ := Option.bind_eq_some_iff.mp h
      cases h
      exact ((lt_of_braced? hdigits).trans (lt_of_skip heq)).le
  · obtain ⟨⟨digits, behind⟩, hdigits, h⟩ := Option.bind_eq_some_iff.mp h
    obtain ⟨d, -, h⟩ := Option.bind_eq_some_iff.mp h
    split at h
    · cases h
    · cases h
      exact (le_of_hexDigits? hdigits).trans (length_skip_le mode cs)

/-- A boundary leaves no more than was given. -/
theorem le_of_boundary? {atom : Atom} (h : boundary? mode cs = some (atom, rest)) : rest.length ≤ cs.length := by
  rw [boundary?.eq_def] at h
  split at h
  · split at h
    · cases h
    · split at h
      · obtain ⟨⟨name, behind⟩, hname, h⟩ := Option.bind_eq_some_iff.mp h
        obtain ⟨fits, -, h⟩ := Option.bind_eq_some_iff.mp h
        cases h
        exact (lt_of_braced? hname).le.trans (Nat.le_succ _)
      · cases h
        exact Nat.le_refl _
  · cases h
    exact Nat.le_refl _

/-- An escape leaves less. -/
theorem lt_of_escape? {atom : Atom} (h : escape? mode cs = some (atom, rest)) : rest.length < cs.length := by
  cases cs with
  | nil => cases h
  | cons c cs =>
    rw [escape?] at h
    rw [List.length_cons, Nat.lt_succ_iff]
    split at h
    · obtain ⟨⟨d, behind⟩, hpoint, h⟩ := Option.map_eq_some_iff.mp h
      cases h
      exact le_of_codePoint? hpoint
    · split at h
      · obtain ⟨⟨d, behind⟩, hpoint, h⟩ := Option.map_eq_some_iff.mp h
        cases h
        exact le_of_codePoint? hpoint
      · split at h
        · obtain ⟨⟨d, behind⟩, hpoint, h⟩ := Option.map_eq_some_iff.mp h
          cases h
          exact le_of_codePoint? hpoint
        · split at h
          · split at h
            · exact le_of_boundary? h
            · cases h
          · obtain ⟨short, -, h⟩ := Option.map_eq_some_iff.mp h
            cases h
            exact Nat.le_refl _

/-! ## Brackets -/

/-- An atom between brackets leaves less. -/
theorem lt_of_bracketAtom? {atom : Atom} (h : bracketAtom? mode cs = some (atom, rest)) : rest.length < cs.length := by
  rw [bracketAtom?.eq_def] at h
  split at h
  · cases h
  · exact (lt_of_escape? h).trans (Nat.lt_succ_self _)
  · cases h
    exact Nat.lt_succ_self _

/-- An item between brackets leaves less. -/
theorem lt_of_bracketItem? {set : CharSet} (h : bracketItem? mode cs = some (set, rest)) : rest.length < cs.length := by
  rw [bracketItem?] at h
  obtain ⟨⟨atom, behind⟩, hatom, h⟩ := Option.bind_eq_some_iff.mp h
  have hlt := lt_of_bracketAtom? hatom
  have halone : (atomSet? mode atom).map (·, mode.skip behind) = some (set, rest) → rest.length < cs.length := by
    intro h
    obtain ⟨s, -, h⟩ := Option.map_eq_some_iff.mp h
    cases h
    exact (length_skip_le mode behind).trans_lt hlt
  dsimp only at h
  split at h
  · cases h
  · rename_i hyphened heq
    split at h
    · exact halone h
    · exact halone h
    · obtain ⟨⟨other, behind'⟩, hother, h⟩ := Option.bind_eq_some_iff.mp h
      dsimp only at h
      split at h
      · obtain ⟨s, -, h⟩ := Option.map_eq_some_iff.mp h
        cases h
        have hbehind := lt_of_bracketAtom? hother
        have hskip := length_skip_le mode hyphened
        have hhyphen := lt_of_skip heq
        omega
      · cases h
  · exact halone h

/-- The name of a set ends with a sign. -/
theorem lt_of_asciiName? {negative : Bool} {set : CharSet} (h : asciiName? cs = some (negative, set, rest)) :
    rest.length < cs.length := by
  rw [asciiName?.eq_def] at h
  split at h
  · rename_i named
    dsimp only at h
    split at h
    · rename_i heq
      obtain ⟨s, -, h⟩ := Option.map_eq_some_iff.mp h
      cases h
      have hsign := (congrArg List.length heq).ge.trans (List.dropWhile_sublist _).length_le
      have hdrop : (if named.head? = some '^' then named.drop 1 else named).length ≤ named.length := by
        split
        · exact (List.drop_sublist 1 named).length_le
        · exact Nat.le_refl _
      simp only [List.length_cons] at hsign ⊢
      omega
    · cases h
  · cases h

/-- Hyphens leave no more than was given. -/
theorem length_leadingHyphens_le (mode : Mode) (fuel : Nat) (cs : List Char) :
    (leadingHyphens mode fuel cs).2.length ≤ cs.length := by
  induction fuel generalizing cs with
  | zero => exact Nat.le_refl _
  | succ fuel ih =>
    rw [leadingHyphens]
    split
    · rename_i heq
      exact (ih _).trans (lt_of_skip heq).le
    · exact length_skip_le mode cs

/-- The beginning of a set leaves no more than was given. -/
theorem length_bracketOpening_le (mode : Mode) (cs : List Char) : (bracketOpening mode cs).2.2.length ≤ cs.length := by
  rw [bracketOpening]
  split
  rename_i negative listed hnegation
  have hlisted : listed.length ≤ cs.length := by
    split at hnegation
    · rename_i heq
      cases hnegation
      exact (lt_of_skip heq).le
    · cases hnegation
      exact length_skip_le mode cs
  have hleading := (length_leadingHyphens_le mode (listed.length + 1) listed).trans hlisted
  split
  · rename_i heq
    rw [heq] at hleading
    exact (Nat.le_succ _).trans hleading
  · rename_i heq
    rwa [heq] at hleading
  · rename_i heq
    rwa [heq] at hleading

/-- The rest of a set ends with a bracket. -/
theorem lt_of_bracketBody? {fuel : Nat} {combine : CharSet → CharSet} {union set : CharSet}
    (h : bracketBody? mode fuel combine union cs = some (set, rest)) : rest.length < cs.length := by
  induction fuel generalizing combine union cs set rest with
  | zero => cases h
  | succ fuel ih =>
    rw [bracketBody?] at h
    split at h
    · cases h
    · rename_i heq
      cases h
      exact lt_of_skip heq
    · rename_i heq
      exact (ih h).trans ((Nat.lt_succ_self _).trans (lt_of_skip heq))
    · rename_i heq
      exact (ih h).trans ((Nat.lt_succ_self _).trans (lt_of_skip heq))
    · rename_i heq
      exact (ih h).trans ((Nat.lt_succ_self _).trans (lt_of_skip heq))
    · rename_i heq
      have hopening := lt_of_skip heq
      split at h
      · rename_i hname
        obtain ⟨s, -, h⟩ := Option.bind_eq_some_iff.mp h
        exact (ih h).trans ((lt_of_asciiName? hname).trans hopening)
      · dsimp only at h
        obtain ⟨first, -, h⟩ := Option.bind_eq_some_iff.mp h
        obtain ⟨⟨inner, behind⟩, hinner, h⟩ := Option.bind_eq_some_iff.mp h
        obtain ⟨s, -, h⟩ := Option.bind_eq_some_iff.mp h
        exact (ih h).trans ((ih hinner).trans_le ((length_bracketOpening_le mode _).trans hopening.le))
    · obtain ⟨⟨s, behind⟩, hitem, h⟩ := Option.bind_eq_some_iff.mp h
      exact (ih h).trans ((lt_of_bracketItem? hitem).trans_le (length_skip_le mode cs))

/-- A set ends with a bracket. -/
theorem lt_of_bracket? {set : CharSet} (h : bracket? mode cs = some (set, rest)) : rest.length < cs.length := by
  rw [bracket?] at h
  dsimp only at h
  obtain ⟨first, -, h⟩ := Option.bind_eq_some_iff.mp h
  obtain ⟨⟨inner, behind⟩, hinner, h⟩ := Option.bind_eq_some_iff.mp h
  obtain ⟨s, -, h⟩ := Option.bind_eq_some_iff.mp h
  cases h
  exact (lt_of_bracketBody? hinner).trans_le (length_bracketOpening_le mode cs)

/-! ## Repetitions -/

/-- Digits leave no more than was given. -/
theorem length_digits_le (mode : Mode) (fuel : Nat) (cs : List Char) : (digits mode fuel cs).2.length ≤ cs.length := by
  induction fuel generalizing cs with
  | zero => exact Nat.le_refl _
  | succ fuel ih =>
    rw [digits]
    split
    · rename_i heq
      split
      · exact (ih _).trans (lt_of_skip heq).le
      · exact lt_of_skip heq
    · exact Nat.zero_le _

/-- A number of repetitions leaves no more than was given. -/
theorem le_of_repetitions? {n : Nat} (h : repetitions? mode cs = some (n, rest)) : rest.length ≤ cs.length := by
  rw [repetitions?] at h
  dsimp only at h
  split at h
  · cases h
  · cases h
    exact ((length_skip_le mode _).trans (List.dropWhile_sublist _).length_le).trans
      ((length_digits_le mode _ _).trans (List.dropWhile_sublist _).length_le)

/-- Nor does the mark of a preference. -/
theorem length_skipPreference_le (cs : List Char) : (skipPreference cs).length ≤ cs.length := by
  rw [skipPreference.eq_def]
  split
  · exact Nat.le_succ _
  · exact Nat.le_refl _

/-- Bounds end with a brace. -/
theorem lt_of_bounds? {bounds : Nat × Option Nat} (h : bounds? mode cs = some (bounds, rest)) : rest.length < cs.length := by
  have hclosed : ∀ behind : List Char, (skipPreference (mode.skip behind)).length ≤ behind.length := fun behind =>
    (length_skipPreference_le _).trans (length_skip_le mode behind)
  rw [bounds?] at h
  obtain ⟨⟨least, behind⟩, hleast, h⟩ := Option.bind_eq_some_iff.mp h
  have hle := (le_of_repetitions? hleast).trans (length_skip_le mode cs)
  dsimp only at h
  split at h
  · cases h
    exact (hclosed _).trans_lt hle
  · split at h
    · rename_i heq
      cases h
      exact (hclosed _).trans_lt ((lt_of_skip heq).trans hle)
    · obtain ⟨⟨most, behind'⟩, hmost, h⟩ := Option.bind_eq_some_iff.mp h
      have hle' := (le_of_repetitions? hmost).trans (length_skip_le mode _)
      dsimp only at h
      split at h
      · split at h
        · cases h
          exact (hclosed _).trans_lt (hle'.trans ((Nat.le_succ _).trans hle))
        · cases h
      · cases h
  · cases h

/-- A repetition leaves less. -/
theorem lt_of_quantifier? {bounds : Nat × Option Nat} (h : quantifier? mode cs = some (some (bounds, rest))) :
    rest.length < cs.length := by
  rw [quantifier?.eq_def] at h
  split at h
  · cases h
    exact Nat.lt_succ_of_le (length_skipPreference_le _)
  · cases h
    exact Nat.lt_succ_of_le (length_skipPreference_le _)
  · cases h
    exact Nat.lt_succ_of_le (length_skipPreference_le _)
  · exact (lt_of_bounds? (Option.some.inj h)).trans (Nat.lt_succ_self _)
  · cases h

/-! ## Groups -/

/-- The name of a group ends with a sign. -/
theorem lt_of_groupName? {name : List Char} (h : groupName? cs = some (name, rest)) : rest.length < cs.length := by
  rw [groupName?] at h
  split at h
  · rename_i heq _
    split at h
    · cases h
      exact (congrArg List.length heq).ge.trans (List.dropWhile_sublist _).length_le
    · cases h
  · cases h

/-- What stands behind a parenthesis leaves no more than was given. -/
theorem le_of_opening? {opening : Opening} (h : opening? mode cs = some (opening, rest)) : rest.length ≤ cs.length := by
  have hskip := length_skip_le mode cs
  rw [opening?] at h
  dsimp only at h
  split at h
  · rename_i heq
    rw [heq] at hskip
    obtain ⟨⟨name, behind⟩, hname, h⟩ := Option.map_eq_some_iff.mp h
    cases h
    exact (lt_of_groupName? hname).le.trans ((Nat.le_add_right _ 3).trans hskip)
  · rename_i heq
    rw [heq] at hskip
    split at h
    · cases h
    · obtain ⟨⟨name, behind⟩, hname, h⟩ := Option.map_eq_some_iff.mp h
      cases h
      exact (lt_of_groupName? hname).le.trans ((Nat.le_add_right _ 2).trans hskip)
  · rename_i heq
    rw [heq] at hskip
    split at h
    · rename_i hflags
      cases h
      exact (lt_of_flags? hflags).le.trans ((Nat.le_succ _).trans hskip)
    · rename_i hflags
      cases h
      exact (lt_of_flags? hflags).le.trans ((Nat.le_succ _).trans hskip)
    · cases h
  · cases h
    exact hskip

/-! ## Pieces -/

/-- A piece leaves less. -/
theorem lt_of_piece? {p : Pattern} (h : piece? mode cs = some (p, rest)) : rest.length < cs.length := by
  rw [piece?.eq_def] at h
  split at h
  · cases h
  · obtain ⟨⟨set, behind⟩, hset, h⟩ := Option.map_eq_some_iff.mp h
    cases h
    exact (lt_of_bracket? hset).trans (Nat.lt_succ_self _)
  · obtain ⟨⟨atom, behind⟩, hatom, h⟩ := Option.bind_eq_some_iff.mp h
    obtain ⟨q, -, h⟩ := Option.bind_eq_some_iff.mp h
    cases h
    exact (lt_of_escape? hatom).trans (Nat.lt_succ_self _)
  · obtain ⟨set, -, h⟩ := Option.map_eq_some_iff.mp h
    cases h
    exact Nat.lt_succ_self _
  · cases h
    exact Nat.lt_succ_self _
  · cases h
    exact Nat.lt_succ_self _
  · obtain ⟨q, -, h⟩ := Option.map_eq_some_iff.mp h
    cases h
    exact Nat.lt_succ_self _

/-- A pattern leaves no more than was given. -/
theorem le_of_read? {fuel : Nat} {names : List (List Char)} {draft : Draft} {reading : Reading}
    (h : read? fuel mode names draft cs = some reading) : reading.rest.length ≤ cs.length := by
  induction fuel generalizing mode names draft cs reading with
  | zero => cases h
  | succ fuel ih =>
    rw [read?] at h
    split at h
    · cases h
      exact Nat.zero_le _
    · rename_i heq
      cases h
      exact heq ▸ length_skip_le mode cs
    · rename_i heq
      exact (ih h).trans (lt_of_skip heq).le
    · rename_i heq
      have hparenthesis := (lt_of_skip heq).le
      obtain ⟨⟨opening, behind⟩, hopening, h⟩ := Option.bind_eq_some_iff.mp h
      have hbehind := (le_of_opening? hopening).trans hparenthesis
      cases opening with
      | change changed => exact (ih h).trans hbehind
      | group inner name? =>
        obtain ⟨names', -, h⟩ := Option.bind_eq_some_iff.mp h
        obtain ⟨⟨p, names'', closed⟩, hinner, h⟩ := Option.bind_eq_some_iff.mp h
        split at h
        · have hclosed := (ih hinner).trans hbehind
          rename_i heq'
          cases heq'
          exact (ih h).trans ((Nat.le_succ _).trans hclosed)
        · cases h
    · have hskip := length_skip_le mode cs
      split at h
      · cases h
      · rename_i hquantifier
        obtain ⟨draft', -, h⟩ := Option.bind_eq_some_iff.mp h
        exact (ih h).trans ((lt_of_quantifier? hquantifier).le.trans hskip)
      · obtain ⟨⟨p, behind⟩, hpiece, h⟩ := Option.bind_eq_some_iff.mp h
        exact (ih h).trans ((lt_of_piece? hpiece).le.trans hskip)

/-! ## Fuel -/

variable {fuel fuel' : Nat}

/-- A text in braces is the same for all fuels that last. -/
theorem braced?_fuel (hfuel : cs.length < fuel) (hfuel' : cs.length < fuel') : braced? mode fuel cs = braced? mode fuel' cs := by
  induction fuel generalizing fuel' cs with
  | zero => cases hfuel
  | succ fuel ih =>
    cases fuel' with
    | zero => cases hfuel'
    | succ fuel' =>
      rw [braced?, braced?]
      split
      · rfl
      · rfl
      · rename_i heq
        have hlt := lt_of_skip heq
        rw [ih (hlt.trans_le (Nat.le_of_lt_succ hfuel)) (hlt.trans_le (Nat.le_of_lt_succ hfuel'))]

/-- Digits are the same for all fuels that last. -/
theorem digits_fuel (hfuel : cs.length < fuel) (hfuel' : cs.length < fuel') : digits mode fuel cs = digits mode fuel' cs := by
  induction fuel generalizing fuel' cs with
  | zero => cases hfuel
  | succ fuel ih =>
    cases fuel' with
    | zero => cases hfuel'
    | succ fuel' =>
      rw [digits, digits]
      split
      · rename_i heq
        have hlt := lt_of_skip heq
        rw [ih (hlt.trans_le (Nat.le_of_lt_succ hfuel)) (hlt.trans_le (Nat.le_of_lt_succ hfuel'))]
      · rfl

/-- Hyphens are the same for all fuels that last. -/
theorem leadingHyphens_fuel (hfuel : cs.length < fuel) (hfuel' : cs.length < fuel') :
    leadingHyphens mode fuel cs = leadingHyphens mode fuel' cs := by
  induction fuel generalizing fuel' cs with
  | zero => cases hfuel
  | succ fuel ih =>
    cases fuel' with
    | zero => cases hfuel'
    | succ fuel' =>
      rw [leadingHyphens, leadingHyphens]
      split
      · rename_i heq
        have hlt := lt_of_skip heq
        rw [ih (hlt.trans_le (Nat.le_of_lt_succ hfuel)) (hlt.trans_le (Nat.le_of_lt_succ hfuel'))]
      · rfl

/-- A set in brackets is the same for all fuels that last, or refused for all of them. -/
theorem bracketBody?_fuel {combine : CharSet → CharSet} {union : CharSet} (hfuel : cs.length < fuel) (hfuel' : cs.length < fuel') :
    bracketBody? mode fuel combine union cs = bracketBody? mode fuel' combine union cs := by
  induction fuel generalizing fuel' combine union cs with
  | zero => cases hfuel
  | succ fuel ih =>
    cases fuel' with
    | zero => cases hfuel'
    | succ fuel' =>
      have hrest : ∀ {combine union} {rest : List Char}, rest.length < cs.length →
          bracketBody? mode fuel combine union rest = bracketBody? mode fuel' combine union rest := fun hlt =>
        ih (hlt.trans_le (Nat.le_of_lt_succ hfuel)) (hlt.trans_le (Nat.le_of_lt_succ hfuel'))
      rw [bracketBody?, bracketBody?]
      split
      · rfl
      · rfl
      · rename_i heq
        exact hrest ((Nat.lt_succ_self _).trans (lt_of_skip heq))
      · rename_i heq
        exact hrest ((Nat.lt_succ_self _).trans (lt_of_skip heq))
      · rename_i heq
        exact hrest ((Nat.lt_succ_self _).trans (lt_of_skip heq))
      · rename_i inner heq
        have hopening := lt_of_skip heq
        have hfirst := (length_bracketOpening_le mode inner).trans_lt hopening
        generalize bracketOpening mode inner = beginning at hfirst ⊢
        split
        · rename_i hname
          exact Option.bind_congr fun set _ => hrest ((lt_of_asciiName? hname).trans hopening)
        · refine Option.bind_congr fun first _ => ?_
          rw [hrest hfirst]
          refine Option.bind_congr fun inner hinner => ?_
          exact Option.bind_congr fun set _ => hrest ((lt_of_bracketBody? hinner).trans hfirst)
      · exact Option.bind_congr fun item hitem => hrest ((lt_of_bracketItem? hitem).trans_le (length_skip_le mode cs))

/-- Whatever the fuel, if there is a round of it for each character and one more, a text is read as the same pattern, or refused. -/
theorem read?_fuel {names : List (List Char)} {draft : Draft} (hfuel : cs.length < fuel) (hfuel' : cs.length < fuel') :
    read? fuel mode names draft cs = read? fuel' mode names draft cs := by
  induction fuel generalizing fuel' mode names draft cs with
  | zero => cases hfuel
  | succ fuel ih =>
    cases fuel' with
    | zero => cases hfuel'
    | succ fuel' =>
      have hrest : ∀ {mode names draft} {rest : List Char}, rest.length < cs.length →
          read? fuel mode names draft rest = read? fuel' mode names draft rest := fun hlt =>
        ih (hlt.trans_le (Nat.le_of_lt_succ hfuel)) (hlt.trans_le (Nat.le_of_lt_succ hfuel'))
      rw [read?, read?]
      split
      · rfl
      · rfl
      · rename_i heq
        exact hrest (lt_of_skip heq)
      · rename_i heq
        have hparenthesis := lt_of_skip heq
        refine Option.bind_congr fun ⟨opening, behind⟩ hopening => ?_
        have hbehind := (le_of_opening? hopening).trans_lt hparenthesis
        cases opening with
        | change changed => exact hrest hbehind
        | group inner name? =>
          refine Option.bind_congr fun names' _ => ?_
          rw [hrest hbehind]
          refine Option.bind_congr fun reading hinner => ?_
          have hclosed := (le_of_read? hinner).trans_lt hbehind
          split
          · exact hrest ((Nat.lt_succ_self _).trans hclosed)
          · rfl
      · have hskip := length_skip_le mode cs
        split
        · rfl
        · rename_i hquantifier
          exact Option.bind_congr fun draft' _ => hrest ((lt_of_quantifier? hquantifier).trans_le hskip)
        · exact Option.bind_congr fun piece hpiece => hrest ((lt_of_piece? hpiece).trans_le hskip)

end StreamCharts.Pattern
