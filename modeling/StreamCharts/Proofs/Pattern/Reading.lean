import StreamCharts.Pattern.Syntax
import StreamCharts.Proofs.Pattern.Matching

/-!
# Patterns that are read

Every pattern that a text writes has the bounds of its repetitions in order, so that it occurs in a message just when a piece of the
message fits it (`occursIn_ofText?`). A text without signs writes itself: it occurs in the messages that hold it
(`occursIn_of_plain`).
-/

namespace StreamCharts.Pattern

/-! ## Bounds in order -/

/-- All parts of a draft have their bounds in order. -/
structure Draft.WellFormed (draft : Draft) : Prop where
  alternatives : ∀ p ∈ draft.alternatives?, p.WellFormed
  done : draft.done.WellFormed
  last : ∀ p ∈ draft.last?, p.WellFormed

namespace Draft.WellFormed

variable {draft : Draft} {p : Pattern}

theorem empty : Draft.empty.WellFormed :=
  ⟨fun _ h => absurd h (by simp [Draft.empty]), trivial, fun _ h => absurd h (by simp [Draft.empty])⟩

theorem present (h : draft.WellFormed) : draft.present.WellFormed := by
  rw [Draft.present]
  split
  · rename_i last hlast
    exact ⟨h.done, h.last last hlast⟩
  · exact h.done

theorem add (h : draft.WellFormed) (hp : p.WellFormed) : (draft.add p).WellFormed := by
  refine ⟨h.alternatives, h.present, ?_⟩
  intro q hq
  obtain rfl := Option.mem_some.mp hq
  exact hp

theorem settle (h : draft.WellFormed) : draft.settle.WellFormed :=
  ⟨h.alternatives, h.present, fun _ hq => absurd hq (by simp [Draft.settle])⟩

theorem close (h : draft.WellFormed) : draft.close.WellFormed := by
  rw [Draft.close]
  split
  · rename_i p hp
    exact ⟨h.alternatives p hp, h.present⟩
  · exact h.present

theorem branch (h : draft.WellFormed) : draft.branch.WellFormed := by
  refine ⟨?_, trivial, fun _ hq => absurd hq (by simp [Draft.branch])⟩
  intro q hq
  obtain rfl := Option.mem_some.mp hq
  exact h.close

theorem repeatLast? (h : draft.WellFormed) {least : Nat} {most? : Option Nat} (horder : ∀ most ∈ most?, least ≤ most)
    {repeated : Draft} (hrepeated : draft.repeatLast? least most? = some repeated) : repeated.WellFormed := by
  obtain ⟨p, hp, rfl⟩ := Option.map_eq_some_iff.mp hrepeated
  refine ⟨h.alternatives, h.done, ?_⟩
  intro q hq
  obtain rfl := Option.mem_some.mp hq
  exact ⟨h.last p hp, horder⟩

end Draft.WellFormed

/-- The bounds in braces are in order. -/
theorem le_of_bounds? {mode : Mode} {cs rest : List Char} {least most : Nat} (h : bounds? mode cs = some ((least, some most), rest)) :
    least ≤ most := by
  rw [bounds?] at h
  obtain ⟨⟨first, behind⟩, -, h⟩ := Option.bind_eq_some_iff.mp h
  dsimp only at h
  split at h
  · cases h
    exact le_refl _
  · split at h
    · cases h
    · obtain ⟨⟨last, behind⟩, -, h⟩ := Option.bind_eq_some_iff.mp h
      dsimp only at h
      split at h
      · split at h
        · cases h
          assumption
        · cases h
      · cases h
  · cases h

/-- The bounds of every repetition are in order. -/
theorem le_of_quantifier? {mode : Mode} {cs rest : List Char} {least : Nat} {most? : Option Nat}
    (h : quantifier? mode cs = some (some ((least, most?), rest))) : ∀ most ∈ most?, least ≤ most := by
  rintro most rfl
  rw [quantifier?.eq_def] at h
  split at h
  · cases h
  · cases h
  · cases h
    exact Nat.zero_le _
  · exact le_of_bounds? (Option.some.inj h)
  · cases h

/-- A character is no repetition. -/
theorem wellFormed_of_literal? {mode : Mode} {c : Char} {p : Pattern} (h : literal? mode c = some p) : p.WellFormed := by
  rw [literal?] at h
  split at h
  · cases h
  · obtain ⟨set, -, rfl⟩ := Option.map_eq_some_iff.mp h
    trivial

/-- An atom is no repetition. -/
theorem wellFormed_of_ofAtom? {mode : Mode} {atom : Atom} {p : Pattern} (h : ofAtom? mode atom = some p) : p.WellFormed := by
  cases atom with
  | literal c => exact wellFormed_of_literal? h
  | set s =>
    obtain ⟨set, -, rfl⟩ := Option.map_eq_some_iff.mp h
    trivial
  | place fits =>
    cases h
    trivial

/-- A piece is no repetition. -/
theorem wellFormed_of_piece? {mode : Mode} {cs rest : List Char} {p : Pattern} (h : piece? mode cs = some (p, rest)) :
    p.WellFormed := by
  rw [piece?.eq_def] at h
  split at h
  · cases h
  · obtain ⟨⟨set, behind⟩, -, h⟩ := Option.map_eq_some_iff.mp h
    cases h
    trivial
  · obtain ⟨⟨atom, behind⟩, -, h⟩ := Option.bind_eq_some_iff.mp h
    obtain ⟨q, hq, h⟩ := Option.bind_eq_some_iff.mp h
    cases h
    exact wellFormed_of_ofAtom? hq
  · obtain ⟨set, -, h⟩ := Option.map_eq_some_iff.mp h
    cases h
    trivial
  · cases h
    trivial
  · cases h
    trivial
  · obtain ⟨q, hq, h⟩ := Option.map_eq_some_iff.mp h
    cases h
    exact wellFormed_of_literal? hq

/-- What is read behind a draft with bounds in order has its bounds in order. -/
theorem wellFormed_of_read? {fuel : Nat} {mode : Mode} {names : List (List Char)} {draft : Draft} {cs : List Char}
    {reading : Reading} (h : read? fuel mode names draft cs = some reading) (hdraft : draft.WellFormed) :
    reading.pattern.WellFormed := by
  induction fuel generalizing mode names draft cs reading with
  | zero => cases h
  | succ fuel ih =>
    rw [read?] at h
    split at h
    · cases h
      exact hdraft.close
    · cases h
      exact hdraft.close
    · exact ih h hdraft.branch
    · obtain ⟨⟨opening, behind⟩, -, h⟩ := Option.bind_eq_some_iff.mp h
      cases opening with
      | change changed => exact ih h hdraft.settle
      | group inner name? =>
        obtain ⟨known, -, h⟩ := Option.bind_eq_some_iff.mp h
        obtain ⟨group, hgroup, h⟩ := Option.bind_eq_some_iff.mp h
        split at h
        · exact ih h (hdraft.add (ih hgroup .empty))
        · cases h
    · split at h
      · cases h
      · rename_i least most? behind hquantifier
        obtain ⟨repeated, hrepeated, h⟩ := Option.bind_eq_some_iff.mp h
        exact ih h (hdraft.repeatLast? (le_of_quantifier? hquantifier) hrepeated)
      · obtain ⟨⟨p, behind⟩, hpiece, h⟩ := Option.bind_eq_some_iff.mp h
        exact ih h (hdraft.add (wellFormed_of_piece? hpiece))

/-- A pattern that is read has its bounds in order. -/
theorem wellFormed_of_ofText? {text : String} {p : Pattern} (h : ofText? text = some p) : p.WellFormed := by
  rw [ofText?] at h
  split at h
  · rename_i q names hread
    cases h
    exact wellFormed_of_read? hread .empty
  · cases h

/-- A pattern that is read occurs in a message if and only if a piece of the message fits it. -/
theorem occursIn_ofText? {text : String} {p : Pattern} (h : ofText? text = some p) (message : String) :
    p.occursIn message = true ↔ ∃ i ≤ message.toList.length, ∃ j, p.Fits message.toList.toArray i j :=
  occursIn_iff (wellFormed_of_ofText? h) message

/-! ## Texts without signs -/

/-- The characters that do not stand for themselves where patterns begin. -/
def signs : List Char := ['\\', '.', '+', '*', '?', '(', ')', '|', '[', '\x7b', '^', '$']

/-- What begins with a character that is no sign is no repetition, -/
theorem quantifier?_of_plain {c : Char} (h : c ∉ signs) (cs : List Char) : quantifier? .standard (c :: cs) = none := by
  simp only [signs, List.mem_cons, not_or] at h
  simp [quantifier?, h]

/-- but a piece. -/
theorem piece?_of_plain {c : Char} (h : c ∉ signs) (cs : List Char) :
    piece? .standard (c :: cs) = some (.one (CharSet.single c), cs) := by
  simp only [signs, List.mem_cons, not_or] at h
  simp [piece?, h, literal?, Mode.standard, Mode.variants?]

/-- A character that is no sign is read as itself. -/
theorem read?_cons_of_plain {fuel : Nat} {draft : Draft} {c : Char} (h : c ∉ signs) (cs : List Char) :
    read? (fuel + 1) .standard [] draft (c :: cs) = read? fuel .standard [] (draft.add (.one (CharSet.single c))) cs := by
  have hskip : Mode.standard.skip (c :: cs) = c :: cs := rfl
  have hquantifier := quantifier?_of_plain h cs
  have hpiece := piece?_of_plain h cs
  simp only [signs, List.mem_cons, not_or] at h
  simp [read?, hskip, h, hquantifier, hpiece]

/-- The draft behind characters that stand for themselves. -/
def Draft.spell (draft : Draft) (cs : List Char) : Draft :=
  cs.foldl (fun draft c => draft.add (.one (CharSet.single c))) draft

/-- Characters that are no signs are read one by one. -/
theorem read?_of_plain {fuel : Nat} {draft : Draft} {cs : List Char} (hfuel : cs.length < fuel) (hcs : ∀ c ∈ cs, c ∉ signs) :
    read? fuel .standard [] draft cs = some ⟨(draft.spell cs).close, [], []⟩ := by
  induction cs generalizing fuel draft with
  | nil =>
    cases fuel with
    | zero => cases hfuel
    | succ fuel => rfl
  | cons c cs ih =>
    cases fuel with
    | zero => cases hfuel
    | succ fuel =>
      rw [read?_cons_of_plain (hcs c List.mem_cons_self),
        ih (Nat.lt_of_succ_lt_succ hfuel) fun d hd => hcs d (List.mem_cons_of_mem c hd)]
      rfl

/-- No alternatives arise from characters that stand for themselves. -/
theorem Draft.alternatives?_spell (draft : Draft) (cs : List Char) : (draft.spell cs).alternatives? = draft.alternatives? := by
  induction cs generalizing draft with
  | nil => rfl
  | cons c cs ih => exact ih _

/-- Characters begin what is left of a text at a position if the first stands there and the others begin what is left behind it. -/
theorem cons_prefix_drop_iff {chars cs : List Char} {c : Char} {i : Nat} :
    c :: cs <+: chars.drop i ↔ chars[i]? = some c ∧ cs <+: chars.drop (i + 1) := by
  rw [List.cons_prefix_iff]
  constructor
  · rintro ⟨rest, hdrop, hrest⟩
    have hc : chars[i]? = some c := by
      rw [← List.head?_drop, hdrop]
      rfl
    have htail : chars.drop (i + 1) = rest := by
      rw [← List.tail_drop, hdrop]
      rfl
    exact ⟨hc, htail ▸ hrest⟩
  · rintro ⟨hc, hrest⟩
    obtain ⟨hlt, rfl⟩ := List.getElem?_eq_some_iff.mp hc
    exact ⟨_, List.drop_eq_getElem_cons hlt, hrest⟩

/-- Behind what is read so far, characters that stand for themselves fit exactly themselves. -/
theorem fits_spell {chars : List Char} {draft : Draft} {cs : List Char} {i k : Nat} :
    (draft.spell cs).present.Fits chars.toArray i k ↔
      ∃ j, draft.present.Fits chars.toArray i j ∧ cs <+: chars.drop j ∧ k = j + cs.length := by
  induction cs generalizing draft with
  | nil => simp [Draft.spell]
  | cons c cs ih =>
    have hspell : draft.spell (c :: cs) = (draft.add (.one (CharSet.single c))).spell cs := rfl
    have hadd : (draft.add (.one (CharSet.single c))).present = .sequence draft.present (.one (CharSet.single c)) := rfl
    rw [hspell, ih, hadd]
    constructor
    · rintro ⟨_, ⟨j, hj, rfl, d, hd, hset⟩, hrest, rfl⟩
      obtain rfl : d = c := of_decide_eq_true hset
      rw [List.getElem?_toArray] at hd
      exact ⟨j, hj, cons_prefix_drop_iff.mpr ⟨hd, hrest⟩, by rw [List.length_cons]; omega⟩
    · rintro ⟨j, hj, hfirst, rfl⟩
      obtain ⟨hc, hrest⟩ := cons_prefix_drop_iff.mp hfirst
      rw [← List.getElem?_toArray] at hc
      exact ⟨j + 1, ⟨j, hj, rfl, c, hc, decide_eq_true rfl⟩, hrest, by rw [List.length_cons]; omega⟩

/-- A text without signs is a pattern, which occurs in the messages that hold the text. -/
theorem occursIn_of_plain {word : String} (h : ∀ c ∈ word.toList, c ∉ signs) :
    ∃ p, ofText? word = some p ∧ ∀ message : String, p.occursIn message = true ↔ word.toList <:+: message.toList := by
  have hclose : (Draft.empty.spell word.toList).close = (Draft.empty.spell word.toList).present := by
    rw [Draft.close, Draft.alternatives?_spell]
    rfl
  have htext : ofText? word = some (Draft.empty.spell word.toList).present := by
    rw [ofText?, read?_of_plain word.toList.length.lt_succ_self h, hclose]
  refine ⟨_, htext, fun message => ?_⟩
  rw [occursIn_ofText? htext]
  constructor
  · rintro ⟨i, -, k, hfits⟩
    obtain ⟨j, -, hword, -⟩ := fits_spell.mp hfits
    exact hword.isInfix.trans (List.drop_suffix j _).isInfix
  · rintro ⟨before, behind, hmessage⟩
    refine ⟨before.length, ?_, _, fits_spell.mpr ⟨before.length, rfl, ?_, rfl⟩⟩
    · rw [← hmessage, List.append_assoc, List.length_append]
      exact Nat.le_add_right _ _
    · rw [← hmessage, List.append_assoc, List.drop_left]
      exact List.prefix_append _ _

end StreamCharts.Pattern
