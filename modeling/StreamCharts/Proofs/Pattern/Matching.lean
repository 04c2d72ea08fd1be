import Mathlib.Order.Basic
import Mathlib.Order.Nat
import Mathlib.Tactic.ByContra
import StreamCharts.Pattern.Basic

/-!
# What patterns mean

`Pattern.Fits` says which pieces of a text fit a pattern, by the forms of patterns and without any bound on repetitions. The search
follows sets of positions, stops when a step adds none, and makes no more steps than `enough`; it still finds all pieces, because a
piece never ends before it begins: in a repetition of more pieces than there are characters one is empty, and it can be left out or put
in again. Main statement: `Pattern.occursIn_iff`.
-/

namespace StreamCharts.Pattern

/-- So many steps of a relation, one behind the other. -/
inductive Chain (step : Nat → Nat → Prop) : (count : Nat) → Nat → Nat → Prop
  | none (i : Nat) : Chain step 0 i i
  | more {count i j k : Nat} (first : step i j) (others : Chain step count j k) : Chain step (count + 1) i k

/-- The piece of a text between two positions fits a pattern. -/
def Fits (text : Array Char) : Pattern → Nat → Nat → Prop
  | .nothing, i, j => i = j
  | .one set, i, j => j = i + 1 ∧ ∃ c, text[i]? = some c ∧ set c = true
  | .place fits, i, j => i = j ∧ fits (before? text i) text[i]? = true
  | .sequence p q, i, k => ∃ j, p.Fits text i j ∧ q.Fits text j k
  | .either p q, i, j => p.Fits text i j ∨ q.Fits text i j
  | .repeated p least most?, i, j => ∃ count, least ≤ count ∧ (∀ most ∈ most?, count ≤ most) ∧ Chain (p.Fits text) count i j

/-- The bounds of all repetitions in a pattern are in order. -/
def WellFormed : Pattern → Prop
  | .nothing => True
  | .one _ => True
  | .place _ => True
  | .sequence p q => p.WellFormed ∧ q.WellFormed
  | .either p q => p.WellFormed ∧ q.WellFormed
  | .repeated p least most? => p.WellFormed ∧ ∀ most ∈ most?, least ≤ most

/-! ## Chains of steps that never go back -/

/-- A relation that never leads back, and from a position up to a bound to none behind it. -/
def Onward (bound : Nat) (step : Nat → Nat → Prop) : Prop :=
  ∀ i j, i ≤ bound → step i j → i ≤ j ∧ j ≤ bound

namespace Chain

variable {step : Nat → Nat → Prop} {bound m n i j k : Nat}

/-- Chains compose. -/
theorem append (h : Chain step m i j) (h' : Chain step n j k) : Chain step (m + n) i k := by
  induction h with
  | none => rwa [Nat.zero_add]
  | more first _ ih =>
    rw [Nat.add_right_comm]
    exact .more first (ih h')

/-- A chain can be taken apart. -/
theorem exists_of_add (h : Chain step (m + n) i k) : ∃ j, Chain step m i j ∧ Chain step n j k := by
  induction m generalizing i with
  | zero =>
    rw [Nat.zero_add] at h
    exact ⟨i, .none i, h⟩
  | succ m ih =>
    rw [Nat.add_right_comm] at h
    cases h with
    | more first others =>
      obtain ⟨j, hm, hn⟩ := ih others
      exact ⟨j, .more first hm, hn⟩

/-- Chains of steps that go onward do so. -/
theorem onward (hstep : Onward bound step) (n : Nat) : Onward bound (Chain step n) := by
  intro i j hi h
  induction h with
  | none => exact ⟨le_refl _, hi⟩
  | more first _ ih =>
    obtain ⟨hle, hbound⟩ := hstep _ _ hi first
    obtain ⟨hle', hbound'⟩ := ih hbound
    exact ⟨hle.trans hle', hbound'⟩

/-- A step that stays can be made any number of times. -/
theorem stay (h : step i i) (n : Nat) : Chain step n i i := by
  induction n with
  | zero => exact .none i
  | succ n ih => exact .more h ih

/-- Of more steps than there are positions to go one stays, and it can be left out or made more often. -/
theorem pump (hstep : Onward bound step) (h : Chain step n i j) (hi : i ≤ bound) (hlong : j - i < n) (more : Nat) :
    Chain step (n - 1 + more) i j := by
  induction h with
  | none => omega
  | more first others ih =>
    rename_i count i k j
    rw [Nat.add_sub_cancel]
    obtain ⟨hle, hk⟩ := hstep _ _ hi first
    obtain ⟨hle', -⟩ := others.onward hstep _ _ _ hk
    obtain rfl | hlt := hle.eq_or_lt
    · -- the first step is one that stays
      rw [Nat.add_comm]
      exact (stay first more).append others
    · have hothers := Chain.more first (ih hk (by omega))
      have hcount : count - 1 + more + 1 = count + more := by omega
      rwa [hcount] at hothers

/-- With more steps than there are positions to go, any number of steps is possible that is not less than the positions. -/
theorem of_long (hstep : Onward bound step) (h : Chain step n i j) (hi : i ≤ bound) (hlong : j - i < n) (hm : j - i ≤ m) :
    Chain step m i j := by
  induction n with
  | zero => omega
  | succ n ih =>
    have hpump := h.pump hstep hi hlong
    rw [Nat.add_sub_cancel] at hpump
    by_cases hnm : n ≤ m
    · have hmore := hpump (m - n)
      rwa [Nat.add_sub_cancel' hnm] at hmore
    · exact ih (hpump 0) (by omega)

end Chain

/-! ## Searching -/

/-- A step of the search leads from positions up to a bound exactly where a relation does. -/
def Follows (bound : Nat) (search : List Nat → List Nat) (step : Nat → Nat → Prop) : Prop :=
  ∀ positions, (∀ i ∈ positions, i ≤ bound) → ∀ j, j ∈ search positions ↔ ∃ i ∈ positions, step i j

section Search

variable {bound : Nat} {search : List Nat → List Nat} {step : Nat → Nat → Prop} {positions : List Nat}

/-- What the search finds lies up to the bound too. -/
theorem Follows.le_bound (hsearch : Follows bound search step) (hstep : Onward bound step) (hpositions : ∀ i ∈ positions, i ≤ bound) :
    ∀ j ∈ search positions, j ≤ bound := by
  intro j hj
  obtain ⟨i, hi, hij⟩ := (hsearch positions hpositions j).mp hj
  exact (hstep i j (hpositions i hi) hij).2

/-- The positions of a union. -/
theorem mem_union {s t : List Nat} {j : Nat} : j ∈ union s t ↔ j ∈ s ∨ j ∈ t := by
  by_cases hs : j ∈ s <;> simp [union, hs]

/-- Iterated search finds the positions behind so many steps. -/
theorem follows_iterate (hsearch : Follows bound search step) (hstep : Onward bound step) (count : Nat) :
    Follows bound (iterate search count) (Chain step count) := by
  intro positions hpositions j
  induction count generalizing positions with
  | zero =>
    rw [iterate]
    constructor
    · intro hj
      exact ⟨j, hj, .none j⟩
    · rintro ⟨i, hi, hij⟩
      cases hij
      exact hi
  | succ count ih =>
    rw [iterate, ih _ (hsearch.le_bound hstep hpositions)]
    constructor
    · rintro ⟨k, hk, hkj⟩
      obtain ⟨i, hi, hik⟩ := (hsearch positions hpositions k).mp hk
      exact ⟨i, hi, .more hik hkj⟩
    · rintro ⟨i, hi, hij⟩
      cases hij with
      | more first others => exact ⟨_, (hsearch positions hpositions _).mpr ⟨i, hi, first⟩, others⟩

/-- From positions that a step leads back to, no number of steps leads elsewhere. -/
theorem mem_of_closed (hsearch : Follows bound search step) (hpositions : ∀ i ∈ positions, i ≤ bound)
    (hclosed : ∀ j ∈ search positions, j ∈ positions) {count i j : Nat} (hi : i ∈ positions) (h : Chain step count i j) :
    j ∈ positions := by
  induction h with
  | none => exact hi
  | more first _ ih => exact ih (hclosed _ ((hsearch positions hpositions _).mpr ⟨_, hi, first⟩))

/-- The search over up to so many steps finds the positions behind them, also when it stops before because a step adds none. -/
theorem follows_reach (hsearch : Follows bound search step) (hstep : Onward bound step) (count : Nat) :
    Follows bound (reach search count) (fun i j => ∃ n ≤ count, Chain step n i j) := by
  intro positions hpositions j
  induction count generalizing positions with
  | zero =>
    rw [reach]
    constructor
    · intro hj
      exact ⟨j, hj, 0, le_refl 0, .none j⟩
    · rintro ⟨i, hi, n, hn, hij⟩
      obtain rfl := Nat.le_zero.mp hn
      cases hij
      exact hi
  | succ count ih =>
    have hreached : ∀ k, k ∈ (search positions).filter (!positions.contains ·) ↔ k ∈ search positions ∧ k ∉ positions := by
      intro k
      rw [List.mem_filter, Bool.not_eq_true', List.contains_eq_mem, decide_eq_false_iff_not]
    rw [reach]
    split
    · -- no step leads out of the positions
      rename_i hempty
      rw [List.isEmpty_iff] at hempty
      have hclosed : ∀ k ∈ search positions, k ∈ positions := by
        intro k hk
        by_contra hno
        have hmem := (hreached k).mpr ⟨hk, hno⟩
        rw [hempty] at hmem
        exact List.not_mem_nil hmem
      constructor
      · intro hj
        exact ⟨j, hj, 0, Nat.zero_le _, .none j⟩
      · rintro ⟨i, hi, n, -, hij⟩
        exact mem_of_closed hsearch hpositions hclosed hi hij
    · have hmore : ∀ k ∈ positions ++ (search positions).filter (!positions.contains ·), k ≤ bound := by
        intro k hk
        obtain hk | hk := List.mem_append.mp hk
        · exact hpositions k hk
        · exact hsearch.le_bound hstep hpositions k ((hreached k).mp hk).1
      rw [ih _ hmore]
      constructor
      · rintro ⟨k, hk, n, hn, hkj⟩
        obtain hk | hk := List.mem_append.mp hk
        · exact ⟨k, hk, n, hn.trans count.le_succ, hkj⟩
        · obtain ⟨i, hi, hik⟩ := (hsearch positions hpositions k).mp ((hreached k).mp hk).1
          exact ⟨i, hi, n + 1, Nat.succ_le_succ hn, .more hik hkj⟩
      · rintro ⟨i, hi, n, hn, hij⟩
        cases hij with
        | none => exact ⟨j, List.mem_append_left _ hi, 0, Nat.zero_le _, .none j⟩
        | more first others =>
          rename_i n k
          refine ⟨k, ?_, n, Nat.le_of_succ_le_succ hn, others⟩
          by_cases hk : k ∈ positions
          · exact List.mem_append_left _ hk
          · exact List.mem_append_right _ ((hreached k).mpr ⟨(hsearch positions hpositions k).mpr ⟨i, hi, first⟩, hk⟩)

end Search

/-! ## Repetitions -/

/-- Pieces of a pattern do not end before they begin, nor behind the text. -/
theorem onward_fits (text : Array Char) (p : Pattern) : Onward text.size (p.Fits text) := by
  induction p with
  | nothing =>
    rintro i _ hi rfl
    exact ⟨le_refl i, hi⟩
  | one set =>
    rintro i _ hi ⟨rfl, c, hc, -⟩
    obtain ⟨hlt, -⟩ := Array.getElem?_eq_some_iff.mp hc
    exact ⟨i.le_succ, hlt⟩
  | place fits =>
    rintro i _ hi ⟨rfl, -⟩
    exact ⟨le_refl i, hi⟩
  | sequence p q hp hq =>
    rintro i k hi ⟨j, hij, hjk⟩
    obtain ⟨hle, hj⟩ := hp i j hi hij
    obtain ⟨hle', hk⟩ := hq j k hj hjk
    exact ⟨hle.trans hle', hk⟩
  | either p q hp hq =>
    rintro i j hi (hij | hij)
    · exact hp i j hi hij
    · exact hq i j hi hij
  | repeated p least most? hp =>
    rintro i j hi ⟨count, -, -, hij⟩
    exact hij.onward hp count i j hi

/-- Each number of steps up to the size of a text is made, and instead of a larger one as many as there are positions. -/
theorem enough_cases (text : Array Char) (count : Nat) :
    (count ≤ text.size ∧ enough text count = count) ∨ (text.size < count ∧ enough text count = text.size + 1) := by
  rw [enough]
  split
  · exact .inl ⟨‹_›, rfl⟩
  · exact .inr ⟨Nat.lt_of_not_le ‹_›, rfl⟩

/-- The largest number of steps that the search makes behind the least. -/
def further (text : Array Char) (least : Nat) : Option Nat → Nat
  | some most => enough text (most - least)
  | none => text.size + 1

/-- The bounded numbers of steps that the search makes lead where the numbers within the bounds of a repetition lead. -/
theorem chain_enough_iff {text : Array Char} {step : Nat → Nat → Prop} (hstep : Onward text.size step) {least : Nat}
    {most? : Option Nat} (horder : ∀ most ∈ most?, least ≤ most) {i j : Nat} (hi : i ≤ text.size) :
    (∃ n ≤ further text least most?, Chain step (enough text least + n) i j) ↔
      ∃ count, least ≤ count ∧ (∀ most ∈ most?, count ≤ most) ∧ Chain step count i j := by
  have hwithin : ∀ {n}, Chain step n i j → j - i ≤ text.size := by
    intro n h
    have hbounds := h.onward hstep _ _ _ hi
    omega
  constructor
  · rintro ⟨n, hn, h⟩
    have hdistance := hwithin h
    obtain ⟨hle, heq⟩ | ⟨hlt, heq⟩ := enough_cases text least
    · rw [heq] at h
      refine ⟨least + n, Nat.le_add_right _ _, ?_, h⟩
      rintro most hmost
      cases most? with
      | none => cases hmost
      | some limit =>
        obtain rfl := Option.mem_some.mp hmost
        have hlimit := horder limit rfl
        rw [further] at hn
        obtain ⟨_, heq'⟩ | ⟨_, heq'⟩ := enough_cases text (limit - least) <;> omega
    · rw [heq] at h
      exact ⟨least, le_refl _, horder, h.of_long hstep hi (by omega) (by omega)⟩
  · rintro ⟨count, hleast, hmost, h⟩
    have hdistance := hwithin h
    by_cases hfew : enough text least ≤ count ∧ count ≤ enough text least + further text least most?
    · refine ⟨count - enough text least, by omega, ?_⟩
      rwa [Nat.add_sub_cancel' hfew.1]
    · -- there are more steps than positions, and the search makes as many as it can
      have hlong : text.size < count ∧ text.size < enough text least + further text least most? := by
        cases most? with
        | none =>
          rw [further] at hfew ⊢
          obtain ⟨_, heq⟩ | ⟨_, heq⟩ := enough_cases text least <;> omega
        | some limit =>
          have hlimit := hmost limit rfl
          rw [further] at hfew ⊢
          obtain ⟨_, heq⟩ | ⟨_, heq⟩ := enough_cases text least <;>
            obtain ⟨_, heq'⟩ | ⟨_, heq'⟩ := enough_cases text (limit - least) <;> omega
      exact ⟨further text least most?, le_refl _, h.of_long hstep hi (by omega) (by omega)⟩

/-! ## Patterns -/

/-- The search follows a pattern with bounds in order. -/
theorem follows_ends (text : Array Char) (p : Pattern) (h : p.WellFormed) : Follows text.size (p.ends text) (p.Fits text) := by
  induction p with
  | nothing =>
    intro positions _ j
    simp [ends, Fits]
  | one set =>
    intro positions _ j
    rw [ends, List.mem_filterMap]
    refine exists_congr fun i => and_congr_right fun _ => ?_
    rw [Fits]
    cases text[i]? with
    | none => simp
    | some c =>
      by_cases hset : set c = true
      · simp [hset, eq_comm (a := j)]
      · simp [hset]
  | place fits =>
    intro positions _ j
    rw [ends, List.mem_filter]
    constructor
    · rintro ⟨hj, hfits⟩
      exact ⟨j, hj, rfl, hfits⟩
    · rintro ⟨_, hi, rfl, hfits⟩
      exact ⟨hi, hfits⟩
  | sequence p q hp hq =>
    intro positions hpositions k
    have hp := hp h.1
    rw [ends, hq h.2 _ (hp.le_bound (onward_fits text p) hpositions)]
    constructor
    · rintro ⟨j, hj, hjk⟩
      obtain ⟨i, hi, hij⟩ := (hp positions hpositions j).mp hj
      exact ⟨i, hi, j, hij, hjk⟩
    · rintro ⟨i, hi, j, hij, hjk⟩
      exact ⟨j, (hp positions hpositions j).mpr ⟨i, hi, hij⟩, hjk⟩
  | either p q hp hq =>
    intro positions hpositions j
    rw [ends, mem_union, hp h.1 positions hpositions, hq h.2 positions hpositions, ← exists_or]
    exact exists_congr fun i => and_or_left.symm
  | repeated p least most? hp =>
    intro positions hpositions j
    have hp := hp h.1
    have honward := onward_fits text p
    have hfirst := follows_iterate hp honward (enough text least)
    have hall := follows_reach hp honward (further text least most?) _
      (hfirst.le_bound (fun _ _ => Chain.onward honward _ _ _) hpositions) j
    have hends : (Pattern.repeated p least most?).ends text positions =
        reach (p.ends text) (further text least most?) (iterate (p.ends text) (enough text least) positions) := by
      cases most? <;> rfl
    rw [hends, hall]
    constructor
    · rintro ⟨k, hk, n, hn, hkj⟩
      obtain ⟨i, hi, hik⟩ := (hfirst positions hpositions k).mp hk
      exact ⟨i, hi, (chain_enough_iff honward h.2 (hpositions i hi)).mp ⟨n, hn, hik.append hkj⟩⟩
    · rintro ⟨i, hi, hij⟩
      obtain ⟨n, hn, h⟩ := (chain_enough_iff honward h.2 (hpositions i hi)).mpr hij
      obtain ⟨k, hik, hkj⟩ := h.exists_of_add
      exact ⟨k, (hfirst positions hpositions k).mpr ⟨i, hi, hik⟩, n, hn, hkj⟩

/-- A pattern occurs in a text if and only if some piece of the text fits it. -/
theorem occursIn_iff {p : Pattern} (h : p.WellFormed) (text : String) :
    p.occursIn text = true ↔ ∃ i ≤ text.toList.length, ∃ j, p.Fits text.toList.toArray i j := by
  have hpositions : ∀ i ∈ List.range (text.toList.toArray.size + 1), i ≤ text.toList.toArray.size := by
    intro i hi
    exact Nat.le_of_lt_succ (List.mem_range.mp hi)
  have hends := follows_ends text.toList.toArray p h _ hpositions
  rw [occursIn, Bool.not_eq_true', List.isEmpty_eq_false_iff_exists_mem, exists_congr hends, exists_comm]
  simp only [List.mem_range, Nat.lt_succ_iff, List.size_toArray, exists_and_left]

end StreamCharts.Pattern
