import Mathlib.Data.List.Induction
import Mathlib.Data.List.Nodup
import Mathlib.Order.Basic
import Mathlib.Order.Nat
import StreamCharts.Journal.Filter

/-!
# Which records a filter shows

Of the directives that speak of a target the most specific decides, and of equally specific ones the last (`decisive?_eq_some_iff`);
of directives with one name the last counts (`mem_foldl_insert_iff`). Main statements: `Filter.shows_iff`, and
`Filter.shows_standard`, by which an operator who sets nothing sees the records up to `info`.
-/

namespace StreamCharts

namespace Filter

variable {directives additions : List Directive} {target : String} {d e : Directive}

/-! ## The decisive directive -/

/-- A directive decides about a target: it speaks of it, none that does is more specific, and none behind it is as specific. -/
structure Decides (directives : List Directive) (target : String) (d : Directive) : Prop where
  covers : d.covers target = true
  place : ∃ before behind, directives = before ++ d :: behind ∧
    (∀ e ∈ before, e.covers target = true → e.weight ≤ d.weight) ∧ ∀ e ∈ behind, e.covers target = true → e.weight < d.weight

/-- No more than one directive decides. -/
theorem Decides.unique (h : Decides directives target d) (h' : Decides directives target e) : d = e := by
  obtain ⟨before, behind, rfl, hbefore, hbehind⟩ := h.place
  obtain ⟨before', behind', heq, hbefore', hbehind'⟩ := h'.place
  obtain ⟨between, rfl, hrest⟩ | ⟨between, rfl, hrest⟩ := List.append_eq_append_iff.mp heq
  · cases between with
    | nil => exact (List.cons.inj hrest).1
    | cons first between =>
      -- `d` stands before `e`, which would have to be both less specific and not
      obtain ⟨rfl, rfl⟩ := List.cons.inj hrest
      have hlt := hbehind e (by simp) h'.covers
      have hle := hbefore' d (by simp) h.covers
      omega
  · cases between with
    | nil => exact (List.cons.inj hrest).1.symm
    | cons first between =>
      obtain ⟨rfl, rfl⟩ := List.cons.inj hrest
      have hlt := hbehind' d (by simp) h.covers
      have hle := hbefore e (by simp) h'.covers
      omega

/-- A directive behind others that does not speak of the target changes nothing. -/
theorem decisive?_concat_of_not_covers (h : d.covers target = false) :
    decisive? (directives ++ [d]) target = decisive? directives target := by
  rw [decisive?, decisive?, List.filter_append, List.filter_singleton, h, cond_false, List.append_nil]

/-- A directive behind others that speaks of the target decides unless one before it is more specific. -/
theorem decisive?_concat_of_covers (h : d.covers target = true) :
    decisive? (directives ++ [d]) target =
      match decisive? directives target with
      | some best => if best.weight ≤ d.weight then some d else some best
      | none => some d := by
  rw [decisive?, decisive?, List.filter_append, List.filter_singleton, h, cond_true, List.foldl_append]
  rfl

/-- Where no directive decides none speaks of the target. -/
theorem covers_of_decisive?_eq_none (h : decisive? directives target = none) : ∀ d ∈ directives, d.covers target = false := by
  induction directives using List.reverseRecOn with
  | nil => exact fun d hd => absurd hd List.not_mem_nil
  | append_singleton directives d ih =>
    cases hd : d.covers target with
    | false =>
      rw [decisive?_concat_of_not_covers hd] at h
      intro e he
      obtain he | he := List.mem_append.mp he
      · exact ih h e he
      · rwa [List.mem_singleton.mp he]
    | true =>
      rw [decisive?_concat_of_covers hd] at h
      split at h
      · split at h <;> cases h
      · cases h

/-- What the search finds decides. -/
theorem decides_of_decisive? (h : decisive? directives target = some d) : Decides directives target d := by
  induction directives using List.reverseRecOn generalizing d with
  | nil => cases h
  | append_singleton directives last ih =>
    cases hlast : last.covers target with
    | false =>
      rw [decisive?_concat_of_not_covers hlast] at h
      obtain ⟨hcovers, before, behind, rfl, hbefore, hbehind⟩ := ih h
      refine ⟨hcovers, before, behind ++ [last], by simp, hbefore, ?_⟩
      intro e he hcovers'
      obtain he | he := List.mem_append.mp he
      · exact hbehind e he hcovers'
      · rw [List.mem_singleton.mp he, hlast] at hcovers'
        cases hcovers'
    | true =>
      rw [decisive?_concat_of_covers hlast] at h
      split at h
      · rename_i best hbest
        obtain ⟨hcovers, before, behind, rfl, hbefore, hbehind⟩ := ih hbest
        split at h
        · rename_i hle
          cases h
          refine ⟨hlast, _, [], rfl, ?_, fun e he => absurd he List.not_mem_nil⟩
          intro e he hcovers'
          obtain he | rfl | he := by simpa using he
          · exact (hbefore e he hcovers').trans hle
          · exact hle
          · exact (hbehind e he hcovers').le.trans hle
        · rename_i hlt
          cases h
          refine ⟨hcovers, before, behind ++ [last], by simp, hbefore, ?_⟩
          intro e he hcovers'
          obtain he | he := List.mem_append.mp he
          · exact hbehind e he hcovers'
          · rw [List.mem_singleton.mp he]
            exact Nat.lt_of_not_le hlt
      · rename_i hnone
        cases h
        refine ⟨hlast, directives, [], rfl, ?_, fun e he => absurd he List.not_mem_nil⟩
        intro e he hcovers'
        rw [covers_of_decisive?_eq_none hnone e he] at hcovers'
        cases hcovers'

/-- The search finds the directive that decides. -/
theorem decisive?_eq_some_iff : decisive? directives target = some d ↔ Decides directives target d := by
  refine ⟨decides_of_decisive?, fun h => ?_⟩
  cases hfound : decisive? directives target with
  | some found => rw [(decides_of_decisive? hfound).unique h]
  | none =>
    obtain ⟨before, behind, rfl, -⟩ := h.place
    have hno := covers_of_decisive?_eq_none hfound d (by simp)
    rw [h.covers] at hno
    cases hno

/-! ## What is shown -/

/-- A record is shown if the directive that decides about its topic has a level that is not graver, and its message holds the pattern if
there is one. -/
theorem shows_iff {filter : Filter} {record : Record} :
    filter.shows record = true ↔
      (∃ d limit, Decides filter.directives record.topic.target d ∧ d.level? = some limit ∧ record.level.rank ≤ limit.rank) ∧
        ∀ p ∈ filter.pattern?, p.occursIn record.message = true := by
  have hpattern : ((filter.pattern?.map (·.occursIn record.message)).getD true) = true ↔
      ∀ p ∈ filter.pattern?, p.occursIn record.message = true := by
    cases filter.pattern? <;> simp
  have hadmits : ∀ d : Directive, d.admits record.level = true ↔ ∃ limit, d.level? = some limit ∧ record.level.rank ≤ limit.rank := by
    intro d
    rw [Directive.admits]
    cases d.level? <;> simp
  rw [shows]
  constructor
  · split
    · rename_i d hd
      rw [Bool.and_eq_true, hpattern, hadmits]
      rintro ⟨⟨limit, hlimit, hrank⟩, hall⟩
      exact ⟨⟨d, limit, decisive?_eq_some_iff.mp hd, hlimit, hrank⟩, hall⟩
    · intro h
      cases h
  · rintro ⟨⟨d, limit, hd, hlimit, hrank⟩, hall⟩
    rw [decisive?_eq_some_iff.mpr hd]
    exact Bool.and_eq_true_iff.mpr ⟨(hadmits d).mpr ⟨limit, hlimit, hrank⟩, hpattern.mpr hall⟩

/-- With a record its graver versions are shown. -/
theorem shows_of_graver {filter : Filter} {record : Record} {level : Level} (h : filter.shows record = true)
    (hlevel : level.rank ≤ record.level.rank) : filter.shows { record with level } = true := by
  obtain ⟨⟨d, limit, hd, hlimit, hrank⟩, hpattern⟩ := shows_iff.mp h
  exact shows_iff.mpr ⟨⟨d, limit, hd, hlimit, hlevel.trans hrank⟩, hpattern⟩

/-! ## Directives that are added -/

/-- An added directive takes the place of the one with its name. -/
theorem mem_insert_iff : e ∈ insert directives d ↔ e = d ∨ (e ∈ directives ∧ e.name? ≠ d.name?) := by
  rw [insert]
  split
  · rename_i hany
    obtain ⟨other, hother, hname⟩ := List.any_eq_true.mp hany
    rw [beq_iff_eq] at hname
    rw [List.mem_map]
    constructor
    · rintro ⟨f, hf, rfl⟩
      split
      · exact .inl rfl
      · exact .inr ⟨hf, ‹_›⟩
    · rintro (rfl | ⟨he, hne⟩)
      · exact ⟨other, hother, if_pos hname⟩
      · exact ⟨e, he, if_neg hne⟩
  · rename_i hany
    rw [List.mem_append, List.mem_singleton, or_comm]
    refine or_congr_right (iff_self_and.mpr fun he hname => hany ?_)
    exact List.any_eq_true.mpr ⟨e, he, beq_iff_eq.mpr hname⟩

/-- Directives are told apart by their names. -/
def Distinct (directives : List Directive) : Prop :=
  (directives.map Directive.name?).Nodup

/-- The names stay distinct when a directive is added. -/
theorem Distinct.insert (h : Distinct directives) (d : Directive) : Distinct (insert directives d) := by
  rw [Distinct, Filter.insert]
  split
  · have hnames : (directives.map fun other => if other.name? = d.name? then d else other).map Directive.name? =
        directives.map Directive.name? := by
      rw [List.map_map]
      refine List.map_congr_left fun other _ => ?_
      rw [Function.comp_apply]
      split
      · exact Eq.symm ‹_›
      · rfl
    rw [hnames]
    exact h
  · rename_i hany
    rw [List.map_append, List.map_singleton]
    refine List.nodup_append.mpr ⟨h, List.nodup_singleton _, ?_⟩
    rintro name hname _ hlast rfl
    rw [List.mem_singleton] at hlast
    obtain ⟨other, hother, hname⟩ := List.mem_map.mp hname
    exact hany (List.any_eq_true.mpr ⟨other, hother, beq_iff_eq.mpr (hname.trans hlast)⟩)

/-- The names stay distinct when directives are added. -/
theorem Distinct.foldl (h : Distinct directives) (additions : List Directive) :
    Distinct (additions.foldl Filter.insert directives) := by
  induction additions generalizing directives with
  | nil => exact h
  | cons d additions ih => exact ih (h.insert d)

/-- The directives that are read from a text have distinct names. -/
theorem distinct_ofText (text : String) : Distinct (ofText text).directives := by
  have hstandard : Distinct standard.directives := by
    rw [Distinct]
    decide
  rw [ofText]
  split
  · exact hstandard.foldl _
  · exact hstandard.foldl _
  · exact hstandard

/-- Two names with which one target begins are the same if they are equally long. -/
theorem name?_eq_of_covers (h : d.covers target = true) (h' : e.covers target = true) (hweight : d.weight = e.weight)
    (hpositive : 0 < d.weight) : d.name? = e.name? := by
  have hlonger : ∀ {short long : String}, short.toList <+: long.toList → short.utf8ByteSize = long.utf8ByteSize → short = long := by
    rintro short long ⟨rest, hrest⟩ hsize
    have hlong : long = short ++ String.ofList rest := String.toList_injective (by simp [hrest])
    rw [hlong, String.utf8ByteSize_append, Nat.left_eq_add, String.utf8ByteSize_eq_zero_iff] at hsize
    rw [hlong, hsize, String.append_empty]
  rw [Directive.covers] at h h'
  rw [Directive.weight, Directive.weight] at hweight
  rw [Directive.weight] at hpositive
  cases hd : d.name? with
  | none => simp [hd] at hpositive
  | some name =>
    cases he : e.name? with
    | none => simp_all
    | some name' =>
      simp only [hd, he, List.isPrefixOf_iff_prefix] at h h' hweight
      obtain hle | hle := List.prefix_or_prefix_of_prefix h h'
      · rw [hlonger hle hweight]
      · rw [hlonger hle hweight.symm]

/-- Among directives with distinct names the longest name with which a target begins decides, wherever its directive stands. -/
theorem decides_iff_of_distinct (h : Distinct directives) (hpositive : 0 < d.weight) :
    Decides directives target d ↔
      d ∈ directives ∧ d.covers target = true ∧ ∀ e ∈ directives, e.covers target = true → e.weight ≤ d.weight := by
  constructor
  · rintro ⟨hcovers, before, behind, rfl, hbefore, hbehind⟩
    refine ⟨by simp, hcovers, fun e he hcovers' => ?_⟩
    obtain he | rfl | he := by simpa using he
    · exact hbefore e he hcovers'
    · exact le_refl _
    · exact (hbehind e he hcovers').le
  · rintro ⟨hd, hcovers, hmost⟩
    obtain ⟨before, behind, rfl⟩ := List.append_of_mem hd
    refine ⟨hcovers, before, behind, rfl, fun e he => hmost e (by simp [he]), fun e he hcovers' => ?_⟩
    refine (hmost e (by simp [he]) hcovers').lt_of_ne fun hweight => ?_
    have hname := name?_eq_of_covers hcovers hcovers' hweight.symm hpositive
    rw [Distinct, List.map_append, List.map_cons, List.nodup_append, List.nodup_cons] at h
    exact h.2.1.1 (hname ▸ List.mem_map_of_mem he)

/-- Of the directives with one name the last counts. -/
theorem mem_foldl_insert_iff (h : Distinct directives) :
    e ∈ additions.foldl insert directives ↔
      ∃ before behind, directives ++ additions = before ++ e :: behind ∧ ∀ f ∈ behind, f.name? ≠ e.name? := by
  induction additions using List.reverseRecOn generalizing e with
  | nil =>
    rw [List.append_nil, List.foldl_nil]
    constructor
    · intro he
      obtain ⟨before, behind, rfl⟩ := List.append_of_mem he
      refine ⟨before, behind, rfl, fun f hf hname => ?_⟩
      rw [Distinct, List.map_append, List.map_cons, List.nodup_append, List.nodup_cons] at h
      exact h.2.1.1 (hname ▸ List.mem_map_of_mem hf)
    · rintro ⟨before, behind, rfl, -⟩
      simp
  | append_singleton additions d ih =>
    rw [List.foldl_concat, mem_insert_iff, ih, ← List.append_assoc]
    constructor
    · rintro (rfl | ⟨⟨before, behind, heq, hbehind⟩, hne⟩)
      · exact ⟨_, [], rfl, fun f hf => absurd hf List.not_mem_nil⟩
      · refine ⟨before, behind ++ [d], by simp [heq], ?_⟩
        intro f hf
        obtain hf | hf := List.mem_append.mp hf
        · exact hbehind f hf
        · rw [List.mem_singleton.mp hf]
          exact hne.symm
    · rintro ⟨before, behind, heq, hbehind⟩
      obtain rfl | ⟨behind, last, rfl⟩ := List.eq_nil_or_concat' behind
      · exact .inl (by simpa using (List.append_inj_right' heq rfl).symm)
      · rw [← List.cons_append, ← List.append_assoc] at heq
        obtain ⟨hinit, hlast⟩ := List.append_inj' heq rfl
        obtain rfl : d = last := by simpa using hlast
        exact .inr ⟨⟨before, behind, hinit, fun f hf => hbehind f (by simp [hf])⟩, (hbehind d (by simp)).symm⟩

/-! ## The standard filter -/

/-- The directive on the program's records, which is behind the one on all records. -/
theorem decides_standard (level? : Option Level) (topic : Topic) :
    Decides [⟨none, level?⟩, ⟨some Topic.program.target, some .info⟩] topic.target ⟨some Topic.program.target, some .info⟩ := by
  refine ⟨by cases topic <;> decide +kernel, [_], [], rfl, ?_, fun e he => absurd he List.not_mem_nil⟩
  intro e he _
  obtain rfl := List.mem_singleton.mp he
  exact Nat.zero_le _

/-- The standard filter shows the records up to `info`. -/
theorem shows_standard {record : Record} : standard.shows record = true ↔ record.level.rank ≤ Level.info.rank := by
  have hdecides := decides_standard (some .info) record.topic
  rw [shows_iff]
  constructor
  · rintro ⟨⟨d, limit, hd, hlimit, hrank⟩, -⟩
    obtain rfl := hd.unique hdecides
    cases hlimit
    exact hrank
  · intro hrank
    exact ⟨⟨_, .info, hdecides, rfl, hrank⟩, fun p hp => by cases hp⟩

/-- A level without a name has no effect on the program's records, since the standard directive that names them is more specific. -/
theorem shows_insert_unnamed (level? : Option Level) (record : Record) :
    (Filter.mk (insert standard.directives ⟨none, level?⟩) none).shows record = standard.shows record := by
  have hinsert : insert standard.directives ⟨none, level?⟩ = [⟨none, level?⟩, ⟨some Topic.program.target, some .info⟩] := rfl
  rw [shows, shows, hinsert, decisive?_eq_some_iff.mpr (decides_standard level? record.topic), standard,
    decisive?_eq_some_iff.mpr (decides_standard (some .info) record.topic)]

end Filter

end StreamCharts
