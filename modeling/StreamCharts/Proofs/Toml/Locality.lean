import Mathlib.Data.List.Basic
import Mathlib.Data.List.TakeWhile
import StreamCharts.Toml.Document

/-!
# Readers and what they leave

A reader of a key or a value looks at what it leaves no further than to the end of the line. So it reads the same before any
other rest that begins with the same line (`Local`). Here this is proved of the readers of keys (`local_keyPath?`) and of
strings of one line.
-/

namespace StreamCharts.Toml

/-- Whether a character belongs to line ends. -/
def isBreak (c : Char) : Bool :=
  c = '\n' || c = '\r'

/-- Whether two texts begin with the same line; the end of the text ends a line, too. -/
def SameLine (cs cs' : List Char) : Prop :=
  cs.takeWhile (!isBreak ·) = cs'.takeWhile (!isBreak ·)

/-- Whether a reader reads a part of a text before any rest that begins with the line with which the given one begins. -/
def Reads {α : Type} (r : Reader α) (read : List Char) (a : α) (rest : List Char) : Prop :=
  ∀ rest', SameLine rest rest' → r (read ++ rest') = some (a, rest')

/-- Whether a reader reads something, and looks at what it leaves no further than to the end of the line. -/
def Local {α : Type} (r : Reader α) : Prop :=
  ∀ cs a rest, r cs = some (a, rest) → ∃ read, read ≠ [] ∧ cs = read ++ rest ∧ Reads r read a rest

/-- The same of a reader with fuel, for which one round for each character that it reads is enough. -/
def LocalWithin {α : Type} (r : Nat → Reader α) : Prop :=
  ∀ fuel cs a rest, r fuel cs = some (a, rest) →
    ∃ read, read ≠ [] ∧ cs = read ++ rest ∧ ∀ fuel', read.length ≤ fuel' → Reads (r fuel') read a rest

/-- Whether runs of some characters stay within a line. -/
def StaysInLine (p : Char → Bool) : Prop :=
  p '\n' = false ∧ p '\r' = false

instance (p : Char → Bool) : Decidable (StaysInLine p) :=
  inferInstanceAs (Decidable (_ ∧ _))

/-- With a round for each character of the text there is fuel enough. -/
theorem LocalWithin.of_length {α : Type} {r : Nat → Reader α} (h : LocalWithin r) {fuel : List Char → Nat}
    (hf : ∀ cs, cs.length ≤ fuel cs) : Local fun cs => r (fuel cs) cs := by
  intro cs a rest hr
  obtain ⟨read, hne, hcs, hreads⟩ := h _ _ _ _ hr
  refine ⟨read, hne, hcs, fun rest' hrest' => hreads _ ?_ rest' hrest'⟩
  have hlength := hf (read ++ rest')
  rw [List.length_append] at hlength
  omega

/-! ## The same line -/

/-- No character of such a run belongs to line ends. -/
theorem StaysInLine.isBreak_eq_false {p : Char → Bool} (hp : StaysInLine p) {c : Char} (hc : p c = true) :
    isBreak c = false := by
  rw [isBreak, Bool.or_eq_false_iff, decide_eq_false_iff_not, decide_eq_false_iff_not]
  constructor
  · rintro rfl
    cases hp.1.symm.trans hc
  · rintro rfl
    cases hp.2.symm.trans hc

namespace SameLine

/-- The same part before both. -/
theorem append (read : List Char) {rest rest' : List Char} (h : SameLine rest rest') :
    SameLine (read ++ rest) (read ++ rest') := by
  rw [SameLine, List.takeWhile_append, List.takeWhile_append, h]

/-- A character within a line stands before both. -/
theorem eq_cons {c : Char} {rest rest' : List Char} (h : SameLine (c :: rest) rest') (hc : isBreak c = false) :
    ∃ behind, rest' = c :: behind ∧ SameLine rest behind := by
  rw [SameLine, List.takeWhile_cons_of_pos (by simpa using hc)] at h
  cases rest' with
  | nil => cases h
  | cons c' behind =>
    cases hc' : isBreak c' with
    | true =>
      rw [List.takeWhile_cons_of_neg (by simpa using hc')] at h
      cases h
    | false =>
      rw [List.takeWhile_cons_of_pos (by simpa using hc')] at h
      obtain ⟨rfl, hbehind⟩ := List.cons.inj h
      exact ⟨behind, rfl, hbehind⟩

/-- The same relation backwards. -/
theorem symm {cs cs' : List Char} (h : SameLine cs cs') : SameLine cs' cs := Eq.symm h

/-- Texts that begin with the end of a line begin with the same line, the empty one. -/
theorem of_break {cs cs' : List Char} (h : cs.head?.all isBreak = true) (h' : cs'.head?.all isBreak = true) :
    SameLine cs cs' := by
  have hnil {cs : List Char} (h : cs.head?.all isBreak = true) : cs.takeWhile (!isBreak ·) = [] := by
    cases cs with
    | nil => rfl
    | cons c cs => exact List.takeWhile_cons_of_neg (by simpa using h)
  rw [SameLine, hnil h, hnil h']

/-- Another text of the same line begins with a character only if the given one does. -/
theorem head?_ne {c : Char} (hc : isBreak c = false) {cs cs' : List Char} (h : SameLine cs cs') (hne : cs.head? ≠ some c) :
    cs'.head? ≠ some c := by
  intro heq
  obtain ⟨behind, rfl⟩ := List.head?_eq_some_iff.mp heq
  obtain ⟨behind', rfl, -⟩ := h.symm.eq_cons hc
  exact hne rfl

/-- A run within a line is the same at the beginning of both. -/
theorem takeWhile_eq {p : Char → Bool} (hp : StaysInLine p) {cs cs' : List Char} (h : SameLine cs cs') :
    cs.takeWhile p = cs'.takeWhile p := by
  have hwithin (cs : List Char) : (cs.takeWhile (!isBreak ·)).takeWhile p = cs.takeWhile p := by
    rw [List.takeWhile_takeWhile]
    congr 1
    funext c
    cases hc : p c with
    | true => simp [hp.isBreak_eq_false hc]
    | false => rfl
  rw [← hwithin cs, ← hwithin cs', h]

end SameLine

/-- A run ends at the same place whatever stands behind the line. -/
theorem takeWhile_local {p : Char → Bool} (hp : StaysInLine p) (cs : List Char) {rest' : List Char}
    (h : SameLine (cs.dropWhile p) rest') :
    (cs.takeWhile p ++ rest').takeWhile p = cs.takeWhile p ∧ (cs.takeWhile p ++ rest').dropWhile p = rest' := by
  have hall : ∀ c ∈ cs.takeWhile p, p c = true := fun c hc => List.mem_takeWhile_imp hc
  have hnone : rest'.takeWhile p = [] := by
    rw [← h.takeWhile_eq hp]
    cases hcs : cs.dropWhile p with
    | nil => rfl
    | cons c behind =>
      have hc : p c = false := by
        have hhead := List.head?_dropWhile_not p cs
        rw [hcs] at hhead
        simpa using hhead
      rw [List.takeWhile_cons_of_neg (by simp [hc])]
  have hdrop : rest'.dropWhile p = rest' := by
    have hjoin := List.takeWhile_append_dropWhile (p := p) (l := rest')
    rwa [hnone, List.nil_append] at hjoin
  rw [List.takeWhile_append_of_pos hall, List.dropWhile_append_of_pos hall, hnone, hdrop, List.append_nil]
  exact ⟨rfl, rfl⟩

/-- Behind blanks too. -/
theorem skipSpaces_local (cs : List Char) {rest' : List Char} (h : SameLine (skipSpaces cs) rest') :
    skipSpaces (cs.takeWhile isSpace ++ rest') = rest' :=
  (takeWhile_local (by decide) cs h).2

/-- Blanks and what is left behind them are all. -/
theorem takeWhile_append_skipSpaces (cs : List Char) : cs.takeWhile isSpace ++ skipSpaces cs = cs :=
  List.takeWhile_append_dropWhile

/-! ## Strings of one line -/

/-- Whether a character is a quote. -/
def IsQuote (quote : Char) : Prop :=
  quote = '"' ∨ quote = '\''

instance (quote : Char) : Decidable (IsQuote quote) :=
  inferInstanceAs (Decidable (_ ∨ _))

/-- A quote belongs to no line end, and is no backslash. -/
theorem IsQuote.ne {quote : Char} (h : IsQuote quote) : isBreak quote = false ∧ quote ≠ '\\' := by
  rcases h with rfl | rfl <;> decide

/-- A code point of a given number of digits is read by itself. -/
theorem codePoint_local {n : Nat} {cs : List Char} {x : Char} {rest : List Char}
    (h : (if cs.length < n then none else (Text.codePoint? (cs.take n)).map (·, cs.drop n)) = some (x, rest)) :
    ∃ read, cs = read ++ rest ∧ ∀ rest', (if (read ++ rest').length < n then none
      else (Text.codePoint? ((read ++ rest').take n)).map (·, (read ++ rest').drop n)) = some (x, rest') := by
  split at h
  · cases h
  next hlength =>
  obtain ⟨x', hx, hpair⟩ := Option.map_eq_some_iff.mp h
  obtain ⟨rfl, rfl⟩ := Prod.mk.inj hpair
  have htake : (cs.take n).length = n := List.length_take_of_le (Nat.le_of_not_lt hlength)
  refine ⟨cs.take n, (List.take_append_drop n cs).symm, fun rest' => ?_⟩
  rw [if_neg (by rw [List.length_append]; omega), List.take_left' htake, List.drop_left' htake, hx]
  rfl

/-- A letter that is no code point's begins a short escape. -/
theorem escape?_cons {c : Char} (hu : c ≠ 'u') (hU : c ≠ 'U') (cs : List Char) :
    escape? (c :: cs) = (shortEscape? c).map (·, cs) := by
  unfold escape?
  split
  · next heq => exact absurd (List.cons.inj heq).1 hu
  · next heq => exact absurd (List.cons.inj heq).1 hU
  · next heq =>
    obtain ⟨rfl, rfl⟩ := List.cons.inj heq
    rfl
  · next heq => cases heq

/-- An escape is read by itself. -/
theorem escape?_local {cs : List Char} {x : Char} {rest : List Char} (h : escape? cs = some (x, rest)) :
    ∃ read, cs = read ++ rest ∧ ∀ rest', escape? (read ++ rest') = some (x, rest') := by
  cases cs with
  | nil => cases h
  | cons c cs =>
    by_cases hu : c = 'u'
    · subst hu
      obtain ⟨read, rfl, hread⟩ := codePoint_local h
      exact ⟨'u' :: read, rfl, hread⟩
    by_cases hU : c = 'U'
    · subst hU
      obtain ⟨read, rfl, hread⟩ := codePoint_local h
      exact ⟨'U' :: read, rfl, hread⟩
    rw [escape?_cons hu hU] at h
    obtain ⟨x', hx, hpair⟩ := Option.map_eq_some_iff.mp h
    obtain ⟨rfl, rfl⟩ := Prod.mk.inj hpair
    exact ⟨[c], rfl, fun rest' => by rw [List.singleton_append, escape?_cons hu hU, hx]; rfl⟩

/-- A string of one line is read by itself. -/
theorem localWithin_lineString? (quote : Char) : LocalWithin (lineString? quote) := by
  intro fuel
  induction fuel with
  | zero => exact fun _ _ _ h => nomatch h
  | succ fuel ih =>
    intro cs text rest h
    cases cs with
    | nil => cases h
    | cons c cs =>
      rw [lineString?] at h
      by_cases hquote : c = quote
      · rw [if_pos hquote] at h
        obtain ⟨rfl, rfl⟩ := Prod.mk.inj (Option.some.inj h)
        refine ⟨[c], nofun, rfl, fun fuel' hfuel rest' _ => ?_⟩
        obtain ⟨fuel', rfl⟩ := Nat.exists_eq_add_one_of_ne_zero (Nat.ne_of_gt hfuel)
        rw [List.singleton_append, lineString?, if_pos hquote]
      rw [if_neg hquote] at h
      by_cases hescape : (decide (c = '\\') && decide (quote = '"')) = true
      · rw [if_pos hescape] at h
        obtain ⟨⟨x, behind⟩, hx, hmore⟩ := Option.bind_eq_some_iff.mp h
        obtain ⟨⟨text', rest'⟩, htext, hpair⟩ := Option.bind_eq_some_iff.mp hmore
        obtain ⟨rfl, rfl⟩ := Prod.mk.inj (Option.some.inj hpair)
        obtain ⟨escape, rfl, hescaped⟩ := escape?_local hx
        obtain ⟨read, -, rfl, hread⟩ := ih _ _ _ htext
        refine ⟨c :: (escape ++ read), nofun, by simp, fun fuel' hfuel rest'' hsame => ?_⟩
        rw [List.length_cons, List.length_append] at hfuel
        obtain ⟨fuel', rfl⟩ := Nat.exists_eq_add_one_of_ne_zero (Nat.ne_of_gt (Nat.zero_lt_of_lt hfuel))
        rw [List.cons_append, lineString?, if_neg hquote, if_pos hescape, List.append_assoc]
        exact Option.bind_eq_some_iff.mpr ⟨_, hescaped _,
          Option.bind_eq_some_iff.mpr ⟨_, hread fuel' (by omega) _ hsame, rfl⟩⟩
      rw [if_neg hescape] at h
      split at h
      · next hplain =>
        obtain ⟨⟨text', rest'⟩, htext, hpair⟩ := Option.bind_eq_some_iff.mp h
        obtain ⟨rfl, rfl⟩ := Prod.mk.inj (Option.some.inj hpair)
        obtain ⟨read, -, rfl, hread⟩ := ih _ _ _ htext
        refine ⟨c :: read, nofun, rfl, fun fuel' hfuel rest'' hsame => ?_⟩
        rw [List.length_cons] at hfuel
        obtain ⟨fuel', rfl⟩ := Nat.exists_eq_add_one_of_ne_zero (Nat.ne_of_gt (Nat.zero_lt_of_lt hfuel))
        rw [List.cons_append, lineString?, if_neg hquote, if_neg hescape, if_pos hplain]
        exact Option.bind_eq_some_iff.mpr ⟨_, hread fuel' (by omega) _ hsame, rfl⟩
      · cases h

/-- A string of one line between its quotes is read by itself. -/
theorem local_lineStringOf? (quote : Char) : Local (lineStringOf? quote) := by
  intro cs text rest h
  cases cs with
  | nil => cases h
  | cons c cs =>
    rw [lineStringOf?] at h
    split at h
    · next hc =>
      obtain ⟨⟨text', rest'⟩, htext, hpair⟩ := Option.map_eq_some_iff.mp h
      obtain ⟨rfl, rfl⟩ := Prod.mk.inj hpair
      have hwhole : Local fun cs => lineString? quote cs.length cs :=
        (localWithin_lineString? quote).of_length fun _ => le_rfl
      obtain ⟨read, -, rfl, hread⟩ := hwhole cs text' rest' htext
      refine ⟨c :: read, nofun, rfl, fun rest'' hsame => ?_⟩
      rw [List.cons_append, lineStringOf?, if_pos hc]
      exact Option.map_eq_some_iff.mpr ⟨_, hread _ hsame, rfl⟩
    · cases h

/-- A string of one line begins with its quote. -/
theorem head?_of_lineStringOf? {quote : Char} {cs : List Char} {text : String} {rest : List Char}
    (h : lineStringOf? quote cs = some (text, rest)) : cs.head? = some quote := by
  cases cs with
  | nil => cases h
  | cons c cs =>
    rw [lineStringOf?] at h
    split at h
    · next hc => rw [List.head?_cons, hc]
    · cases h

/-! ## Keys -/

/-- A key is a string if it begins with a quote. -/
theorem simpleKey?_of_quote {cs : List Char} {quote : Char} (hq : IsQuote quote) (h : cs.head? = some quote) :
    simpleKey? cs = lineStringOf? quote cs := by
  rcases hq with rfl | rfl
  · rw [simpleKey?, h]
    rfl
  · rw [simpleKey?, h]
    rfl

/-- A key is a bare word if it begins with no quote. -/
theorem simpleKey?_of_word {cs : List Char} (h : cs.head? ≠ some '"') (h' : cs.head? ≠ some '\'') :
    simpleKey? cs = if (cs.takeWhile isBareKeyChar).isEmpty then none
      else some (String.ofList (cs.takeWhile isBareKeyChar), cs.dropWhile isBareKeyChar) := by
  rw [simpleKey?]
  split
  · next heq => exact absurd heq h
  · next heq => exact absurd heq h'
  · rfl

/-- A key is read by itself. -/
theorem local_simpleKey? : Local simpleKey? := by
  intro cs key rest h
  by_cases hquote : ∃ quote, IsQuote quote ∧ cs.head? = some quote
  · obtain ⟨quote, hq, hhead⟩ := hquote
    rw [simpleKey?_of_quote hq hhead] at h
    obtain ⟨read, hne, hcs, hread⟩ := local_lineStringOf? quote cs key rest h
    refine ⟨read, hne, hcs, fun rest' hsame => ?_⟩
    rw [simpleKey?_of_quote hq (head?_of_lineStringOf? (hread rest' hsame)), hread rest' hsame]
  · have hnone (quote : Char) (hq : IsQuote quote) : cs.head? ≠ some quote := fun hhead =>
      hquote ⟨quote, hq, hhead⟩
    rw [simpleKey?_of_word (hnone '"' (.inl rfl)) (hnone '\'' (.inr rfl))] at h
    split at h
    · cases h
    next hword =>
    obtain ⟨rfl, rfl⟩ := Prod.mk.inj (Option.some.inj h)
    rw [List.isEmpty_iff] at hword
    refine ⟨cs.takeWhile isBareKeyChar, hword, List.takeWhile_append_dropWhile.symm, fun rest' hsame => ?_⟩
    obtain ⟨htake, hdrop⟩ := takeWhile_local (by decide) cs hsame
    have hhead : (cs.takeWhile isBareKeyChar ++ rest').head? = cs.head? := by
      have hcs := List.takeWhile_append_dropWhile (p := isBareKeyChar) (l := cs)
      rw [List.head?_append_of_ne_nil _ hword, ← List.head?_append_of_ne_nil _ hword, hcs]
    rw [simpleKey?_of_word (hhead ▸ hnone '"' (.inl rfl)) (hhead ▸ hnone '\'' (.inr rfl)), htake, hdrop,
      if_neg (by rwa [List.isEmpty_iff])]

/-- A key with the blanks around it is read by itself. -/
theorem paddedKey_local {cs : List Char} {key : String} {behind : List Char}
    (h : simpleKey? (skipSpaces cs) = some (key, behind)) :
    ∃ read, read ≠ [] ∧ cs = read ++ skipSpaces behind ∧ ∀ rest', SameLine (skipSpaces behind) rest' →
      ∃ behind', simpleKey? (skipSpaces (read ++ rest')) = some (key, behind') ∧ skipSpaces behind' = rest' := by
  obtain ⟨word, hne, hword, hreads⟩ := local_simpleKey? _ key behind h
  refine ⟨cs.takeWhile isSpace ++ word ++ behind.takeWhile isSpace, by simp [hne], ?_, fun rest' hsame => ?_⟩
  · rw [List.append_assoc, takeWhile_append_skipSpaces, List.append_assoc, ← hword, takeWhile_append_skipSpaces]
  · have hbehind : SameLine behind (behind.takeWhile isSpace ++ rest') := by
      have hjoined := hsame.append (behind.takeWhile isSpace)
      rwa [takeWhile_append_skipSpaces] at hjoined
    refine ⟨behind.takeWhile isSpace ++ rest', ?_, skipSpaces_local behind hsame⟩
    rw [List.append_assoc, List.append_assoc, skipSpaces_local cs (hword ▸ hbehind.append word)]
    exact hreads _ hbehind

/-- Joined keys are read by themselves. -/
theorem localWithin_keysFrom? : LocalWithin keysFrom? := by
  intro fuel
  induction fuel with
  | zero => exact fun _ _ _ h => nomatch h
  | succ fuel ih =>
    intro cs keys rest h
    rw [keysFrom?] at h
    obtain ⟨⟨key, behind⟩, hkey, hmore⟩ := Option.bind_eq_some_iff.mp h
    obtain ⟨word, hne, hcs, hword⟩ := paddedKey_local hkey
    simp only at hmore
    split at hmore
    · next after hafter =>
      obtain ⟨⟨keys', rest'⟩, hkeys, hpair⟩ := Option.bind_eq_some_iff.mp hmore
      obtain ⟨rfl, rfl⟩ := Prod.mk.inj (Option.some.inj hpair)
      obtain ⟨read, -, rfl, hread⟩ := ih _ _ _ hkeys
      rw [hafter] at hcs hword
      refine ⟨word ++ '.' :: read, by simp, by simp [hcs], fun fuel' hfuel rest'' hsame => ?_⟩
      rw [List.length_append, List.length_cons] at hfuel
      obtain ⟨fuel', rfl⟩ := Nat.exists_eq_add_one_of_ne_zero (Nat.ne_of_gt (Nat.zero_lt_of_lt hfuel))
      obtain ⟨behind', hkey', hbehind'⟩ := hword ('.' :: read ++ rest'') (hsame.append ('.' :: read))
      rw [List.append_assoc, keysFrom?]
      refine Option.bind_eq_some_iff.mpr ⟨_, hkey', ?_⟩
      simp only [hbehind', List.cons_append]
      exact Option.bind_eq_some_iff.mpr ⟨_, hread fuel' (by omega) _ hsame, rfl⟩
    · next after hafter =>
      obtain ⟨rfl, rfl⟩ := Prod.mk.inj (Option.some.inj hmore)
      refine ⟨word, hne, hcs, fun fuel' hfuel rest'' hsame => ?_⟩
      have hpos := List.length_pos_iff.mpr hne
      obtain ⟨fuel', rfl⟩ := Nat.exists_eq_add_one_of_ne_zero (Nat.ne_of_gt (hpos.trans_le hfuel))
      obtain ⟨behind', hkey', hbehind'⟩ := hword rest'' hsame
      rw [keysFrom?]
      refine Option.bind_eq_some_iff.mpr ⟨_, hkey', ?_⟩
      simp only [hbehind']
      split
      · next after' heq =>
        -- the other rest would go on with a point, and so would the given one
        obtain ⟨more, hmore, -⟩ := hsame.symm.eq_cons (by decide)
        exact absurd hmore (hafter more)
      · rfl

/-- A path of keys is read by itself. -/
theorem local_keyPath? : Local keyPath? := by
  intro cs path rest h
  obtain ⟨⟨keys, behind⟩, hkeys, hmore⟩ := Option.bind_eq_some_iff.mp h
  obtain ⟨key, hkey, hlimit⟩ := Option.bind_eq_some_iff.mp hmore
  split at hlimit
  · next hlength =>
    obtain ⟨rfl, rfl⟩ := Prod.mk.inj (Option.some.inj hlimit)
    have hwhole : Local fun cs => keysFrom? (cs.length + 1) cs := localWithin_keysFrom?.of_length fun cs => Nat.le_succ _
    obtain ⟨read, hne, hcs, hread⟩ := hwhole cs keys behind hkeys
    refine ⟨read, hne, hcs, fun rest' hsame => ?_⟩
    rw [keyPath?]
    refine Option.bind_eq_some_iff.mpr ⟨_, hread rest' hsame, Option.bind_eq_some_iff.mpr ⟨key, hkey, ?_⟩⟩
    exact if_pos hlength
  · cases hlimit

end StreamCharts.Toml
