import Mathlib.Data.List.DropRight
import StreamCharts.Proofs.Toml.Values

/-!
# Rounds of reading

A document of keys with plain values is read in rounds (`Round`), each of which takes a line: nothing but blanks and a comment,
or one key with its value. A round looks no further than to the end of its line (`Round.reads`). The statements of such a
document are those of its rounds (`statementsOf?_eq_some_iff`).
-/

namespace StreamCharts.Toml

/-- The statements of a text, with rounds enough to reach its end. -/
def statementsOf? (cs : List Char) : Option (List Statement) :=
  statements? (cs.length + 1) cs

/-- A value without brackets and braces. -/
def Value.IsPlain : Value → Prop
  | .array _ => False
  | .table _ _ => False
  | .tables _ => False
  | _ => True

/-- A key with a plain value. -/
def Statement.IsPlain : Statement → Prop
  | .pair _ _ value => value.IsPlain
  | .header _ => False

/-- What is left behind the end of a line; the last line ends with the text. -/
inductive LineEnd : List Char → List Char → Prop where
  | last : LineEnd [] []
  | newline (rest : List Char) : LineEnd ('\n' :: rest) rest
  | carriage (rest : List Char) : LineEnd ('\r' :: '\n' :: rest) rest

/-- What one round reads: a line without a statement, or a key with a plain value and the end of its line. -/
inductive Round : List Char → List Statement → List Char → Prop where
  | void {cs rest : List Char} (h : lineEnd? cs = some rest) : Round cs [] rest
  | pair {cs behind rest : List Char} {path : List String} {key : String} {value : Value}
    (hp : pair? plainValue? (skipSpaces cs) = some (((path, key), value), behind)) (h : lineEnd? behind = some rest) :
    Round cs [.pair path key value] rest

/-- What all rounds read of a text. Each but the last takes something away. -/
inductive Rounds : List Char → List Statement → Prop where
  | last {cs : List Char} {ss : List Statement} (h : Round cs ss []) : Rounds cs ss
  | round {cs rest : List Char} {ss ss' : List Statement} (h : Round cs ss rest) (hlt : rest.length < cs.length)
    (hr : Rounds rest ss') : Rounds cs (ss ++ ss')

/-! ## Ends of lines -/

namespace LineEnd

/-- The end of a line is no part of it. -/
theorem head?_all {behind rest : List Char} (h : LineEnd behind rest) : behind.head?.all isBreak = true := by
  cases h <;> rfl

/-- Nothing is left behind the end of the text. -/
theorem eq_nil {rest : List Char} (h : LineEnd [] rest) : rest = [] := by
  cases h
  rfl

/-- A line end takes something away. -/
theorem length_lt {behind rest : List Char} (h : LineEnd behind rest) (hne : behind ≠ []) : rest.length < behind.length := by
  cases h with
  | last => exact absurd rfl hne
  | newline => exact Nat.lt_succ_self _
  | carriage => exact Nat.lt_add_of_pos_right Nat.two_pos

/-- More text behind a line end is left with the rest. -/
theorem append {behind rest : List Char} (h : LineEnd behind rest) (hne : behind ≠ []) (more : List Char) :
    LineEnd (behind ++ more) (rest ++ more) := by
  cases h with
  | last => exact absurd rfl hne
  | newline => exact .newline _
  | carriage => exact .carriage _

/-- It is one without blanks or a comment before it. -/
theorem lineEnd?_eq {behind rest : List Char} (h : LineEnd behind rest) : lineEnd? behind = some rest := by
  cases h <;> rfl

/-- Where the text goes on, a line end is found. -/
theorem newline?_eq {behind rest : List Char} (h : LineEnd behind rest) (hne : behind ≠ []) : newline? behind = some rest := by
  cases h with
  | last => exact absurd rfl hne
  | newline => rfl
  | carriage => rfl

end LineEnd

/-- Where no comment begins, none is skipped. -/
theorem skipComment_of_ne {cs : List Char} (h : cs.head? ≠ some '#') : skipComment cs = cs := by
  unfold skipComment
  split
  · exact absurd rfl h
  · rfl

/-- A comment is read by itself. -/
theorem skipComment_local (cs : List Char) : ∃ comment, cs = comment ++ skipComment cs ∧
    ∀ rest', SameLine (skipComment cs) rest' → skipComment (comment ++ rest') = rest' := by
  by_cases hhead : cs.head? = some '#'
  · obtain ⟨cs, rfl⟩ := List.head?_eq_some_iff.mp hhead
    refine ⟨'#' :: cs.takeWhile isCommentChar, congrArg _ List.takeWhile_append_dropWhile.symm, fun rest' hsame => ?_⟩
    exact (takeWhile_local (by decide) cs hsame).2
  · rw [skipComment_of_ne hhead]
    exact ⟨[], rfl, fun rest' hsame => skipComment_of_ne (hsame.head?_ne (by decide) hhead)⟩

/-- The end of a line may stand behind blanks and a comment. -/
theorem lineEnd?_eq_some_iff (cs rest : List Char) :
    lineEnd? cs = some rest ↔ LineEnd (skipComment (skipSpaces cs)) rest := by
  generalize hbehind : skipComment (skipSpaces cs) = behind
  rw [lineEnd?, hbehind]
  constructor
  · intro h
    split at h
    · rw [← Option.some.inj h]
      exact .last
    · unfold newline? at h
      split at h
      · rw [← Option.some.inj h]
        exact .newline _
      · rw [← Option.some.inj h]
        exact .carriage _
      · cases h
  · rintro (_ | _ | _)
    · rfl
    · rfl
    · rfl

/-- Blanks before the end of a line make no difference. -/
theorem lineEnd?_skipSpaces (cs : List Char) : lineEnd? (skipSpaces cs) = lineEnd? cs := by
  have hskip : skipSpaces (skipSpaces cs) = skipSpaces cs := List.dropWhile_idempotent _ _
  rw [lineEnd?, lineEnd?, hskip]

/-- Any end may follow what stands before the end of a line. -/
theorem lineEnd?_local {cs rest : List Char} (h : lineEnd? cs = some rest) :
    ∃ line behind, cs = line ++ behind ∧ LineEnd behind rest ∧ ∀ behind' rest', LineEnd behind' rest' →
      SameLine cs (line ++ behind') ∧ lineEnd? (line ++ behind') = some rest' := by
  rw [lineEnd?_eq_some_iff] at h
  obtain ⟨comment, hcomment, hskip⟩ := skipComment_local (skipSpaces cs)
  have hcs : cs = cs.takeWhile isSpace ++ comment ++ skipComment (skipSpaces cs) := by
    rw [List.append_assoc, ← hcomment, takeWhile_append_skipSpaces]
  refine ⟨_, _, hcs, h, fun behind' rest' h' => ?_⟩
  have hsame : SameLine (skipComment (skipSpaces cs)) behind' := .of_break h.head?_all h'.head?_all
  have hspaces : SameLine (skipSpaces cs) (comment ++ behind') := by
    rw [hcomment]
    exact hsame.append comment
  constructor
  · have happend := hsame.append (cs.takeWhile isSpace ++ comment)
    rwa [← hcs] at happend
  · rwa [lineEnd?_eq_some_iff, List.append_assoc, skipSpaces_local cs hspaces, hskip _ hsame]

/-! ## Beginnings of lines -/

/-- Whether a text begins with a comment or a line end. -/
def beginsVoid (cs : List Char) : Bool :=
  cs.head? = some '#' || (newline? cs).isSome

/-- Before the end of a line there are blanks only, or a line without a statement begins behind them. -/
theorem beginsVoid_of_lineEnd? {cs rest : List Char} (h : lineEnd? cs = some rest) :
    skipSpaces cs = [] ∧ rest = [] ∨ beginsVoid (skipSpaces cs) = true := by
  rw [lineEnd?_eq_some_iff] at h
  by_cases hhead : (skipSpaces cs).head? = some '#'
  · exact .inr (by rw [beginsVoid, hhead]; rfl)
  rw [skipComment_of_ne hhead] at h
  by_cases hnil : skipSpaces cs = []
  · exact .inl ⟨hnil, (hnil ▸ h).eq_nil⟩
  · exact .inr (by rw [beginsVoid, h.newline?_eq hnil, Option.isSome_some, Bool.or_true])

/-- A key begins with a quote or with a character of a bare word. -/
theorem keyPath?_eq_none {c : Char} (hs : isSpace c = false) (hq : ¬ IsQuote c) (hb : isBareKeyChar c = false)
    (cs : List Char) : keyPath? (c :: cs) = none := by
  have hkey : simpleKey? (skipSpaces (c :: cs)) = none := by
    have hhead (quote : Char) (hquote : IsQuote quote) : (c :: cs).head? ≠ some quote := by
      rintro ⟨⟩
      exact hq hquote
    rw [skipSpaces, List.dropWhile_cons_of_neg (by simp [hs]),
      simpleKey?_of_word (hhead '"' (.inl rfl)) (hhead '\'' (.inr rfl)), List.takeWhile_cons_of_neg (by simp [hb])]
    rfl
  have hkeys : keysFrom? ((c :: cs).length + 1) (c :: cs) = none := by
    rw [keysFrom?, hkey]
    rfl
  rw [keyPath?, hkeys]
  rfl

/-- No key begins with a comment, a line end or a bracket. -/
theorem beginsVoid_of_pair? {value? : Reader Value} {cs : List Char} {pair : (List String × String) × Value}
    {rest : List Char} (h : pair? value? cs = some (pair, rest)) : beginsVoid cs = false ∧ cs.head? ≠ some '[' := by
  obtain ⟨path, value⟩ := pair
  obtain ⟨behind, hpath, -⟩ := (pair?_eq_some_iff _ _ _ _ _).mp h
  have hhead {c : Char} (hc : isSpace c = false ∧ ¬ IsQuote c ∧ isBareKeyChar c = false) : cs.head? ≠ some c := by
    intro heq
    obtain ⟨cs, rfl⟩ := List.head?_eq_some_iff.mp heq
    rw [keyPath?_eq_none hc.1 hc.2.1 hc.2.2] at hpath
    cases hpath
  have hnewline : newline? cs = none := by
    unfold newline?
    split
    · exact absurd rfl (hhead (c := '\n') (by decide))
    · exact absurd rfl (hhead (c := '\r') (by decide))
    · rfl
  refine ⟨?_, hhead (by decide)⟩
  rw [beginsVoid, hnewline, decide_eq_false (hhead (by decide))]
  rfl

/-! ## Plain values among all -/

/-- A value that begins with no bracket and no brace is plain. -/
theorem value?_eq_plainValue? {cs : List Char} (h : cs.head? ≠ some '[') (h' : cs.head? ≠ some '\x7b') :
    value? cs = plainValue? cs := by
  have hdepth : value? = valueWithin? (nestingLimit - 2 + 1) := rfl
  rw [hdepth]
  unfold valueWithin?
  split
  · exact absurd rfl h
  · exact absurd rfl h'
  · rfl

/-- A plain value begins with a quote or with a character of a token. -/
theorem plainValue?_eq_none {c : Char} (hq : ¬ IsQuote c) (ht : isTokenChar c = false) (cs : List Char) :
    plainValue? (c :: cs) = none := by
  have hhead (quote : Char) (hquote : IsQuote quote) : (c :: cs).head? ≠ some quote := by
    rintro ⟨⟩
    exact hq hquote
  rw [plainValue?_of_token hhead, scalar?, List.takeWhile_cons_of_neg (by simp [ht])]
  rfl

/-- The reader of all values reads a plain value. -/
theorem value?_of_plainValue? {cs : List Char} {value : Value} {rest : List Char}
    (h : plainValue? cs = some (value, rest)) : value? cs = some (value, rest) := by
  have hhead {c : Char} (hc : ¬ IsQuote c ∧ isTokenChar c = false) : cs.head? ≠ some c := by
    intro heq
    obtain ⟨cs, rfl⟩ := List.head?_eq_some_iff.mp heq
    rw [plainValue?_eq_none hc.1 hc.2] at h
    cases h
  rwa [value?_eq_plainValue? (hhead (by decide)) (hhead (by decide))]

/-- Only behind a bracket or a brace it reads another. -/
theorem plainValue?_of_value? {cs : List Char} {value : Value} {rest : List Char} (h : value? cs = some (value, rest))
    (hp : value.IsPlain) : plainValue? cs = some (value, rest) := by
  have hdepth : value? = valueWithin? (nestingLimit - 2 + 1) := rfl
  rw [hdepth] at h
  unfold valueWithin? at h
  split at h
  · obtain ⟨⟨items, rest'⟩, -, hpair⟩ := Option.map_eq_some_iff.mp h
    obtain ⟨rfl, rfl⟩ := Prod.mk.inj hpair
    exact hp.elim
  · split at h
    · obtain ⟨rfl, rfl⟩ := Prod.mk.inj (Option.some.inj h)
      exact hp.elim
    · obtain ⟨⟨entries, rest'⟩, -, hpair⟩ := Option.map_eq_some_iff.mp h
      obtain ⟨rfl, rfl⟩ := Prod.mk.inj hpair
      exact hp.elim
  · exact h

/-! ## Statements -/

/-- A text that begins with no bracket is a key with a value and the end of its line. -/
theorem statement?_of_head {cs : List Char} (h : cs.head? ≠ some '[') : statement? cs = do
    let (((path, key), value), rest) ← pair? value? cs
    let rest ← lineEnd? rest
    return (.pair path key value, rest) := by
  unfold statement?
  split
  · exact absurd rfl h
  · exact absurd rfl h
  · rfl

/-- A text that begins with a bracket is no key with a value. -/
theorem statement?_ne_pair {cs : List Char} (h : cs.head? = some '[') (path : List String) (key : String) (value : Value)
    (rest : List Char) : statement? cs ≠ some (.pair path key value, rest) := by
  intro hs
  obtain ⟨cs, rfl⟩ := List.head?_eq_some_iff.mp h
  unfold statement? at hs
  split at hs
  · obtain ⟨⟨⟨path', key'⟩, behind⟩, -, hs⟩ := Option.bind_eq_some_iff.mp hs
    obtain ⟨after, -, hs⟩ := Option.bind_eq_some_iff.mp hs
    obtain ⟨after, -, hs⟩ := Option.bind_eq_some_iff.mp hs
    obtain ⟨after, -, hs⟩ := Option.bind_eq_some_iff.mp hs
    cases hs
  · obtain ⟨⟨⟨path', key'⟩, behind⟩, -, hs⟩ := Option.bind_eq_some_iff.mp hs
    obtain ⟨after, -, hs⟩ := Option.bind_eq_some_iff.mp hs
    obtain ⟨after, -, hs⟩ := Option.bind_eq_some_iff.mp hs
    cases hs
  · next hnone => exact hnone cs rfl

/-- A key with a value is a statement with the end of its line. -/
theorem statement?_pair_iff (cs : List Char) (path : List String) (key : String) (value : Value) (rest : List Char) :
    statement? cs = some (.pair path key value, rest) ↔
      ∃ behind, pair? value? cs = some (((path, key), value), behind) ∧ lineEnd? behind = some rest := by
  by_cases hhead : cs.head? = some '['
  · refine iff_of_false (statement?_ne_pair hhead path key value rest) ?_
    rintro ⟨behind, hpair, -⟩
    exact (beginsVoid_of_pair? hpair).2 hhead
  · rw [statement?_of_head hhead]
    constructor
    · intro h
      obtain ⟨⟨⟨⟨path', key'⟩, value'⟩, behind⟩, hpair, hmore⟩ := Option.bind_eq_some_iff.mp h
      obtain ⟨rest', hend, hstatement⟩ := Option.bind_eq_some_iff.mp hmore
      obtain ⟨⟨rfl, rfl, rfl⟩, rfl⟩ : (path' = path ∧ key' = key ∧ value' = value) ∧ rest' = rest := by
        simpa using hstatement
      exact ⟨behind, hpair, hend⟩
    · rintro ⟨behind, hpair, hend⟩
      exact Option.bind_eq_some_iff.mpr ⟨_, hpair, Option.bind_eq_some_iff.mpr ⟨_, hend, rfl⟩⟩

/-! ## Rounds -/

/-- A round looks no further than to the end of its line, and there any end may follow. -/
theorem Round.reads {cs rest : List Char} {ss : List Statement} (h : Round cs ss rest) :
    ∃ line behind, cs = line ++ behind ∧ LineEnd behind rest ∧
      ∀ behind' rest', LineEnd behind' rest' → Round (line ++ behind') ss rest' := by
  cases h with
  | void h =>
    obtain ⟨line, behind, hcs, hend, hreads⟩ := lineEnd?_local h
    exact ⟨line, behind, hcs, hend, fun behind' rest' h' => .void (hreads behind' rest' h').2⟩
  | @pair after _ path key value hp h =>
    obtain ⟨read, -, hread, hreads⟩ := local_pair? local_plainValue? _ _ _ hp
    obtain ⟨line, behind, rfl, hend, hends⟩ := lineEnd?_local h
    have hcs : cs = cs.takeWhile isSpace ++ (read ++ line) ++ behind := by
      rw [List.append_assoc, List.append_assoc, ← hread, takeWhile_append_skipSpaces]
    refine ⟨_, _, hcs, hend, fun behind' rest' h' => ?_⟩
    obtain ⟨hsame, hend'⟩ := hends behind' rest' h'
    have hskip := skipSpaces_local cs (hread ▸ hsame.append read)
    rw [List.append_assoc, List.append_assoc]
    exact .pair (hskip.symm ▸ hreads _ hsame) hend'

/-- A round reads one statement at most. -/
theorem Round.length_le {cs rest : List Char} {ss : List Statement} (h : Round cs ss rest) : ss.length ≤ 1 := by
  cases h with
  | void => exact Nat.zero_le 1
  | pair => exact Nat.le_refl 1

/-- A round takes something away, if there is more than blanks. -/
theorem Round.length_lt {cs rest : List Char} {ss : List Statement} (h : Round cs ss rest) (hne : skipSpaces cs ≠ []) :
    rest.length < cs.length := by
  obtain ⟨line, behind, rfl, hend, -⟩ := h.reads
  by_cases hbehind : behind = []
  · subst hbehind
    rw [hend.eq_nil, List.append_nil]
    rw [List.append_nil] at hne
    refine List.length_pos_iff.mpr fun hnil => hne ?_
    rw [hnil]
    rfl
  · rw [List.length_append]
    exact Nat.lt_add_left _ (hend.length_lt hbehind)

/-- Of blanks a round reads nothing. -/
theorem Round.eq_nil {cs rest : List Char} {ss : List Statement} (h : Round cs ss rest) (hnil : skipSpaces cs = []) :
    ss = [] ∧ rest = [] := by
  cases h with
  | void h =>
    rw [lineEnd?_eq_some_iff, hnil] at h
    exact ⟨rfl, h.eq_nil⟩
  | pair hp h =>
    rw [hnil] at hp
    cases hp

/-! ## Fuel for all rounds -/

/-- One round of a reader that has something to read. -/
theorem statements?_succ (fuel : Nat) {cs : List Char} (h : skipSpaces cs ≠ []) : statements? (fuel + 1) cs =
    if beginsVoid (skipSpaces cs) = true then do
      let rest ← lineEnd? (skipSpaces cs)
      statements? fuel rest
    else do
      let (statement, rest) ← statement? (skipSpaces cs)
      let others ← statements? fuel rest
      return statement :: others := by
  rw [statements?]
  split
  · next hnil => exact absurd hnil h
  · rfl

/-- Of blanks no statement is read. -/
theorem statements?_of_blanks (fuel : Nat) {cs : List Char} (h : skipSpaces cs = []) : statements? (fuel + 1) cs = some [] := by
  rw [statements?, h]

/-- A round is read before what follows it. -/
theorem Round.statements?_eq {cs rest : List Char} {ss : List Statement} (h : Round cs ss rest) (hne : skipSpaces cs ≠ [])
    (fuel : Nat) : statements? (fuel + 1) cs = (statements? fuel rest).map (ss ++ ·) := by
  rw [statements?_succ fuel hne]
  cases h with
  | void h =>
    rcases beginsVoid_of_lineEnd? h with ⟨hnil, -⟩ | hvoid
    · exact absurd hnil hne
    rw [if_pos hvoid, lineEnd?_skipSpaces, h]
    simp only [Option.bind_eq_bind, Option.bind_some]
    cases statements? fuel rest <;> rfl
  | @pair behind _ path key value hp h =>
    obtain ⟨hvoid, -⟩ := beginsVoid_of_pair? hp
    have hpair : pair? value? (skipSpaces cs) = some (((path, key), value), behind) := by
      obtain ⟨after, hpath, hvalue⟩ := (pair?_eq_some_iff _ _ _ _ _).mp hp
      exact (pair?_eq_some_iff _ _ _ _ _).mpr ⟨after, hpath, value?_of_plainValue? hvalue⟩
    have hstatement := (statement?_pair_iff (skipSpaces cs) path key value rest).mpr ⟨behind, hpair, h⟩
    rw [if_neg (by simp [hvoid]), hstatement]
    simp only [Option.bind_eq_bind, Option.bind_some]
    cases statements? fuel rest <;> rfl

/-- What is read of keys with plain values, where there is more than blanks, is one round and what follows it. -/
theorem round_of_statements? {fuel : Nat} {cs : List Char} {ss : List Statement} (h : statements? (fuel + 1) cs = some ss)
    (hp : ∀ s ∈ ss, s.IsPlain) (hne : skipSpaces cs ≠ []) :
    ∃ first rest ss', Round cs first rest ∧ statements? fuel rest = some ss' ∧ ss = first ++ ss' := by
  rw [statements?_succ fuel hne] at h
  split at h
  · obtain ⟨rest, hend, hrest⟩ := Option.bind_eq_some_iff.mp h
    exact ⟨[], rest, ss, .void (lineEnd?_skipSpaces cs ▸ hend), hrest, rfl⟩
  · obtain ⟨⟨statement, rest⟩, hstatement, hmore⟩ := Option.bind_eq_some_iff.mp h
    obtain ⟨others, hothers, hcons⟩ := Option.bind_eq_some_iff.mp hmore
    obtain rfl := Option.some.inj hcons
    obtain ⟨hplain, -⟩ := List.forall_mem_cons.mp hp
    cases statement with
    | header header => exact hplain.elim
    | pair path key value =>
      obtain ⟨behind, hpair, hend⟩ := (statement?_pair_iff _ _ _ _ _).mp hstatement
      obtain ⟨after, hpath, hvalue⟩ := (pair?_eq_some_iff _ _ _ _ _).mp hpair
      have hp' := (pair?_eq_some_iff _ _ _ _ _).mpr ⟨after, hpath, plainValue?_of_value? hvalue hplain⟩
      exact ⟨[.pair path key value], rest, others, .pair hp' hend, hothers, rfl⟩

/-- What is read of keys with plain values is read in rounds. -/
theorem rounds_of_statements? {fuel : Nat} {cs : List Char} {ss : List Statement} (h : statements? fuel cs = some ss)
    (hp : ∀ s ∈ ss, s.IsPlain) : Rounds cs ss := by
  induction fuel generalizing cs ss with
  | zero => cases h
  | succ fuel ih =>
    by_cases hnil : skipSpaces cs = []
    · rw [statements?_of_blanks fuel hnil] at h
      obtain rfl := Option.some.inj h
      refine .last (.void ?_)
      rw [← lineEnd?_skipSpaces, hnil]
      rfl
    · obtain ⟨first, rest, ss', hround, hrest, rfl⟩ := round_of_statements? h hp hnil
      exact .round hround (hround.length_lt hnil) (ih hrest fun s hs => hp s (List.mem_append_right _ hs))

/-- What is read in rounds is read with fuel for each character and one more. -/
theorem Rounds.statements?_eq {cs : List Char} {ss : List Statement} (h : Rounds cs ss) {fuel : Nat} (hf : cs.length < fuel) :
    statements? fuel cs = some ss := by
  induction h generalizing fuel with
  | @last cs ss h =>
    obtain ⟨fuel, rfl⟩ := Nat.exists_eq_add_one_of_ne_zero (Nat.ne_of_gt (Nat.zero_lt_of_lt hf))
    by_cases hnil : skipSpaces cs = []
    · rw [(h.eq_nil hnil).1]
      exact statements?_of_blanks fuel hnil
    · have hlt := h.length_lt hnil
      obtain ⟨fuel, rfl⟩ := Nat.exists_eq_add_one_of_ne_zero (show fuel ≠ 0 by omega)
      rw [h.statements?_eq hnil, statements?_of_blanks fuel rfl, Option.map_some, List.append_nil]
  | @round cs rest first others h hlt _ ih =>
    obtain ⟨fuel, rfl⟩ := Nat.exists_eq_add_one_of_ne_zero (Nat.ne_of_gt (Nat.zero_lt_of_lt hf))
    by_cases hnil : skipSpaces cs = []
    · obtain ⟨rfl, rfl⟩ := h.eq_nil hnil
      have hothers := ih (Nat.zero_lt_succ fuel)
      rwa [statements?_of_blanks fuel rfl, ← statements?_of_blanks fuel hnil] at hothers
    · rw [h.statements?_eq hnil, ih (by omega), Option.map_some]

/-- The statements of a text with plain values are those of its rounds. -/
theorem statementsOf?_eq_some_iff {cs : List Char} {ss : List Statement} (hp : ∀ s ∈ ss, s.IsPlain) :
    statementsOf? cs = some ss ↔ Rounds cs ss :=
  ⟨fun h => rounds_of_statements? h hp, fun h => h.statements?_eq (Nat.lt_succ_self _)⟩

end StreamCharts.Toml
