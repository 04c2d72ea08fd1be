import StreamCharts.Proofs.Toml.Locality

/-!
# Strings of several lines

A string of several lines is read in rounds. A round before the closing quotes reads one piece (`BlockPiece`), for which it
looks two characters ahead at most; the closing quotes may be followed by two more that belong to the string. So strings of any
kind are read by themselves (`string?_local`).
-/

namespace StreamCharts.Toml

/-! ## Line ends -/

/-- A line end is read by itself. -/
theorem newline?_local {cs rest : List Char} (h : newline? cs = some rest) :
    ∃ read, read ≠ [] ∧ read.head?.all isBreak = true ∧ cs = read ++ rest ∧
      ∀ rest', newline? (read ++ rest') = some rest' := by
  unfold newline? at h
  split at h
  · obtain rfl := Option.some.inj h
    exact ⟨['\n'], nofun, rfl, rfl, fun _ => rfl⟩
  · obtain rfl := Option.some.inj h
    exact ⟨['\r', '\n'], nofun, rfl, rfl, fun _ => rfl⟩
  · cases h

/-- No line end begins with a character of the line. -/
theorem newline?_cons {c : Char} (hc : isBreak c = false) (cs : List Char) : newline? (c :: cs) = none := by
  cases hfound : newline? (c :: cs) with
  | none => rfl
  | some rest =>
    obtain ⟨read, hne, hread, hcs, -⟩ := newline?_local hfound
    rw [← List.head?_append_of_ne_nil read hne, ← hcs] at hread
    rw [List.head?_cons, Option.all_some, hc] at hread
    cases hread

/-- Two characters tell whether a line end stands here. -/
theorem newline?_eq_none_of_take {cs cs' : List Char} (h : cs'.take 2 = cs.take 2) (hn : newline? cs = none) :
    newline? cs' = none := by
  cases hfound : newline? cs' with
  | none => rfl
  | some rest =>
    exfalso
    unfold newline? at hfound
    split at hfound
    · cases cs with
      | nil => cases h
      | cons c cs =>
        obtain rfl : '\n' = c := (List.cons.inj h).1
        cases hn
    · rcases cs with _ | ⟨c, _ | ⟨c', cs⟩⟩
      · cases h
      · cases h
      · obtain ⟨rfl, hrest⟩ := List.cons.inj h
        obtain rfl : '\n' = c' := (List.cons.inj hrest).1
        cases hn
    · cases hfound

/-! ## Joined lines -/

/-- A blank in a margin is passed. -/
theorem skipMargin_of_space {c : Char} (hc : isSpace c = true) (cs : List Char) :
    joinedLine?.skipMargin (c :: cs) = joinedLine?.skipMargin cs := by
  have hspace : StaysInLine isSpace := by decide
  have hne : c ≠ '\n' ∧ c ≠ '\r' := by simpa [isBreak] using hspace.isBreak_eq_false hc
  rw [joinedLine?.skipMargin, if_pos hc]
  · exact hne.1
  · exact fun _ hr => absurd hr hne.2

/-- A margin ends before a character that is no blank and begins no line end. -/
theorem skipMargin_of_none {cs : List Char} (hn : newline? cs = none) (hs : cs.head?.any isSpace = false) :
    joinedLine?.skipMargin cs = cs := by
  unfold joinedLine?.skipMargin
  split
  · cases hn
  · cases hn
  · next c rest _ _ =>
    rw [List.head?_cons, Option.any_some] at hs
    rw [hs]
    rfl
  · rfl

/-- Blanks and line ends are read up to another character. -/
theorem skipMargin_local (cs : List Char) : ∃ read, cs = read ++ joinedLine?.skipMargin cs ∧
    ∀ rest', rest'.take 2 = (joinedLine?.skipMargin cs).take 2 → joinedLine?.skipMargin (read ++ rest') = rest' := by
  fun_induction joinedLine?.skipMargin cs with
  | case1 rest ih =>
    obtain ⟨read, hcs, hread⟩ := ih
    exact ⟨'\n' :: read, congrArg _ hcs, hread⟩
  | case2 rest ih =>
    obtain ⟨read, hcs, hread⟩ := ih
    exact ⟨'\r' :: '\n' :: read, congrArg (['\r', '\n'] ++ ·) hcs, hread⟩
  | case3 c rest h1 h2 hc ih =>
    obtain ⟨read, hcs, hread⟩ := ih
    refine ⟨c :: read, congrArg _ hcs, fun rest' htake => ?_⟩
    rw [List.cons_append, skipMargin_of_space hc, hread rest' htake]
  | case4 c rest h1 h2 hc =>
    have hnone : newline? (c :: rest) = none := by
      unfold newline?
      split
      · next heq => exact absurd (List.cons.inj heq).1 h1
      · next heq => exact absurd (List.cons.inj heq).2 (h2 _ (List.cons.inj heq).1)
      · rfl
    refine ⟨[], rfl, fun rest' htake => ?_⟩
    rw [List.nil_append]
    refine skipMargin_of_none (newline?_eq_none_of_take htake hnone) ?_
    cases rest' with
    | nil => rfl
    | cons c' rest' =>
      obtain rfl : c' = c := (List.cons.inj htake).1
      simpa using hc
  | case5 =>
    refine ⟨[], rfl, fun rest' htake => ?_⟩
    have hnil : rest' = [] := by simpa using htake
    rw [hnil]
    rfl

/-- So is the end of a line that a backslash joins to the next. -/
theorem joinedLine?_local {cs rest : List Char} (h : joinedLine? cs = some rest) :
    ∃ read, cs = read ++ rest ∧ ∀ rest', rest'.take 2 = rest.take 2 → joinedLine? (read ++ rest') = some rest' := by
  obtain ⟨behind, hbehind, rfl⟩ := Option.map_eq_some_iff.mp h
  obtain ⟨ending, hne, hbreak, hending, hnewline⟩ := newline?_local hbehind
  obtain ⟨margin, hmargin, hskip⟩ := skipMargin_local behind
  refine ⟨cs.takeWhile isSpace ++ ending ++ margin, ?_, fun rest' htake => ?_⟩
  · rw [List.append_assoc, ← hmargin, List.append_assoc, ← hending, takeWhile_append_skipSpaces]
  · have hbegin (more : List Char) : (ending ++ more).head?.all isBreak = true := by
      rwa [List.head?_append_of_ne_nil _ hne]
    have hsame : SameLine (skipSpaces cs) (ending ++ (margin ++ rest')) := hending ▸ .of_break (hbegin _) (hbegin _)
    rw [joinedLine?, List.append_assoc, List.append_assoc, skipSpaces_local cs hsame, hnewline, Option.map_some,
      hskip rest' htake]

/-! ## Closing quotes -/

/-- Without a quote nothing is added to a string. -/
theorem closingQuotes_none {quote : Char} {cs : List Char} (h : cs.head? ≠ some quote) :
    closingQuotes quote cs = ([], cs) := by
  cases cs with
  | nil => rfl
  | cons c cs =>
    have hc : c ≠ quote := fun hc => h (congrArg some hc)
    simp [closingQuotes, hc]

/-- One quote is added. -/
theorem closingQuotes_one {quote : Char} {cs : List Char} (h : cs.head? ≠ some quote) :
    closingQuotes quote (quote :: cs) = ([quote], cs) := by
  cases cs with
  | nil => simp [closingQuotes]
  | cons c cs =>
    have hc : c ≠ quote := fun hc => h (congrArg some hc)
    simp [closingQuotes, hc]

/-- Two quotes are added, and no more. -/
theorem closingQuotes_two (quote : Char) (cs : List Char) :
    closingQuotes quote (quote :: quote :: cs) = ([quote, quote], cs) := by
  have hcount : ¬ (cs.takeWhile (· = quote)).length + 1 + 1 < 2 := by omega
  simp [closingQuotes, hcount]

/-- Of the quotes behind closing quotes two at most are read, and fewer only if no other follows. -/
theorem closingQuotes_local {quote : Char} (hq : IsQuote quote) {cs text rest : List Char}
    (h : closingQuotes quote cs = (text, rest)) :
    ∃ read, cs = read ++ rest ∧ ∀ rest', SameLine rest rest' → closingQuotes quote (read ++ rest') = (text, rest') := by
  by_cases hone : cs.head? = some quote
  · obtain ⟨cs, rfl⟩ := List.head?_eq_some_iff.mp hone
    by_cases htwo : cs.head? = some quote
    · obtain ⟨cs, rfl⟩ := List.head?_eq_some_iff.mp htwo
      rw [closingQuotes_two] at h
      obtain ⟨rfl, rfl⟩ := Prod.mk.inj h
      exact ⟨[quote, quote], rfl, fun rest' _ => closingQuotes_two quote rest'⟩
    · rw [closingQuotes_one htwo] at h
      obtain ⟨rfl, rfl⟩ := Prod.mk.inj h
      exact ⟨[quote], rfl, fun rest' hsame => closingQuotes_one (hsame.head?_ne hq.ne.1 htwo)⟩
  · rw [closingQuotes_none hone] at h
    obtain ⟨rfl, rfl⟩ := Prod.mk.inj h
    exact ⟨[], rfl, fun rest' hsame => closingQuotes_none (hsame.head?_ne hq.ne.1 hone)⟩

/-! ## Rounds of a string -/

/-- A line is joined to the next only behind blanks and a line end. -/
theorem joinedLine?_cons {c : Char} (hs : isSpace c = false) (hc : isBreak c = false) (cs : List Char) :
    joinedLine? (c :: cs) = none := by
  rw [joinedLine?, skipSpaces, List.dropWhile_cons_of_neg (by simp [hs]), newline?_cons hc, Option.map_none]

/-- No escape joins lines, whatever stands behind its first character. -/
theorem joinedLine?_of_escape? {c x : Char} {cs rest : List Char} (h : escape? (c :: cs) = some (x, rest)) (cs' : List Char) :
    joinedLine? (c :: cs') = none := by
  have hletter (hc : isSpace c = false ∧ isBreak c = false) : joinedLine? (c :: cs') = none :=
    joinedLine?_cons hc.1 hc.2 cs'
  by_cases hu : c = 'u'
  · exact hletter (hu ▸ by decide)
  by_cases hU : c = 'U'
  · exact hletter (hU ▸ by decide)
  rw [escape?_cons hu hU] at h
  obtain ⟨x', hx, -⟩ := Option.map_eq_some_iff.mp h
  refine hletter ?_
  unfold shortEscape? at hx
  split at hx
  all_goals first | decide | cases hx

/-- What one round reads of a string of several lines before the closing quotes, with the characters it stands for. -/
inductive BlockPiece (quote : Char) : List Char → List Char → List Char → Prop where
  | newline {cs rest : List Char} (h : newline? cs = some rest) : BlockPiece quote cs ['\n'] rest
  | joined {cs rest : List Char} (hq : quote = '"') (h : joinedLine? cs = some rest) : BlockPiece quote ('\\' :: cs) [] rest
  | escape {cs rest : List Char} {x : Char} (hq : quote = '"') (h : escape? cs = some (x, rest)) :
    BlockPiece quote ('\\' :: cs) [x] rest
  | plain {c : Char} {cs : List Char} (hc : c = quote ∨ isPlain quote c = true)
    (hclose : ¬ (c = quote ∧ cs.take 2 = [quote, quote])) : BlockPiece quote (c :: cs) [c] cs

/-- A plain character belongs to no line end and is no backslash in a string with escapes. -/
theorem ne_of_isPlain {quote c : Char} (hc : isPlain quote c = true) :
    isBreak c = false ∧ (quote = '"' → c ≠ '\\') := by
  have hcomment : StaysInLine isCommentChar := by decide
  rw [isPlain, Bool.and_eq_true, Bool.and_eq_true] at hc
  refine ⟨hcomment.isBreak_eq_false hc.1.1, ?_⟩
  rintro rfl rfl
  simp at hc

/-- A round reads a piece, and the others go on behind it. -/
theorem BlockPiece.blockString?_eq {quote : Char} (hq : IsQuote quote) {cs out rest : List Char}
    (h : BlockPiece quote cs out rest) (fuel : Nat) :
    blockString? quote (fuel + 1) cs = (blockString? quote fuel rest).map fun (text, rest) => (out ++ text, rest) := by
  cases h with
  | newline h =>
    cases cs with
    | nil => cases h
    | cons c cs =>
      have hc : c ≠ quote := by
        rintro rfl
        rw [newline?_cons hq.ne.1] at h
        cases h
      simp only [blockString?, hc, decide_false, Bool.false_and, Bool.false_eq_true, if_false, h]
      cases blockString? quote fuel rest <;> rfl
  | @joined cs _ hquote h =>
    subst hquote
    have hn : newline? ('\\' :: cs) = none := newline?_cons (by decide) cs
    simp only [blockString?, hn, h]
    cases blockString? '"' fuel rest <;> simp
  | @escape cs _ x hquote h =>
    subst hquote
    have hn : newline? ('\\' :: cs) = none := newline?_cons (by decide) cs
    have hj : joinedLine? cs = none := by
      cases cs with
      | nil => cases h
      | cons c cs => exact joinedLine?_of_escape? h cs
    simp only [blockString?, hn, hj, h, Option.bind_eq_bind, Option.bind_some]
    cases blockString? '"' fuel rest <;> simp
  | @plain c _ hc hclose =>
    have hne : isBreak c = false ∧ (quote = '"' → c ≠ '\\') := by
      rcases hc with rfl | hc
      · exact ⟨hq.ne.1, fun _ => hq.ne.2⟩
      · exact ne_of_isPlain hc
    have hquotes : (decide (c = quote) && decide (rest.take 2 = [quote, quote])) = false := by simpa using hclose
    have hescape : (decide (c = '\\') && decide (quote = '"')) = false := by simpa using fun h h' => hne.2 h' h
    have hplain : (decide (c = quote) || isPlain quote c) = true := by simpa using hc
    simp only [blockString?, newline?_cons hne.1, hquotes, hescape, hplain, Bool.false_eq_true, if_false, if_true]
    cases blockString? quote fuel rest <;> rfl

/-- A string of several lines is closed, or a round reads a piece of it. -/
theorem blockString?_cases {quote : Char} {fuel : Nat} {cs text rest : List Char}
    (h : blockString? quote (fuel + 1) cs = some (text, rest)) :
    (∃ behind, cs = quote :: quote :: quote :: behind ∧ closingQuotes quote behind = (text, rest)) ∨
      ∃ out behind text', BlockPiece quote cs out behind ∧ blockString? quote fuel behind = some (text', rest) ∧
        text = out ++ text' := by
  cases cs with
  | nil => cases h
  | cons c cs =>
    rw [blockString?] at h
    by_cases hclose : (decide (c = quote) && decide (cs.take 2 = [quote, quote])) = true
    · rw [if_pos hclose] at h
      rw [Bool.and_eq_true, decide_eq_true_iff, decide_eq_true_iff] at hclose
      obtain ⟨rfl, htake⟩ := hclose
      have hcs := List.take_append_drop 2 cs
      rw [htake] at hcs
      exact .inl ⟨cs.drop 2, by rw [← hcs]; rfl, Option.some.inj h⟩
    rw [if_neg hclose] at h
    refine .inr ?_
    cases hn : newline? (c :: cs) with
    | some behind =>
      rw [hn] at h
      obtain ⟨⟨text', rest'⟩, htext, hpair⟩ := Option.bind_eq_some_iff.mp h
      obtain ⟨rfl, rfl⟩ := Prod.mk.inj (Option.some.inj hpair)
      exact ⟨_, behind, text', .newline hn, htext, rfl⟩
    | none =>
      rw [hn] at h
      simp only at h
      split at h
      · next hescape =>
        rw [Bool.and_eq_true, decide_eq_true_iff, decide_eq_true_iff] at hescape
        obtain ⟨rfl, hquote⟩ := hescape
        cases hj : joinedLine? cs with
        | some behind =>
          rw [hj] at h
          exact ⟨_, behind, text, .joined hquote hj, h, rfl⟩
        | none =>
          rw [hj] at h
          obtain ⟨⟨x, behind⟩, hx, hmore⟩ := Option.bind_eq_some_iff.mp h
          obtain ⟨⟨text', rest'⟩, htext, hpair⟩ := Option.bind_eq_some_iff.mp hmore
          obtain ⟨rfl, rfl⟩ := Prod.mk.inj (Option.some.inj hpair)
          exact ⟨_, behind, text', .escape hquote hx, htext, rfl⟩
      · split at h
        · next hplain =>
          obtain ⟨⟨text', rest'⟩, htext, hpair⟩ := Option.bind_eq_some_iff.mp h
          obtain ⟨rfl, rfl⟩ := Prod.mk.inj (Option.some.inj hpair)
          rw [Bool.or_eq_true, decide_eq_true_iff] at hplain
          exact ⟨_, cs, text', .plain hplain (by simpa using hclose), htext, rfl⟩
        · cases h

/-- A piece is read by itself, if two characters behind it are given. -/
theorem BlockPiece.reads {quote : Char} {cs out rest : List Char} (h : BlockPiece quote cs out rest) :
    ∃ read, read ≠ [] ∧ cs = read ++ rest ∧ ∀ rest', rest'.take 2 = rest.take 2 →
      BlockPiece quote (read ++ rest') out rest' := by
  cases h with
  | newline h =>
    obtain ⟨read, hne, -, hcs, hread⟩ := newline?_local h
    exact ⟨read, hne, hcs, fun rest' _ => .newline (hread rest')⟩
  | joined hq h =>
    obtain ⟨read, rfl, hread⟩ := joinedLine?_local h
    exact ⟨'\\' :: read, nofun, rfl, fun rest' htake => .joined hq (hread rest' htake)⟩
  | escape hq h =>
    obtain ⟨read, rfl, hread⟩ := escape?_local h
    exact ⟨'\\' :: read, nofun, rfl, fun rest' _ => .escape hq (hread rest')⟩
  | @plain c _ hc hclose =>
    exact ⟨[c], nofun, rfl, fun rest' htake => .plain hc (htake.symm ▸ hclose)⟩

/-- A string of several lines is read by itself, with at least the quotes that close it. -/
theorem blockString?_local {quote : Char} (hq : IsQuote quote) {fuel : Nat} {cs text rest : List Char}
    (h : blockString? quote fuel cs = some (text, rest)) :
    ∃ read, 3 ≤ read.length ∧ cs = read ++ rest ∧
      ∀ fuel', read.length ≤ fuel' → Reads (blockString? quote fuel') read text rest := by
  induction fuel generalizing cs text with
  | zero => cases h
  | succ fuel ih =>
    rcases blockString?_cases h with ⟨behind, rfl, hclosing⟩ | ⟨out, behind, text', hpiece, htext, rfl⟩
    · obtain ⟨read, rfl, hread⟩ := closingQuotes_local hq hclosing
      refine ⟨quote :: quote :: quote :: read, by simp, rfl, fun fuel' hfuel rest' hsame => ?_⟩
      obtain ⟨fuel', rfl⟩ := Nat.exists_eq_add_one_of_ne_zero (Nat.ne_of_gt (Nat.zero_lt_of_lt hfuel))
      simp [blockString?, hread rest' hsame]
    · obtain ⟨read, hlength, rfl, hread⟩ := ih htext
      obtain ⟨piece, hne, rfl, hlocal⟩ := hpiece.reads
      refine ⟨piece ++ read, by simp; omega, by simp, fun fuel' hfuel rest' hsame => ?_⟩
      have hpos := List.length_pos_iff.mpr hne
      rw [List.length_append] at hfuel
      obtain ⟨fuel', rfl⟩ := Nat.exists_eq_add_one_of_ne_zero (Nat.ne_of_gt (hpos.trans_le (by omega : _ ≤ fuel')))
      have htake : (read ++ rest').take 2 = (read ++ rest).take 2 := by
        rw [List.take_append_of_le_length (by omega), List.take_append_of_le_length (by omega)]
      rw [List.append_assoc, (hlocal _ htake).blockString?_eq hq, hread fuel' (by omega) _ hsame]
      rfl

/-! ## Whole strings -/

/-- What stands behind the opening quotes of a string of several lines; a line end right behind them is skipped. -/
theorem blockStringOf?_cons (quote : Char) (cs : List Char) :
    blockStringOf? quote (quote :: quote :: quote :: cs) =
      (blockString? quote ((newline? cs).getD cs).length ((newline? cs).getD cs)).map fun (text, rest) =>
        (String.ofList text, rest) := by
  simp [blockStringOf?]

/-- What stands behind the opening quotes is read by itself. -/
theorem blockString?_getD_local {quote : Char} (hq : IsQuote quote) {fuel : Nat} {cs text rest : List Char}
    (h : blockString? quote fuel ((newline? cs).getD cs) = some (text, rest)) :
    ∃ read, cs = read ++ rest ∧ ∀ rest', SameLine rest rest' →
      blockString? quote ((newline? (read ++ rest')).getD (read ++ rest')).length
        ((newline? (read ++ rest')).getD (read ++ rest')) = some (text, rest') := by
  obtain ⟨read, hlength, hread, hreads⟩ := blockString?_local hq h
  cases hn : newline? cs with
  | some behind =>
    rw [hn, Option.getD_some] at hread
    obtain ⟨ending, -, -, hcs, hending⟩ := newline?_local hn
    refine ⟨ending ++ read, by rw [hcs, hread, List.append_assoc], fun rest' hsame => ?_⟩
    rw [List.append_assoc, hending, Option.getD_some]
    exact hreads _ (by simp) rest' hsame
  | none =>
    rw [hn, Option.getD_none] at hread
    refine ⟨read, hread, fun rest' hsame => ?_⟩
    have htake : (read ++ rest').take 2 = cs.take 2 := by
      rw [hread, List.take_append_of_le_length (by omega), List.take_append_of_le_length (by omega)]
    rw [newline?_eq_none_of_take htake hn, Option.getD_none]
    exact hreads _ (by simp) rest' hsame

/-- Three quotes at the beginning of a text. -/
theorem eq_cons_of_take {quote : Char} {cs : List Char} (h : cs.take 3 = [quote, quote, quote]) :
    ∃ behind, cs = quote :: quote :: quote :: behind := by
  refine ⟨cs.drop 3, ?_⟩
  have hjoined := List.take_append_drop 3 cs
  rw [h] at hjoined
  exact hjoined.symm

/-- A string of several lines begins with its quotes. -/
theorem eq_cons_of_blockStringOf? {quote : Char} {cs : List Char} {text : String} {rest : List Char}
    (h : blockStringOf? quote cs = some (text, rest)) : ∃ behind, cs = quote :: quote :: quote :: behind := by
  rw [blockStringOf?] at h
  split at h
  · next hopen => exact eq_cons_of_take hopen
  · cases h

/-- Another text of the same line begins with three quotes only if the given one does. -/
theorem SameLine.take_ne {quote : Char} (hq : IsQuote quote) {cs cs' : List Char} (h : SameLine cs cs')
    (hne : cs.take 3 ≠ [quote, quote, quote]) : cs'.take 3 ≠ [quote, quote, quote] := by
  intro htake
  obtain ⟨behind, rfl⟩ := eq_cons_of_take htake
  obtain ⟨one, rfl, hone⟩ := h.symm.eq_cons hq.ne.1
  obtain ⟨two, rfl, htwo⟩ := hone.eq_cons hq.ne.1
  obtain ⟨three, rfl, -⟩ := htwo.eq_cons hq.ne.1
  exact hne rfl

/-- A string of several lines with all its quotes is read by itself. -/
theorem blockStringOf?_local {quote : Char} (hq : IsQuote quote) {cs : List Char} {text : String} {rest : List Char}
    (h : blockStringOf? quote cs = some (text, rest)) :
    ∃ read, cs = quote :: quote :: quote :: read ++ rest ∧
      Reads (blockStringOf? quote) (quote :: quote :: quote :: read) text rest := by
  obtain ⟨behind, rfl⟩ := eq_cons_of_blockStringOf? h
  rw [blockStringOf?_cons] at h
  obtain ⟨⟨text', rest'⟩, htext, hpair⟩ := Option.map_eq_some_iff.mp h
  obtain ⟨rfl, rfl⟩ := Prod.mk.inj hpair
  obtain ⟨read, rfl, hread⟩ := blockString?_getD_local hq htext
  refine ⟨read, rfl, fun rest'' hsame => ?_⟩
  rw [List.cons_append, List.cons_append, List.cons_append, blockStringOf?_cons, hread rest'' hsame]
  rfl

/-- A text that begins with a quote is a string of several lines if two more follow, and of one line otherwise. -/
theorem string?_of_quote {quote : Char} (hq : IsQuote quote) {cs : List Char} (h : cs.head? = some quote) :
    string? cs = if cs.take 3 = [quote, quote, quote] then blockStringOf? quote cs else lineStringOf? quote cs := by
  obtain ⟨cs, rfl⟩ := List.head?_eq_some_iff.mp h
  rcases hq with rfl | rfl
  · simp [string?]
  · simp [string?]

/-- A string is read by itself. -/
theorem string?_local {quote : Char} (hq : IsQuote quote) {cs : List Char} (hhead : cs.head? = some quote) {text : String}
    {rest : List Char} (h : string? cs = some (text, rest)) :
    ∃ read, read.head? = some quote ∧ cs = read ++ rest ∧ Reads string? read text rest := by
  rw [string?_of_quote hq hhead] at h
  split at h
  · next hopen =>
    obtain ⟨read, hcs, hread⟩ := blockStringOf?_local hq h
    refine ⟨quote :: quote :: quote :: read, rfl, hcs, fun rest' hsame => ?_⟩
    exact (string?_of_quote hq rfl).trans ((if_pos rfl).trans (hread rest' hsame))
  · next hopen =>
    obtain ⟨read, hne, rfl, hread⟩ := local_lineStringOf? quote cs text rest h
    rw [List.head?_append_of_ne_nil _ hne] at hhead
    refine ⟨read, hhead, rfl, fun rest' hsame => ?_⟩
    have hclosed : (read ++ rest').take 3 ≠ [quote, quote, quote] := (hsame.append read).take_ne hq hopen
    rw [string?_of_quote hq (by rw [List.head?_append_of_ne_nil _ hne, hhead]), if_neg hclosed, hread rest' hsame]

end StreamCharts.Toml
