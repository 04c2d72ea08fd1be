import StreamCharts.Proofs.Toml.Strings

/-!
# Keys with plain values

A plain value is a string or one token, but a date may go on with a blank and a time, for which a reader looks ahead to the end
of that token. Plain values are read by themselves (`local_plainValue?`), and so are keys with such values (`local_pair?`).
-/

namespace StreamCharts.Toml

/-! ## Plain values -/

/-- A token is not followed by a time: it is a value by itself. -/
theorem scalar?_of_token {token rest : List Char} {value : Value} (ht : (token ++ rest).takeWhile isTokenChar = token)
    (hr : (token ++ rest).dropWhile isTokenChar = rest) (hv : Value.ofToken? token = some value)
    (halone : ∀ after, rest = ' ' :: after →
      (decide (date? token = some []) && isOffsetTime (after.takeWhile isTokenChar)) = false) :
    scalar? (token ++ rest) = some (value, rest) := by
  rw [scalar?, ht, hr, hv]
  simp only [Option.bind_eq_bind, Option.bind_some]
  split
  · next after => rw [halone after rfl]; rfl
  · rfl

/-- A date, a blank and a time are one value. -/
theorem scalar?_of_moment {token time rest : List Char} {value : Value}
    (ht : (token ++ ' ' :: (time ++ rest)).takeWhile isTokenChar = token)
    (hr : (token ++ ' ' :: (time ++ rest)).dropWhile isTokenChar = ' ' :: (time ++ rest))
    (ht' : (time ++ rest).takeWhile isTokenChar = time) (hr' : (time ++ rest).dropWhile isTokenChar = rest)
    (hv : Value.ofToken? token = some value) (hm : (decide (date? token = some []) && isOffsetTime time) = true) :
    scalar? (token ++ ' ' :: (time ++ rest)) = some (value, rest) := by
  rw [scalar?, ht, hr, hv]
  simp only [Option.bind_eq_bind, Option.bind_some, ht', hr', hm, if_true]

/-- A value that is one token, or a date and a time, is read by itself. -/
theorem local_scalar? : Local scalar? := by
  intro cs value rest h
  have hcs := (List.takeWhile_append_dropWhile (p := isTokenChar) (l := cs)).symm
  have htoken : StaysInLine isTokenChar := by decide
  rw [scalar?] at h
  obtain ⟨value', hv, hmore⟩ := Option.bind_eq_some_iff.mp h
  have hne : cs.takeWhile isTokenChar ≠ [] := by
    intro hnil
    rw [hnil] at hv
    cases hv
  split at hmore
  · next after hafter =>
    have hjoined := (List.takeWhile_append_dropWhile (p := isTokenChar) (l := after)).symm
    simp only at hmore
    split at hmore
    · next hm =>
      obtain ⟨rfl, rfl⟩ := Prod.mk.inj (Option.some.inj hmore)
      refine ⟨cs.takeWhile isTokenChar ++ ' ' :: after.takeWhile isTokenChar, by simp, ?_, fun rest' hsame => ?_⟩
      · rw [List.append_assoc, List.cons_append, ← hjoined, ← hafter, ← hcs]
      · obtain ⟨ht', hr'⟩ := takeWhile_local htoken after hsame
        have hbehind : SameLine (cs.dropWhile isTokenChar) (' ' :: (after.takeWhile isTokenChar ++ rest')) := by
          rw [hafter]
          have happend := hsame.append (' ' :: after.takeWhile isTokenChar)
          rwa [List.cons_append, ← hjoined] at happend
        obtain ⟨ht, hr⟩ := takeWhile_local htoken cs hbehind
        rw [List.append_assoc, List.cons_append]
        exact scalar?_of_moment ht hr ht' hr' hv hm
    · next hm =>
      obtain ⟨rfl, rfl⟩ := Prod.mk.inj (Option.some.inj hmore)
      refine ⟨cs.takeWhile isTokenChar, hne, hcs, fun rest' hsame => ?_⟩
      obtain ⟨ht, hr⟩ := takeWhile_local htoken cs hsame
      refine scalar?_of_token ht hr hv fun after' hafter' => ?_
      obtain ⟨behind, heq, hafters⟩ := (hafter ▸ hsame).eq_cons (by decide)
      obtain ⟨-, rfl⟩ := List.cons.inj (hafter'.symm.trans heq)
      rw [← hafters.takeWhile_eq htoken]
      simpa using hm
  · next hafter =>
    obtain ⟨rfl, rfl⟩ := Prod.mk.inj (Option.some.inj hmore)
    refine ⟨cs.takeWhile isTokenChar, hne, hcs, fun rest' hsame => ?_⟩
    obtain ⟨ht, hr⟩ := takeWhile_local htoken cs hsame
    refine scalar?_of_token ht hr hv fun after' hafter' => ?_
    -- the given rest would begin with a blank, too
    obtain ⟨after, heq, -⟩ := (hafter' ▸ hsame.symm).eq_cons (by decide)
    exact absurd heq (hafter after)

/-- A value is a string if it begins with a quote. -/
theorem plainValue?_of_quote {quote : Char} (hq : IsQuote quote) {cs : List Char} (h : cs.head? = some quote) :
    plainValue? cs = (string? cs).map fun (text, rest) => (.string text, rest) := by
  rcases hq with rfl | rfl
  · simp [plainValue?, h]
  · simp [plainValue?, h]

/-- A value is a token if it begins with no quote. -/
theorem plainValue?_of_token {cs : List Char} (h : ∀ quote, IsQuote quote → cs.head? ≠ some quote) :
    plainValue? cs = scalar? cs := by
  simp [plainValue?, h '"' (.inl rfl), h '\'' (.inr rfl)]

/-- A plain value is read by itself. -/
theorem local_plainValue? : Local plainValue? := by
  intro cs value rest h
  by_cases hquote : ∃ quote, IsQuote quote ∧ cs.head? = some quote
  · obtain ⟨quote, hq, hhead⟩ := hquote
    rw [plainValue?_of_quote hq hhead] at h
    obtain ⟨⟨text, rest'⟩, htext, hpair⟩ := Option.map_eq_some_iff.mp h
    obtain ⟨rfl, rfl⟩ := Prod.mk.inj hpair
    obtain ⟨read, hread, hcs, hreads⟩ := string?_local hq hhead htext
    have hne : read ≠ [] := by
      rintro rfl
      cases hread
    refine ⟨read, hne, hcs, fun rest'' hsame => ?_⟩
    rw [plainValue?_of_quote hq (by rw [List.head?_append_of_ne_nil _ hne, hread]), hreads rest'' hsame]
    rfl
  · have hnone (cs' : List Char) (hhead : cs'.head? = cs.head?) : plainValue? cs' = scalar? cs' :=
      plainValue?_of_token fun quote hq heq => hquote ⟨quote, hq, hhead ▸ heq⟩
    rw [hnone cs rfl] at h
    obtain ⟨read, hne, hcs, hreads⟩ := local_scalar? cs value rest h
    refine ⟨read, hne, hcs, fun rest' hsame => ?_⟩
    rw [hnone, hreads rest' hsame]
    rw [hcs, List.head?_append_of_ne_nil _ hne, List.head?_append_of_ne_nil _ hne]

/-! ## Pairs -/

/-- Only a character itself is expected. -/
theorem expect?_eq_some_iff (c : Char) (cs rest : List Char) : expect? c cs = some rest ↔ cs = c :: rest := by
  cases cs with
  | nil => simp [expect?]
  | cons d cs => simp [expect?]

/-- A key path, an equals sign and a value. -/
theorem pair?_eq_some_iff (value? : Reader Value) (cs : List Char) (path : List String × String) (value : Value)
    (rest : List Char) : pair? value? cs = some ((path, value), rest) ↔
      ∃ behind, keyPath? cs = some (path, '=' :: behind) ∧ value? (skipSpaces behind) = some (value, rest) := by
  constructor
  · intro h
    obtain ⟨⟨path', behind⟩, hpath, hmore⟩ := Option.bind_eq_some_iff.mp h
    obtain ⟨after, hafter, hmore⟩ := Option.bind_eq_some_iff.mp hmore
    obtain ⟨⟨value', rest'⟩, hvalue, hpair⟩ := Option.bind_eq_some_iff.mp hmore
    obtain ⟨hkey, rfl⟩ := Prod.mk.inj (Option.some.inj hpair)
    obtain ⟨rfl, rfl⟩ := Prod.mk.inj hkey
    obtain rfl := (expect?_eq_some_iff _ _ _).mp hafter
    exact ⟨after, hpath, hvalue⟩
  · rintro ⟨behind, hpath, hvalue⟩
    refine Option.bind_eq_some_iff.mpr ⟨_, hpath, ?_⟩
    refine Option.bind_eq_some_iff.mpr ⟨behind, (expect?_eq_some_iff _ _ _).mpr rfl, ?_⟩
    exact Option.bind_eq_some_iff.mpr ⟨_, hvalue, rfl⟩

/-- A key path, an equals sign and a value are read by themselves if the value is. -/
theorem local_pair? {value? : Reader Value} (hvalue : Local value?) : Local (pair? value?) := by
  rintro cs ⟨path, value⟩ rest h
  obtain ⟨behind, hpath, hv⟩ := (pair?_eq_some_iff _ _ _ _ _).mp h
  obtain ⟨keys, -, rfl, hkeys⟩ := local_keyPath? _ _ _ hpath
  obtain ⟨read, -, hread, hreads⟩ := hvalue _ _ _ hv
  refine ⟨keys ++ '=' :: (behind.takeWhile isSpace ++ read), by simp, ?_, fun rest' hsame => ?_⟩
  · rw [List.append_assoc, List.cons_append, List.append_assoc, ← hread, takeWhile_append_skipSpaces]
  · have hafter : SameLine (skipSpaces behind) (read ++ rest') := hread ▸ hsame.append read
    have hbehind : SameLine ('=' :: behind) ('=' :: (behind.takeWhile isSpace ++ (read ++ rest'))) := by
      have happend := hafter.append ('=' :: behind.takeWhile isSpace)
      rwa [List.cons_append, takeWhile_append_skipSpaces] at happend
    rw [List.append_assoc, List.cons_append, List.append_assoc, pair?_eq_some_iff]
    refine ⟨_, hkeys _ hbehind, ?_⟩
    rw [skipSpaces_local behind hafter]
    exact hreads rest' hsame

end StreamCharts.Toml
