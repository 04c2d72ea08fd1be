import Mathlib.Data.List.Nodup
import Mathlib.Data.List.Perm.Basic
import StreamCharts.Config

/-!
# Settings and entries

What an entry of a document does to a configuration. `Setting.Takes` says which values a setting takes, `Config.Holds` what its
field is then, and `Flawed` what is wrong with an entry that no setting takes. One entry changes one field (`set_of_takes`); so
entries give a configuration if and only if each of them is taken (`exists_ofEntries_iff`), in which case it is the one that
they determine whatever their order (`ofEntries_eq_ok_iff`), and otherwise the first flawed entry is the error
(`ofEntries_eq_error_iff`).
-/

namespace StreamCharts

open Toml (Value Entries)

/-! ## What a setting takes -/

/-- The type of a setting's value: a text, a whole number, or any number. -/
def Setting.HasType : Setting → Value → Prop
  | .logRoot, .string _ => True
  | .simulation, .integer _ => True
  | .client, .integer _ => True
  | .windowWidth, .integer _ => True
  | .windowWidth, .float _ => True
  | .windowHeight, .integer _ => True
  | .windowHeight, .float _ => True
  | _, _ => False

/-- The settings that are identifiers. -/
def Setting.IsIdentifier (setting : Setting) : Prop :=
  setting = .simulation ∨ setting = .client

/-- Whether an integer is an identifier. -/
def InRange (n : Int64) : Prop :=
  0 ≤ n.toInt ∧ n.toInt ≤ 4294967295

/-- Whether a setting takes a value: it is of its type, and in range where it is to be an identifier. -/
def Setting.Takes (setting : Setting) (value : Value) : Prop :=
  setting.HasType value ∧ (setting.IsIdentifier → ∀ n, value = .integer n → InRange n)

/-- Whether the field of a setting is what a value says. -/
def Config.Holds (config : Config) : Setting → Value → Prop
  | .logRoot, .string text => config.logRoot = text
  | .simulation, .integer n => (config.simulation.toNat : Int) = n.toInt
  | .client, .integer n => (config.client.toNat : Int) = n.toInt
  | .windowWidth, .integer n => config.windowWidth = Binary.ofInt .single n.toInt
  | .windowWidth, .float x => config.windowWidth = x.convert .single
  | .windowHeight, .integer n => config.windowHeight = Binary.ofInt .single n.toInt
  | .windowHeight, .float x => config.windowHeight = x.convert .single
  | _, _ => False

/-- Whether two configurations have the same field for a setting. -/
def Config.SameAt (config config' : Config) : Setting → Prop
  | .logRoot => config.logRoot = config'.logRoot
  | .simulation => config.simulation = config'.simulation
  | .client => config.client = config'.client
  | .windowWidth => config.windowWidth = config'.windowWidth
  | .windowHeight => config.windowHeight = config'.windowHeight

/-- Whether some setting takes an entry. -/
def Taken (entry : String × Value) : Prop :=
  ∃ setting : Setting, setting.key = entry.1 ∧ setting.Takes entry.2

/-- What is wrong with an entry that no setting takes. -/
inductive Flawed : String × Value → ConfigFlaw → Prop where
  | unknownKey {key : String} {value : Value} (h : ∀ setting : Setting, setting.key ≠ key) :
    Flawed (key, value) (.unknownKey key)
  | wrongType {setting : Setting} {value : Value} (h : ¬ setting.HasType value) :
    Flawed (setting.key, value) (.wrongType value.inWords setting)
  | outOfRange {setting : Setting} {n : Int64} (hi : setting.IsIdentifier) (h : ¬ InRange n) :
    Flawed (setting.key, .integer n) (.outOfRange n setting)

/-- What is wrong with the first entry that no setting takes, whatever follows it. -/
def FirstFlaw (entries : Entries) (flaw : ConfigFlaw) : Prop :=
  ∃ before entry after, entries = before ++ entry :: after ∧ (∀ e ∈ before, Taken e) ∧ Flawed entry flaw

/-! ## Keys of settings -/

/-- Different settings have different keys. -/
theorem Setting.key_injective : Function.Injective Setting.key := by
  intro setting setting' h
  cases setting <;> cases setting' <;> first | rfl | exact absurd h (by decide)

/-- A setting is found by its key. -/
theorem Setting.ofKey?_eq_some_iff (key : String) (setting : Setting) : ofKey? key = some setting ↔ setting.key = key := by
  constructor
  · intro h
    rw [ofKey?] at h
    have hkey := List.find?_some h
    exact eq_of_beq hkey
  · rintro rfl
    cases setting <;> decide

/-- No setting is found by a key that none has. -/
theorem Setting.ofKey?_eq_none_iff (key : String) : ofKey? key = none ↔ ∀ setting : Setting, setting.key ≠ key := by
  constructor
  · intro h setting hkey
    rw [(ofKey?_eq_some_iff key setting).mpr hkey] at h
    cases h
  · intro h
    cases hfound : ofKey? key with
    | none => rfl
    | some setting => exact absurd ((ofKey?_eq_some_iff key setting).mp hfound) (h setting)

namespace Config

/-! ## One field -/

/-- Configurations with the same fields are the same. -/
theorem eq_of_sameAt {config config' : Config} (h : ∀ setting, config.SameAt config' setting) : config = config' := by
  cases config
  cases config'
  rw [mk.injEq]
  exact ⟨h .logRoot, h .simulation, h .client, h .windowWidth, h .windowHeight⟩

/-- A field is the same as itself. -/
theorem sameAt_refl (config : Config) (setting : Setting) : config.SameAt config setting := by
  cases setting <;> rfl

/-- Fields that are the same as a third are the same. -/
theorem SameAt.trans {config config' config'' : Config} {setting : Setting} (h : config.SameAt config' setting)
    (h' : config'.SameAt config'' setting) : config.SameAt config'' setting := by
  cases setting <;> exact Eq.trans h h'

/-- Fields are the same in both directions. -/
theorem SameAt.symm {config config' : Config} {setting : Setting} (h : config.SameAt config' setting) :
    config'.SameAt config setting := by
  cases setting <;> exact Eq.symm h

/-- The same field is what a value says in both configurations. -/
theorem SameAt.holds {config config' : Config} {setting : Setting} {value : Value} (h : config.SameAt config' setting)
    (h' : config'.Holds setting value) : config.Holds setting value := by
  cases setting <;> cases value <;> first | exact h'.elim | simp only [Holds, SameAt] at h h' ⊢; rw [h, h']

/-- A value determines the field of its setting. -/
theorem Holds.sameAt {config config' : Config} {setting : Setting} {value : Value} (h : config.Holds setting value)
    (h' : config'.Holds setting value) : config.SameAt config' setting := by
  have hid {a b : UInt32} {n : Int64} (ha : (a.toNat : Int) = n.toInt) (hb : (b.toNat : Int) = n.toInt) : a = b :=
    UInt32.toNat_inj.mp (Int.ofNat_inj.mp (ha.trans hb.symm))
  cases setting <;> cases value <;> first | exact h.elim | exact hid h h' | exact Eq.trans h (Eq.symm h')

/-! ## One entry -/

/-- An integer in range is read as the identifier of its value. -/
theorem identifier_of_inRange (setting : Setting) {n : Int64} (h : InRange n) :
    ∃ id, identifier setting (.integer n) = .ok id ∧ (id.toNat : Int) = n.toInt := by
  obtain ⟨hlow, hhigh⟩ := h
  have hlt : n.toInt < UInt32.size := by
    have hsize : (UInt32.size : Int) = 4294967296 := rfl
    omega
  refine ⟨_, if_pos ⟨hlow, hlt⟩, ?_⟩
  rw [UInt32.toNat_ofNat_of_lt' (by omega), Int.toNat_of_nonneg hlow]

/-- An integer that is no identifier is refused. -/
theorem identifier_of_not_inRange (setting : Setting) {n : Int64} (h : ¬ InRange n) :
    identifier setting (.integer n) = .error (.outOfRange n setting) := by
  refine if_neg fun hrange => h ⟨hrange.1, ?_⟩
  have hsize : (UInt32.size : Int) = 4294967296 := rfl
  omega

/-- A value that a setting takes becomes its field. -/
theorem set_of_takes (config : Config) {setting : Setting} {value : Value} (h : setting.Takes value) :
    ∃ changed, config.set setting value = .ok changed ∧ changed.Holds setting value := by
  obtain ⟨htype, hrange⟩ := h
  cases setting <;> cases value <;> try exact htype.elim
  case simulation.integer n =>
    obtain ⟨id, hid, hn⟩ := identifier_of_inRange .simulation (hrange (.inl rfl) n rfl)
    exact ⟨_, congrArg (Except.map _) hid, hn⟩
  case client.integer n =>
    obtain ⟨id, hid, hn⟩ := identifier_of_inRange .client (hrange (.inr rfl) n rfl)
    exact ⟨_, congrArg (Except.map _) hid, hn⟩
  all_goals exact ⟨_, rfl, rfl⟩

/-- A setting changes no other field. -/
theorem sameAt_of_set {config changed : Config} {setting other : Setting} {value : Value}
    (h : config.set setting value = .ok changed) (hne : other ≠ setting) : changed.SameAt config other := by
  have hmap {α : Type} {read : Except ConfigFlaw α} {change : α → Config} (hread : read.map change = .ok changed) :
      ∃ field, change field = changed := by
    cases read with
    | error flaw => cases hread
    | ok field => exact ⟨field, Except.ok.inj hread⟩
  cases setting
  all_goals
    obtain ⟨field, rfl⟩ := hmap h
    cases other <;> first | rfl | exact absurd rfl hne

/-- A value of the wrong type is refused. -/
theorem set_of_not_hasType (config : Config) {setting : Setting} {value : Value} (h : ¬ setting.HasType value) :
    config.set setting value = .error (.wrongType value.inWords setting) := by
  cases setting <;> cases value <;> first | rfl | exact absurd trivial h

/-- The entry of a setting changes what the setting changes. -/
theorem setKey_key (config : Config) (setting : Setting) (value : Value) :
    config.setKey (setting.key, value) = config.set setting value := by
  rw [setKey, (Setting.ofKey?_eq_some_iff setting.key setting).mpr rfl]

/-- A flawed entry is refused, whatever was set before. -/
theorem setKey_of_flawed (config : Config) {entry : String × Value} {flaw : ConfigFlaw} (h : Flawed entry flaw) :
    config.setKey entry = .error flaw := by
  cases h with
  | unknownKey h => rw [setKey, (Setting.ofKey?_eq_none_iff _).mpr h]
  | wrongType h => rw [setKey_key, set_of_not_hasType config h]
  | outOfRange hi h =>
    rw [setKey_key]
    rcases hi with rfl | rfl
    · exact congrArg (Except.map _) (identifier_of_not_inRange .simulation h)
    · exact congrArg (Except.map _) (identifier_of_not_inRange .client h)

/-- An entry is taken or flawed. -/
theorem taken_or_flawed (entry : String × Value) : Taken entry ∨ ∃ flaw, Flawed entry flaw := by
  obtain ⟨key, value⟩ := entry
  by_cases hkey : ∃ setting : Setting, setting.key = key
  · obtain ⟨setting, rfl⟩ := hkey
    by_cases htype : setting.HasType value
    · by_cases hrange : setting.IsIdentifier → ∀ n, value = .integer n → InRange n
      · exact .inl ⟨setting, rfl, htype, hrange⟩
      · push Not at hrange
        obtain ⟨hi, n, rfl, hn⟩ := hrange
        exact .inr ⟨_, .outOfRange hi hn⟩
    · exact .inr ⟨_, .wrongType htype⟩
  · push Not at hkey
    exact .inr ⟨_, .unknownKey hkey⟩

/-! ## All entries -/

/-- Whether each field of a configuration is what its entry says or, where there is none, what it was at the start. -/
def Settled (start : Config) (entries : Entries) (config : Config) : Prop :=
  ∀ setting : Setting, (∃ value, (setting.key, value) ∈ entries ∧ config.Holds setting value) ∨
    (∀ value, (setting.key, value) ∉ entries) ∧ config.SameAt start setting

/-- One more entry before those that settle a configuration. -/
theorem Settled.cons {start changed config : Config} {setting : Setting} {value : Value} {entries : Entries}
    (hset : start.set setting value = .ok changed) (hholds : changed.Holds setting value)
    (h : Settled changed entries config) : Settled start ((setting.key, value) :: entries) config := by
  intro other
  rcases h other with ⟨value', hmem, hvalue⟩ | ⟨hnone, hsame⟩
  · exact .inl ⟨value', List.mem_cons_of_mem _ hmem, hvalue⟩
  by_cases hother : other = setting
  · subst hother
    exact .inl ⟨value, List.mem_cons_self, hsame.holds hholds⟩
  · refine .inr ⟨fun value' hmem => ?_, hsame.trans (sameAt_of_set hset hother)⟩
    rcases List.mem_cons.mp hmem with heq | hmem
    · exact hother (Setting.key_injective (congrArg Prod.fst heq))
    · exact hnone value' hmem

/-- Entries that are all taken settle a configuration. -/
theorem exists_settled {entries : Entries} (h : ∀ entry ∈ entries, Taken entry) (start : Config) :
    ∃ config, entries.foldlM setKey start = .ok config ∧ Settled start entries config := by
  induction entries generalizing start with
  | nil => exact ⟨start, rfl, fun setting => .inr ⟨fun _ => List.not_mem_nil, start.sameAt_refl setting⟩⟩
  | cons entry entries ih =>
    obtain ⟨hentry, hentries⟩ := List.forall_mem_cons.mp h
    obtain ⟨key, value⟩ := entry
    obtain ⟨setting, rfl, htakes⟩ := hentry
    obtain ⟨changed, hset, hholds⟩ := set_of_takes start htakes
    obtain ⟨config, hconfig, hsettled⟩ := ih hentries changed
    refine ⟨config, ?_, hsettled.cons hset hholds⟩
    rw [List.foldlM_cons, setKey_key, hset]
    exact hconfig

/-- The first flawed entry is the error, whatever follows it. -/
theorem foldlM_setKey_of_flawed {before : Entries} (h : ∀ entry ∈ before, Taken entry) {entry : String × Value}
    {flaw : ConfigFlaw} (hflaw : Flawed entry flaw) (after : Entries) (start : Config) :
    (before ++ entry :: after).foldlM setKey start = .error flaw := by
  obtain ⟨config, hconfig, -⟩ := exists_settled h start
  have hentry : (entry :: after).foldlM setKey config = .error flaw := by
    rw [List.foldlM_cons, setKey_of_flawed config hflaw]
    rfl
  rw [List.foldlM_append, hconfig]
  exact hentry

/-- Either all entries are taken, or one is the first that is flawed. -/
theorem taken_or_firstFlaw (entries : Entries) : (∀ entry ∈ entries, Taken entry) ∨ ∃ flaw, FirstFlaw entries flaw := by
  induction entries with
  | nil => exact .inl (by simp)
  | cons first entries ih =>
    rcases taken_or_flawed first with hfirst | ⟨flaw, hflaw⟩
    · rcases ih with hall | ⟨flaw, before, entry, after, rfl, hbefore, hflaw⟩
      · exact .inl (List.forall_mem_cons.mpr ⟨hfirst, hall⟩)
      · exact .inr ⟨flaw, first :: before, entry, after, rfl, List.forall_mem_cons.mpr ⟨hfirst, hbefore⟩, hflaw⟩
    · exact .inr ⟨flaw, [], first, entries, rfl, by simp, hflaw⟩

/-- A flaw is the error of the entries exactly if it is that of their first flawed entry. -/
theorem ofEntries_eq_error_iff (entries : Entries) (flaw : ConfigFlaw) :
    ofEntries entries = .error flaw ↔ FirstFlaw entries flaw := by
  constructor
  · intro h
    rcases taken_or_firstFlaw entries with hall | ⟨flaw', before, entry, after, rfl, hbefore, hflaw⟩
    · obtain ⟨config, hconfig, -⟩ := exists_settled hall standard
      cases hconfig.symm.trans h
    · obtain rfl := Except.error.inj ((foldlM_setKey_of_flawed hbefore hflaw after standard).symm.trans h)
      exact ⟨before, entry, after, rfl, hbefore, hflaw⟩
  · rintro ⟨before, entry, after, rfl, hbefore, hflaw⟩
    exact foldlM_setKey_of_flawed hbefore hflaw after standard

/-- Entries give a configuration exactly if each of them is taken. -/
theorem exists_ofEntries_iff (entries : Entries) :
    (∃ config, ofEntries entries = .ok config) ↔ ∀ entry ∈ entries, Taken entry := by
  constructor
  · rintro ⟨config, hconfig⟩
    rcases taken_or_firstFlaw entries with hall | ⟨flaw, hflaw⟩
    · exact hall
    · cases hconfig.symm.trans ((ofEntries_eq_error_iff entries flaw).mpr hflaw)
  · intro h
    obtain ⟨config, hconfig, -⟩ := exists_settled h standard
    exact ⟨config, hconfig⟩

/-- Entries with different keys settle one configuration only. -/
theorem Settled.unique {start config config' : Config} {entries : Entries} (hn : (entries.map Prod.fst).Nodup)
    (h : Settled start entries config) (h' : Settled start entries config') : config = config' := by
  refine eq_of_sameAt fun setting => ?_
  rcases h setting with ⟨value, hmem, hvalue⟩ | ⟨hnone, hsame⟩
  · rcases h' setting with ⟨value', hmem', hvalue'⟩ | ⟨hnone, -⟩
    · obtain ⟨-, rfl⟩ : setting.key = setting.key ∧ value = value' :=
        Prod.mk.inj (List.inj_on_of_nodup_map hn hmem hmem' rfl)
      exact hvalue.sameAt hvalue'
    · exact absurd hmem (hnone value)
  · rcases h' setting with ⟨value', hmem', -⟩ | ⟨-, hsame'⟩
    · exact absurd hmem' (hnone value')
    · exact hsame.trans hsame'.symm

/-- The configuration of entries with different keys is the one that they settle. -/
theorem ofEntries_eq_ok_iff {entries : Entries} (hn : (entries.map Prod.fst).Nodup) (config : Config) :
    ofEntries entries = .ok config ↔ (∀ entry ∈ entries, Taken entry) ∧ Settled standard entries config := by
  constructor
  · intro h
    have htaken := (exists_ofEntries_iff entries).mp ⟨config, h⟩
    obtain ⟨config', hconfig', hsettled⟩ := exists_settled htaken standard
    obtain rfl := Except.ok.inj (hconfig'.symm.trans h)
    exact ⟨htaken, hsettled⟩
  · rintro ⟨htaken, hsettled⟩
    obtain ⟨config', hconfig', hsettled'⟩ := exists_settled htaken standard
    rw [hsettled.unique hn hsettled']
    exact hconfig'

/-- The order of entries with different keys makes no difference. -/
theorem ofEntries_of_perm {entries entries' : Entries} (hp : entries.Perm entries') (hn : (entries.map Prod.fst).Nodup)
    {config : Config} (h : ofEntries entries = .ok config) : ofEntries entries' = .ok config := by
  obtain ⟨htaken, hsettled⟩ := (ofEntries_eq_ok_iff hn config).mp h
  refine (ofEntries_eq_ok_iff ((hp.map Prod.fst).nodup_iff.mp hn) config).mpr ⟨fun entry hmem => ?_, fun setting => ?_⟩
  · exact htaken entry (hp.mem_iff.mpr hmem)
  · simpa only [hp.mem_iff] using hsettled setting

end Config

end StreamCharts
