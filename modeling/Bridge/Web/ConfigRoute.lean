import Bridge.Lib.Json
import Bridge.Web.EnvUpdate
import Mathlib.Algebra.GroupWithZero.Nat

/-!
# The config route

`GET` answers with the stored configuration, with `***` for a key that must not be shown, and `POST`
takes a configuration, merges it into the stored one and writes the keys to `.env`. Nothing tells a
mask from a key: what `GET` has answered, sent back to `POST`, replaces the keys by their masks, in
both files.
-/

namespace Bridge.Web.ConfigRoute

open Lib Utf16 EnvFile List Option

/-! ## The schema -/

inductive Persona
  | newbie
  | individual
  | team
  | enterprise
  | researcher
  deriving DecidableEq

inductive Verbosity
  | minimal
  | normal
  | detailed
  deriving DecidableEq

inductive Automation
  | manual
  | semi
  | full
  deriving DecidableEq

inductive Theme
  | light
  | dark
  | system
  deriving DecidableEq

def Persona.text : Persona → Text
  | .newbie => ofString "newbie"
  | .individual => ofString "individual"
  | .team => ofString "team"
  | .enterprise => ofString "enterprise"
  | .researcher => ofString "researcher"

def Verbosity.text : Verbosity → Text
  | .minimal => ofString "minimal"
  | .normal => ofString "normal"
  | .detailed => ofString "detailed"

def Automation.text : Automation → Text
  | .manual => ofString "manual"
  | .semi => ofString "semi"
  | .full => ofString "full"

def Theme.text : Theme → Text
  | .light => ofString "light"
  | .dark => ofString "dark"
  | .system => ofString "system"

structure Preferences where
  verbosity : Verbosity
  guidance : Bool
  automation : Automation
  theme : Theme
  deriving DecidableEq

/-- What `ConfigSchema.parse` returns. -/
structure Config where
  persona : Persona
  preferences : Preferences
  apiKeys : Option ApiKeys
  deriving DecidableEq

namespace Names

def persona : Text := ofString "persona"
def preferences : Text := ofString "preferences"
def apiKeys : Text := ofString "apiKeys"
def verbosity : Text := ofString "verbosity"
def guidance : Text := ofString "guidance"
def automation : Text := ofString "automation"
def theme : Text := ofString "theme"
def claude : Text := ofString "claude"
def gemini : Text := ofString "gemini"
def vertexProject : Text := ofString "vertexProject"

end Names

section Schema

variable {N α : Type}

/-- `z.enum(values)` -/
def parseEnum (values : List α) (text : α → Text) : Json N → Option α
  | .str s => values.find? fun a => decide (text a = s)
  | _ => none

def parsePersona : Json N → Option Persona :=
  parseEnum [.newbie, .individual, .team, .enterprise, .researcher] Persona.text

def parseVerbosity : Json N → Option Verbosity :=
  parseEnum [.minimal, .normal, .detailed] Verbosity.text

def parseAutomation : Json N → Option Automation :=
  parseEnum [.manual, .semi, .full] Automation.text

def parseTheme : Json N → Option Theme := parseEnum [.light, .dark, .system] Theme.text

/-- `z.boolean()` -/
def parseBoolean : Json N → Option Bool
  | .bool b => some b
  | _ => none

/-- `z.string()` -/
def parseString : Json N → Option Text
  | .str s => some s
  | _ => none

/-- `schema.optional()` -/
def parseOptional (parse : Json N → Option α) : Option (Json N) → Option (Option α)
  | none => some none
  | some j => (parse j).map some

def parseMember (name : Text) (parse : Json N → Option α) (j : Json N) : Option α :=
  (j.prop name).bind parse

/-- `z.object(…)` takes an object, and keeps of it the members it names. -/
def isObject : Json N → Bool
  | .obj _ => true
  | _ => false

def parsePreferences (j : Json N) : Option Preferences :=
  if isObject j then do
    let verbosity ← parseMember Names.verbosity parseVerbosity j
    let guidance ← parseMember Names.guidance parseBoolean j
    let automation ← parseMember Names.automation parseAutomation j
    let theme ← parseMember Names.theme parseTheme j
    some ⟨verbosity, guidance, automation, theme⟩
  else none

def parseApiKeys (j : Json N) : Option ApiKeys :=
  if isObject j then do
    let claude ← parseOptional parseString (j.prop Names.claude)
    let gemini ← parseOptional parseString (j.prop Names.gemini)
    let vertexProject ← parseOptional parseString (j.prop Names.vertexProject)
    some ⟨claude, gemini, vertexProject⟩
  else none

/-- `ConfigSchema.parse` -/
def parseConfig (j : Json N) : Option Config :=
  if isObject j then do
    let persona ← parseMember Names.persona parsePersona j
    let preferences ← parseMember Names.preferences parsePreferences j
    let apiKeys ← parseOptional parseApiKeys (j.prop Names.apiKeys)
    some ⟨persona, preferences, apiKeys⟩
  else none

def Preferences.toJson (p : Preferences) : Json N :=
  .obj [(Names.verbosity, .str p.verbosity.text), (Names.guidance, .bool p.guidance),
    (Names.automation, .str p.automation.text), (Names.theme, .str p.theme.text)]

/-- The members that are not `undefined`. -/
def present (members : List (Text × Option (Json N))) : List (Text × Json N) :=
  members.filterMap fun m => m.2.map fun value => (m.1, value)

def keyMembers (apiKeys : ApiKeys) : List (Text × Json N) :=
  present [(Names.claude, apiKeys.claude.map .str), (Names.gemini, apiKeys.gemini.map .str),
    (Names.vertexProject, apiKeys.vertexProject.map .str)]

end Schema

/-! ## The route -/

section Route

variable {N : Type} [Zero N] [DecidableEq N]

structure World (N : Type) where
  config : Option (Json N)
  env : Option Text

def mask : Text := ofString "***"

def defaultConfig : Json N :=
  .obj [(Names.persona, .str Persona.individual.text),
    (Names.preferences, Preferences.toJson ⟨.normal, true, .semi, .system⟩)]

def isTrue (j : Option (Json N)) : Bool := (j.map (Json.truthy fun n => decide (n = 0))).getD false

/-- The keys as they are shown; a member that is `undefined` is not sent. -/
def maskKeys (apiKeys : Json N) : Json N :=
  .obj (present
    [(Names.claude, if isTrue (apiKeys.prop Names.claude) then some (.str mask) else none),
      (Names.gemini, if isTrue (apiKeys.prop Names.gemini) then some (.str mask) else none),
      (Names.vertexProject, apiKeys.prop Names.vertexProject)])

/-- The `config` that `GET` answers with. Reading a member of `null` throws, and the answer is the
default then, as for a file that is not there. -/
def get (w : World N) : Json N :=
  match w.config with
  | none | some .null => defaultConfig
  | some config =>
    match config.prop Names.apiKeys with
    | some apiKeys =>
      if isTrue (some apiKeys) then config.setProp Names.apiKeys (maskKeys apiKeys) else config
    | none => config

/-- The members that `...value` copies. -/
def spread : Option (Json N) → List (Text × Json N)
  | some (.obj members) => members
  | some (.arr elements) => elements.zipIdx.map fun e => (ofString (toString e.2), e.1)
  | some (.str s) => s.zipIdx.map fun u => (ofString (toString u.2), .str [u.1])
  | _ => []

/-- `{ ...members, ...more }` -/
def merge (members more : List (Text × Json N)) : Json N :=
  more.foldl (fun j m => j.setProp m.1 m.2) (.obj members)

inductive Refusal
  /-- 400, `Invalid configuration data` -/
  | invalid
  /-- 500, `Failed to save configuration` -/
  | failed
  deriving DecidableEq

def mergedKeys (existing : Option (Json N)) (validated : Config) : Json N :=
  merge (spread (existing.bind (Json.prop Names.apiKeys)))
    ((validated.apiKeys.map keyMembers).getD [])

def finalConfig (existing : Option (Json N)) (validated : Config) : Json N :=
  merge (spread existing) [(Names.persona, .str validated.persona.text),
      (Names.preferences, validated.preferences.toJson),
      (Names.apiKeys, mergedKeys existing validated)]

/-- `.env` is written where keys are given. -/
def writeEnv (env : Option Text) : Option ApiKeys → Option Text
  | some apiKeys => some (updateEnvFile env apiKeys)
  | none => env

/-- Reading the keys of a stored `null` throws. -/
def post (w : World N) (body : Json N) : Except Refusal (World N) :=
  match parseConfig body with
  | none => .error .invalid
  | some validated =>
    match w.config with
    | some .null => .error .failed
    | existing => .ok ⟨some (finalConfig existing validated), writeEnv w.env validated.apiKeys⟩

end Route

/-! ## What is accepted -/

variable {name : Text} {k : ApiKeys}

section Accepted

variable {N α : Type}

variable {j : Json N}

theorem parseEnum_eq_some_iff {values : List α} {text : α → Text} {a : α}
    (hfind : ∀ a, (values.find? fun b => decide (text b = text a)) = some a) :
    parseEnum values text j = some a ↔ j = .str (text a) := by
  constructor
  · intro h
    cases j with
    | str s =>
      have hs := find?_some h
      rw [of_decide_eq_true hs]
    | _ => cases h
  · rintro rfl
    exact hfind a

theorem parsePersona_eq_some_iff {a : Persona} : parsePersona j = some a ↔ j = .str a.text := by
  apply parseEnum_eq_some_iff
  intro a
  cases a <;> rfl

theorem parseVerbosity_eq_some_iff {a : Verbosity} :
    parseVerbosity j = some a ↔ j = .str a.text := by
  apply parseEnum_eq_some_iff
  intro a
  cases a <;> rfl

theorem parseAutomation_eq_some_iff {a : Automation} :
    parseAutomation j = some a ↔ j = .str a.text := by
  apply parseEnum_eq_some_iff
  intro a
  cases a <;> rfl

theorem parseTheme_eq_some_iff {a : Theme} : parseTheme j = some a ↔ j = .str a.text := by
  apply parseEnum_eq_some_iff
  intro a
  cases a <;> rfl

theorem parseBoolean_eq_some_iff {b : Bool} : parseBoolean j = some b ↔ j = .bool b := by
  cases j <;> simp [parseBoolean]

theorem parseOptional_string_eq_some_iff {k : Option Text} {j : Option (Json N)} :
    parseOptional parseString j = some k ↔ j = k.map .str := by
  cases j with
  | none => cases k <;> simp [parseOptional]
  | some j => cases j <;> cases k <;> simp [parseOptional, parseString]

theorem parseMember_eq_some_iff {parse : Json N → Option α} {a : α} {v : Json N}
    {members : List (Text × Json N)} (hparse : ∀ j, parse j = some a ↔ j = v) :
    parseMember name parse (.obj members) = some a ↔ members.lookup name = some v := by
  have hprop : (Json.obj members).prop name = members.lookup name := rfl
  rw [parseMember, hprop, bind_eq_some_iff]
  constructor
  · rintro ⟨j, hj, ha⟩
    rw [hj, (hparse j).mp ha]
  · intro hv
    exact ⟨v, hv, (hparse v).mpr rfl⟩

structure HoldsPreferences (members : List (Text × Json N)) (p : Preferences) : Prop where
  verbosity : members.lookup Names.verbosity = some (.str p.verbosity.text)
  guidance : members.lookup Names.guidance = some (.bool p.guidance)
  automation : members.lookup Names.automation = some (.str p.automation.text)
  theme : members.lookup Names.theme = some (.str p.theme.text)

structure HoldsKeys (members : List (Text × Json N)) (k : ApiKeys) : Prop where
  claude : members.lookup Names.claude = k.claude.map .str
  gemini : members.lookup Names.gemini = k.gemini.map .str
  vertexProject : members.lookup Names.vertexProject = k.vertexProject.map .str

theorem parsePreferences_eq_some_iff {p : Preferences} :
    parsePreferences j = some p ↔ ∃ members, j = .obj members ∧ HoldsPreferences members p := by
  cases j with
  | obj members =>
    simp only [parsePreferences, isObject, if_true, bind_eq_bind, bind_eq_some_iff,
      parseMember_eq_some_iff fun _ => parseVerbosity_eq_some_iff,
      parseMember_eq_some_iff fun _ => parseBoolean_eq_some_iff,
      parseMember_eq_some_iff fun _ => parseAutomation_eq_some_iff,
      parseMember_eq_some_iff fun _ => parseTheme_eq_some_iff]
    constructor
    · rintro ⟨verbosity, hv, guidance, hg, automation, ha, theme, ht, hp⟩
      cases hp
      exact ⟨members, rfl, hv, hg, ha, ht⟩
    · rintro ⟨_, hmembers, h⟩
      cases hmembers
      exact ⟨_, h.verbosity, _, h.guidance, _, h.automation, _, h.theme, rfl⟩
  | _ => simp [parsePreferences, isObject]

theorem parseApiKeys_eq_some_iff :
    parseApiKeys j = some k ↔ ∃ members, j = .obj members ∧ HoldsKeys members k := by
  cases j with
  | obj members =>
    simp only [parseApiKeys, isObject, if_true, bind_eq_bind, bind_eq_some_iff,
      parseOptional_string_eq_some_iff]
    constructor
    · rintro ⟨claude, hc, gemini, hg, vertexProject, hv, hk⟩
      cases hk
      exact ⟨members, rfl, hc, hg, hv⟩
    · rintro ⟨_, hmembers, h⟩
      cases hmembers
      exact ⟨_, h.claude, _, h.gemini, _, h.vertexProject, rfl⟩
  | _ => simp [parseApiKeys, isObject]

theorem parseOptional_apiKeys_eq_some_iff {k : Option ApiKeys} {j : Option (Json N)} :
    parseOptional parseApiKeys j = some k ↔
      (j = none ∧ k = none) ∨ ∃ members k', j = some (.obj members) ∧ k = some k' ∧
        HoldsKeys members k' := by
  cases j with
  | none => simp [parseOptional, eq_comm]
  | some j =>
    simp only [parseOptional, map_eq_some_iff, parseApiKeys_eq_some_iff]
    constructor
    · rintro ⟨k', ⟨members, rfl, h⟩, rfl⟩
      exact .inr ⟨members, k', rfl, rfl, h⟩
    · rintro (⟨hj, -⟩ | ⟨members, k', hj, rfl, h⟩)
      · cases hj
      · cases hj
        exact ⟨k', ⟨members, rfl, h⟩, rfl⟩

structure HoldsConfig (members : List (Text × Json N)) (c : Config) : Prop where
  persona : members.lookup Names.persona = some (.str c.persona.text)
  preferences : ∃ p, members.lookup Names.preferences = some (.obj p) ∧
    HoldsPreferences p c.preferences
  apiKeys : (members.lookup Names.apiKeys = none ∧ c.apiKeys = none) ∨
    ∃ keys k, members.lookup Names.apiKeys = some (.obj keys) ∧ c.apiKeys = some k ∧
      HoldsKeys keys k

theorem parseConfig_eq_some_iff {c : Config} :
    parseConfig j = some c ↔ ∃ members, j = .obj members ∧ HoldsConfig members c := by
  cases j with
  | obj members =>
    simp only [parseConfig, isObject, if_true, bind_eq_bind, bind_eq_some_iff,
      parseMember_eq_some_iff fun _ => parsePersona_eq_some_iff, parseOptional_apiKeys_eq_some_iff]
    constructor
    · rintro ⟨persona, hpersona, preferences, hpreferences, apiKeys, hkeys, hc⟩
      cases hc
      obtain ⟨j, hj, hparse⟩ := bind_eq_some_iff.mp hpreferences
      obtain ⟨p, rfl, hp⟩ := parsePreferences_eq_some_iff.mp hparse
      exact ⟨members, rfl, hpersona, ⟨p, hj, hp⟩, hkeys⟩
    · rintro ⟨_, hmembers, h⟩
      cases hmembers
      obtain ⟨p, hj, hp⟩ := h.preferences
      have hparse := parsePreferences_eq_some_iff.mpr ⟨p, rfl, hp⟩
      exact ⟨_, h.persona, _, bind_eq_some_iff.mpr ⟨_, hj, hparse⟩, _, h.apiKeys, rfl⟩
  | _ => simp [parseConfig, isObject]

end Accepted

/-! ## What is written -/

section Written

variable {N : Type}

theorem lookup_eq_none_of_not_mem {α : Type} {members : List (Text × α)}
    (h : name ∉ members.map Prod.fst) : members.lookup name = none := by
  rw [lookup_eq_none_iff]
  intro m hm
  have hne : name ≠ m.1 := fun heq => h (heq ▸ mem_map_of_mem hm)
  simpa using hne

theorem lookup_merge (members more : List (Text × Json N)) (hnodup : (more.map Prod.fst).Nodup) :
    ∃ members', merge members more = .obj members' ∧
      ∀ name, members'.lookup name = (more.lookup name).or (members.lookup name) := by
  induction more generalizing members with
  | nil => exact ⟨members, rfl, fun name => rfl⟩
  | cons m more ih =>
    obtain ⟨hnot, hrest⟩ := nodup_cons.mp hnodup
    obtain ⟨members₁, hset, hself, hother⟩ := Json.setProp_obj m.1 m.2 members
    obtain ⟨members₂, hmerge, hlookup⟩ := ih members₁ hrest
    have hstep : merge members (m :: more) = merge members₁ more := by
      unfold merge
      rw [foldl_cons, hset]
    refine ⟨members₂, hstep.trans hmerge, ?_⟩
    intro name
    rw [hlookup, lookup_cons]
    by_cases hname : name = m.1
    · subst hname
      rw [lookup_eq_none_of_not_mem hnot, hself, beq_self_eq_true]
      rfl
    · rw [hother name hname, beq_false_of_ne hname]

theorem lookup_present {members : List (Text × Option (Json N))}
    (hnodup : (members.map Prod.fst).Nodup) (name : Text) :
    (present members).lookup name = (members.lookup name).join := by
  induction members with
  | nil => rfl
  | cons m members ih =>
    obtain ⟨hnot, hrest⟩ := nodup_cons.mp hnodup
    obtain ⟨key, value⟩ := m
    rw [lookup_cons]
    by_cases hname : name = key
    · subst hname
      have hnone : members.lookup name = none := lookup_eq_none_of_not_mem hnot
      cases value with
      | none =>
        rw [beq_self_eq_true]
        exact (ih hrest).trans (hnone ▸ rfl)
      | some v =>
        rw [beq_self_eq_true]
        exact lookup_cons_self
    · rw [beq_false_of_ne hname, ← ih hrest]
      cases value with
      | none => rfl
      | some v =>
        show lookup name ((key, v) :: present members) = _
        rw [lookup_cons, beq_false_of_ne hname]

theorem present_sublist (members : List (Text × Option (Json N))) :
    ((present members).map Prod.fst).Sublist (members.map Prod.fst) := by
  induction members with
  | nil => exact .slnil
  | cons m members ih =>
    obtain ⟨key, value⟩ := m
    cases value with
    | none => exact ih.cons key
    | some v => exact ih.cons_cons key

theorem nodup_keyNames : [Names.claude, Names.gemini, Names.vertexProject].Nodup := by decide

theorem nodup_configNames : [Names.persona, Names.preferences, Names.apiKeys].Nodup := by decide

theorem lookup_keyMembers (k : ApiKeys) (name : Text) :
    (keyMembers k : List (Text × Json N)).lookup name = (lookup name
      [(Names.claude, k.claude.map Json.str), (Names.gemini, k.gemini.map Json.str),
        (Names.vertexProject, k.vertexProject.map Json.str)]).join := by
  apply lookup_present
  exact nodup_keyNames

theorem holdsKeys_keyMembers (k : ApiKeys) : HoldsKeys (keyMembers k : List (Text × Json N)) k := by
  refine ⟨?_, ?_, ?_⟩
  · exact lookup_keyMembers k Names.claude
  · exact lookup_keyMembers k Names.gemini
  · exact lookup_keyMembers k Names.vertexProject

theorem lookup_keyMembers_of_not_mem
    (h : name ∉ [Names.claude, Names.gemini, Names.vertexProject]) :
    (keyMembers k : List (Text × Json N)).lookup name = none := by
  rw [lookup_keyMembers, lookup_eq_none_of_not_mem h]
  rfl

end Written

/-! ## The round trip -/

section RoundTrip

variable {N : Type}

def masked (k : ApiKeys) : ApiKeys where
  claude := (k.claude.filter (· ≠ [])).map fun _ => mask
  gemini := (k.gemini.filter (· ≠ [])).map fun _ => mask
  vertexProject := k.vertexProject

def Unmasked (key : Option Text) : Prop := key = none ∨ key = some [] ∨ key = some mask

def innerProp (j : Json N) (outer name : Text) : Option (Json N) :=
  (j.prop outer).bind (Json.prop name)

theorem innerProp_obj {members : List (Text × Json N)} {outer : Text} {j : Json N}
    (h : members.lookup outer = some j) (name : Text) :
    innerProp (.obj members) outer name = j.prop name := by
  have hprop : (Json.obj members).prop outer = some j := h
  rw [innerProp, hprop, bind_some]

def Consistent (env : Option Text) (c : Config) : Prop :=
  ∀ k, c.apiKeys = some k → ∀ u ∈ updates k, variableOf (env.getD []) u.1 = some u.2

theorem masked_or_eq_iff (k : Option Text) :
    (((k.filter (· ≠ [])).map fun _ => mask).map (Json.str : Text → Json N)).or (k.map .str) =
      k.map .str ↔ Unmasked k := by
  cases k with
  | none => simp [Unmasked]
  | some value =>
    cases value with
    | nil => exact ⟨fun _ => .inr (.inl rfl), fun _ => rfl⟩
    | cons u value =>
      show some (Json.str mask) = some (.str (u :: value)) ↔ _
      simp [Unmasked, eq_comm]

theorem finalConfig_obj (members : List (Text × Json N)) (validated : Config) :
    ∃ members' keys', finalConfig (some (.obj members)) validated = .obj members' ∧
      members'.lookup Names.persona = some (.str validated.persona.text) ∧
      members'.lookup Names.preferences = some validated.preferences.toJson ∧
      members'.lookup Names.apiKeys = some (.obj keys') ∧
      ∀ name, keys'.lookup name = (((validated.apiKeys.map keyMembers).getD []).lookup name).or
        ((spread (members.lookup Names.apiKeys)).lookup name) := by
  have hnodup : ((((validated.apiKeys.map keyMembers).getD [] : List (Text × Json N))).map
      Prod.fst).Nodup := by
    cases validated.apiKeys with
    | none => exact nodup_nil
    | some k => exact (present_sublist _).nodup nodup_keyNames
  obtain ⟨keys', hkeys, hlookup⟩ := lookup_merge (spread (members.lookup Names.apiKeys)) _ hnodup
  have hmerged : mergedKeys (some (.obj members)) validated = .obj keys' := hkeys
  obtain ⟨members', hfinal, hmembers⟩ := lookup_merge members
    [(Names.persona, .str validated.persona.text),
      (Names.preferences, validated.preferences.toJson), (Names.apiKeys, .obj keys')]
    nodup_configNames
  refine ⟨members', keys', ?_, ?_, ?_, ?_, hlookup⟩
  · unfold finalConfig
    rw [hmerged]
    exact hfinal
  · exact hmembers Names.persona
  · exact hmembers Names.preferences
  · exact hmembers Names.apiKeys

theorem roundTrip_keys {members keys' : List (Text × Json N)} {c : Config}
    (h : HoldsConfig members c) (hkeys' : ∀ name, keys'.lookup name =
      ((((c.apiKeys.map masked).map keyMembers).getD []).lookup name).or
        ((spread (members.lookup Names.apiKeys)).lookup name)) :
    (keys'.lookup Names.claude = innerProp (.obj members) Names.apiKeys Names.claude ↔
      Unmasked (c.apiKeys.bind ApiKeys.claude)) ∧
    (keys'.lookup Names.gemini = innerProp (.obj members) Names.apiKeys Names.gemini ↔
      Unmasked (c.apiKeys.bind ApiKeys.gemini)) ∧
    ∀ name, name ≠ Names.claude → name ≠ Names.gemini →
      keys'.lookup name = innerProp (.obj members) Names.apiKeys name := by
  obtain ⟨-, -, ⟨hnone, hkeys⟩ | ⟨keys, k, hsome, hkeys, hholds⟩⟩ := h
  · have hinner : ∀ name, innerProp (.obj members) Names.apiKeys name = none := by
      intro name
      have hprop : (Json.obj members).prop Names.apiKeys = none := hnone
      rw [innerProp, hprop]
      rfl
    have hlookup : ∀ name, keys'.lookup name = none := by
      intro name
      rw [hkeys', hkeys, hnone]
      rfl
    rw [hkeys]
    refine ⟨?_, ?_, ?_⟩
    · exact iff_of_true ((hlookup _).trans (hinner _).symm) (.inl rfl)
    · exact iff_of_true ((hlookup _).trans (hinner _).symm) (.inl rfl)
    · exact fun name _ _ => (hlookup name).trans (hinner name).symm
  · have hinner : ∀ name, innerProp (.obj members) Names.apiKeys name = keys.lookup name :=
      innerProp_obj hsome
    have hlookup : ∀ name, keys'.lookup name =
        ((keyMembers (masked k)).lookup name).or (keys.lookup name) := by
      intro name
      rw [hkeys', hkeys, hsome]
      rfl
    have hmasked : HoldsKeys (keyMembers (masked k)) (masked k) := holdsKeys_keyMembers (N := N) _
    rw [hkeys]
    refine ⟨?_, ?_, ?_⟩
    · rw [hlookup, hinner, hmasked.claude, hholds.claude]
      exact masked_or_eq_iff k.claude
    · rw [hlookup, hinner, hmasked.gemini, hholds.gemini]
      exact masked_or_eq_iff k.gemini
    · intro name hclaude hgemini
      rw [hlookup, hinner]
      by_cases hvertex : name = Names.vertexProject
      · rw [hvertex, hmasked.vertexProject, hholds.vertexProject]
        exact or_self
      · rw [lookup_keyMembers_of_not_mem (by simp [hclaude, hgemini, hvertex])]
        rfl

theorem roundTrip_preferences {p : List (Text × Json N)} {preferences : Preferences}
    (h : HoldsPreferences p preferences) : (∀ name, preferences.toJson.prop name = p.lookup name) ↔
      ∀ name ∉ [Names.verbosity, Names.guidance, Names.automation, Names.theme],
        p.lookup name = none := by
  have hprop : ∀ name, (preferences.toJson : Json N).prop name = lookup name
      [(Names.verbosity, .str preferences.verbosity.text),
        (Names.guidance, .bool preferences.guidance),
        (Names.automation, .str preferences.automation.text),
        (Names.theme, .str preferences.theme.text)] := fun _ => rfl
  constructor
  · intro hsame name hname
    rw [← hsame, hprop]
    exact lookup_eq_none_of_not_mem hname
  · intro hnone name
    by_cases hname : name ∈ [Names.verbosity, Names.guidance, Names.automation, Names.theme]
    · simp only [mem_cons, not_mem_nil, or_false] at hname
      obtain rfl | rfl | rfl | rfl := hname
      · exact h.verbosity.symm
      · exact h.guidance.symm
      · exact h.automation.symm
      · exact h.theme.symm
    · rw [hnone name hname, hprop]
      exact lookup_eq_none_of_not_mem hname

section Env

variable {env : Option Text}

theorem filter_masked {key : Option Text} (h : Unmasked key) :
    ((key.filter (· ≠ [])).map fun _ => mask).filter (· ≠ []) = key.filter (· ≠ []) := by
  obtain rfl | rfl | rfl := h
  · rfl
  · rfl
  · rfl

theorem updates_masked (hclaude : Unmasked k.claude) (hgemini : Unmasked k.gemini) :
    updates (masked k) = updates k := by
  simp only [updates, masked, filterMap_cons, filter_masked hclaude, filter_masked hgemini]

theorem isPlain_of_unmasked {key : Option Text} {v : Text} (h : Unmasked key)
    (hkey : key = some v) : IsPlain v := by
  obtain rfl | rfl | rfl := h
  · cases hkey
  · cases hkey
    trivial
  · cases hkey
    decide

theorem roundTrip_plain (hcons : ∀ u ∈ updates k, variableOf (env.getD []) u.1 = some u.2)
    (hclaude : Unmasked k.claude) (hgemini : Unmasked k.gemini)
    (hvertex : ∀ v, k.vertexProject = some v → IsPlain v) : (∀ u ∈ updates k, Writable u) ∧
      ∀ name, variableOf (updateEnvFile env k) name = variableOf (env.getD []) name := by
  have hplain : ∀ u ∈ updates k, IsPlain u.2 := by
    intro u hu
    obtain ⟨-, hkey⟩ | ⟨-, hkey⟩ | ⟨-, hkey⟩ := mem_updates hu
    · exact isPlain_of_unmasked hclaude hkey
    · exact isPlain_of_unmasked hgemini hkey
    · exact hvertex _ hkey
  constructor
  · intro u hu
    exact ⟨isName_of_mem_updates hu, (value_of_variableOf (hcons u hu)).2, hplain u hu⟩
  · intro name
    apply variableOf_updateEnvFile
    exact fun u hu => ⟨isName_of_mem_updates hu, hplain u hu, hcons u hu⟩

theorem updates_vertexProject {v : Text} (h : v ≠ []) (claude gemini : Option Text) :
    updates ⟨claude, gemini, some v⟩ = updates ⟨claude, gemini, none⟩ ++ [(vertexVariable, v)] := by
  have hkey : (some v).filter (· ≠ []) = some v := by simp [h]
  simp only [updates, filterMap_cons, filterMap_nil, hkey, filter_none, map_none, map_some]
  cases claude.filter (· ≠ []) <;> cases gemini.filter (· ≠ []) <;> rfl

/-- **Keys that are their own masks are written back.** No variable changes, also if the project is
written to a new line, where no `$` stands for anything. -/
theorem roundTrip_env (hcons : ∀ u ∈ updates k, variableOf (env.getD []) u.1 = some u.2)
    (hclaude : Unmasked k.claude) (hgemini : Unmasked k.gemini)
    (hvertex : ∀ v, k.vertexProject = some v →
      IsPlain v ∨ firstLine vertexVariable (env.getD []) = none) (name : Text) :
    variableOf (updateEnvFile env (masked k)) name = variableOf (env.getD []) name := by
  rw [variableOf_updated, updates_masked hclaude hgemini, ← variableOf_updated]
  by_cases hplain : ∀ v, k.vertexProject = some v → IsPlain v
  · exact (roundTrip_plain hcons hclaude hgemini hplain).2 name
  obtain ⟨claude, gemini, project⟩ := k
  push Not at hplain
  obtain ⟨v, hv, hspecial⟩ := hplain
  cases hv
  have hne : v ≠ [] := by
    rintro rfl
    exact hspecial trivial
  have hnew := (hvertex v rfl).resolve_left hspecial
  have hupdates := updates_vertexProject hne claude gemini
  rw [hupdates, forall_mem_append] at hcons
  obtain ⟨hwritable, hkept⟩ := roundTrip_plain (k := ⟨claude, gemini, none⟩) hcons.1 hclaude hgemini
    fun v hv => by cases hv
  have hvalue := hcons.2 _ (mem_singleton_self _)
  have hfirst : firstLine vertexVariable
      (setVariables (env.getD []) (updates ⟨claude, gemini, none⟩)) = none := by
    refine (setVariables_keeps (fun u hu content => ?_) _).trans hnew
    refine firstLine_setVariable_of_ne (hwritable u hu) (isName_of_all (by decide)) ?_ content
    obtain ⟨hname, -⟩ | ⟨hname, -⟩ | ⟨-, hkey⟩ := mem_updates hu
    · rw [hname]
      decide
    · rw [hname]
      decide
    · cases hkey
  simp only [variableOf_updated] at hkept ⊢
  rw [hupdates, setVariables, foldl_append]
  refine (variableOf_setVariable_of_new (isName_of_all (by decide)) hfirst ?_ name).trans
    (hkept name)
  exact (hkept vertexVariable).trans hvalue

end Env

variable [Zero N] [DecidableEq N]

theorem isTrue_str (k : Option Text) :
    (if isTrue (k.map Json.str : Option (Json N)) then some (.str mask) else none) =
      ((k.filter (· ≠ [])).map fun _ => mask).map (Json.str : Text → Json N) := by
  cases k with
  | none => rfl
  | some value =>
    cases value with
    | nil => rfl
    | cons u value => rfl

theorem maskKeys_obj {keys : List (Text × Json N)} (h : HoldsKeys keys k) :
    maskKeys (.obj keys) = .obj (keyMembers (masked k)) := by
  have hclaude : (Json.obj keys).prop Names.claude = k.claude.map .str := h.claude
  have hgemini : (Json.obj keys).prop Names.gemini = k.gemini.map .str := h.gemini
  have hvertex : (Json.obj keys).prop Names.vertexProject = k.vertexProject.map .str :=
    h.vertexProject
  unfold maskKeys keyMembers
  rw [hclaude, hgemini, hvertex, isTrue_str, isTrue_str]
  rfl

theorem parseConfig_get {w : World N} {members : List (Text × Json N)} {c : Config}
    (hw : w.config = some (.obj members)) (h : HoldsConfig members c) :
    parseConfig (get w) = some { c with apiKeys := c.apiKeys.map masked } := by
  rw [parseConfig_eq_some_iff]
  obtain ⟨hpersona, hpreferences, ⟨hnone, hkeys⟩ | ⟨keys, k, hsome, hkeys, hholds⟩⟩ := h
  · have hget : get w = .obj members := by
      have hprop : (Json.obj members).prop Names.apiKeys = none := hnone
      simp [get, hw, hprop]
    exact ⟨members, hget, hpersona, hpreferences, .inl ⟨hnone, by rw [hkeys]; rfl⟩⟩
  · obtain ⟨members', hset, hself, hother⟩ :=
      Json.setProp_obj Names.apiKeys (maskKeys (.obj keys)) members
    have hget : get w = .obj members' := by
      have hprop : (Json.obj members).prop Names.apiKeys = some (.obj keys) := hsome
      simp only [get, hw, hprop]
      exact hset
    refine ⟨members', hget, ?_, ?_, ?_⟩
    · rw [hother _ (by decide)]
      exact hpersona
    · rw [hother _ (by decide)]
      exact hpreferences
    · right
      refine ⟨keyMembers (masked k), masked k, ?_, by rw [hkeys]; rfl, holdsKeys_keyMembers _⟩
      rw [hself, maskKeys_obj hholds]

/-- **Reading the configuration and writing it back**: what stays as it was, and when. -/
theorem round_trip (w : World N) (stored : Json N) (c : Config) (hw : w.config = some stored)
    (hschema : parseConfig stored = some c) (henv : Consistent w.env c) :
    ∃ w' stored', post w (get w) = .ok w' ∧ w'.config = some stored' ∧
      stored'.prop Names.persona = stored.prop Names.persona ∧
      ((∀ name, innerProp stored' Names.preferences name =
          innerProp stored Names.preferences name) ↔
        ∀ name ∉ [Names.verbosity, Names.guidance, Names.automation, Names.theme],
          innerProp stored Names.preferences name = none) ∧
      (innerProp stored' Names.apiKeys Names.claude = innerProp stored Names.apiKeys Names.claude ↔
        Unmasked (c.apiKeys.bind ApiKeys.claude)) ∧
      (innerProp stored' Names.apiKeys Names.gemini = innerProp stored Names.apiKeys Names.gemini ↔
        Unmasked (c.apiKeys.bind ApiKeys.gemini)) ∧
      (∀ name, name ≠ Names.claude → name ≠ Names.gemini →
        innerProp stored' Names.apiKeys name = innerProp stored Names.apiKeys name) ∧
      (Unmasked (c.apiKeys.bind ApiKeys.claude) → Unmasked (c.apiKeys.bind ApiKeys.gemini) →
        (∀ v, c.apiKeys.bind ApiKeys.vertexProject = some v →
          IsPlain v ∨ firstLine vertexVariable (w.env.getD []) = none) →
        ∀ name, variableOf (w'.env.getD []) name = variableOf (w.env.getD []) name) := by
  obtain ⟨members, rfl, hholds⟩ := parseConfig_eq_some_iff.mp hschema
  obtain ⟨members', keys', hfinal, hpersona', hpreferences', hapiKeys', hkeys'⟩ :=
    finalConfig_obj members { c with apiKeys := c.apiKeys.map masked }
  have hpost : post w (get w) =
      .ok ⟨some (.obj members'), writeEnv w.env (c.apiKeys.map masked)⟩ := by
    simp [post, parseConfig_get hw hholds, hw, hfinal]
  obtain ⟨p, hp, hpreferences⟩ := hholds.preferences
  have hinner := innerProp_obj hapiKeys'
  obtain ⟨hclaude, hgemini, hother⟩ := roundTrip_keys hholds hkeys'
  refine ⟨_, _, hpost, rfl, ?_, ?_, ?_, ?_, ?_, ?_⟩
  · exact hpersona'.trans hholds.persona.symm
  · simp only [innerProp_obj hpreferences', innerProp_obj hp]
    exact roundTrip_preferences hpreferences
  · rw [hinner]
    exact hclaude
  · rw [hinner]
    exact hgemini
  · intro name hne hne'
    rw [hinner]
    exact hother name hne hne'
  · intro hc hg hv name
    cases hk : c.apiKeys with
    | none => rfl
    | some k =>
      rw [hk] at hc hg hv
      exact roundTrip_env (henv k hk) hc hg hv name

end RoundTrip

def storedWith (apiKeys : ApiKeys) : Json Nat :=
  .obj [(Names.persona, .str Persona.team.text),
    (Names.preferences, Preferences.toJson ⟨.minimal, true, .full, .dark⟩),
    (Names.apiKeys, .obj (keyMembers apiKeys))]

def projectOnly : World Nat :=
  ⟨some (storedWith ⟨none, none, some (ofString "proj")⟩),
    some (ofString "VERTEX_AI_PROJECT=proj\n")⟩

theorem round_trip_projectOnly : ∃ w', post projectOnly (get projectOnly) = .ok w' ∧
    variableOf (w'.env.getD []) vertexVariable = some (ofString "proj") := by
  have henv : Consistent projectOnly.env
      ⟨.team, ⟨.minimal, true, .full, .dark⟩, some ⟨none, none, some (ofString "proj")⟩⟩ := by
    intro k hk
    cases hk
    decide +kernel
  obtain ⟨w', -, hpost, -, -, -, -, -, -, hvariables⟩ :=
    round_trip projectOnly _ _ rfl rfl henv
  refine ⟨w', hpost, ?_⟩
  rw [hvariables (.inl rfl) (.inl rfl) (by rintro v ⟨⟩; exact .inl (by decide +kernel))]
  decide +kernel

def oneKey : World Nat :=
  ⟨some (storedWith ⟨some (ofString "sk-1"), none, none⟩), some (ofString "CLAUDE_API_KEY=sk-1\n")⟩

theorem key_lost : (∃ c, oneKey.config.bind parseConfig = some c ∧ Consistent oneKey.env c) ∧
    ∃ w', post oneKey (get oneKey) = .ok w' ∧
      w'.config.bind (innerProp · Names.apiKeys Names.claude) = some (.str mask) ∧
      variableOf (w'.env.getD []) claudeVariable = some mask := by
  refine ⟨⟨_, rfl, ?_⟩, _, rfl, rfl, ?_⟩
  · intro k hk
    cases hk
    decide +kernel
  · decide +kernel

end Bridge.Web.ConfigRoute
