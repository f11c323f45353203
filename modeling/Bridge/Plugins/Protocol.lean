import Bridge.Plugins.Atomicity

/-!
# The lifecycle protocol

The hooks of a plugin are called in an order its author relies on: it is installed first, it is
enabled and disabled in turn, it is updated and uninstalled while it is disabled, and nothing comes
after it is uninstalled. `Phase` is that order as an automaton, and a sequence of hooks is a word of
it if `Phase.next` never gets stuck on it.
-/

namespace Bridge.Plugins

open Lib Coroutine List

inductive Phase
  | loaded
  | disabled
  | enabled
  | uninstalled
  deriving DecidableEq

def Phase.next : Phase → Hook → Option Phase
  | .loaded, .onInstall => some .disabled
  | .disabled, .onEnable => some .enabled
  | .disabled, .onUpdate => some .disabled
  | .disabled, .onUninstall => some .uninstalled
  | .enabled, .onDisable => some .disabled
  | _, _ => none

/-- A word of the protocol: `onInstall` first; then `onEnable` and `onDisable` in turn, beginning
with `onEnable`; `onUpdate` only while disabled; `onUninstall` only while disabled, and nothing
after it. -/
def Conforms (hooks : List Hook) : Prop := (hooks.foldlM Phase.next .loaded).isSome = true

instance {hooks : List Hook} : Decidable (Conforms hooks) :=
  inferInstanceAs (Decidable (_ = true))

def Plugin.definesAll (plugin : Plugin) : Bool :=
  [Hook.onInstall, .onEnable, .onDisable, .onUninstall, .onUpdate].all plugin.defines

theorem Plugin.definesAll_iff {plugin : Plugin} :
    plugin.definesAll = true ↔ ∀ h, plugin.defines h = true := by
  rw [definesAll, all_eq_true]
  refine ⟨fun hall h => hall h ?_, fun hall h _ => hall h⟩
  cases h <;> simp

namespace PluginManager

/-! ## Runs and what is seen of them -/

def calls {α : Type} (answer : (q : Await) → Option (Answer q)) (c : Op α) (m : PluginManager) :
    List Event :=
  (c.asked answer m).filterMap Await.event

structure Request where
  operation : Operation
  answer : (q : Await) → Option (Answer q)

/-- No hook rejects. The manifest, the code and the removal of the files may. -/
def Request.Resolves (r : Request) : Prop := ∀ h pluginId, r.answer (.hook h pluginId) ≠ none

section History

variable (validateManifest : PluginManifest → List String)

def Request.after (r : Request) (m : PluginManager) : PluginManager :=
  ((r.operation.call validateManifest).run r.answer m).2

/-- The plugins of `m'` that `m` does not have. -/
def newlyLoaded (m m' : PluginManager) : List Event :=
  m'.plugins.entries.filterMap fun e =>
    if e.1 ∈ m.plugins then none else some (.loaded e.1 e.2)

-- `loadPlugin` stores the plugin before it calls a hook of it
def Request.events (r : Request) (m : PluginManager) : List Event :=
  newlyLoaded m (r.after validateManifest m) ++ calls r.answer (r.operation.call validateManifest) m

def history : PluginManager → List Request → List Event
  | _, [] => []
  | m, r :: rs => r.events validateManifest m ++ history (r.after validateManifest m) rs

end History

def Event.hookOn (pluginId : String) : Event → Option Hook
  | .called h id => if id = pluginId then some h else none
  | .loaded .. => none

def hooksOn (pluginId : String) (events : List Event) : List Hook :=
  events.filterMap (Event.hookOn pluginId)

/-! ## What a request can do -/

variable {answer : (q : Await) → Option (Answer q)} {m m' : PluginManager} {plugin : Plugin}
  {pluginId newVersion : String} {h : Hook} {c : Op Unit} {qs : List Await}

def called (plugin : Plugin) (pluginId : String) (hooks : List Hook) : List Event :=
  (hooks.filter plugin.defines).map (.called · pluginId)

theorem called_append {hooks hooks' : List Hook} : called plugin pluginId (hooks ++ hooks') =
    called plugin pluginId hooks ++ called plugin pluginId hooks' := by
  rw [called, filter_append, map_append]
  rfl

/-- The hook `onEnable`, if the plugin was enabled before an update. -/
def restarting (m : PluginManager) (pluginId : String) : List Hook :=
  if pluginId ∈ m.enabledPlugins then [.onEnable] else []

theorem filterMap_hookCalls {hooks : List Hook} :
    (hookCalls plugin pluginId hooks).filterMap Await.event = called plugin pluginId hooks := by
  rw [hookCalls, filterMap_map]
  exact congrFun filterMap_eq_map' _

theorem filterMap_begun : (begun m plugin pluginId h).filterMap Await.event =
    called plugin pluginId (stopping m pluginId ++ [h]) := by
  have hturn : filterMap Await.event
      (if pluginId ∈ m.enabledPlugins then [.disabled plugin pluginId h] else []) = [] := by
    split <;> rfl
  rw [begun, filterMap_append, filterMap_append, hturn, nil_append, filterMap_hookCalls,
    filterMap_hookCalls, called_append]

/-- The manager that an operation leaves, and the hooks it has called, where no hook rejects. -/
inductive Does (m : PluginManager) : PluginManager → List Event → Prop
  | nothing : Does m m []
  | load (manifest : PluginManifest) (methods : List String)
      (hfree : manifest.metadata.id ∉ m.plugins) :
      Does m (store manifest methods m)
        (called ⟨m.metadata.next, methods⟩ manifest.metadata.id [.onInstall])
  | enable {pluginId : String} {plugin : Plugin} (hp : m.plugins.lookup pluginId = some plugin) :
      Does m (m.started pluginId) (called plugin pluginId (starting m pluginId))
  | disable {pluginId : String} {plugin : Plugin} (hp : m.plugins.lookup pluginId = some plugin) :
      Does m (m.stopped pluginId) (called plugin pluginId (stopping m pluginId))
  | uninstall {pluginId : String} {plugin : Plugin} (hp : m.plugins.lookup pluginId = some plugin) :
      Does m (m.forgotten pluginId) (called plugin pluginId (stopping m pluginId ++ [.onUninstall]))
  | update {pluginId : String} {plugin : Plugin} (newVersion : String)
      (hp : m.plugins.lookup pluginId = some plugin) :
      Does m (m.updated plugin pluginId newVersion)
        (called plugin pluginId (stopping m pluginId ++ [.onUpdate] ++ restarting m pluginId))

theorem does_of_ran {r : Except Fault Unit} (hr : Ran answer c m qs r m')
    (h : Does m m' (qs.filterMap Await.event)) : Does m (c.run answer m).2 (calls answer c m) := by
  rw [calls, hr.run, hr.asked]
  exact h

theorem does_of_refuses (hc : Refuses answer c m) :
    Does m (c.run answer m).2 (calls answer c m) := by
  obtain ⟨e, qs, hr, hqs⟩ := hc
  refine does_of_ran hr ?_
  rw [hqs]
  exact .nothing

theorem does_of_found {f : Plugin → Op Unit}
    (h : ∀ plugin, m.plugins.lookup pluginId = some plugin →
      Does m ((findPlugin pluginId >>= f).run answer m).2
        (calls answer (findPlugin pluginId >>= f) m)) :
    Does m ((findPlugin pluginId >>= f).run answer m).2
      (calls answer (findPlugin pluginId >>= f) m) := by
  cases hp : m.plugins.lookup pluginId with
  | none => exact does_of_refuses (refuses_findPlugin hp).bind
  | some plugin => exact h plugin hp

theorem does_loadPlugin (validateManifest : PluginManifest → List String) (pluginPath : String) :
    Does m ((Operation.call validateManifest (.loadPlugin pluginPath)).run answer m).2
      (calls answer (Operation.call validateManifest (.loadPlugin pluginPath)) m) := by
  by_cases hex : ∃ manifest methods, Loads validateManifest answer m pluginPath manifest methods
  · obtain ⟨manifest, methods, hl⟩ := hex
    obtain ⟨r, hr, -⟩ := ran_loadPlugin hl
    refine does_of_ran hr ?_
    show Does m _ (filterMap Await.event (hookCalls ..))
    rw [filterMap_hookCalls]
    exact .load manifest methods hl.free
  · exact does_of_refuses (refuses_loadPlugin fun manifest methods hl => hex
      ⟨manifest, methods, hl⟩)

section Resolving

variable (hres : ∀ h pluginId, answer (.hook h pluginId) ≠ none)

include hres

theorem not_fails : ¬ Fails answer plugin h pluginId := fun hf => hres h pluginId hf.2

variable (hp : m.plugins.lookup pluginId = some plugin)

include hp

theorem does_uninstallPlugin : Does m ((uninstallPlugin pluginId).run answer m).2
      (calls answer (uninstallPlugin pluginId) m) := by
  obtain ⟨r, hr, -⟩ := ran_uninstallPlugin hp (fun _ => not_fails hres) (not_fails hres)
  refine does_of_ran hr ?_
  rw [filterMap_append, filterMap_begun]
  exact (append_nil _).symm ▸ .uninstall hp

theorem does_updatePlugin : Does m ((updatePlugin pluginId newVersion).run answer m).2
    (calls answer (updatePlugin pluginId newVersion) m) := by
  refine does_of_ran (ran_updatePlugin hp (fun _ => not_fails hres) (not_fails hres)
    fun _ => not_fails hres) ?_
  have hrestart : filterMap Await.event (if pluginId ∈ m.enabledPlugins then
      hookCalls plugin pluginId [.onEnable] ++ [.enabled pluginId] else []) =
      called plugin pluginId (restarting m pluginId) := by
    unfold restarting
    split
    · rw [filterMap_append, filterMap_hookCalls]
      exact append_nil _
    · rfl
  rw [filterMap_append, filterMap_begun, hrestart, ← called_append]
  exact .update newVersion hp

end Resolving

theorem Request.does {r : Request} (hr : r.Resolves)
    (validateManifest : PluginManifest → List String) (m : PluginManager) :
    Does m (r.after validateManifest m) (calls r.answer (r.operation.call validateManifest) m) := by
  obtain ⟨operation, answer⟩ := r
  cases operation with
  | loadPlugin pluginPath => exact does_loadPlugin validateManifest pluginPath
  | enablePlugin pluginId =>
    refine does_of_found fun plugin hp => does_of_ran (ran_enablePlugin hp fun _ => not_fails hr) ?_
    exact filterMap_hookCalls ▸ .enable hp
  | disablePlugin pluginId =>
    refine does_of_found fun plugin hp =>
      does_of_ran (ran_disablePlugin hp fun _ => not_fails hr) ?_
    exact filterMap_hookCalls ▸ .disable hp
  | uninstallPlugin pluginId => exact does_of_found fun plugin hp => does_uninstallPlugin hr hp
  | updatePlugin pluginId newVersion => exact does_of_found fun plugin hp => does_updatePlugin hr hp

/-! ## The automaton beside the manager -/

inductive Watch
  | idle
  | following (ph : Phase)

/-- The automaton reads an event; `none` if it gets stuck. It starts afresh whenever a plugin that
has all the hooks is loaded under the id. -/
def observe (pluginId : String) : Watch → Event → Option Watch
  | w, .loaded id plugin =>
    if id = pluginId then some (if plugin.definesAll then .following .loaded else .idle) else some w
  | .idle, .called .. => some .idle
  | .following ph, .called h id => if id = pluginId then (ph.next h).map .following else
    some (.following ph)

def phaseOf (m : PluginManager) (pluginId : String) : Phase :=
  if pluginId ∈ m.enabledPlugins then .enabled else .disabled

/-- The automaton stands where the manager says: it follows the plugin that is loaded, if that has
all the hooks, and is in the phase the set of the enabled plugins shows. -/
structure Stands (pluginId : String) (m : PluginManager) (w : Watch) : Prop where
  loaded : pluginId ∈ m.enabledPlugins → pluginId ∈ m.plugins
  phase : ∀ plugin, m.plugins.lookup pluginId = some plugin →
    w = if plugin.definesAll then .following (m.phaseOf pluginId) else .idle
  gone : m.plugins.lookup pluginId = none → w = .idle ∨ w = .following .uninstalled

variable {w w' : Watch} {id : String}

theorem Stands.frame (hs : Stands id m w) (hl : m'.plugins.lookup id = m.plugins.lookup id)
    (he : id ∈ m'.enabledPlugins ↔ id ∈ m.enabledPlugins) : Stands id m' w where
  loaded hon := by
    rw [← AList.lookup_isSome, hl, AList.lookup_isSome]
    exact hs.loaded (he.mp hon)
  phase plugin hp := by
    simp only [phaseOf, he]
    exact hs.phase plugin (hl ▸ hp)
  gone hp := hs.gone (hl ▸ hp)

theorem Stands.of_lookup (hp : m.plugins.lookup id = some plugin)
    (hw : w = if plugin.definesAll then .following (m.phaseOf id) else .idle) : Stands id m w where
  loaded _ := mem_of_lookup hp
  phase plugin' hp' := by
    obtain rfl := Option.some.inj (hp.symm.trans hp')
    exact hw
  gone hnone := absurd (hnone.symm.trans hp) (by simp)

theorem observe_called_ne (hne : pluginId ≠ id) (hooks : List Hook) :
    (called plugin pluginId hooks).foldlM (observe id) w = some w := by
  unfold called
  induction hooks.filter plugin.defines with
  | nil => rfl
  | cons h rest ih =>
    have hstep : observe id w (.called h pluginId) = some w := by
      cases w with
      | idle => rfl
      | following ph => exact if_neg hne
    rw [map_cons, foldlM_cons, hstep]
    exact ih

theorem observe_called_idle (hooks : List Hook) :
    (called plugin pluginId hooks).foldlM (observe id) .idle = some .idle := by
  unfold called
  induction hooks.filter plugin.defines with
  | nil => rfl
  | cons h rest ih =>
    rw [map_cons, foldlM_cons]
    exact ih

theorem observe_called (hall : plugin.definesAll = true) (hooks : List Hook) (ph : Phase) :
    (called plugin id hooks).foldlM (observe id) (.following ph) =
      (hooks.foldlM Phase.next ph).map .following := by
  have hself : hooks.filter plugin.defines = hooks :=
    filter_eq_self.mpr fun h _ => Plugin.definesAll_iff.mp hall h
  rw [called, hself]
  clear hself
  induction hooks generalizing ph with
  | nil => rfl
  | cons h rest ih =>
    have hstep : observe id (.following ph) (.called h id) = (ph.next h).map .following :=
      if_pos rfl
    rw [map_cons, foldlM_cons, foldlM_cons, hstep]
    cases ph.next h with
    | none => rfl
    | some ph' => exact ih ph'

theorem Stands.follow {hooks : List Hook} (hs : Stands id m w)
    (hp : m.plugins.lookup id = some plugin) (hp' : m'.plugins.lookup id = some plugin)
    (hnext : hooks.foldlM Phase.next (m.phaseOf id) = some (m'.phaseOf id)) :
    ∃ w', (called plugin id hooks).foldlM (observe id) w = some w' ∧ Stands id m' w' := by
  have hw := hs.phase plugin hp
  by_cases hall : plugin.definesAll = true
  · rw [if_pos hall] at hw
    refine ⟨.following (m'.phaseOf id), ?_, .of_lookup hp' (if_pos hall).symm⟩
    rw [hw]
    exact (observe_called hall hooks _).trans (congrArg (Option.map Watch.following) hnext)
  · rw [if_neg hall] at hw
    refine ⟨.idle, ?_, .of_lookup hp' (if_neg hall).symm⟩
    rw [hw]
    exact observe_called_idle hooks

theorem newlyLoaded_eq_nil (h : ∀ id ∈ m'.plugins, id ∈ m.plugins) : newlyLoaded m m' = [] := by
  refine filterMap_eq_nil_iff.mpr fun e he => if_pos (h e.1 ?_)
  exact mem_keys_of_mem he

theorem newlyLoaded_store {manifest : PluginManifest} {methods : List String}
    (hfree : manifest.metadata.id ∉ m.plugins) : newlyLoaded m (store manifest methods m) =
      [.loaded manifest.metadata.id ⟨m.metadata.next, methods⟩] := by
  have hrest : m.plugins.entries.filterMap (fun e =>
      if e.1 ∈ m.plugins then none else some (Event.loaded e.1 e.2)) = [] := newlyLoaded_eq_nil
        fun _ h => h
  rw [newlyLoaded, store, AList.entries_insert_of_notMem hfree, filterMap_cons, if_neg hfree]
  exact congrArg (_ :: ·) hrest

theorem Stands.step_on {hooks : List Hook} (hs : Stands id m w)
    (hp : m.plugins.lookup pluginId = some plugin) (hplugins : m'.plugins = m.plugins)
    (hother : ∀ {k}, k ≠ pluginId → (k ∈ m'.enabledPlugins ↔ k ∈ m.enabledPlugins))
    (hnext : hooks.foldlM Phase.next (m.phaseOf pluginId) = some (m'.phaseOf pluginId)) :
    ∃ w', (newlyLoaded m m' ++ called plugin pluginId hooks).foldlM (observe id) w = some w' ∧
      Stands id m' w' := by
  rw [newlyLoaded_eq_nil fun k hk => hplugins ▸ hk, nil_append]
  by_cases hid : pluginId = id
  · subst hid
    exact hs.follow hp (hplugins ▸ hp) hnext
  · refine ⟨w, observe_called_ne hid hooks, hs.frame (by rw [hplugins]) (hother (Ne.symm hid))⟩

theorem stopping_next : (stopping m pluginId).foldlM Phase.next (m.phaseOf pluginId) =
    some .disabled := by
  unfold stopping phaseOf
  split <;> rfl

theorem phaseOf_stopped : (m.stopped pluginId).phaseOf pluginId = .disabled :=
  if_neg fun hon => (LiveSet.mem_delete.mp hon).1 rfl

theorem phaseOf_started : (m.started pluginId).phaseOf pluginId = .enabled :=
  if_pos (LiveSet.mem_add.mpr (.inl rfl))

theorem Stands.enable (hs : Stands id m w) (hp : m.plugins.lookup pluginId = some plugin) :
    ∃ w', (newlyLoaded m (m.started pluginId) ++
        called plugin pluginId (starting m pluginId)).foldlM (observe id) w = some w' ∧
      Stands id (m.started pluginId) w' := by
  refine hs.step_on hp rfl ?_ ?_
  · intro k hk
    exact LiveSet.mem_add.trans (or_iff_right hk)
  · rw [phaseOf_started, starting, phaseOf]
    split <;> rfl

theorem Stands.disable (hs : Stands id m w) (hp : m.plugins.lookup pluginId = some plugin) :
    ∃ w', (newlyLoaded m (m.stopped pluginId) ++
        called plugin pluginId (stopping m pluginId)).foldlM (observe id) w = some w' ∧
      Stands id (m.stopped pluginId) w' := by
  refine hs.step_on hp rfl ?_ ?_
  · intro k hk
    exact LiveSet.mem_delete.trans (and_iff_right hk)
  · rw [phaseOf_stopped]
    exact stopping_next

theorem updated_plugins : (m.updated plugin pluginId newVersion).plugins = m.plugins := by
  unfold updated
  split <;> exact setVersion_plugins

theorem mem_enabled_updated {k : String} :
    k ∈ (m.updated plugin pluginId newVersion).enabledPlugins ↔ k ∈ m.enabledPlugins := by
  unfold updated
  split
  · rename_i hon
    simp only [started, setVersion_enabledPlugins, stopped, LiveSet.mem_add, LiveSet.mem_delete]
    by_cases hk : k = pluginId
    · exact iff_of_true (.inl hk) (hk ▸ hon)
    · rw [or_iff_right hk, and_iff_right hk]
  · rename_i hoff
    rw [setVersion_enabledPlugins, stopped_of_not_mem hoff]

theorem Stands.update (hs : Stands id m w) (hp : m.plugins.lookup pluginId = some plugin) :
    ∃ w', (newlyLoaded m (m.updated plugin pluginId newVersion) ++ called plugin pluginId
        (stopping m pluginId ++ [.onUpdate] ++ restarting m pluginId)).foldlM (observe id) w =
        some w' ∧ Stands id (m.updated plugin pluginId newVersion) w' := by
  refine hs.step_on hp updated_plugins (fun _ => mem_enabled_updated) ?_
  simp only [phaseOf, stopping, restarting, mem_enabled_updated]
  split <;> rfl

theorem Stands.uninstall (hs : Stands id m w) (hp : m.plugins.lookup pluginId = some plugin) :
    ∃ w', (newlyLoaded m (m.forgotten pluginId) ++ called plugin pluginId
        (stopping m pluginId ++ [.onUninstall])).foldlM (observe id) w = some w' ∧
      Stands id (m.forgotten pluginId) w' := by
  rw [newlyLoaded_eq_nil fun k hk => (AList.mem_erase.mp hk).2, nil_append]
  by_cases hid : pluginId = id
  · subst hid
    have hgone : (m.forgotten pluginId).plugins.lookup pluginId = none := AList.lookup_erase _ _
    have hoff : pluginId ∉ (m.forgotten pluginId).enabledPlugins :=
      fun hon => (LiveSet.mem_delete.mp hon).1 rfl
    have hend : ∀ {w'}, w' = .idle ∨ w' = .following .uninstalled →
        Stands pluginId (m.forgotten pluginId) w' := fun hw' =>
      ⟨fun hon => absurd hon hoff, fun plugin' hp' => absurd (hgone.symm.trans hp') (by simp),
        fun _ => hw'⟩
    have hw := hs.phase plugin hp
    by_cases hall : plugin.definesAll = true
    · refine ⟨.following .uninstalled, ?_, hend (.inr rfl)⟩
      rw [hw, if_pos hall, observe_called hall, foldlM_append, stopping_next]
      rfl
    · rw [hw, if_neg hall]
      exact ⟨.idle, observe_called_idle _, hend (.inl rfl)⟩
  · refine ⟨w, observe_called_ne hid _, hs.frame ?_ ?_⟩
    · exact AList.lookup_erase_ne (Ne.symm hid)
    · exact LiveSet.mem_delete.trans (and_iff_right (Ne.symm hid))

theorem Stands.load {manifest : PluginManifest} {methods : List String} (hs : Stands id m w)
    (hfree : manifest.metadata.id ∉ m.plugins) :
    ∃ w', (newlyLoaded m (store manifest methods m) ++ called ⟨m.metadata.next, methods⟩
        manifest.metadata.id [.onInstall]).foldlM (observe id) w = some w' ∧
      Stands id (store manifest methods m) w' := by
  rw [newlyLoaded_store hfree, singleton_append, foldlM_cons]
  by_cases hid : manifest.metadata.id = id
  · subst hid
    have hp : (store manifest methods m).plugins.lookup manifest.metadata.id =
        some ⟨m.metadata.next, methods⟩ := AList.lookup_insert _
    have hoff : manifest.metadata.id ∉ (store manifest methods m).enabledPlugins :=
      fun hon => hfree (hs.loaded hon)
    have hphase : (store manifest methods m).phaseOf manifest.metadata.id = .disabled := if_neg hoff
    have hfirst : observe manifest.metadata.id w
        (.loaded manifest.metadata.id ⟨m.metadata.next, methods⟩) =
        some (if Plugin.definesAll ⟨m.metadata.next, methods⟩ then .following .loaded else
          .idle) := by
      cases w <;> exact if_pos rfl
    rw [hfirst, Option.bind_eq_bind, Option.bind_some]
    by_cases hall : Plugin.definesAll ⟨m.metadata.next, methods⟩ = true
    · rw [if_pos hall]
      refine ⟨_, observe_called hall _ _, .of_lookup hp ?_⟩
      rw [if_pos hall, hphase]
    · rw [if_neg hall]
      exact ⟨_, observe_called_idle _, .of_lookup hp (if_neg hall).symm⟩
  · have hfirst : observe id w (.loaded manifest.metadata.id ⟨m.metadata.next, methods⟩) =
      some w := by
      cases w <;> exact if_neg hid
    rw [hfirst, Option.bind_eq_bind, Option.bind_some]
    refine ⟨w, observe_called_ne hid _, hs.frame ?_ Iff.rfl⟩
    exact AList.lookup_insert_ne (Ne.symm hid)

theorem Stands.step {es : List Event} (hs : Stands id m w) (hd : Does m m' es) :
    ∃ w', (newlyLoaded m m' ++ es).foldlM (observe id) w = some w' ∧ Stands id m' w' := by
  cases hd with
  | nothing =>
    rw [newlyLoaded_eq_nil fun _ hk => hk]
    exact ⟨w, rfl, hs⟩
  | load manifest methods hfree => exact hs.load hfree
  | enable hp => exact hs.enable hp
  | disable hp => exact hs.disable hp
  | uninstall hp => exact hs.uninstall hp
  | update newVersion hp => exact hs.update hp

theorem Stands.empty : Stands id empty .idle where
  loaded hon := absurd hon LiveSet.not_mem_empty
  phase _ hp := absurd hp (by simp [PluginManager.empty])
  gone _ := .inl rfl

theorem Stands.run (validateManifest : PluginManifest → List String) (rs : List Request)
    (hres : ∀ r ∈ rs, r.Resolves) (hs : Stands id m w) :
    ∃ w', (history validateManifest m rs).foldlM (observe id) w = some w' := by
  induction rs generalizing m w with
  | nil => exact ⟨w, rfl⟩
  | cons r rs ih =>
    obtain ⟨w₁, hw₁, hs₁⟩ := hs.step (Request.does (hres r mem_cons_self) validateManifest m)
    obtain ⟨w₂, hw₂⟩ := ih (fun r' hr' => hres r' (mem_cons_of_mem r hr')) hs₁
    refine ⟨w₂, ?_⟩
    rw [history, foldlM_append, Request.events, hw₁]
    exact hw₂

theorem observe_between {events : List Event} (hone : ∀ plugin, Event.loaded id plugin ∉ events)
    (ph : Phase) : events.foldlM (observe id) (.following ph) =
      ((hooksOn id events).foldlM Phase.next ph).map .following := by
  induction events generalizing ph with
  | nil => rfl
  | cons e events ih =>
    have hrest : ∀ plugin, Event.loaded id plugin ∉ events := by
      intro plugin hmem
      exact hone plugin (mem_cons_of_mem e hmem)
    rw [foldlM_cons]
    cases e with
    | loaded k plugin =>
      have hk : k ≠ id := by
        rintro rfl
        exact hone plugin mem_cons_self
      rw [show observe id (.following ph) (.loaded k plugin) = some (.following ph) from if_neg hk]
      exact ih hrest ph
    | called h k =>
      by_cases hk : k = id
      · have hhooks : hooksOn id (.called h k :: events) = h :: hooksOn id events :=
          filterMap_cons_some (if_pos hk)
        rw [show observe id (.following ph) (.called h k) = (ph.next h).map .following from if_pos
          hk, hhooks, foldlM_cons]
        cases ph.next h with
        | none => rfl
        | some ph' => exact ih hrest ph'
      · have hhooks : hooksOn id (.called h k :: events) = hooksOn id events :=
          filterMap_cons_none (if_neg hk)
        rw [show observe id (.following ph) (.called h k) = some (.following ph) from if_neg hk,
          hhooks]
        exact ih hrest ph

/-- **Between two loads, the hooks of a plugin are called in the order of the protocol.** -/
theorem lifecycle_conforms (validateManifest : PluginManifest → List String) {rs : List Request}
    (hres : ∀ r ∈ rs, r.Resolves) {before between after : List Event} {pluginId : String}
    {plugin : Plugin} (hsplit : history validateManifest empty rs =
      before ++ .loaded pluginId plugin :: (between ++ after)) (hall : ∀ h, plugin.defines h = true)
    (hone : ∀ plugin', Event.loaded pluginId plugin' ∉ between) :
    Conforms (hooksOn pluginId between) := by
  have hstart : Stands pluginId empty .idle := .empty
  obtain ⟨w', hw'⟩ := hstart.run validateManifest rs hres
  rw [hsplit, foldlM_append] at hw'
  obtain ⟨w, -, hw⟩ := Option.bind_eq_some_iff.mp hw'
  have hload : observe pluginId w (.loaded pluginId plugin) = some (.following .loaded) := by
    cases w <;> exact (if_pos rfl).trans (congrArg some (if_pos (Plugin.definesAll_iff.mpr hall)))
  rw [foldlM_cons, hload, Option.bind_eq_bind, Option.bind_some, foldlM_append] at hw
  obtain ⟨w₁, hw₁, -⟩ := Option.bind_eq_some_iff.mp hw
  rw [observe_between hone] at hw₁
  rw [Conforms, Option.isSome_iff_exists]
  obtain ⟨ph, hph, -⟩ := Option.map_eq_some_iff.mp hw₁
  exact ⟨ph, hph⟩

/-- Nothing rejects; the plugin is `p`, with all the hooks. -/
def agreeing : (q : Await) → Option (Answer q)
  | .manifest _ => some ⟨⟨"p", "1.0.0"⟩⟩
  | .code _ => some ["onInstall", "onEnable", "onDisable", "onUninstall", "onUpdate"]
  | .hook .. | .disabled .. | .enabled _ | .removed _ => some ()

/-- `p` is enabled twice, updated, and uninstalled while it is enabled, and then enabled again. -/
def busyRun : List Request :=
  [⟨.loadPlugin "plugins/p", agreeing⟩, ⟨.loadPlugin "plugins/p", agreeing⟩,
    ⟨.enablePlugin "p", agreeing⟩, ⟨.enablePlugin "p", agreeing⟩,
      ⟨.updatePlugin "p" "2.0.0", agreeing⟩,
    ⟨.uninstallPlugin "p", agreeing⟩, ⟨.enablePlugin "p", agreeing⟩]

theorem lifecycle_conforms_busyRun : ∃ plugin between,
    history (fun _ => []) empty busyRun = [] ++ .loaded "p" plugin :: (between ++ []) ∧
    hooksOn "p" between =
      [.onInstall, .onEnable, .onDisable, .onUpdate, .onEnable, .onDisable, .onUninstall] ∧
    Conforms (hooksOn "p" between) := by
  obtain ⟨plugin, between, hsplit, hall, hone, hhooks⟩ : ∃ plugin between,
      history (fun _ => []) empty busyRun = [] ++ .loaded "p" plugin :: (between ++ []) ∧
      (∀ h, plugin.defines h = true) ∧ (∀ plugin', Event.loaded "p" plugin' ∉ between) ∧
      hooksOn "p" between =
        [.onInstall, .onEnable, .onDisable, .onUpdate, .onEnable, .onDisable, .onUninstall] := by
    refine ⟨⟨0, ["onInstall", "onEnable", "onDisable", "onUninstall", "onUpdate"]⟩,
      [.onInstall, .onEnable, .onDisable, .onUpdate, .onEnable, .onDisable, .onUninstall].map
        (.called · "p"), rfl, ?_, by simp, rfl⟩
    intro h
    cases h <;> decide
  refine ⟨plugin, between, hsplit, hhooks, lifecycle_conforms (fun _ => []) ?_ hsplit hall hone⟩
  intro r hr
  simp only [busyRun, mem_cons, not_mem_nil, or_false] at hr
  rcases hr with rfl | rfl | rfl | rfl | rfl | rfl | rfl <;> exact fun _ _ => by simp [agreeing]

end PluginManager

end Bridge.Plugins
