import Bridge.Plugins.Manager

/-!
# What a rejected operation leaves behind

An operation of the manager that rejects should have changed nothing. `enablePlugin` and
`disablePlugin` write only after their hook. The others write before a hook that may still reject:
`loadPlugin` stores the plugin and then installs it; `uninstallPlugin` and `updatePlugin` disable
the plugin, and go on to hooks of their own; and `uninstallPlugin` has forgotten the plugin when its
files are removed.
-/

namespace Bridge.Plugins.PluginManager

open Lib Coroutine

def version (m : PluginManager) (pluginId : String) : Option String :=
  (m.plugins.lookup pluginId).bind fun plugin =>
    (m.metadata.read plugin.metadata).map fun data => data.version

structure SameAs (m m' : PluginManager) : Prop where
  loaded : ∀ id, id ∈ m'.plugins ↔ id ∈ m.plugins
  contexts : ∀ id, id ∈ m'.contexts ↔ id ∈ m.contexts
  enabled : ∀ id, id ∈ m'.enabledPlugins ↔ id ∈ m.enabledPlugins
  versions : ∀ id, m'.version id = m.version id

theorem SameAs.refl (m : PluginManager) : SameAs m m :=
  ⟨fun _ => Iff.rfl, fun _ => Iff.rfl, fun _ => Iff.rfl, fun _ => rfl⟩

section Answers

variable (validateManifest : PluginManifest → List String)
    (answer : (q : Await) → Option (Answer q))

def Fails (plugin : Plugin) (h : Hook) (pluginId : String) : Prop :=
  plugin.defines h = true ∧ answer (.hook h pluginId) = none

instance {plugin : Plugin} {h : Hook} {pluginId : String} :
    Decidable (Fails answer plugin h pluginId) :=
  inferInstanceAs (Decidable (_ ∧ _))

/-- The plugin is not enabled, or its `onDisable` does not reject. -/
def Stops (m : PluginManager) (plugin : Plugin) (pluginId : String) : Prop :=
  pluginId ∈ m.enabledPlugins → ¬ Fails answer plugin .onDisable pluginId

/-- The plugin is enabled, or its `onEnable` does not reject. -/
def Starts (m : PluginManager) (plugin : Plugin) (pluginId : String) : Prop :=
  pluginId ∉ m.enabledPlugins → ¬ Fails answer plugin .onEnable pluginId

def Clean (m : PluginManager) : Operation → Prop
  | .loadPlugin pluginPath => ∀ manifest methods,
      answer (.manifest pluginPath) = some manifest → validateManifest manifest = [] →
      manifest.metadata.id ∉ m.plugins → answer (.code pluginPath) = some methods →
      ¬ Fails answer ⟨m.metadata.next, methods⟩ .onInstall manifest.metadata.id
  | .enablePlugin _ | .disablePlugin _ => True
  | .uninstallPlugin pluginId => ∀ plugin, m.plugins.lookup pluginId = some plugin →
      Stops answer m plugin pluginId →
      (pluginId ∈ m.enabledPlugins → ¬ Fails answer plugin .onUninstall pluginId) ∧
      (¬ Fails answer plugin .onUninstall pluginId → answer (.removed pluginId) ≠ none)
  | .updatePlugin pluginId _ => ∀ plugin, m.plugins.lookup pluginId = some plugin →
      pluginId ∈ m.enabledPlugins → Stops answer m plugin pluginId →
      ¬ Fails answer plugin .onUpdate pluginId ∧ ¬ Fails answer plugin .onEnable pluginId

end Answers

/-! ## Running the parts -/

inductive Event
  | loaded (pluginId : String) (plugin : Plugin)
  | called (h : Hook) (pluginId : String)

def Await.event : Await → Option Event
  | .hook h pluginId => some (.called h pluginId)
  | _ => none

def hookCalls (plugin : Plugin) (pluginId : String) (hooks : List Hook) : List Await :=
  (hooks.filter plugin.defines).map (.hook · pluginId)

section Manager

variable (m : PluginManager)

/-- The hook `onDisable`, if the plugin is enabled. -/
def stopping (pluginId : String) : List Hook :=
  if pluginId ∈ m.enabledPlugins then [.onDisable] else []

/-- The hook `onEnable`, if the plugin is not enabled. -/
def starting (pluginId : String) : List Hook :=
  if pluginId ∈ m.enabledPlugins then [] else [.onEnable]

def stopped (pluginId : String) : PluginManager :=
  { m with enabledPlugins := m.enabledPlugins.delete pluginId }

def started (pluginId : String) : PluginManager :=
  { m with enabledPlugins := m.enabledPlugins.add pluginId }

def forgotten (pluginId : String) : PluginManager :=
  { m.stopped pluginId with
    plugins := m.plugins.erase pluginId
    contexts := m.contexts.erase pluginId }

def updated (plugin : Plugin) (pluginId newVersion : String) : PluginManager :=
  let m' := setVersion plugin newVersion (m.stopped pluginId)
  if pluginId ∈ m.enabledPlugins then m'.started pluginId else m'

end Manager

/-- Run alone, the operation rejects and leaves `m'`. -/
def Rejects {α : Type} (answer : (q : Await) → Option (Answer q)) (c : Op α)
    (m m' : PluginManager) : Prop :=
  ∃ e qs, Ran answer c m qs (.error e) m'

/-- It rejects before it has done or called anything. -/
def Refuses {α : Type} (answer : (q : Await) → Option (Answer q)) (c : Op α)
    (m : PluginManager) : Prop :=
  ∃ e qs, Ran answer c m qs (.error e) m ∧ qs.filterMap Await.event = []

variable {answer : (q : Await) → Option (Answer q)} {m m' : PluginManager} {plugin : Plugin}
  {pluginId newVersion : String} {h : Hook} {α β : Type} {c : Op α} {f : α → Op β}
    {a : α} {q : Await}
  {qs : List Await}

theorem Rejects.bind (hc : Rejects answer c m m') : Rejects answer (c >>= f) m m' := by
  obtain ⟨e, qs, hr⟩ := hc
  exact ⟨e, qs, hr.bind_error⟩

variable {m₁ : PluginManager}

theorem Rejects.of_bind (hr : Ran answer c m qs (.ok a) m₁)
    (hf : Rejects answer (f a) m₁ m') : Rejects answer (c >>= f) m m' := by
  obtain ⟨e, qs', hr'⟩ := hf
  exact ⟨e, _, hr.bind hr'⟩

theorem Rejects.run_ne_ok (hc : Rejects answer c m m') : c.run answer m ≠ (.ok a, m₁) := by
  obtain ⟨e, qs, hr⟩ := hc
  exact fun h => absurd (hr.run.symm.trans h) (by simp)

theorem Refuses.rejects (hc : Refuses answer c m) : Rejects answer c m m := by
  obtain ⟨e, qs, hr, -⟩ := hc
  exact ⟨e, qs, hr⟩

theorem Refuses.bind (hc : Refuses answer c m) : Refuses answer (c >>= f) m := by
  obtain ⟨e, qs, hr, hqs⟩ := hc
  exact ⟨e, qs, hr.bind_error, hqs⟩

theorem Refuses.of_bind (hr : Ran answer c m qs (.ok a) m) (hqs : qs.filterMap Await.event = [])
    (hf : Refuses answer (f a) m) : Refuses answer (c >>= f) m := by
  obtain ⟨e, qs', hr', hqs'⟩ := hf
  exact ⟨e, _, hr.bind hr', by rw [List.filterMap_append, hqs, hqs']; rfl⟩

theorem refuses_throw {e : Fault} : Refuses answer (Coroutine.throw e : Op α) m :=
  ⟨e, [], ran_throw, rfl⟩

theorem refuses_await (h : answer q = none) (hq : q.event = none) : Refuses answer (await q) m :=
  ⟨_, [q], ran_awaits_none h, by simp [hq]⟩

theorem refuses_findPlugin (hp : m.plugins.lookup pluginId = none) :
    Refuses answer (findPlugin pluginId) m := by
  refine .of_bind ran_read rfl ?_
  simp only [hp]
  exact refuses_throw

theorem hookCalls_singleton :
    hookCalls plugin pluginId [h] = if plugin.defines h then [.hook h pluginId] else [] := by
  cases hdef : plugin.defines h <;> simp [hookCalls, hdef]

theorem ran_callLifecycle (hf : ¬ Fails answer plugin h pluginId) :
    Ran answer (callLifecycle plugin h pluginId) m (hookCalls plugin pluginId [h]) (.ok ()) m := by
  rw [callLifecycle, hookCalls_singleton]
  split_ifs with hdef
  · cases hans : answer (.hook h pluginId) with
    | none => exact absurd ⟨hdef, hans⟩ hf
    | some x => exact ran_awaits_some hans
  · exact ran_pure

theorem ran_callLifecycle_fails (hf : Fails answer plugin h pluginId) :
    Ran answer (callLifecycle plugin h pluginId) m (hookCalls plugin pluginId [h])
      (.error (.rejected (.hook h pluginId))) m := by
  rw [callLifecycle, hookCalls_singleton, if_pos hf.1, if_pos hf.1]
  exact ran_awaits_none hf.2

theorem rejects_callLifecycle (hf : Fails answer plugin h pluginId) :
    Rejects answer (callLifecycle plugin h pluginId) m m := ⟨_, _, ran_callLifecycle_fails hf⟩

theorem stopped_of_not_mem (hoff : pluginId ∉ m.enabledPlugins) : m.stopped pluginId = m := by
  rw [stopped, LiveSet.delete_of_not_mem hoff]

section Found

variable (hp : m.plugins.lookup pluginId = some plugin)

include hp

theorem ran_findPlugin : Ran answer (findPlugin pluginId) m [] (.ok plugin) m := by
  refine ran_read.quiet_bind ?_
  simp only [hp]
  exact ran_pure

theorem ran_disablePlugin (hs : Stops answer m plugin pluginId) :
    Ran answer (disablePlugin pluginId) m (hookCalls plugin pluginId (stopping m pluginId)) (.ok ())
      (m.stopped pluginId) := by
  refine (ran_findPlugin hp).quiet_bind (ran_read.quiet_bind ?_)
  unfold stopping
  split_ifs with hon
  · exact (ran_callLifecycle (hs hon)).bind_quiet ran_modify
  · rw [stopped_of_not_mem hon]
    exact ran_pure

theorem rejects_disablePlugin (hs : ¬ Stops answer m plugin pluginId) :
    Rejects answer (disablePlugin pluginId) m m := by
  obtain ⟨hon, hf⟩ := Classical.not_imp.mp hs
  refine .of_bind (ran_findPlugin hp) (.of_bind ran_read ?_)
  rw [if_pos hon]
  exact (rejects_callLifecycle (not_not.mp hf)).bind

theorem ran_enablePlugin (hs : Starts answer m plugin pluginId) :
    Ran answer (enablePlugin pluginId) m (hookCalls plugin pluginId (starting m pluginId)) (.ok ())
      (m.started pluginId) := by
  refine (ran_findPlugin hp).quiet_bind (ran_read.quiet_bind ?_)
  unfold starting
  split_ifs with hon
  · rw [started, LiveSet.add, if_pos hon]
    exact ran_pure
  · exact (ran_callLifecycle (hs hon)).bind_quiet ran_modify

theorem rejects_enablePlugin (hs : ¬ Starts answer m plugin pluginId) :
    Rejects answer (enablePlugin pluginId) m m := by
  obtain ⟨hoff, hf⟩ := Classical.not_imp.mp hs
  refine .of_bind (ran_findPlugin hp) (.of_bind ran_read ?_)
  rw [if_neg hoff]
  exact (rejects_callLifecycle (not_not.mp hf)).bind

end Found

section Disabling

/-- `uninstallPlugin` and `updatePlugin` begin alike: they look the plugin up, disable it and call a
hook of their own. -/
def disabling (pluginId : String) (h : Hook) (rest : Plugin → PluginManager → Op Unit) : Op Unit :=
  do
  let plugin ← findPlugin pluginId
  let m ← read
  disableFirst (decide (pluginId ∈ m.enabledPlugins)) plugin pluginId h
  callLifecycle plugin h pluginId
  rest plugin m

/-- What they await until then. -/
def begun (m : PluginManager) (plugin : Plugin) (pluginId : String) (h : Hook) : List Await :=
  hookCalls plugin pluginId (stopping m pluginId) ++
    ((if pluginId ∈ m.enabledPlugins then [.disabled plugin pluginId h] else []) ++
      hookCalls plugin pluginId [h])

variable {rest : Plugin → PluginManager → Op Unit} (hp : m.plugins.lookup pluginId = some plugin)

include hp

theorem rejects_unstopped (hs : ¬ Stops answer m plugin pluginId) :
    Rejects answer (disabling pluginId h rest) m m := by
  refine .of_bind (ran_findPlugin hp) (.of_bind ran_read (Rejects.bind ?_))
  rw [disableFirst, if_pos (decide_eq_true (Classical.not_imp.mp hs).1)]
  exact (rejects_disablePlugin hp hs).bind

variable (hs : Stops answer m plugin pluginId)

include hs

theorem ran_disableFirst :
    Ran answer (disableFirst (decide (pluginId ∈ m.enabledPlugins)) plugin pluginId h) m
      (hookCalls plugin pluginId (stopping m pluginId) ++
        if pluginId ∈ m.enabledPlugins then [.disabled plugin pluginId h] else []) (.ok ())
      (m.stopped pluginId) := by
  simp only [disableFirst, decide_eq_true_eq]
  split_ifs with hon
  · exact (ran_disablePlugin hp hs).bind ran_turn
  · rw [stopped_of_not_mem hon, stopping, if_neg hon]
    exact ran_pure

theorem rejects_disabling (hf : Fails answer plugin h pluginId) :
    Rejects answer (disabling pluginId h rest) m (m.stopped pluginId) :=
  .of_bind (ran_findPlugin hp) (.of_bind ran_read
    (.of_bind (ran_disableFirst hp hs) (rejects_callLifecycle hf).bind))

variable (hf : ¬ Fails answer plugin h pluginId)

include hf

theorem ran_disabling {r : Except Fault Unit}
    (hrest : Ran answer (rest plugin m) (m.stopped pluginId) qs r m') :
    Ran answer (disabling pluginId h rest) m (begun m plugin pluginId h ++ qs) r m' := by
  rw [begun, ← List.append_assoc, List.append_assoc]
  exact (ran_findPlugin hp).quiet_bind (ran_read.quiet_bind
    ((ran_disableFirst hp hs).bind ((ran_callLifecycle hf).bind hrest)))

theorem rejects_after (hrest : Rejects answer (rest plugin m) (m.stopped pluginId) m₁) :
    Rejects answer (disabling pluginId h rest) m m₁ := by
  obtain ⟨e, qs, hr⟩ := hrest
  exact ⟨e, _, ran_disabling hp hs hf hr⟩

end Disabling

/-! ## Atomicity -/

/-- If the operation, run alone, rejects, then it has changed nothing. -/
def Atomic (answer : (q : Await) → Option (Answer q)) (c : Op Unit) (m : PluginManager) : Prop :=
  ∀ e m', c.run answer m = (.error e, m') → SameAs m m'

theorem atomic_of_ok {c : Op Unit} (hr : Ran answer c m qs (.ok ()) m') : Atomic answer c m := by
  intro e m' he
  exact absurd (hr.run.symm.trans he) (by simp)

theorem Rejects.atomic_iff {c : Op Unit} (hc : Rejects answer c m m') : Atomic answer c m ↔
    SameAs m m' := by
  obtain ⟨e, qs, hr⟩ := hc
  constructor
  · exact fun ha => ha e m' hr.run
  · intro hsame e' m₁ he
    obtain ⟨-, rfl⟩ := Prod.mk.inj (hr.run.symm.trans he)
    exact hsame

theorem Rejects.atomic {c : Op Unit} (hc : Rejects answer c m m) : Atomic answer c m :=
  hc.atomic_iff.mpr (.refl m)

theorem sameAs_stopped : SameAs m (m.stopped pluginId) ↔ pluginId ∉ m.enabledPlugins := by
  constructor
  · intro hsame hon
    have hdel := (hsame.enabled pluginId).mpr hon
    exact (LiveSet.mem_delete.mp hdel).1 rfl
  · intro hoff
    rw [stopped_of_not_mem hoff]
    exact .refl m

theorem atomic_of_not_found {f : Plugin → Op Unit} (hp : m.plugins.lookup pluginId = none) :
    Atomic answer (findPlugin pluginId >>= f) m := (refuses_findPlugin hp).bind.rejects.atomic

theorem atomic_enablePlugin (answer : (q : Await) → Option (Answer q)) (m : PluginManager)
    (pluginId : String) : Atomic answer (enablePlugin pluginId) m := by
  cases hp : m.plugins.lookup pluginId with
  | none => exact atomic_of_not_found hp
  | some plugin =>
    by_cases hs : Starts answer m plugin pluginId
    · exact atomic_of_ok (ran_enablePlugin hp hs)
    · exact (rejects_enablePlugin hp hs).atomic

theorem atomic_disablePlugin (answer : (q : Await) → Option (Answer q)) (m : PluginManager)
    (pluginId : String) : Atomic answer (disablePlugin pluginId) m := by
  cases hp : m.plugins.lookup pluginId with
  | none => exact atomic_of_not_found hp
  | some plugin =>
    by_cases hs : Stops answer m plugin pluginId
    · exact atomic_of_ok (ran_disablePlugin hp hs)
    · exact (rejects_disablePlugin hp hs).atomic

section Registered

variable (hp : m.plugins.lookup pluginId = some plugin)
include hp

theorem forall_lookup {P : Plugin → Prop} :
    (∀ plugin, m.plugins.lookup pluginId = some plugin → P plugin) ↔ P plugin := by
  constructor
  · exact fun hall => hall plugin hp
  · intro hP plugin' hp'
    obtain rfl := Option.some.inj (hp.symm.trans hp')
    exact hP

theorem mem_of_lookup : pluginId ∈ m.plugins :=
  AList.lookup_isSome.mp (hp ▸ rfl)

theorem ran_uninstallPlugin (hs : Stops answer m plugin pluginId)
    (hf : ¬ Fails answer plugin .onUninstall pluginId) :
    ∃ r, Ran answer (uninstallPlugin pluginId) m
        (begun m plugin pluginId .onUninstall ++ [.removed pluginId]) r (m.forgotten pluginId) ∧
      (r = .ok () ↔ answer (.removed pluginId) ≠ none) := by
  cases hrem : answer (.removed pluginId) with
  | some x => exact ⟨_, ran_disabling hp hs hf (ran_modify.quiet_bind (ran_awaits_some hrem)), by
    simp⟩
  | none => exact ⟨_, ran_disabling hp hs hf (ran_modify.quiet_bind (ran_awaits_none hrem)), by
    simp⟩

theorem not_sameAs_forgotten : ¬ SameAs m (m.forgotten pluginId) := by
  intro hsame
  have hmem := (hsame.loaded pluginId).mpr (mem_of_lookup hp)
  rw [forgotten, AList.mem_erase] at hmem
  exact hmem.1 rfl

end Registered

theorem atomic_uninstallPlugin_iff : Atomic answer (uninstallPlugin pluginId) m ↔
    ∀ plugin, m.plugins.lookup pluginId = some plugin → Stops answer m plugin pluginId →
      (pluginId ∈ m.enabledPlugins → ¬ Fails answer plugin .onUninstall pluginId) ∧
      (¬ Fails answer plugin .onUninstall pluginId → answer (.removed pluginId) ≠ none) := by
  cases hp : m.plugins.lookup pluginId with
  | none => exact iff_of_true (atomic_of_not_found hp) fun _ h => absurd h (by simp)
  | some plugin =>
    rw [← hp, forall_lookup hp]
    by_cases hs : Stops answer m plugin pluginId
    · by_cases hf : Fails answer plugin .onUninstall pluginId
      · have hr : Rejects answer (uninstallPlugin pluginId) m (m.stopped pluginId) :=
          rejects_disabling hp hs hf
        rw [hr.atomic_iff, sameAs_stopped]
        constructor
        · exact fun hoff _ => ⟨fun hon => absurd hon hoff, fun hnf => absurd hf hnf⟩
        · exact fun hcond hon => (hcond hs).1 hon hf
      · obtain ⟨r, hr, hok⟩ := ran_uninstallPlugin hp hs hf
        cases r with
        | ok => exact iff_of_true (atomic_of_ok hr) fun _ => ⟨fun _ => hf, fun _ => hok.mp rfl⟩
        | error e =>
          refine iff_of_false ?_ fun hcond => nomatch hok.mpr ((hcond hs).2 hf)
          rw [Rejects.atomic_iff ⟨e, _, hr⟩]
          exact not_sameAs_forgotten hp
    · exact iff_of_true (rejects_unstopped hp hs).atomic fun hstops => absurd hstops hs

/-! ## Updating -/

@[simp] theorem setVersion_plugins : (setVersion plugin newVersion m).plugins = m.plugins := by
  unfold setVersion
  split <;> rfl

@[simp] theorem setVersion_enabledPlugins :
    (setVersion plugin newVersion m).enabledPlugins = m.enabledPlugins := by
  unfold setVersion
  split <;> rfl

theorem not_mem_setVersion_stopped :
    pluginId ∉ (setVersion plugin newVersion (m.stopped pluginId)).enabledPlugins := by
  rw [setVersion_enabledPlugins]
  exact fun hmem => (LiveSet.mem_delete.mp hmem).1 rfl

section Update

variable (hp : m.plugins.lookup pluginId = some plugin) (hs : Stops answer m plugin pluginId)
  (hf : ¬ Fails answer plugin .onUpdate pluginId)

include hp hs hf

theorem ran_updatePlugin (he : pluginId ∈ m.enabledPlugins → ¬ Fails answer plugin
    .onEnable pluginId) :
    Ran answer (updatePlugin pluginId newVersion) m (begun m plugin pluginId .onUpdate ++
        if pluginId ∈ m.enabledPlugins then hookCalls plugin pluginId [.onEnable] ++
          [.enabled pluginId] else [])
      (.ok ()) (m.updated plugin pluginId newVersion) := by
  refine ran_disabling hp hs hf (ran_modify.quiet_bind ?_)
  simp only [updated, decide_eq_true_eq]
  split_ifs with hon
  · have hr := ran_enablePlugin (m := setVersion plugin newVersion (m.stopped pluginId))
      (setVersion_plugins.symm ▸ hp) fun _ => he hon
    rw [starting, if_neg not_mem_setVersion_stopped] at hr
    exact hr.bind ran_turn
  · exact ran_pure

theorem rejects_updatePlugin (hon : pluginId ∈ m.enabledPlugins)
    (he : Fails answer plugin .onEnable pluginId) :
    Rejects answer (updatePlugin pluginId newVersion) m
      (setVersion plugin newVersion (m.stopped pluginId)) := by
  refine rejects_after hp hs hf (.of_bind ran_modify ?_)
  rw [if_pos (decide_eq_true hon)]
  exact (rejects_enablePlugin (setVersion_plugins.symm ▸ hp) fun hstarts =>
    hstarts not_mem_setVersion_stopped he).bind

end Update

theorem atomic_updatePlugin_iff : Atomic answer (updatePlugin pluginId newVersion) m ↔
    ∀ plugin, m.plugins.lookup pluginId = some plugin → pluginId ∈ m.enabledPlugins →
      Stops answer m plugin pluginId →
      ¬ Fails answer plugin .onUpdate pluginId ∧ ¬ Fails answer plugin .onEnable pluginId := by
  cases hp : m.plugins.lookup pluginId with
  | none => exact iff_of_true (atomic_of_not_found hp) fun _ h => absurd h (by simp)
  | some plugin =>
    rw [← hp, forall_lookup hp]
    by_cases hs : Stops answer m plugin pluginId
    · by_cases hf : Fails answer plugin .onUpdate pluginId
      · have hr : Rejects answer (updatePlugin pluginId newVersion) m (m.stopped pluginId) :=
          rejects_disabling hp hs hf
        rw [hr.atomic_iff, sameAs_stopped]
        exact ⟨fun hoff hon => absurd hon hoff, fun hcond hon => (hcond hon hs).1 hf⟩
      · by_cases he : pluginId ∈ m.enabledPlugins → ¬ Fails answer plugin .onEnable pluginId
        · exact iff_of_true (atomic_of_ok (ran_updatePlugin hp hs hf he)) fun hon _ => ⟨hf, he hon⟩
        · obtain ⟨hon, hfail⟩ := Classical.not_imp.mp he
          have hfail := not_not.mp hfail
          refine iff_of_false ?_ fun hcond => (hcond hon hs).2 hfail
          rw [(rejects_updatePlugin hp hs hf hon hfail).atomic_iff]
          exact fun hsame => not_mem_setVersion_stopped ((hsame.enabled pluginId).mpr hon)
    · exact iff_of_true (rejects_unstopped hp hs).atomic fun _ hstops => absurd hstops hs

/-! ## Loading -/

section Load

variable {validateManifest : PluginManifest → List String} {pluginPath : String}
  {manifest : PluginManifest} {methods : List String}

structure Loads (validateManifest : PluginManifest → List String)
    (answer : (q : Await) → Option (Answer q)) (m : PluginManager) (pluginPath : String)
    (manifest : PluginManifest) (methods : List String) : Prop where
  found : answer (.manifest pluginPath) = some manifest
  valid : validateManifest manifest = []
  free : manifest.metadata.id ∉ m.plugins
  code : answer (.code pluginPath) = some methods

theorem ran_loadPlugin (hl : Loads validateManifest answer m pluginPath manifest methods) :
    ∃ r, Ran answer (Operation.call validateManifest (.loadPlugin pluginPath)) m
        (.manifest pluginPath :: .code pluginPath ::
          hookCalls ⟨m.metadata.next, methods⟩ manifest.metadata.id [.onInstall]) r
            (store manifest methods m) ∧
      (r = .ok () ↔ ¬ Fails answer ⟨m.metadata.next, methods⟩ .onInstall manifest.metadata.id) := by
  have hstored : ∀ {qs r}, Ran answer (do
      callLifecycle ⟨m.metadata.next, methods⟩ .onInstall manifest.metadata.id
      pure manifest.metadata : Op PluginMetadata) (store manifest methods m) qs r
        (store manifest methods m) →
      Ran answer (loadPlugin validateManifest pluginPath) m
        (.manifest pluginPath :: .code pluginPath :: qs) r (store manifest methods m) := by
    intro qs r hr
    refine (ran_awaits_some hl.found).bind (ran_read.quiet_bind ?_)
    rw [if_neg (not_not.mpr hl.valid), if_neg hl.free]
    exact (ran_awaits_some hl.code).bind (ran_read.quiet_bind (ran_modify.quiet_bind hr))
  by_cases hf : Fails answer ⟨m.metadata.next, methods⟩ .onInstall manifest.metadata.id
  · exact ⟨_, (hstored (ran_callLifecycle_fails hf).bind_error).bind_error, by simp [hf]⟩
  · exact ⟨_, (hstored ((ran_callLifecycle hf).bind_quiet ran_pure)).bind_quiet
      ran_pure, by simp [hf]⟩

theorem refuses_loadPlugin
    (hl : ∀ manifest methods, ¬ Loads validateManifest answer m pluginPath manifest methods) :
    Refuses answer (Operation.call validateManifest (.loadPlugin pluginPath)) m := by
  refine Refuses.bind ?_
  cases hmanifest : answer (.manifest pluginPath) with
  | none => exact (refuses_await hmanifest rfl).bind
  | some manifest =>
    refine .of_bind (ran_awaits_some hmanifest) rfl (.of_bind ran_read rfl ?_)
    split_ifs with hvalid hfree
    · exact refuses_throw
    · exact refuses_throw
    · cases hcode : answer (.code pluginPath) with
      | none => exact (refuses_await hcode rfl).bind
      | some methods => exact absurd ⟨hmanifest, not_not.mp hvalid, hfree, hcode⟩ (hl
        manifest methods)

theorem not_sameAs_store (hfree : manifest.metadata.id ∉ m.plugins) :
    ¬ SameAs m (store manifest methods m) := by
  intro hsame
  refine hfree ((hsame.loaded _).mp ?_)
  exact (AList.mem_insert _).mpr (.inl rfl)

theorem atomic_loadPlugin_iff :
    Atomic answer (Operation.call validateManifest (.loadPlugin pluginPath)) m ↔
      Clean validateManifest answer m (.loadPlugin pluginPath) := by
  by_cases hex : ∃ manifest methods, Loads validateManifest answer m pluginPath manifest methods
  · obtain ⟨manifest, methods, hl⟩ := hex
    have hunique : Clean validateManifest answer m (.loadPlugin pluginPath) ↔
        ¬ Fails answer ⟨m.metadata.next, methods⟩ .onInstall manifest.metadata.id := by
      constructor
      · exact fun hc => hc manifest methods hl.found hl.valid hl.free hl.code
      · intro hnot manifest' methods' hm' _ _ hc'
        obtain rfl := Option.some.inj (hl.found.symm.trans hm')
        obtain rfl := Option.some.inj (hl.code.symm.trans hc')
        exact hnot
    obtain ⟨r, hr, hok⟩ := ran_loadPlugin hl
    rw [hunique, ← hok]
    cases r with
    | ok => exact iff_of_true (atomic_of_ok hr) rfl
    | error e =>
      refine iff_of_false ?_ nofun
      rw [Rejects.atomic_iff ⟨e, _, hr⟩]
      exact not_sameAs_store hl.free
  · have hnone : ∀ manifest methods, ¬ Loads validateManifest answer m pluginPath
      manifest methods :=
      fun manifest methods hl => hex ⟨manifest, methods, hl⟩
    refine iff_of_true (refuses_loadPlugin hnone).rejects.atomic ?_
    exact fun manifest methods hm hv hfree hc => absurd ⟨hm, hv, hfree, hc⟩ (hnone manifest methods)

end Load

/-- **A rejected operation has changed nothing iff nothing rejects after something is written.** -/
theorem atomic_iff_clean (validateManifest : PluginManifest → List String)
    (answer : (q : Await) → Option (Answer q)) (m : PluginManager) (op : Operation) :
    Atomic answer (op.call validateManifest) m ↔ Clean validateManifest answer m op := by
  cases op with
  | loadPlugin pluginPath => exact atomic_loadPlugin_iff
  | enablePlugin pluginId => exact iff_of_true (atomic_enablePlugin answer m pluginId) trivial
  | disablePlugin pluginId => exact iff_of_true (atomic_disablePlugin answer m pluginId) trivial
  | uninstallPlugin pluginId => exact atomic_uninstallPlugin_iff
  | updatePlugin pluginId newVersion => exact atomic_updatePlugin_iff

/-- Everything resolves but one hook, for a plugin `p` with all of them. -/
def allBut (bad : Hook) : (q : Await) → Option (Answer q)
  | .manifest _ => some ⟨⟨"p", "1.0.0"⟩⟩
  | .code _ => some ["onInstall", "onEnable", "onDisable", "onUninstall", "onUpdate"]
  | .hook h _ => if h = bad then none else some ()
  | .disabled .. | .enabled _ | .removed _ => some ()

/-- The manager after `p` has been loaded and enabled. -/
def withPlugin : PluginManager :=
  ((do
    let _ ← loadPlugin (fun _ => []) "plugins/p"
    enablePlugin "p" : Op Unit).run (allBut .onUpdate) empty).2

theorem rejection_half_done :
    (∃ e m', (loadPlugin (fun _ => []) "plugins/p").run (allBut .onInstall) empty = (.error e, m') ∧
      "p" ∈ m'.plugins) ∧
    "p" ∈ withPlugin.enabledPlugins ∧ withPlugin.version "p" = some "1.0.0" ∧
    (∃ e m', (uninstallPlugin "p").run (allBut .onUninstall) withPlugin = (.error e, m') ∧
      "p" ∉ m'.enabledPlugins) ∧
    (∃ e m', (updatePlugin "p" "2.0.0").run (allBut .onUpdate) withPlugin = (.error e, m') ∧
      "p" ∉ m'.enabledPlugins) ∧
    ∃ e m', (updatePlugin "p" "2.0.0").run (allBut .onEnable) withPlugin = (.error e, m') ∧
      "p" ∉ m'.enabledPlugins ∧ m'.version "p" = some "2.0.0" := by
  refine ⟨⟨_, _, rfl, by decide⟩, by decide, by decide, ⟨_, _, rfl, by decide⟩,
    ⟨_, _, rfl, by decide⟩, _, _, rfl, by decide, by decide⟩

end Bridge.Plugins.PluginManager
