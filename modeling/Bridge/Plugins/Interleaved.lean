import Bridge.Plugins.Manager

/-!
# Operations that overlap

Every operation checks before it awaits a hook and writes after, so two operations on one plugin can
both pass their checks. `enablePlugin` adds the id of a plugin that has been uninstalled while
`onEnable` was running; `uninstallPlugin` forgets a plugin that has been enabled again while
`onUninstall` was running. Either way an enabled id is left without a plugin, and `callHook` fails
for all plugins from then on.
-/

namespace Bridge.Plugins.PluginManager

open Lib Coroutine

/-- Every enabled plugin is loaded, and the loaded plugins are those with a context. -/
structure Consistent (m : PluginManager) : Prop where
  enabled : ∀ id, id ∈ m.enabledPlugins → id ∈ m.plugins
  contexts : ∀ id, id ∈ m.plugins ↔ id ∈ m.contexts

/-- When `onEnable` resolves the plugin is still loaded; when `uninstallPlugin` goes on to forget
the plugin, the plugin is not enabled. -/
def Undisturbed (m : PluginManager) : (q : Await) → Option (Answer q) → Prop
  | .hook .onEnable id, some _ => id ∈ m.plugins
  | .hook .onUninstall id, some _ => id ∉ m.enabledPlugins
  -- without a hook of its own, `uninstallPlugin` forgets the plugin as soon as it is disabled
  | .disabled plugin id .onUninstall, _ =>
    plugin.defines .onUninstall = false → id ∉ m.enabledPlugins
  | _, _ => True

abbrev Keeps {α : Type} (Post : α → PluginManager → Prop) (c : Op α) (m : PluginManager) : Prop :=
  c.Safe Consistent Undisturbed Post m

variable {m : PluginManager} {plugin : Plugin} {pluginId : String} {α : Type}

namespace Consistent

theorem empty : Consistent empty where
  enabled _ hid := absurd hid LiveSet.not_mem_empty
  contexts _ := Iff.rfl

section Consistent

variable (h : m.Consistent)
include h

theorem add (hmem : pluginId ∈ m.plugins) :
    Consistent { m with enabledPlugins := m.enabledPlugins.add pluginId } where
  enabled id hid := by
    obtain rfl | hid := LiveSet.mem_add.mp hid
    · exact hmem
    · exact h.enabled id hid
  contexts := h.contexts

theorem delete : Consistent { m with enabledPlugins := m.enabledPlugins.delete pluginId } where
  enabled id hid := h.enabled id (LiveSet.mem_delete.mp hid).2
  contexts := h.contexts

theorem erase (hoff : pluginId ∉ m.enabledPlugins) : Consistent { m with
      plugins := m.plugins.erase pluginId, contexts := m.contexts.erase pluginId } where
  enabled id hid := AList.mem_erase.mpr ⟨fun heq => hoff (heq ▸ hid), h.enabled id hid⟩
  contexts id := by rw [AList.mem_erase, AList.mem_erase, h.contexts]

theorem store (manifest : PluginManifest) (methods : List String) :
    Consistent (store manifest methods m) where
  enabled id hid := (AList.mem_insert _).mpr (.inr (h.enabled id hid))
  contexts id := by
    show id ∈ AList.insert _ _ _ ↔ id ∈ AList.insert _ _ _
    rw [AList.mem_insert, AList.mem_insert, h.contexts]

theorem setVersion (plugin : Plugin) (newVersion : String) :
    Consistent (setVersion plugin newVersion m) := by
  unfold PluginManager.setVersion
  split
  · exact h
  · exact ⟨h.enabled, h.contexts⟩

end Consistent

end Consistent

/-! ## The parts of the operations -/

section Consistent

variable (h : m.Consistent)
include h

theorem keeps_findPlugin : Keeps (fun _ m' => m'.Consistent ∧ pluginId ∈ m'.plugins)
    (findPlugin pluginId) m := by
  refine safe_read_bind ?_
  cases hp : m.plugins.lookup pluginId with
  | none => exact safe_throw h
  | some plugin => exact safe_pure ⟨h, AList.lookup_isSome.mp (hp ▸ rfl)⟩

theorem keeps_callLifecycle {Post : Unit → PluginManager → Prop} {hook : Hook}
    (hno : plugin.defines hook = false → Post () m)
    (hyes : ∀ m', m'.Consistent → Undisturbed m' (.hook hook pluginId) (some ()) → Post () m') :
    Keeps Post (callLifecycle plugin hook pluginId) m := by
  unfold callLifecycle
  split
  · exact safe_awaits h fun m' _ hm' hok => hyes m' hm' hok
  · rename_i hdef
    exact safe_pure (hno (Bool.not_eq_true _ ▸ hdef))

theorem keeps_enablePlugin : Keeps (fun _ => Consistent) (enablePlugin pluginId) m := by
  refine (keeps_findPlugin h).bind ?_
  rintro plugin m ⟨h, hmem⟩
  refine safe_read_bind ?_
  split
  · exact safe_pure h
  · have hhook : Keeps (fun _ m' => m'.Consistent ∧ pluginId ∈ m'.plugins)
        (callLifecycle plugin .onEnable pluginId) m :=
      keeps_callLifecycle h (fun _ => ⟨h, hmem⟩) fun m' hm' hloaded => ⟨hm', hloaded⟩
    refine hhook.bind ?_
    rintro - m ⟨h, hmem⟩
    exact safe_modify (h.add hmem)

theorem keeps_disablePlugin : Keeps (fun _ => Consistent) (disablePlugin pluginId) m := by
  refine (keeps_findPlugin h).bind ?_
  rintro plugin m ⟨h, -⟩
  refine safe_read_bind ?_
  split
  · have hhook : Keeps (fun _ => Consistent) (callLifecycle plugin .onDisable pluginId) m :=
      keeps_callLifecycle h (fun _ => h) fun _ hm' _ => hm'
    exact hhook.bind fun _ m h => safe_modify h.delete
  · exact safe_pure h

theorem keeps_disableFirst (next : Hook) :
    Keeps (fun _ m' => m'.Consistent ∧ (next = .onUninstall → plugin.defines next = false →
        pluginId ∉ m'.enabledPlugins))
      (disableFirst (decide (pluginId ∈ m.enabledPlugins)) plugin pluginId next) m := by
  unfold disableFirst
  split
  · refine (keeps_disablePlugin h).bind fun _ m h => safe_turn h fun m' x hm' hok => ⟨hm', ?_⟩
    rintro rfl hno
    exact hok hno
  · rename_i hoff
    exact safe_pure ⟨h, fun _ _ hon => hoff (decide_eq_true hon)⟩

theorem keeps_uninstallPlugin : Keeps (fun _ => Consistent) (uninstallPlugin pluginId) m := by
  refine (keeps_findPlugin h).bind ?_
  rintro plugin m ⟨h, -⟩
  refine safe_read_bind ((keeps_disableFirst h .onUninstall).bind ?_)
  rintro - m ⟨h, hoff⟩
  have hhook : Keeps (fun _ m' => m'.Consistent ∧ pluginId ∉ m'.enabledPlugins)
      (callLifecycle plugin .onUninstall pluginId) m :=
    keeps_callLifecycle h (fun hno => ⟨h, hoff rfl hno⟩) fun m' hm' hoff' => ⟨hm', hoff'⟩
  refine hhook.bind ?_
  rintro - m ⟨h, hoff⟩
  exact safe_modify_bind (safe_awaits (h.erase hoff) fun _ _ hm' _ => hm')

theorem keeps_updatePlugin (newVersion : String) :
    Keeps (fun _ => Consistent) (updatePlugin pluginId newVersion) m := by
  refine (keeps_findPlugin h).bind ?_
  rintro plugin m ⟨h, -⟩
  refine safe_read_bind ((keeps_disableFirst h .onUpdate).bind ?_)
  rintro - m' ⟨h, -⟩
  have hhook : Keeps (fun _ => Consistent) (callLifecycle plugin .onUpdate pluginId) m' :=
    keeps_callLifecycle h (fun _ => h) fun _ hm' _ => hm'
  refine hhook.bind fun _ m h => safe_modify_bind ?_
  have hupdated := h.setVersion plugin newVersion
  split
  · exact (keeps_enablePlugin hupdated).bind fun _ m h => safe_turn h fun _ _ hm' _ => hm'
  · exact safe_pure hupdated

theorem keeps_loadPlugin (validateManifest : PluginManifest → List String) (pluginPath : String) :
    Keeps (fun _ => Consistent) (loadPlugin validateManifest pluginPath) m := by
  have hmanifest : Keeps (fun _ => Consistent) (await (.manifest pluginPath)) m :=
    safe_awaits h fun _ _ hm' _ => hm'
  refine hmanifest.bind fun manifest m h => safe_read_bind ?_
  split
  · exact safe_throw h
  · split
    · exact safe_throw h
    · have hcode : Keeps (fun _ => Consistent) (await (.code pluginPath)) m :=
        safe_awaits h fun _ _ hm' _ => hm'
      refine hcode.bind fun methods m h => safe_read_bind (safe_modify_bind ?_)
      have hstored := h.store manifest methods
      have hhook : Keeps (fun _ => Consistent)
          (callLifecycle ⟨m.metadata.next, methods⟩ .onInstall manifest.metadata.id)
          (store manifest methods m) :=
        keeps_callLifecycle hstored (fun _ => hstored) fun _ hm' _ => hm'
      exact hhook.bind fun _ m h => safe_pure h

theorem keeps_call (validateManifest : PluginManifest → List String)
    (op : Operation) : Keeps (fun _ => Consistent) (op.call validateManifest) m := by
  cases op with
  | loadPlugin pluginPath =>
    exact (keeps_loadPlugin h validateManifest pluginPath).bind fun _ _ h => safe_pure h
  | enablePlugin pluginId => exact keeps_enablePlugin h
  | disablePlugin pluginId => exact keeps_disablePlugin h
  | uninstallPlugin pluginId => exact keeps_uninstallPlugin h
  | updatePlugin pluginId newVersion => exact keeps_updatePlugin h newVersion

theorem callNext_ok (hookName : String) {slots : List (Option String)}
    (hslots : ∀ id, some id ∈ slots → id ∈ m.enabledPlugins) :
    ∃ r, callNext m hookName slots = .ok r := by
  induction slots with
  | nil => exact ⟨none, rfl⟩
  | cons slot slots ih =>
    have hrest := ih fun id hid => hslots id (List.mem_cons_of_mem slot hid)
    cases slot with
    | none => exact hrest
    | some id =>
      have hmem := h.enabled id (hslots id List.mem_cons_self)
      obtain ⟨plugin, hp⟩ := Option.isSome_iff_exists.mp (AList.lookup_isSome.mpr hmem)
      simp only [callNext, hp]
      split
      · exact ⟨_, rfl⟩
      · exact hrest

theorem callHook_ok (hookName : String) (i : Nat) : ∃ r, m.callHook hookName i = .ok r :=
  callNext_ok h hookName fun _ hid => List.mem_of_mem_drop hid

end Consistent

/-- **Undisturbed operations keep the collections consistent, however they interleave**, and so
`callHook` never meets an enabled id without a plugin. -/
theorem consistent_of_undisturbed (validateManifest : PluginManifest → List String)
    {p : Pool PluginManager Answer Fault Unit}
    (h : Reaches (Pool.step (Operation.call validateManifest)) (Pool.Settles Undisturbed)
      ⟨empty, []⟩ p) :
    p.state.Consistent ∧ ∀ hookName i, ∃ r, p.state.callHook hookName i = .ok r := by
  have hc := Pool.invariant (fun op _ hm => keeps_call hm validateManifest op) Consistent.empty h
  exact ⟨hc, callHook_ok hc⟩

/-- Everything resolves; the plugin is `p`, with a hook for `enablePlugin` only. -/
def resolving : (q : Await) → Option (Answer q)
  | .manifest _ => some ⟨⟨"p", "1.0.0"⟩⟩
  | .code _ => some ["onEnable"]
  | .hook .. | .disabled .. | .enabled _ | .removed _ => some ()

theorem consistent_enabling : ∃ p, exec (Pool.step (Operation.call fun _ => [])) ⟨empty, []⟩
      [.start (.loadPlugin "plugins/p"), .resume 0 resolving, .resume 0 resolving,
        .start (.enablePlugin "p"), .start (.disablePlugin "p"), .resume 1 resolving] = some p ∧
    "p" ∈ p.state.enabledPlugins ∧
    p.state.Consistent ∧ ∀ hookName i, ∃ r, p.state.callHook hookName i = .ok r := by
  refine ⟨_, rfl, by decide, consistent_of_undisturbed (fun _ => []) ?_⟩
  refine (Reaches.single (a := .start (.loadPlugin "plugins/p")) trivial rfl).trans ?_
  refine (Reaches.single (a := .resume 0 resolving) trivial rfl).trans ?_
  refine (Reaches.single (a := .resume 0 resolving) trivial rfl).trans ?_
  refine (Reaches.single (a := .start (.enablePlugin "p")) trivial rfl).trans ?_
  refine (Reaches.single (a := .start (.disablePlugin "p")) trivial rfl).trans ?_
  exact .single (a := .resume 1 resolving) (show "p" ∈ PluginManager.plugins _ from by decide) rfl

theorem enabled_without_plugin : ∃ p, exec (Pool.step (Operation.call fun _ => [])) ⟨empty, []⟩
      [.start (.loadPlugin "plugins/p"), .resume 0 resolving, .resume 0 resolving,
        .start (.enablePlugin "p"), .start (.uninstallPlugin "p"), .resume 1 resolving] = some p ∧
    "p" ∈ p.state.enabledPlugins ∧ "p" ∉ p.state.plugins ∧
    ∀ hookName, ∃ e, p.state.callHook hookName 0 = .error e :=
  ⟨_, rfl, by decide, by decide, fun _ => ⟨_, rfl⟩⟩

end Bridge.Plugins.PluginManager
