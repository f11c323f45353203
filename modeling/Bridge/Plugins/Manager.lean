import Mathlib.Data.List.AList
import Bridge.Lib.Coroutine
import Bridge.Lib.Heap
import Bridge.Lib.LiveSet

/-!
# `PluginManager`

The manager keeps three collections, the plugins, their contexts and the set of enabled ids, and
changes them around the lifecycle hooks of the plugins, which it awaits and which may reject. Each
operation is a coroutine over the three (`Lib.Coroutine`): it reads and writes them as it goes, and
its nodes are the things it awaits.
-/

namespace Bridge.Plugins

open Lib

inductive Hook
  | onInstall
  | onEnable
  | onDisable
  | onUninstall
  | onUpdate
  deriving DecidableEq

def Hook.name : Hook → String
  | .onInstall => "onInstall"
  | .onEnable => "onEnable"
  | .onDisable => "onDisable"
  | .onUninstall => "onUninstall"
  | .onUpdate => "onUpdate"

structure PluginMetadata where
  id : String
  version : String

structure PluginManifest where
  metadata : PluginMetadata

structure Plugin where
  metadata : Nat
  methods : List String

def Plugin.defines (plugin : Plugin) (h : Hook) : Bool := decide (h.name ∈ plugin.methods)

structure PluginContext where
  pluginId : String

structure PluginManager where
  plugins : AList (fun _ : String => Plugin)
  contexts : AList (fun _ : String => PluginContext)
  enabledPlugins : LiveSet String
  metadata : Heap PluginMetadata

namespace PluginManager

def empty : PluginManager := ⟨∅, ∅, .empty, .empty⟩

inductive Await
  /-- `loadManifest` -/
  | manifest (pluginPath : String)
  /-- `loader.load` -/
  | code (pluginPath : String)
  | hook (h : Hook) (pluginId : String)
  /-- `disablePlugin`, before it goes on to the hook `next` -/
  | disabled (plugin : Plugin) (pluginId : String) (next : Hook)
  /-- `enablePlugin` -/
  | enabled (pluginId : String)
  /-- `registry.removePlugin` -/
  | removed (pluginId : String)

abbrev Answer : Await → Type
  | .manifest _ => PluginManifest
  | .code _ => List String
  | .hook .. | .disabled .. | .enabled _ | .removed _ => Unit

inductive Fault
  | error (message : String)
  | rejected (q : Await)

abbrev Op := Coroutine PluginManager Answer Fault

open Coroutine (read turn)

/-- `await`, as the operations use it. -/
def await (q : Await) : Op (Answer q) := Coroutine.awaits q (.rejected q)

def findPlugin (pluginId : String) : Op Plugin := do
  let m ← read
  match m.plugins.lookup pluginId with
  | none => Coroutine.throw (.error ("Plugin " ++ pluginId ++ " not found"))
  | some plugin => pure plugin

/-- `if (plugin.h) await plugin.h(context)` -/
def callLifecycle (plugin : Plugin) (h : Hook) (pluginId : String) : Op Unit :=
  if plugin.defines h then await (.hook h pluginId) else pure ()

def createPluginContext (pluginId : String) : PluginContext := ⟨pluginId⟩

def store (manifest : PluginManifest) (methods : List String) (m : PluginManager) :
    PluginManager where
  contexts := m.contexts.insert manifest.metadata.id (createPluginContext manifest.metadata.id)
  plugins := m.plugins.insert manifest.metadata.id ⟨m.metadata.next, methods⟩
  metadata := m.metadata.alloc manifest.metadata
  enabledPlugins := m.enabledPlugins

def loadPlugin (validateManifest : PluginManifest → List String) (pluginPath : String) :
    Op PluginMetadata := do
  let manifest ← await (.manifest pluginPath)
  let errors := validateManifest manifest
  let m ← read
  if errors ≠ [] then
    Coroutine.throw (.error ("Invalid manifest: " ++ ", ".intercalate errors))
  else if manifest.metadata.id ∈ m.plugins then
    Coroutine.throw (.error ("Plugin " ++ manifest.metadata.id ++ " is already loaded"))
  else do
    let methods ← await (.code pluginPath)
    let m ← read
    Coroutine.modify (store manifest methods)
    callLifecycle ⟨m.metadata.next, methods⟩ .onInstall manifest.metadata.id
    pure manifest.metadata

def enablePlugin (pluginId : String) : Op Unit := do
  let plugin ← findPlugin pluginId
  let m ← read
  if pluginId ∈ m.enabledPlugins then pure ()
  else do
    callLifecycle plugin .onEnable pluginId
    Coroutine.modify fun m => { m with enabledPlugins := m.enabledPlugins.add pluginId }

def disablePlugin (pluginId : String) : Op Unit := do
  let plugin ← findPlugin pluginId
  let m ← read
  if pluginId ∈ m.enabledPlugins then do
    callLifecycle plugin .onDisable pluginId
    Coroutine.modify fun m => { m with enabledPlugins := m.enabledPlugins.delete pluginId }
  else pure ()

/-- `if (wasEnabled) await this.disablePlugin(pluginId)` -/
def disableFirst (wasEnabled : Bool) (plugin : Plugin) (pluginId : String)
    (next : Hook) : Op Unit :=
  if wasEnabled then do
    disablePlugin pluginId
    turn (.disabled plugin pluginId next)
  else pure ()

def uninstallPlugin (pluginId : String) : Op Unit := do
  let plugin ← findPlugin pluginId
  let m ← read
  disableFirst (decide (pluginId ∈ m.enabledPlugins)) plugin pluginId .onUninstall
  callLifecycle plugin .onUninstall pluginId
  Coroutine.modify fun m =>
    { m with plugins := m.plugins.erase pluginId, contexts := m.contexts.erase pluginId }
  await (.removed pluginId)

/-- `plugin.metadata.version = newVersion` -/
def setVersion (plugin : Plugin) (newVersion : String) (m : PluginManager) : PluginManager :=
  match m.metadata.read plugin.metadata with
  | none => m
  | some data =>
    { m with metadata := m.metadata.write plugin.metadata { data with version := newVersion } }

def updatePlugin (pluginId newVersion : String) : Op Unit := do
  let plugin ← findPlugin pluginId
  let m ← read
  let wasEnabled := decide (pluginId ∈ m.enabledPlugins)
  disableFirst wasEnabled plugin pluginId .onUpdate
  callLifecycle plugin .onUpdate pluginId
  Coroutine.modify (setVersion plugin newVersion)
  if wasEnabled then do
    enablePlugin pluginId
    turn (.enabled pluginId)
  else pure ()

inductive Operation
  | loadPlugin (pluginPath : String)
  | enablePlugin (pluginId : String)
  | disablePlugin (pluginId : String)
  | uninstallPlugin (pluginId : String)
  | updatePlugin (pluginId newVersion : String)

def Operation.call (validateManifest : PluginManifest → List String) : Operation → Op Unit
  | .loadPlugin pluginPath => do
    let _ ← PluginManager.loadPlugin validateManifest pluginPath
    pure ()
  | .enablePlugin pluginId => PluginManager.enablePlugin pluginId
  | .disablePlugin pluginId => PluginManager.disablePlugin pluginId
  | .uninstallPlugin pluginId => PluginManager.uninstallPlugin pluginId
  | .updatePlugin pluginId newVersion => PluginManager.updatePlugin pluginId newVersion

/-- The loop of `callHook`, over the slots of the set that are left, up to the next plugin that has
the hook. An enabled id without a plugin ends it: `hookName in undefined` throws. -/
def callNext (m : PluginManager) (hookName : String) :
    List (Option String) → Except Fault (Option String)
  | [] => .ok none
  | none :: slots => callNext m hookName slots
  | some pluginId :: slots =>
    match m.plugins.lookup pluginId with
    | none => .error (.error ("Cannot use 'in' operator to search for '" ++ hookName ++
      "' in undefined"))
    | some plugin =>
      if hookName ∈ plugin.methods then .ok (some pluginId) else callNext m hookName slots

/-- `callHook`, at the slot `i` of the set as it is now. -/
def callHook (m : PluginManager) (hookName : String) (i : Nat) : Except Fault (Option String) :=
  callNext m hookName (m.enabledPlugins.slots.drop i)

end PluginManager

end Bridge.Plugins
