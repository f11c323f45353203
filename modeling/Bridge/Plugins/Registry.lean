import Bridge.Plugins.Atomicity
import Bridge.Plugins.Storage

/-!
# `PluginRegistry`, and what is left of an uninstalled plugin

There are two views of what is installed. `loadAllPlugins` looks into the plugins directory; and
`uninstallPlugin` removes the directory that the *registry* has for the id. The registry is filled
from `registry.json` and by `registerPlugin`, which nothing calls, so for a plugin that was placed
in the directory it has no entry, and nothing is removed: the plugin is found again.
-/

namespace Bridge.Plugins

open Lib Path Coroutine PluginManager List FileTree

structure PluginRegistryEntry where
  path : String

abbrev Registry := AList (fun _ : String => PluginRegistryEntry)

structure Format (C : Type) where
  parseManifest : C → Option PluginManifest
  registryText : Registry → C

structure Events where
  code : String → Option (List String)
  rejects : Hook → String → Bool

structure World (C : Type) where
  manager : PluginManager
  registry : Registry
  files : FileTree C

namespace World

variable {C : Type} (format : Format C) (host : Host)

/-! ## The registry -/

def pluginsPlace : Place := resolve host.cwd host.pluginsDir.toList

def manifestPath (pluginPath : String) : List Char :=
  join [pluginPath.toList, "plugin.json".toList]

/-- The directories found, and the files: the plugins directory is made if it is not there. -/
def discoverPlugins (t : FileTree C) : List String × FileTree C :=
  if host.pluginsDir = "" then ([], t)
  else
    match t.mkdirp (pluginsPlace host) with
    | none => ([], t)
    | some t' =>
      match t'.readdir (pluginsPlace host) with
      | none => ([], t')
      | some entries =>
        (entries.filterMap fun entry =>
          match entry.2 with
          | .dir =>
            let pluginPath := String.ofList (join [host.pluginsDir.toList, entry.1])
            if entry.1 ≠ "node_modules".toList ∧
                t'.access (resolve host.cwd (manifestPath pluginPath)) then some pluginPath
            else none
          | .file _ => none,
        t')

def registryPath : List Char := join [host.pluginsDir.toList, "registry.json".toList]

def saveRegistry (registry : Registry) (t : FileTree C) : Bool × FileTree C :=
  let place := resolve host.cwd (registryPath host)
  match t.mkdirp place.tail with
  | none => (false, t)
  | some t' =>
    match t'.writeFile place (format.registryText registry) with
    | none => (false, t')
    | some t'' => (true, t'')

/-- `rm` of the path of an entry; there is nothing to remove under the empty path. -/
def removeDirectory (path : String) (t : FileTree C) : FileTree C :=
  if path = "" then t else t.rm (resolve host.cwd path.toList)

def removePlugin (pluginId : String) (registry : Registry) (t : FileTree C) :
    Bool × Registry × FileTree C :=
  match registry.lookup pluginId with
  | none => (true, registry, t)
  | some entry =>
    let registry' := registry.erase pluginId
    let (saved, t') := saveRegistry format host registry' (removeDirectory host entry.path t)
    (saved, registry', t')

variable (validateManifest : PluginManifest → List String)

def loadManifest (t : FileTree C) (pluginPath : String) : Option PluginManifest :=
  (t.readFile (resolve host.cwd (manifestPath pluginPath))).bind format.parseManifest

def answer (w : World C) (ev : Events) : (q : Await) → Option (Answer q)
  | .manifest pluginPath => loadManifest format host w.files pluginPath
  | .code pluginPath => ev.code pluginPath
  | .hook h pluginId => if ev.rejects h pluginId then none else some ()
  | .disabled .. | .enabled _ => some ()
  | .removed pluginId =>
    if (removePlugin format host pluginId w.registry w.files).1 then some () else none

def removedId : Await → Option String
  | .removed pluginId => some pluginId
  | _ => none

def perform (w : World C) (ev : Events) (op : Operation) : Except Fault Unit × World C :=
  let c := op.call validateManifest
  let (result, manager) := c.run (w.answer format host ev) w.manager
  match (c.asked (w.answer format host ev) w.manager).findSome? removedId with
  | none => (result, { w with manager })
  | some pluginId =>
    let (_, registry, files) := removePlugin format host pluginId w.registry w.files
    (result, ⟨manager, registry, files⟩)

def loadAllPlugins (w : World C) (ev : Events) : World C :=
  let (pluginDirs, files) := discoverPlugins host w.files
  pluginDirs.foldl
    (fun w pluginDir => (w.perform format host validateManifest ev (.loadPlugin pluginDir)).2)
    { w with files }

/-! ## The directories that are found -/

def manifestPlace (name : Name) : Place := "plugin.json".toList :: name :: pluginsPlace host

def Found (t : FileTree C) (pluginId pluginPath : String) : Prop :=
  pluginPath ∈ (discoverPlugins host t).1 ∧
    ∃ manifest, loadManifest format host t pluginPath = some manifest ∧
      manifest.metadata.id = pluginId

section Places

variable {format host} {t t' : FileTree C} {name : Name} {pluginId pluginPath : String}

theorem resolve_pluginPath (hdir : host.pluginsDir ≠ "") (hname : Proper name) :
    resolve host.cwd (join [host.pluginsDir.toList, name]) = name :: pluginsPlace host := by
  have hne : host.pluginsDir.toList ≠ [] := fun h => hdir (String.toList_eq_nil_iff.mp h)
  rw [resolve_join fun h => absurd h hne, flatMap_singleton, components_eq_singleton hname.2,
    walk_singleton, push_plain hname.1]
  rfl

theorem resolve_manifestPath (hdir : host.pluginsDir ≠ "") (hname : Proper name) :
    resolve host.cwd (manifestPath (String.ofList (join [host.pluginsDir.toList, name]))) =
      manifestPlace host name := by
  have hcomp : components "plugin.json".toList = ["plugin.json".toList] :=
    components_eq_singleton (by decide)
  rw [manifestPath, String.toList_ofList, resolve_join fun h => absurd h join_ne_nil,
    flatMap_singleton, hcomp, resolve_pluginPath hdir hname, walk_singleton]
  exact push_plain (by decide)

theorem mem_discoverPlugins (h : pluginPath ∈ (discoverPlugins host t).1) :
    host.pluginsDir ≠ "" ∧ ∃ name, Proper name ∧ name ≠ "node_modules".toList ∧
      pluginPath = String.ofList (join [host.pluginsDir.toList, name]) := by
  unfold discoverPlugins at h
  split at h
  · cases h
  · rename_i hdir
    refine ⟨hdir, ?_⟩
    split at h
    · cases h
    · rename_i t' hmk
      split at h
      · cases h
      · rename_i entries hentries
        obtain ⟨⟨name, node⟩, hmem, hpath⟩ := mem_filterMap.mp h
        have hchild : t'.find (name :: pluginsPlace host) = some node := by
          unfold FileTree.readdir at hentries
          split at hentries
          · cases hentries
            exact mem_children.mp hmem
          · cases hentries
        have hproper : Proper name :=
          t'.named (mem_of_find hchild) name mem_cons_self
        cases node with
        | file c => cases hpath
        | dir =>
          simp only at hpath
          split at hpath
          · rename_i hcond
            exact ⟨name, hproper, hcond.1, (Option.some.inj hpath).symm⟩
          · cases hpath

theorem proper_of_readFile {c : C} (hfile : t.readFile (manifestPlace host name) = some c) :
    Proper name :=
  t.named (mem_of_find (find_of_readFile hfile)) name (mem_cons_of_mem _ mem_cons_self)

theorem mem_discoverPlugins_of_readFile {c : C} (hdir : host.pluginsDir ≠ "")
    (hname : name ≠ "node_modules".toList) (hfile : t.readFile (manifestPlace host name) = some c) :
    String.ofList (join [host.pluginsDir.toList, name]) ∈ (discoverPlugins host t).1 := by
  have hfind := find_of_readFile hfile
  -- a file is in a directory, and this one in the plugins directory
  have hsub : t.isDir (name :: pluginsPlace host) = true := t.closed (mem_of_find hfind)
  have hplugins : t.isDir (pluginsPlace host) = true := isDir_of_isDir_cons hsub
  have hchild := (isDirAt_iff.mp hsub).resolve_left (by simp)
  have hmk : t.mkdirp (pluginsPlace host) = some t := by
    rw [FileTree.mkdirp, mkdirs_of_isDir hplugins, if_pos hplugins]
  have hread : t.readdir (pluginsPlace host) = some (t.children (pluginsPlace host)) :=
    if_pos hplugins
  unfold discoverPlugins
  simp only [if_neg hdir, hmk, hread]
  refine mem_filterMap.mpr ⟨(name, .dir), mem_children.mpr hchild, if_pos ⟨hname, ?_⟩⟩
  rw [resolve_manifestPath hdir (proper_of_readFile hfile), FileTree.access, hfind]
  exact Bool.or_true _

theorem found_of_name {manifest : PluginManifest} (hdir : host.pluginsDir ≠ "")
    (hname : name ≠ "node_modules".toList)
    (hload : (t.readFile (manifestPlace host name)).bind format.parseManifest = some manifest) :
    Found format host t manifest.metadata.id
      (String.ofList (join [host.pluginsDir.toList, name])) := by
  obtain ⟨c, hfile, hparse⟩ := Option.bind_eq_some_iff.mp hload
  refine ⟨mem_discoverPlugins_of_readFile hdir hname hfile, manifest, ?_, rfl⟩
  rw [loadManifest, resolve_manifestPath hdir (proper_of_readFile hfile)]
  exact hload

theorem name_of_found (h : Found format host t pluginId pluginPath) :
    host.pluginsDir ≠ "" ∧ ∃ name, name ≠ "node_modules".toList ∧
      resolve host.cwd (manifestPath pluginPath) = manifestPlace host name ∧
      ∃ manifest, (t.readFile (manifestPlace host name)).bind format.parseManifest = some manifest ∧
        manifest.metadata.id = pluginId := by
  obtain ⟨hmem, manifest, hload, hid⟩ := h
  obtain ⟨hdir, name, hproper, hname, rfl⟩ := mem_discoverPlugins hmem
  have hplace := resolve_manifestPath hdir hproper
  rw [loadManifest, hplace] at hload
  exact ⟨hdir, name, hname, hplace, manifest, hload, hid⟩

theorem resolve_registryPath :
    resolve host.cwd (registryPath host) = "registry.json".toList :: pluginsPlace host := by
  have hcomp : components "registry.json".toList = ["registry.json".toList] :=
    components_eq_singleton (by decide)
  have hrel : ∀ b ∈ ["registry.json".toList], isAbsolute b = false := by decide
  rw [registryPath, resolve_join fun _ => hrel, flatMap_singleton, hcomp, walk_singleton]
  exact push_plain (by decide)

theorem manifestPlace_ne_registryPath :
    manifestPlace host name ≠ resolve host.cwd (registryPath host) := by
  rw [resolve_registryPath]
  intro h
  have hlen := congrArg List.length h
  simp [manifestPlace] at hlen

end Places

/-- The registry has an entry for the id, for a directory that holds the place. -/
def Covers (registry : Registry) (pluginId : String) (p : Place) : Prop :=
  ∃ entry, registry.lookup pluginId = some entry ∧ entry.path ≠ "" ∧
    resolve host.cwd entry.path.toList <:+ p

section Removal

variable {format host} {t : FileTree C} {registry : Registry} {name : Name} {pluginId : String}

theorem readFile_saveRegistry : (saveRegistry format host registry t).2.readFile
    (manifestPlace host name) = t.readFile (manifestPlace host name) := by
  unfold saveRegistry
  dsimp only
  split
  · rfl
  · rename_i t' hmk
    have hmkdir : t'.readFile (manifestPlace host name) = t.readFile (manifestPlace host name) := by
      rw [eq_mkdirs_of_mkdirp hmk, readFile_mkdirs]
    split
    · exact hmkdir
    · rename_i t'' hwrite
      rw [FileTree.readFile, find_writeFile_ne hwrite manifestPlace_ne_registryPath]
      exact hmkdir

theorem readFile_removePlugin (hc : ¬ Covers host registry pluginId (manifestPlace host name)) :
    (removePlugin format host pluginId registry t).2.2.readFile (manifestPlace host name) =
      t.readFile (manifestPlace host name) := by
  unfold removePlugin
  split
  · rfl
  · rename_i entry hentry
    refine readFile_saveRegistry.trans ?_
    unfold removeDirectory
    split
    · rfl
    · rename_i hpath
      rw [FileTree.readFile, find_rm, if_neg fun h => hc ⟨entry, hentry, hpath, h⟩]
      rfl

theorem readFile_removePlugin_covered
    (hc : Covers host registry pluginId (manifestPlace host name)) :
    (removePlugin format host pluginId registry t).2.2.readFile (manifestPlace host name) =
      none := by
  obtain ⟨entry, hentry, hpath, hsuffix⟩ := hc
  unfold removePlugin
  rw [hentry]
  refine readFile_saveRegistry.trans ?_
  rw [removeDirectory, if_neg hpath, FileTree.readFile, find_rm, if_pos hsuffix]

end Removal

/-! ## What an operation does to them -/

def Fewer (t t' : FileTree C) : Prop := ∀ name,
  t'.readFile (manifestPlace host name) = t.readFile (manifestPlace host name) ∨
    t'.readFile (manifestPlace host name) = none

section Operations

variable {format host validateManifest} {t t' t'' : FileTree C} {w w' : World C} {ev : Events}
  {op : Operation} {pluginId pluginPath : String}

theorem Fewer.refl : Fewer host t t := fun _ => .inl rfl

theorem Fewer.trans (h : Fewer host t t') (h' : Fewer host t' t'') : Fewer host t t'' := by
  intro name
  obtain heq' | hnone := h' name
  · rw [heq']
    exact h name
  · exact .inr hnone

theorem fewer_discoverPlugins : Fewer host t (discoverPlugins host t).2 := by
  intro name
  unfold discoverPlugins
  split
  · exact .inl rfl
  · split
    · exact .inl rfl
    · rename_i t' hmk
      have hread : t'.readFile (manifestPlace host name) = t.readFile
        (manifestPlace host name) := by
        rw [eq_mkdirs_of_mkdirp hmk, readFile_mkdirs]
      split <;> exact .inl hread

theorem fewer_removePlugin {registry : Registry} :
    Fewer host t (removePlugin format host pluginId registry t).2.2 := by
  intro name
  by_cases hc : Covers host registry pluginId (manifestPlace host name)
  · exact .inr (readFile_removePlugin_covered hc)
  · exact .inl (readFile_removePlugin hc)

theorem fewer_perform : Fewer host w.files (w.perform format host validateManifest ev
    op).2.files := by
  unfold perform
  dsimp only
  split
  · exact .refl
  · exact fewer_removePlugin

theorem manager_perform : (w.perform format host validateManifest ev op).2.manager =
    ((op.call validateManifest).run (w.answer format host ev) w.manager).2 := by
  unfold perform
  dsimp only
  split <;> rfl

theorem mem_plugins_loadPlugin (h : pluginId ∈
      (w.perform format host validateManifest ev (.loadPlugin pluginPath)).2.manager.plugins) :
    pluginId ∈ w.manager.plugins ∨ ∃ manifest,
      loadManifest format host w.files pluginPath = some manifest ∧
        manifest.metadata.id = pluginId := by
  rw [manager_perform] at h
  by_cases hex : ∃ manifest methods, Loads validateManifest (w.answer format host ev) w.manager
      pluginPath manifest methods
  · obtain ⟨manifest, methods, hl⟩ := hex
    obtain ⟨r, hr, -⟩ := ran_loadPlugin hl
    rw [hr.run] at h
    obtain rfl | hmem := (AList.mem_insert _).mp h
    · exact .inr ⟨manifest, hl.found, rfl⟩
    · exact .inl hmem
  · obtain ⟨e, qs, hr, -⟩ := refuses_loadPlugin fun manifest methods hl =>
      hex ⟨manifest, methods, hl⟩
    rw [hr.run] at h
    exact .inl h

end Operations

section Uninstalling

variable {answer : (q : Await) → Option (Answer q)} {m m' : PluginManager} {pluginId : String}

theorem findSome?_begun {plugin : Plugin} {h : Hook} :
    (begun m plugin pluginId h).findSome? removedId = none := by
  refine findSome?_eq_none_iff.mpr fun q hq => ?_
  simp only [begun, hookCalls, mem_append, mem_map] at hq
  obtain ⟨h', -, rfl⟩ | hq | ⟨h', -, rfl⟩ := hq
  · rfl
  · split at hq
    · exact mem_singleton.mp hq ▸ rfl
    · cases hq
  · rfl

theorem uninstalled (h : (uninstallPlugin pluginId).run answer m = (.ok (), m')) :
    ((uninstallPlugin pluginId).asked answer m).findSome? removedId = some pluginId ∧
      m' = m.forgotten pluginId := by
  cases hp : m.plugins.lookup pluginId with
  | none => exact absurd h (refuses_findPlugin hp).bind.rejects.run_ne_ok
  | some plugin =>
    by_cases hs : Stops answer m plugin pluginId
    · by_cases hf : Fails answer plugin .onUninstall pluginId
      · exact absurd h (rejects_disabling hp hs hf).run_ne_ok
      · obtain ⟨r, hr, -⟩ := ran_uninstallPlugin hp hs hf
        obtain ⟨-, rfl⟩ := Prod.mk.inj (hr.run.symm.trans h)
        refine ⟨?_, rfl⟩
        rw [hr.asked, findSome?_append, findSome?_begun]
        rfl
    · exact absurd h (rejects_unstopped hp hs).run_ne_ok

end Uninstalling

/-! ## What is found and loaded afterwards -/

def Gone (t : FileTree C) (pluginId : String) : Prop :=
  ∀ pluginPath, ¬ Found format host t pluginId pluginPath

/-- The registry has the directory of the id, wherever one is found. -/
def Covered (w : World C) (pluginId : String) : Prop :=
  ∀ pluginPath, Found format host w.files pluginId pluginPath →
    Covers host w.registry pluginId (resolve host.cwd (manifestPath pluginPath))

inductive Request
  | loadAllPlugins
  | operation (op : Operation)

def serve (w : World C) : Events × Request → Option (World C)
  | (ev, .loadAllPlugins) => some (w.loadAllPlugins format host validateManifest ev)
  | (ev, .operation op) => some (w.perform format host validateManifest ev op).2

section Gone

variable {format host validateManifest} {t t' : FileTree C} {w w' : World C} {ev : Events}
  {pluginId pluginPath : String}

theorem Gone.fewer (hg : Gone format host t pluginId) (h : Fewer host t t') :
    Gone format host t' pluginId := by
  intro pluginPath hfound
  obtain ⟨hdir, name, hname, -, manifest, hload, rfl⟩ := name_of_found hfound
  obtain heq | hnone := h name
  · rw [heq] at hload
    exact hg _ (found_of_name hdir hname hload)
  · simp [hnone] at hload

theorem not_mem_plugins_loadPlugin (hg : Gone format host w.files pluginId)
    (hpath : pluginPath ∈ (discoverPlugins host t).1) (hout : pluginId ∉ w.manager.plugins) :
    pluginId ∉
      (w.perform format host validateManifest ev (.loadPlugin pluginPath)).2.manager.plugins := by
  intro hmem
  obtain hmem | ⟨manifest, hload, rfl⟩ := mem_plugins_loadPlugin hmem
  · exact hout hmem
  · obtain ⟨hdir, name, hproper, hname, rfl⟩ := mem_discoverPlugins hpath
    rw [loadManifest, resolve_manifestPath hdir hproper] at hload
    exact hg _ (found_of_name hdir hname hload)

theorem fewer_loadAllPlugins :
    Fewer host w.files (w.loadAllPlugins format host validateManifest ev).files := by
  have hfold : ∀ (dirs : List String) (v : World C), Fewer host v.files
      (dirs.foldl (fun v pluginDir =>
        (v.perform format host validateManifest ev (.loadPlugin pluginDir)).2) v).files := by
    intro dirs
    induction dirs with
    | nil => exact fun v => .refl
    | cons d dirs ih => exact fun v => fewer_perform.trans (ih _)
  exact fewer_discoverPlugins.trans (hfold _ _)

theorem not_mem_plugins_loadAllPlugins (hg : Gone format host w.files pluginId)
    (hout : pluginId ∉ w.manager.plugins) :
    pluginId ∉ (w.loadAllPlugins format host validateManifest ev).manager.plugins := by
  -- over the directories that are left, whichever plugins the ones before have loaded
  have hfold : ∀ dirs : List String, (∀ d ∈ dirs, d ∈ (discoverPlugins host w.files).1) →
      ∀ v : World C, Gone format host v.files pluginId → pluginId ∉ v.manager.plugins →
      pluginId ∉ (dirs.foldl (fun v pluginDir =>
        (v.perform format host validateManifest ev (.loadPlugin pluginDir)).2)
          v).manager.plugins := by
    intro dirs
    induction dirs with
    | nil => exact fun _ v _ hv => hv
    | cons d dirs ih =>
      intro hdirs v hgv hv
      apply ih fun d' hd' => hdirs d' (mem_cons_of_mem d hd')
      · exact hgv.fewer fewer_perform
      · exact not_mem_plugins_loadPlugin hgv (hdirs d mem_cons_self) hv
  exact hfold _ (fun _ hd => hd) _ (hg.fewer fewer_discoverPlugins) hout

theorem fewer_of_reaches (h : Reaches (serve format host validateManifest) (fun _ _ => True) w w') :
    Fewer host w.files w'.files := by
  refine h.invariant (fun v => Fewer host w.files v.files) .refl ?_
  intro v a v' hfewer _ hs
  obtain ⟨ev, request⟩ := a
  cases request with
  | loadAllPlugins =>
    cases hs
    exact hfewer.trans fewer_loadAllPlugins
  | operation op =>
    cases hs
    exact hfewer.trans fewer_perform

theorem gone_removePlugin_iff : Gone format host
    (removePlugin format host pluginId w.registry w.files).2.2 pluginId ↔
      Covered format host w pluginId := by
  constructor
  · intro hg pluginPath hfound
    obtain ⟨hdir, name, hname, hplace, manifest, hload, rfl⟩ := name_of_found hfound
    rw [hplace]
    by_contra hc
    rw [← readFile_removePlugin hc] at hload
    exact hg _ (found_of_name hdir hname hload)
  · intro hc pluginPath hfound
    obtain ⟨hdir, name, hname, -, manifest, hload, rfl⟩ := name_of_found hfound
    have hfewer : Fewer host w.files
        (removePlugin format host manifest.metadata.id w.registry w.files).2.2 := fewer_removePlugin
    obtain heq | hnone := hfewer name
    · have hbefore := heq ▸ hload
      obtain ⟨c, hfile, -⟩ := Option.bind_eq_some_iff.mp hbefore
      have hcovers := hc _ (found_of_name hdir hname hbefore)
      rw [resolve_manifestPath hdir (proper_of_readFile hfile)] at hcovers
      simp [readFile_removePlugin_covered hcovers] at hload
    · simp [hnone] at hload

/-- **An uninstalled plugin is found no more iff the registry had its directory**, and then nothing
that comes later brings it back: no `loadAllPlugins` loads the id again. -/
theorem uninstalled_gone_iff_covered (format : Format C) (host : Host)
    (validateManifest : PluginManifest → List String) (ev : Events)
    (h : w.perform format host validateManifest ev (.uninstallPlugin pluginId) = (.ok (), w')) :
    (Gone format host w'.files pluginId ↔ Covered format host w pluginId) ∧
    pluginId ∉ w'.manager.plugins ∧
    (Covered format host w pluginId → ∀ w'' ev',
      Reaches (serve format host validateManifest) (fun _ _ => True) w' w'' →
      Gone format host w''.files pluginId ∧
      (pluginId ∉ w''.manager.plugins →
        pluginId ∉ (w''.loadAllPlugins format host validateManifest ev').manager.plugins)) := by
  have hok : (uninstallPlugin pluginId).run (w.answer format host ev) w.manager =
      (.ok (), w'.manager) := by
    refine Prod.ext ?_ ?_
    · have hresult := congrArg Prod.fst h
      unfold perform at hresult
      dsimp only at hresult
      split at hresult <;> exact hresult
    · exact manager_perform.symm.trans (congrArg (fun r => r.2.manager) h)
  obtain ⟨hremoved, hforgotten⟩ := uninstalled hok
  have hfiles : w'.files = (removePlugin format host pluginId w.registry w.files).2.2 := by
    have hresult := congrArg (fun r => r.2.files) h
    unfold perform at hresult
    rw [← hresult]
    simp [Operation.call, hremoved]
  have hiff : Gone format host w'.files pluginId ↔ Covered format host w pluginId := by
    rw [hfiles]
    exact gone_removePlugin_iff
  refine ⟨hiff, ?_, ?_⟩
  · rw [hforgotten]
    exact fun hmem => (AList.mem_erase.mp hmem).1 rfl
  · intro hc w'' ev' hreach
    have hgone : Gone format host w''.files pluginId :=
      (hiff.mpr hc).fewer (fewer_of_reaches hreach)
    exact ⟨hgone, not_mem_plugins_loadAllPlugins hgone⟩

end Gone

/-! A plugin that is placed in the plugins directory, is loaded, and is uninstalled: with an entry
in the registry, as `registry.json` may have it, and without one. -/

def sampleFormat : Format (Option PluginManifest) := ⟨id, fun _ => none⟩

def quietly : Events := ⟨fun _ => some [], fun _ _ => false⟩

def placedPlugin : FileTree (Option PluginManifest) :=
  let t := FileTree.empty.mkdirs ["p".toList, "plugins".toList]
  (t.writeFile ["plugin.json".toList, "p".toList, "plugins".toList] (some ⟨⟨"p", "1.0.0"⟩⟩)).getD t

/-- The world after the first `loadAllPlugins`. -/
def loadedWorld (registry : Registry) : World (Option PluginManifest) :=
  (⟨.empty, registry, placedPlugin⟩ : World (Option PluginManifest)).loadAllPlugins sampleFormat
    Storage.sampleHost (fun _ => []) quietly

/-- And after `uninstallPlugin`. -/
def uninstalledWorld (registry : Registry) : World (Option PluginManifest) :=
  ((loadedWorld registry).perform sampleFormat Storage.sampleHost (fun _ => []) quietly
    (.uninstallPlugin "p")).2

def registered : Registry := (∅ : Registry).insert "p" ⟨"/plugins/p"⟩

theorem gone_registered : "p" ∈ (loadedWorld registered).manager.plugins ∧
    Covered sampleFormat Storage.sampleHost (loadedWorld registered) "p" ∧
    "p" ∉ ((uninstalledWorld registered).loadAllPlugins sampleFormat Storage.sampleHost
      (fun _ => []) quietly).manager.plugins := by
  have hgone : Gone sampleFormat Storage.sampleHost (uninstalledWorld registered).files "p" := by
    intro pluginPath hfound
    have hnone : (discoverPlugins Storage.sampleHost (uninstalledWorld registered).files).1 =
      [] := by
      decide +kernel
    exact absurd hfound.1 (by simp [hnone])
  have hok : (loadedWorld registered).perform sampleFormat Storage.sampleHost (fun _ => []) quietly
      (.uninstallPlugin "p") = (.ok (), uninstalledWorld registered) := Prod.ext rfl rfl
  have hresult := uninstalled_gone_iff_covered sampleFormat Storage.sampleHost (fun _ => []) quietly
    hok
  have hcovered := hresult.1.mp hgone
  exact ⟨by decide +kernel, hcovered, (hresult.2.2 hcovered _ quietly .refl).2 hresult.2.1⟩

theorem uninstalled_loaded_again : "p" ∈ (loadedWorld ∅).manager.plugins ∧
    (loadedWorld ∅).perform sampleFormat Storage.sampleHost (fun _ => []) quietly
      (.uninstallPlugin "p") = (.ok (), uninstalledWorld ∅) ∧
    "p" ∉ (uninstalledWorld ∅).manager.plugins ∧
    (discoverPlugins Storage.sampleHost (uninstalledWorld ∅).files).1 = ["/plugins/p"] ∧
    "p" ∈ ((uninstalledWorld ∅).loadAllPlugins sampleFormat Storage.sampleHost (fun _ => [])
      quietly).manager.plugins :=
  ⟨by decide +kernel, Prod.ext rfl rfl, by decide +kernel, by decide +kernel, by decide +kernel⟩

end World

end Bridge.Plugins
