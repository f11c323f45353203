import Bridge.Lib.FileTree
import Bridge.Lib.Texts

/-!
# The storage of a plugin

Every plugin is given a storage of its own: a directory under the plugins directory, in which a
value is a file named after its key. The key is a text of the plugin's choice and goes into a path
as it is, so a key with `..` in it leads out of the directory, and to the files of every other
plugin. -/

namespace Bridge.Plugins

open Lib Path List FileTree

/-- `/^[a-z0-9-]+$/` -/
def isValidPluginId (id : String) : Bool :=
  id.toList != [] && id.toList.all fun c =>
    (decide ('a' ≤ c) && decide (c ≤ 'z')) || (decide ('0' ≤ c) && decide (c ≤ '9')) || c == '-'

structure Host where
  cwd : Place
  pluginsDir : String

/-- `JSON.stringify`, which has no text for some values, and `JSON.parse`. -/
structure Codec (V C : Type) where
  stringify : V → Option C
  parse : C → Option V

namespace Storage

variable {V C : Type} (codec : Codec V C) (host : Host) (pluginId : String)

def storageDir : List Char :=
  join [host.pluginsDir.toList, pluginId.toList, "storage".toList]

def filePath (key : String) : List Char :=
  join [storageDir host pluginId, (key ++ ".json").toList]

def dir : Place := resolve host.cwd (storageDir host pluginId)

def file (key : String) : Place := resolve host.cwd (filePath host pluginId key)

section Tree

variable (t : FileTree C) (key : String)

def get : Option V :=
  (t.readFile (file host pluginId key)).bind codec.parse

def set (value : V) : Bool × FileTree C :=
  match t.mkdirp (dir host pluginId) with
  | none => (false, t)
  | some t' =>
    match (codec.stringify value).bind (t'.writeFile (file host pluginId key)) with
    | none => (false, t')
    | some t'' => (true, t'')

def delete : FileTree C :=
  (t.unlink (file host pluginId key)).getD t

def clear : FileTree C := t.rm (dir host pluginId)

def keys : List String :=
  match t.readdir (dir host pluginId) with
  | none => []
  | some files =>
    ((files.map (·.1)).filter fun name => ".json".toList.isSuffixOf name).map fun name =>
      String.ofList (Utf16.replaceFirst ".json".toList [] name)

inductive Call (V : Type)
  | get (key : String)
  | set (key : String) (value : V)
  | delete (key : String)
  | clear

def call : Call V → FileTree C
  | .get _ => t
  | .set key value => (set codec host pluginId t key value).2
  | .delete key => delete host pluginId t key
  | .clear => clear host pluginId t

end Tree

def Call.file? : Call V → Option Place
  | .get key | .set key _ | .delete key => some (file host pluginId key)
  | .clear => none

/-- The key, with the suffix it is given, does not lead upwards. -/
def Confined (key : String) : Prop := dotdot ∉ normalizeString (key ++ ".json").toList true

instance {key : String} : Decidable (Confined key) := inferInstanceAs (Decidable (_ ∉ _))

def Call.Confined : Call V → Prop
  | .get key | .set key _ | .delete key => Storage.Confined key
  | .clear => True

section Places

variable {host : Host} {pluginId : String}

section ValidId

variable (hid : isValidPluginId pluginId = true)
include hid

theorem valid_units : pluginId.toList ≠ [] ∧ '/' ∉ pluginId.toList ∧ '.' ∉ pluginId.toList := by
  rw [isValidPluginId, Bool.and_eq_true, all_eq_true, bne_iff_ne] at hid
  obtain ⟨hne, hall⟩ := hid
  refine ⟨hne, fun hmem => ?_, fun hmem => ?_⟩
  · exact absurd (hall _ hmem) (by decide)
  · exact absurd (hall _ hmem) (by decide)

theorem plain_of_valid : Plain pluginId.toList := by
  obtain ⟨hne, -, hdot⟩ := valid_units hid
  refine ⟨hne, fun h => hdot ?_, fun h => hdot ?_⟩
  · rw [h]
    decide
  · rw [h]
    decide

theorem dir_eq : dir host pluginId =
    "storage".toList :: pluginId.toList :: resolve host.cwd host.pluginsDir.toList := by
  obtain ⟨hne, hslash, -⟩ := valid_units hid
  have hrel : ∀ b ∈ [pluginId.toList, "storage".toList], isAbsolute b = false := by
    intro b hb
    rcases mem_pair.mp hb with rfl | rfl
    · cases hl : pluginId.toList with
      | nil => rfl
      | cons c cs =>
        have hc : c ≠ '/' := fun heq => hslash (hl ▸ heq ▸ mem_cons_self)
        simpa [isAbsolute] using hc
    · rfl
  have hcomps : [pluginId.toList, "storage".toList].flatMap components =
      [pluginId.toList] ++ ["storage".toList] := by
    simp only [flatMap_cons, flatMap_nil, append_nil, components_eq_singleton hslash]
    rfl
  rw [dir, storageDir, resolve_join fun _ => hrel, hcomps, walk_append, walk_singleton,
    walk_singleton, push_plain (plain_of_valid hid)]
  exact push_plain (by decide)

end ValidId

theorem file_eq (key : String) : file host pluginId key =
    walk (dir host pluginId) (components (key ++ ".json").toList) := by
  have hdir : storageDir host pluginId = [] →
      ∀ b ∈ [(key ++ ".json").toList], isAbsolute b = false := fun h => absurd h join_ne_nil
  rw [file, filePath, resolve_join hdir, flatMap_singleton]
  rfl

theorem dir_suffix_file {key : String} (hk : Confined key) :
    dir host pluginId <:+ file host pluginId key := by
  rw [file_eq, walk_confined hk]
  exact suffix_append _ _

theorem not_suffix_of_suffix {a b : String} {p : Place} (ha : isValidPluginId a = true)
    (hb : isValidPluginId b = true) (hne : a ≠ b) (hp : dir host b <:+ p) : ¬ dir host a <:+ p := by
  intro hp'
  have hlen : (dir host a).length = (dir host b).length := by
    rw [dir_eq ha, dir_eq hb]
    rfl
  have heq : dir host a = dir host b :=
    (suffix_of_suffix_length_le hp' hp (Nat.le_of_eq hlen)).eq_of_length hlen
  rw [dir_eq ha, dir_eq hb] at heq
  exact hne (String.toList_inj.mp (List.cons.inj (List.cons.inj heq).2).1)

end Places

/-! ## What a call changes -/

/-- The two trees have the same files outside a directory, and the same directories but for those on
the way to it. -/
structure SameOutside (d : Place) (t t' : FileTree C) : Prop where
  files : ∀ p, ¬ d <:+ p → t'.readFile p = t.readFile p
  dirs : ∀ p, ¬ d <:+ p → ¬ p <:+ d → t'.isDir p = t.isDir p
  children : ∀ p, (∀ n, ¬ d <:+ n :: p) → (∀ n, ¬ n :: p <:+ d) → t'.children p = t.children p

section SameOutside

variable {host : Host} {pluginId : String} {d p : Place} {t t' t'' : FileTree C} {c : C}

namespace SameOutside

theorem refl : SameOutside d t t := ⟨fun _ _ => rfl, fun _ _ _ => rfl, fun _ _ _ => rfl⟩

theorem trans (h : SameOutside d t t') (h' : SameOutside d t' t'') : SameOutside d t t'' where
  files p hp := (h'.files p hp).trans (h.files p hp)
  dirs p hp hp' := (h'.dirs p hp hp').trans (h.dirs p hp hp')
  children p hp hp' := (h'.children p hp hp').trans (h.children p hp hp')

theorem of_find (hfind : ∀ p, ¬ d <:+ p → t'.find p = t.find p)
    (hchildren : ∀ p, (∀ n, ¬ d <:+ n :: p) → t'.children p = t.children p) :
    SameOutside d t t' where
  files p hp := by rw [FileTree.readFile, hfind p hp]; rfl
  dirs p hp _ := isDir_congr (hfind p hp)
  children p hp _ := hchildren p hp

theorem writeFile (hw : t.writeFile p c = some t') (hp : d <:+ p) : SameOutside d t t' := by
  refine of_find (fun q hq => find_writeFile_ne hw ?_) fun q hq => ?_
  · rintro rfl
    exact hq hp
  · cases p with
    | nil => simp [FileTree.writeFile] at hw
    | cons n p =>
      refine children_writeFile hw ?_
      rintro rfl
      exact hq n hp

theorem unlink (hu : t.unlink p = some t') (hp : d <:+ p) : SameOutside d t t' := by
  refine of_find (fun q hq => find_unlink_ne hu ?_) fun q hq => ?_
  · rintro rfl
    exact hq hp
  · refine children_unlink hu ?_
    rintro n rfl
    exact hq n hp

theorem rm : SameOutside d t (t.rm d) :=
  of_find (fun _ hp => find_rm.trans (if_neg hp)) fun _ hp => children_rm hp

theorem mkdirs : SameOutside d t (t.mkdirs d) where
  files _ _ := readFile_mkdirs
  dirs _ _ hp := isDir_congr (find_mkdirs_ne hp)
  children _ _ hp := children_mkdirs hp

end SameOutside

theorem sameOutside_call {c : Call V} (hc : c.Confined) :
    SameOutside (dir host pluginId) t (call codec host pluginId t c) := by
  cases c with
  | get key => exact .refl
  | set key value =>
    unfold call set
    dsimp only
    split
    · exact .refl
    · rename_i t' hmk
      have hdir : SameOutside (dir host pluginId) t t' := eq_mkdirs_of_mkdirp hmk ▸ .mkdirs
      split
      · exact hdir
      · rename_i t'' hwrite
        obtain ⟨text, -, hwrite⟩ := Option.bind_eq_some_iff.mp hwrite
        exact hdir.trans (.writeFile hwrite (dir_suffix_file hc))
  | delete key =>
    unfold call delete
    dsimp only
    cases hu : t.unlink (file host pluginId key) with
    | none => exact .refl
    | some t' => exact .unlink hu (dir_suffix_file hc)
  | clear => exact .rm

end SameOutside

def run (t : FileTree C) (calls : List (Call V)) : FileTree C :=
  calls.foldl (call codec host pluginId) t

section Isolation

variable {host : Host} {a b : String}

theorem sameOutside_run {calls : List (Call V)} (hc : ∀ c ∈ calls, c.Confined) (t : FileTree C) :
    SameOutside (dir host a) t (run codec host a t calls) := by
  induction calls generalizing t with
  | nil => exact .refl
  | cons c calls ih =>
    have hfirst : SameOutside (dir host a) t (call codec host a t c) :=
      sameOutside_call codec (hc c mem_cons_self)
    exact hfirst.trans (ih (fun c' hc' => hc c' (mem_cons_of_mem c hc')) _)

/-- **Storages are isolated, as long as no key leads upwards.** -/
theorem isolated_of_confined (codec : Codec V C) (host : Host) (ha : isValidPluginId a = true)
    (hb : isValidPluginId b = true) (hne : a ≠ b) (t : FileTree C) (calls : List (Call V))
    (hc : ∀ c ∈ calls, c.Confined) :
    (∀ c ∈ calls, ∀ p, c.file? host a = some p → dir host a <:+ p) ∧
    (∀ p, ¬ dir host a <:+ p → (run codec host a t calls).readFile p = t.readFile p) ∧
    (∀ key, Confined key → get codec host b (run codec host a t calls) key =
      get codec host b t key) ∧
    keys host b (run codec host a t calls) = keys host b t := by
  have hsame : SameOutside (dir host a) t (run codec host a t calls) := sameOutside_run codec hc t
  have houtside : ∀ {p}, dir host b <:+ p → ¬ dir host a <:+ p :=
    fun hp => not_suffix_of_suffix ha hb hne hp
  refine ⟨?_, hsame.files, ?_, ?_⟩
  · intro c hmem p hp
    cases c with
    | clear => simp [Call.file?] at hp
    | get key | set key | delete key =>
      cases hp
      exact dir_suffix_file (hc _ hmem)
  · intro key hkey
    rw [get, hsame.files _ (houtside (dir_suffix_file hkey))]
    rfl
  · have hself := houtside (suffix_refl (dir host b))
    -- neither of the two directories is on the way to the other
    have hway : ∀ {p}, dir host b <:+ p → ¬ p <:+ dir host a := by
      intro p hp hp'
      exact not_suffix_of_suffix hb ha hne.symm (suffix_refl _) (hp.trans hp')
    unfold keys FileTree.readdir
    rw [hsame.dirs _ hself (hway (suffix_refl _)),
      hsame.children _ (fun n => houtside (suffix_cons n _)) fun n => hway (suffix_cons n _)]

def flagCodec : Codec Bool Bool := ⟨some, some⟩

def sampleHost : Host := ⟨[], "/plugins"⟩

/-- The storage of `b` with one value in it. -/
def sampleTree : FileTree Bool := (set flagCodec sampleHost "b" .empty "k" false).2

def harmlessCalls : List (Call Bool) :=
  [.set "k" true, .set "./x/../k2" true, .get "/etc/passwd", .delete "k", .clear]

theorem isolated_harmlessCalls : get flagCodec sampleHost "b" sampleTree "k" = some false ∧
    get flagCodec sampleHost "b" (run flagCodec sampleHost "a" sampleTree harmlessCalls) "k" =
      some false := by
  have hbefore : get flagCodec sampleHost "b" sampleTree "k" = some false := by decide
  have hisolated := isolated_of_confined flagCodec sampleHost (a := "a") (b := "b") (by decide)
    (by decide) (by decide) sampleTree harmlessCalls (by
      intro c hc
      simp only [harmlessCalls, mem_cons, not_mem_nil, or_false] at hc
      rcases hc with rfl | rfl | rfl | rfl | rfl
      · show Confined "k"
        decide
      · show Confined "./x/../k2"
        decide
      · show Confined "/etc/passwd"
        decide
      · show Confined "k"
        decide
      · trivial)
  exact ⟨hbefore, (hisolated.2.2.1 "k" (by decide)).trans hbefore⟩

theorem key_escapes : isValidPluginId "a" = true ∧ isValidPluginId "b" = true ∧
    get flagCodec sampleHost "b" sampleTree "k" = some false ∧
    get flagCodec sampleHost "a" sampleTree "../../b/storage/k" = some false ∧
    get flagCodec sampleHost "b"
      (run flagCodec sampleHost "a" sampleTree [.set "../../b/storage/k" true]) "k" = some true ∧
    file sampleHost "a" "../plugin" = ["plugin.json".toList, "a".toList, "plugins".toList] :=
  ⟨by decide, by decide, by decide, by decide +kernel, by decide +kernel, by decide⟩

end Isolation

end Storage

end Bridge.Plugins
