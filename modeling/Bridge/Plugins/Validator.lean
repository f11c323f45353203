import Bridge.Plugins.Storage
import Mathlib.Data.List.Infix

/-!
# The manifest of a plugin, and its main file

`validateManifest` goes through the manifest and notes what is wrong with it. The entry point is
checked as a text: it has the suffix of a script, and nowhere two dots in a row. `PluginLoader.load`
joins it to the directory of the plugin, and `mainFile_inside` says that this never leads out of the
directory: no component of an accepted entry point is `..`, and one of them is a name.
-/

namespace Bridge.Plugins.Validator

open Lib Path

/-! ## The manifest -/

structure Metadata where
  id : String
  name : String
  version : String
  author : String
  description : String
  license : String

structure Permissions where
  read : List String
  write : List String
  hosts : List String
  exec : Bool

structure ConfigProperty where
  type : String
  description : String

/-- The properties of the schema are `none` if they are missing or not an object, and so is a
property. -/
structure Manifest where
  metadata : Option Metadata
  capabilities : Bool
  main : String
  permissions : Option Permissions
  configuration : Option (Option (List (String × Option ConfigProperty)))

structure ValidationResult where
  errors : List String
  warnings : List String

namespace ValidationResult

/-- `errors.length === 0` -/
def valid (r : ValidationResult) : Bool := r.errors.isEmpty

def concat (rs : List ValidationResult) : ValidationResult :=
  ⟨rs.flatMap errors, rs.flatMap warnings⟩

def error (when : Bool) (text : String) : ValidationResult := ⟨if when then [text] else [], []⟩

def warning (when : Bool) (text : String) : ValidationResult := ⟨[], if when then [text] else []⟩

end ValidationResult

open ValidationResult

/-! ## The checks of a text -/

def isDigit (c : Char) : Bool := decide ('0' ≤ c) && decide (c ≤ '9')

/-- `[a-zA-Z0-9.-]` -/
def isTag (c : Char) : Bool :=
  (decide ('a' ≤ c) && decide (c ≤ 'z')) || (decide ('A' ≤ c) && decide (c ≤ 'Z')) || isDigit c ||
    c == '.' || c == '-'

/-- `[class]+` at the beginning of a text: what is left of it. Nothing else of the class follows. -/
def oneOrMore (cls : Char → Bool) (l : List Char) : Option (List Char) :=
  if (l.takeWhile cls).isEmpty then none else some (l.dropWhile cls)

def literal (c : Char) : List Char → Option (List Char)
  | [] => none
  | d :: l => if d = c then some l else none

/-- `(c[a-zA-Z0-9.-]+)?` -/
def tagged (c : Char) (l : List Char) : Option (List Char) :=
  match literal c l with
  | none => some l
  | some rest => oneOrMore isTag rest

/-- `/^\d+\.\d+\.\d+(-[a-zA-Z0-9.-]+)?(\+[a-zA-Z0-9.-]+)?$/` -/
def isValidVersion (version : String) : Bool :=
  (oneOrMore isDigit version.toList >>= literal '.' >>= oneOrMore isDigit >>= literal '.' >>=
    oneOrMore isDigit >>= tagged '-' >>= tagged '+') == some []

/-- `/\.(js|mjs|ts)$/`, and not two dots in a row -/
def isValidEntryPoint (main : String) : Bool :=
  [".js", ".mjs", ".ts"].any (fun suffix => suffix.toList.isSuffixOf main.toList) &&
    !decide ("..".toList <:+: main.toList)

def dangerous : List String :=
  ["/", "/etc", "/usr", "/bin", "/sbin", "/boot", "/dev", "/proc", "/sys", "C:\\Windows",
    "C:\\Program Files"]

def isDangerousPath (path : String) : Bool :=
  dangerous.any fun d => path == d || (d ++ "/").toList.isPrefixOf path.toList ||
    (d ++ "\\").toList.isPrefixOf path.toList

def allTags (l : List Char) : Bool := !l.isEmpty && l.all isTag

def isIPv4 (l : List Char) : Bool :=
  let parts := l.splitOn '.'
  parts.length == 4 && parts.all fun part =>
    decide (1 ≤ part.length) && decide (part.length ≤ 3) && part.all isDigit

def isValidHost (host : String) : Bool :=
  let l := host.toList
  l == ['*'] || (['*', '.'].isPrefixOf l && allTags (l.drop 2)) || allTags l || isIPv4 l ||
    l.map Char.toLower == "localhost".toList || host == "127.0.0.1"

def validateMetadata (metadata : Metadata) : ValidationResult := concat
  [error (metadata.id == "") "Missing metadata.id",
    error (metadata.name == "") "Missing metadata.name",
    error (metadata.version == "") "Missing metadata.version",
    error (metadata.author == "") "Missing metadata.author",
    error (metadata.id != "" && !isValidPluginId metadata.id)
      "Invalid plugin ID format. Must be lowercase alphanumeric with hyphens",
    error (metadata.version != "" && !isValidVersion metadata.version)
      "Invalid version format. Must follow semantic versioning",
    warning (metadata.description == "") "Missing metadata.description",
    warning (metadata.license == "") "Missing metadata.license"]

def validatePermissions (permissions : Permissions) : ValidationResult := concat
  [concat (permissions.read.map fun path =>
      error (isDangerousPath path) ("Dangerous filesystem read path: " ++ path)),
    concat (permissions.write.map fun path =>
      error (isDangerousPath path) ("Dangerous filesystem write path: " ++ path)),
    concat (permissions.hosts.map fun host =>
      error (!isValidHost host) ("Invalid network host: " ++ host)),
    warning permissions.exec "Plugin requests system execution permissions"]

def validateProperty : String × Option ConfigProperty → ValidationResult
  | (key, none) => error true ("Invalid configuration property: " ++ key)
  | (key, some prop) => concat
    [error (!(["string", "number", "boolean", "array", "object"].contains prop.type))
        ("Invalid type for configuration property: " ++ key),
      warning (prop.description == "") ("Missing description for configuration property: " ++ key)]

def validateConfigurationSchema : Option (List (String × Option ConfigProperty)) → ValidationResult
  | none => error true "Invalid configuration schema: missing properties"
  | some properties => concat (properties.map validateProperty)

def validateMain (main : String) : ValidationResult :=
  if main == "" then error true "Missing main entry point"
  else error (!isValidEntryPoint main) "Invalid main entry point format"

def validateManifest (manifest : Manifest) : ValidationResult := concat
  [(manifest.metadata.map validateMetadata).getD (error true "Missing metadata"),
    error (!manifest.capabilities) "Missing capabilities",
    validateMain manifest.main,
    (manifest.permissions.map validatePermissions).getD ⟨[], []⟩,
    (manifest.configuration.map validateConfigurationSchema).getD ⟨[], []⟩]

/-- The main file that `PluginLoader.load` opens. -/
def mainFile (pluginPath : List Char) (manifest : Manifest) : List Char :=
  join [pluginPath, manifest.main.toList]

theorem valid_concat {rs : List ValidationResult} :
    (concat rs).valid = true ↔ ∀ r ∈ rs, r.valid = true := by
  simp [ValidationResult.concat, valid]

theorem isValidEntryPoint_of_valid {manifest : Manifest}
    (h : (validateManifest manifest).valid = true) : isValidEntryPoint manifest.main = true := by
  have hmain : (validateMain manifest.main).valid = true := valid_concat.mp h _ (by simp)
  rw [validateMain] at hmain
  split at hmain
  · simp [valid, error] at hmain
  · simpa [valid, error] using hmain

def Inside (dir file : List Char) : Prop :=
  ∃ names, names ≠ [] ∧ (∀ n ∈ names, Plain n) ∧
    ∀ cwd, resolve cwd file = names.reverse ++ resolve cwd dir

theorem inside_of_join {dir path : List Char} (hdir : dir ≠ [])
    (hup : ∀ c ∈ components path, c ≠ dotdot)
    (hname : ∃ c ∈ components path, Plain c) : Inside dir (join [dir, path]) := by
  refine ⟨(components path).filter fun c => Plain c, ?_, ?_, ?_⟩
  · obtain ⟨c, hc, hplain⟩ := hname
    exact List.ne_nil_of_mem (List.mem_filter.mpr ⟨hc, decide_eq_true hplain⟩)
  · intro n hn
    exact of_decide_eq_true (List.mem_filter.mp hn).2
  · intro cwd
    rw [resolve_join fun h => absurd h hdir, List.flatMap_singleton]
    exact walk_of_no_dotdot hup

/-- **The main file of an accepted manifest is inside the directory of the plugin.** -/
theorem mainFile_inside (manifest : Manifest) (pluginPath : List Char)
    (hpath : isAbsolute pluginPath = true) (hvalid : (validateManifest manifest).valid = true) :
    Inside pluginPath (mainFile pluginPath manifest) := by
  have hentry := isValidEntryPoint_of_valid hvalid
  simp only [isValidEntryPoint, Bool.and_eq_true, Bool.not_eq_true',
    decide_eq_false_iff_not] at hentry
  obtain ⟨hsuffix, hdots⟩ := hentry
  have hne : pluginPath ≠ [] := by
    rintro rfl
    simp [isAbsolute] at hpath
  apply inside_of_join hne
  · rintro c hc rfl
    exact hdots (infix_of_mem_components hc)
  · -- the suffix has a letter in it, and so has the component it stands in
    have hletter : 's' ∈ manifest.main.toList := by
      obtain ⟨suffix, hmem, hs⟩ := List.any_eq_true.mp hsuffix
      apply (List.isSuffixOf_iff_suffix.mp hs).subset
      simp only [List.mem_cons, List.not_mem_nil, or_false] at hmem
      rcases hmem with rfl | rfl | rfl <;> simp
    obtain ⟨c, hc, hs⟩ := exists_mem_components hletter (by decide)
    refine ⟨c, hc, ?_, ?_, ?_⟩ <;> rintro rfl <;> simp [dot, dotdot] at hs

def sampleManifest : Manifest where
  metadata := some ⟨"sample", "Sample", "1.0.0", "author", "", ""⟩
  capabilities := true
  main := "/dist/./index.js"
  permissions := none
  configuration := none

theorem mainFile_inside_sample : isAbsolute "/plugins/sample".toList = true ∧
    (validateManifest sampleManifest).valid = true ∧
    Inside "/plugins/sample".toList (mainFile "/plugins/sample".toList sampleManifest) :=
  have hvalid : (validateManifest sampleManifest).valid = true := by decide +kernel
  ⟨by decide, hvalid, mainFile_inside sampleManifest "/plugins/sample".toList (by decide) hvalid⟩

end Bridge.Plugins.Validator
