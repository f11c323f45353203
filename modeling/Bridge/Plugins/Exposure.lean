import Bridge.Plugins.Validator

/-!
# The directories that a plugin may not ask for

`isDangerousPath` looks at the path as it is written, and what a path leads to is settled by where
it leads. The two agree on a path that leaves the root and does not come back to it
(`not_exposed_of_valid`). -/

namespace Bridge.Plugins.Validator

open Lib Path List ValidationResult

def systemDirectories : List Name :=
  ["etc", "usr", "bin", "sbin", "boot", "dev", "proc", "sys"].map String.toList

/-- The path, once normalised, is the root, or a system directory, or below one. -/
def Exposed (path : String) : Prop :=
  isAbsolute path.toList = true ∧ (normalizeString path.toList false = [] ∨
    ∃ d ∈ systemDirectories, [d] <+: normalizeString path.toList false)

/-- After the first component, the path is never at the root. -/
def LeavesRoot (path : List Char) : Prop := ∀ n, 1 < n → walk [] ((components path).take n) ≠ []

/-- What is lowest on the stack stays there, if the stack is never empty. -/
theorem getLast?_walk {p : Place} {bottom : Name} {names : List Name}
    (hp : p.getLast? = some bottom)
    (h : ∀ n, walk p (names.take n) ≠ []) : (walk p names).getLast? = some bottom := by
  induction names generalizing p with
  | nil => exact hp
  | cons c names ih =>
    refine ih ?_ fun n => h (n + 1)
    obtain ⟨top, rest, rfl⟩ := exists_cons_of_ne_nil (h 0)
    have hone : push false (top :: rest) c ≠ [] := h 1
    obtain hskip | rfl | hc := name_cases c
    · rwa [push_skip hskip]
    · by_cases htop : top = dotdot
      · subst htop
        rwa [push_dotdot_dotdot, getLast?_cons_cons]
      · rw [push_dotdot htop] at hone ⊢
        obtain ⟨next, rest, rfl⟩ := exists_cons_of_ne_nil hone
        rwa [getLast?_cons_cons] at hp
    · rwa [push_plain hc, getLast?_cons_cons]

variable {path : String}

theorem isDangerousPath_of_components {d : Name} {names : List Name} (hd : d ∈ systemDirectories)
    (h : components path.toList = [] :: d :: names) : isDangerousPath path = true := by
  have hlisted : ∀ d ∈ systemDirectories, ∃ e ∈ dangerous, e.toList = '/' :: d := by decide
  obtain ⟨e, he, htext⟩ := hlisted d hd
  have hpath : path.toList = ['/'].intercalate ([] :: d :: names) := h ▸ intercalate_components.symm
  refine any_eq_true.mpr ⟨e, he, ?_⟩
  cases names with
  | nil =>
    have heq : path = e := String.toList_inj.mp (by rw [hpath, htext]; simp [intercalate_cons_cons])
    simp [heq]
  | cons n names =>
    have hprefix : (e ++ "/").toList <+: path.toList := by
      rw [hpath, String.toList_append, htext]
      exact ⟨['/'].intercalate (n :: names), by simp [intercalate_cons_cons]⟩
    rw [List.isPrefixOf_iff_prefix.mpr hprefix, Bool.or_true, Bool.true_or]

theorem not_exposed (hsafe : isDangerousPath path = false)
    (hroot : isAbsolute path.toList = true → LeavesRoot path.toList) : ¬ Exposed path := by
  rintro ⟨habs, hexposed⟩
  obtain ⟨rest, hrest⟩ := head?_eq_some_iff.mp (eq_of_beq habs)
  obtain ⟨first, names, hnames⟩ := exists_cons_of_ne_nil (splitOn_ne_nil (a := '/') rest)
  have hcomponents : components path.toList = [] :: first :: names := by
    rw [components, hrest, splitOn_cons_eq_if_modifyHead, beq_self_eq_true, if_pos rfl, hnames]
  have hleaves := hroot habs
  rw [LeavesRoot, hcomponents] at hleaves
  have hplain : Plain first := by
    have hone : push false [] first ≠ [] := hleaves 2 (by omega)
    obtain hskip | rfl | hplain := name_cases first
    · exact absurd (push_skip hskip) hone
    · exact absurd rfl hone
    · exact hplain
  have hfirst : (normalizeString path.toList false).head? = some first := by
    have hwalk : ∀ names, walk [] ([] :: first :: names) = walk [first] names :=
      fun names => congrArg (walk · names) (push_plain hplain)
    have hlast : (walk [first] names).getLast? = some first :=
      getLast?_walk rfl fun n => hwalk _ ▸ hleaves (n + 2) (by omega)
    rw [normalizeString, hcomponents, head?_reverse]
    rwa [← hwalk] at hlast
  rcases hexposed with hnil | ⟨d, hd, tail, htail⟩
  · rw [hnil] at hfirst
    cases hfirst
  · rw [← htail] at hfirst
    cases hfirst
    simp [isDangerousPath_of_components hd hcomponents] at hsafe

/-- **No path of permissions that are accepted leads to a system directory, if** none that begins at
the root comes back to it. -/
theorem not_exposed_of_valid (permissions : Permissions)
    (hvalid : (validatePermissions permissions).valid = true)
    (hroot : ∀ path ∈ permissions.read ++ permissions.write, isAbsolute path.toList = true →
      LeavesRoot path.toList) :
    ∀ path ∈ permissions.read ++ permissions.write, ¬ Exposed path := by
  intro path hpath
  refine not_exposed ?_ (hroot path hpath)
  simp only [validatePermissions, valid_concat, forall_mem_cons, forall_mem_map] at hvalid
  obtain hpath | hpath := mem_append.mp hpath
  · simpa [error, valid] using hvalid.1 path hpath
  · simpa [error, valid] using hvalid.2.1 path hpath

def samplePermissions (read : String) : Permissions := ⟨[read], [], [], false⟩

theorem not_exposed_sample : (validatePermissions (samplePermissions "/data")).valid = true ∧
    ¬ Exposed "/data" := by
  have hvalid : (validatePermissions (samplePermissions "/data")).valid = true := by decide
  refine ⟨hvalid, not_exposed_of_valid _ hvalid ?_ "/data" mem_cons_self⟩
  rintro path hpath - n hn
  obtain rfl := mem_singleton.mp hpath
  rw [take_of_length_le (show (components "/data".toList).length ≤ n from hn)]
  decide

theorem exposed_sample :
    (validatePermissions (samplePermissions "/data/../etc/shadow")).valid = true ∧
    Exposed "/data/../etc/shadow" :=
  ⟨by decide, by decide, .inr ⟨"etc".toList, by decide, by decide⟩⟩

end Bridge.Plugins.Validator
