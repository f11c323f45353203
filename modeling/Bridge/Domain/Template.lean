import Bridge.Lib.Averages
import Bridge.Lib.PlaceholderTokens
import Bridge.Lib.Thrown
import Mathlib.Tactic.LinearCombination
import Mathlib.Tactic.Ring

/-!
# Templates

A `Template` with all that its methods read, but for the texts and tags that are only passed on. The
names of its variables go into regular expressions as they are; the names here are words, for which
the expression means what it says (`Lib.Placeholder`).
-/

namespace Bridge.Domain

open Lib Utf16 Placeholder List

/-- A variable with values in `V`. -/
structure TemplateVariable (V : Type) where
  name : Units
  required : Bool
  -- nothing stands for `undefined`
  defaultValue : Option V := none

/-- What `create` is given. -/
structure NewTemplate (V : Type) where
  name : Units
  promptTemplate : Units
  vars : List (TemplateVariable V)

/-- An object of the class `Template`. -/
structure TemplateEntity (V : Type) extends NewTemplate V where
  usageCount : Nat
  rating : Rat
  updatedAt : Int

/-- A `Record<string, any>`: its own members in the order in which they are enumerated, and what it
inherits. -/
structure Record (V : Type) where
  entries : List (Units × V)
  distinct : (entries.map Prod.fst).Nodup
  inherits : Units → Bool

namespace TemplateEntity

variable {V : Type}

/-! ## Validation -/

inductive TemplateError
  | emptyName
  | longName
  | emptyPrompt
  | duplicate (name : Units)
  | unused (name : Units)
  | undefined (name : Units)
  | rating
  deriving DecidableEq

def TemplateError.text : TemplateError → Units
  | .emptyName => ofString "Template name cannot be empty"
  | .longName => ofString "Template name cannot exceed 100 characters"
  | .emptyPrompt => ofString "Prompt template cannot be empty"
  | .duplicate name => ofString "Duplicate variable name: " ++ name
  | .unused name => ofString "Variable " ++ name ++ ofString " is not used in the template"
  | .undefined name => ofString "Undefined variable in template: " ++ name
  | .rating => ofString "Rating must be between 0 and 5"

/-- The loop over the variables; `names` are those it has seen. -/
def variableErrors (promptTemplate : Units) : List Units → List (TemplateVariable V) →
    List TemplateError
  | _, [] => []
  | names, v :: vars =>
    (if names.contains v.name then [.duplicate v.name] else []) ++
      (if test (ofName v.name) promptTemplate then [] else [.unused v.name]) ++
      variableErrors promptTemplate (v.name :: names) vars

/-- `\{\{\s*|\s*\}\}` -/
def braces : Pattern := fun s =>
  if opening.isPrefixOf s then some (2 + ((s.drop 2).takeWhile isSpace).length)
  else if closing.isPrefixOf (s.dropWhile isSpace) then some ((s.takeWhile isSpace).length + 2)
  else none

/-- `match.replace(/\{\{\s*|\s*\}\}/g, '')` -/
def varName (matched : Units) : Units := replaceAll braces [] matched

def undefinedErrors (names : List Units) (promptTemplate : Units) : List TemplateError :=
  ((allMatches ofWord promptTemplate).map varName).filterMap fun name =>
    if names.contains name then none else some (.undefined name)

def errors (t : TemplateEntity V) : List TemplateError :=
  (if trim t.name = [] then [.emptyName] else []) ++
    (if 100 < t.name.length then [.longName] else []) ++
    (if trim t.promptTemplate = [] then [.emptyPrompt] else []) ++
    variableErrors t.promptTemplate [] t.vars ++
    undefinedErrors (t.vars.map TemplateVariable.name) t.promptTemplate ++
    if t.rating < 0 ∨ 5 < t.rating then [.rating] else []

structure Validation where
  isValid : Bool
  errors : List Units

def validate (t : TemplateEntity V) : Validation where
  isValid := t.errors.isEmpty
  errors := t.errors.map TemplateError.text

/-- The second loop of `renderPrompt`. -/
def replaceDefault (string : V → Units) (prompt : Units) (v : TemplateVariable V) : Units :=
  match v.defaultValue with
  | some value => replaceAll (ofName v.name) (string value) prompt
  | none => prompt

/-- `String(value)` is a parameter. -/
def renderPrompt (string : V → Units) (t : TemplateEntity V) (given : Record V) :
    Except Thrown Units :=
  -- `in` finds what is inherited, too
  match t.vars.find? fun v =>
      v.required && !(given.entries.any (·.1 = v.name) || given.inherits v.name) with
  | some v => .error (.value (.text (ofString "Required variable missing: " ++ v.name)) none)
  | none =>
    let prompt := given.entries.foldl
      (fun prompt entry => replaceAll (ofName entry.1) (string entry.2) prompt) t.promptTemplate
    .ok (t.vars.foldl (replaceDefault string) prompt)

/-! ## Usage and rating -/

def incrementUsage (now : Int) (t : TemplateEntity V) : TemplateEntity V :=
  { t with usageCount := t.usageCount + 1, updatedAt := now }

def updateRating (now : Int) (t : TemplateEntity V) (newRating : Rat) :
    Except Thrown (TemplateEntity V) :=
  if newRating < 0 ∨ 5 < newRating then .error (.error "Rating must be between 0 and 5")
  else .ok { t with
    rating := (t.rating * t.usageCount + newRating) / (t.usageCount + 1)
    updatedAt := now }

/-- The constructor calls `validate`, and does not look at what it answers. -/
def create (now : Int) (props : NewTemplate V) : TemplateEntity V where
  toNewTemplate := props
  usageCount := 0
  rating := 0
  updatedAt := now

inductive Call
  | incrementUsage
  | updateRating (newRating : Rat)

def call (t : TemplateEntity V) : Int × Call → TemplateEntity V
  | (now, .incrementUsage) => t.incrementUsage now
  | (now, .updateRating newRating) =>
    match t.updateRating now newRating with
    | .ok t' => t'
    | .error _ => t

def calls (t : TemplateEntity V) (history : List (Int × Call)) : TemplateEntity V :=
  history.foldl call t

def ratings (history : List (Int × Call)) : List Rat :=
  history.filterMap fun c => match c.2 with
    | .incrementUsage => none
    | .updateRating newRating => some newRating

/-- How often `incrementUsage` was called. -/
def usages (history : List (Int × Call)) : Nat :=
  history.countP fun c => match c.2 with
    | .incrementUsage => true
    | .updateRating _ => false

/-! ## The rating of a template -/

section Rating

variable {now : Int} {props : NewTemplate V} {history before : List (Int × Call)} {r : Rat}

theorem calls_concat (t : TemplateEntity V) (history : List (Int × Call)) (c : Int × Call) :
    t.calls (history ++ [c]) = (t.calls history).call c := by
  rw [calls, foldl_append]
  rfl

theorem ratings_append (history history' : List (Int × Call)) :
    ratings (history ++ history') = ratings history ++ ratings history' := filterMap_append

theorem usages_append (history history' : List (Int × Call)) :
    usages (history ++ history') = usages history + usages history' := countP_append

theorem updateRating_of_range (time : Int) (t : TemplateEntity V) (h : 0 ≤ r ∧ r ≤ 5) :
    t.call (time, .updateRating r) =
      { t with rating := (t.rating * t.usageCount + r) / (t.usageCount + 1), updatedAt :=
      time } := by
  have hrange : ¬ (r < 0 ∨ 5 < r) := by
    rw [not_or, not_lt, not_lt]
    exact h
  simp [call, updateRating, if_neg hrange]

theorem usageCount_call_updateRating (time : Int) (t : TemplateEntity V) (r : Rat) :
    (t.call (time, .updateRating r)).usageCount = t.usageCount := by
  simp only [call, updateRating]
  split
  · rename_i t' ht'
    split at ht'
    · cases ht'
    · cases ht'
      rfl
  · rfl

theorem usageCount_calls (history : List (Int × Call)) :
    ((create now props).calls history).usageCount = usages history := by
  induction history using reverseRecOn with
  | nil => rfl
  | append_singleton history c ih =>
    obtain ⟨time, c⟩ := c
    rw [calls_concat, usages_append]
    cases c with
    | incrementUsage =>
      rw [← ih]
      rfl
    | updateRating r => rw [usageCount_call_updateRating, ih]; rfl

theorem weighted_eq_iff (m r : Rat) (u k : Nat) :
    (m * u + r) / (u + 1) = (m * k + r) / (k + 1) ↔ u = k ∨ r = m := by
  have hu : (u : Rat) + 1 ≠ 0 := by exact_mod_cast Nat.succ_ne_zero u
  have hk : (k : Rat) + 1 ≠ 0 := by exact_mod_cast Nat.succ_ne_zero k
  rw [div_eq_div_iff hu hk]
  constructor
  · intro h
    have hproduct : ((u : Rat) - k) * (m - r) = 0 := by linear_combination h
    obtain hzero | hzero := mul_eq_zero.mp hproduct
    · exact .inl (by exact_mod_cast sub_eq_zero.mp hzero)
    · exact .inr (sub_eq_zero.mp hzero).symm
  · rintro (rfl | rfl)
    · rfl
    · ring

theorem rating_concat {time : Int}
    (hmean : ((create now props).calls before).rating = mean (ratings before)) (h : 0 ≤ r ∧ r ≤ 5) :
    ((create now props).calls (before ++ [(time, .updateRating r)])).rating =
        mean (ratings (before ++ [(time, .updateRating r)])) ↔
      usages before = (ratings before).length ∨ r = mean (ratings before) := by
  have hratings : ratings (before ++ [(time, .updateRating r)]) = ratings before ++ [r] :=
    ratings_append _ _
  rw [calls_concat, updateRating_of_range time _ h, hratings, mean_concat, ← weighted_eq_iff]
  simp [hmean, usageCount_calls]

end Rating

/-- The rating is the average of all ratings so far, at every moment of a history, exactly if at
each rating the usage count is the number of the ratings before it, or the rating is their average.
-/
theorem rating_is_mean_iff (now : Int) (props : NewTemplate V) (history : List (Int × Call))
    (hrange : ∀ r ∈ ratings history, 0 ≤ r ∧ r ≤ 5) : (∀ before, before <+: history →
      ((create now props).calls before).rating = mean (ratings before)) ↔
    ∀ before time r, before ++ [(time, .updateRating r)] <+: history →
      usages before = (ratings before).length ∨ r = mean (ratings before) := by
  have hmem : ∀ {before : List (Int × Call)} {time : Int} {r : Rat},
      before ++ [(time, .updateRating r)] <+: history → 0 ≤ r ∧ r ≤ 5 := by
    intro before time r hprefix
    obtain ⟨rest, rfl⟩ := hprefix
    refine hrange r ?_
    rw [ratings_append, ratings_append]
    exact mem_append_left _ (mem_append_right _ mem_cons_self)
  constructor
  · intro hall before time r hprefix
    have hbefore := hall before ((prefix_append _ _).trans hprefix)
    exact (rating_concat hbefore (hmem hprefix)).mp (hall _ hprefix)
  · intro hweights before
    induction before using reverseRecOn with
    | nil => exact fun _ => (zero_div _).symm
    | append_singleton before c ih =>
      intro hprefix
      have hbefore := ih ((prefix_append _ _).trans hprefix)
      obtain ⟨time, c⟩ := c
      cases c with
      | incrementUsage =>
        have hnone : ratings [(time, Call.incrementUsage)] = [] := rfl
        rw [calls_concat, ratings_append, hnone, append_nil]
        exact hbefore
      | updateRating r =>
        exact (rating_concat hbefore (hmem hprefix)).mpr (hweights before time r hprefix)

def usedBetween : List (Int × Call) :=
  [(1, .updateRating 5), (2, .incrementUsage), (3, .updateRating 3)]

theorem rating_is_mean_usedBetween :
    ratings usedBetween = [5, 3] ∧ ∀ before, before <+: usedBetween →
      ((create 0 (⟨[], [], []⟩ : NewTemplate Unit)).calls before).rating = mean
        (ratings before) := by
  refine ⟨rfl, (rating_is_mean_iff 0 _ usedBetween ?_).mpr ?_⟩
  · decide +kernel
  · rintro before time r ⟨rest, h⟩
    obtain _ | ⟨a, _ | ⟨b, _ | ⟨c, before⟩⟩⟩ := before
    · exact .inl rfl
    · cases h
    · simp only [usedBetween, cons_append, nil_append, cons.injEq] at h
      obtain ⟨rfl, rfl, -⟩ := h
      exact .inl rfl
    · simp [usedBetween] at h

theorem rating_forgotten : ((create 0 (⟨[], [], []⟩ : NewTemplate Unit)).calls
    [(1, .updateRating 5), (2, .updateRating 3)]).rating = 3 ∧
    mean (ratings [(1, .updateRating 5), (2, .updateRating 3)]) = 4 := by
  decide +kernel

end TemplateEntity

end Bridge.Domain
