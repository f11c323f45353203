import Bridge.Domain.TaskEvents
import Bridge.Lib.Run
import Bridge.Lib.Utf16

/-!
# Valid tasks

`validate` looks at two things, the prompt and the timeout, and only answers: the constructor calls
it and drops what it says, and no method calls it at all. The timeout is changed by no method; the
prompt by `updatePrompt` alone, which takes any text. `valid_iff_guarded` says exactly which calls
keep a task valid.
-/

namespace Bridge.Domain

open Lib

structure ValidationResult where
  isValid : Bool
  errors : List String
  deriving DecidableEq, Repr

/-- `constraints?.timeout` -/
def TaskProps.timeout (p : TaskProps) : Option Rat :=
  p.metadata.constraints.bind Constraints.timeout

/-- `length`, in units of UTF-16. -/
def textLength (text : String) : Nat := (Utf16.ofString text).length

/-- `text.trim().length === 0` -/
def isBlank (text : String) : Bool := (Utf16.trim (Utf16.ofString text)).isEmpty

namespace TaskEntity

def promptErrors (prompt : String) : List String :=
  (if prompt = "" ∨ isBlank prompt then ["Task prompt cannot be empty"] else []) ++
    (if prompt ≠ "" ∧ 10000 < textLength prompt then ["Task prompt cannot exceed 10000 characters"]
    else [])

/-- A timeout of `0` is none. -/
def timeoutErrors (timeout : Option Rat) : List String :=
  match timeout with
  | none => []
  | some ms => if ms ≠ 0 ∧ ms < 1000 then ["Timeout must be at least 1000ms"] else []

def validate (t : TaskEntity) : ValidationResult :=
  let errors := promptErrors t.props.prompt ++ timeoutErrors t.props.timeout
  ⟨errors.isEmpty, errors⟩

def Valid (t : TaskEntity) : Prop := t.validate.isValid = true

instance (t : TaskEntity) : Decidable t.Valid := inferInstanceAs (Decidable (_ = true))

def AcceptablePrompt (prompt : String) : Prop := isBlank prompt = false ∧ textLength prompt ≤ 10000

instance (prompt : String) : Decidable (AcceptablePrompt prompt) :=
  inferInstanceAs (Decidable (_ ∧ _))

theorem promptErrors_eq_nil {prompt : String} :
    promptErrors prompt = [] ↔ AcceptablePrompt prompt := by
  unfold promptErrors AcceptablePrompt
  rw [List.append_eq_nil_iff]
  by_cases hempty : prompt = ""
  · subst hempty
    exact ⟨fun h => absurd h.1 (by decide), fun h => absurd h.1 (by decide)⟩
  · simp [hempty]

theorem valid_iff {t : TaskEntity} :
    t.Valid ↔ AcceptablePrompt t.props.prompt ∧ timeoutErrors t.props.timeout = [] := by
  rw [← promptErrors_eq_nil, ← List.append_eq_nil_iff, ← List.isEmpty_iff]
  rfl

/-! ## What the methods leave alone -/

/-- What `validate` looks at is the same. -/
def SameChecked (t t' : TaskEntity) : Prop :=
  t'.props.prompt = t.props.prompt ∧ t'.props.timeout = t.props.timeout

theorem SameChecked.valid_iff {t t' : TaskEntity} (h : SameChecked t t') : t'.Valid ↔ t.Valid := by
  rw [TaskEntity.valid_iff, TaskEntity.valid_iff, h.1, h.2]

variable {t : TaskEntity} {now timestamp : Nat}

theorem sameChecked_updateStatus (newStatus : TaskStatus) :
    SameChecked t ((updateStatus newStatus now timestamp).on t).2 := by
  unfold updateStatus
  rw [Prog.on_get_bind]
  cases t.canTransitionTo newStatus with
  | false | true => exact ⟨rfl, rfl⟩

theorem sameChecked_addTag (tag : String) : SameChecked t ((addTag tag now timestamp).on t).2 := by
  cases h : (t.props.metadata.tags.getD []).contains tag with
  | true =>
    rw [on_addTag_of_contains h]
    exact ⟨rfl, rfl⟩
  | false =>
    rw [on_addTag h]
    exact ⟨rfl, rfl⟩

theorem sameChecked_removeTag (tag : String) :
    SameChecked t ((removeTag tag now timestamp).on t).2 := by
  unfold removeTag
  rw [Prog.on_get_bind]
  cases t.props.metadata.tags with
  | none => exact ⟨rfl, rfl⟩
  | some tags =>
    cases hi : tags.idxOf? tag with
    | none =>
      simp only [hi]
      exact ⟨rfl, rfl⟩
    | some index =>
      simp only [hi]
      exact ⟨rfl, rfl⟩

theorem sameChecked_setPreferredAdapter (adapter : AdapterType) :
    SameChecked t ((setPreferredAdapter adapter now timestamp).on t).2 := by
  cases h : t.canBeExecutedBy adapter with
  | false =>
    obtain ⟨e, herror⟩ : ∃ e, (setPreferredAdapter adapter now timestamp).on t = (.error e, t) :=
      on_setPreferredAdapter_of_unfit h
    rw [herror]
    exact ⟨rfl, rfl⟩
  | true =>
    rw [on_setPreferredAdapter h, on_emit]
    refine ⟨rfl, ?_⟩
    cases hc : t.props.metadata.constraints <;> simp [TaskProps.timeout, hc]

theorem on_updatePrompt_pending (newPrompt : String) (h : t.props.status = .pending) :
    ((updatePrompt newPrompt now timestamp).on t).2.props =
      { t.props with prompt := newPrompt, updatedAt := now } := by
  unfold updatePrompt
  rw [Prog.on_get_bind, if_neg (not_not_intro h)]
  rfl

theorem on_updatePrompt_not_pending (newPrompt : String) (h : t.props.status ≠ .pending) :
    ((updatePrompt newPrompt now timestamp).on t).2 = t := by
  unfold updatePrompt
  rw [Prog.on_get_bind, if_pos h]
  rfl

def step (t : TaskEntity) (i : Invocation) : Option TaskEntity := some (i.method.on t).2

def GivesAcceptablePrompt (t : TaskEntity) (i : Invocation) : Prop :=
  match i.call with
  | .updatePrompt newPrompt => t.props.status = .pending → AcceptablePrompt newPrompt
  | .updateStatus _ | .updatePriority _ | .addTag _ | .removeTag _ | .setPreferredAdapter _ => True

instance (t : TaskEntity) (i : Invocation) : Decidable (GivesAcceptablePrompt t i) := by
  obtain ⟨call⟩ := i
  cases call <;> dsimp only [GivesAcceptablePrompt] <;> infer_instance

/-- **One call on a valid task.** -/
theorem valid_method_iff (h : t.Valid) (i : Invocation) :
    (i.method.on t).2.Valid ↔ GivesAcceptablePrompt t i := by
  unfold Invocation.method GivesAcceptablePrompt
  cases i.call with
  | updateStatus newStatus =>
    exact iff_true_intro ((sameChecked_updateStatus newStatus).valid_iff.mpr h)
  | updatePrompt newPrompt =>
    by_cases hpending : t.props.status = .pending
    · -- the prompt is the new one, and the timeout as good as it was
      rw [valid_iff, on_updatePrompt_pending newPrompt hpending]
      exact ⟨fun hvalid _ => hvalid.1, fun hok => ⟨hok hpending, (valid_iff.mp h).2⟩⟩
    · rw [on_updatePrompt_not_pending newPrompt hpending]
      exact ⟨fun _ hp => absurd hp hpending, fun _ => h⟩
  | updatePriority newPriority => exact iff_true_intro (SameChecked.valid_iff ⟨rfl, rfl⟩ |>.mpr h)
  | addTag tag => exact iff_true_intro ((sameChecked_addTag tag).valid_iff.mpr h)
  | removeTag tag => exact iff_true_intro ((sameChecked_removeTag tag).valid_iff.mpr h)
  | setPreferredAdapter adapter =>
    exact iff_true_intro ((sameChecked_setPreferredAdapter adapter).valid_iff.mpr h)

/-- **Every sequence of calls on a valid task.** -/
theorem valid_iff_guarded {calls : List Invocation} (h : t.Valid) :
    Always step Valid t calls ↔ Guarded step GivesAcceptablePrompt t calls := by
  refine always_iff_guarded (fun {t} (hv : Valid t) => hv) ?_ ?_ h
  · intro t i t' hv hs hok
    cases hs
    exact (valid_method_iff hv i).mpr hok
  · intro t i t' hv hs hv'
    cases hs
    exact (valid_method_iff hv i).mp hv'

end TaskEntity

end Bridge.Domain
