import Bridge.Learning.Patterns
import Mathlib.Algebra.Order.Field.Basic
import Mathlib.Tactic.FieldSimp
import Mathlib.Tactic.Linarith

/-!
# The CLI that is suggested

`getSuggestedCLI` looks the type of the task up among the patterns, whose keys are the *task ids* of
feedback. If there is a pattern with conditions that the task meets, its CLI is suggested; if it
does not meet them, the CLI with the better success rate so far; and without a pattern, Claude.
-/

namespace Bridge.Learning

open Lib List

/-- What `getSuggestedCLI` reads of a task. -/
structure Task where
  type : String
  payload : String → Option Value

/-- `Object.entries(pattern.conditions).every(...)` -/
def Pattern.matchesConditions (p : Pattern) (task : Task) : Bool :=
  p.conditions.all fun (key, value) => decide (task.payload key = some value)

def Module.getSuggestedCLI (m : Module) (task : Task) : Cli :=
  match m.pattern task.type with
  | none => .claude
  | some pattern =>
    if pattern.matchesConditions task then pattern.preferredCLI
    else
      let claudePerf := analyzeCLIPerformance m.history .claude
      let geminiPerf := analyzeCLIPerformance m.history .gemini
      if geminiPerf.successRate ≤ claudePerf.successRate then .claude else .gemini

variable {f : Feedback}

theorem successRate_le_concat {fs : List Feedback} (h : f.success = true) :
    successRate fs ≤ successRate (fs ++ [f]) := by
  have hle : (fs.countP (·.success) : ℚ) ≤ fs.length := by exact_mod_cast countP_le_length
  have hlength : (0 : ℚ) < (fs.length : ℚ) + 1 := by positivity
  simp only [successRate, countP_append, countP_singleton, h, if_true, length_append,
    length_singleton, Nat.cast_add, Nat.cast_one]
  obtain hzero | hpos := Nat.eq_zero_or_pos fs.length
  · rw [hzero, Nat.cast_zero, div_zero]
    positivity
  · have hpos' : (0 : ℚ) < fs.length := by exact_mod_cast hpos
    rw [div_le_div_iff₀ hpos' hlength]
    linarith

theorem successRate_concat_le {fs : List Feedback} (h : f.success = false) :
    successRate (fs ++ [f]) ≤ successRate fs := by
  simp only [successRate, countP_append, countP_singleton, h, Bool.false_eq_true, if_false,
    length_append, length_singleton, Nat.cast_add, Nat.cast_one, add_zero]
  obtain hzero | hpos := Nat.eq_zero_or_pos fs.length
  · have hnil : fs = [] := length_eq_zero_iff.mp hzero
    simp [hnil]
  · have hpos' : (0 : ℚ) < fs.length := by exact_mod_cast hpos
    have hcount : (0 : ℚ) ≤ fs.countP (·.success) := by positivity
    exact div_le_div_of_nonneg_left hcount hpos' (by linarith)

def feedbackOf (history : List Entry) (cli : Cli) : List Feedback :=
  (history.map Entry.feedback).filter fun f => f.cli = cli

theorem analyzeCLIPerformance_successRate (history : List Entry) (cli : Cli) :
    (analyzeCLIPerformance history cli).successRate = successRate (feedbackOf history cli) := by
  unfold analyzeCLIPerformance
  dsimp only
  split_ifs with hempty
  · rw [feedbackOf, isEmpty_iff.mp hempty]
    simp [successRate]
  · rfl

theorem feedbackOf_concat_self (history : List Entry) (f : Feedback) :
    feedbackOf (history ++ [f.entry]) f.cli = feedbackOf history f.cli ++ [f] := by
  simp [feedbackOf, Feedback.entry]

theorem feedbackOf_concat_other (history : List Entry) (f : Feedback) :
    feedbackOf (history ++ [f.entry]) f.cli.other = feedbackOf history f.cli.other := by
  cases hcli : f.cli <;> simp [feedbackOf, Feedback.entry, hcli, Cli.other]

/-! ## By the rates -/

def rate (history : List Entry) (cli : Cli) : ℚ := successRate (feedbackOf history cli)

def betterCLI (history : List Entry) : Cli :=
  if rate history .gemini ≤ rate history .claude then .claude else .gemini

variable {history : List Entry}

theorem betterCLI_eq_claude :
    betterCLI history = .claude ↔ rate history .gemini ≤ rate history .claude := by
  unfold betterCLI
  split <;> simp_all

theorem betterCLI_eq_gemini :
    betterCLI history = .gemini ↔ rate history .claude < rate history .gemini := by
  unfold betterCLI
  split <;> simp_all

theorem betterCLI_mono {history' : List Entry} {cli : Cli}
    (hself : rate history cli ≤ rate history' cli)
    (hother : rate history' cli.other ≤ rate history cli.other) (h : betterCLI history = cli) :
    betterCLI history' = cli := by
  cases cli with
  | claude =>
    rw [betterCLI_eq_claude] at h ⊢
    exact hother.trans (h.trans hself)
  | gemini =>
    rw [betterCLI_eq_gemini] at h ⊢
    exact hother.trans_lt (h.trans_le hself)

theorem betterCLI_of_success (h : f.success = true)
    (hbefore : betterCLI history = f.cli) : betterCLI (history ++ [f.entry]) = f.cli := by
  apply betterCLI_mono _ _ hbefore
  · rw [rate, rate, feedbackOf_concat_self]
    exact successRate_le_concat h
  · rw [rate, rate, feedbackOf_concat_other]

theorem betterCLI_of_failure (h : f.success = false) (hbefore : betterCLI history = f.cli.other) :
    betterCLI (history ++ [f.entry]) = f.cli.other := by
  have hback : f.cli.other.other = f.cli := by cases f.cli <;> rfl
  apply betterCLI_mono _ _ hbefore
  · rw [rate, rate, feedbackOf_concat_other]
  · rw [hback, rate, rate, feedbackOf_concat_self]
    exact successRate_concat_le h

/-! ## By the pattern -/

namespace Module

variable {m : Module} {l : List Entry} {task : Task}

theorem suggested_of_none (h : m.pattern task.type = none) : m.getSuggestedCLI task = .claude := by
  rw [getSuggestedCLI, h]

theorem suggested_of_some (hi : m.Idle l) {p : Pattern} (h : m.pattern task.type = some p) :
    m.getSuggestedCLI task = if p.matchesConditions task then p.preferredCLI else betterCLI l := by
  rw [getSuggestedCLI, h]
  dsimp only
  rw [analyzeCLIPerformance_successRate, analyzeCLIPerformance_successRate, hi.history]
  rfl

theorem pattern_recordFeedback_some (hu : m.Unaliased) (hi : m.Idle l) {p : Pattern} {k : String}
    (h : m.pattern k = some p) (f : Feedback) :
    ∃ p', (m.recordFeedback f).pattern k = some p' ∧ p'.preferredCLI = p.preferredCLI ∧
      p'.conditions = p.conditions := by
  rw [pattern_recordFeedback hu hi]
  split_ifs with hk
  · subst hk
    rw [h]
    exact ⟨_, rfl, rfl, rfl⟩
  · exact ⟨p, h, rfl, rfl⟩

theorem suggestion_of_some (hu : m.Unaliased) (hi : m.Idle l) {p : Pattern}
    (h : m.pattern task.type = some p) : (f.success = true → m.getSuggestedCLI task = f.cli →
      (m.recordFeedback f).getSuggestedCLI task = f.cli) ∧
    (f.success = false → m.getSuggestedCLI task = f.cli.other →
      (m.recordFeedback f).getSuggestedCLI task = f.cli.other) := by
  obtain ⟨p', hp', hcli, hconditions⟩ := pattern_recordFeedback_some hu hi h f
  have hmatches : p'.matchesConditions task = p.matchesConditions task := by
    rw [Pattern.matchesConditions, Pattern.matchesConditions, hconditions]
  rw [suggested_of_some hi h, suggested_of_some hi.recordFeedback hp', hmatches, hcli]
  split
  · exact ⟨fun _ hbefore => hbefore, fun _ hbefore => hbefore⟩
  · exact ⟨betterCLI_of_success, betterCLI_of_failure⟩

theorem suggestion_of_none (hu : m.Unaliased) (hi : m.Idle l) (h : m.pattern task.type = none) :
    (m.recordFeedback f).getSuggestedCLI task = if f.taskId =
      task.type then f.cli else .claude := by
  have hpattern := pattern_recordFeedback hu hi f task.type
  split_ifs with hid
  · rw [if_pos hid.symm, hid, h] at hpattern
    rw [suggested_of_some hi.recordFeedback hpattern]
    rfl
  · rw [if_neg (Ne.symm hid)] at hpattern
    exact suggested_of_none (hpattern.trans h)

end Module

/-- **A suggestion moves the right way, but for one case**: the first feedback under the type of the
task, when it is a failure of Gemini. -/
theorem suggestion_follows_iff {d : Disk} {s : Store}
    (h : Reaches Store.step Store.Feeding ⟨.ready d.file, d⟩ s) (task : Task) (f : Feedback) :
    ((f.success = true → s.module.getSuggestedCLI task = f.cli →
        (s.module.recordFeedback f).getSuggestedCLI task = f.cli) ∧
      (f.success = false → s.module.getSuggestedCLI task = f.cli.other →
        (s.module.recordFeedback f).getSuggestedCLI task = f.cli.other)) ↔
    ¬ (f.success = false ∧ f.cli = .gemini ∧ f.taskId = task.type ∧ s.module.pattern
      task.type = none) := by
  have hfed := Store.fed_of_reaches h
  cases hpattern : s.module.pattern task.type with
  | some p => exact iff_of_true (Module.suggestion_of_some hfed.unaliased hfed.idle hpattern) (by
    simp)
  | none =>
    rw [Module.suggested_of_none hpattern, Module.suggestion_of_none hfed.unaliased
      hfed.idle hpattern]
    by_cases hid : f.taskId = task.type
    · rw [if_pos hid]
      cases f.success <;> cases f.cli <;> simp [Cli.other, hid]
    · rw [if_neg hid]
      simp [hid]

/-- A task of the type `t`. -/
def plainTask : Task := ⟨"t", fun _ => none⟩

theorem suggestion_follows_iff_liked :
    ((Store.liked.success = true → (Module.ready .absent).getSuggestedCLI plainTask =
      Store.liked.cli →
        ((Module.ready .absent).recordFeedback Store.liked).getSuggestedCLI plainTask =
          Store.liked.cli) ∧
      (Store.liked.success = false →
        (Module.ready .absent).getSuggestedCLI plainTask = Store.liked.cli.other →
        ((Module.ready .absent).recordFeedback Store.liked).getSuggestedCLI plainTask =
          Store.liked.cli.other)) ↔
    ¬ (Store.liked.success = false ∧ Store.liked.cli = .gemini ∧ Store.liked.taskId =
      plainTask.type ∧ (Module.ready .absent).pattern plainTask.type = none) :=
  suggestion_follows_iff (d := ⟨true, .absent⟩) .refl plainTask Store.liked

theorem failure_recommends_itself :
    (Module.ready .absent).getSuggestedCLI plainTask = Store.disliked.cli.other ∧
    ((Module.ready .absent).recordFeedback Store.disliked).getSuggestedCLI plainTask =
      Store.disliked.cli ∧
    Store.disliked.success = false := by
  refine ⟨?_, ?_, rfl⟩
  · decide +kernel
  · decide +kernel

end Bridge.Learning
