import Bridge.Learning.Patterns

/-!
# The figures of a pattern

A pattern belongs to one CLI, the one it prefers, and that is settled by the first feedback under
its key, or by the default patterns. Its figures are those of another one: `updatePatterns` computes
them from the feedback of the CLI that gave the *last* feedback. So they are the figures of the
preferred CLI if that gave the last feedback, or by chance (`pattern_figures_iff`); and what is
recommended, is recommended by them.
-/

namespace Bridge.Learning

open Lib List

/-! ## Recommendations -/

def switchAdvice (taskType : String) (p : Pattern) : String :=
  "Consider switching " ++ taskType ++ " tasks to " ++ p.preferredCLI.other.text ++
    " for better success rate"

def slowAdvice (taskType : String) : String :=
  taskType ++ " tasks are taking too long. Consider optimization or task splitting"

theorem mem_recommendationsFor {taskType advice : String} {p : Pattern} :
    advice ∈ recommendationsFor taskType p ↔
      (p.successRate < 8 / 10 ∧ advice = switchAdvice taskType p) ∨
        (p.avgExecutionTime > 5000 ∧ advice = slowAdvice taskType) := by
  unfold recommendationsFor switchAdvice slowAdvice
  rw [mem_append]
  refine or_congr ?_ ?_
  · split <;> simp_all
  · split <;> simp_all

theorem length_text (cli : Cli) : cli.text.toList.length = 6 := by cases cli <;> rfl

theorem middle_injective {a x y s s' : List Char} (h : a ++ (x ++ s) = a ++ (y ++ s'))
    (hlen : s.length = s'.length) : x = y :=
  (append_inj' (append_cancel_left h) hlen).1

theorem switchAdvice_injective {x y : String} {p q : Pattern}
    (h : switchAdvice x p = switchAdvice y q) : x = y := by
  have hlist := congrArg String.toList h
  unfold switchAdvice at hlist
  rw [String.append_assoc, String.append_assoc, String.append_assoc, String.append_assoc,
    String.append_assoc, String.append_assoc] at hlist
  simp only [String.toList_append] at hlist
  refine String.toList_inj.mp (middle_injective hlist ?_)
  simp [length_append, length_text]

theorem getLast_append (x : String) {y : String} {c : Char} (h : y.toList.getLast? = some c) :
    (x ++ y).toList.getLast? = some c := by
  rw [String.toList_append, getLast?_append, h, Option.some_or]

theorem switchAdvice_ne_slowAdvice {x y : String} {p : Pattern} :
    switchAdvice x p ≠ slowAdvice y := by
  intro h
  have hrate : (" for better success rate" : String).toList.getLast? = some 'e' := by decide +kernel
  have hsplitting : (" tasks are taking too long. Consider optimization or task splitting" :
      String).toList.getLast? = some 'g' := by decide +kernel
  have hlast := congrArg (fun advice => advice.toList.getLast?) h
  have heg : some 'e' = some 'g' :=
    (getLast_append _ hrate).symm.trans (hlast.trans (getLast_append y hsplitting))
  exact absurd heg (by decide)

namespace Module

variable {m : Module} {id : String} {p : Pattern}

/-- **Switching is recommended by the success rate of the pattern.** -/
theorem mem_generateRecommendations (hu : m.Unaliased) (hp : m.pattern id = some p) :
    switchAdvice id p ∈ generateRecommendations (m.deref m.patterns) ↔ p.successRate < 8 / 10 := by
  have hmem : ∀ k q, (k, q) ∈ m.deref m.patterns ↔ m.pattern k = some q :=
    fun _ _ => ObjectMap.mem_entries hu
  unfold generateRecommendations
  rw [mem_flatMap]
  constructor
  · rintro ⟨⟨k, q⟩, hq, hadvice⟩
    obtain ⟨hrate, heq⟩ | ⟨-, heq⟩ := mem_recommendationsFor.mp hadvice
    · obtain rfl := switchAdvice_injective heq
      obtain rfl := Option.some.inj (hp.symm.trans ((hmem _ _).mp hq))
      exact hrate
    · exact absurd heq switchAdvice_ne_slowAdvice
  · intro hrate
    exact ⟨(id, p), (hmem id p).mpr hp, mem_recommendationsFor.mpr (.inl ⟨hrate, rfl⟩)⟩

end Module

/-! ## Figures -/

def relevant (fs : List Feedback) (id : String) (cli : Cli) : List Feedback :=
  fs.filter fun g => g.taskId = id ∧ g.cli = cli

def lastFor (fs : List Feedback) (id : String) : Option Feedback :=
  (fs.filter fun g => g.taskId = id).getLast?

theorem lastFor_concat_self (fs : List Feedback) (f : Feedback) :
    lastFor (fs ++ [f]) f.taskId = some f := by
  simp [lastFor]

variable {fs : List Feedback} {f : Feedback}

theorem lastFor_concat_ne {id : String} (h : f.taskId ≠ id) :
    lastFor (fs ++ [f]) id = lastFor fs id := by
  simp [lastFor, h]

theorem relevant_concat_ne {id : String} (h : f.taskId ≠ id)
    (cli : Cli) : relevant (fs ++ [f]) id cli = relevant fs id cli := by
  simp [relevant, h]

theorem lastFor_isSome (h : f ∈ fs) : ∃ last, lastFor fs f.taskId = some last := by
  have hne : (fs.filter fun g => g.taskId = f.taskId) ≠ [] :=
    ne_nil_of_mem (mem_filter.mpr ⟨h, decide_eq_true rfl⟩)
  exact ⟨_, getLast?_eq_some_getLast hne⟩

/-- Each pattern has the figures of the CLI that gave the last feedback under its key. -/
def Figured (m : Module) : Prop :=
  ∀ id last, lastFor m.recorded id = some last → ∀ p, m.pattern id = some p →
    p.successRate = successRate (relevant m.recorded id last.cli) ∧
      p.avgExecutionTime = avgExecutionTime (relevant m.recorded id last.cli)

theorem Figured.recordFeedback {m : Module} (h : Figured m) (hu : m.Unaliased)
    (hi : m.Idle (m.recorded.map Feedback.entry)) (f : Feedback) :
    Figured (m.recordFeedback f) := by
  intro id last hlast p hp
  rw [Module.recordFeedback_recorded] at hlast ⊢
  rw [Module.pattern_recordFeedback hu hi] at hp
  by_cases hid : id = f.taskId
  · subst hid
    rw [lastFor_concat_self] at hlast
    cases hlast
    rw [if_pos rfl] at hp
    cases hp
    have hhistory : ((m.recorded.map Feedback.entry ++ [f.entry]).map Entry.feedback) =
        m.recorded ++ [f] := by
      simp [Feedback.entry, Function.comp_def]
    refine ⟨?_, ?_⟩ <;> simp [updatedPattern, hhistory, relevant]
  · rw [if_neg hid] at hp
    rw [lastFor_concat_ne (Ne.symm hid)] at hlast
    rw [relevant_concat_ne (Ne.symm hid)]
    exact h id last hlast p hp

theorem figured_of_reaches {d : Disk} (hfile : d.file.entries = []) {s : Store}
    (h : Reaches Store.step Store.Feeding ⟨.ready d.file, d⟩ s) : Figured s.module := by
  have hinv : Store.Fed d.file s ∧ Figured s.module := by
    refine h.invariant (fun s => Store.Fed d.file s ∧ Figured s.module) ⟨Store.fed_ready d, ?_⟩ ?_
    · intro id last hlast
      have hrecorded : (Module.ready d.file).recorded = [] := Module.recorded_ready d.file
      rw [hrecorded] at hlast
      cases hlast
    · intro s a s' hinv ha hs
      obtain ⟨hfed, hfigured⟩ := hinv
      refine ⟨hfed.step ha hs, ?_⟩
      have hidle := hfed.idle
      rw [hfile, nil_append] at hidle
      obtain ⟨f, -, hm⟩ | ⟨i, inp, -, -, hm⟩ := Store.feed_cases hfed.idle ha hs
      · rw [hm]
        exact hfigured.recordFeedback hfed.unaliased hidle f
      · intro id last hlast p hp
        rw [hm, Module.recorded_resume] at hlast ⊢
        rw [hm, Module.pattern_resume] at hp
        exact hfigured id last hlast p hp
  exact hinv.2

/-- **The figures of a pattern are those of its own CLI** exactly if that gave the last feedback
under the key, or the figures are the same. -/
theorem pattern_figures_iff {d : Disk} (hfile : d.file = .absent ∨ d.file = .corrupt) {s : Store}
    (h : Reaches Store.step Store.Feeding ⟨.ready d.file, d⟩ s) {id : String} {p : Pattern}
    (hp : s.module.pattern id = some p)
    (hown : ∃ f ∈ s.module.recorded, f.taskId = id ∧ f.cli = p.preferredCLI) :
    ∃ last, lastFor s.module.recorded id = some last ∧
      ((p.successRate = successRate (relevant s.module.recorded id p.preferredCLI) ∧
          p.avgExecutionTime = avgExecutionTime (relevant s.module.recorded id p.preferredCLI)) ↔
        last.cli = p.preferredCLI ∨ (successRate (relevant s.module.recorded id last.cli) =
              successRate (relevant s.module.recorded id p.preferredCLI) ∧
            avgExecutionTime (relevant s.module.recorded id last.cli) =
              avgExecutionTime (relevant s.module.recorded id p.preferredCLI))) ∧
      (switchAdvice id p ∈ generateRecommendations (s.module.deref s.module.patterns) ↔
        successRate (relevant s.module.recorded id last.cli) < 8 / 10) := by
  have hentries : d.file.entries = [] := by
    obtain hd | hd := hfile <;> rw [hd] <;> rfl
  obtain ⟨f, hf, rfl, -⟩ := hown
  obtain ⟨last, hlast⟩ := lastFor_isSome hf
  obtain ⟨hrate, htime⟩ := figured_of_reaches hentries h f.taskId last hlast p hp
  refine ⟨last, hlast, ?_, ?_⟩
  · rw [hrate, htime]
    constructor
    · exact .inr
    · rintro (hcli | hsame)
      · rw [hcli]
        exact ⟨rfl, rfl⟩
      · exact hsame
  · rw [← hrate]
    exact Module.mem_generateRecommendations (Store.fed_of_reaches h).unaliased hp

def praised : Store := ⟨(Module.ready .absent).recordFeedback Store.liked, ⟨true, .absent⟩⟩

def praisedPattern : Pattern := ⟨"t", 1, 1, .claude, []⟩

theorem pattern_figures_iff_praised : ∃ last, lastFor praised.module.recorded "t" = some last ∧
      ((praisedPattern.successRate = successRate (relevant praised.module.recorded "t" .claude) ∧
          praisedPattern.avgExecutionTime = avgExecutionTime
            (relevant praised.module.recorded "t" .claude)) ↔
        last.cli = .claude ∨ (successRate (relevant praised.module.recorded "t" last.cli) =
              successRate (relevant praised.module.recorded "t" .claude) ∧
            avgExecutionTime (relevant praised.module.recorded "t" last.cli) =
              avgExecutionTime (relevant praised.module.recorded "t" .claude))) ∧
      (switchAdvice "t" praisedPattern ∈
          generateRecommendations (praised.module.deref praised.module.patterns) ↔
        successRate (relevant praised.module.recorded "t" last.cli) < 8 / 10) :=
  pattern_figures_iff (d := ⟨true, .absent⟩) (.inl rfl)
    (.single (a := .act (.recordFeedback Store.liked)) trivial rfl)
    (by decide +kernel) ⟨Store.liked, by decide +kernel, rfl, rfl⟩

def mixed : Module := praised.module.recordFeedback Store.disliked

theorem figures_of_the_other : mixed.pattern "t" = some ⟨"t", 0, 2, .claude, []⟩ ∧
    successRate (relevant mixed.recorded "t" .claude) = 1 ∧
    avgExecutionTime (relevant mixed.recorded "t" .claude) = 1 ∧
    switchAdvice "t" ⟨"t", 0, 2, .claude, []⟩ ∈ generateRecommendations
      (mixed.deref mixed.patterns) := by
  refine ⟨?_, ?_, ?_, ?_⟩
  · decide +kernel
  · decide +kernel
  · decide +kernel
  · decide +kernel

end Bridge.Learning
