import Bridge.Learning.SharedFile
import Bridge.Lib.ObjectMap

/-!
# The patterns of a module that is given feedback

The patterns are a map of mutable objects, and after the load no two keys share one
(`unaliased_ready`): so a feedback changes what is found under its task id, and nothing else
(`pattern_recordFeedback`). `feed_cases` says all that can happen to a module that is only given
feedback: a call begins, or one goes on after its `await`.
-/

namespace Bridge.Learning

open Lib List

namespace Module

variable {m : Module} {f : Feedback} {l : List Entry}

/-- `patterns.get(key)` -/
def pattern (m : Module) (key : String) : Option Pattern := ObjectMap.get m.patterns m.objects key

def Unaliased (m : Module) : Prop := ObjectMap.Unaliased m.patterns m.objects

/-! ## One pattern is set -/

theorem Unaliased.setPattern (h : m.Unaliased) (key : String) (p : Pattern) :
    (m.setPattern key p).Unaliased :=
  ObjectMap.Unaliased.put_alloc h key p

theorem pattern_setPattern (h : m.Unaliased) (key : String) (p : Pattern) (k : String) :
    (m.setPattern key p).pattern k = if k = key then some p else m.pattern k :=
  ObjectMap.get_put_alloc h key p k

theorem Unaliased.updatePatterns (h : m.Unaliased) (f : Feedback) :
    (m.updatePatterns f).Unaliased := by
  unfold Module.updatePatterns
  split
  · exact ObjectMap.Unaliased.write h _ _
  · exact h.setPattern _ _

theorem pattern_updatePatterns (h : m.Unaliased) (f : Feedback) (k : String) :
    (m.updatePatterns f).pattern k =
      if k = f.taskId then some (updatedPattern m.history f (m.pattern f.taskId)) else
        m.pattern k := by
  unfold updatePatterns
  split
  · rename_i r hr
    have hold : m.pattern f.taskId = m.objects.read r := by
      rw [pattern, ObjectMap.get, hr]
      rfl
    rw [hold]
    exact ObjectMap.get_write h hr _ k
  · rename_i hnone
    have hold : m.pattern f.taskId = none := by
      rw [pattern, ObjectMap.get, hnone]
      rfl
    rw [hold]
    exact pattern_setPattern h _ _ k

theorem unaliased_foldl {β : Type} (key : β → String) (p : β → Pattern) (l : List β)
    (h : m.Unaliased) : (l.foldl (fun m b => m.setPattern (key b) (p b)) m).Unaliased := by
  induction l generalizing m with
  | nil => exact h
  | cons b l ih => exact ih (h.setPattern (key b) (p b))

theorem unaliased_ready (file : File) : (ready file).Unaliased := by
  have hdefaults : new.loadPatterns.Unaliased :=
    unaliased_foldl Pattern.taskType id defaultPatterns ObjectMap.Unaliased.nil
  cases file with
  | data d =>
    have hempty : ({ new with patterns := [] } : Module).Unaliased := ObjectMap.Unaliased.nil
    exact unaliased_foldl Prod.fst Prod.snd d.patterns hempty
  | absent | corrupt => exact hdefaults

/-- The history is `l`, and no call will change it. -/
structure Idle (m : Module) (l : List Entry) : Prop where
  read : m.arrays.read m.feedbackHistory = some l
  calls : ∀ pc ∈ m.calls, pc = .analyze ∨ pc = .done

theorem idle_ready (file : File) : (ready file).Idle file.entries :=
  ⟨read_ready file, fun _ hpc => .inr (mem_singleton.mp hpc)⟩

theorem Idle.recordFeedback (h : m.Idle l) : (m.recordFeedback f).Idle (l ++ [f.entry]) := by
  refine ⟨read_recordFeedback h.read, fun pc hpc => ?_⟩
  rw [recordFeedback_calls] at hpc
  rcases mem_append.mp hpc with hpc | hpc
  · exact h.calls pc hpc
  · exact .inl (mem_singleton.mp hpc)

theorem Idle.history (h : m.Idle l) : m.history = l := by
  rw [Module.history, h.read]
  rfl

theorem Unaliased.recordFeedback (h : m.Unaliased) (f : Feedback) :
    (m.recordFeedback f).Unaliased := by
  let m₁ : Module := { m with
    arrays := m.arrays.write m.feedbackHistory (m.history ++ [f.entry])
    recorded := m.recorded ++ [f] }
  have h₁ : m₁.Unaliased := h
  exact h₁.updatePatterns f

/-- **What a feedback does to the patterns.** -/
theorem pattern_recordFeedback (h : m.Unaliased) (hi : m.Idle l) (f : Feedback) (k : String) :
    (m.recordFeedback f).pattern k =
      if k = f.taskId then some (updatedPattern (l ++ [f.entry]) f (m.pattern f.taskId))
      else m.pattern k := by
  let m₁ : Module := { m with
    arrays := m.arrays.write m.feedbackHistory (m.history ++ [f.entry])
    recorded := m.recorded ++ [f] }
  have h₁ : m₁.Unaliased := h
  have hhistory : m₁.history = l ++ [f.entry] := by
    have hread : m₁.arrays.read m₁.feedbackHistory = some (m.history ++ [f.entry]) :=
      Heap.read_write_self hi.read
    rw [Module.history, hread, hi.history]
    rfl
  rw [← hhistory]
  exact pattern_updatePatterns h₁ f k

/-! ## One call goes on -/

/-- `recordFeedback`, after its `await`. -/
def resume (m : Module) (i : Nat) : Module :=
  { (if m.history.length % 10 = 0 then m.analyzePerformance else
    m) with calls := m.calls.set i .done }

theorem resume_eq (m : Module) (i : Nat) :
    m.resume i = { m with insights := (m.resume i).insights, calls := m.calls.set i .done } := by
  unfold resume
  split <;> rfl

theorem Idle.resume (h : m.Idle l) (i : Nat) : (m.resume i).Idle l := by
  rw [resume_eq]
  refine ⟨h.read, fun pc hpc => ?_⟩
  obtain hpc | rfl := mem_or_eq_of_mem_set hpc
  · exact h.calls pc hpc
  · exact .inr rfl

theorem pattern_resume (i : Nat) (k : String) : (m.resume i).pattern k = m.pattern k := by
  rw [resume_eq]
  rfl

theorem Unaliased.resume (h : m.Unaliased) (i : Nat) : (m.resume i).Unaliased := by
  rw [resume_eq]
  exact h

theorem recorded_resume (i : Nat) : (m.resume i).recorded = m.recorded := by
  rw [resume_eq]

end Module

namespace Store

def Feeding (_ : Store) : Step → Prop
  | .act (.recordFeedback _) => True
  | .act (.step _ _) => True
  | _ => False

/-- **What can happen to a module that is only given feedback.** -/
theorem feed_cases {s s' : Store} {a : Step} {l : List Entry} (hi : s.module.Idle l)
    (ha : Feeding s a) (hs : s.step a = some s') :
    (∃ f, a = .act (.recordFeedback f) ∧ s'.module = s.module.recordFeedback f) ∨
    ∃ i inp, a = .act (.step i inp) ∧ s.module.calls[i]? = some .analyze ∧
      s'.module = s.module.resume i := by
  cases a with
  | external d => cases ha
  | act a =>
    obtain ⟨r, hact, rfl⟩ := Option.map_eq_some_iff.mp hs
    cases a with
    | recordFeedback f =>
      cases hact
      exact .inl ⟨f, rfl, rfl⟩
    | step i inp =>
      refine .inr ⟨i, inp, rfl, ?_⟩
      cases hpc : s.module.calls[i]? with
      | none =>
        simp [Module.act, hpc] at hact
      | some pc =>
        rw [Module.act, hpc] at hact
        obtain ⟨nx, hexec, rfl⟩ := Option.map_eq_some_iff.mp hact
        obtain rfl | rfl := hi.calls pc (mem_of_getElem? hpc)
        · cases hexec
          exact ⟨rfl, rfl⟩
        · cases hexec
    | saveToPersistence | exportToCSV | destroy | autoSave => cases ha

structure Fed (file : File) (s : Store) : Prop where
  idle : s.module.Idle (file.entries ++ s.module.recorded.map Feedback.entry)
  unaliased : s.module.Unaliased

theorem fed_ready (d : Disk) : Fed d.file ⟨.ready d.file, d⟩ := by
  refine ⟨?_, Module.unaliased_ready d.file⟩
  rw [Module.recorded_ready, map_nil, append_nil]
  exact Module.idle_ready d.file

theorem Fed.step {file : File} {s s' : Store} {a : Step} (h : Fed file s) (ha : Feeding s a)
    (hs : s.step a = some s') : Fed file s' := by
  obtain ⟨f, -, hm⟩ | ⟨i, inp, -, -, hm⟩ := feed_cases h.idle ha hs
  · refine ⟨?_, hm ▸ h.unaliased.recordFeedback f⟩
    rw [hm, Module.recordFeedback_recorded, map_append, ← append_assoc]
    exact h.idle.recordFeedback
  · refine ⟨?_, hm ▸ h.unaliased.resume i⟩
    rw [hm, Module.recorded_resume]
    exact h.idle.resume i

theorem fed_of_reaches {d : Disk} {s : Store} (h : Reaches step Feeding ⟨.ready d.file, d⟩ s) :
    Fed d.file s :=
  h.invariant (Fed d.file) (fed_ready d) fun hf ha hs => hf.step ha hs

end Store

end Bridge.Learning
