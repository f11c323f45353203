import Bridge.Learning.Patterns

/-!
# How often the insights are emitted

`recordFeedback` pushes, awaits, and then looks at the length of the history: once for each call,
but at the length that the history has *by then*. `resumptions` are those lengths. As many insights
are emitted as there are multiples of ten among them (`insights_exec`): one for every ten feedbacks
if each call goes on before the next is made, but more, or fewer, if calls overlap.
-/

namespace Bridge.Learning

open Lib List

namespace Store

/-- The lengths at which calls go on, in a run that begins with a history of length `n`. -/
def resumptions : Nat → List Step → List Nat
  | _, [] => []
  | n, .act (.recordFeedback _) :: rest => resumptions (n + 1) rest
  | n, .act (.step _ _) :: rest => n :: resumptions n rest
  | n, _ :: rest => resumptions n rest

def pending (s : Store) : Nat := s.module.calls.count .analyze

end Store

namespace Module

variable {m : Module} {f : Feedback}

theorem insights_recordFeedback : (m.recordFeedback f).insights = m.insights := by
  unfold recordFeedback updatePatterns
  dsimp only
  split <;> rfl

theorem calls_recordFeedback : (m.recordFeedback f).calls = m.calls ++ [.analyze] := by
  unfold recordFeedback updatePatterns
  dsimp only
  split <;> rfl

theorem insights_resume {l : List Entry} (h : m.Idle l) (i : Nat) :
    (m.resume i).insights.length = m.insights.length + if l.length % 10 = 0 then 1 else 0 := by
  unfold resume
  rw [h.history]
  split
  · exact length_append
  · rfl

theorem insights_ready (file : File) : (ready file).insights = [] := by
  have hfold : ∀ (l : List (String × Pattern)) (m : Module),
      (l.foldl (fun m e => m.setPattern e.1 e.2) m).insights = m.insights := by
    intro l
    induction l with
    | nil => exact fun _ => rfl
    | cons e l ih => exact fun m => ih (m.setPattern e.1 e.2)
  cases file with
  | data d => exact hfold d.patterns { new with patterns := [] }
  | absent => rfl
  | corrupt => rfl

theorem calls_resume (i : Nat) : (m.resume i).calls = m.calls.set i .done := rfl

end Module

namespace Store

theorem count_set_done {calls : List Pc} {i : Nat} (h : calls[i]? = some .analyze) :
    (calls.set i .done).count .analyze + 1 = calls.count .analyze := by
  obtain ⟨hi, hget⟩ := List.getElem?_eq_some_iff.mp h
  have hpos : 0 < calls.count .analyze := count_pos_iff.mpr (hget ▸ getElem_mem hi)
  have hset := count_set (a := Pc.done) (b := Pc.analyze) hi
  rw [hget, beq_self_eq_true, if_pos rfl] at hset
  have hdone : (Pc.done == Pc.analyze) = false := by decide
  rw [hdone, if_neg Bool.false_ne_true] at hset
  omega

/-- **Over every run**: a call goes on once, and emits if it finds a multiple of ten. -/
theorem insights_exec {acts : List Step} {s s' : Store} {l : List Entry} (hi : s.module.Idle l)
    (ha : ∀ a ∈ acts, Feeding s a) (h : exec step s acts = some s') : s'.module.insights.length =
        s.module.insights.length + (resumptions l.length acts).countP (fun n => n % 10 = 0) ∧
      s.pending + s'.module.recorded.length =
        s'.pending + s.module.recorded.length + (resumptions l.length acts).length := by
  induction acts generalizing s l with
  | nil =>
    cases h
    simp [resumptions]
  | cons a acts ih =>
    obtain ⟨s₁, hs, hrest⟩ := Option.bind_eq_some_iff.mp h
    have hacts : ∀ a ∈ acts, Feeding s₁ a := fun a hmem => ha a (mem_cons_of_mem _ hmem)
    obtain ⟨f, rfl, hm⟩ | ⟨i, inp, rfl, hpc, hm⟩ := feed_cases hi (ha a mem_cons_self) hs
    · have hi₁ : s₁.module.Idle (l ++ [f.entry]) := hm ▸ hi.recordFeedback
      obtain ⟨hinsights, hpending⟩ := ih hi₁ hacts hrest
      rw [length_append, length_singleton] at hinsights hpending
      have hcalls : s₁.pending = s.pending + 1 := by
        rw [pending, hm, Module.calls_recordFeedback, count_append]
        rfl
      have hrecorded : s₁.module.recorded.length = s.module.recorded.length + 1 := by
        rw [hm, Module.recordFeedback_recorded, length_append]
        rfl
      rw [hm, Module.insights_recordFeedback] at hinsights
      exact ⟨hinsights, by simp only [resumptions]; omega⟩
    · have hi₁ : s₁.module.Idle l := hm ▸ hi.resume i
      obtain ⟨hinsights, hpending⟩ := ih hi₁ hacts hrest
      have hcalls : s₁.pending + 1 = s.pending := by
        rw [pending, hm, Module.calls_resume]
        exact count_set_done hpc
      have hrecorded : s₁.module.recorded = s.module.recorded := by
        rw [hm, Module.recorded_resume]
      rw [hm, Module.insights_resume hi] at hinsights
      rw [hrecorded] at hpending
      simp only [resumptions, countP_cons, length_cons, decide_eq_true_eq]
      exact ⟨by omega, by omega⟩

theorem pending_ready (d : Disk) : (⟨.ready d.file, d⟩ : Store).pending = 0 := rfl

theorem pending_of_settled {s : Store} (h : s.module.Settled) : s.pending = 0 := by
  rw [pending, count_eq_zero]
  intro hmem
  exact absurd (h _ hmem) (by decide)

def Apart : List Step → Prop
  | [] => True
  | .act (.recordFeedback _) :: .act (.step _ _) :: rest => Apart rest
  | _ => False

theorem resumptions_of_apart {acts : List Step} (h : Apart acts) (n : Nat) :
    resumptions n acts = range' (n + 1) (resumptions n acts).length := by
  fun_induction Apart acts generalizing n with
  | case1 => rfl
  | case2 f i inp rest ih =>
    simp only [resumptions, length_cons, range'_succ]
    rw [← ih h (n + 1)]
  | case3 => exact h.elim

theorem countP_range' (n : Nat) : (range' 1 n).countP (fun k => k % 10 = 0) = n / 10 := by
  induction n with
  | zero => rfl
  | succ n ih =>
    rw [range'_concat, countP_append, ih, countP_singleton]
    simp only [decide_eq_true_eq]
    split <;> omega

/-- **How often the insights are emitted**: once for each call that goes on at a multiple of ten. -/
theorem insights_emitted_iff {d : Disk} (hfile : d.file.entries = []) {acts : List Step} {s : Store}
    (ha : ∀ a ∈ acts, Feeding ⟨.ready d.file, d⟩ a)
    (h : exec step ⟨.ready d.file, d⟩ acts = some s) (hsettled : s.module.Settled) :
    (s.module.insights.length = s.module.recorded.length / 10 ↔
      (resumptions 0 acts).countP (fun n => n % 10 = 0) = s.module.recorded.length / 10) ∧
    (Apart acts → s.module.insights.length = s.module.recorded.length / 10) := by
  have hi : (Module.ready d.file).Idle [] := hfile ▸ Module.idle_ready d.file
  have hnone : (Module.ready d.file).insights = [] := Module.insights_ready d.file
  have hrecorded : (Module.ready d.file).recorded = [] := Module.recorded_ready d.file
  obtain ⟨hinsights, hpending⟩ := insights_exec hi ha h
  rw [length_nil] at hinsights hpending
  rw [hnone, length_nil, Nat.zero_add] at hinsights
  rw [pending_ready, pending_of_settled hsettled, hrecorded, length_nil] at hpending
  have hlength : s.module.recorded.length = (resumptions 0 acts).length := by
    simpa using hpending
  refine ⟨by rw [hinsights], ?_⟩
  intro hapart
  rw [hinsights, hlength, resumptions_of_apart hapart 0, length_range']
  exact countP_range' _

theorem insights_emitted_iff_one : ∃ s, exec step ⟨.ready .absent, ⟨true, .absent⟩⟩
      [.act (.recordFeedback liked), .ok 1] = some s ∧ s.module.Settled ∧
      (s.module.insights.length = s.module.recorded.length / 10 ↔
        (resumptions 0 [.act (.recordFeedback liked), .ok 1]).countP (fun n => n % 10 = 0) =
          s.module.recorded.length / 10) ∧
      (Apart [.act (.recordFeedback liked), .ok 1] →
        s.module.insights.length = s.module.recorded.length / 10) := by
  have hsettled : (exec step ⟨.ready .absent, ⟨true, .absent⟩⟩
      [.act (.recordFeedback liked), .ok 1]).all (fun s => decide s.module.Settled) = true := by
    decide +kernel
  obtain ⟨s, hs⟩ : ∃ s, exec step ⟨.ready .absent, ⟨true, .absent⟩⟩
      [.act (.recordFeedback liked), .ok 1] = some s := ⟨_, rfl⟩
  rw [hs, Option.all_some, decide_eq_true_eq] at hsettled
  refine ⟨s, hs, hsettled, insights_emitted_iff (d := ⟨true, .absent⟩) rfl ?_ hs hsettled⟩
  intro a hmem
  simp only [mem_cons, not_mem_nil, or_false] at hmem
  obtain rfl | rfl := hmem
  · trivial
  · trivial

def tenAtOnce : List Step :=
  replicate 10 (.act (.recordFeedback liked)) ++ (range' 1 10).map .ok

def twoAtOnce : List Step :=
  (range' 1 9).flatMap (fun i => [.act (.recordFeedback liked), .ok i]) ++
    [.act (.recordFeedback liked), .act (.recordFeedback liked), .ok 10, .ok 11]

theorem insights_miscounted :
    (∃ s, exec step ⟨.ready .absent, ⟨true, .absent⟩⟩ tenAtOnce = some s ∧ s.module.Settled ∧
      s.module.recorded.length = 10 ∧ s.module.insights.length = 10) ∧
    (∃ s, exec step ⟨.ready .absent, ⟨true, .absent⟩⟩ twoAtOnce = some s ∧ s.module.Settled ∧
      s.module.recorded.length = 11 ∧ s.module.insights.length = 0) :=
  ⟨⟨_, rfl, by decide +kernel, rfl, rfl⟩, ⟨_, rfl, by decide +kernel, rfl, rfl⟩⟩

end Store

end Bridge.Learning
