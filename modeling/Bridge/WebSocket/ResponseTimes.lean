import Bridge.Lib.Averages
import Bridge.WebSocket.Accounting

/-!
# The average response time

`updateAverageResponseTime` takes the average so far for that of `totalTasks - 1` tasks, where
`totalTasks` are the tasks counted *before* the one that has just been completed. Of `n` tasks that
have all been answered the average is then that of the last `n - 1`: the second time overwrites the
first. The counters are also those of the `catch` block, where no time is taken. With exactly one
failure of that kind the weights come out right.
-/

namespace Bridge.WebSocket

open Lib

variable {S T : Type}

/-- The response time, where a site settles with an answer of the orchestrator. -/
def responseTime : (q : Site S T) → Option (Answer q) → Option Rat
  | .processMessage .., some (.ok result) => some result.executionTime
  | .processMessage .., _ => none
  | .tryRemoveTokens .., _ | .recordFeedback .., _ => none

def completion (p : Server S T) : Action S T → Option Rat
  | .start _ => none
  | .resume i answer =>
    match p.sites[i]? with
    | some (some q) => responseTime q (answer q)
    | _ => none

structure Timed (S T : Type) where
  server : Server S T
  times : List Rat

namespace Timed

def metrics (t : Timed S T) : Metrics := t.server.state.bridge.metrics

def Averages (t : Timed S T) : Prop := t.metrics.avgResponseTime = mean t.times

variable [DecidableEq S] [DecidableEq T]

def init : Timed S T := ⟨WebSocket.init, []⟩

def step (t : Timed S T) (a : Action S T) : Option (Timed S T) :=
  (WebSocket.step t.server a).map fun p => ⟨p, t.times ++ (completion t.server a).toList⟩

end Timed

/-! ## What an action does to the average -/

inductive Weighs (m : Metrics) : Option Rat → Metrics → Prop
  | completed {time : Rat} {m' : Metrics} (hn : m'.settled = m.settled + 1)
      (havg : m'.avgResponseTime = (State.updateAverageResponseTime m time).avgResponseTime) :
      Weighs m (some time) m'
  | other {m' : Metrics} (hn : m.settled ≤ m'.settled)
      (havg : m'.avgResponseTime = m.avgResponseTime) : Weighs m none m'

theorem Weighs.counted {m m' : Metrics} {c : Option Rat} {times : List Rat} (h : Weighs m c m')
    (hcounted : times.length ≤ m.settled) : (times ++ c.toList).length ≤ m'.settled := by
  cases h with
  | completed hn havg =>
    rw [hn]
    simpa using hcounted
  | other hn havg => simpa using Nat.le_trans hcounted hn

theorem avgResponseTime_update (m : Metrics) (time : Rat) :
    (State.updateAverageResponseTime m time).avgResponseTime =
      if m.settled = 0 then time else (m.avgResponseTime * ((m.settled : Rat) - 1) + time) /
        m.settled := by
  exact apply_ite Metrics.avgResponseTime _ _ _

theorem avgResponseTime_finish (b : State S T) (socket : S) (taskId : T) (result : TaskResult) :
    (b.finish socket taskId result).metrics.avgResponseTime =
      (State.updateAverageResponseTime b.metrics result.executionTime).avgResponseTime := by
  unfold State.finish State.emit
  split <;> rfl

theorem responseTime_of_ne {socket : S} {request : TaskExecutionRequest T} {taskId : T}
    {x : Option (Except String TaskResult)} (h : ∀ result, x ≠ some (.ok result)) :
    responseTime (.processMessage socket request taskId) x = none := by
  cases x with
  | none => rfl
  | some answer =>
    cases answer with
    | error message => rfl
    | ok result => exact absurd rfl (h result)

section Weighs

variable [DecidableEq S] [DecidableEq T] {w w' : World S T} {socket : S}
  {request : Option (TaskExecutionRequest T)} {uuid : T} {q : Site S T} {x : Option (Answer q)}
  {q' : Option (Site S T)} {e : Event S T}

theorem Handled.weighs (h : Handled socket request uuid w w' q') :
    Weighs w.bridge.metrics none w'.bridge.metrics := by
  cases h with
  | unknown hc => exact .other (Nat.le_refl _) rfl
  | malformed hc hbad => exact .other (Nat.le_succ _) rfl
  | accepted hc hok => exact .other (Nat.le_refl _) rfl

theorem Moves.weighs (h : Moves q x w w' q') :
    Weighs w.bridge.metrics (responseTime q x) w'.bridge.metrics := by
  cases h with
  | admitted hh => exact hh.weighs
  | refused | rejected => exact .other (Nat.le_refl _) rfl
  | finished => exact .completed (settled_finish _ _ _ _) (avgResponseTime_finish _ _ _ _)
  | failed hx =>
    rw [responseTime_of_ne hx]
    exact .other (Nat.le_succ _) rfl
  | recorded => exact .other (Nat.le_refl _) rfl
  | unrecorded => exact .other (Nat.le_succ _) rfl

theorem Begins.weighs (h : Begins e w w' q') : Weighs w.bridge.metrics none w'.bridge.metrics := by
  cases h with
  | unlimited hconnected hnone hh => exact hh.weighs
  | ignored | connected | limited | subscribed | unsubscribed | disconnected =>
    exact .other (Nat.le_refl _) rfl

end Weighs

namespace Timed

variable [DecidableEq S] [DecidableEq T] {t t' : Timed S T} {a : Action S T}

theorem step_weighs (h : t.server.Obedient Moves) (hs : t.step a = some t') :
    t'.server.Obedient Moves ∧ t'.times = t.times ++ (completion t.server a).toList ∧
      Weighs t.metrics (completion t.server a) t'.metrics := by
  obtain ⟨p, hp, rfl⟩ := Option.map_eq_some_iff.mp hs
  obtain ⟨hobedient, hmove⟩ := step_moves h hp
  refine ⟨hobedient, rfl, ?_⟩
  simp only [metrics]
  generalize p.state = w', p.sites = sites' at hmove ⊢
  cases hmove with
  | start hb => exact hb.weighs
  | resume hi hm =>
    simp only [completion, hi]
    exact hm.weighs

/-- A task is completed and does no harm: it is the first that is counted at all, or the weights are
right, or its time is the average. -/
def Spared (t : Timed S T) (a : Action S T) : Prop :=
  ∀ time ∈ completion t.server a,
    t.metrics.settled = 0 ∨ t.metrics.settled = t.times.length + 1 ∨ time = mean t.times

structure Right (t : Timed S T) : Prop where
  obedient : t.server.Obedient Moves
  counted : t.times.length ≤ t.metrics.settled
  averages : t.Averages

theorem Right.update_iff (h : t.Right) (time : Rat) :
    (State.updateAverageResponseTime t.metrics time).avgResponseTime = mean (t.times ++ [time]) ↔
      t.metrics.settled = 0 ∨ t.metrics.settled = t.times.length + 1 ∨ time = mean t.times := by
  rw [avgResponseTime_update, h.averages]
  by_cases hn : t.metrics.settled = 0
  · have hnil : t.times = [] := List.eq_nil_of_length_eq_zero (Nat.le_zero.mp (hn ▸ h.counted))
    rw [if_pos hn, hnil]
    simp [hn, mean]
  · rw [if_neg hn, weigh_eq_mean_concat_iff _ _ hn]
    simp [hn]

/-- **One step**: the average stays right iff the step is spared. -/
theorem Right.step (h : t.Right) (hs : t.step a = some t') :
    t'.server.Obedient Moves ∧ t'.times.length ≤ t'.metrics.settled ∧
    (t'.Averages ↔ t.Spared a) := by
  obtain ⟨hobedient, htimes, hweighs⟩ := step_weighs h.obedient hs
  refine ⟨hobedient, htimes ▸ hweighs.counted h.counted, ?_⟩
  rw [Averages, htimes, Spared]
  generalize completion t.server a = c, t'.metrics = m' at hweighs ⊢
  cases hweighs with
  | completed hn havg =>
    rw [havg]
    simpa using h.update_iff _
  | other hn havg =>
    have hkept : m'.avgResponseTime = mean t.times := havg.trans h.averages
    simpa using hkept

theorem right_init : (init : Timed S T).Right :=
  ⟨obedient_init, Nat.le_refl 0, by simp [Averages, init, metrics, WebSocket.init,
    State.init, mean]⟩

end Timed

/-! ## Where nothing is thrown -/

/-- The times an average is of, if nothing else was counted: all but the first, once there are
two. -/
def remembered : List Rat → List Rat
  | _ :: time :: times => time :: times
  | times => times

theorem mean_remembered_concat (times : List Rat) (time : Rat) : (if times.length = 0 then time
      else (mean (remembered times) * ((times.length : Rat) - 1) + time) / times.length) =
      mean (remembered (times ++ [time])) := by
  rcases times with _ | ⟨first, _ | ⟨second, times⟩⟩
  · simp [remembered, mean]
  · simp [remembered, mean]
  · have hne : (first :: second :: times).length ≠ 0 := Nat.succ_ne_zero _
    rw [if_neg hne]
    exact (weigh_eq_mean_concat_iff (second :: times) time (Nat.succ_ne_zero _)).mpr (.inl rfl)

namespace Timed

variable [DecidableEq S] [DecidableEq T] {t t' : Timed S T} {a : Action S T}

/-- As long as only answers are counted, the average forgets the first time. -/
structure Forgetful (t : Timed S T) : Prop where
  obedient : t.server.Obedient Moves
  counted : t.times.length ≤ t.metrics.settled
  forgets : t.times.length = t.metrics.settled → t.metrics.avgResponseTime = mean
    (remembered t.times)

theorem Forgetful.step (h : t.Forgetful) (hs : t.step a = some t') : t'.Forgetful := by
  obtain ⟨hobedient, htimes, hweighs⟩ := step_weighs h.obedient hs
  refine ⟨hobedient, htimes ▸ hweighs.counted h.counted, ?_⟩
  rw [htimes]
  intro hall
  have hcounted := h.counted
  generalize completion t.server a = c, t'.metrics = m' at hweighs hall ⊢
  cases hweighs with
  | completed hn havg =>
    have hsame : t.times.length = t.metrics.settled := by simpa [hn] using hall
    rw [havg, avgResponseTime_update, h.forgets hsame, ← hsame]
    exact mean_remembered_concat _ _
  | other hn havg =>
    rw [Option.toList_none, List.append_nil] at hall ⊢
    have hsame : t.times.length = t.metrics.settled := by omega
    exact havg.trans (h.forgets hsame)

theorem forgetful_init : (init : Timed S T).Forgetful :=
  ⟨obedient_init, Nat.le_refl 0, fun _ => right_init.averages⟩

end Timed

variable [DecidableEq S] [DecidableEq T]

/-- **When the average response time is the average of the response times.** -/
theorem avgResponseTime_iff (run : List (Action S T)) :
    (Always Timed.step Timed.Averages Timed.init run ↔ Guarded Timed.step Timed.Spared
      Timed.init run) ∧
    ∀ t, exec Timed.step Timed.init run = some t → t.times.length = t.metrics.settled →
      t.metrics.avgResponseTime = mean (remembered t.times) := by
  refine ⟨always_iff_guarded Timed.Right.averages ?_ ?_ Timed.right_init, ?_⟩
  · intro t a t' h hs hspared
    obtain ⟨hobedient, hcounted, hiff⟩ := h.step hs
    exact ⟨hobedient, hcounted, hiff.mpr hspared⟩
  · intro t a t' h hs haverages
    exact (h.step hs).2.2.mp haverages
  · intro t ht hall
    have hforgetful : t.Forgetful :=
  (reaches_of_exec ht).invariant Timed.Forgetful Timed.forgetful_init
      fun h _ hs => h.step hs
    exact hforgetful.forgets hall

def answering (executionTime : Rat) : (q : Site Nat Nat) → Option (Answer q)
  | .tryRemoveTokens .. => some true
  | .processMessage .. => some (.ok ⟨true, executionTime⟩)
  | .recordFeedback .. => some (.ok ())

theorem average_of_the_second : (exec Timed.step Timed.init [.start (.connect 0 none none),
      .start (.execute 0 (some { task := some { type := some "code" } }) 7),
      .start (.execute 0 (some { task := some { type := some "code" } }) 8),
      .resume 1 (answering 1000), .resume 1 (answering 1000), .resume 1 (answering 1000),
      .resume 2 (answering 3000), .resume 2 (answering 3000), .resume 2 (answering 3000)]).map
        (fun t : Timed Nat Nat => (t.times, t.metrics.avgResponseTime, mean t.times)) =
      some ([1000, 3000], 3000, 2000) := by
  decide +kernel

end Bridge.WebSocket
