import Bridge.WebSocket.Connections

/-!
# The counters of the bridge

`totalTasks` is counted up when a task is accepted, `completedTasks` and `failedTasks` when the
orchestrator has answered; and `failedTasks` once more in the `catch` block, whatever was thrown.
Two things are thrown that are not about a task that runs: a request that is malformed, which was
never counted, and a feedback that could not be recorded, of a task that was counted as completed or
failed already. Each of them leaves one failure too many: `tasks_accounting`.
-/

namespace Bridge.WebSocket

open Lib

variable {S T : Type} [DecidableEq S] [DecidableEq T]

def Site.running : Site S T → Bool
  | .processMessage .. => true
  | .tryRemoveTokens .. | .recordFeedback .. => false

def running (p : Server S T) : Nat := countSites Site.running p.sites

/-- `handleTaskExecute` throws `Invalid task request`. -/
def refusesRequest (w : World S T) (socket : S) (request : Option (TaskExecutionRequest T))
    (uuid : T) : Bool :=
  (w.bridge.connectedClients.get socket).isSome && !(validRequest request uuid).isOk

def malformedAt (w : World S T) : (q : Site S T) → Option (Answer q) → Nat
  | .tryRemoveTokens socket request uuid, x =>
    if x = some true ∧ refusesRequest w socket request uuid then 1 else 0
  | .processMessage .., _ | .recordFeedback .., _ => 0

def unrecordedAt : (q : Site S T) → Option (Answer q) → Nat
  | .recordFeedback .., some (.ok ()) => 0
  | .recordFeedback .., _ => 1
  | .tryRemoveTokens .., _ | .processMessage .., _ => 0

def countBy (f : World S T → (q : Site S T) → Option (Answer q) → Nat) (p : Server S T) :
    Action S T → Nat
  | .start _ => 0
  | .resume i answer =>
    match p.sites[i]? with
    | some (some q) => f p.state q (answer q)
    | _ => 0

def malformed (run : List (Action S T)) : Nat := tally step (countBy malformedAt) init run

def unrecorded (run : List (Action S T)) : Nat :=
  tally step (countBy fun _ => unrecordedAt) init run

section Balance

variable {w w' : World S T} {socket : S} {request : Option (TaskExecutionRequest T)} {uuid : T}
  {q : Site S T} {x : Option (Answer q)} {q' : Option (Site S T)} {e : Event S T}

def Metrics.settled (m : Metrics) : Nat := m.completedTasks + m.failedTasks

omit [DecidableEq S] [DecidableEq T] in
theorem settled_finish (b : State S T) (socket : S) (taskId : T) (result : TaskResult) :
    (b.finish socket taskId result).metrics.settled = b.metrics.settled + 1 := by
  obtain ⟨avg, hmetrics⟩ := State.metrics_finish b socket taskId result
  rw [hmetrics]
  cases result.success with
  | true => exact Nat.add_right_comm _ _ _
  | false => rfl

theorem Handled.balance (h : Handled socket request uuid w w' q') :
    w'.bridge.metrics.settled + weight Site.running q' + w.bridge.metrics.totalTasks =
      w.bridge.metrics.settled + w'.bridge.metrics.totalTasks +
        if refusesRequest w socket request uuid then 1 else 0 := by
  cases h with
  | unknown hc =>
    have hnot : refusesRequest w socket request uuid = false := by simp [refusesRequest, hc]
    rw [hnot]
    rfl
  | malformed hc hbad =>
    have hyes : refusesRequest w socket request uuid = true := by
      simp [refusesRequest, hc, hbad, Except.isOk, Except.toBool]
    rw [hyes]
    show w.bridge.metrics.completedTasks + (w.bridge.metrics.failedTasks + 1) + 0 +
      w.bridge.metrics.totalTasks = w.bridge.metrics.completedTasks + w.bridge.metrics.failedTasks +
        w.bridge.metrics.totalTasks + 1
    omega
  | accepted hc hok =>
    have hnot : refusesRequest w socket request uuid = false := by
      simp [refusesRequest, hok, Except.isOk, Except.toBool]
    rw [hnot]
    show w.bridge.metrics.settled + 1 + w.bridge.metrics.totalTasks =
      w.bridge.metrics.settled + (w.bridge.metrics.totalTasks + 1) + 0
    omega

omit [DecidableEq S] [DecidableEq T] in
theorem unrecordedAt_of_ne {request : TaskExecutionRequest T} {taskId : T}
    {x : Option (Except String Unit)} (h : x ≠ some (.ok ())) :
    unrecordedAt (.recordFeedback socket request taskId) x = 1 := by
  cases x with
  | none => rfl
  | some answer =>
    cases answer with
    | error message => rfl
    | ok u => exact absurd rfl h

theorem Moves.balance (h : Moves q x w w' q') :
    w'.bridge.metrics.settled + weight Site.running q' + w.bridge.metrics.totalTasks =
      w.bridge.metrics.settled + weight Site.running (some q) + w'.bridge.metrics.totalTasks +
        (malformedAt w q x + unrecordedAt q x) := by
  cases h with
  | admitted hh =>
    rename_i socket request uuid
    have hbalance := hh.balance
    have hmalformed : malformedAt w (.tryRemoveTokens socket request uuid) (some true) =
        if refusesRequest w socket request uuid then 1 else 0 := by
      simp [malformedAt]
    rw [hmalformed]
    exact hbalance
  | refused => rfl
  | rejected => rfl
  | finished =>
    rename_i socket request taskId result
    have hsettled := settled_finish w.bridge socket taskId result
    have htotal : (w.bridge.finish socket taskId result).metrics.totalTasks =
        w.bridge.metrics.totalTasks := by
      obtain ⟨avg, hmetrics⟩ := State.metrics_finish w.bridge socket taskId result
      rw [hmetrics]
    show (w.bridge.finish socket taskId result).metrics.settled + 0 + w.bridge.metrics.totalTasks =
      w.bridge.metrics.settled + 1 + (w.bridge.finish socket taskId result).metrics.totalTasks + 0
    rw [hsettled, htotal]
    rfl
  | failed => rfl
  | recorded => rfl
  | unrecorded h =>
    rw [unrecordedAt_of_ne h]
    show w.bridge.metrics.settled + 1 + 0 + w.bridge.metrics.totalTasks =
      w.bridge.metrics.settled + 0 + w.bridge.metrics.totalTasks + (0 + 1)
    omega

theorem Begins.balance (hsynced : Synced w) (h : Begins e w w' q') :
    w'.bridge.metrics.settled = w.bridge.metrics.settled ∧ weight Site.running q' = 0 ∧
      w'.bridge.metrics.totalTasks = w.bridge.metrics.totalTasks := by
  cases h with
  | unlimited hconnected hnone hh =>
    -- a connected socket has a limiter
    have hkey := (hsynced.limiters _).mpr hconnected
    exact absurd hkey (OrderedMap.get_eq_none_iff.mp hnone)
  | ignored | connected | limited | subscribed | unsubscribed | disconnected =>
    exact ⟨rfl, rfl, rfl⟩

end Balance

/-! ## Runs -/

def Accounts (n : Nat) (p : Server S T) : Prop :=
  Kept p ∧ p.state.bridge.metrics.settled + running p = p.state.bridge.metrics.totalTasks + n

theorem Accounts.step {n : Nat} {p p' : Server S T} {a : Action S T} (h : Accounts n p)
    (hs : step p a = some p') :
    Accounts (n + (countBy malformedAt p a + countBy (fun _ => unrecordedAt) p a)) p' := by
  obtain ⟨hkept, hcount⟩ := h
  refine ⟨hkept.step hs, ?_⟩
  obtain ⟨-, hmove⟩ := step_moves hkept.1 hs
  simp only [running] at hcount ⊢
  generalize p'.state = w', p'.sites = sites' at hmove ⊢
  cases hmove with
  | start hb =>
    obtain ⟨hsettled, hweight, htotal⟩ := hb.balance hkept.2
    rw [countSites_append, hsettled, hweight, htotal]
    exact hcount
  | resume hi hm =>
    rename_i i answer q q'
    have hmalformed : countBy malformedAt p (.resume i answer) = malformedAt p.state q
      (answer q) := by
      simp [countBy, hi]
    have hunrecorded : countBy (fun _ => unrecordedAt) p (.resume i answer) =
        unrecordedAt q (answer q) := by
      simp [countBy, hi]
    have hsites : countSites Site.running (p.sites.set i q') + weight Site.running (some q) =
        countSites Site.running p.sites + weight Site.running q' := countSites_set hi
    have hbalance := hm.balance
    omega

def unlearned : (q : Site Nat Nat) → Option (Answer q)
  | .tryRemoveTokens .. => some true
  | .processMessage .. => some (.ok ⟨true, 1⟩)
  | .recordFeedback .. => none

def busyRun : List (Action Nat Nat) :=
  [.start (.connect 0 none none),
    .start (.execute 0 (some { task := some { type := some "code" } }) 7),
    .start (.execute 0 (some { task := some { type := some "code" } }) 8),
    .resume 1 unlimited, .resume 2 unlimited, .resume 1 unlimited, .resume 1 unlimited]

end Bridge.WebSocket
