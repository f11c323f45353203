import Mathlib.Tactic.Linarith
import Bridge.Distributed.Data
import Bridge.Lib.Sites

/-!
# The load of one node

A node counts the tasks it executes in `nodeInfo.currentLoad`, and `processNextTask` claims another
one while the count is below `nodeInfo.maxConcurrency`. Both are plain fields of the process. The
methods that read and write them are here as the source has them, with every `await` on Redis a
point at which the others go on: ticks do not wait for each other, a reply may take any time, and
each call may reject. What Redis has is up to the environment.
-/

namespace Bridge.Distributed.Capacity

open Lib Coroutine List

/-! ## The methods -/

structure NodeInfo where
  currentLoad : Int
  maxConcurrency : Rat
  tasksProcessed : Nat
  isActive : Bool

inductive Site
  /-- `processNextTask`: the claim script -/
  | claim
  /-- `executeTask`: the first `updateNodeStatus` -/
  | enter (taskId : TaskId)
  /-- `executeTask`: the `GET` of the record -/
  | load (taskId : TaskId)
  /-- `updateTaskStatus`: its `GET` and its `SET` -/
  | update (taskId : TaskId) (status : Status)
  | store (taskId : TaskId) (status : Status)
  /-- `executeTask`: `executeWithRetry`, and the `PUBLISH` -/
  | process (taskId : TaskId)
  | publish (taskId : TaskId)
  /-- `requeueTask`: its `GET` and its `MULTI` -/
  | requeue (taskId : TaskId)
  | enqueue (taskId : TaskId)
  /-- the `finally` of `executeTask`: `updateNodeStatus`, and the `DEL` of the claim -/
  | leave (taskId : TaskId)
  | release (taskId : TaskId)
  /-- `handleClusterRebalance`: the `SMEMBERS`, and `updateNodeStatus` -/
  | members
  | rebalanced
  deriving DecidableEq

abbrev Answer : Site → Type
  | .claim => Option TaskId
  | .load _ | .update .. | .requeue _ => Option Text
  | .process _ => Except TaskError TaskResult
  | .members => Nat
  | _ => Unit

abbrev Op := Coroutine NodeInfo Answer TaskError

/-- What a Redis call that rejects throws; it has no code of `nonRetryableErrors`. -/
def redisError : TaskError := ⟨none, none⟩

def await (q : Site) : Op (Answer q) := awaits q redisError

section Tasks

variable (taskId : TaskId)

def updateTaskStatus (status : Status) : Op Unit := do
  match ← await (.update taskId status) with
  | none => pure ()
  | some text =>
    match text.parse with
    | none => Coroutine.throw .unreadable
    | some _ => await (.store taskId status)

def requeueTask : Op Unit := do
  match ← await (.requeue taskId) with
  | none => pure ()
  | some text =>
    match text.parse with
    | none => Coroutine.throw .unreadable
    | some taskData =>
      if taskData.retries + 1 > 3 then updateTaskStatus taskId .failed else await (.enqueue taskId)

/-- The `try` block of `executeTask`. -/
def attempt : Op Unit := do
  match ← await (.load taskId) with
  | none => Coroutine.throw (.notFound taskId)
  | some text =>
    match text.parse with
    | none => Coroutine.throw .unreadable
    | some _ => do
      updateTaskStatus taskId .processing
      match ← await (.process taskId) with
      | .error e => Coroutine.throw e
      | .ok _ => do
        updateTaskStatus taskId .completed
        await (.publish taskId)
        Coroutine.modify fun n => { n with tasksProcessed := n.tasksProcessed + 1 }

/-- Its `catch` block. -/
def recover (error : TaskError) : Op Unit := do
  updateTaskStatus taskId .failed
  if isRetryableTask error then requeueTask taskId else pure ()

/-- Its `finally` block. -/
def cleanUp : Op Unit := do
  Coroutine.modify fun n => { n with currentLoad := n.currentLoad - 1 }
  await (.leave taskId)
  await (.release taskId)

def executeTask : Op Unit := do
  Coroutine.modify fun n => { n with currentLoad := n.currentLoad + 1 }
  await (.enter taskId)
  ((attempt taskId).tryCatch (recover taskId)).tryFinally (cleanUp taskId)

end Tasks

/-- The `try` block of `processNextTask`; there is no task under `nil` and `''`. -/
def claimTask : Op Unit := do
  match ← await .claim with
  | none => pure ()
  | some taskId => if taskId = "" then pure () else executeTask taskId

def processNextTask : Op Unit := do
  let n ← read
  if n.maxConcurrency ≤ n.currentLoad then pure () else claimTask.tryCatch fun _ => pure ()

variable (portion : Rat → Nat → Rat)

/-- `portion` is `Math.floor(maxConcurrency * (1 / nodeCount))`. -/
def handleClusterRebalance : Op Unit := do
  let nodeCount ← await .members
  if 0 < nodeCount then do
    Coroutine.modify fun n =>
      { n with maxConcurrency := max 1 (portion n.maxConcurrency nodeCount) }
    await .rebalanced
  else pure ()

/-- What the process is called for: the task interval, a `cluster:rebalance` message, and the
assignments to `isActive` in `start` and `shutdown`. -/
inductive Method
  | tick
  | rebalance
  | setActive (isActive : Bool)
  deriving DecidableEq

def method : Method → Op Unit
  | .tick => do
    let n ← read
    if n.isActive then processNextTask else pure ()
  | .rebalance => (handleClusterRebalance portion).tryCatch fun _ => pure ()
  | .setActive isActive => Coroutine.modify fun n => { n with isActive }

abbrev Process := Pool NodeInfo Answer TaskError Unit

def step : Process → Pool.Action Method Answer → Option Process := Pool.step (method portion)

def init (maxConcurrency : Rat) : Process := ⟨⟨0, maxConcurrency, 0, false⟩, []⟩

/-! ## What can happen at an `await` -/

/-- Inside the `try` statement of `executeTask`. -/
def Site.working : Site → Bool
  | .load _ | .update .. | .store .. | .process _ | .publish _ | .requeue _ | .enqueue _ => true
  | _ => false

/-- Inside `executeTask`, up to `currentLoad--`. -/
def Site.executing : Site → Bool
  | .enter _ => true
  | q => q.working

/-- Inside `executeTask`, after `currentLoad--`. -/
def Site.ending : Site → Bool
  | .leave _ | .release _ => true
  | _ => false

/-- Inside `executeTask`. -/
def Site.inProgress (q : Site) : Bool := q.executing || q.ending

def Site.claiming : Site → Bool
  | .claim => true
  | _ => false

/-- The execution goes on: it is in its `try` statement, or gets there. -/
def GoesOn : (q : Site) → Option (Answer q) → Prop
  | .enter _, x => x.isSome
  | q, _ => q.working

def Claimed (x : Option (Answer .claim)) (taskId : TaskId) : Prop :=
  x = some (some taskId) ∧ taskId ≠ ""

inductive Moves : (q : Site) → Option (Answer q) → NodeInfo → NodeInfo → Option Site → Prop
  | idle {x : Option (Answer .claim)} {n : NodeInfo} (h : ∀ taskId, ¬ Claimed x taskId) :
      Moves .claim x n n none
  | begin {x : Option (Answer .claim)} {n : NodeInfo} {taskId : TaskId} (h : Claimed x taskId) :
      Moves .claim x n { n with currentLoad := n.currentLoad + 1 } (some (.enter taskId))
  | lost {taskId : TaskId} {n : NodeInfo} : Moves (.enter taskId) none n n none
  | work {q q' : Site} {x : Option (Answer q)} {n n' : NodeInfo} (h : GoesOn q x)
      (hq' : q'.working = true) (hload : n'.currentLoad = n.currentLoad)
      (hmax : n'.maxConcurrency = n.maxConcurrency) : Moves q x n n' (some q')
  | finish {q : Site} {x : Option (Answer q)} {n n' : NodeInfo} {taskId : TaskId} (h : GoesOn q x)
      (hload : n'.currentLoad = n.currentLoad - 1)
      (hmax : n'.maxConcurrency = n.maxConcurrency) : Moves q x n n' (some (.leave taskId))
  | left {taskId : TaskId} {x : Option (Answer (.leave taskId))} {n : NodeInfo} {q' : Option Site}
      (h : q' = none ∨ q' = some (.release taskId)) : Moves (.leave taskId) x n n q'
  | released {taskId : TaskId} {x : Option (Answer (.release taskId))} {n : NodeInfo} :
      Moves (.release taskId) x n n none
  | rebalance {x : Option (Answer .members)} {n : NodeInfo} {m : Rat} :
      Moves .members x n { n with maxConcurrency := m } (some .rebalanced)
  | alone {x : Option (Answer .members)} {n : NodeInfo} : Moves .members x n n none
  | rebalanced {x : Option (Answer .rebalanced)} {n : NodeInfo} : Moves .rebalanced x n n none

def Begins : Method → NodeInfo → NodeInfo → Option Site → Prop
  | .tick, n, n', q => n' = n ∧ (q = none ∨ q = some .claim ∧ (n.currentLoad : Rat) <
    n.maxConcurrency)
  | .rebalance, n, n', q => n' = n ∧ q = some .members
  | .setActive _, n, n', q =>
    n'.currentLoad = n.currentLoad ∧ n'.maxConcurrency = n.maxConcurrency ∧ q = none

section Obeys

variable {P : NodeInfo → Option Site → Prop} {n : NodeInfo} {q : Site} {taskId : TaskId}

/-- An execution that goes on may come to any site of the `try` statement, or leave it. -/
def Works (P : NodeInfo → Option Site → Prop) (n : NodeInfo) : Prop :=
  (∀ n' q', n'.currentLoad = n.currentLoad → n'.maxConcurrency = n.maxConcurrency →
    q'.working = true → P n' (some q')) ∧
  ∀ n' taskId, n'.currentLoad = n.currentLoad - 1 → n'.maxConcurrency = n.maxConcurrency →
    P n' (some (.leave taskId))

theorem works_moves {x : Option (Answer q)} (h : GoesOn q x) : Works (Moves q x n) n :=
  ⟨fun _ _ hload hmax hq' => .work h hq' hload hmax, fun _ _ hload hmax => .finish h hload hmax⟩

/-- A part of the `try` statement. -/
def Steady {α : Type} (c : Op α) : Prop :=
  ∀ P n, Works P n → c.Obeys Moves (fun _ P n => Works P n) P n

theorem steady_pure {α : Type} {a : α} : Steady (pure a) := fun _ _ h => h

theorem steady_throw {α : Type} {e : TaskError} : Steady (Coroutine.throw e : Op α) :=
  fun _ _ h => h

theorem goesOn_of_working (hq : q.working = true) (x : Option (Answer q)) : GoesOn q x := by
  cases q <;> first | exact hq | simp [Site.working] at hq

theorem steady_await (hq : q.working = true) : Steady (await q) := by
  intro P n h
  apply obeys_awaits
  · exact h.1 n q rfl rfl hq
  · exact fun a n' => works_moves (goesOn_of_working hq _)
  · exact fun n' => works_moves (goesOn_of_working hq _)

theorem Steady.bind {α β : Type} {c : Op α} {f : α → Op β} (hc : Steady c)
    (hf : ∀ a, Steady (f a)) : Steady (c >>= f) := by
  intro P n h
  apply (hc P n h).bind
  · exact fun a P n hw => hf a P n hw
  · exact fun e P n hw => hw

theorem Steady.tryCatch {α : Type} {c : Op α} {handler : TaskError → Op α} (hc : Steady c)
    (hh : ∀ e, Steady (handler e)) : Steady (c.tryCatch handler) := by
  intro P n h
  refine (hc P n h).andThen ?_
  intro r P n hw
  cases r with
  | ok a => exact hw
  | error e => exact hh e P n hw

theorem steady_updateTaskStatus {status : Status} : Steady (updateTaskStatus taskId status) := by
  refine (steady_await rfl).bind ?_
  intro text
  cases text with
  | none => exact steady_pure
  | some text =>
    dsimp only
    split
    · exact steady_throw
    · exact steady_await rfl

theorem steady_requeueTask : Steady (requeueTask taskId) := by
  refine (steady_await rfl).bind ?_
  intro text
  cases text with
  | none => exact steady_pure
  | some text =>
    dsimp only
    split
    · exact steady_throw
    · split
      · exact steady_updateTaskStatus
      · exact steady_await rfl

theorem steady_attempt : Steady (attempt taskId) := by
  refine (steady_await rfl).bind ?_
  intro text
  cases text with
  | none => exact steady_throw
  | some text =>
    dsimp only
    split
    · exact steady_throw
    · refine steady_updateTaskStatus.bind fun _ => (steady_await rfl).bind ?_
      intro outcome
      cases outcome with
      | error e => exact steady_throw
      | ok result =>
        refine steady_updateTaskStatus.bind fun _ => (steady_await rfl).bind ?_
        -- counting the task as processed leaves the load and the limit alone
        intro _ P n h
        exact h

theorem steady_recover {error : TaskError} : Steady (recover taskId error) := by
  refine steady_updateTaskStatus.bind ?_
  intro _
  split
  · exact steady_requeueTask
  · exact steady_pure

theorem obeys_cleanUp (h : Works P n) :
    (cleanUp taskId).Obeys Moves (fun _ P n => P n none) P n := by
  refine ⟨h.2 _ _ rfl rfl, ?_⟩
  intro x n'
  cases x with
  | none => exact Moves.left (.inl rfl)
  | some a =>
    refine ⟨Moves.left (.inr rfl), ?_⟩
    intro y n''
    cases y with
    | none | some => exact Moves.released

theorem obeys_executeTask
    (h : P { n with currentLoad := n.currentLoad + 1 } (some (.enter taskId))) :
    (executeTask taskId).Obeys Moves (fun _ P n => P n none) P n := by
  refine ⟨h, ?_⟩
  intro x n'
  cases x with
  | none => exact Moves.lost
  | some a =>
    have htry : Steady ((attempt taskId).tryCatch (recover taskId)) :=
      steady_attempt.tryCatch fun _ => steady_recover
    have hgo : GoesOn (.enter taskId) (some a) := rfl
    refine (htry _ n' (works_moves hgo)).andThen ?_
    intro r P n hw
    refine (obeys_cleanUp hw).andThen ?_
    intro r' P n hend
    cases r' with
    | ok | error => exact hend

theorem obeys_claimTask (h : P n (some .claim)) :
    claimTask.Obeys Moves (fun _ P n => P n none) P n := by
  refine ⟨h, ?_⟩
  intro x n'
  cases x with
  | none => exact Moves.idle fun _ hc => absurd hc.1 (by simp)
  | some reply =>
    cases reply with
    | none => exact Moves.idle fun _ hc => absurd hc.1 (by simp)
    | some taskId =>
      show Obeys Moves _ (if taskId = "" then pure () else executeTask taskId) _ _
      split
      · rename_i hempty
        refine Moves.idle fun t hc => hc.2 ?_
        obtain rfl : taskId = t := by simpa using hc.1
        exact hempty
      · rename_i hne
        exact obeys_executeTask (Moves.begin ⟨rfl, hne⟩)

theorem obeys_caught {c : Op Unit} (h : c.Obeys Moves (fun _ P n => P n none) P n) :
    (c.tryCatch fun _ => pure ()).Obeys Moves (fun _ P n => P n none) P n := by
  refine h.andThen ?_
  intro r P n hend
  cases r with
  | ok | error => exact hend

theorem obeys_method (l : Method) (n : NodeInfo) :
    (method portion l).Obeys Moves (fun _ P n => P n none) (Begins l n) n := by
  cases l with
  | tick =>
    show Obeys Moves _ (if n.isActive then processNextTask else pure ()) _ n
    split
    · show Obeys Moves _ (if n.maxConcurrency ≤ n.currentLoad then pure ()
        else claimTask.tryCatch fun _ => pure ()) _ n
      split
      · exact ⟨rfl, .inl rfl⟩
      · rename_i hlt
        exact obeys_caught (obeys_claimTask ⟨rfl, .inr ⟨rfl, not_le.mp hlt⟩⟩)
    · exact ⟨rfl, .inl rfl⟩
  | rebalance =>
    refine obeys_caught ⟨⟨rfl, rfl⟩, ?_⟩
    intro x n'
    cases x with
    | none => exact Moves.alone
    | some nodeCount =>
      show Obeys Moves _ (if 0 < nodeCount then _ else _) _ _
      split
      · refine ⟨Moves.rebalance, ?_⟩
        intro y n''
        cases y with
        | none | some => exact Moves.rebalanced
      · exact Moves.alone
  | setActive isActive => exact ⟨rfl, rfl, rfl⟩

end Obeys

/-! ## Counting the calls -/

namespace Process

/-- Executions up to their `currentLoad--`. -/
def executing (p : Process) : Nat := countSites Site.executing p.sites

def ending (p : Process) : Nat := countSites Site.ending p.sites

def inProgress (p : Process) : Nat := countSites Site.inProgress p.sites

def claiming (p : Process) : Nat := countSites Site.claiming p.sites

end Process

/-- The first `updateNodeStatus` of an execution, rejecting. -/
def lostAt : (q : Site) → Option (Answer q) → Nat
  | .enter _, x => if x.isNone then 1 else 0
  | _, _ => 0

def losses (p : Process) : Pool.Action Method Answer → Nat
  | .start _ => 0
  | .resume i answer =>
    match p.sites[i]? with
    | some (some q) => lostAt q (answer q)
    | _ => 0

def lost (maxConcurrency : Rat) (run : List (Pool.Action Method Answer)) : Nat :=
  tally (step portion) losses (init maxConcurrency) run

section Counting

variable {portion} {p p' : Process} {a : Pool.Action Method Answer}

theorem step_moves (h : p.Obedient Moves) (hs : step portion p a = some p') :
    p'.Obedient Moves ∧ Pool.SiteStep Begins Moves p.state p.sites a p'.state p'.sites :=
  h.step (obeys_method portion) hs

theorem obedient_init {m : Rat} : (init m).Obedient Moves := fun c hc => absurd hc (by simp [init])

section Weights

variable {q : Site} {x : Option (Answer q)} {n n' : NodeInfo} {q' : Option Site} {l : Method}

theorem weight_of_working (hq : q.working = true) :
    weight Site.executing (some q) = 1 ∧ weight Site.ending (some q) = 0 ∧
      weight Site.inProgress (some q) = 1 ∧ weight Site.claiming (some q) = 0 := by
  cases q <;> first | exact ⟨rfl, rfl, rfl, rfl⟩ | simp [Site.working] at hq

theorem weight_of_goesOn (h : GoesOn q x) :
    weight Site.executing (some q) = 1 ∧ weight Site.ending (some q) = 0 ∧
      weight Site.inProgress (some q) = 1 ∧ weight Site.claiming (some q) = 0 ∧
      lostAt q x = 0 := by
  cases q with
  | enter taskId =>
    obtain ⟨b, rfl⟩ := Option.isSome_iff_exists.mp h
    exact ⟨rfl, rfl, rfl, rfl, rfl⟩
  | load | update | store | process | publish | requeue | enqueue => exact ⟨rfl, rfl, rfl, rfl, rfl⟩
  | claim | leave | release | members | rebalanced => simp [GoesOn, Site.working] at h

theorem Moves.balance (h : Moves q x n n' q') :
    n'.currentLoad + weight Site.ending q' + weight Site.inProgress (some q) =
      n.currentLoad + weight Site.ending (some q) + weight Site.inProgress q' + lostAt q x := by
  cases h with
  | begin h =>
    show n.currentLoad + 1 + 0 + 0 = n.currentLoad + 0 + 1 + 0
    omega
  | lost =>
    show n.currentLoad + 0 + 1 = n.currentLoad + 0 + 0 + 1
    omega
  | work h hq' hload hmax =>
    obtain ⟨-, hend, hin, -, hlost⟩ := weight_of_goesOn h
    obtain ⟨-, hend', hin', -⟩ := weight_of_working hq'
    omega
  | finish h hload hmax =>
    rename_i taskId
    obtain ⟨-, hend, hin, -, hlost⟩ := weight_of_goesOn h
    have hend' : weight Site.ending (some (.leave taskId)) = 1 := rfl
    have hin' : weight Site.inProgress (some (.leave taskId)) = 1 := rfl
    omega
  | left h =>
    obtain rfl | rfl := h
    · show n.currentLoad + 0 + 1 = n.currentLoad + 1 + 0 + 0
      omega
    · show n.currentLoad + 1 + 1 = n.currentLoad + 1 + 1 + 0
      omega
  | released =>
    show n.currentLoad + 0 + 1 = n.currentLoad + 1 + 0 + 0
    omega
  | idle | rebalance | alone | rebalanced =>
    show n.currentLoad + 0 + 0 = n.currentLoad + 0 + 0 + 0
    omega

theorem Begins.balance (h : Begins l n n' q') :
    n'.currentLoad = n.currentLoad ∧ weight Site.ending q' = 0 ∧ weight Site.inProgress q' = 0 := by
  cases l with
  | tick =>
    obtain ⟨rfl, rfl | ⟨rfl, -⟩⟩ := h
    · exact ⟨rfl, rfl, rfl⟩
    · exact ⟨rfl, rfl, rfl⟩
  | rebalance =>
    obtain ⟨rfl, rfl⟩ := h
    exact ⟨rfl, rfl, rfl⟩
  | setActive isActive =>
    obtain ⟨hload, -, rfl⟩ := h
    exact ⟨hload, rfl, rfl⟩

end Weights

def Accounts (n : Nat) (p : Process) : Prop :=
  p.Obedient Moves ∧ p.state.currentLoad + p.ending = p.inProgress + n

theorem Accounts.step {k : Nat} (h : Accounts k p) (hs : step portion p a = some p') :
    Accounts (k + losses p a) p' := by
  obtain ⟨hob, hcount⟩ := h
  obtain ⟨hob', hmove⟩ := step_moves hob hs
  refine ⟨hob', ?_⟩
  simp only [Process.ending, Process.inProgress] at hcount ⊢
  generalize p'.state = n', p'.sites = sites' at hmove ⊢
  cases hmove with
  | start hb =>
    obtain ⟨hload, hend, hin⟩ := hb.balance
    rw [countSites_append, countSites_append, hload, hend, hin]
    exact hcount
  | resume hi hm =>
    rename_i i answer q q'
    have hlosses : losses p (.resume i answer) = lostAt q (answer q) := by
      simp [losses, hi]
    have hend : countSites Site.ending (p.sites.set i q') + weight Site.ending (some q) =
        countSites Site.ending p.sites + weight Site.ending q' := countSites_set hi
    have hin : countSites Site.inProgress (p.sites.set i q') + weight Site.inProgress (some q) =
        countSites Site.inProgress p.sites + weight Site.inProgress q' := countSites_set hi
    have hbalance := hm.balance
    omega

/-- **The load is the executions that are not yet at their end, and those that were lost.** -/
theorem load_accounting (portion : Rat → Nat → Rat) (maxConcurrency : Rat)
    (run : List (Pool.Action Method Answer)) (p : Process)
    (h : exec (step portion) (init maxConcurrency) run = some p) :
    p.state.currentLoad + p.ending = p.inProgress + lost portion maxConcurrency run ∧
    (p.state.currentLoad = p.inProgress ↔ p.ending = lost portion maxConcurrency run) ∧
    (p.inProgress = 0 → (p.state.currentLoad = 0 ↔ lost portion maxConcurrency run = 0)) := by
  have hinit : Accounts 0 (init maxConcurrency) := ⟨obedient_init, rfl⟩
  have haccounts : Accounts (0 + lost portion maxConcurrency run) p :=
    exec_tally Accounts Accounts.step hinit h
  obtain ⟨-, hcount⟩ := haccounts
  have hle : p.ending ≤ p.inProgress := by
    refine countP_mono_left fun q _ hq => ?_
    cases q with
    | none => cases hq
    | some q => simp_all [Site.inProgress]
  rw [Nat.zero_add] at hcount
  refine ⟨hcount, ?_, ?_⟩
  · omega
  · intro hnone
    omega

def settled : (q : Site) → Option (Answer q)
  | .claim => some (some "t")
  | .load _ | .update .. | .requeue _ => some none
  | .process _ => some (.ok ⟨true⟩)
  | .members => some 2
  | .enter _ | .store .. | .publish _ | .enqueue _ | .leave _ | .release _ | .rebalanced => some ()

def share (maxConcurrency : Rat) (nodeCount : Nat) : Rat := (maxConcurrency / nodeCount).floor

/-- An execution up to its last `updateNodeStatus`. -/
def endingRun : List (Pool.Action Method Answer) :=
  [.start (.setActive true), .start .tick] ++ replicate 5 (.resume 1 settled)

theorem load_accounting_endingRun : ∃ p, exec (step share) (init 1) endingRun = some p ∧
    p.state.currentLoad + p.ending = p.inProgress + lost share 1 endingRun := by
  obtain ⟨p, hp⟩ : ∃ p, exec (step share) (init 1) endingRun = some p :=
    Option.isSome_iff_exists.mp (by decide +kernel)
  exact ⟨p, hp, (load_accounting share 1 endingRun p hp).1⟩

/-- The first `updateNodeStatus` of an execution rejects. -/
def lossyRun : List (Pool.Action Method Answer) :=
  [.start (.setActive true), .start .tick, .resume 1 settled, .resume 1 fun _ => none]

theorem load_of_lost :
    (exec (step share) (init 1) lossyRun).map (fun p => (p.state.currentLoad, p.inProgress)) =
      some (1, 0) ∧
    (exec (step share) (init 1) (lossyRun ++ [.start .tick])).map Process.claiming = some 0 ∧
    (exec (step share) (init 1) endingRun).map (fun p => (p.state.currentLoad, p.inProgress)) =
      some (0, 1) := by
  refine ⟨?_, ?_, ?_⟩ <;> decide +kernel

end Counting

/-! ## The limit -/

/-- The executions and the claims on their way fit under the limit. -/
def Fits (p : Process) : Prop :=
  p.claiming = 0 ∨ (p.executing : Rat) + p.claiming < p.state.maxConcurrency + 1

def Below (p : Process) : Pool.Action Method Answer → Prop
  | .start _ => True
  | .resume i answer => p.sites[i]? = some (some .claim) → ∀ taskId,
      Claimed (answer .claim) taskId → (p.executing : Rat) < p.state.maxConcurrency

/-- A tick, or the moment at which a `cluster:rebalance` changes the limit. -/
def Widens (p : Process) : Pool.Action Method Answer → Prop
  | .start l => l = .tick
  | .resume i _ => p.sites[i]? = some (some .members)

/-- After a tick, and after a change of the limit, everything fits. -/
def Careful (p : Process) (a : Pool.Action Method Answer) : Prop :=
  Widens p a → ∀ p', step portion p a = some p' → Fits p'

instance {p : Process} : Decidable (Fits p) := inferInstanceAs (Decidable (_ ∨ _))

instance {p : Process} {a : Pool.Action Method Answer} : Decidable (Widens p a) :=
  match a with
  | .start l => inferInstanceAs (Decidable (l = .tick))
  | .resume i _ => inferInstanceAs (Decidable (p.sites[i]? = some (some .members)))

instance {p : Process} {a : Pool.Action Method Answer} : Decidable (Careful portion p a) :=
  match h : step portion p a with
  | none => isTrue fun _ p' hs => absurd (h.symm.trans hs) (by simp)
  | some q => decidable_of_iff (Widens p a → Fits q)
      ⟨fun hf hw p' hs => Option.some.inj (h.symm.trans hs) ▸ hf hw, fun hc hw => hc hw q h⟩

def claims (taskId : TaskId) : (q : Site) → Option (Answer q)
  | .claim => some (some taskId)
  | _ => none

section Limit

variable {portion} {p p' : Process} {a : Pool.Action Method Answer}

theorem Fits.below (h : Fits p) : Below p a := by
  cases a with
  | start l => trivial
  | resume i answer =>
    intro hi taskId _
    have hweight : weight Site.claiming (some .claim) ≤ countSites Site.claiming p.sites :=
      weight_le_countSites hi
    have hone : 1 ≤ p.claiming := hweight
    obtain hnone | hfits := h
    · omega
    · have hcast : (1 : Rat) ≤ p.claiming := by exact_mod_cast hone
      linarith

variable {q' : Option Site} {n n' : NodeInfo}

theorem Moves.narrows {q : Site} {x : Option (Answer q)} (h : Moves q x n n' q')
    (hq : q ≠ .members) : n'.maxConcurrency = n.maxConcurrency ∧
      weight Site.claiming q' ≤ weight Site.claiming (some q) ∧
      weight Site.executing q' + weight Site.claiming q' ≤
        weight Site.executing (some q) + weight Site.claiming (some q) := by
  cases h with
  | work h hq' hload hmax =>
    obtain ⟨hexec, -, -, hclaim, -⟩ := weight_of_goesOn h
    obtain ⟨hexec', -, -, hclaim'⟩ := weight_of_working hq'
    refine ⟨hmax, ?_, ?_⟩ <;> omega
  | finish h hload hmax => exact ⟨hmax, Nat.zero_le _, Nat.zero_le _⟩
  | idle | lost | released | rebalanced => exact ⟨rfl, Nat.zero_le _, Nat.zero_le _⟩
  | begin => exact ⟨rfl, Nat.zero_le _, Nat.le_refl 1⟩
  | left h =>
    obtain rfl | rfl := h
    · exact ⟨rfl, Nat.zero_le _, Nat.zero_le _⟩
    · exact ⟨rfl, Nat.zero_le _, Nat.zero_le _⟩
  | rebalance | alone => exact absurd rfl hq

theorem Begins.quiet {l : Method} (h : Begins l n n' q')
    (hl : l ≠ .tick) : n'.maxConcurrency = n.maxConcurrency ∧ weight Site.claiming q' = 0 ∧
      weight Site.executing q' = 0 := by
  cases l with
  | tick => exact absurd rfl hl
  | rebalance =>
    obtain ⟨rfl, rfl⟩ := h
    exact ⟨rfl, rfl, rfl⟩
  | setActive isActive =>
    obtain ⟨-, hmax, rfl⟩ := h
    exact ⟨hmax, rfl, rfl⟩

theorem Moves.of_claimed {x : Option (Answer .claim)} {taskId : TaskId} (h : Moves .claim x n n' q')
    (hx : Claimed x taskId) : n'.maxConcurrency = n.maxConcurrency ∧ weight Site.executing q' = 1 ∧
      weight Site.claiming q' = 0 := by
  cases h with
  | idle h => exact absurd hx (h taskId)
  | begin h => exact ⟨rfl, rfl, rfl⟩
  | work h | finish h => simp [GoesOn, Site.working] at h

theorem Fits.step (h : Fits p) (hob : p.Obedient Moves) (hs : step portion p a = some p')
    (hc : Careful portion p a) : Fits p' := by
  by_cases hw : Widens p a
  · exact hc hw p' hs
  · obtain ⟨-, hmove⟩ := step_moves hob hs
    simp only [Fits, Process.claiming, Process.executing] at h ⊢
    generalize p'.state = n', p'.sites = sites' at hmove ⊢
    cases hmove with
    | start hb =>
      obtain ⟨hmax, hclaim, hexec⟩ := Begins.quiet hb hw
      rw [countSites_append, countSites_append, hmax, hclaim, hexec]
      exact h
    | resume hi hm =>
      rename_i i answer q q'
      have hq : q ≠ .members := by
        rintro rfl
        exact hw hi
      obtain ⟨hmax, hclaim, hboth⟩ := hm.narrows hq
      have hcl : countSites Site.claiming (p.sites.set i q') + weight Site.claiming (some q) =
          countSites Site.claiming p.sites + weight Site.claiming q' := countSites_set hi
      have hex : countSites Site.executing (p.sites.set i q') + weight Site.executing (some q) =
          countSites Site.executing p.sites + weight Site.executing q' := countSites_set hi
      rw [hmax]
      refine h.imp (fun hnone => by omega) fun hfits => lt_of_le_of_lt ?_ hfits
      have hle : countSites Site.executing (p.sites.set i q') +
          countSites Site.claiming (p.sites.set i q') ≤
          countSites Site.executing p.sites + countSites Site.claiming p.sites := by omega
      exact_mod_cast hle

theorem below_of_careful {run : List (Pool.Action Method Answer)} :
    ∀ {p : Process}, p.Obedient Moves → Fits p → Guarded (step portion) (Careful portion) p run →
      Guarded (step portion) Below p run := by
  induction run with
  | nil => exact fun _ _ _ => trivial
  | cons a run ih =>
    intro p hob hfits hg p' hs
    obtain ⟨hc, hrest⟩ := hg p' hs
    exact ⟨hfits.below, ih (step_moves hob hs).1 (hfits.step hob hs hc) hrest⟩

theorem exists_claim (h : p.claiming ≠ 0) : ∃ i : Nat, p.sites[i]? = some (some Site.claim) := by
  obtain ⟨q, hmem, hq⟩ := countP_pos_iff.mp (Nat.pos_of_ne_zero h)
  obtain ⟨i, hi⟩ := getElem?_of_mem hmem
  refine ⟨i, ?_⟩
  cases q with
  | none => cases hq
  | some q => cases q <;> first | exact hi | simp [Site.claiming] at hq

theorem step_claims {i : Nat} (hi : p.sites[i]? = some (some .claim)) (hob : p.Obedient Moves) :
    ∃ p', step portion p (.resume i (claims "t")) = some p' ∧ p'.Obedient Moves ∧
      p'.state.maxConcurrency = p.state.maxConcurrency ∧ p'.executing = p.executing + 1 ∧
      p'.claiming + 1 = p.claiming := by
  obtain ⟨p', hs⟩ : ∃ p', step portion p (.resume i (claims "t")) = some p' :=
    Pool.exists_step_of_site hi (claims "t")
  refine ⟨p', hs, ?_⟩
  obtain ⟨hob', hmove⟩ := step_moves hob hs
  refine ⟨hob', ?_⟩
  simp only [Process.claiming, Process.executing]
  generalize p'.state = n', p'.sites = sites' at hmove ⊢
  cases hmove with
  | resume hi' hm =>
    rename_i q q'
    obtain rfl : Site.claim = q := by simpa [hi] using hi'
    have hclaimed : Claimed (claims "t" .claim) "t" := ⟨rfl, by decide⟩
    obtain ⟨hmax, hexec, hclaim⟩ := hm.of_claimed hclaimed
    have hcl : countSites Site.claiming (p.sites.set i q') + weight Site.claiming (some .claim) =
        countSites Site.claiming p.sites + weight Site.claiming q' := countSites_set hi
    have hex : countSites Site.executing (p.sites.set i q') + weight Site.executing (some .claim) =
        countSites Site.executing p.sites + weight Site.executing q' := countSites_set hi
    have hone : weight Site.claiming (some .claim) = 1 := rfl
    have hzero : weight Site.executing (some .claim) = 0 := rfl
    exact ⟨hmax, by omega, by omega⟩

theorem not_below_of_not_fits (hob : p.Obedient Moves) (h : ¬ Fits p) :
    ∃ replies : List (Pool.Action Method Answer), (∀ a ∈ replies, ∃ i, a = .resume i (claims "t")) ∧
      ¬ Guarded (step portion) Below p replies := by
  -- one more is executing with each of them that comes back
  induction hk : p.claiming generalizing p with
  | zero => exact absurd (.inl hk) h
  | succ k ih =>
    obtain ⟨hsome, hsum⟩ := not_or.mp h
    obtain ⟨i, hi⟩ := exists_claim hsome
    obtain ⟨p', hs, hob', hmax, hexec, hclaim⟩ := step_claims hi hob
    by_cases hfull : p.state.maxConcurrency ≤ p.executing
    · refine ⟨[.resume i (claims "t")], fun a ha => ⟨i, mem_singleton.mp ha⟩, ?_⟩
      intro hg
      have hbelow := (hg p' hs).1 hi "t" ⟨rfl, by decide⟩
      exact absurd hfull (not_le.mpr hbelow)
    · have hcast : (p.claiming : Rat) = p'.claiming + 1 := by exact_mod_cast hclaim.symm
      have hexecast : (p'.executing : Rat) = p.executing + 1 := by exact_mod_cast hexec
      have hnot : ¬ Fits p' := by
        rintro (hnone | hfits)
        · rw [hnone] at hcast
          have hlt := not_le.mp hfull
          refine hsum ?_
          rw [hcast]
          push_cast
          linarith
        · refine hsum ?_
          rw [hmax] at hfits
          linarith
      obtain ⟨replies, hreplies, hviol⟩ := ih hob' hnot (by omega)
      refine ⟨.resume i (claims "t") :: replies, ?_, fun hg => hviol (hg p' hs).2⟩
      intro a ha
      obtain rfl | ha := mem_cons.mp ha
      · exact ⟨i, rfl⟩
      · exact hreplies a ha

/-- **An execution starts below the limit as long as the claims on their way fit under it too.** -/
theorem starts_below_limit (portion : Rat → Nat → Rat) (maxConcurrency : Rat)
    (run : List (Pool.Action Method Answer)) :
    (Guarded (step portion) (Careful portion) (init maxConcurrency) run →
      Guarded (step portion) Below (init maxConcurrency) run) ∧
    ∀ p, exec (step portion) (init maxConcurrency) run = some p → ¬ Fits p →
      ∃ replies : List (Pool.Action Method Answer),
        (∀ a ∈ replies, ∃ i, a = .resume i (claims "t")) ∧
        ¬ Guarded (step portion) Below p replies := by
  constructor
  · exact below_of_careful obedient_init (.inl rfl)
  · intro p hrun
    have hinit : Accounts 0 (init maxConcurrency) := ⟨obedient_init, rfl⟩
    have haccounts := exec_tally Accounts Accounts.step hinit hrun
    exact not_below_of_not_fits haccounts.1

def orderlyRun : List (Pool.Action Method Answer) :=
  [.start (.setActive true), .start .tick, .resume 1 settled, .start .tick, .resume 1 settled]

theorem starts_below_limit_orderlyRun : Guarded (step share) (Careful share) (init 1) orderlyRun ∧
    Guarded (step share) Below (init 1) orderlyRun := by
  have hcareful : Guarded (step share) (Careful share) (init 1) orderlyRun := by decide +kernel
  exact ⟨hcareful, (starts_below_limit share 1 orderlyRun).1 hcareful⟩

def overlappingRun : List (Pool.Action Method Answer) :=
  [.start (.setActive true), .start .tick, .start .tick, .resume 1 settled]

def rebalancedRun : List (Pool.Action Method Answer) :=
  [.start (.setActive true), .start .tick, .resume 1 settled, .start .tick, .start .rebalance,
    .resume 3 settled]

theorem starts_at_limit : (exec (step share) (init 1) overlappingRun).map
      (fun p => (p.executing, p.state.maxConcurrency)) = some (1, 1) ∧
    (exec (step share) (init 1) (overlappingRun ++ [.resume 2 settled])).map Process.executing =
      some 2 ∧
    (exec (step share) (init 2) rebalancedRun).map
      (fun p => (p.executing, p.state.maxConcurrency)) = some (1, 1) ∧
    (exec (step share) (init 2) (rebalancedRun ++ [.resume 2 settled])).map Process.executing =
      some 2 := by
  refine ⟨?_, ?_, ?_, ?_⟩ <;> decide +kernel

end Limit

end Bridge.Distributed.Capacity
