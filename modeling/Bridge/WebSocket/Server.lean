import Mathlib.Data.Finset.Card
import Bridge.Lib.OrderedMap
import Bridge.Lib.Sites

/-!
# The WebSocket bridge

The bridge keeps four maps and a few counters for the sockets of a Socket.IO server. Its handlers
run to their next `await` without interruption, and three things are awaited on the way of a
`task:execute`: a token of the client's rate limiter, the orchestrator, and the learning module. In
between any other event may be handled; the socket itself may be gone when the handler goes on.
-/

namespace Bridge.WebSocket

open Lib Coroutine

structure ClientInfo where
  userId : String
  persona : String
  tasksExecuted : Nat := 0

/-- A limiter; how many tokens it has left is not up to the bridge. -/
structure RateLimiter where
  tokensPerInterval : Nat := 100

structure Metrics where
  totalConnections : Nat := 0
  activeConnections : Int := 0
  totalTasks : Nat := 0
  completedTasks : Nat := 0
  failedTasks : Nat := 0
  avgResponseTime : Rat := 0

/-- The `task` of a request; an id or a type that is falsy is none. -/
structure RequestedTask (T : Type) where
  id : Option T := none
  type : Option String := none

structure TaskExecutionRequest (T : Type) where
  task : Option (RequestedTask T) := none
  preferredCLI : Option String := none

inductive Emission (T : Type)
  | connected
  | error (code message : String)
  | taskAccepted (taskId : T)
  | taskComplete (taskId : T) (success : Bool) (executionTime : Rat)
  | taskError (taskId : Option T) (message : String)

structure State (S T : Type) where
  connectedClients : OrderedMap S ClientInfo
  taskSubscriptions : OrderedMap T (Finset S)
  rateLimiters : OrderedMap S RateLimiter
  metrics : Metrics
  sent : List (S × Emission T)

structure World (S T : Type) where
  connected : Finset S
  seen : Finset S
  bridge : State S T

/-- What a handler awaits. A request waits for its token with the id it is to have if it brings
none. -/
inductive Site (S T : Type)
  | tryRemoveTokens (socket : S) (request : Option (TaskExecutionRequest T)) (uuid : T)
  | processMessage (socket : S) (request : TaskExecutionRequest T) (taskId : T)
  | recordFeedback (socket : S) (request : TaskExecutionRequest T) (taskId : T)

structure TaskResult where
  success : Bool
  executionTime : Rat

/-- What is awaited settles, or rejects with an `Error` of this message. -/
abbrev Answer {S T : Type} : Site S T → Type
  | .tryRemoveTokens .. => Bool
  | .processMessage .. => Except String TaskResult
  | .recordFeedback .. => Except String Unit

namespace State

variable {S T : Type} [DecidableEq S] [DecidableEq T]

def init : State S T := ⟨.empty, .empty, .empty, {}, []⟩

variable (b : State S T) (socket : S)

def emit (e : Emission T) : State S T :=
  { b with sent := b.sent ++ [(socket, e)] }

def handleConnection (userId persona : Option String) : State S T :=
  let b := { b with metrics := { b.metrics with
    totalConnections := b.metrics.totalConnections + 1
    activeConnections := b.metrics.activeConnections + 1 } }
  let clientInfo : ClientInfo :=
    { userId := userId.getD "anonymous", persona := persona.getD "individual" }
  let b := { b with connectedClients := b.connectedClients.set socket clientInfo }
  let b := { b with rateLimiters := b.rateLimiters.set socket {} }
  b.emit socket .connected

def subscribeToTask (taskId : T) : State S T :=
  let subscriptions :=
    if taskId ∈ b.taskSubscriptions.keys then b.taskSubscriptions
    else b.taskSubscriptions.set taskId ∅
  let subscribers := (subscriptions.get taskId).getD ∅
  { b with taskSubscriptions := subscriptions.set taskId (insert socket subscribers) }

/-- A subscriber is taken out of a set, and a set without subscribers out of the map. -/
def dropSubscriber (subscriptions : OrderedMap T (Finset S)) (socket : S) (taskId : T) :
    OrderedMap T (Finset S) :=
  match subscriptions.get taskId with
  | none => subscriptions
  | some subscribers =>
    let subscribers := subscribers.erase socket
    if subscribers.card = 0 then subscriptions.delete taskId
    else subscriptions.set taskId subscribers

def unsubscribeFromTask (taskId : T) : State S T :=
  { b with taskSubscriptions := dropSubscriber b.taskSubscriptions socket taskId }

/-- One turn of the `forEach` over the subscriptions. -/
def leaveTask (subscriptions : OrderedMap T (Finset S)) (taskId : T) : OrderedMap T (Finset S) :=
  if socket ∈ (subscriptions.get taskId).getD ∅ then dropSubscriber subscriptions socket taskId
  else subscriptions

/-- The `forEach` deletes no entry but the one it is at, so it comes by every entry there was. -/
def handleDisconnect : State S T :=
  let b := { b with metrics := { b.metrics with
    activeConnections := b.metrics.activeConnections - 1 } }
  let b := { b with connectedClients := b.connectedClients.delete socket }
  let b := { b with rateLimiters := b.rateLimiters.delete socket }
  { b with
    taskSubscriptions := b.taskSubscriptions.keys.foldl (leaveTask socket) b.taskSubscriptions }

def updateAverageResponseTime (m : Metrics) (newTime : Rat) : Metrics :=
  let totalTasks := m.completedTasks + m.failedTasks
  if totalTasks = 0 then { m with avgResponseTime := newTime }
  else { m with avgResponseTime := (m.avgResponseTime * (totalTasks - 1) + newTime) / totalTasks }

def accept (clientInfo : ClientInfo) (taskId : T) : State S T :=
  let b := b.subscribeToTask socket taskId
  let b := { b with metrics := { b.metrics with totalTasks := b.metrics.totalTasks + 1 } }
  let clientInfo := { clientInfo with tasksExecuted := clientInfo.tasksExecuted + 1 }
  let b := { b with connectedClients := b.connectedClients.set socket clientInfo }
  b.emit socket (.taskAccepted taskId)

def finish (taskId : T) (result : TaskResult) : State S T :=
  let m := updateAverageResponseTime b.metrics result.executionTime
  let m :=
    if result.success then { m with completedTasks := m.completedTasks + 1 }
    else { m with failedTasks := m.failedTasks + 1 }
  { b with metrics := m }.emit socket (.taskComplete taskId result.success result.executionTime)

/-- The first line of the `catch` block. -/
def countFailure : State S T :=
  { b with metrics := { b.metrics with failedTasks := b.metrics.failedTasks + 1 } }

theorem updateAverageResponseTime_eq (m : Metrics) (newTime : Rat) :
    ∃ avg, updateAverageResponseTime m newTime = { m with avgResponseTime := avg } := by
  unfold updateAverageResponseTime
  dsimp only
  split
  · exact ⟨_, rfl⟩
  · exact ⟨_, rfl⟩

omit [DecidableEq S] [DecidableEq T] in
theorem metrics_finish (taskId : T) (result : TaskResult) :
    ∃ avg, (b.finish socket taskId result).metrics = { b.metrics with
      completedTasks := b.metrics.completedTasks + if result.success then 1 else 0
      failedTasks := b.metrics.failedTasks + if result.success then 0 else 1
      avgResponseTime := avg } := by
  obtain ⟨avg, havg⟩ := updateAverageResponseTime_eq b.metrics result.executionTime
  refine ⟨avg, ?_⟩
  cases hs : result.success <;> simp only [finish, emit, havg, hs, if_true, if_false,
    Bool.false_eq_true, Nat.add_zero]

end State

/-! ## The handlers -/

section Handlers

variable {S T : Type} [DecidableEq S] [DecidableEq T]

abbrev Op (S T : Type) := Coroutine (World S T) (Q := Site S T) Answer String

def update (f : State S T → State S T) : Op S T Unit :=
  Coroutine.modify fun w => { w with bridge := f w.bridge }

/-- What was awaited has settled, or rejected with an `Error`. -/
def settle {α : Type} (x : Except String α) : Op S T α := done x

def invalidRequest : String := "Invalid task request"

/-- `request.task` of no request. -/
def noRequest : String := "Cannot read properties of undefined (reading 'task')"

/-- What is thrown is no `Error`. -/
def unknownError : String := "Unknown error"

/-- The task of a request that is accepted; otherwise what is thrown. -/
def validRequest (request : Option (TaskExecutionRequest T)) (uuid : T) :
    Except String (TaskExecutionRequest T × T) :=
  match request with
  | none => .error noRequest
  | some request =>
    match request.task with
    | none => .error invalidRequest
    | some task =>
      match task.type with
      | none => .error invalidRequest
      | some _ => .ok (request, task.id.getD uuid)

section Execute

variable (socket : S) (request : Option (TaskExecutionRequest T)) (uuid : T)

/-- The `try` block of `handleTaskExecute`. -/
def attempt (clientInfo : ClientInfo) : Op S T Unit := do
  let (request, taskId) ← settle (validRequest request uuid)
  update fun b => b.accept socket clientInfo taskId
  let result ← settle (← awaits (.processMessage socket request taskId) unknownError)
  update fun b => b.finish socket taskId result
  settle (← awaits (.recordFeedback socket request taskId) unknownError)

/-- Its `catch` block, which reads `request.task` once more. -/
def recover (message : String) : Op S T Unit := do
  update State.countFailure
  match request with
  | none => Coroutine.throw noRequest
  | some request =>
    update fun b => b.emit socket (.taskError (request.task.bind RequestedTask.id) message)

def handleTaskExecute : Op S T Unit := do
  let w ← read
  match w.bridge.connectedClients.get socket with
  | none => update fun b => b.emit socket (.error "CLIENT_NOT_FOUND" "Client not registered")
  | some clientInfo =>
    (attempt socket request uuid clientInfo).tryCatch (recover socket request)

/-- The handler of `task:execute`, as `createRateLimitedHandler` wraps it. -/
def createRateLimitedHandler : Op S T Unit := do
  let w ← read
  match w.bridge.rateLimiters.get socket with
  | none => handleTaskExecute socket request uuid
  | some _ =>
    let remainingTokens ← awaits (.tryRemoveTokens socket request uuid) unknownError
    if remainingTokens then handleTaskExecute socket request uuid
    else
      update fun b =>
        b.emit socket (.error "RATE_LIMIT_EXCEEDED" "Too many requests. Please slow down.")

end Execute

inductive Event (S T : Type)
  | connect (socket : S) (userId persona : Option String)
  | execute (socket : S) (request : Option (TaskExecutionRequest T)) (uuid : T)
  | subscribe (socket : S) (taskId : T)
  | unsubscribe (socket : S) (taskId : T)
  | disconnect (socket : S)

/-- The server passes an event of a connected socket on to the bridge, and no other; a new socket
has an id that none had before. -/
def deliver : Event S T → Op S T Unit
  | .connect socket userId persona => do
    let w ← read
    if socket ∈ w.seen then pure ()
    else
      Coroutine.modify fun w =>
        ⟨insert socket w.connected, insert socket w.seen,
          w.bridge.handleConnection socket userId persona⟩
  | .execute socket request uuid => do
    let w ← read
    if socket ∈ w.connected then createRateLimitedHandler socket request uuid else pure ()
  | .subscribe socket taskId => do
    let w ← read
    if socket ∈ w.connected then update fun b => b.subscribeToTask socket taskId else pure ()
  | .unsubscribe socket taskId => do
    let w ← read
    if socket ∈ w.connected then update fun b => b.unsubscribeFromTask socket taskId else pure ()
  | .disconnect socket => do
    let w ← read
    if socket ∈ w.connected then
      Coroutine.modify fun w =>
        ⟨w.connected.erase socket, w.seen, w.bridge.handleDisconnect socket⟩
    else pure ()

abbrev Server (S T : Type) := Pool (World S T) (Q := Site S T) Answer String Unit

abbrev Action (S T : Type) := Pool.Action (Event S T) (Q := Site S T) Answer

def step : Server S T → Action S T → Option (Server S T) := Pool.step deliver

def init : Server S T := ⟨⟨∅, ∅, .init⟩, []⟩

end Handlers

section Moves

variable {S T : Type} [DecidableEq S] [DecidableEq T]

def World.update (w : World S T) (f : State S T → State S T) : World S T :=
  { w with bridge := f w.bridge }

/-- The beginning of `handleTaskExecute`, up to its first `await`. -/
inductive Handled (socket : S) (request : Option (TaskExecutionRequest T)) (uuid : T)
    (w : World S T) : World S T → Option (Site S T) → Prop
  | unknown (h : w.bridge.connectedClients.get socket = none) {e : Emission T} :
      Handled socket request uuid w (w.update fun b => b.emit socket e) none
  | malformed {clientInfo : ClientInfo} (h : w.bridge.connectedClients.get socket = some clientInfo)
      {message : String} (hbad : validRequest request uuid = .error message)
      {sent : List (S × Emission T)} :
      Handled socket request uuid w (w.update fun b => { b.countFailure with sent := sent }) none
  | accepted {clientInfo : ClientInfo} (h : w.bridge.connectedClients.get socket = some clientInfo)
      {valid : TaskExecutionRequest T} {taskId : T} (hok : validRequest request uuid =
        .ok (valid, taskId)) :
      Handled socket request uuid w (w.update fun b => b.accept socket clientInfo taskId)
        (some (.processMessage socket valid taskId))

inductive Moves : (q : Site S T) → Option (Answer q) → World S T → World S T → Option (Site S T) →
    Prop
  | admitted {socket : S} {request : Option (TaskExecutionRequest T)} {uuid : T} {w w' : World S T}
      {q' : Option (Site S T)} (h : Handled socket request uuid w w' q') :
      Moves (.tryRemoveTokens socket request uuid) (some true) w w' q'
  | refused {socket : S} {request : Option (TaskExecutionRequest T)} {uuid : T} {w : World S T}
      {e : Emission T} :
      Moves (.tryRemoveTokens socket request uuid) (some false) w
        (w.update fun b => b.emit socket e) none
  | rejected {socket : S} {request : Option (TaskExecutionRequest T)} {uuid : T} {w : World S T} :
      Moves (.tryRemoveTokens socket request uuid) none w w none
  | finished {socket : S} {request : TaskExecutionRequest T} {taskId : T} {w : World S T}
      {result : TaskResult} :
      Moves (.processMessage socket request taskId) (some (.ok result)) w
        (w.update fun b => b.finish socket taskId result)
        (some (.recordFeedback socket request taskId))
  | failed {socket : S} {request : TaskExecutionRequest T} {taskId : T} {w : World S T}
      {x : Option (Except String TaskResult)} {sent : List (S × Emission T)}
      (h : ∀ result, x ≠ some (.ok result)) :
      Moves (.processMessage socket request taskId) x w
        (w.update fun b => { b.countFailure with sent := sent }) none
  | recorded {socket : S} {request : TaskExecutionRequest T} {taskId : T} {w : World S T} :
      Moves (.recordFeedback socket request taskId) (some (.ok ())) w w none
  | unrecorded {socket : S} {request : TaskExecutionRequest T} {taskId : T} {w : World S T}
      {x : Option (Except String Unit)} {sent : List (S × Emission T)} (h : x ≠ some (.ok ())) :
      Moves (.recordFeedback socket request taskId) x w
        (w.update fun b => { b.countFailure with sent := sent }) none

inductive Begins : Event S T → World S T → World S T → Option (Site S T) → Prop
  | ignored {e : Event S T} {w : World S T} : Begins e w w none
  | connected {socket : S} {userId persona : Option String} {w : World S T} (h : socket ∉ w.seen) :
      Begins (.connect socket userId persona) w ⟨insert socket w.connected, insert socket w.seen,
          w.bridge.handleConnection socket userId persona⟩ none
  | limited {socket : S} {request : Option (TaskExecutionRequest T)} {uuid : T} {w : World S T}
      (h : socket ∈ w.connected) :
      Begins (.execute socket request uuid) w w (some (.tryRemoveTokens socket request uuid))
  | unlimited {socket : S} {request : Option (TaskExecutionRequest T)} {uuid : T} {w w' : World S T}
      {q' : Option (Site S T)} (h : socket ∈ w.connected)
      (hnone : w.bridge.rateLimiters.get socket = none) (hh : Handled socket request uuid w w' q') :
      Begins (.execute socket request uuid) w w' q'
  | subscribed {socket : S} {taskId : T} {w : World S T} (h : socket ∈ w.connected) :
      Begins (.subscribe socket taskId) w (w.update fun b => b.subscribeToTask socket taskId) none
  | unsubscribed {socket : S} {taskId : T} {w : World S T} (h : socket ∈ w.connected) :
      Begins (.unsubscribe socket taskId) w
        (w.update fun b => b.unsubscribeFromTask socket taskId) none
  | disconnected {socket : S} {w : World S T} (h : socket ∈ w.connected) :
      Begins (.disconnect socket) w
        ⟨w.connected.erase socket, w.seen, w.bridge.handleDisconnect socket⟩ none

/-! ## The handlers do no more -/

variable {P : World S T → Option (Site S T) → Prop} {w : World S T} {socket : S}
  {request : Option (TaskExecutionRequest T)} {uuid : T}

/-- How the `try` block ends, before the `catch` block. -/
def Attempted : Except String Unit → (World S T → Option (Site S T) → Prop) → World S T → Prop
  | .ok _, P, w => P w none
  | .error _, P, w => ∀ sent, P (w.update fun b => { b.countFailure with sent := sent }) none

theorem obeys_recover (h : ∀ sent, P (w.update fun b => { b.countFailure with sent := sent }) none)
    (message : String) :
    (recover socket request message).Obeys Moves (fun _ P w => P w none) P w := by
  cases request with
  | none => exact h w.bridge.sent
  | some request => exact h _

theorem obeys_attempt (clientInfo : ClientInfo)
    (hbad : ∀ message, validRequest request uuid = .error message →
      ∀ sent, P (w.update fun b => { b.countFailure with sent := sent }) none)
    (hok : ∀ valid taskId, validRequest request uuid = .ok (valid, taskId) →
      P (w.update fun b => b.accept socket clientInfo taskId)
        (some (.processMessage socket valid taskId))) :
    (attempt socket request uuid clientInfo).Obeys Moves Attempted P w := by
  unfold attempt
  cases hv : validRequest request uuid with
  | error message => exact hbad message hv
  | ok accepted =>
    obtain ⟨valid, taskId⟩ := accepted
    refine ⟨hok valid taskId hv, ?_⟩
    intro x w'
    cases x with
    | none => exact fun sent => Moves.failed (by simp)
    | some answer =>
      cases answer with
      | error message => exact fun sent => Moves.failed (by simp)
      | ok result =>
        refine ⟨Moves.finished, ?_⟩
        intro y w''
        cases y with
        | none => exact fun sent => Moves.unrecorded (by simp)
        | some answer =>
          cases answer with
          | error message => exact fun sent => Moves.unrecorded (by simp)
          | ok u => exact Moves.recorded

theorem obeys_handleTaskExecute (h : ∀ w' q', Handled socket request uuid w w' q' → P w' q') :
    (handleTaskExecute socket request uuid).Obeys Moves (fun _ P w => P w none) P w := by
  apply obeys_read_bind
  cases hc : w.bridge.connectedClients.get socket with
  | none => exact h _ _ (.unknown hc)
  | some clientInfo =>
    refine (obeys_attempt clientInfo ?_ ?_).andThen ?_
    · exact fun message hbad sent => h _ _ (.malformed hc hbad)
    · exact fun valid taskId hok => h _ _ (.accepted hc hok)
    · intro r P w hend
      cases r with
      | ok u => exact hend
      | error message => exact obeys_recover hend message

theorem obeys_createRateLimitedHandler (hwait : P w (some (.tryRemoveTokens socket request uuid)))
    (hdirect : w.bridge.rateLimiters.get socket = none →
      ∀ w' q', Handled socket request uuid w w' q' → P w' q') :
    (createRateLimitedHandler socket request uuid).Obeys Moves (fun _ P w => P w none) P w := by
  apply obeys_read_bind
  cases hl : w.bridge.rateLimiters.get socket with
  | none => exact obeys_handleTaskExecute (hdirect hl)
  | some limiter =>
    refine ⟨hwait, ?_⟩
    intro x w'
    cases x with
    | none => exact Moves.rejected
    | some remainingTokens =>
      cases remainingTokens with
      | false => exact Moves.refused
      | true => exact obeys_handleTaskExecute fun _ _ hh => Moves.admitted hh

theorem obeys_deliver (e : Event S T) (w : World S T) :
    (deliver e).Obeys Moves (fun _ P w => P w none) (Begins e w) w := by
  cases e with
  | connect socket userId persona =>
    apply obeys_read_bind
    split
    · exact Begins.ignored
    · exact Begins.connected ‹_›
  | execute socket request uuid =>
    apply obeys_read_bind
    split_ifs with hconnected
    · exact obeys_createRateLimitedHandler (Begins.limited hconnected)
        fun hnone _ _ hh => Begins.unlimited hconnected hnone hh
    · exact Begins.ignored
  | subscribe socket taskId =>
    apply obeys_read_bind
    split
    · exact Begins.subscribed ‹_›
    · exact Begins.ignored
  | unsubscribe socket taskId =>
    apply obeys_read_bind
    split
    · exact Begins.unsubscribed ‹_›
    · exact Begins.ignored
  | disconnect socket =>
    apply obeys_read_bind
    split
    · exact Begins.disconnected ‹_›
    · exact Begins.ignored

theorem step_moves {p p' : Server S T} {a : Action S T} (h : p.Obedient Moves)
    (hs : step p a = some p') :
    p'.Obedient Moves ∧ Pool.SiteStep Begins Moves p.state p.sites a p'.state p'.sites :=
  h.step obeys_deliver hs

theorem obedient_init : (init : Server S T).Obedient Moves :=
  fun c hc => absurd hc (by simp [init])

end Moves

end Bridge.WebSocket
