import Bridge.Distributed.Data
import Bridge.Lib.Run

/-!
# The cluster

Any number of `DistributedOrchestrator` nodes over one Redis, as one step machine.

Not modelled: log lines, the `task:submitted` and `task:completed` channels (no node subscribes to
them), `getTaskResult` and `getClusterStats` (they write nothing), and the `cluster:rebalance`
handler (it changes `maxConcurrency` only).
-/

namespace Bridge.Distributed

open Lib

/-- Where a thread stands: the Redis command it has sent and waits for. -/
inductive Pc where
  -- `processNextTask`: the claim script
  | claim
  -- `executeTask`: `currentLoad++` and the first `updateNodeStatus`
  | enter (t : TaskId)
  -- `executeTask`: the `GET` of the record
  | load (t : TaskId)
  -- `updateTaskStatus`: its `GET`
  | update (u : Update) (t : TaskId)
  -- `updateTaskStatus`: its `SET`, computed from the record it read
  | store (u : Update) (t : TaskId) (d : TaskData)
  -- `executeTask`: inside `executeWithRetry`
  | process (t : TaskId) (m : Message)
  -- `executeTask`: the `PUBLISH` of the completion
  | publish (t : TaskId) (r : TaskResult)
  -- `requeueTask`: its `GET`
  | requeue (c : Caller) (t : TaskId)
  -- `requeueTask`: its `MULTI`
  | enqueue (c : Caller) (t : TaskId) (d : TaskData)
  -- the `finally` of `executeTask`: `currentLoad--` and `updateNodeStatus`
  | leave (t : TaskId)
  -- the `finally` of `executeTask`: the `DEL` of the claim
  | release (t : TaskId)
  -- `handleNodeFailover`: the `KEYS`
  | keys (failedNode : NodeId)
  -- `handleNodeFailover`: the `GET` of the next claim key
  | scan (failedNode : NodeId) (rest : List String)
  -- `handlePriorityUpdate`: the `ZADD`
  | prioritize (t : TaskId) (p : Option Priority)
  -- the health interval: `updateNodeStatus`
  | beat
  -- the health interval: the `SMEMBERS`
  | members
  -- the health interval: the `GET` of the next node's heartbeat
  | check (rest : List NodeId)
  -- `handleNodeFailure`: its `MULTI`
  | fail (failedNode : NodeId) (rest : List NodeId)
  -- `start`: `registerNode`, `subscribeToChannels`, `updateNodeStatus`
  | register
  | subscribe
  | announce
  -- `shutdown`: the `MULTI` that unregisters, then `quit`
  | unregister
  | quit
  | done
  deriving DecidableEq

/-- `if (!taskId) return`: the empty id is popped and claimed, but never executed. -/
def Pc.claimed (t : TaskId) : Pc := if t = "" then .done else .enter t

def Caller.return (t : TaskId) : Caller → Pc
  | .execute => .leave t
  | .failover x rest => .scan x rest

def Update.return (t : TaskId) : Update → Pc
  | .processing m _ => .process t m
  | .completed r _ => .publish t r
  | .failed e _ => if isRetryableTask e then .requeue .execute t else .leave t
  | .maxRetries c => c.return t

/-- An exception in `requeueTask`: through the `finally` of `executeTask`, or out of the handler. -/
def Caller.throw (t : TaskId) : Caller → Pc
  | .execute => .leave t
  | .failover .. => .done

/-- An exception in `updateTaskStatus`: the first two calls are in the `try` block, the third in
the `catch` block. -/
def Update.throw (e : TaskError) (now : Nat) (t : TaskId) : Update → Pc
  | .processing .. => .update (.failed e now) t
  | .completed .. => .update (.failed e now) t
  | .failed .. => .leave t
  | .maxRetries c => c.throw t

/-- Where an exception at each `await` goes. -/
def Pc.throw (e : TaskError) (now : Nat) : Pc → Pc
  | .load t => .update (.failed e now) t
  | .process t _ => .update (.failed e now) t
  | .publish t _ => .update (.failed e now) t
  | .update u t => u.throw e now t
  | .store u t _ => u.throw e now t
  | .requeue c t => c.throw t
  | .enqueue c t _ => c.throw t
  | _ => .done

/-! ## Nodes and the cluster -/

inductive ClusterMsg where
  | failover (failedNode : NodeId)
  | priorityUpdate (t : TaskId) (p : Option Priority)
  deriving DecidableEq, Repr

/-- The part of a node that is not in Redis. `isActive` also stands for the two intervals, which
`start` and `shutdown` switch together with it. -/
structure Node where
  up : Bool
  subscribed : Bool
  isActive : Bool
  currentLoad : Int
  maxConcurrency : Nat
  tasksProcessed : Nat
  inbox : List ClusterMsg
  deriving DecidableEq, Repr

def Node.down : Node where
  up := false
  subscribed := false
  isActive := false
  currentLoad := 0
  maxConcurrency := 0
  tasksProcessed := 0
  inbox := []

/-- The text of `updateNodeStatus`. -/
def Node.text (nd : Node) : Text := .nodeData nd.currentLoad nd.maxConcurrency

inductive Event where
  | submitted (t : TaskId)
  | claimed (i : Nat) (t : TaskId)
  | executed (i : Nat) (t : TaskId)
  | recorded (t : TaskId) (st : Status)
  deriving DecidableEq, Repr

structure Proc where
  node : NodeId
  pc : Pc
  deriving DecidableEq

/-- A thread is its index in `procs`; a finished thread stays there as `done`. -/
structure Cluster where
  redis : Keyspace Text
  nodes : NodeId → Node
  procs : List Proc
  history : List Event

def Cluster.init : Cluster where
  redis := ∅
  nodes := fun _ => .down
  procs := []
  history := []

/-! ## One step of a thread -/

structure Input where
  now : Nat
  outcome : Except TaskError TaskResult
  order : List String

structure Next where
  redis : Keyspace Text
  node : Node
  pc : Pc
  sent : List ClusterMsg
  events : List Event

/-- The `GET` of a record, and its `JSON.parse`. -/
inductive Read where
  | absent
  | unreadable
  | found (d : TaskData)

def readTask (ks : Keyspace Text) (t : TaskId) : Read :=
  match ks.get (taskKey t) with
  | .nil => .absent
  | .wrongType => .unreadable
  | .bulk text =>
    match text.parse with
    | none => .unreadable
    | some d => .found d

/-- The call of `executeWithRetry` that the return of `updateTaskStatus` leads to. -/
def Update.events (i : Nat) (t : TaskId) : Update → List Event
  | .processing .. => [.executed i t]
  | _ => []

/-- One step of thread `i` of node `n`. -/
def Pc.exec (i : Nat) (n : NodeId) (nd : Node) (ks : Keyspace Text) (inp : Input) : Pc → Option Next
  | .claim =>
    match ks.zpopmax queueKey with
    | none => some ⟨ks, nd, .done, [], []⟩
    | some (t, ks') => some ⟨ks'.set (claimKey t) (.nodeId n), nd, .claimed t, [], [.claimed i t]⟩
  | .enter t =>
    let nd' := { nd with currentLoad := nd.currentLoad + 1 }
    some ⟨ks.set (nodeKey n) nd'.text, nd', .load t, [], []⟩
  | .load t =>
    match readTask ks t with
    | .absent => some ⟨ks, nd, .update (.failed (.notFound t) inp.now) t, [], []⟩
    | .unreadable => some ⟨ks, nd, .update (.failed .unreadable inp.now) t, [], []⟩
    | .found d => some ⟨ks, nd, .update (.processing d.message inp.now) t, [], []⟩
  | .update u t =>
    match readTask ks t with
    | .absent => some ⟨ks, nd, u.return t, [], u.events i t⟩
    | .unreadable => some ⟨ks, nd, u.throw .unreadable inp.now t, [], []⟩
    | .found d => some ⟨ks, nd, .store u t d, [], []⟩
  | .store u t d =>
    some ⟨ks.set (taskKey t) (.taskData (u.apply n inp.now d)), nd, u.return t, [],
      u.events i t ++ [.recorded t u.status]⟩
  | .process t _ =>
    match inp.outcome with
    | .ok r => some ⟨ks, nd, .update (.completed r inp.now) t, [], []⟩
    | .error e => some ⟨ks, nd, .update (.failed e inp.now) t, [], []⟩
  | .publish t _ =>
    some ⟨ks, { nd with tasksProcessed := nd.tasksProcessed + 1 }, .leave t, [], []⟩
  | .requeue c t =>
    match readTask ks t with
    | .absent => some ⟨ks, nd, c.return t, [], []⟩
    | .unreadable => some ⟨ks, nd, c.throw t, [], []⟩
    | .found d =>
      if d.retries + 1 > 3 then some ⟨ks, nd, .update (.maxRetries c) t, [], []⟩
      else some ⟨ks, nd, .enqueue c t d, [], []⟩
  | .enqueue c t d =>
    some ⟨(ks.set (taskKey t) (.taskData d.requeued)).zadd queueKey
        (getPriorityScore (some d.priority) inp.now) t, nd, c.return t, [], [.recorded t .queued]⟩
  | .leave t =>
    let nd' := { nd with currentLoad := nd.currentLoad - 1 }
    some ⟨ks.set (nodeKey n) nd'.text, nd', .release t, [], []⟩
  | .release t => some ⟨ks.del (claimKey t), nd, .done, [], []⟩
  | .keys x =>
    -- the server lists the keys in an order of its own
    if inp.order.Perm (ks.keysWith "task:claim:") then some ⟨ks, nd, .scan x inp.order, [], []⟩
    else none
  | .scan _ [] => some ⟨ks, nd, .done, [], []⟩
  | .scan x (k :: rest) =>
    match ks.get k with
    | .nil => some ⟨ks, nd, .scan x rest, [], []⟩
    | .wrongType => some ⟨ks, nd, .done, [], []⟩
    | .bulk text =>
      if text = .nodeId x then
        some ⟨ks, nd, .requeue (.failover x rest) (claimedTask k), [], []⟩
      else some ⟨ks, nd, .scan x rest, [], []⟩
  | .prioritize t p =>
    some ⟨ks.zadd queueKey (getPriorityScore p inp.now) t, nd, .done, [], []⟩
  | .beat => some ⟨ks.set (nodeKey n) nd.text, nd, .members, [], []⟩
  | .members =>
    if inp.order.Perm (ks.smembers activeKey) then some ⟨ks, nd, .check inp.order, [], []⟩
    else none
  | .check [] => some ⟨ks, nd, .done, [], []⟩
  | .check (x :: xs) =>
    if x = n then some ⟨ks, nd, .check xs, [], []⟩
    else
      match ks.get (nodeKey x) with
      | .nil => some ⟨ks, nd, .fail x xs, [], []⟩
      | .wrongType => some ⟨ks, nd, .done, [], []⟩
      | .bulk _ => some ⟨ks, nd, .check xs, [], []⟩
  | .fail x xs => some ⟨ks.srem activeKey x, nd, .check xs, [.failover x], []⟩
  | .register => some ⟨(ks.set (nodeKey n) nd.text).sadd activeKey n, nd, .subscribe, [], []⟩
  | .subscribe => some ⟨ks, { nd with subscribed := true, isActive := true }, .announce, [], []⟩
  | .announce => some ⟨ks.set (nodeKey n) nd.text, nd, .done, [], []⟩
  | .unregister => some ⟨(ks.del (nodeKey n)).srem activeKey n, nd, .quit, [], []⟩
  | .quit => some ⟨ks, .down, .done, [], []⟩
  | .done => none

/-- What `executeTask` does to the node before the command it then awaits, and so also when that
command rejects. -/
def Pc.reject (nd : Node) : Pc → Node
  | .enter _ => { nd with currentLoad := nd.currentLoad + 1 }
  | .leave _ => { nd with currentLoad := nd.currentLoad - 1 }
  | _ => nd

/-! ## One step of the cluster -/

inductive Action where
  -- a node's `submitTask`
  | submit (n : NodeId) (m : Message) (now : Nat)
  -- the processing interval of a node fires
  | tick (n : NodeId)
  -- the health interval of a node fires
  | heartbeat (n : NodeId)
  -- a client outside the cluster publishes a `task:priority_update`
  | publishPriority (t : TaskId) (p : Option Priority)
  -- `handleRedisMessage` takes a node's next message
  | receive (n : NodeId)
  -- a thread's command is executed
  | step (i : Nat) (inp : Input)
  -- a thread's command rejects
  | reject (i : Nat) (now : Nat) (e : TaskError)
  -- the server removes a heartbeat key
  | expireHeartbeat (n : NodeId)
  | crash (n : NodeId)
  | start (n : NodeId) (maxConcurrency : Nat)
  | shutdown (n : NodeId)

namespace Cluster

def setNode (s : Cluster) (n : NodeId) (nd : Node) : Cluster :=
  { s with nodes := Function.update s.nodes n nd }

def spawn (s : Cluster) (n : NodeId) (pc : Pc) : Cluster :=
  { s with procs := s.procs ++ [⟨n, pc⟩] }

def broadcast (s : Cluster) (msgs : List ClusterMsg) : Cluster :=
  { s with nodes := fun n =>
      if (s.nodes n).subscribed then { s.nodes n with inbox := (s.nodes n).inbox ++ msgs }
      else s.nodes n }

def killProcs (n : NodeId) (ps : List Proc) : List Proc :=
  ps.map fun p => if p.node = n then { p with pc := .done } else p

def advance (s : Cluster) (i : Nat) (n : NodeId) (nx : Next) : Cluster :=
  let procs := s.procs.set i ⟨n, nx.pc⟩
  { s.setNode n nx.node with
      redis := nx.redis
      procs := if nx.node.up then procs else killProcs n procs
      history := nx.events ++ s.history }

/-- `submitTask` stores the record and puts the id into the queue. -/
def submitTask (s : Cluster) (n : NodeId) (m : Message) (now : Nat) : Cluster :=
  let d := m.taskData n now
  { s with
    redis := (s.redis.set (taskKey m.id) (.taskData d)).zadd queueKey
      (getPriorityScore (some d.priority) now) m.id
    history := .submitted m.id :: .recorded m.id .queued :: s.history }

def step (s : Cluster) : Action → Option Cluster
  | .submit n m now => if (s.nodes n).up then some (s.submitTask n m now) else none
  | .tick n =>
    if (s.nodes n).up ∧ (s.nodes n).isActive ∧
        (s.nodes n).currentLoad < (s.nodes n).maxConcurrency then
      some (s.spawn n .claim)
    else none
  | .heartbeat n =>
    if (s.nodes n).up ∧ (s.nodes n).isActive then some (s.spawn n .beat) else none
  | .publishPriority t p => some (s.broadcast [.priorityUpdate t p])
  | .receive n =>
    match (s.nodes n).inbox with
    | [] => none
    | msg :: rest =>
      let s' := s.setNode n { s.nodes n with inbox := rest }
      match msg with
      | .failover x => if x = n then some s' else some (s'.spawn n (.keys x))
      | .priorityUpdate t p => some (s'.spawn n (.prioritize t p))
  | .step i inp =>
    match s.procs[i]? with
    | none => none
    | some p =>
      if (s.nodes p.node).up then
        (p.pc.exec i p.node (s.nodes p.node) s.redis inp).map fun nx =>
          (s.advance i p.node nx).broadcast nx.sent
      else none
  | .reject i now e =>
    match s.procs[i]? with
    | none => none
    | some p =>
      if (s.nodes p.node).up ∧ p.pc ≠ .done then
        some (s.advance i p.node ⟨s.redis, p.pc.reject (s.nodes p.node), p.pc.throw e now, [], []⟩)
      else none
  | .expireHeartbeat n => some { s with redis := s.redis.del (nodeKey n) }
  | .crash n =>
    if (s.nodes n).up then
      some { s.setNode n .down with procs := killProcs n s.procs }
    else none
  | .start n maxConcurrency =>
    if (s.nodes n).up then none
    else
      some ((s.setNode n { Node.down with
        up := true
        maxConcurrency := if maxConcurrency = 0 then 5 else maxConcurrency }).spawn n .register)
  | .shutdown n =>
    if (s.nodes n).up then
      some ((s.setNode n { s.nodes n with isActive := false }).spawn n .unregister)
    else none

end Cluster

end Bridge.Distributed
