import Bridge.Lib.Keyspace

/-!
# What the distributed orchestrator keeps in Redis

The keys, the texts under them and the pure functions of
`src/distributed/distributed-orchestrator.ts` that compute what is written.
-/

namespace Bridge.Distributed

open Lib Keyspace

/-- Well-formed text: a client sends UTF-8, in which distinct ids with lone surrogates are one. -/
abbrev TaskId := String
abbrev NodeId := String

/-! ## Keys -/

def taskKey (t : TaskId) : String := "task:" ++ t
def claimKey (t : TaskId) : String := "task:claim:" ++ t
def nodeKey (n : NodeId) : String := "node:" ++ n
def queueKey : String := "task:queue"
def activeKey : String := "nodes:active"

variable {t u : TaskId}

theorem taskKey_inj : taskKey t = taskKey u ↔ t = u := by
  simp [taskKey]

theorem claimKey_inj : claimKey t = claimKey u ↔ t = u := by
  simp [claimKey]

theorem taskKey_eq_claimKey : taskKey t = claimKey u ↔ t = "claim:" ++ u := by
  have h : claimKey u = "task:" ++ ("claim:" ++ u) := by
    rw [claimKey, ← String.append_assoc]; rfl
  rw [taskKey, h]
  simp

theorem taskKey_eq_queueKey : taskKey t = queueKey ↔ t = "queue" := by
  have h : queueKey = taskKey "queue" := rfl
  rw [h, taskKey_inj]

theorem claimKey_ne_queueKey : claimKey t ≠ queueKey :=
  ne_of_apply_ne String.toList (by simp [claimKey, queueKey])

variable {n : NodeId}

theorem taskKey_ne_nodeKey : taskKey t ≠ nodeKey n :=
  ne_of_apply_ne String.toList (by simp [taskKey, nodeKey])

theorem claimKey_ne_nodeKey : claimKey t ≠ nodeKey n :=
  ne_of_apply_ne String.toList (by simp [claimKey, nodeKey])

theorem queueKey_ne_nodeKey : queueKey ≠ nodeKey n :=
  ne_of_apply_ne String.toList (by simp [queueKey, nodeKey])

theorem queueKey_ne_activeKey : queueKey ≠ activeKey := by decide

theorem taskKey_ne_activeKey : taskKey t ≠ activeKey :=
  ne_of_apply_ne String.toList (by simp [taskKey, activeKey])

theorem claimKey_ne_activeKey : claimKey t ≠ activeKey :=
  ne_of_apply_ne String.toList (by simp [claimKey, activeKey])

theorem nodeKey_ne_activeKey : nodeKey n ≠ activeKey :=
  ne_of_apply_ne String.toList (by simp [nodeKey, activeKey])

/-- `claimKey.split(':')[2]`: the id `handleNodeFailover` reads back from a claim key. -/
def claimedTask (key : String) : TaskId :=
  String.ofList (((key.toList.splitOn ':')[2]?).getD [])

/-! ## Messages and task records -/

/-- The priorities of `PrioritySchema`. -/
inductive Priority where
  | high
  | medium
  | low
  deriving DecidableEq, Repr

/-- What the orchestrator reads of a `Message`: `task.id`, `task.type` and `metadata.priority`. -/
structure Message where
  id : TaskId
  type : String
  priority : Option Priority
  deriving DecidableEq, Repr

inductive Status where
  | queued
  | processing
  | completed
  | failed
  deriving DecidableEq, Repr

/-- The value `processMessage` resolves to. -/
structure TaskResult where
  success : Bool
  deriving DecidableEq, Repr

/-- A rejection as `executeTask` looks at it: `error?.code`, and `error.message` when the value is
an `Error`. -/
structure TaskError where
  code : Option String
  message : Option String
  deriving DecidableEq, Repr

/-- The JSON record under `task:<taskId>`: the message, the fields `submitTask` adds, and those the
later updates add. -/
structure TaskData where
  message : Message
  submittedAt : Nat
  submittedBy : NodeId
  status : Status
  priority : Priority
  retryCount : Option Nat
  processingNode : Option NodeId
  startedAt : Option Nat
  result : Option TaskResult
  completedAt : Option Nat
  error : Option String
  failedAt : Option Nat
  lastUpdated : Option Nat
  deriving DecidableEq, Repr

/-- `taskData.retryCount || 0`. -/
def TaskData.retries (d : TaskData) : Nat := d.retryCount.getD 0

/-- The texts the orchestrator stores: task records, the bare node id of a claim, and the fields of
a heartbeat that say how loaded a node is. -/
inductive Text where
  | taskData (d : TaskData)
  | nodeId (n : NodeId)
  | nodeData (currentLoad : Int) (maxConcurrency : Nat)
  deriving DecidableEq, Repr

/-- `JSON.parse` of a record's text. A node id is not a JSON text, so parsing a claim throws. -/
def Text.parse : Text → Option TaskData
  | .taskData d => some d
  | _ => none

/-! ## The pure functions -/

/-- The record `submitTask` stores. -/
def Message.taskData (m : Message) (n : NodeId) (now : Nat) : TaskData where
  message := m
  submittedAt := now
  submittedBy := n
  status := .queued
  priority := m.priority.getD .medium
  retryCount := none
  processingNode := none
  startedAt := none
  result := none
  completedAt := none
  error := none
  failedAt := none
  lastUpdated := none

def priorityWeights : Priority → Int
  | .high => 1000000000
  | .medium => 500000000
  | .low => 0

/-- `getPriorityScore`; `none` is a priority string that names no weight (`|| 0`). -/
def getPriorityScore (priority : Option Priority) (now : Nat) : Int :=
  now - (priority.map priorityWeights).getD 0

def nonRetryableErrors : List String :=
  ["INVALID_TASK", "AUTHENTICATION_FAILED", "INVALID_PAYLOAD"]

def isRetryableTask (e : TaskError) : Bool :=
  !nonRetryableErrors.contains (e.code.getD "")

/-- `new Error('Task not found: …')`, which carries no code. -/
def TaskError.notFound (t : TaskId) : TaskError where
  code := none
  message := some ("Task not found: " ++ t)

/-- The `SyntaxError` of `JSON.parse`, or the `WRONGTYPE` reply to a `GET`; neither has a code of
`nonRetryableErrors`. -/
def TaskError.unreadable : TaskError where
  code := none
  message := some "Unreadable task record"

/-- Who called `requeueTask`, and so where it returns to. -/
inductive Caller where
  -- the `catch` block of `executeTask`
  | execute
  -- the loop of `handleNodeFailover`, with the claim keys it has not looked at yet
  | failover (failedNode : NodeId) (rest : List String)
  deriving DecidableEq, Repr

/-- The calls of `updateTaskStatus`, by what they write. The times are those of the
`additionalData` object, which is built before the record is read. -/
inductive Update where
  | processing (m : Message) (startedAt : Nat)
  | completed (r : TaskResult) (completedAt : Nat)
  | failed (e : TaskError) (failedAt : Nat)
  | maxRetries (c : Caller)
  deriving DecidableEq, Repr

/-- `{ ...taskData, status, ...additionalData, lastUpdated }`. -/
def Update.apply (n : NodeId) (now : Nat) (d : TaskData) : Update → TaskData
  | .processing _ startedAt =>
    { d with status := .processing, processingNode := some n, startedAt := some startedAt,
             lastUpdated := some now }
  | .completed r completedAt =>
    { d with status := .completed, result := some r, completedAt := some completedAt,
             lastUpdated := some now }
  | .failed e failedAt =>
    { d with status := .failed, error := some (e.message.getD "Unknown error"),
             failedAt := some failedAt, lastUpdated := some now }
  | .maxRetries _ =>
    { d with status := .failed, error := some "Max retries exceeded", lastUpdated := some now }

/-- `{ ...taskData, status: 'queued', retryCount }`, as `requeueTask` writes it. -/
def TaskData.requeued (d : TaskData) : TaskData :=
  { d with status := .queued, retryCount := some (d.retries + 1) }

/-- The status a call of `updateTaskStatus` writes. -/
def Update.status : Update → Status
  | .processing .. => .processing
  | .completed .. => .completed
  | .failed .. => .failed
  | .maxRetries _ => .failed

@[simp] theorem Update.apply_status (n : NodeId) (now : Nat) (d : TaskData) (u : Update) :
    (u.apply n now d).status = u.status := by
  cases u <;> rfl

/-- No status update touches the retry counter: it is spread from the record that was read. -/
@[simp] theorem Update.apply_retries (n : NodeId) (now : Nat) (d : TaskData) (u : Update) :
    (u.apply n now d).retries = d.retries := by
  cases u <;> rfl

@[simp] theorem TaskData.requeued_retries (d : TaskData) : d.requeued.retries = d.retries + 1 := rfl

@[simp] theorem Message.taskData_retries (m : Message) (n : NodeId) (now : Nat) :
    (m.taskData n now).retries = 0 := rfl

/-! ## Reading the key space as a cluster

Three views: the record, the queue and the claim of a task. Every command the orchestrator sends
has one lemma per view, and no later proof looks inside the key space. -/

def recordOf (ks : Keyspace Text) (t : TaskId) : Option TaskData :=
  (ks.text? (taskKey t)).bind Text.parse

/-- `task:queue`. -/
def queueOf (ks : Keyspace Text) : ZSet := ks.zmembers queueKey

def claimOf (ks : Keyspace Text) (t : TaskId) : Option NodeId :=
  (ks.text? (claimKey t)).bind fun
    | .nodeId n => some n
    | _ => none

variable {ks ks' : Keyspace Text} {c : Int} {d : TaskData}

theorem recordOf_setTask :
    recordOf (ks.set (taskKey t) (.taskData d)) u = if u = t then some d else recordOf ks u := by
  unfold recordOf
  rw [Keyspace.text?_set]
  simp only [taskKey_inj]
  split_ifs <;> rfl

theorem claimOf_setTask (h : t ≠ "claim:" ++ u) :
    claimOf (ks.set (taskKey t) (.taskData d)) u = claimOf ks u := by
  unfold claimOf
  rw [Keyspace.text?_set, if_neg]
  exact fun hk => h (taskKey_eq_claimKey.mp hk.symm)

theorem queueOf_setTask (h : t ≠ "queue") :
    queueOf (ks.set (taskKey t) (.taskData d)) = queueOf ks := by
  unfold queueOf
  rw [zmembers_set, if_neg]
  exact fun hk => h (taskKey_eq_queueKey.mp hk.symm)

theorem isZSet_setTask (h : t ≠ "queue") (hz : ks.isZSet queueKey = true) :
    (ks.set (taskKey t) (.taskData d)).isZSet queueKey = true := by
  rw [isZSet_set_ne fun hk => h (taskKey_eq_queueKey.mp hk.symm)]
  exact hz

theorem mem_queueOf_setTask (h : u ∈ queueOf (ks.set (taskKey t) (.taskData d))) :
    u ∈ queueOf ks := by
  unfold queueOf at h
  rw [zmembers_set] at h
  split_ifs at h with hk
  · exact absurd h (AList.notMem_empty u)
  · exact h

theorem claimOf_setClaim :
    claimOf (ks.set (claimKey t) (.nodeId n)) u = if u = t then some n else claimOf ks u := by
  unfold claimOf
  rw [Keyspace.text?_set]
  simp only [claimKey_inj]
  split_ifs <;> rfl

theorem recordOf_setClaim (h : u ≠ "claim:" ++ t) :
    recordOf (ks.set (claimKey t) (.nodeId n)) u = recordOf ks u := by
  unfold recordOf
  rw [Keyspace.text?_set, if_neg]
  exact fun hk => h (taskKey_eq_claimKey.mp hk)

theorem queueOf_setClaim : queueOf (ks.set (claimKey t) (.nodeId n)) = queueOf ks := by
  unfold queueOf
  rw [zmembers_set, if_neg claimKey_ne_queueKey.symm]

theorem claimOf_delClaim :
    claimOf (ks.del (claimKey t)) u = if u = t then none else claimOf ks u := by
  unfold claimOf
  rw [Keyspace.text?_del]
  simp only [claimKey_inj]
  split_ifs <;> rfl

theorem recordOf_delClaim (h : u ≠ "claim:" ++ t) :
    recordOf (ks.del (claimKey t)) u = recordOf ks u := by
  unfold recordOf
  rw [Keyspace.text?_del, if_neg]
  exact fun hk => h (taskKey_eq_claimKey.mp hk)

theorem queueOf_delClaim : queueOf (ks.del (claimKey t)) = queueOf ks := by
  unfold queueOf
  rw [zmembers_del, if_neg claimKey_ne_queueKey.symm]

/-! ### The queue -/

@[simp] theorem recordOf_zadd : recordOf (ks.zadd queueKey c t) u = recordOf ks u := by
  simp [recordOf]

@[simp] theorem claimOf_zadd : claimOf (ks.zadd queueKey c t) u = claimOf ks u := by
  simp [claimOf]

theorem mem_queueOf_zadd (h : ks.isZSet queueKey = true) :
    u ∈ queueOf (ks.zadd queueKey c t) ↔ u = t ∨ u ∈ queueOf ks := by
  unfold queueOf
  rw [zmembers_zadd_self h, AList.mem_insert]

/-- What a submission and a requeue do to the queue: the record is written, then the member. -/
theorem mem_queueOf_put (h : t ≠ "queue") (hz : ks.isZSet queueKey = true) :
    u ∈ queueOf ((ks.set (taskKey t) (.taskData d)).zadd queueKey c t) ↔ u = t ∨
    u ∈ queueOf ks := by
  rw [mem_queueOf_zadd (isZSet_setTask h hz), queueOf_setTask h]

theorem mem_queueOf_of_zadd (h : u ∈ queueOf (ks.zadd queueKey c t)) : u = t ∨ u ∈ queueOf ks :=
  mem_of_mem_zadd h

theorem queueOf_zadd (ks : Keyspace Text) (c : Int) (t : TaskId) :
    queueOf (ks.zadd queueKey c t) = (queueOf ks).insert t c ∨
      queueOf (ks.zadd queueKey c t) = ∅ := by
  by_cases hz : ks.isZSet queueKey = true
  · exact .inl (zmembers_zadd_self hz)
  · rw [Keyspace.zadd, if_neg hz]
    exact .inr (zmembers_of_not_isZSet hz)

theorem queueOf_setTask_cases (ks : Keyspace Text) (t : TaskId) (d : TaskData) :
    queueOf (ks.set (taskKey t) (.taskData d)) = queueOf ks ∨
      (queueOf (ks.set (taskKey t) (.taskData d)) = ∅ ∧
        (ks.set (taskKey t) (.taskData d)).isZSet queueKey = false) := by
  by_cases ht : t = "queue"
  · subst ht
    refine .inr ⟨?_, ?_⟩
    · exact zmembers_set.trans (if_pos rfl)
    · unfold Keyspace.isZSet Keyspace.set
      rw [show queueKey = taskKey "queue" from rfl, AList.lookup_insert]
  · exact .inl (queueOf_setTask ht)

section Popped

variable (h : ks.zpopmax queueKey = some (t, ks'))
include h

theorem queueOf_zpopmax : queueOf ks' = (queueOf ks).erase t := zmembers_zpopmax h

theorem recordOf_zpopmax : recordOf ks' u = recordOf ks u := by
  unfold recordOf
  rw [Keyspace.text?_zpopmax h]

theorem claimOf_zpopmax : claimOf ks' u = claimOf ks u := by
  unfold claimOf
  rw [Keyspace.text?_zpopmax h]

theorem mem_queueOf_zpopmax : u ∈ queueOf ks' ↔ u ≠ t ∧ u ∈ queueOf ks := by
  unfold queueOf
  rw [zmembers_zpopmax h, AList.mem_erase]

theorem mem_of_zpopmax : t ∈ queueOf ks :=
  (zpopmax_eq_some h).1

end Popped

/-! ### Heartbeats and the set of active nodes

None of these commands touches a task. -/

section Nodes

variable {txt : Text}

@[simp] theorem recordOf_setNode : recordOf (ks.set (nodeKey n) txt) u = recordOf ks u := by
  unfold recordOf
  rw [Keyspace.text?_set, if_neg taskKey_ne_nodeKey]

@[simp] theorem claimOf_setNode : claimOf (ks.set (nodeKey n) txt) u = claimOf ks u := by
  unfold claimOf
  rw [Keyspace.text?_set, if_neg claimKey_ne_nodeKey]

@[simp] theorem queueOf_setNode : queueOf (ks.set (nodeKey n) txt) = queueOf ks := by
  unfold queueOf
  rw [zmembers_set, if_neg queueKey_ne_nodeKey]

@[simp] theorem recordOf_delNode : recordOf (ks.del (nodeKey n)) u = recordOf ks u := by
  unfold recordOf
  rw [Keyspace.text?_del, if_neg taskKey_ne_nodeKey]

@[simp] theorem claimOf_delNode : claimOf (ks.del (nodeKey n)) u = claimOf ks u := by
  unfold claimOf
  rw [Keyspace.text?_del, if_neg claimKey_ne_nodeKey]

@[simp] theorem queueOf_delNode : queueOf (ks.del (nodeKey n)) = queueOf ks := by
  unfold queueOf
  rw [zmembers_del, if_neg queueKey_ne_nodeKey]

@[simp] theorem recordOf_sadd : recordOf (ks.sadd activeKey n) u = recordOf ks u := by
  simp [recordOf]

@[simp] theorem claimOf_sadd : claimOf (ks.sadd activeKey n) u = claimOf ks u := by
  simp [claimOf]

@[simp] theorem queueOf_sadd : queueOf (ks.sadd activeKey n) = queueOf ks :=
  zmembers_sadd_ne queueKey_ne_activeKey

@[simp] theorem recordOf_srem : recordOf (ks.srem activeKey n) u = recordOf ks u := by
  simp [recordOf]

@[simp] theorem claimOf_srem : claimOf (ks.srem activeKey n) u = claimOf ks u := by
  simp [claimOf]

@[simp] theorem queueOf_srem : queueOf (ks.srem activeKey n) = queueOf ks :=
  zmembers_srem_ne queueKey_ne_activeKey

end Nodes

end Bridge.Distributed
