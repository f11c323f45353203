import Mathlib.Data.List.Induction
import Bridge.Domain.Task
import Bridge.Lib.Prog

/-!
# The events of a task

A `Task` has its properties, which its methods change, and the list of the events that say what they
changed. `Task.fromEvents`, which would build the one from the other, is not implemented; `replay`
is what it would have to do.
-/

namespace Bridge.Domain

open Lib List Prog

/-! ## The entity -/

inductive Priority where
  | low
  | medium
  | high
  | urgent
  deriving DecidableEq, Repr

namespace Priority

def value : Priority → Nat
  | .low => 1
  | .medium => 2
  | .high => 3
  | .urgent => 4

def values : List Priority := [.low, .medium, .high, .urgent]

def fromValue (value : Nat) : Except String Priority :=
  match values.find? (·.value = value) with
  | some priority => .ok priority
  | none => .error ("Invalid priority value: " ++ toString value)

theorem fromValue_value (p : Priority) : fromValue p.value = .ok p := by
  cases p <;> rfl

end Priority

def TaskType.text : TaskType → String
  | .codeGeneration => "CODE_GENERATION"
  | .codeReview => "CODE_REVIEW"
  | .debugging => "DEBUGGING"
  | .refactoring => "REFACTORING"
  | .documentation => "DOCUMENTATION"
  | .testing => "TESTING"
  | .architecture => "ARCHITECTURE"
  | .search => "SEARCH"
  | .multimodal => "MULTIMODAL"
  | .validation => "VALIDATION"

/-- `compatibilityMap` -/
def TaskType.compatible : TaskType → List AdapterType
  | .codeGeneration => [.claude, .gemini]
  | .codeReview => [.claude, .gemini]
  | .debugging => [.claude, .gemini]
  | .refactoring => [.claude]
  | .documentation => [.claude, .gemini]
  | .testing => [.claude]
  | .architecture => [.claude, .gemini]
  | .search => [.gemini]
  | .multimodal => [.gemini]
  | .validation => [.claude]

structure Constraints where
  timeout : Option Rat := none
  preferredAdapter : Option AdapterType := none
  deriving DecidableEq, Repr

structure TaskMetadata where
  tags : Option (List String)
  constraints : Option Constraints
  deriving DecidableEq, Repr

structure TaskProps where
  id : TaskId
  prompt : String
  type : TaskType
  status : TaskStatus
  priority : Priority
  metadata : TaskMetadata
  createdAt : Nat
  updatedAt : Nat
  userId : Option String
  deriving DecidableEq, Repr

/-- `eventData`, one case for each `eventType`. -/
inductive EventData where
  | taskStatusUpdated (taskId : String) (oldStatus newStatus : TaskStatus) (updatedAt : Nat)
  | taskPromptUpdated (taskId newPrompt : String) (updatedAt : Nat)
  | taskPriorityUpdated (taskId : String) (oldPriority newPriority : Nat) (updatedAt : Nat)
  | taskTagAdded (taskId tag : String) (updatedAt : Nat)
  | taskTagRemoved (taskId tag : String) (updatedAt : Nat)
  | taskPreferredAdapterSet (taskId : String) (adapter : AdapterType) (updatedAt : Nat)
  deriving DecidableEq, Repr

structure DomainEvent where
  aggregateId : String
  eventData : EventData
  eventVersion : Nat
  timestamp : Nat
  deriving DecidableEq, Repr

/-- An object of the class `Task`, with all that its methods work on. -/
structure TaskEntity where
  props : TaskProps
  events : List DomainEvent
  deriving DecidableEq, Repr

namespace TaskEntity

abbrev Method := Prog TaskEntity String Unit

def new (props : TaskProps) : TaskEntity := ⟨props, []⟩

def canBeExecutedBy (t : TaskEntity) (adapterType : AdapterType) : Bool :=
  t.props.type.compatible.contains adapterType

def canTransitionTo (t : TaskEntity) (newStatus : TaskStatus) : Bool :=
  t.props.status.allowed.contains newStatus

/-! ## The methods

Each reads the clock twice, for `updatedAt` and for the `timestamp` of its event. -/

def setProps (f : TaskProps → TaskProps) : Method :=
  modify fun t => { t with props := f t.props }

def setTags (tags : List String) : Method :=
  setProps fun p => { p with metadata := { p.metadata with tags := some tags } }

def addEvent (event : DomainEvent) : Method :=
  modify fun t => { t with events := t.events ++ [event] }

/-- What every method does after a change: `updatedAt`, and the event with the next version. -/
def emit (data : String → EventData) (now timestamp : Nat) : Method := do
  setProps fun p => { p with updatedAt := now }
  let t ← get
  addEvent ⟨t.props.id.value, data t.props.id.value, t.events.length + 1, timestamp⟩

def updateStatus (newStatus : TaskStatus) (now timestamp : Nat) : Method := do
  let t ← get
  if ! t.canTransitionTo newStatus then
    throw ("Cannot transition from " ++ t.props.status.text ++ " to " ++ newStatus.text)
  setProps fun p => { p with status := newStatus }
  emit (fun taskId => .taskStatusUpdated taskId t.props.status newStatus now) now timestamp

def updatePrompt (newPrompt : String) (now timestamp : Nat) : Method := do
  let t ← get
  if t.props.status ≠ .pending then
    throw "Can only update prompt when task is pending"
  setProps fun p => { p with prompt := newPrompt }
  emit (fun taskId => .taskPromptUpdated taskId newPrompt now) now timestamp

def updatePriority (newPriority : Priority) (now timestamp : Nat) : Method := do
  let t ← get
  setProps fun p => { p with priority := newPriority }
  emit (fun taskId => .taskPriorityUpdated taskId t.props.priority.value newPriority.value now)
    now timestamp

def addTag (tag : String) (now timestamp : Nat) : Method := do
  let t ← get
  if t.props.metadata.tags.isNone then setTags []
  let t ← get
  let tags := t.props.metadata.tags.getD []
  if ! tags.contains tag then
    setTags (tags ++ [tag])
    emit (fun taskId => .taskTagAdded taskId tag now) now timestamp

def removeTag (tag : String) (now timestamp : Nat) : Method := do
  let t ← get
  match t.props.metadata.tags with
  | none => pure ()
  | some tags =>
    match tags.idxOf? tag with
    | none => pure ()
    | some index =>
      setTags (tags.eraseIdx index)
      emit (fun taskId => .taskTagRemoved taskId tag now) now timestamp

def setPreferredAdapter (adapter : AdapterType) (now timestamp : Nat) : Method := do
  let t ← get
  if ! t.canBeExecutedBy adapter then
    throw ("Task type " ++ t.props.type.text ++ " cannot be executed by " ++ adapter.text)
  if t.props.metadata.constraints.isNone then
    setProps fun p => { p with metadata := { p.metadata with constraints := some {} } }
  setProps fun p => { p with metadata := { p.metadata with
    constraints := p.metadata.constraints.map fun c =>
      { c with preferredAdapter := some adapter } } }
  emit (fun taskId => .taskPreferredAdapterSet taskId adapter now) now timestamp

/-! ## Runs -/

inductive Call where
  | updateStatus (newStatus : TaskStatus)
  | updatePrompt (newPrompt : String)
  | updatePriority (newPriority : Priority)
  | addTag (tag : String)
  | removeTag (tag : String)
  | setPreferredAdapter (adapter : AdapterType)
  deriving DecidableEq, Repr

structure Invocation where
  call : Call
  now : Nat
  timestamp : Nat
  deriving DecidableEq, Repr

def Invocation.method (i : Invocation) : Method :=
  match i.call with
  | .updateStatus newStatus => TaskEntity.updateStatus newStatus i.now i.timestamp
  | .updatePrompt newPrompt => TaskEntity.updatePrompt newPrompt i.now i.timestamp
  | .updatePriority newPriority => TaskEntity.updatePriority newPriority i.now i.timestamp
  | .addTag tag => TaskEntity.addTag tag i.now i.timestamp
  | .removeTag tag => TaskEntity.removeTag tag i.now i.timestamp
  | .setPreferredAdapter adapter => TaskEntity.setPreferredAdapter adapter i.now i.timestamp

/-- One call after the other; the caller goes on after one that throws. -/
def run (t : TaskEntity) (calls : List Invocation) : TaskEntity :=
  calls.foldl (fun t i => (i.method.on t).2) t

theorem run_concat (t : TaskEntity) (calls : List Invocation) (i : Invocation) :
    t.run (calls ++ [i]) = (i.method.on (t.run calls)).2 := by
  rw [run, foldl_append]
  rfl

def apply (p : TaskProps) : EventData → Except String TaskProps
  | .taskStatusUpdated _ _ newStatus now => .ok { p with status := newStatus, updatedAt := now }
  | .taskPromptUpdated _ newPrompt now => .ok { p with prompt := newPrompt, updatedAt := now }
  | .taskPriorityUpdated _ _ newPriority now => do
    let priority ← Priority.fromValue newPriority
    return { p with priority := priority, updatedAt := now }
  | .taskTagAdded _ tag now => .ok { p with
      metadata := { p.metadata with tags := some (p.metadata.tags.getD [] ++ [tag]) }
      updatedAt := now }
  | .taskTagRemoved _ tag now => .ok { p with
      metadata := { p.metadata with tags := p.metadata.tags.map (·.erase tag) }
      updatedAt := now }
  | .taskPreferredAdapterSet _ adapter now => .ok { p with
      metadata := { p.metadata with
        constraints :=
          some { p.metadata.constraints.getD {} with preferredAdapter := some adapter } }
      updatedAt := now }

def replay (p : TaskProps) (events : List DomainEvent) : Except String TaskProps :=
  events.foldlM (fun p e => apply p e.eventData) p

/-- The status after an event; none if it is a status event that does not start from the status that
was, or whose transition is not permitted. -/
def follow (status : TaskStatus) (e : DomainEvent) : Option TaskStatus :=
  match e.eventData with
  | .taskStatusUpdated _ oldStatus newStatus _ =>
    if oldStatus = status ∧ newStatus ∈ status.allowed then some newStatus else none
  | _ => some status

/-! ## What a method can do -/

/-- The event `e` is the next one of `t`, and it says how `t` comes to have the properties `p`. -/
structure Emits (t : TaskEntity) (e : DomainEvent) (p : TaskProps) : Prop where
  applied : apply t.props e.eventData = .ok p
  version : e.eventVersion = t.events.length + 1
  status : follow t.props.status e = some p.status

/-- How a call ends: the task is as it was, or the call returns and has added an event. -/
inductive Effect (t : TaskEntity) : Except String Unit × TaskEntity → Prop where
  | unchanged (r : Except String Unit) : Effect t (r, t)
  | emitted {e : DomainEvent} {p : TaskProps} (h : Emits t e p) : Effect t
    (.ok (), ⟨p, t.events ++ [e]⟩)

variable {t : TaskEntity} {now timestamp : Nat}

@[simp] theorem on_setProps_bind {f : TaskProps → TaskProps} {k : Unit → Method} :
    Prog.on (setProps f >>= k) t = (k ()).on ⟨f t.props, t.events⟩ := rfl

@[simp] theorem on_setTags_bind {tags : List String} {k : Unit → Method} :
    Prog.on (setTags tags >>= k) t = (k ()).on
      ⟨{ t.props with metadata := { t.props.metadata with tags := some tags } }, t.events⟩ := rfl

theorem on_emit {data : String → EventData} : (emit data now timestamp).on t =
    (.ok (), ⟨{ t.props with updatedAt := now }, t.events ++
      [⟨t.props.id.value, data t.props.id.value, t.events.length + 1, timestamp⟩]⟩) := rfl

theorem effect_emit {data : String → EventData} {p : TaskProps}
    (happly : apply t.props (data p.id.value) = .ok { p with updatedAt := now })
    (hstatus : follow t.props.status ⟨p.id.value, data p.id.value, t.events.length + 1, timestamp⟩ =
      some p.status) : Effect t ((emit data now timestamp).on ⟨p, t.events⟩) := by
  rw [on_emit]
  exact .emitted ⟨happly, rfl, hstatus⟩

theorem effect_updateStatus (newStatus : TaskStatus) :
    Effect t ((updateStatus newStatus now timestamp).on t) := by
  unfold updateStatus
  rw [on_get_bind]
  cases h : t.canTransitionTo newStatus with
  | false => exact .unchanged _
  | true =>
    have hallowed : newStatus ∈ t.props.status.allowed := contains_iff_mem.mp h
    simp only [Bool.not_true, Bool.false_eq_true, if_false, on_setProps_bind]
    apply effect_emit
    · rfl
    · exact if_pos ⟨rfl, hallowed⟩

theorem effect_updatePrompt (newPrompt : String) :
    Effect t ((updatePrompt newPrompt now timestamp).on t) := by
  unfold updatePrompt
  rw [on_get_bind]
  split
  · exact .unchanged _
  · rw [on_setProps_bind]
    apply effect_emit
    · rfl
    · rfl

theorem effect_updatePriority (newPriority : Priority) :
    Effect t ((updatePriority newPriority now timestamp).on t) := by
  unfold updatePriority
  rw [on_get_bind, on_setProps_bind]
  apply effect_emit
  · -- the event has the number of the priority, which is looked up again
    rw [apply, Priority.fromValue_value]
    rfl
  · rfl

theorem on_addTag_of_contains {tag : String}
    (h : (t.props.metadata.tags.getD []).contains tag = true) :
    (addTag tag now timestamp).on t = (.ok (), t) := by
  unfold addTag
  rw [on_get_bind]
  cases htags : t.props.metadata.tags with
  | none =>
    simp [htags] at h
  | some tags =>
    rw [htags] at h
    simp only [Option.isNone_some, Bool.false_eq_true, if_false, on_get_bind, htags, h,
      Bool.not_true]
    rfl

theorem on_addTag {tag : String} (h : (t.props.metadata.tags.getD []).contains tag = false) :
    (addTag tag now timestamp).on t =
      (emit (fun taskId => .taskTagAdded taskId tag now) now timestamp).on
        ⟨{ t.props with metadata := { t.props.metadata with
            tags := some (t.props.metadata.tags.getD [] ++ [tag]) } }, t.events⟩ := by
  unfold addTag
  rw [on_get_bind]
  cases htags : t.props.metadata.tags with
  | none => rfl
  | some tags =>
    rw [htags] at h
    simp only [Option.isNone_some, Bool.false_eq_true, if_false, on_get_bind, htags, h,
      Bool.not_false, if_true, on_setTags_bind]

theorem effect_addTag (tag : String) : Effect t ((addTag tag now timestamp).on t) := by
  cases h : (t.props.metadata.tags.getD []).contains tag with
  | true =>
    rw [on_addTag_of_contains h]
    exact .unchanged _
  | false =>
    rw [on_addTag h]
    apply effect_emit
    · rfl
    · rfl

theorem effect_removeTag (tag : String) : Effect t ((removeTag tag now timestamp).on t) := by
  unfold removeTag
  rw [on_get_bind]
  cases h : t.props.metadata.tags with
  | none => exact .unchanged _
  | some tags =>
    cases hi : tags.idxOf? tag with
    | none =>
      simp only [hi]
      exact .unchanged _
    | some index =>
      have herase : tags.erase tag = tags.eraseIdx index := by
        rw [erase_eq_eraseIdx, hi]
      simp only [hi, on_setTags_bind]
      apply effect_emit
      · rw [apply, h, Option.map_some, herase]
      · rfl

theorem on_setPreferredAdapter_of_unfit {adapter : AdapterType}
    (h : t.canBeExecutedBy adapter = false) :
    ∃ e, (setPreferredAdapter adapter now timestamp).on t = (.error e, t) := by
  unfold setPreferredAdapter
  rw [on_get_bind, h]
  exact ⟨_, rfl⟩

theorem on_setPreferredAdapter {adapter : AdapterType} (h : t.canBeExecutedBy adapter = true) :
    (setPreferredAdapter adapter now timestamp).on t =
      (emit (fun taskId => .taskPreferredAdapterSet taskId adapter now) now timestamp).on
        ⟨{ t.props with metadata := { t.props.metadata with
            constraints := some { t.props.metadata.constraints.getD {} with
              preferredAdapter := some adapter } } }, t.events⟩ := by
  unfold setPreferredAdapter
  rw [on_get_bind, h]
  cases hc : t.props.metadata.constraints with
  | none => simp [on_setProps_bind]
  | some c => simp [on_setProps_bind, hc]

theorem effect_setPreferredAdapter (adapter : AdapterType) :
    Effect t ((setPreferredAdapter adapter now timestamp).on t) := by
  cases h : t.canBeExecutedBy adapter with
  | false =>
    obtain ⟨e, herror⟩ : ∃ e, (setPreferredAdapter adapter now timestamp).on t = (.error e, t) :=
      on_setPreferredAdapter_of_unfit h
    rw [herror]
    exact .unchanged _
  | true =>
    rw [on_setPreferredAdapter h]
    apply effect_emit
    · rfl
    · rfl

/-- **One call.** -/
theorem effect_method (t : TaskEntity) (i : Invocation) : Effect t (i.method.on t) := by
  unfold Invocation.method
  cases i.call with
  | updateStatus newStatus => exact effect_updateStatus newStatus
  | updatePrompt newPrompt => exact effect_updatePrompt newPrompt
  | updatePriority newPriority => exact effect_updatePriority newPriority
  | addTag tag => exact effect_addTag tag
  | removeTag tag => exact effect_removeTag tag
  | setPreferredAdapter adapter => exact effect_setPreferredAdapter adapter

theorem unchanged_of_throws {i : Invocation} {e : String} {t' : TaskEntity}
    (h : i.method.on t = (.error e, t')) : t' = t := by
  have heffect := effect_method t i
  rw [h] at heffect
  cases heffect with
  | unchanged => rfl

/-! ## The events are the history -/

/-- The events of a task are what happened to it since its properties were `initial`. -/
structure Recorded (initial : TaskProps) (t : TaskEntity) : Prop where
  replayed : replay initial t.events = .ok t.props
  versions : t.events.map DomainEvent.eventVersion = range' 1 t.events.length
  statuses : t.events.foldlM follow initial.status = some t.props.status

theorem recorded_new (initial : TaskProps) : Recorded initial (new initial) := ⟨rfl, rfl, rfl⟩

theorem foldlM_concat {m : Type → Type} [Monad m] [LawfulMonad m] {α β : Type} (f : β → α → m β)
    (b : β) (l : List α) (a : α) : (l ++ [a]).foldlM f b = l.foldlM f b >>= fun b => f b a := by
  simp

variable {initial : TaskProps}

theorem Recorded.emits {e : DomainEvent} {p : TaskProps} (h : Recorded initial t)
    (he : Emits t e p) : Recorded initial ⟨p, t.events ++ [e]⟩ where
  replayed := by
    have hbefore : t.events.foldlM (fun p e => apply p e.eventData) initial = .ok t.props :=
      h.replayed
    rw [replay, foldlM_concat, hbefore]
    exact he.applied
  versions := by
    rw [map_append, h.versions, length_append, length_singleton, range'_concat,
      map_singleton, he.version, Nat.one_mul, Nat.add_comm]
  statuses := by
    rw [foldlM_concat, h.statuses]
    exact he.status

theorem Recorded.call (h : Recorded initial t) (i : Invocation) :
    Recorded initial (i.method.on t).2 := by
  generalize hr : i.method.on t = r
  have heffect : Effect t r := hr ▸ effect_method t i
  cases heffect with
  | unchanged => exact h
  | emitted he => exact h.emits he

theorem recorded_run (initial : TaskProps) (calls : List Invocation) :
    Recorded initial ((new initial).run calls) := by
  induction calls using reverseRecOn with
  | nil => exact recorded_new initial
  | append_singleton calls i ih =>
    rw [run_concat]
    exact ih.call i

/-- **The events of a task say what its properties are.** -/
theorem events_replay (initial : TaskProps) (calls : List Invocation) :
    replay initial ((new initial).run calls).events = .ok ((new initial).run calls).props ∧
    ((new initial).run calls).events.map DomainEvent.eventVersion =
      range' 1 ((new initial).run calls).events.length ∧
    ((new initial).run calls).events.foldlM follow initial.status =
      some ((new initial).run calls).props.status ∧
    ∀ (i : Invocation) (e : String) (t' : TaskEntity),
      i.method.on ((new initial).run calls) = (.error e, t') → t' = (new initial).run calls := by
  have h := recorded_run initial calls
  refine ⟨h.replayed, h.versions, h.statuses, ?_⟩
  intro i e t' hthrow
  exact unchanged_of_throws hthrow

def freshProps : TaskProps where
  id := ⟨"00000000-0000-4000-8000-00000000000a", by decide⟩
  prompt := "a"
  type := .refactoring
  status := .pending
  priority := .medium
  metadata := ⟨none, none⟩
  createdAt := 0
  updatedAt := 0
  userId := none

def busyCalls : List Invocation :=
  [⟨.updatePrompt "b", 1, 1⟩, ⟨.addTag "x", 2, 2⟩, ⟨.addTag "x", 3, 3⟩,
    ⟨.updatePriority .urgent, 4, 4⟩,
    ⟨.updateStatus .inProgress, 5, 5⟩, ⟨.updatePrompt "late", 6, 6⟩,
      ⟨.updateStatus .validated, 7, 7⟩,
    ⟨.removeTag "x", 8, 8⟩, ⟨.setPreferredAdapter .gemini, 9, 9⟩,
      ⟨.setPreferredAdapter .claude, 10, 10⟩,
    ⟨.updateStatus .completed, 11, 11⟩]

theorem events_replay_busyCalls : ((new freshProps).run busyCalls).events.length = 7 ∧
    replay freshProps ((new freshProps).run busyCalls).events =
      .ok ((new freshProps).run busyCalls).props ∧
    (Invocation.method ⟨.updateStatus .failed, 12, 12⟩).on ((new freshProps).run busyCalls) =
      (.error "Cannot transition from COMPLETED to FAILED", (new freshProps).run busyCalls) := by
  obtain ⟨hreplay, _, _, hthrow⟩ := events_replay freshProps busyCalls
  have herror : ((Invocation.method ⟨.updateStatus .failed, 12, 12⟩).on
      ((new freshProps).run busyCalls)).1 = .error "Cannot transition from COMPLETED to FAILED" :=
      rfl
  exact ⟨rfl, hreplay, Prod.ext herror (hthrow _ _ _ (Prod.ext herror rfl))⟩

/-! ## The task of the use cases

The use cases call no method but `updateStatus`, and their `Task` has no events but its. -/

def statusUpdated (e : DomainEvent) : Option StatusUpdated :=
  match e.eventData with
  | .taskStatusUpdated _ oldStatus newStatus now => some ⟨oldStatus, newStatus, now, e.eventVersion⟩
  | _ => none

def toTask (t : TaskEntity) : Task where
  id := t.props.id
  prompt := t.props.prompt
  type := t.props.type
  status := t.props.status
  tags := t.props.metadata.tags.getD []
  userId := t.props.userId
  createdAt := t.props.createdAt
  updatedAt := t.props.updatedAt
  events := t.events.filterMap statusUpdated

theorem toTask_updateStatus (h : ∀ e ∈ t.events, (statusUpdated e).isSome = true)
    (newStatus : TaskStatus) (now timestamp : Nat) : t.toTask.updateStatus newStatus now =
      ((updateStatus newStatus now timestamp).on t).1.map fun _ =>
        ((updateStatus newStatus now timestamp).on t).2.toTask := by
  have hlength : t.toTask.events.length = t.events.length := filterMap_length_eq_length.mpr h
  unfold Task.updateStatus updateStatus
  rw [on_get_bind, hlength]
  have hcan : t.toTask.canTransitionTo newStatus = t.canTransitionTo newStatus := rfl
  rw [hcan]
  cases t.canTransitionTo newStatus with
  | false => rfl
  | true =>
    simp only [if_true, Bool.not_true, Bool.false_eq_true, if_false, on_setProps_bind,
      on_emit, toTask, filterMap_append]
    rfl

end TaskEntity

end Bridge.Domain
