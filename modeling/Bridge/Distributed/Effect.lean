import Bridge.Distributed.Cluster

/-!
# What one step of a thread can do to the tasks

`Pc.exec` has some thirty branches. Six of them write anything a task is made of: the claim
script, the `SET` of `updateTaskStatus`, the `MULTI` of `requeueTask`, the `DEL` of a claim and
the `ZADD` of `handlePriorityUpdate`; all the others read, or write heartbeats. `exec_effect` says
so once, with the command each of them sends, and every invariant below is a case analysis over
`Effect` instead of over `Pc`.
-/

namespace Bridge.Distributed

open Lib Keyspace

/-! ## Holding a task -/

def Caller.holds (t : TaskId) : Caller → Option TaskId
  | .execute => some t
  | .failover .. => none

def Update.holds (t : TaskId) : Update → Option TaskId
  | .processing .. => some t
  | .completed .. => some t
  | .failed .. => some t
  | .maxRetries c => c.holds t

/-- The task an `executeTask` holds: claimed, and a write to it still to come. -/
def Pc.holds : Pc → Option TaskId
  | .enter t => some t
  | .load t => some t
  | .process t _ => some t
  | .update u t => u.holds t
  | .store u t _ => u.holds t
  | .requeue c t => c.holds t
  | .enqueue c t _ => c.holds t
  | _ => none

/-- The task an `executeTask` is executing: claimed, and `executeWithRetry` not returned yet. -/
def Pc.executing : Pc → Option TaskId
  | .enter t => some t
  | .load t => some t
  | .process t _ => some t
  | .update (.processing ..) t => some t
  | .store (.processing ..) t _ => some t
  | _ => none

variable {pc : Pc} {t : TaskId}

theorem Pc.holds_of_executing (h : pc.executing = some t) : pc.holds = some t := by
  cases pc with
  | enter | load | process => simpa [executing, holds] using h
  | update u _ | store u _ _ => cases u <;> simp_all [executing, holds, Update.holds]
  | _ => simp [executing] at h

/-- The task an `executeTask` is about, down to the `DEL` of its claim. -/
def Pc.task : Pc → Option TaskId
  | .publish t _ => some t
  | .leave t => some t
  | .release t => some t
  | pc => pc.holds

theorem Pc.task_of_holds (h : pc.holds = some t) : pc.task = some t := by
  cases pc <;> first | exact h | simp [holds] at h

/-- The thread goes on with the task it had, or with none: it takes hold of nothing and starts
nothing. -/
structure Keeps (pc pc' : Pc) : Prop where
  task : ∀ t, pc'.task = some t → pc.task = some t
  holds : ∀ t, pc'.holds = some t → pc.holds = some t
  executing : ∀ t, pc'.executing = some t → pc.executing = some t

namespace Keeps

variable {pc' : Pc}

theorem of_none (h : pc'.task = none) : Keeps pc pc' where
  task u hu := absurd hu (by simp [h])
  holds u hu := absurd (Pc.task_of_holds hu) (by simp [h])
  executing u hu := absurd (Pc.task_of_holds (Pc.holds_of_executing hu)) (by simp [h])

theorem of_released (h : pc.task = some t) (h' : pc'.task = some t) (hh : pc'.holds = none) :
    Keeps pc pc' where
  task u hu := by rw [h, ← h']; exact hu
  holds u hu := absurd hu (by simp [hh])
  executing u hu := absurd (Pc.holds_of_executing hu) (by simp [hh])

theorem of_returned (h : pc.holds = some t) (h' : pc'.holds = some t)
    (he : pc'.executing = none) : Keeps pc pc' where
  task u hu := by rw [Pc.task_of_holds h, ← Pc.task_of_holds h']; exact hu
  holds u hu := by rw [h, ← h']; exact hu
  executing u hu := absurd hu (by simp [he])

theorem of_executing (h : pc.executing = some t) (h' : pc'.executing = some t) : Keeps pc pc' where
  task u hu := by
    rw [Pc.task_of_holds (Pc.holds_of_executing h), ← Pc.task_of_holds (Pc.holds_of_executing h')]
    exact hu
  holds u hu := by rw [Pc.holds_of_executing h, ← Pc.holds_of_executing h']; exact hu
  executing u hu := by rw [h, ← h']; exact hu

end Keeps

theorem Pc.task_claimed {x : TaskId} (h : (Pc.claimed x).task = some t) : t = x := by
  rw [Pc.claimed] at h
  split at h
  · cases h
  · exact (Option.some.inj h).symm

/-- The id a handler is about to put in the queue, when the handler is not the task's own
`executeTask`. -/
def Pc.foreign : Pc → Option TaskId
  | .enqueue (.failover ..) t _ => some t
  | .prioritize t _ => some t
  | _ => none

/-! ## Quiet steps -/

structure Same (ks ks' : Keyspace Text) : Prop where
  record : ∀ t, recordOf ks' t = recordOf ks t
  claim : ∀ t, claimOf ks' t = claimOf ks t
  reply : ∀ t, ks'.get (claimKey t) = ks.get (claimKey t)
  queue : queueOf ks' = queueOf ks
  isZSet : ks'.isZSet queueKey = ks.isZSet queueKey

namespace Same

variable {ks : Keyspace Text} {n : NodeId} {txt : Text}

theorem refl : Same ks ks := ⟨fun _ => rfl, fun _ => rfl, fun _ => rfl, rfl, rfl⟩

theorem setNode : Same ks (ks.set (nodeKey n) txt) :=
  ⟨fun _ => recordOf_setNode, fun _ => claimOf_setNode,
    fun _ => get_set_ne claimKey_ne_nodeKey, queueOf_setNode,
    isZSet_set_ne queueKey_ne_nodeKey⟩

theorem delNode : Same ks (ks.del (nodeKey n)) :=
  ⟨fun _ => recordOf_delNode, fun _ => claimOf_delNode,
    fun _ => get_congr (lookup_del_ne claimKey_ne_nodeKey), queueOf_delNode,
    isZSet_congr (lookup_del_ne queueKey_ne_nodeKey)⟩

theorem sadd : Same ks (ks.sadd activeKey n) :=
  ⟨fun _ => recordOf_sadd, fun _ => claimOf_sadd,
    fun _ => get_congr (lookup_sadd_ne claimKey_ne_activeKey), queueOf_sadd,
    isZSet_congr (lookup_sadd_ne queueKey_ne_activeKey)⟩

theorem srem : Same ks (ks.srem activeKey n) :=
  ⟨fun _ => recordOf_srem, fun _ => claimOf_srem,
    fun _ => get_congr (lookup_srem_ne claimKey_ne_activeKey), queueOf_srem,
    isZSet_congr (lookup_srem_ne queueKey_ne_activeKey)⟩

theorem trans {ks₁ ks₂ ks₃ : Keyspace Text} (h : Same ks₁ ks₂) (h' : Same ks₂ ks₃) : Same ks₁ ks₃ :=
  ⟨fun t => (h'.record t).trans (h.record t), fun t => (h'.claim t).trans (h.claim t),
    fun t => (h'.reply t).trans (h.reply t), h'.queue.trans h.queue, h'.isZSet.trans h.isZSet⟩

end Same

/-- An event that is no claim, no submission and no write of a record. -/
def Event.silent : Event → Prop
  | .executed .. => True
  | _ => False

variable {i : Nat} {u : Update}

theorem Update.events_executing :
    ∀ ev ∈ u.events i t, (Pc.update u t).executing = some t ∧ ev = .executed i t := by
  intro ev hev
  cases u with
  | processing => exact ⟨rfl, List.mem_singleton.mp hev⟩
  | _ => simp [Update.events] at hev

theorem Update.events_silent : ∀ ev ∈ u.events i t, ev.silent := by
  intro ev hev
  obtain ⟨-, rfl⟩ := Update.events_executing ev hev
  exact trivial

/-! ## The effect of a thread's step -/

inductive Effect (i : Nat) (n : NodeId) (ks : Keyspace Text) (now : Nat) :
    Pc → Keyspace Text → Pc → List Event → Prop
  | claim {t : TaskId} {ks' : Keyspace Text} : ks.zpopmax queueKey = some (t, ks') →
      Effect i n ks now .claim (ks'.set (claimKey t) (.nodeId n)) (.claimed t) [.claimed i t]
  | store (u : Update) (t : TaskId) (d : TaskData) :
      Effect i n ks now (.store u t d) (ks.set (taskKey t) (.taskData (u.apply n now d)))
        (u.return t) (u.events i t ++ [.recorded t u.status])
  | enqueue (c : Caller) (t : TaskId) (d : TaskData) :
      Effect i n ks now (.enqueue c t d) ((ks.set (taskKey t) (.taskData d.requeued)).zadd queueKey
          (getPriorityScore (some d.priority) now) t)
        (c.return t) [.recorded t .queued]
  | release (t : TaskId) : Effect i n ks now (.release t) (ks.del (claimKey t)) .done []
  | prioritize (t : TaskId) (p : Option Priority) :
      Effect i n ks now (.prioritize t p) (ks.zadd queueKey (getPriorityScore p now) t) .done []
  | quiet {pc pc' : Pc} {ks' : Keyspace Text} {evs : List Event} : Same ks ks' →
      Keeps pc pc' → (∀ ev ∈ evs, ∃ t, pc.executing = some t ∧ ev = .executed i t) →
      Effect i n ks now pc ks' pc' evs

/-! Returning from a method, or throwing out of it, takes hold of nothing. -/

theorem Caller.return_keeps {c : Caller} (h : pc.task = c.holds t) : Keeps pc (c.return t) := by
  cases c with
  | execute => exact .of_released h rfl rfl
  | failover => exact .of_none rfl

theorem Caller.throw_keeps {c : Caller} (h : pc.task = c.holds t) : Keeps pc (c.throw t) := by
  cases c with
  | execute => exact .of_released h rfl rfl
  | failover => exact .of_none rfl

theorem Update.return_keeps : Keeps (.update u t) (u.return t) := by
  cases u with
  | processing => exact .of_executing rfl rfl
  | completed => exact .of_released rfl rfl rfl
  | failed e _ =>
    simp only [Update.return]
    split
    · exact .of_returned rfl rfl rfl
    · exact .of_released rfl rfl rfl
  | maxRetries c => exact Caller.return_keeps rfl

theorem Update.store_keeps {d : TaskData} : Keeps (.store u t d) (u.return t) := by
  have h := Update.return_keeps (t := t) (u := u)
  refine ⟨h.task, h.holds, fun x hx => ?_⟩
  have hx' := h.executing x hx
  cases u <;> exact hx'

theorem Update.read_keeps {d : TaskData} : Keeps (.update u t) (.store u t d) := by
  refine ⟨fun _ hx => hx, fun _ hx => hx, fun x hx => ?_⟩
  cases u <;> exact hx

theorem Update.throw_keeps {e : TaskError} {now : Nat} : Keeps (.update u t) (u.throw e now t) := by
  cases u with
  | processing | completed => exact .of_returned rfl rfl rfl
  | failed => exact .of_released rfl rfl rfl
  | maxRetries c => exact Caller.throw_keeps rfl

theorem Effect.idle {n : NodeId} {ks : Keyspace Text} {now : Nat} {pc' : Pc} (h : Keeps pc pc') :
    Effect i n ks now pc ks pc' [] := .quiet .refl h (by simp)

/-- **One step of a thread, by its effect.** -/
theorem exec_effect {n : NodeId} {nd : Node} {ks : Keyspace Text} {inp : Input} {nx : Next}
    (h : pc.exec i n nd ks inp = some nx) : Effect i n ks inp.now pc nx.redis nx.pc nx.events := by
  cases pc with
  | claim =>
    simp only [Pc.exec] at h
    cases hp : ks.zpopmax queueKey with
    | none =>
      rw [hp] at h
      cases h
      exact .idle (.of_none rfl)
    | some r =>
      obtain ⟨t, ks'⟩ := r
      rw [hp] at h
      cases h
      exact .claim hp
  | store u t d => cases h; exact .store u t d
  | enqueue c t d => cases h; exact .enqueue c t d
  | release t => cases h; exact .release t
  | prioritize t p => cases h; exact .prioritize t p
  | enter t => cases h; exact .quiet .setNode (.of_executing rfl rfl) (by simp)
  | leave t => cases h; exact .quiet .setNode (.of_released rfl rfl rfl) (by simp)
  | beat | announce => cases h; exact .quiet .setNode (.of_none rfl) (by simp)
  | register => cases h; exact .quiet (Same.setNode.trans .sadd) (.of_none rfl) (by simp)
  | unregister => cases h; exact .quiet (Same.delNode.trans .srem) (.of_none rfl) (by simp)
  | fail x xs => cases h; exact .quiet .srem (.of_none rfl) (by simp)
  | load t =>
    simp only [Pc.exec] at h
    split at h <;> cases h
    · exact .idle (.of_returned rfl rfl rfl)
    · exact .idle (.of_returned rfl rfl rfl)
    · exact .idle (.of_executing rfl rfl)
  | update u t =>
    simp only [Pc.exec] at h
    split at h <;> cases h
    · exact .quiet .refl Update.return_keeps fun ev hev => ⟨t, Update.events_executing ev hev⟩
    · exact .idle Update.throw_keeps
    · exact .idle Update.read_keeps
  | process t m =>
    simp only [Pc.exec] at h
    split at h <;> cases h <;> exact .idle (.of_returned rfl rfl rfl)
  | publish t r => cases h; exact .idle (.of_released rfl rfl rfl)
  | requeue c t =>
    simp only [Pc.exec] at h
    split at h
    · cases h; exact .idle (Caller.return_keeps rfl)
    · cases h; exact .idle (Caller.throw_keeps rfl)
    · split at h <;> cases h
      · exact .idle ⟨fun _ hx => hx, fun _ hx => hx, fun _ hx => nomatch hx⟩
      · exact .idle ⟨fun _ hx => hx, fun _ hx => hx, fun _ hx => nomatch hx⟩
  | keys x =>
    simp only [Pc.exec] at h
    split at h <;> cases h
    exact .idle (.of_none rfl)
  | scan x ks' =>
    cases ks' with
    | nil => cases h; exact .idle (.of_none rfl)
    | cons k rest =>
      simp only [Pc.exec] at h
      split at h
      · cases h; exact .idle (.of_none rfl)
      · cases h; exact .idle (.of_none rfl)
      · split at h <;> cases h <;> exact .idle (.of_none rfl)
  | members =>
    simp only [Pc.exec] at h
    split at h <;> cases h
    exact .idle (.of_none rfl)
  | check xs =>
    cases xs with
    | nil => cases h; exact .idle (.of_none rfl)
    | cons x xs =>
      simp only [Pc.exec] at h
      split at h
      · cases h; exact .idle (.of_none rfl)
      · split at h <;> cases h <;> exact .idle (.of_none rfl)
  | subscribe | quit => cases h; exact .idle (.of_none rfl)
  | done => simp [Pc.exec] at h

theorem silent_of_executed {evs : List Event}
    (h : ∀ ev ∈ evs, ∃ t, pc.executing = some t ∧ ev = .executed i t) : ∀ ev ∈ evs, ev.silent := by
  intro ev hev
  obtain ⟨t, -, rfl⟩ := h ev hev
  exact trivial

section Effect

variable {n : NodeId} {ks ks' : Keyspace Text} {now : Nat} {pc' : Pc} {evs : List Event}

theorem Effect.keeps (h : Effect i n ks now pc ks' pc' evs) :
    Keeps pc pc' ∨ ∃ t, t ∈ queueOf ks ∧ pc = .claim ∧ pc' = .enter t := by
  cases h with
  | @claim t ks' hpop =>
    by_cases ht : t = ""
    · exact .inl (.of_none (by rw [Pc.claimed, if_pos ht]; rfl))
    · exact .inr ⟨t, mem_of_zpopmax hpop, rfl, if_neg ht⟩
  | store u t d => exact .inl Update.store_keeps
  | enqueue c t d => exact .inl (Caller.return_keeps rfl)
  | release | prioritize => exact .inl (.of_none rfl)
  | quiet _ hk _ => exact .inl hk

/-- The claim script names the node in the claim of the task that its thread goes on with. -/
theorem Effect.claims (h : Effect i n ks now .claim ks' (.enter t) evs) :
    claimOf ks' t = some n := by
  generalize hpc : Pc.enter t = pc' at h
  cases h with
  | @claim x _ hpop =>
    rw [claimOf_setClaim, if_pos (Pc.task_claimed (hpc ▸ rfl))]
  | quiet _ hkeep _ => exact absurd (hkeep.task t (hpc ▸ rfl)) (by simp [Pc.task, Pc.holds])

theorem Effect.not_submitted (h : Effect i n ks now pc ks' pc' evs) (t : TaskId) :
    .submitted t ∉ evs := by
  intro hm
  cases h with
  | store u t d =>
    rcases List.mem_append.mp hm with hm | hm
    · exact Update.events_silent _ hm
    · simp at hm
  | quiet _ _ hevs =>
    obtain ⟨_, _, heq⟩ := hevs _ hm
    simp at heq
  | _ => simp at hm

end Effect

/-! ## The effect of a step of the cluster -/

namespace Cluster

variable {s : Cluster}

theorem setNode_nodes {n m : NodeId} {nd : Node} :
    (s.setNode n nd).nodes m = if m = n then nd else s.nodes m := Function.update_apply ..

/-! A broadcast reaches inboxes only. -/

section Broadcast

variable {msgs : List ClusterMsg} {n : NodeId}

theorem broadcast_up : ((s.broadcast msgs).nodes n).up = (s.nodes n).up := by
  simp only [broadcast]
  split <;> rfl

theorem broadcast_isActive : ((s.broadcast msgs).nodes n).isActive = (s.nodes n).isActive := by
  simp only [broadcast]
  split <;> rfl

theorem broadcast_down (h : s.nodes n = .down) : (s.broadcast msgs).nodes n = .down := by
  simp only [broadcast, h]
  rfl

theorem broadcast_inbox {msg : ClusterMsg} : msg ∈ ((s.broadcast msgs).nodes n).inbox ↔
    msg ∈ (s.nodes n).inbox ∨ ((s.nodes n).subscribed = true ∧ msg ∈ msgs) := by
  simp only [broadcast]
  split_ifs with hsub
  · simp [hsub]
  · simp [hsub]

end Broadcast

/-- How the actions that are no thread's step change the threads: a new one that holds nothing, or
those of a node gone. -/
inductive Threads (ps : List Proc) : List Proc → Prop
  | same : Threads ps ps
  | spawn (n : NodeId) (pc : Pc) : pc.holds = none → Threads ps (ps ++ [⟨n, pc⟩])
  | kill (n : NodeId) : Threads ps (killProcs n ps)

inductive Stepped (s : Cluster) : Action → Cluster → Prop
  | submit {n : NodeId} {m : Message} {now : Nat} : (s.nodes n).up = true →
      Stepped s (.submit n m now) (s.submitTask n m now)
  | thread {i : Nat} {inp : Input} {p : Proc} {nx : Next} : s.procs[i]? = some p →
      (s.nodes p.node).up = true → p.pc.exec i p.node (s.nodes p.node) s.redis inp = some nx →
      Stepped s (.step i inp) ((s.advance i p.node nx).broadcast nx.sent)
  | reject {i now : Nat} {e : TaskError} {p : Proc} : s.procs[i]? = some p →
      Stepped s (.reject i now e) (s.advance i p.node
        ⟨s.redis, p.pc.reject (s.nodes p.node), p.pc.throw e now, [], []⟩)
  | calm {a : Action} {s' : Cluster} : (∀ n m now, a ≠ .submit n m now) →
      Same s.redis s'.redis → s'.history = s.history → Threads s.procs s'.procs →
      Stepped s a s'

theorem step_thread {s' : Cluster} {i : Nat} {inp : Input} (h : s.step (.step i inp) = some s') :
    ∃ p nx, s.procs[i]? = some p ∧ (s.nodes p.node).up = true ∧
      p.pc.exec i p.node (s.nodes p.node) s.redis inp = some nx ∧
      s' = (s.advance i p.node nx).broadcast nx.sent := by
  simp only [step] at h
  split at h
  · cases h
  · rename_i p hp
    split at h
    · obtain ⟨nx, hnx, rfl⟩ := Option.map_eq_some_iff.mp h
      exact ⟨p, nx, hp, ‹_›, hnx, rfl⟩
    · cases h

theorem stepped_receive {s' : Cluster} {n : NodeId} (h : s.step (.receive n) = some s') :
    Stepped s (.receive n) s' := by
  simp only [step] at h
  split at h
  · cases h
  · split at h
    · split at h <;> cases h
      · exact .calm nofun .refl rfl .same
      · exact .calm nofun .refl rfl (.spawn _ _ rfl)
    · cases h
      exact .calm nofun .refl rfl (.spawn _ _ rfl)

/-- **One step of the cluster, by its effect.** -/
theorem step_cases {s' : Cluster} {a : Action} (h : s.step a = some s') : Stepped s a s' := by
  cases a with
  | submit n m now =>
    simp only [step] at h
    split at h <;> cases h
    exact .submit ‹_›
  | step i inp =>
    obtain ⟨p, nx, hp, hup, hnx, rfl⟩ := step_thread h
    exact .thread hp hup hnx
  | reject i now e =>
    simp only [step] at h
    split at h
    · cases h
    · rename_i p hp
      split at h <;> cases h
      exact .reject hp
  | receive n => exact stepped_receive h
  | publishPriority t p => cases h; exact .calm nofun .refl rfl .same
  | expireHeartbeat n => cases h; exact .calm nofun .delNode rfl .same
  | crash n =>
    simp only [step] at h
    split at h <;> cases h
    exact .calm nofun .refl rfl (.kill n)
  | tick | heartbeat | shutdown =>
    simp only [step] at h
    split at h <;> cases h
    exact .calm nofun .refl rfl (.spawn _ _ rfl)
  | start n k =>
    simp only [step] at h
    split at h <;> cases h
    exact .calm nofun .refl rfl (.spawn _ _ rfl)

end Cluster

end Bridge.Distributed
