import Bridge.Distributed.Claims

/-!
# Every task accounted for

In a run without failover (`Working`) every submitted task is **queued, or held by one
`executeTask`, or closed**, it is retried at most three times and executed at most four times.
-/

namespace Bridge.Distributed

open Lib Keyspace List Option

/-! ## What a thread knows about its task -/

def Event.isExecution (t : TaskId) : Event → Bool
  | .executed _ u => u == t
  | _ => false

/-- How often `executeWithRetry` has been called for a task. -/
def executions (h : List Event) (t : TaskId) : Nat := h.countP (Event.isExecution t)

@[simp] theorem executions_append (h h' : List Event) (t : TaskId) :
    executions (h ++ h') t = executions h t + executions h' t := countP_append

/-- Whether the thread has called `executeWithRetry`. -/
def Pc.ran : Pc → Nat
  | .enter _ => 0
  | .load _ => 0
  | .update (.processing ..) _ => 0
  | .store (.processing ..) _ _ => 0
  | _ => 1

theorem Pc.ran_le_one (pc : Pc) : pc.ran ≤ 1 := by
  unfold Pc.ran
  split <;> decide

/-- The record as the thread has read it, when its next command writes it back. -/
def Pc.copy : Pc → Option TaskData
  | .store _ _ d => some d
  | .enqueue _ _ d => some d
  | _ => none

/-- The copy is the record, and a task about to be queued again has a retry left. -/
structure Pc.Agrees (pc : Pc) (d : TaskData) : Prop where
  copy : ∀ d', pc.copy = some d' → d' = d
  room : ∀ c t d', pc = .enqueue c t d' → d.retries < 3

variable {d : TaskData} {pc : Pc}

theorem Pc.agrees_of_none (h : pc.copy = none) : pc.Agrees d where
  copy d' hd := absurd hd (by simp [h])
  room c t d' hpc := absurd h (by simp [hpc, Pc.copy])

theorem readTask_of_record {ks : Keyspace Text} {t : TaskId} (h : recordOf ks t = some d) :
    readTask ks t = .found d := by
  obtain ⟨text, htext, hparse⟩ := bind_eq_some_iff.mp h
  simp [readTask, get_eq_bulk.mpr htext, hparse]

/-- A step of the thread that holds `t`, whose record is `d`. -/
inductive Turn (t : TaskId) (d : TaskData) (ks : Keyspace Text) (pc : Pc) (nx : Next) : Prop
  -- it goes on
  | keep (d' : TaskData) (record : recordOf nx.redis t = some d') (retries : d'.retries = d.retries)
      (holds : nx.pc.holds = some t) (agrees : nx.pc.Agrees d')
      (ran : nx.pc.ran = pc.ran + executions nx.events t)
      (queue : queueOf nx.redis = queueOf ks)
  -- it makes its last write, and the task is closed
  | close (d' : TaskData) (record : recordOf nx.redis t = some d')
      (retries : d'.retries = d.retries) (status : d'.status = .completed ∨ d'.status = .failed)
      (released : nx.pc.holds = none) (ran : executions nx.events t = 0)
      (queue : queueOf nx.redis = queueOf ks)
  -- it makes its last write, and the task is queued again
  | giveBack (record : recordOf nx.redis t = some d.requeued) (room : d.retries < 3)
      (released : nx.pc.holds = none) (ran : pc.ran = 1) (none : executions nx.events t = 0)
      (queue : ∀ u, u ∈ queueOf nx.redis ↔ u = t ∨ u ∈ queueOf ks)

section Turn

variable {i : Nat} {n : NodeId} {nd : Node} {ks : Keyspace Text} {inp : Input} {t : TaskId}
  {nx : Next}

theorem Turn.of_same (hrec : recordOf ks t = some d) (hks : Same ks nx.redis)
    (hev : nx.events = []) (hh : nx.pc.holds = some t) (ha : nx.pc.Agrees d)
    (hran : nx.pc.ran = pc.ran) : Turn t d ks pc nx :=
  .keep d ((hks.record t).trans hrec) rfl hh ha (by simp [hev, hran, executions]) hks.queue

theorem turn_store {u : Update} (hw : u.worker) (ht : t ≠ "queue")
    (h : (Pc.store u t d).exec i n nd ks inp = some nx) : Turn t d ks (.store u t d) nx := by
  cases h
  have hrec : recordOf (ks.set (taskKey t) (.taskData (u.apply n inp.now d))) t
      = some (u.apply n inp.now d) := by
    rw [recordOf_setTask, if_pos rfl]
  have hq : queueOf (ks.set (taskKey t) (.taskData (u.apply n inp.now d))) = queueOf ks :=
    queueOf_setTask ht
  have hret : (u.apply n inp.now d).retries = d.retries := Update.apply_retries ..
  cases u with
  | processing m at' =>
    refine .keep _ hrec hret rfl (Pc.agrees_of_none rfl) ?_ hq
    simp [Update.events, Update.return, Pc.ran, executions, Event.isExecution]
  | completed r at' => exact .close _ hrec hret (.inl rfl) rfl rfl hq
  | failed e at' =>
    by_cases he : isRetryableTask e = true
    · have hpc : Update.return t (.failed e at') = .requeue .execute t := if_pos he
      refine .keep _ hrec hret ?_ ?_ ?_ hq
      · simp only [hpc]; rfl
      · simp only [hpc]; exact Pc.agrees_of_none rfl
      · simp only [hpc]; rfl
    · have hpc : Update.return t (.failed e at') = .leave t := if_neg he
      refine .close _ hrec hret (.inr rfl) ?_ rfl hq
      simp only [hpc]; rfl
  | maxRetries c =>
    cases c with
    | execute => exact .close _ hrec hret (.inr rfl) rfl rfl hq
    | failover => cases hw

theorem turn_enqueue (ht : t ≠ "queue") (hz : ks.isZSet queueKey = true) (hroom : d.retries < 3)
    (h : (Pc.enqueue .execute t d).exec i n nd ks inp = some nx) :
    Turn t d ks (.enqueue .execute t d) nx := by
  cases h
  refine .giveBack ?_ hroom rfl rfl rfl fun u => mem_queueOf_put ht hz
  rw [recordOf_zadd, recordOf_setTask, if_pos rfl]

/-- **The holder's step**: it goes on, it closes the task, or it gives it back. -/
theorem turn_of_exec (hw : pc.worker) (hh : pc.holds = some t)
    (hrec : recordOf ks t = some d) (ha : pc.Agrees d) (ht : t ≠ "queue")
    (hz : ks.isZSet queueKey = true) (h : pc.exec i n nd ks inp = some nx) : Turn t d ks pc nx := by
  have hread := readTask_of_record hrec
  cases pc with
  | enter x => cases hh; cases h; exact .of_same hrec .setNode rfl rfl (Pc.agrees_of_none rfl) rfl
  | load x =>
    cases hh
    simp only [Pc.exec, hread] at h
    cases h
    exact .of_same hrec .refl rfl rfl (Pc.agrees_of_none rfl) rfl
  | process x m =>
    cases hh
    simp only [Pc.exec] at h
    split at h <;> cases h <;> exact .of_same hrec .refl rfl rfl (Pc.agrees_of_none rfl) rfl
  | update u x =>
    have hx : x = t := by
      cases u with
      | maxRetries c => cases c <;> simp_all [Pc.holds, Update.holds, Caller.holds]
      | _ => exact some.inj hh
    subst hx
    simp only [Pc.exec, hread] at h
    cases h
    refine .of_same hrec .refl rfl hh ⟨?_, ?_⟩ ?_
    · intro d' hd
      exact (some.inj hd).symm
    · intro c y d' hpc
      cases hpc
    · cases u <;> rfl
  | store u x d' =>
    have hx : x = t := by
      cases u with
      | maxRetries c => cases c <;> simp_all [Pc.holds, Update.holds, Caller.holds]
      | _ => exact some.inj hh
    cases hx
    cases ha.copy d' rfl
    exact turn_store hw ht h
  | requeue c x =>
    cases c with
    | failover => cases hw
    | execute =>
      cases hh
      simp only [Pc.exec, hread] at h
      split at h <;> cases h
      · exact .of_same hrec .refl rfl rfl (Pc.agrees_of_none rfl) rfl
      · refine .of_same hrec .refl rfl rfl ⟨?_, ?_⟩ rfl
        · intro d' hd
          exact (some.inj hd).symm
        · intro c y d' hpc
          omega
  | enqueue c x d' =>
    cases c with
    | failover => cases hw
    | execute =>
      cases hh
      cases ha.copy d' rfl
      exact turn_enqueue ht hz (ha.room _ _ _ rfl) h
  | _ => simp [Pc.holds] at hh

end Turn

variable {i : Nat} {nx : Next}

theorem exec_claim {n : NodeId} {nd : Node} {ks : Keyspace Text} {inp : Input}
    {t : TaskId} (h : Pc.claim.exec i n nd ks inp = some nx) (hpc : nx.pc = .enter t) :
    ∃ ks', ks.zpopmax queueKey = some (t, ks') ∧
      nx.redis = ks'.set (claimKey t) (.nodeId n) ∧ nx.events = [.claimed i t] := by
  simp only [Pc.exec] at h
  split at h <;> cases h
  · cases hpc
  · rename_i u ks' hpop
    have hclaimed : Pc.claimed u = .enter t := hpc
    obtain rfl : t = u := Pc.task_claimed (hclaimed ▸ rfl)
    exact ⟨ks', hpop, rfl, rfl⟩

section Others

variable {n : NodeId} {ks ks' : Keyspace Text} {now : Nat} {pc' : Pc}
  {evs : List Event} {t : TaskId}

theorem executions_eq_zero (h : ∀ ev ∈ evs, Event.isExecution t ev = false) :
    executions evs t = 0 := by
  rw [executions, countP_eq_zero]
  intro ev hev
  simp [h ev hev]

theorem executions_of_effect (h : Effect i n ks now pc ks' pc' evs) (ht : pc.holds ≠ some t) :
    executions evs t = 0 := by
  refine executions_eq_zero fun ev hev => ?_
  -- the events of an execution are of a task the thread was executing
  have hexec : ∀ u, ev = .executed i u → pc.holds = some u → Event.isExecution t ev = false := by
    rintro u rfl hu
    have hne : u ≠ t := fun h => ht (h ▸ hu)
    simp [Event.isExecution, hne]
  cases h with
  | claim | enqueue => rcases mem_singleton.mp hev with rfl; rfl
  | release | prioritize => cases hev
  | store u x d =>
    rcases mem_append.mp hev with hev | hev
    · obtain ⟨hx, rfl⟩ := Update.events_executing ev hev
      exact hexec x rfl (Pc.holds_of_executing hx : (Pc.update u x).holds = some x)
    · rcases mem_singleton.mp hev with rfl
      rfl
  | quiet _ _ hevs =>
    obtain ⟨u, hu, rfl⟩ := hevs ev hev
    exact hexec u rfl (Pc.holds_of_executing hu)

theorem Pc.holds_store {u : Update} {x : TaskId} (hw : (Pc.store u x d).worker) :
    (Pc.store u x d).holds = some x := by
  cases u with
  | maxRetries c =>
    cases c with
    | execute => rfl
    | failover => cases hw
  | _ => rfl

theorem Pc.holds_enqueue {c : Caller} {x : TaskId} (hw : (Pc.enqueue c x d).worker) :
    (Pc.enqueue c x d).holds = some x := by
  cases c with
  | execute => rfl
  | failover => cases hw

section Effect

variable (h : Effect i n ks now pc ks' pc' evs)
include h

theorem record_of_effect (hw : pc.worker)
    (hclaim : ∀ x, pc.task = some x ∨ x ∈ queueOf ks → t ≠ "claim:" ++ x)
    (ht : pc.holds ≠ some t) : recordOf ks' t = recordOf ks t := by
  cases h with
  | @claim x ks' hpop =>
    rw [recordOf_setClaim (hclaim x (.inr (mem_of_zpopmax hpop))), recordOf_zpopmax hpop]
  | store u x d =>
    rw [recordOf_setTask, if_neg]
    rintro rfl
    exact ht (Pc.holds_store hw)
  | enqueue c x d =>
    rw [recordOf_zadd, recordOf_setTask, if_neg]
    rintro rfl
    exact ht (Pc.holds_enqueue hw)
  | release x => exact recordOf_delClaim (hclaim x (.inl rfl))
  | prioritize => cases hw
  | quiet hsame _ _ => exact hsame.record t

theorem queue_of_effect (hw : pc.worker)
    (hz : ks.isZSet queueKey = true) (hid : ∀ x, pc.holds = some x → x ≠ "queue")
    (hempty : "" ∉ queueOf ks) (ht : pc.holds ≠ some t) (ht' : pc'.holds ≠ some t) :
    t ∈ queueOf ks' ↔ t ∈ queueOf ks := by
  cases h with
  | @claim x ks' hpop =>
    have hx : x ≠ "" := fun hx => hempty (hx ▸ mem_of_zpopmax hpop)
    have hne : t ≠ x := fun h => ht' (by rw [Pc.claimed, if_neg hx, h]; rfl)
    rw [queueOf_setClaim, mem_queueOf_zpopmax hpop]
    exact ⟨fun h => h.2, fun h => ⟨hne, h⟩⟩
  | store u x d => rw [queueOf_setTask (hid x (Pc.holds_store hw))]
  | enqueue c x d =>
    have hx := Pc.holds_enqueue hw
    have hne : t ≠ x := fun h => ht (h ▸ hx)
    rw [mem_queueOf_put (hid x hx) hz]
    exact ⟨fun h => h.resolve_left hne, .inr⟩
  | release x => rw [queueOf_delClaim]
  | prioritize => cases hw
  | quiet hsame _ _ => rw [hsame.queue]

theorem isZSet_of_effect (hw : pc.worker)
    (hz : ks.isZSet queueKey = true) (hid : ∀ x, pc.holds = some x → x ≠ "queue") :
    ks'.isZSet queueKey = true := by
  cases h with
  | claim hpop =>
    rw [isZSet_set_ne claimKey_ne_queueKey.symm]
    exact isZSet_zpopmax hpop hz
  | store u x d => exact isZSet_setTask (hid x (Pc.holds_store hw)) hz
  | enqueue c x d => exact isZSet_zadd (isZSet_setTask (hid x (Pc.holds_enqueue hw)) hz)
  | release x => exact isZSet_del hz
  | prioritize => cases hw
  | quiet hsame _ _ => rw [hsame.isZSet]; exact hz

end Effect

end Others

namespace Cluster

/-! ## The books of a cluster -/

/-- Where a task with record `d` is, and how often it has been executed. -/
inductive Place (s : Cluster) (t : TaskId) (d : TaskData) : Prop
  | queued (mem : t ∈ queueOf s.redis) (ran : executions s.history t = d.retries)
  | held (i : Nat) (p : Proc) (proc : s.procs[i]? = some p) (holds : p.pc.holds = some t)
      (agrees : p.pc.Agrees d) (ran : executions s.history t = d.retries + p.pc.ran)
  | closed (status : d.status = .completed ∨ d.status = .failed) (notQueued : t ∉ queueOf s.redis)
      (free : ∀ i, ¬ s.holds i t) (ran : executions s.history t ≤ d.retries + 1)

structure Accounted (s : Cluster) (t : TaskId) (d : TaskData) : Prop where
  record : recordOf s.redis t = some d
  retries : d.retries ≤ 3
  place : Place s t d

/-- The step leaves the task alone: its record, its place in the queue, its holders and its
executions. -/
structure Untouched (s s' : Cluster) (t : TaskId) : Prop where
  record : recordOf s'.redis t = recordOf s.redis t
  queued : t ∈ queueOf s'.redis ↔ t ∈ queueOf s.redis
  ran : executions s'.history t = executions s.history t
  kept : ∀ {i : Nat} {p : Proc}, s.procs[i]? = some p → p.pc.holds = some t → s'.procs[i]? = some p
  held : ∀ {i : Nat}, s'.holds i t → s.holds i t

variable {s s' : Cluster} {t : TaskId}

theorem Accounted.untouched (h : s.Accounted t d) (hu : Untouched s s' t) : s'.Accounted t d := by
  refine ⟨hu.record.trans h.record, h.retries, ?_⟩
  cases h.place with
  | queued hm hr => exact .queued (hu.queued.mpr hm) (hu.ran.trans hr)
  | held i p hp hh ha hr => exact .held i p (hu.kept hp hh) hh ha (hu.ran.trans hr)
  | closed hst hq hf hr =>
    refine .closed hst (fun hm => hq (hu.queued.mp hm)) (fun i hi => hf i (hu.held hi)) ?_
    rw [hu.ran]
    exact hr

variable {p : Proc}

theorem untouched_of_thread (hp : s.procs[i]? = some p) (hks : s'.redis = nx.redis)
    (hps : s'.procs = s.procs.set i ⟨p.node, nx.pc⟩) (hev : s'.history = nx.events ++ s.history)
    (hrec : recordOf nx.redis t = recordOf s.redis t)
    (hq : t ∈ queueOf nx.redis ↔ t ∈ queueOf s.redis) (hran : executions nx.events t = 0)
    (hh : p.pc.holds ≠ some t) (hh' : nx.pc.holds ≠ some t) : Untouched s s' t where
  record := hks ▸ hrec
  queued := hks ▸ hq
  ran := by rw [hev, executions_append, hran, Nat.zero_add]
  kept := by
    intro j q hj hqt
    rw [hps, getElem?_set_ne]
    · exact hj
    · rintro rfl
      cases hp.symm.trans hj
      exact hh hqt
  held := by
    intro j hx
    obtain ⟨q, hj, hqt⟩ := hx
    rw [hps, getElem?_set] at hj
    split_ifs at hj with hij hlt
    · cases hj
      exact absurd hqt hh'
    · exact ⟨q, hj, hqt⟩

/-- The books: a plain run whose queue is a sorted set, with every submitted task accounted for and
no execution of any other. -/
structure Books (s : Cluster) : Prop where
  plain : Plain s
  isZSet : s.redis.isZSet queueKey = true
  ids : ∀ t, s.submitted t → t ≠ "queue" ∧ t ≠ ""
  accounted : ∀ t, s.submitted t → ∃ d, s.Accounted t d
  unborn : ∀ t, ¬ s.submitted t → executions s.history t = 0

/-- No id is `queue`, which would make the record the queue and `ZADD` answer `WRONGTYPE`, or
empty, which `processNextTask` drops. -/
def Named : Action → Prop
  | .submit _ m _ => m.id ≠ "queue" ∧ m.id ≠ ""
  | _ => True

def Bookable (s : Cluster) (a : Action) : Prop := s.Working a ∧ Named a

/-! ## Every step keeps the books -/

theorem books_init : Books init where
  plain := plain_init
  isZSet := rfl
  ids t ht := absurd ht (by simp [submitted, init])
  accounted t ht := absurd ht (by simp [submitted, init])
  unborn t _ := rfl

theorem Books.submit (h : Books s) {n : NodeId} {m : Message} {now : Nat}
    (hplain : Plain (s.submitTask n m now)) (hfresh : ¬ s.submitted m.id)
    (hids : m.id ≠ "queue" ∧ m.id ≠ "") : Books (s.submitTask n m now) := by
  have hqueue : ∀ {t}, t ∈ queueOf (s.submitTask n m now).redis ↔ t = m.id ∨ t ∈ queueOf s.redis :=
    mem_queueOf_put hids.1 h.isZSet
  have hran : ∀ t, executions (s.submitTask n m now).history t = executions s.history t := by
    intro t
    simp [executions, submitTask, Event.isExecution]
  have hother : ∀ t, t ≠ m.id → Untouched s (s.submitTask n m now) t := by
    intro t ht
    refine ⟨?_, ?_, hran t, fun hp _ => hp, fun hh => hh⟩
    · rw [submitTask, recordOf_zadd, recordOf_setTask, if_neg ht]
    · rw [hqueue]
      exact ⟨fun hm => hm.resolve_left ht, .inr⟩
  refine ⟨hplain, isZSet_zadd (isZSet_setTask hids.1 h.isZSet), ?_, ?_, ?_⟩
  · intro t ht
    rcases submitted_submitTask.mp ht with rfl | ht
    · exact hids
    · exact h.ids t ht
  · intro t ht
    by_cases heq : t = m.id
    · subst heq
      refine ⟨m.taskData n now, ?_, by simp, .queued (hqueue.mpr (.inl rfl)) ?_⟩
      · rw [submitTask, recordOf_zadd, recordOf_setTask, if_pos rfl]
      · rw [hran, h.unborn _ hfresh, Message.taskData_retries]
    · obtain ⟨d, hd⟩ := h.accounted t ((submitted_submitTask.mp ht).resolve_left heq)
      exact ⟨d, hd.untouched (hother t heq)⟩
  · intro t ht
    rw [hran]
    exact h.unborn t fun hs => ht (submitted_submitTask.mpr (.inr hs))

theorem Books.spawn (h : Books s) (hplain : Plain s') {n : NodeId} (htask : pc.task = none)
    (hks : Same s.redis s'.redis) (hps : s'.procs = s.procs ++ [⟨n, pc⟩])
    (hev : s'.history = s.history) : Books s' := by
  have hsub : ∀ {t}, s'.submitted t ↔ s.submitted t := by simp [submitted, hev]
  have hall : ∀ t, Untouched s s' t := by
    intro t
    refine ⟨hks.record t, by rw [hks.queue], by rw [hev], ?_, ?_⟩
    · intro i p hp _
      obtain ⟨hlt, -⟩ := List.getElem?_eq_some_iff.mp hp
      rw [hps, List.getElem?_append_left hlt]
      exact hp
    · have hnone : pc.holds = none := by
        cases hpc : pc.holds with
        | none => rfl
        | some u => exact absurd (Pc.task_of_holds hpc) (by simp [htask])
      have hthreads : Threads s.procs s'.procs := hps ▸ .spawn n pc hnone
      exact fun _ hh => holds_of_threads hthreads hh
  refine ⟨hplain, hks.isZSet.trans h.isZSet, fun t ht => h.ids t (hsub.mp ht), ?_, ?_⟩
  · intro t ht
    obtain ⟨d, hd⟩ := h.accounted t (hsub.mp ht)
    exact ⟨d, hd.untouched (hall t)⟩
  · intro t ht
    rw [hev]
    exact h.unborn t fun hs => ht (hsub.mpr hs)

theorem Accounted.of_holds (h : s.Accounted t d)
    (he : Exclusive s.ledger) (hp : s.procs[i]? = some p) (hh : p.pc.holds = some t) :
    p.pc.Agrees d ∧ executions s.history t = d.retries + p.pc.ran := by
  have hold : s.holds i t := ⟨p, hp, hh⟩
  cases h.place with
  | queued hm _ => exact absurd hm (he.held_not_queued hold)
  | closed _ _ hf _ => exact absurd hold (hf i)
  | held j q hq hqh ha hr =>
    have hij : j = i := he.held_unique ⟨q, hq, hqh⟩ hold
    subst hij
    cases hp.symm.trans hq
    exact ⟨ha, hr⟩

theorem Accounted.turn (h : s.Accounted t d) (he : Exclusive s.ledger) (hp : s.procs[i]? = some p)
    (hh : p.pc.holds = some t) (hks : s'.redis = nx.redis)
    (hps : s'.procs = s.procs.set i ⟨p.node, nx.pc⟩) (hev : s'.history = nx.events ++ s.history)
    (hturn : Turn t d s.redis p.pc nx) : ∃ d', s'.Accounted t d' := by
  obtain ⟨-, hran⟩ := h.of_holds he hp hh
  have hold : s.holds i t := ⟨p, hp, hh⟩
  have hret := h.retries
  have hcount : executions s'.history t = executions nx.events t + executions s.history t := by
    rw [hev, executions_append]
  cases hturn with
  | keep d' hrec hret' hh' ha hran' hq =>
    refine ⟨d', hks ▸ hrec, by omega, .held i ⟨p.node, nx.pc⟩ ?_ hh' ha ?_⟩
    · obtain ⟨hlt, -⟩ := List.getElem?_eq_some_iff.mp hp
      rw [hps, List.getElem?_set_self hlt]
    · show executions s'.history t = d'.retries + nx.pc.ran
      omega
  | close d' hrec hret' hst hrel hzero hq =>
    have hran1 := p.pc.ran_le_one
    refine ⟨d', hks ▸ hrec, by omega, .closed hst ?_ ?_ (by omega)⟩
    · rw [hks, hq]
      exact he.held_not_queued hold
    · intro j hx
      obtain ⟨q, hj, hqt⟩ := hx
      rw [hps, getElem?_set] at hj
      split_ifs at hj with hij hlt
      · cases hj
        simp [hrel] at hqt
      · exact hij (he.held_unique hold ⟨q, hj, hqt⟩)
  | giveBack hrec hroom hrel hran1 hzero hq =>
    refine ⟨d.requeued, hks ▸ hrec, ?_, .queued ?_ ?_⟩
    · rw [TaskData.requeued_retries]
      omega
    · rw [hks]
      exact (hq t).mpr (.inl rfl)
    · rw [TaskData.requeued_retries]
      omega

theorem Accounted.claim (h : s.Accounted t d) (he : Exclusive s.ledger) {ks' : Keyspace Text}
    (hp : s.procs[i]? = some p) (hpop : s.redis.zpopmax queueKey = some (t, ks'))
    (hks : s'.redis = ks'.set (claimKey t) (.nodeId p.node))
    (hps : s'.procs = s.procs.set i ⟨p.node, .enter t⟩)
    (hev : s'.history = .claimed i t :: s.history) : s'.Accounted t d := by
  have hmem : t ∈ queueOf s.redis := mem_of_zpopmax hpop
  have hran : executions s.history t = d.retries := by
    cases h.place with
    | queued _ hr => exact hr
    | held j q hq hqh _ _ => exact absurd hmem (he.held_not_queued ⟨q, hq, hqh⟩)
    | closed _ hnq _ _ => exact absurd hmem hnq
  refine ⟨?_, h.retries, .held i ⟨p.node, .enter t⟩ ?_ rfl (Pc.agrees_of_none rfl) ?_⟩
  · rw [hks, recordOf_setClaim (ne_claim_self t), recordOf_zpopmax hpop]
    exact h.record
  · obtain ⟨hlt, -⟩ := List.getElem?_eq_some_iff.mp hp
    rw [hps, List.getElem?_set_self hlt]
  · rw [hev]
    exact hran

theorem Books.thread (h : Books s) (hplain : Plain s') {inp : Input} (hp : s.procs[i]? = some p)
    (hnx : p.pc.exec i p.node (s.nodes p.node) s.redis inp = some nx)
    (hks : s'.redis = nx.redis) (hps : s'.procs = s.procs.set i ⟨p.node, nx.pc⟩)
    (hev : s'.history = nx.events ++ s.history) : Books s' := by
  have heff := exec_effect hnx
  have hmem := mem_of_getElem? hp
  have hw := h.plain.worker p hmem
  have he := h.plain.exclusive
  have hsub : ∀ {t}, s'.submitted t ↔ s.submitted t := by
    intro t
    simp [submitted, hev, heff.not_submitted]
  have hholds : ∀ x, p.pc.holds = some x → s.submitted x := fun x hx =>
    h.plain.task p hmem x (Pc.task_of_holds hx)
  have hid : ∀ x, p.pc.holds = some x → x ≠ "queue" := fun x hx => (h.ids x (hholds x hx)).1
  have hempty : "" ∉ queueOf s.redis := fun hm => (h.ids "" (he.queued_born hm)).2 rfl
  have hother : ∀ t, s.submitted t → p.pc.holds ≠ some t → nx.pc.holds ≠ some t →
      Untouched s s' t := by
    intro t ht hne hne'
    refine untouched_of_thread hp hks hps hev ?_
      (queue_of_effect heff hw h.isZSet hid hempty hne hne') (executions_of_effect heff hne) hne
        hne'
    refine record_of_effect heff hw (fun x hx => h.plain.apart t x ht ?_) hne
    exact hx.elim (h.plain.task p hmem x) he.queued_born
  refine ⟨hplain, hks ▸ isZSet_of_effect heff hw h.isZSet hid,
    fun t ht => h.ids t (hsub.mp ht), ?_, ?_⟩
  · intro t ht
    have hborn := hsub.mp ht
    obtain ⟨d, hd⟩ := h.accounted t hborn
    by_cases hh : p.pc.holds = some t
    · obtain ⟨hagrees, -⟩ := hd.of_holds he hp hh
      exact hd.turn he hp hh hks hps hev
        (turn_of_exec hw hh hd.record hagrees (h.ids t hborn).1 h.isZSet hnx)
    · by_cases hh' : nx.pc.holds = some t
      · -- the thread takes hold of `t`, which only the claim script does
        rcases heff.keeps with hk | ⟨u, -, hpc, hpc'⟩
        · exact absurd (hk.holds t hh') hh
        · obtain ⟨ks', hpop, hks', hev'⟩ := exec_claim (hpc ▸ hnx) hpc'
          rw [hpc'] at hh' hps
          cases hh'
          exact ⟨d, hd.claim he hp hpop (hks.trans hks') hps (by rw [hev, hev']; rfl)⟩
      · exact ⟨d, hd.untouched (hother t hborn hh hh')⟩
  · intro t ht
    have hunborn : ¬ s.submitted t := fun hs => ht (hsub.mpr hs)
    rw [hev, executions_append, h.unborn t hunborn]
    exact executions_of_effect heff fun hh => hunborn (hholds t hh)

/-- **A step of a run without failover keeps the books.** -/
theorem Books.step {a : Action} (h : Books s) (ha : s.Bookable a)
    (hs : s.step a = some s') : Books s' := by
  have hplain := h.plain.step ha.1 hs
  cases work_of_step h.plain.worker ha.1 hs with
  | submit n m now hfresh _ hstate => exact hstate ▸ h.submit (hstate ▸ hplain) hfresh ha.2
  | spawn n pc _ htask hks hps hev => exact h.spawn hplain htask hks hps hev
  | thread i inp p nx hp hnx hks hps hev => exact h.thread hplain hp hnx hks hps hev

theorem books_of_reaches (h : Reaches Cluster.step Bookable init s) : Books s :=
  h.invariant Books books_init fun hb ha hs => hb.step ha hs

/-- **Every submitted task is in exactly one place**: queued, held by exactly one `executeTask`, or
closed; it has been retried at most three times and executed at most four times. -/
theorem every_task_in_one_place {s : Cluster} (h : Reaches Cluster.step Bookable init s)
    (t : TaskId) (ht : s.submitted t) :
    ∃ d, recordOf s.redis t = some d ∧ d.retries ≤ 3 ∧ executions s.history t ≤ 4 ∧
      ((t ∈ queueOf s.redis ∧ ¬ ∃ i, s.holds i t) ∨ (t ∉ queueOf s.redis ∧ ∃! i, s.holds i t) ∨
        ((d.status = .completed ∨ d.status = .failed) ∧ t ∉ queueOf s.redis ∧
          ¬ ∃ i, s.holds i t)) := by
  have hb := books_of_reaches h
  have he := hb.plain.exclusive
  obtain ⟨d, hd⟩ := hb.accounted t ht
  have hret := hd.retries
  refine ⟨d, hd.record, hret, ?_⟩
  cases hd.place with
  | queued hm hr =>
    refine ⟨by omega, .inl ⟨hm, ?_⟩⟩
    intro hx
    obtain ⟨i, hi⟩ := hx
    exact he.held_not_queued hi hm
  | held i p hp hh _ hr =>
    have hran := p.pc.ran_le_one
    have hold : s.holds i t := ⟨p, hp, hh⟩
    exact ⟨by omega, .inr (.inl ⟨he.held_not_queued hold, i, hold,
      fun j hj => he.held_unique hj hold⟩)⟩
  | closed hst hq hf hr =>
    refine ⟨by omega, .inr (.inr ⟨hst, hq, ?_⟩)⟩
    intro hx
    obtain ⟨i, hi⟩ := hx
    exact hf i hi

theorem exists_holds_iff : (∃ i, s.holds i t) ↔ ∃ p ∈ s.procs, p.pc.holds = some t := by
  constructor
  · intro hx
    obtain ⟨i, p, hp, ht⟩ := hx
    exact ⟨p, mem_of_getElem? hp, ht⟩
  · intro hx
    obtain ⟨p, hp, ht⟩ := hx
    obtain ⟨i, hi⟩ := mem_iff_getElem?.mp hp
    exact ⟨i, p, hi, ht⟩

instance : (a : Action) → Decidable (Named a)
  | .submit _ m _ => inferInstanceAs (Decidable (m.id ≠ "queue" ∧ m.id ≠ ""))
  | .step .. | .tick _ | .heartbeat _ | .publishPriority .. | .receive _ | .reject ..
  | .expireHeartbeat _ | .crash _ | .start .. | .shutdown _ => .isTrue trivial

instance (s : Cluster) (a : Action) : Decidable (s.Bookable a) :=
  inferInstanceAs (Decidable (_ ∧ _))

theorem claim_deletes_record : ∃ s, exec step init ([.start "a" 0, .run 0 [], .run 0 [], .run 0 [],
        .submit "a" ⟨"x", "code", none⟩ 1, .submit "a" ⟨"claim:x", "code", none⟩ 0, .tick "a"] ++
        replicate 11 (.run 1 []) ++ [.tick "a"] ++ replicate 7 (.run 2 [])) = some s ∧
      s.submitted "claim:x" ∧ "claim:x" ∉ queueOf s.redis ∧ (¬ ∃ i, s.holds i "claim:x") ∧
      recordOf s.redis "claim:x" = none := by
  refine ⟨_, rfl, by decide, by decide, ?_, rfl⟩
  rw [exists_holds_iff]
  decide

/-- The empty id is claimed, and then it is nowhere, its record for ever `queued`. -/
example : ∃ s, exec step init [.start "a" 0, .run 0 [], .run 0 [], .run 0 [],
      .submit "a" ⟨"", "code", none⟩ 0, .tick "a", .run 1 []] = some s ∧
    s.submitted "" ∧ "" ∉ queueOf s.redis ∧ (∀ p ∈ s.procs, p.pc = .done) ∧
    (recordOf s.redis "").map TaskData.status = some .queued :=
  ⟨_, rfl, by decide, by decide, by decide, rfl⟩

theorem retried_task_in_one_place :
    ∃ s, execIf step Bookable init (requeuedByA ++ .tick "b" :: replicate 5 (.run 3 [])) =
        some s ∧ s.submitted "t" ∧ executions s.history "t" = 2 ∧
      ∃ d, recordOf s.redis "t" = some d ∧ d.retries ≤ 3 ∧ executions s.history "t" ≤ 4 ∧
        (("t" ∈ queueOf s.redis ∧ ¬ ∃ i, s.holds i "t") ∨
          ("t" ∉ queueOf s.redis ∧ ∃! i, s.holds i "t") ∨
          ((d.status = .completed ∨ d.status = .failed) ∧ "t" ∉ queueOf s.redis ∧
            ¬ ∃ i, s.holds i "t")) := by
  obtain ⟨s, hs, ht, hran⟩ : ∃ s, execIf step Bookable init
      (requeuedByA ++ .tick "b" :: replicate 5 (.run 3 [])) = some s ∧
      s.submitted "t" ∧ executions s.history "t" = 2 :=
    ⟨_, rfl, by decide, rfl⟩
  exact ⟨s, hs, ht, hran, every_task_in_one_place (reaches_of_execIf hs) "t" ht⟩

end Cluster

end Bridge.Distributed
