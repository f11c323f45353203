import Bridge.Distributed.Effect
import Bridge.Lib.Ledger

/-!
# One node at a time

Who is working on a task? The claim script is atomic, so a task that is in the queue once is
claimed once. But two handlers put ids back in the queue without looking at a running execution:
`handleNodeFailover`, through `requeueTask`, and `handlePriorityUpdate`, whose `ZADD` adds the id
when it is not there. This file says what holds in spite of them and under which condition.
-/

namespace Bridge.Distributed

open Lib List

namespace Cluster

/-- Thread `i` holds task `t`. -/
def holds (s : Cluster) (i : Nat) (t : TaskId) : Prop :=
  ∃ p, s.procs[i]? = some p ∧ p.pc.holds = some t

def submitted (s : Cluster) (t : TaskId) : Prop := .submitted t ∈ s.history

def completed (s : Cluster) (t : TaskId) : Prop := .recorded t .completed ∈ s.history

def ledger (s : Cluster) : Ledger TaskId Nat where
  born := {t | s.submitted t}
  queued := {t | t ∈ queueOf s.redis}
  held := s.holds
  completed := {t | s.completed t}

/-- What a handler may queue: a submitted task that nobody holds and that has not completed. -/
def Idle (s : Cluster) (t : TaskId) : Prop :=
  s.submitted t ∧ (∀ p ∈ s.procs, p.pc.holds ≠ some t) ∧ ¬ s.completed t

variable {s : Cluster} {t : TaskId}

theorem Idle.free (h : s.Idle t) (i : Nat) : ¬ s.holds i t := by
  intro hx
  obtain ⟨p, hp, ht⟩ := hx
  exact h.2.1 p (mem_of_getElem? hp) ht

variable {i : Nat} {p : Proc} {n : NodeId}

theorem getElem?_killProcs {ps : List Proc}
    (h : (killProcs n ps)[i]? = some p) : ps[i]? = some p ∨ p.pc = .done := by
  simp only [killProcs, getElem?_map, Option.map_eq_some_iff] at h
  obtain ⟨q, hq, rfl⟩ := h
  split_ifs
  · exact .inr rfl
  · exact .inl hq

variable {s' : Cluster}

theorem holds_of_threads (h : Threads s.procs s'.procs) {i : Nat} {t : TaskId}
    (hh : s'.holds i t) : s.holds i t := by
  obtain ⟨p, hp, ht⟩ := hh
  generalize s'.procs = ps at h hp
  cases h with
  | same => exact ⟨p, hp, ht⟩
  | spawn n pc hpc =>
    rw [getElem?_append] at hp
    split at hp
    · exact ⟨p, hp, ht⟩
    · rcases mem_singleton.mp (mem_of_getElem? hp) with rfl
      simp [hpc] at ht
  | kill n =>
    rcases getElem?_killProcs hp with hp | hd
    · exact ⟨p, hp, ht⟩
    · simp [hd, Pc.holds] at ht

variable {nx : Next}

theorem holds_of_advance {j : Nat} (h : (s.advance i n nx).holds j t) :
    (j = i ∧ nx.pc.holds = some t) ∨ (j ≠ i ∧ s.holds j t) := by
  obtain ⟨p, hp, ht⟩ := h
  have hset : (s.procs.set i ⟨n, nx.pc⟩)[j]? = some p := by
    simp only [advance] at hp
    split at hp
    · exact hp
    · refine (getElem?_killProcs hp).resolve_right fun hd => ?_
      simp [hd, Pc.holds] at ht
  rw [getElem?_set] at hset
  split_ifs at hset with hij hlt
  · cases hset
    exact .inl ⟨hij.symm, ht⟩
  · exact .inr ⟨fun h => hij h.symm, p, hset, ht⟩

/-! ## Every step is a move -/

def Fresh (s : Cluster) (a : Action) : Prop :=
  match a with
  | .submit _ m _ => ¬ s.submitted m.id
  | _ => True

def NoReject (a : Action) : Prop :=
  match a with
  | .reject .. => False
  | _ => True

/-- **The condition**: a handler that is not the task's own `executeTask` queues an idle task
only. -/
def Careful (s : Cluster) (a : Action) : Prop :=
  match a with
  | .step i _ => ∀ p ∈ s.procs[i]?, ∀ t ∈ p.pc.foreign, s.Idle t
  | _ => True

theorem move_of_same (hks : Same s.redis s'.redis)
    (hps : Threads s.procs s'.procs) (hev : s'.history = s.history) :
    Move s.ledger s'.ledger "" := by
  refine Move.quiet "" ?_ (fun i t => holds_of_threads hps) ?_ ?_
  · intro u (hu : u ∈ queueOf s'.redis)
    rw [hks.queue] at hu
    exact hu
  · intro u hu
    simpa [ledger, completed, hev] using hu
  · intro u hu
    simpa [ledger, submitted, hev] using hu

theorem submitted_submitTask {m : Message} {now : Nat} :
    (s.submitTask n m now).submitted t ↔ t = m.id ∨ s.submitted t := by
  simp [submitted, submitTask]

theorem move_submit {m : Message} {now : Nat} (hf : ¬ s.submitted m.id) :
    Move s.ledger (s.submitTask n m now).ledger m.id := by
  have hcomp : ∀ u, (s.submitTask n m now).completed u → s.completed u := by
    intro u hu
    simpa [completed, submitTask] using hu
  refine ⟨.submit hf (submitted_submitTask.mpr (.inl rfl)) (fun _ => id) (hcomp m.id), ?_,
    fun _ _ _ => id, fun u _ => hcomp u, fun u hu => submitted_submitTask.mpr (.inr hu)⟩
  intro u hu (hm : u ∈ queueOf (s.submitTask n m now).redis)
  exact mem_queueOf_setTask ((mem_queueOf_of_zadd hm).resolve_left hu)

/-- The frame of a thread's step: the queue, the holders and the completions change at one task,
so that what is left is what happens there. -/
theorem move_of_advance (hp : s.procs[i]? = some p)
    (hq : ∀ u, u ≠ t → u ∈ queueOf nx.redis → u ∈ queueOf s.redis)
    (hh : ∀ u, u ≠ t → nx.pc.holds = some u → p.pc.holds = some u)
    (hc : ∀ u, u ≠ t → .recorded u .completed ∉ nx.events)
    (hat : Move.At s.ledger (s.advance i p.node nx).ledger t) :
    Move s.ledger (s.advance i p.node nx).ledger t where
  at_item := hat
  queued_ne := hq
  held_ne := by
    intro u hu a ha
    rcases holds_of_advance ha with ⟨rfl, h⟩ | ⟨-, h⟩
    · exact ⟨p, hp, hh u hu h⟩
    · exact h
  completed_ne := by
    intro u hu hm
    exact (mem_append.mp hm).resolve_left (hc u hu)
  born_mono := by
    intro u hm
    exact mem_append_right _ hm

theorem held_of_advance
    (hp : s.procs[i]? = some p) (hh : nx.pc.holds = some t → p.pc.holds = some t) :
    ∀ a, (s.advance i p.node nx).ledger.held a t → s.ledger.held a t := by
  intro a ha
  rcases holds_of_advance ha with ⟨rfl, h⟩ | ⟨-, h⟩
  · exact ⟨p, hp, hh h⟩
  · exact h

theorem completed_of_advance (hc : .recorded t .completed ∉ nx.events) :
    t ∈ (s.advance i p.node nx).ledger.completed → t ∈ s.ledger.completed := by
  intro hm
  exact (mem_append.mp hm).resolve_left hc

theorem not_completed_of_silent {evs : List Event} (h : ∀ ev ∈ evs, ev.silent) (t : TaskId) :
    .recorded t .completed ∉ evs :=
  fun hm => h _ hm

section Thread

variable (hp : s.procs[i]? = some p)
include hp

theorem move_claim {ks' : Keyspace Text} (hpop : s.redis.zpopmax queueKey = some (t, ks'))
    (hks : nx.redis = ks'.set (claimKey t) (.nodeId p.node)) (hpc : nx.pc = .claimed t)
    (hev : nx.events = [.claimed i t]) : Move s.ledger (s.advance i p.node nx).ledger t := by
  have hqueue : ∀ u, u ∈ queueOf nx.redis ↔ u ≠ t ∧ u ∈ queueOf s.redis := by
    intro u
    rw [hks, queueOf_setClaim]
    exact mem_queueOf_zpopmax hpop
  have hnc : ∀ u, .recorded u .completed ∉ nx.events := by simp [hev]
  refine move_of_advance hp (fun u _ hm => ((hqueue u).mp hm).2) ?_ (fun u _ => hnc u) ?_
  · intro u hu h
    rw [hpc] at h
    exact absurd (Pc.task_claimed (Pc.task_of_holds h)) hu
  · refine .claim i (mem_of_zpopmax hpop) (fun hm => ((hqueue t).mp hm).1 rfl) ?_
      (completed_of_advance (hnc t))
    intro a ha
    exact (holds_of_advance ha).imp (fun h => h.1) (fun h => h.2)

theorem move_store {u : Update} {d d' : TaskData} (hpc : p.pc = .store u t d)
    (hks : nx.redis = s.redis.set (taskKey t) (.taskData d')) (hpc' : nx.pc = u.return t)
    (hev : nx.events = u.events i t ++ [.recorded t u.status]) :
    Move s.ledger (s.advance i p.node nx).ledger t := by
  have hq : ∀ x, x ∈ queueOf nx.redis → x ∈ queueOf s.redis := by
    intro x hx
    rw [hks] at hx
    exact mem_queueOf_setTask hx
  have hh : ∀ x, nx.pc.holds = some x → p.pc.holds = some x := by
    rw [hpc, hpc']
    exact Update.store_keeps.holds
  have hc : ∀ x, x ≠ t ∨ u.status ≠ .completed → .recorded x .completed ∉ nx.events := by
    intro x hx hm
    rw [hev] at hm
    rcases mem_append.mp hm with hm | hm
    · exact Update.events_silent _ hm
    · rcases hx with hx | hx <;> simp_all
  refine move_of_advance hp (fun x _ => hq x) (fun x _ => hh x) (fun x hx => hc x (.inl hx)) ?_
  by_cases hu : u.status = .completed
  · obtain ⟨r, at', rfl⟩ : ∃ r at', u = .completed r at' := by
      cases u <;> simp_all [Update.status]
    refine .complete i ⟨p, hp, by rw [hpc]; rfl⟩ (hq t) ?_
    intro b hb
    rcases holds_of_advance hb with ⟨-, h⟩ | h
    · rw [hpc'] at h
      simp [Update.return, Pc.holds] at h
    · exact h
  · exact .keep (hq t) (held_of_advance hp (hh t)) (completed_of_advance (hc t (.inr hu)))

theorem move_enqueue {c : Caller} {d d' : TaskData} {sc : Int} (hpc : p.pc = .enqueue c t d)
    (hidle : p.pc.foreign = some t → s.Idle t)
    (hks : nx.redis = (s.redis.set (taskKey t) (.taskData d')).zadd queueKey sc t)
    (hpc' : nx.pc = c.return t) (hev : nx.events = [.recorded t .queued]) :
    Move s.ledger (s.advance i p.node nx).ledger t := by
  have hq : ∀ x, x ≠ t → x ∈ queueOf nx.redis → x ∈ queueOf s.redis := by
    intro x hx hm
    rw [hks] at hm
    exact mem_queueOf_setTask ((mem_queueOf_of_zadd hm).resolve_left hx)
  have hnone : nx.pc.holds = none := by rw [hpc']; cases c <;> rfl
  have hh : ∀ x, nx.pc.holds = some x → p.pc.holds = some x := by simp [hnone]
  have hc : ∀ x, .recorded x .completed ∉ nx.events := by simp [hev]
  refine move_of_advance hp hq (fun x _ => hh x) (fun x _ => hc x) ?_
  cases c with
  | execute =>
    refine .giveBack i ⟨p, hp, by rw [hpc]; rfl⟩ ?_ (completed_of_advance (hc t))
    intro b hb
    rcases holds_of_advance hb with ⟨-, h⟩ | h
    · simp [hnone] at h
    · exact h
  | failover x rest =>
    have hi := hidle (by rw [hpc]; rfl)
    exact .enqueue hi.1 hi.free hi.2.2 (held_of_advance hp (hh t)) (completed_of_advance (hc t))

theorem move_prioritize {sc : Int} (hidle : s.Idle t)
    (hks : nx.redis = s.redis.zadd queueKey sc t) (hpc' : nx.pc = .done)
    (hev : nx.events = []) : Move s.ledger (s.advance i p.node nx).ledger t := by
  have hh : ∀ x, nx.pc.holds = some x → p.pc.holds = some x := by simp [hpc', Pc.holds]
  have hc : ∀ x, .recorded x .completed ∉ nx.events := by simp [hev]
  refine move_of_advance hp ?_ (fun x _ => hh x) (fun x _ => hc x) ?_
  · intro x hx hm
    rw [hks] at hm
    exact (mem_queueOf_of_zadd hm).resolve_left hx
  · exact .enqueue hidle.1 hidle.free hidle.2.2 (held_of_advance hp (hh t))
      (completed_of_advance (hc t))

theorem move_quiet (hq : queueOf nx.redis = queueOf s.redis)
    (hkeep : Keeps p.pc nx.pc) (hev : ∀ ev ∈ nx.events, ev.silent) :
    Move s.ledger (s.advance i p.node nx).ledger "" := by
  have hqueue : ∀ x, x ∈ queueOf nx.redis → x ∈ queueOf s.redis := fun x hx => hq ▸ hx
  have hnc : ∀ x, .recorded x .completed ∉ nx.events := not_completed_of_silent hev
  refine move_of_advance hp (fun x _ => hqueue x) (fun x _ => hkeep.holds x) (fun x _ => hnc x) ?_
  exact .keep (hqueue _) (held_of_advance hp (hkeep.holds _)) (completed_of_advance (hnc _))

theorem move_thread {now : Nat} (hc : ∀ t, p.pc.foreign = some t → s.Idle t)
    (h : Effect i p.node s.redis now p.pc nx.redis nx.pc nx.events) :
    ∃ t, Move s.ledger (s.advance i p.node nx).ledger t := by
  generalize hpc : p.pc = pc at h
  generalize hks : nx.redis = ks at h
  generalize hpc' : nx.pc = pc' at h
  generalize hev : nx.events = evs at h
  cases h with
  | @claim t ks' hpop => exact ⟨t, move_claim hp hpop hks hpc' hev⟩
  | store u t d => exact ⟨t, move_store hp hpc hks hpc' hev⟩
  | enqueue c t d => exact ⟨t, move_enqueue hp hpc (hc t) hks hpc' hev⟩
  | release t =>
    refine ⟨"", move_quiet hp ?_ (.of_none (by rw [hpc']; rfl)) (by simp [hev])⟩
    rw [hks, queueOf_delClaim]
  | prioritize t q => exact ⟨t, move_prioritize hp (hc t (by rw [hpc]; rfl)) hks hpc' hev⟩
  | quiet hsame hkeep hevs =>
    refine ⟨"", move_quiet hp ?_ ?_ ?_⟩
    · rw [hks]; exact hsame.queue
    · rw [hpc', hpc]; exact hkeep
    · rw [hev]; exact silent_of_executed hevs

end Thread

/-- **Every step is a move of the ledger**, provided no handler queues a task that is not idle. -/
theorem step_move {a : Action} (hf : s.Fresh a) (hr : NoReject a)
    (hc : s.Careful a) (h : s.step a = some s') : ∃ t, Move s.ledger s'.ledger t := by
  cases step_cases h with
  | @submit n m now => exact ⟨m.id, move_submit hf⟩
  | thread hp _ hnx => exact move_thread hp (hc _ hp) (exec_effect hnx)
  | reject => simp [NoReject] at hr
  | calm _ hks hev hps => exact ⟨"", move_of_same hks hps hev⟩

theorem exclusive_init : Exclusive init.ledger := by
  refine Exclusive.of_at fun t => ?_
  have hq : t ∉ init.ledger.queued := AList.notMem_empty t
  have hh : ∀ a, ¬ init.ledger.held a t := by
    rintro a ⟨p, hp, -⟩
    simp [init] at hp
  have hc : t ∉ init.ledger.completed := by simp [ledger, completed, init]
  exact ⟨fun ha => absurd ha (hh _), fun ha => absurd ha (hh _), fun hm => absurd hm hc,
    fun hm => absurd hm hc, fun hm => absurd hm hq, fun ha => absurd ha (hh _),
    fun hm => absurd hm hc⟩

/-! ## One node at a time -/

/-- Thread `i` is between its claim of `t` and the return of `executeWithRetry`. -/
def executing (s : Cluster) (i : Nat) (t : TaskId) : Prop :=
  ∃ p, s.procs[i]? = some p ∧ p.pc.executing = some t

theorem executing.holds (h : s.executing i t) : s.holds i t :=
  let ⟨p, hp, ht⟩ := h
  ⟨p, hp, Pc.holds_of_executing ht⟩

end Cluster

/-- In a history (newest first), no claim of a task whose record had reached `completed`. -/
def NoReclaim : List Event → Prop
  | [] => True
  | .claimed _ t :: h => .recorded t .completed ∉ h ∧ NoReclaim h
  | .submitted _ :: h => NoReclaim h
  | .executed .. :: h => NoReclaim h
  | .recorded .. :: h => NoReclaim h

theorem NoReclaim.silent {h : List Event} (hn : NoReclaim h) :
    ∀ {evs : List Event}, (∀ ev ∈ evs, ev.silent) → NoReclaim (evs ++ h)
  | [], _ => hn
  | ev :: evs, hs => by
    have hev := hs ev mem_cons_self
    have ih := hn.silent (fun e he => hs e (mem_cons_of_mem _ he))
    cases ev with
    | executed => exact ih
    | _ => simp [Event.silent] at hev

namespace Cluster

theorem noReclaim_step {s s' : Cluster} {a : Action} (he : Exclusive s.ledger)
    (hn : NoReclaim s.history) (h : s.step a = some s') : NoReclaim s'.history := by
  cases step_cases h with
  | submit => exact hn
  | @thread i inp p nx hp _ hnx =>
    have heff := exec_effect hnx
    show NoReclaim (nx.events ++ s.history)
    generalize p.pc = pc at heff
    generalize nx.redis = ks at heff
    generalize nx.pc = pc' at heff
    generalize nx.events = evs at heff
    cases heff with
    | claim hpop => exact ⟨fun hm => he.completed_not_queued hm (mem_of_zpopmax hpop), hn⟩
    | store u t d =>
      rw [append_assoc]
      exact NoReclaim.silent (h := .recorded t u.status :: s.history) hn Update.events_silent
    | enqueue | release | prioritize => exact hn
    | quiet _ _ hevs => exact hn.silent (silent_of_executed hevs)
  | reject => exact hn
  | calm _ _ hev _ => rw [hev]; exact hn

/-- The runs of the cluster in which ids are distinct and no call rejects, and no handler queues a
task that is not idle. -/
def Guarded (s : Cluster) (a : Action) : Prop := s.Fresh a ∧ NoReject a ∧ s.Careful a

theorem exclusive_of_reaches {s : Cluster} (h : Reaches step Guarded init s) :
    Exclusive s.ledger ∧ NoReclaim s.history := by
  refine h.invariant (fun s : Cluster => Exclusive s.ledger ∧ NoReclaim s.history)
    ⟨exclusive_init, (trivial : NoReclaim [])⟩ ?_
  intro s a s' hx hx' hs
  obtain ⟨he, hn⟩ := hx
  obtain ⟨hf, hr, hc⟩ := hx'
  obtain ⟨t, hm⟩ := step_move hf hr hc hs
  exact ⟨he.move hm, noReclaim_step he hn hs⟩

/-- **One node at a time, and a completed task stays completed**, in every run in which
`handleNodeFailover` and `handlePriorityUpdate` queue idle tasks only. -/
theorem one_execution_at_a_time {s : Cluster} (h : Reaches step Guarded init s) :
    (∀ i j t, s.executing i t → s.executing j t → i = j) ∧ NoReclaim s.history := by
  obtain ⟨he, hn⟩ := exclusive_of_reaches h
  exact ⟨fun i j t hi hj => he.held_unique hi.holds hj.holds, hn⟩

/-! ## The condition is needed

The guard computes, so a run can be checked against it. -/

instance (s : Cluster) (t : TaskId) : Decidable (s.submitted t) :=
  inferInstanceAs (Decidable (_ ∈ s.history))

instance (s : Cluster) (t : TaskId) : Decidable (s.completed t) :=
  inferInstanceAs (Decidable (_ ∈ s.history))

instance (s : Cluster) (t : TaskId) : Decidable (s.Idle t) :=
  inferInstanceAs (Decidable (_ ∧ _))

instance (s : Cluster) (a : Action) : Decidable (s.Fresh a) := by
  cases a <;> dsimp only [Fresh] <;> infer_instance

instance (a : Action) : Decidable (NoReject a) := by
  cases a <;> dsimp only [NoReject] <;> infer_instance

instance (s : Cluster) (a : Action) : Decidable (s.Careful a) := by
  cases a <;> dsimp only [Careful] <;> infer_instance

instance (s : Cluster) (a : Action) : Decidable (s.Guarded a) :=
  inferInstanceAs (Decidable (_ ∧ _ ∧ _))

end Cluster

/-- A step of thread `i` in which `executeWithRetry`, if it is what returns, succeeds. -/
def Action.run (i : Nat) (order : List String) : Action :=
  .step i ⟨0, .ok ⟨true⟩, order⟩

/-- Nodes `a` and `b` have started, `a` has claimed `t` and is inside `executeWithRetry`. -/
def claimedByA : List Action :=
  [.start "a" 0, .run 0 [], .run 0 [], .run 0 [], .start "b" 0, .run 1 [], .run 1 [], .run 1 [],
    .submit "a" ⟨"t", "code", none⟩ 0, .tick "a",
    .run 2 [], .run 2 [], .run 2 [], .run 2 [], .run 2 []]

/-- The heartbeat of the live node `a` expires; `b` notices, re-queues `t` and claims it. -/
def failoverOfLiveNode : List Action :=
  [.expireHeartbeat "a", .heartbeat "b", .run 3 [], .run 3 ["a", "b"], .run 3 [], .run 3 [],
    .receive "b", .run 4 ["task:claim:t"], .run 4 [], .run 4 [], .run 4 [], .tick "b", .run 5 []]

/-- `a` completes `t`; a priority update puts the id back in the queue, and `b` claims it. -/
def updateOfCompletedTask : List Action :=
  [.run 2 [], .run 2 [], .run 2 [], .publishPriority "t" (some .high), .receive "b", .run 3 [],
    .tick "b", .run 4 []]

namespace Cluster

theorem two_executions_at_once : (∃ s, exec step init (claimedByA ++ failoverOfLiveNode) = some s ∧
      s.executing 2 "t" ∧ s.executing 5 "t" ∧
      (s.procs.map Proc.node)[2]? = some "a" ∧ (s.procs.map Proc.node)[5]? = some "b") ∧
    (∃ s, exec step init (claimedByA ++ updateOfCompletedTask) = some s ∧
      ¬ NoReclaim s.history) := by
  refine ⟨⟨_, rfl, ⟨_, rfl, rfl⟩, ⟨_, rfl, rfl⟩, rfl, rfl⟩, ⟨_, rfl, ?_⟩⟩
  exact fun h => h.1 (by decide)

theorem one_execution_after_crash : ∃ s, execIf step Guarded init
        (claimedByA ++ [.crash "a"] ++ failoverOfLiveNode) = some s ∧
      s.executing 5 "t" ∧
      ((∀ i j t, s.executing i t → s.executing j t → i = j) ∧ NoReclaim s.history) := by
  obtain ⟨s, hs, hb⟩ : ∃ s, execIf step Guarded init
      (claimedByA ++ [.crash "a"] ++ failoverOfLiveNode) = some s ∧ s.executing 5 "t" :=
    ⟨_, rfl, ⟨_, rfl, rfl⟩⟩
  exact ⟨s, hs, hb, one_execution_at_a_time (reaches_of_execIf hs)⟩

end Cluster

end Bridge.Distributed
