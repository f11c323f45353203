import Bridge.Distributed.Ownership

/-!
# Runs without failover

The runs in which nothing happens but `start`, `submitTask`, claims and the steps of
`executeTask`. No handler runs, so nothing but an `executeTask` ever touches a task, and the
condition of `one_execution_at_a_time` holds by itself (`careful_of_worker`).
-/

namespace Bridge.Distributed

open Lib List

/-! ## The threads of such a run -/

def Caller.worker : Caller → Prop
  | .execute => True
  | .failover .. => False

def Update.worker : Update → Prop
  | .maxRetries c => c.worker
  | _ => True

/-- The points of `start`, `processNextTask` and `executeTask`. -/
def Pc.worker : Pc → Prop
  | .update u _ => u.worker
  | .store u _ _ => u.worker
  | .requeue c _ => c.worker
  | .enqueue c _ _ => c.worker
  | .keys _ | .scan .. | .prioritize .. | .beat | .members | .check _ | .fail .. => False
  | .unregister | .quit => False
  | _ => True

theorem Update.return_worker {t : TaskId} {u : Update} (h : u.worker) : (u.return t).worker := by
  cases u with
  | processing | completed => exact trivial
  | failed e _ =>
    simp only [Update.return]
    split <;> exact trivial
  | maxRetries c =>
    cases c with
    | execute => exact trivial
    | failover => cases h

theorem Update.throw_worker {e : TaskError} {now : Nat} {t : TaskId} {u : Update}
    (h : u.worker) : (u.throw e now t).worker := by
  cases u with
  | processing | completed | failed => exact trivial
  | maxRetries c =>
    cases c with
    | execute => exact trivial
    | failover => cases h

theorem exec_worker {i : Nat} {n : NodeId} {nd : Node} {ks : Keyspace Text} {inp : Input}
    {pc : Pc} {nx : Next} (hw : pc.worker) (h : pc.exec i n nd ks inp = some nx) :
    nx.pc.worker ∧ nx.sent = [] ∧ nx.node.up = nd.up := by
  cases pc with
  | claim =>
    simp only [Pc.exec] at h
    split at h <;> cases h
    · exact ⟨trivial, rfl, rfl⟩
    · refine ⟨?_, rfl, rfl⟩
      simp only [Pc.claimed]
      split <;> exact trivial
  | load | process =>
    simp only [Pc.exec] at h
    split at h <;> cases h <;> exact ⟨trivial, rfl, rfl⟩
  | update u t =>
    simp only [Pc.exec] at h
    split at h <;> cases h
    · exact ⟨Update.return_worker hw, rfl, rfl⟩
    · exact ⟨Update.throw_worker hw, rfl, rfl⟩
    · exact ⟨hw, rfl, rfl⟩
  | store u t d => cases h; exact ⟨Update.return_worker hw, rfl, rfl⟩
  | requeue c t =>
    cases c with
    | failover => cases hw
    | execute =>
      simp only [Pc.exec] at h
      split at h
      · cases h; exact ⟨trivial, rfl, rfl⟩
      · cases h; exact ⟨trivial, rfl, rfl⟩
      · split at h <;> cases h <;> exact ⟨trivial, rfl, rfl⟩
  | enqueue c t d =>
    cases c with
    | failover => cases hw
    | execute => cases h; exact ⟨trivial, rfl, rfl⟩
  | enter | publish | leave | release | register | subscribe | announce =>
    cases h; exact ⟨trivial, rfl, rfl⟩
  | done => simp [Pc.exec] at h
  | keys | scan | prioritize | beat | members | check | fail | unregister | quit =>
    cases hw

theorem Pc.foreign_of_worker {pc : Pc} (hw : pc.worker) : pc.foreign = none := by
  cases pc with
  | enqueue c t d =>
    cases c with
    | execute => rfl
    | failover => cases hw
  | prioritize => cases hw
  | _ => rfl

namespace Cluster

/-! ## The runs -/

/-- **The condition on ids**: neither of two ids is `claim:` followed by the other. -/
def Apart (t u : TaskId) : Prop := t ≠ "claim:" ++ u ∧ u ≠ "claim:" ++ t

theorem ne_claim_self (t : TaskId) : t ≠ "claim:" ++ t := by
  intro h
  have hlen := congrArg String.length h
  simp at hlen

/-- A start, a claim or a step of `executeTask`, or the submission of an id that is new and apart
from those before it. -/
def Working (s : Cluster) : Action → Prop
  | .submit _ m _ => ¬ s.submitted m.id ∧ ∀ u, s.submitted u → Apart m.id u
  | .tick _ | .step .. | .start .. => True
  | _ => False

inductive Work (s s' : Cluster) : Action → Prop
  | submit (n : NodeId) (m : Message) (now : Nat) (fresh : ¬ s.submitted m.id)
      (apart : ∀ u, s.submitted u → Apart m.id u) (state : s' = s.submitTask n m now) :
      Work s s' (.submit n m now)
  | spawn {a : Action} (n : NodeId) (pc : Pc) (worker : pc.worker) (task : pc.task = none)
      (redis : Same s.redis s'.redis) (procs : s'.procs = s.procs ++ [⟨n, pc⟩])
      (history : s'.history = s.history) : Work s s' a
  | thread (i : Nat) (inp : Input) (p : Proc) (nx : Next) (proc : s.procs[i]? = some p)
      (exec : p.pc.exec i p.node (s.nodes p.node) s.redis inp = some nx)
      (redis : s'.redis = nx.redis) (procs : s'.procs = s.procs.set i ⟨p.node, nx.pc⟩)
      (history : s'.history = nx.events ++ s.history) : Work s s' (.step i inp)

theorem work_of_step {s s' : Cluster} {a : Action} (hw : ∀ p ∈ s.procs, p.pc.worker)
    (ha : s.Working a) (h : s.step a = some s') : Work s s' a := by
  cases a with
  | submit n m now =>
    simp only [step] at h
    split at h <;> cases h
    exact .submit n m now ha.1 ha.2 rfl
  | tick n =>
    simp only [step] at h
    split at h <;> cases h
    exact .spawn n .claim trivial rfl .refl rfl rfl
  | start n k =>
    simp only [step] at h
    split at h <;> cases h
    exact .spawn n .register trivial rfl .refl rfl rfl
  | step i inp =>
    obtain ⟨p, nx, hp, hup, hnx, rfl⟩ := step_thread h
    have hup' := (exec_worker (hw p (mem_of_getElem? hp)) hnx).2.2
    refine .thread i inp p nx hp hnx rfl ?_ rfl
    show (if nx.node.up then _ else _) = _
    rw [if_pos (hup'.trans hup)]
  | _ => cases ha

structure Plain (s : Cluster) : Prop where
  worker : ∀ p ∈ s.procs, p.pc.worker
  task : ∀ p ∈ s.procs, ∀ t, p.pc.task = some t → s.submitted t
  apart : ∀ t u, s.submitted t → s.submitted u → t ≠ "claim:" ++ u
  exclusive : Exclusive s.ledger

theorem careful_of_worker {s : Cluster} (h : ∀ p ∈ s.procs, p.pc.worker) (a : Action) :
    s.Careful a := by
  cases a with
  | step i inp =>
    intro p hp t ht
    have := Pc.foreign_of_worker (h p (mem_of_getElem? hp))
    simp [this] at ht
  | _ => exact trivial

theorem fresh_of_working {s : Cluster} {a : Action} (h : s.Working a) : s.Fresh a ∧ NoReject a := by
  cases a with
  | submit => exact ⟨h.1, trivial⟩
  | tick | step | start => exact ⟨trivial, trivial⟩
  | _ => cases h

theorem plain_init : Plain init where
  worker p hp := absurd hp (by simp [init])
  task p hp := absurd hp (by simp [init])
  apart t u ht := absurd ht (by simp [submitted, init])
  exclusive := exclusive_init

/-- **A step of such a run keeps it plain.** -/
theorem Plain.step {s s' : Cluster} {a : Action} (h : Plain s) (ha : s.Working a)
    (hs : s.step a = some s') : Plain s' := by
  have hex : Exclusive s'.ledger := by
    obtain ⟨hf, hr⟩ := fresh_of_working ha
    obtain ⟨t, hm⟩ := step_move hf hr (careful_of_worker h.worker a) hs
    exact h.exclusive.move hm
  cases work_of_step h.worker ha hs with
  | submit n m now hfresh hapart hstate =>
    subst hstate
    refine ⟨h.worker, fun p hp t ht => submitted_submitTask.mpr (.inr (h.task p hp t ht)), ?_, hex⟩
    · intro t u ht hu
      rcases submitted_submitTask.mp ht with rfl | ht <;>
        rcases submitted_submitTask.mp hu with rfl | hu
      · exact ne_claim_self m.id
      · exact (hapart u hu).1
      · exact (hapart t ht).2
      · exact h.apart t u ht hu
  | spawn n pc hworker htask hks hps hev =>
    have hsub : ∀ {t}, s'.submitted t ↔ s.submitted t := by simp [submitted, hev]
    refine ⟨?_, ?_, fun t u ht hu => h.apart t u (hsub.mp ht) (hsub.mp hu), hex⟩
    · intro p hp
      rw [hps] at hp
      rcases mem_append.mp hp with hp | hp
      · exact h.worker p hp
      · rcases mem_singleton.mp hp with rfl
        exact hworker
    · intro p hp t ht
      rw [hps] at hp
      rcases mem_append.mp hp with hp | hp
      · exact hsub.mpr (h.task p hp t ht)
      · rcases mem_singleton.mp hp with rfl
        simp [htask] at ht
  | thread i inp p nx hp hnx hks hps hev =>
    have heff := exec_effect hnx
    have hmem := mem_of_getElem? hp
    have hsub : ∀ {t}, s'.submitted t ↔ s.submitted t := by
      intro t
      simp [submitted, hev, heff.not_submitted]
    refine ⟨?_, ?_, fun t u ht hu => h.apart t u (hsub.mp ht) (hsub.mp hu), hex⟩
    · intro q hq
      rw [hps] at hq
      rcases mem_or_eq_of_mem_set hq with hq | rfl
      · exact h.worker q hq
      · exact (exec_worker (h.worker p hmem) hnx).1
    · intro q hq t ht
      rw [hps] at hq
      rcases mem_or_eq_of_mem_set hq with hq | rfl
      · exact hsub.mpr (h.task q hq t ht)
      · rcases heff.keeps with hk | ⟨u, hu, -, hpc⟩
        · exact hsub.mpr (h.task p hmem t (hk.task t ht))
        · -- the claim script: what was in the queue had been submitted
          rw [hpc] at ht
          cases ht
          exact hsub.mpr (h.exclusive.queued_born hu)

/-! The guard computes. -/

def submissions (s : Cluster) : List TaskId :=
  s.history.filterMap fun
    | .submitted t => some t
    | _ => none

theorem mem_submissions {s : Cluster} {t : TaskId} : t ∈ s.submissions ↔ s.submitted t := by
  simp only [submissions, submitted, mem_filterMap]
  constructor
  · intro hx
    obtain ⟨ev, hev, ht⟩ := hx
    cases ev with
    | submitted u => cases ht; exact hev
    | _ => cases ht
  · intro h
    exact ⟨_, h, rfl⟩

instance (t u : TaskId) : Decidable (Apart t u) :=
  inferInstanceAs (Decidable (_ ∧ _))

instance (s : Cluster) : (a : Action) → Decidable (s.Working a)
  | .submit _ m _ =>
    decidable_of_iff (¬ s.submitted m.id ∧ ∀ u ∈ s.submissions, Apart m.id u)
      (by simp only [mem_submissions, Working])
  | .tick _ | .step .. | .start .. => .isTrue trivial
  | .heartbeat _ | .publishPriority .. | .receive _ | .reject .. | .expireHeartbeat _
  | .crash _ | .shutdown _ => .isFalse id

end Cluster

end Bridge.Distributed
