import Bridge.Distributed.Worker

/-!
# The claim key and the node at work

`task:claim:<taskId>` is what `handleNodeFailover` looks for: a node that dies is replaced only in
the tasks whose claim still names it. The claim script writes the key together with the pop, but
the `finally` of `executeTask` deletes it **without looking whose it is**, and by then `requeueTask`
may have put the task back in the queue and another node may have claimed it.
-/

namespace Bridge.Distributed

open Lib List

variable {t : TaskId}

theorem claimOf_eq_some {ks : Keyspace Text} {n : NodeId} :
    claimOf ks t = some n ↔ ks.get (claimKey t) = .bulk (.nodeId n) := by
  rw [Keyspace.get_eq_bulk, claimOf]
  cases ks.text? (claimKey t) with
  | none => simp
  | some text => cases text <;> simp

def Pc.releases : Pc → Option TaskId
  | .release t => some t
  | _ => none

namespace Cluster

def ClaimsHeld (s : Cluster) : Prop :=
  ∀ p ∈ s.procs, ∀ t, p.pc.executing = some t → s.redis.get (claimKey t) = .bulk (.nodeId p.node)

/-- **The condition**: a claim is deleted only while no `executeTask` is executing the task. -/
def CleanRelease (s : Cluster) : Action → Prop
  | .step i _ => ∀ p ∈ s.procs[i]?, ∀ t ∈ p.pc.releases, ∀ q ∈ s.procs, q.pc.executing ≠ some t
  | _ => True

variable {s : Cluster}

theorem claimsHeld_iff :
    s.ClaimsHeld ↔ ∀ p ∈ s.procs, ∀ t, p.pc.executing = some t → claimOf s.redis t =
      some p.node := by
  simp [ClaimsHeld, claimOf_eq_some]

theorem Plain.executing_submitted (h : Plain s) {p : Proc} (hp : p ∈ s.procs)
    (ht : p.pc.executing = some t) : s.submitted t :=
  h.task p hp t (Pc.task_of_holds (Pc.holds_of_executing ht))

theorem claimOf_of_effect (h : Plain s) {i : Nat} {p : Proc} {now : Nat}
    {ks : Keyspace Text} {pc : Pc} {evs : List Event} (hp : s.procs[i]? = some p)
    (heff : Effect i p.node s.redis now p.pc ks pc evs) (ht : s.submitted t)
    (hq : t ∉ queueOf s.redis) (hr : p.pc.releases ≠ some t) :
    claimOf ks t = claimOf s.redis t := by
  have hmem := mem_of_getElem? hp
  have htask := h.task p hmem
  have hworker := h.worker p hmem
  generalize p.pc = pc₀ at heff hr htask hworker
  cases heff with
  | claim hpop =>
    rw [claimOf_setClaim, if_neg, claimOf_zpopmax hpop]
    rintro rfl
    exact hq (mem_of_zpopmax hpop)
  | store u x d =>
    refine claimOf_setTask (h.apart x t (htask x ?_) ht)
    cases u with
    | maxRetries c =>
      cases c with
      | execute => rfl
      | failover => cases hworker
    | _ => rfl
  | enqueue c x d =>
    rw [claimOf_zadd]
    refine claimOf_setTask (h.apart x t (htask x ?_) ht)
    cases c with
    | execute => rfl
    | failover => cases hworker
  | release x =>
    rw [claimOf_delClaim, if_neg]
    rintro rfl
    exact hr rfl
  | prioritize => cases hworker
  | quiet hsame _ _ => exact hsame.claim t

theorem Plain.executing_not_queued (h : Plain s) {p : Proc} (hp : p ∈ s.procs)
    (ht : p.pc.executing = some t) : t ∉ queueOf s.redis := by
  obtain ⟨i, hi⟩ := mem_iff_getElem?.mp hp
  exact h.exclusive.held_not_queued (a := i) ⟨p, hi, Pc.holds_of_executing ht⟩

theorem ClaimsHeld.step {s s' : Cluster} {a : Action} (h : Plain s) (hc : s.ClaimsHeld)
    (ha : s.Working a) (hclean : s.CleanRelease a) (hs : s.step a = some s') : s'.ClaimsHeld := by
  rw [claimsHeld_iff] at hc ⊢
  cases work_of_step h.worker ha hs with
  | submit n m now _ hapart hstate =>
    subst hstate
    intro q hq t ht
    rw [submitTask, claimOf_zadd, claimOf_setTask (hapart t (h.executing_submitted hq ht)).1]
    exact hc q hq t ht
  | spawn n pc _ htask hks hps =>
    intro q hq t ht
    rw [hps] at hq
    rcases mem_append.mp hq with hq | hq
    · exact (hks.claim t).trans (hc q hq t ht)
    · rcases mem_singleton.mp hq with rfl
      exact absurd (Pc.task_of_holds (Pc.holds_of_executing ht)) (by simp [htask])
  | thread i inp p nx hp hnx hks hps =>
    have heff := exec_effect hnx
    have hmem := mem_of_getElem? hp
    -- the claim of a task somebody was executing before the step
    have hold : ∀ q ∈ s.procs, ∀ t, q.pc.executing = some t → claimOf nx.redis t = some q.node := by
      intro q hq t ht
      rw [claimOf_of_effect h hp heff (h.executing_submitted hq ht)
        (h.executing_not_queued hq ht) (fun hr => hclean p hp t hr q hq ht)]
      exact hc q hq t ht
    intro q hq t ht
    rw [hps] at hq
    rw [hks]
    rcases mem_or_eq_of_mem_set hq with hq | rfl
    · exact hold q hq t ht
    · rcases heff.keeps with hk | ⟨u, -, hpc, hpc'⟩
      · exact hold p hmem t (hk.executing t ht)
      · rw [hpc, hpc'] at heff
        rw [hpc'] at ht
        cases ht
        exact heff.claims

theorem not_claimsHeld_of_del {s s' : Cluster} {i : Nat} {inp : Input} {p q : Proc}
    (hp : s.procs[i]? = some p) (hr : p.pc = .release t) (hq : q ∈ s.procs)
    (ht : q.pc.executing = some t) (hs : s.step (.step i inp) = some s') : ¬ s'.ClaimsHeld := by
  rw [claimsHeld_iff]
  intro hc
  obtain ⟨p', nx, hp', hup, hnx, rfl⟩ := step_thread hs
  cases hp.symm.trans hp'
  rw [hr] at hnx
  cases hnx
  -- the executing thread is another one, so it is still there after the step
  obtain ⟨j, hj⟩ := mem_iff_getElem?.mp hq
  have hij : i ≠ j := by
    rintro rfl
    cases hp.symm.trans hj
    rw [hr] at ht
    simp [Pc.executing] at ht
  have hkept : q ∈ s.procs.set i ⟨p.node, .done⟩ :=
    mem_of_getElem? ((getElem?_set_ne hij).trans hj)
  have hclaim : claimOf (s.redis.del (claimKey t)) t = some q.node := by
    refine hc q ?_ t ht
    show q ∈ if (s.nodes p.node).up then s.procs.set i ⟨p.node, .done⟩ else _
    rw [if_pos hup]
    exact hkept
  rw [claimOf_delClaim, if_pos rfl] at hclaim
  cases hclaim

/-- The runs without failover in which every claim is deleted cleanly. -/
def Clean (s : Cluster) (a : Action) : Prop := s.Working a ∧ s.CleanRelease a

theorem claimsHeld_of_reaches (h : Reaches Cluster.step Clean init s) : Plain s ∧ s.ClaimsHeld := by
  refine h.invariant (fun s => Plain s ∧ s.ClaimsHeld) ⟨plain_init, ?_⟩ ?_
  · intro p hp
    simp [init] at hp
  · intro s a s' hx hx' hs
    obtain ⟨hp, hc⟩ := hx
    obtain ⟨ha, hclean⟩ := hx'
    exact ⟨hp.step ha hs, hc.step hp ha hclean hs⟩

/-- **The claim names the node at work**, in every run whose claims are deleted cleanly; and the
first `DEL` that is not clean breaks it. -/
theorem claim_names_executor {s : Cluster} (h : Reaches Cluster.step Clean init s) :
    s.ClaimsHeld ∧ ∀ a s', s.Working a → s.step a = some s' →
      (s'.ClaimsHeld ↔ s.CleanRelease a) := by
  obtain ⟨hp, hc⟩ := claimsHeld_of_reaches h
  refine ⟨hc, fun a s' ha hs => ⟨fun hc' => ?_, fun hclean => hc.step hp ha hclean hs⟩⟩
  cases a with
  | step i inp =>
    intro p hpi t ht q hq hqt
    have hr : p.pc = .release t := by
      cases hpc : p.pc <;> simp_all [Pc.releases]
    exact not_claimsHeld_of_del hpi hr hq hqt hs hc'
  | _ => exact trivial

/-! ## The condition is needed -/

instance (s : Cluster) : (a : Action) → Decidable (s.CleanRelease a)
  | .step i _ => inferInstanceAs (Decidable
      (∀ p ∈ s.procs[i]?, ∀ t ∈ p.pc.releases, ∀ q ∈ s.procs, q.pc.executing ≠ some t))
  | .submit .. | .tick _ | .heartbeat _ | .publishPriority .. | .receive _ | .reject ..
  | .expireHeartbeat _ | .crash _ | .start .. | .shutdown _ => .isTrue trivial

instance (s : Cluster) (a : Action) : Decidable (s.Clean a) :=
  inferInstanceAs (Decidable (_ ∧ _))

end Cluster

/-- A step of thread `i` in which `executeWithRetry` fails with a retryable error. -/
def Action.runFailing (i : Nat) : Action :=
  .step i ⟨0, .error ⟨none, some "timeout"⟩, []⟩

/-- The execution of `t` at `a` fails, and `t` goes back into the queue. -/
def requeuedByA : List Action :=
  claimedByA ++ [.runFailing 2, .run 2 [], .run 2 [], .run 2 [], .run 2 []]

namespace Cluster

theorem finally_deletes_other_claim : ∃ s, execIf step Working init
        (requeuedByA ++ [.tick "b", .run 3 [], .run 2 [], .run 2 []]) = some s ∧
      (∃ p, s.procs[3]? = some p ∧ p.node = "b" ∧ p.pc.executing = some "t") ∧
      s.redis.get (claimKey "t") = .nil :=
  ⟨_, rfl, ⟨_, rfl, rfl, rfl⟩, rfl⟩

theorem claim_of_retry : ∃ s, execIf step Clean init
        (requeuedByA ++ [.run 2 [], .run 2 [], .tick "b", .run 3 []]) = some s ∧
      (∃ p, s.procs[3]? = some p ∧ p.node = "b" ∧ p.pc.executing = some "t") ∧
      (s.ClaimsHeld ∧ ∀ a s', s.Working a → s.step a = some s' →
        (s'.ClaimsHeld ↔ s.CleanRelease a)) := by
  obtain ⟨s, hs, hb⟩ : ∃ s, execIf step Clean init
      (requeuedByA ++ [.run 2 [], .run 2 [], .tick "b", .run 3 []]) = some s ∧
      ∃ p, s.procs[3]? = some p ∧ p.node = "b" ∧ p.pc.executing = some "t" :=
    ⟨_, rfl, _, rfl, rfl, rfl⟩
  exact ⟨s, hs, hb, claim_names_executor (reaches_of_execIf hs)⟩

end Cluster

end Bridge.Distributed
