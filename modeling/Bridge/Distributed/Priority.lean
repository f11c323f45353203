import Bridge.Distributed.Accounting

/-!
# The order of the queue

`getPriorityScore` is *the clock minus a weight*, so the task that should go first — more urgent, or
older — has the **smaller** score; the claim script takes the entry with the **largest** one. The
two halves are written in different places and point in opposite directions.
-/

namespace Bridge.Distributed

open Lib AList

/-! ## What was submitted -/

def Priority.rank : Priority → Nat
  | .high => 2
  | .medium => 1
  | .low => 0

/-- A submission: the priority `submitTask` stores, and the clock. -/
structure Submission where
  priority : Priority
  time : Nat
  deriving DecidableEq, Repr

/-- `a` should be claimed before `b`. -/
def Submission.Outranks (a b : Submission) : Prop :=
  b.priority.rank ≤ a.priority.rank ∧ a.time ≤ b.time ∧
    (b.priority.rank < a.priority.rank ∨ a.time < b.time)

def Submission.score (a : Submission) : Int := getPriorityScore (some a.priority) a.time

theorem priorityWeights_mono {p q : Priority} (h : p.rank ≤ q.rank) :
    priorityWeights p ≤ priorityWeights q := by
  cases p <;> cases q <;> revert h <;> decide

theorem priorityWeights_strict {p q : Priority} (h : p.rank < q.rank) :
    priorityWeights p < priorityWeights q := by
  cases p <;> cases q <;> revert h <;> decide

/-- **The task that should go first has the smaller score.** -/
theorem Submission.Outranks.score_lt {a b : Submission} (h : a.Outranks b) : a.score < b.score := by
  obtain ⟨hp, ht, hs⟩ := h
  have hw := priorityWeights_mono hp
  have ha : a.score = a.time - priorityWeights a.priority := rfl
  have hb : b.score = b.time - priorityWeights b.priority := rfl
  rcases hs with hs | hs
  · have := priorityWeights_strict hs
    omega
  · omega

abbrev Log := TaskId → Option Submission

def Log.note (l : Log) : Action → Log
  | .submit _ m now => Function.update l m.id (some ⟨m.priority.getD .medium, now⟩)
  | _ => l

variable {a : Action} {l : Log}

theorem Log.note_of_ne (h : ∀ n m now, a ≠ .submit n m now) : l.note a = l := by
  cases a with
  | submit n m now => exact absurd rfl (h n m now)
  | _ => rfl

def logOf (acts : List Action) : Log := acts.foldl Log.note fun _ => none

/-- The commands that give a queued task a new score without a submission. -/
def Pc.rescores : Pc → Bool
  | .enqueue .. => true
  | .prioritize .. => true
  | _ => false

namespace Cluster

def Queueing (s : Cluster) : Action → Prop
  | .step i _ => ∀ p ∈ s.procs[i]?, p.pc.rescores = false
  | _ => True

inductive QueueStep (s s' : Cluster) (a : Action) : Prop
  | same (other : ∀ n m now, a ≠ .submit n m now) (queue : queueOf s'.redis = queueOf s.redis)
  -- a record was written over it
  | lost (queue : queueOf s'.redis = ∅)
  | popped (t : TaskId) (ks : Keyspace Text) (other : ∀ n m now, a ≠ .submit n m now)
      (pop : s.redis.zpopmax queueKey = some (t, ks))
      (queue : queueOf s'.redis = (queueOf s.redis).erase t)
  | added (n : NodeId) (m : Message) (now : Nat) (submit : a = .submit n m now)
      (queue : queueOf s'.redis = (queueOf s.redis).insert m.id
        (Submission.score ⟨m.priority.getD .medium, now⟩))

variable {s s' : Cluster}

theorem queueStep_of_effect (ha : ∀ n m now, a ≠ .submit n m now)
    {i : Nat} {n : NodeId} {now : Nat} {pc pc' : Pc} {evs : List Event}
    (h : Effect i n s.redis now pc s'.redis pc' evs) (hr : pc.rescores = false) :
    QueueStep s s' a := by
  generalize hks : s'.redis = ks' at h
  cases h with
  | @claim t ks hpop =>
    refine .popped t ks ha hpop ?_
    rw [hks, queueOf_setClaim, queueOf_zpopmax hpop]
  | store u x d =>
    rcases queueOf_setTask_cases s.redis x (u.apply n now d) with hq | ⟨hq, -⟩
    · exact .same ha (hks ▸ hq)
    · exact .lost (hks ▸ hq)
  | enqueue | prioritize => simp [Pc.rescores] at hr
  | release x => exact .same ha (hks ▸ queueOf_delClaim)
  | quiet hsame _ _ => exact .same ha (hks ▸ hsame.queue)

theorem queueStep_of_step (ha : s.Queueing a) (hs : s.step a = some s') : QueueStep s s' a := by
  cases step_cases hs with
  | @submit n m now _ =>
    rcases queueOf_zadd (s.redis.set (taskKey m.id) (.taskData (m.taskData n now)))
      (getPriorityScore (some (m.taskData n now).priority) now) m.id with hq | hq
    · rcases queueOf_setTask_cases s.redis m.id (m.taskData n now) with hset | ⟨hset, hz⟩
      · exact .added n m now rfl (hset ▸ hq)
      · refine .lost ?_
        rw [submitTask, Keyspace.zadd, hz]
        exact hset
    · exact .lost hq
  | thread hp _ hnx => exact queueStep_of_effect (by simp) (exec_effect hnx) (ha _ hp)
  | reject hp => exact .same (by simp) rfl
  | calm hne hks _ _ => exact .same hne hks.queue

/-! ## The order in which tasks leave -/

def Scored (l : Log) (s : Cluster) : Prop :=
  ∀ t c, (queueOf s.redis).lookup t = some c → ∃ sub, l t = some sub ∧ c = sub.score

theorem Scored.step (h : Scored l s) (ha : s.Queueing a)
    (hs : s.step a = some s') : Scored (l.note a) s' := by
  intro t c hl
  cases queueStep_of_step ha hs with
  | same hne hq =>
    rw [Log.note_of_ne hne]
    exact h t c (hq ▸ hl)
  | lost hq =>
    simp [hq] at hl
  | popped x ks hne _ hq =>
    rw [Log.note_of_ne hne]
    rw [hq] at hl
    by_cases hx : t = x
    · subst hx
      simp [lookup_erase] at hl
    · rw [lookup_erase_ne hx] at hl
      exact h t c hl
  | added n m now hsub hq =>
    subst hsub
    rw [hq] at hl
    by_cases hx : t = m.id
    · subst hx
      rw [lookup_insert] at hl
      exact ⟨_, Function.update_self .., (Option.some.inj hl).symm⟩
    · rw [lookup_insert_ne hx] at hl
      rw [Log.note, Function.update_of_ne hx]
      exact h t c hl

instance (s : Cluster) : (a : Action) → Decidable (s.Queueing a)
  | .step i _ => inferInstanceAs (Decidable (∀ p ∈ s.procs[i]?, p.pc.rescores = false))
  | .submit .. | .tick _ | .heartbeat _ | .publishPriority .. | .receive _ | .reject ..
  | .expireHeartbeat _ | .crash _ | .start .. | .shutdown _ => .isTrue trivial

theorem scored_of_run {acts : List Action}
    (h : execIf Cluster.step Queueing init acts = some s) : Scored (logOf acts) s := by
  refine execIf_log Log.note Scored (fun hi ha hs => hi.step ha hs) acts ?_ h
  intro t c hl
  simp [init, queueOf, Keyspace.zmembers] at hl

theorem not_popped {a b : TaskId} {sa sb : Submission} (h : Scored l s)
    (ha : l a = some sa) (hb : l b = some sb) (hab : sa.Outranks sb)
    (hqa : a ∈ queueOf s.redis) (hqb : b ∈ queueOf s.redis) {t : TaskId} {ks : Keyspace Text}
    (hpop : s.redis.zpopmax queueKey = some (t, ks)) : t ≠ a := by
  rintro rfl
  obtain ⟨ca, hca⟩ := Option.isSome_iff_exists.mp (lookup_isSome.mpr hqa)
  obtain ⟨cb, hcb⟩ := Option.isSome_iff_exists.mp (lookup_isSome.mpr hqb)
  have hle : cb ≤ ca := Keyspace.zpopmax_score hpop hca hcb
  obtain ⟨sa', hsa, rfl⟩ := h t ca hca
  obtain ⟨sb', hsb, rfl⟩ := h b cb hcb
  cases ha.symm.trans hsa
  cases hb.symm.trans hsb
  exact absurd hab.score_lt (not_lt.mpr hle)

def Others (a b : TaskId) : Action → Prop
  | .submit _ m _ => m.id ≠ a ∧ m.id ≠ b
  | _ => True

theorem leaves_first {a b : TaskId} {sa sb : Submission}
    (h : Scored l s) (ha : l a = some sa) (hb : l b = some sb) (hab : sa.Outranks sb)
    (hqa : a ∈ queueOf s.redis) (hrun : Reaches Cluster.step
      (fun s act => s.Queueing act ∧ Others a b act) s s') :
    a ∉ queueOf s'.redis → b ∉ queueOf s'.redis := by
  -- the log goes along the run and keeps the two entries
  suffices hinv : ∃ l', Scored l' s' ∧ l' a = some sa ∧ l' b = some sb ∧
      (a ∉ queueOf s'.redis → b ∉ queueOf s'.redis) by
    obtain ⟨-, -, -, -, hfirst⟩ := hinv
    exact hfirst
  refine hrun.invariant (fun s' => ∃ l', Scored l' s' ∧ l' a = some sa ∧
    l' b = some sb ∧ (a ∉ queueOf s'.redis → b ∉ queueOf s'.redis)) ?_ ?_
  · exact ⟨l, h, ha, hb, fun hna => absurd hqa hna⟩
  · intro s act s' hx hx' hs
    obtain ⟨l', hl, hla, hlb, hfirst⟩ := hx
    obtain ⟨hact, hoth⟩ := hx'
    refine ⟨l'.note act, hl.step hact hs, ?_, ?_, ?_⟩
    · cases act with
      | submit n m now => rw [Log.note, Function.update_of_ne hoth.1.symm]; exact hla
      | _ => exact hla
    · cases act with
      | submit n m now => rw [Log.note, Function.update_of_ne hoth.2.symm]; exact hlb
      | _ => exact hlb
    · intro hna hb'
      cases queueStep_of_step hact hs with
      | same _ hq =>
        rw [hq] at hna hb'
        exact hfirst hna hb'
      | lost hq =>
        rw [hq] at hb'
        exact notMem_empty b hb'
      | popped x ks _ hpop hq =>
        rw [hq, mem_erase] at hna hb'
        by_cases hqa' : a ∈ queueOf s.redis
        · exact hna ⟨(not_popped hl hla hlb hab hqa' hb'.2 hpop).symm, hqa'⟩
        · exact hfirst hqa' hb'.2
      | added n m now hsub hq =>
        subst hsub
        rw [hq, mem_insert] at hna hb'
        exact hfirst (fun hm => hna (.inr hm)) (hb'.resolve_left hoth.2.symm)

/-- **The worse task goes first**, however the run goes on. -/
theorem worse_task_first {acts : List Action} {s : Cluster}
    (h : execIf Cluster.step Queueing init acts = some s) {a b : TaskId} {sa sb : Submission}
    (ha : logOf acts a = some sa) (hb : logOf acts b = some sb) (hab : sa.Outranks sb)
    (hqa : a ∈ queueOf s.redis) (hqb : b ∈ queueOf s.redis) :
    (∃ t ks, s.redis.zpopmax queueKey = some (t, ks) ∧ t ≠ a) ∧
      ∀ s', Reaches Cluster.step (fun s act => s.Queueing act ∧ Others a b act) s s' →
        a ∉ queueOf s'.redis → b ∉ queueOf s'.redis := by
  have hscored := scored_of_run h
  refine ⟨?_, fun s' hrun => leaves_first hscored ha hb hab hqa hrun⟩
  obtain ⟨t, ks, hpop⟩ := Keyspace.exists_zpopmax hqa
  exact ⟨t, ks, hpop, not_popped hscored ha hb hab hqa hqb hpop⟩

instance (a b : Submission) : Decidable (a.Outranks b) :=
  inferInstanceAs (Decidable (_ ∧ _ ∧ _))

/-- Node `n` is up; `urgent` is submitted with priority high, and five milliseconds later `idle`
with priority low. -/
def urgentThenIdle : List Action :=
  [.start "n" 0, .run 0 [], .run 0 [], .run 0 [],
    .submit "n" ⟨"urgent", "code", some .high⟩ 0, .submit "n" ⟨"idle", "code", some .low⟩ 5]

theorem idle_task_claimed : ∃ s s', exec step init (urgentThenIdle ++ [.tick "n"]) = some s ∧
      "urgent" ∈ queueOf s.redis ∧ "idle" ∈ queueOf s.redis ∧
      s.step (.run 1 []) = some s' ∧ s'.history = .claimed 1 "idle" :: s.history :=
  ⟨_, _, rfl, by decide, by decide, rfl, rfl⟩

theorem urgent_task_waits : ∃ s, execIf step Queueing init urgentThenIdle = some s ∧
      (∃ t ks, s.redis.zpopmax queueKey = some (t, ks) ∧ t ≠ "urgent") ∧
      ∀ s', Reaches step (fun s act => s.Queueing act ∧ Others "urgent" "idle" act) s s' →
        "urgent" ∉ queueOf s'.redis → "idle" ∉ queueOf s'.redis := by
  obtain ⟨s, hs, hqa, hqb⟩ : ∃ s, execIf step Queueing init urgentThenIdle = some s ∧
      "urgent" ∈ queueOf s.redis ∧ "idle" ∈ queueOf s.redis := ⟨_, rfl, by decide, by decide⟩
  have hab : Submission.Outranks ⟨.high, 0⟩ ⟨.low, 5⟩ := by decide
  exact ⟨s, hs, worse_task_first hs rfl rfl hab hqa hqb⟩

end Cluster

end Bridge.Distributed
