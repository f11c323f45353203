import Bridge.Distributed.Membership

/-!
# Nodes that leave

A node may crash or call `shutdown()` at any point. What is to happen to the tasks it holds rests on
three structures that different code paths keep: the claim keys, the heartbeats and `nodes:active`.
A crash is noticed when the heartbeat is gone (`handleNodeFailure`), which takes the node out of
`nodes:active` and publishes the message every other node re-queues the claimed tasks on. `shutdown`
takes the node out of `nodes:active` too — **and publishes nothing**.
-/

namespace Bridge.Distributed

open Lib Keyspace List

def TaskData.Closed (d : TaskData) : Prop := d.status = .completed ∨ d.status = .failed

/-- The thread works, or is about to, in the name of its node. -/
def Pc.engaged : Pc → Bool
  | .claim => true
  | .subscribe => true
  | pc => pc.holds.isSome

variable {t : TaskId} {pc : Pc}

theorem Pc.engaged_of_holds (h : pc.holds = some t) : pc.engaged = true := by
  cases pc with
  | claim | subscribe => rfl
  | _ => exact Option.isSome_iff_exists.mpr ⟨t, h⟩

theorem Pc.holds_of_engaged (h : pc.engaged = true) (hne : ¬ pc = .claim ∧ ¬ pc = .subscribe) :
    ∃ t, pc.holds = some t := by
  cases pc with
  | claim => exact absurd rfl hne.1
  | subscribe => exact absurd rfl hne.2
  | _ => exact Option.isSome_iff_exists.mp h

namespace Cluster

def Finished (s : Cluster) (t : TaskId) : Prop := ∃ d, recordOf s.redis t = some d ∧ d.Closed

/-- **The condition at the point a thread has come to.** -/
def TendedAt (g : NodeId) (s : Cluster) (p : Proc) : Prop :=
  match p.pc with
  | .fail x _ => (s.nodes x).up = false ∧ (s.nodes g).up = true ∧ (s.nodes g).subscribed = true
  | .unregister => (s.nodes p.node).isActive = false ∧
      (∀ q ∈ s.procs, q.node = p.node → q.pc.engaged = false) ∧
      ∀ t ∈ s.submissions, claimOf s.redis t ≠ some p.node
  | .quit => ∀ q ∈ s.procs, q.node = p.node → q.pc.holds = none
  | .release t => (∀ q ∈ s.procs, q.pc.holds ≠ some t) ∧ (t ∈ queueOf s.redis ∨ s.Finished t)
  | pc => ∀ t ∈ pc.foreign, s.Idle t

/-- The runs in which `g` stays up and the condition is met. -/
def Tended (g : NodeId) (s : Cluster) : Action → Prop
  | .submit _ m _ => ¬ s.submitted m.id ∧ ':' ∉ m.id.toList ∧ m.id ≠ "queue"
  | .step i _ => ∀ p ∈ s.procs[i]?, s.TendedAt g p
  | .crash n => n ≠ g
  | .shutdown n => n ≠ g
  | .reject .. => False
  | _ => True

variable {g : NodeId} {s : Cluster} {p : Proc}

theorem TendedAt.idle (h : s.TendedAt g p) (ht : p.pc.foreign = some t) : s.Idle t := by
  rw [TendedAt] at h
  split at h
  case h_5 => exact h t ht
  all_goals exact absurd ht (by simp_all [Pc.foreign])

/-! ## The invariant -/

structure Stored (s : Cluster) : Prop where
  plain : ∀ t, s.submitted t → ':' ∉ t.toList ∧ t ≠ "queue"
  record : ∀ t, s.submitted t → ∃ d, recordOf s.redis t = some d
  claimed : ∀ t x, claimOf s.redis t = some x → s.submitted t
  texts : ∀ t, s.redis.get (claimKey t) ≠ .wrongType
  isZSet : s.redis.isZSet queueKey = true
  isSet : s.redis.isSet activeKey = true

structure Sound (g : NodeId) (s : Cluster) (p : Proc) : Prop where
  task : ∀ t, p.pc.task = some t → s.submitted t
  handler : ∀ x, p.pc.failing = some x → p.pc.Handler x s.submitted
  alive : p.pc ≠ .done → (s.nodes p.node).up = true
  listed : p.pc.engaged = true → p.node ∈ activeOf s.redis
  owner : ∀ t, p.pc.holds = some t → claimOf s.redis t = some p.node
  stays : p.pc = .unregister ∨ p.pc = .quit → p.node ≠ g

structure Listed (s : Cluster) (n : NodeId) : Prop where
  down : (s.nodes n).up = false → s.nodes n = .down
  active : (s.nodes n).isActive = true → n ∈ activeOf s.redis

structure Orderly (g : NodeId) (s : Cluster) : Prop where
  exclusive : Exclusive s.ledger
  stored : Stored s
  sound : ∀ p ∈ s.procs, Sound g s p
  node : ∀ n, Listed s n
  inbox : ∀ x, .failover x ∈ (s.nodes g).inbox → x ≠ g

theorem sound_done (h : p.pc = .done) : Sound g s p := by
  obtain ⟨n, pc⟩ := p
  cases h
  exact ⟨nofun, nofun, fun hne => absurd rfl hne, nofun, nofun, nofun⟩

theorem sound_taskless (ht : p.pc.task = none) (hf : p.pc.failing = none) (hh : p.pc.holds = none)
    (alive : (s.nodes p.node).up = true) (listed : p.pc.engaged = true → p.node ∈ activeOf s.redis)
    (stays : p.pc = .unregister ∨ p.pc = .quit → p.node ≠ g) : Sound g s p where
  task t h := absurd (ht.symm.trans h) (by simp)
  handler x h := absurd (hf.symm.trans h) (by simp)
  alive _ := alive
  listed := listed
  owner t h := absurd (hh.symm.trans h) (by simp)
  stays := stays

theorem Handler.failing_eq {x : NodeId} {P : TaskId → Prop} (h : pc.Handler x P)
    (hne : pc ≠ .done) : pc.failing = some x := by
  cases pc, h using Pc.Handler.elim with
  | done => exact absurd rfl hne
  | _ => rfl

theorem Handler.failing {x y : NodeId} {P : TaskId → Prop} (h : pc.Handler x P)
    (hy : pc.failing = some y) : y = x := by
  have hne : pc ≠ .done := by
    intro hdone
    rw [hdone] at hy
    simp [Pc.failing] at hy
  exact Option.some.inj (hy.symm.trans (Handler.failing_eq h hne))

theorem Sound.transfer (h : Sound g s p) (hsub : ∀ t, s.submitted t → s'.submitted t)
    (hup : p.pc ≠ .done → (s.nodes p.node).up = true → (s'.nodes p.node).up = true)
    (hact : p.pc.engaged = true → p.node ∈ activeOf s.redis → p.node ∈ activeOf s'.redis)
    (hclaim : ∀ t, p.pc.holds = some t → claimOf s'.redis t = claimOf s.redis t) :
    Sound g s' p where
  task t ht := hsub t (h.task t ht)
  handler x hx := Handler.mono (h.handler x hx) hsub
  alive hne := hup hne (h.alive hne)
  listed he := hact he (h.listed he)
  owner t ht := (hclaim t ht).trans (h.owner t ht)
  stays := h.stays

theorem Stored.recoverable (h : Stored s) (x : NodeId) : Recoverable s.redis x where
  isZSet := h.isZSet
  texts := h.texts
  plain t ht := h.plain t (h.claimed t x ht)
  record t ht := h.record t (h.claimed t x ht)

section Effect

variable {i now : Nat} {ks : Keyspace Text}
  {evs : List Event}

theorem Sound.store (h : Sound g s p) {u : Update} {x : TaskId} {d : TaskData}
    (hpc : p.pc = .store u x d) : s.submitted x := by
  cases u with
  | maxRetries c =>
    cases c with
    | execute => exact h.task x (by rw [hpc]; rfl)
    | failover y rest =>
      have hh := h.handler y (by rw [hpc]; rfl)
      rw [hpc] at hh
      exact hh.2.1
  | _ => exact h.task x (by rw [hpc]; rfl)

theorem Sound.enqueue (h : Sound g s p) {c : Caller} {x : TaskId} {d : TaskData}
    (hpc : p.pc = .enqueue c x d) : s.submitted x := by
  cases c with
  | execute => exact h.task x (by rw [hpc]; rfl)
  | failover y rest =>
    have hh := h.handler y (by rw [hpc]; rfl)
    rw [hpc] at hh
    exact hh.2.1

theorem claimOf_after (hst : Stored s) (hp : Sound g s p)
    (heff : Effect i p.node s.redis now p.pc ks pc evs) (t : TaskId) :
    claimOf ks t = claimOf s.redis t ∨
      (t ∈ queueOf s.redis ∧ claimOf ks t = some p.node ∧ p.pc = .claim) ∨
      (p.pc = .release t ∧ claimOf ks t = none) := by
  generalize hpc : p.pc = pc₀ at heff
  cases heff with
  | @claim x ks' hpop =>
    rw [claimOf_setClaim]
    split_ifs with ht
    · subst ht
      exact .inr (.inl ⟨mem_of_zpopmax hpop, rfl, rfl⟩)
    · exact .inl (claimOf_zpopmax hpop)
  | store u x d =>
    have hplain := (hst.plain x (hp.store hpc)).1
    exact .inl (claimOf_setTask (ne_claim_of_plain hplain t))
  | enqueue c x d =>
    have hplain := (hst.plain x (hp.enqueue hpc)).1
    rw [claimOf_zadd]
    exact .inl (claimOf_setTask (ne_claim_of_plain hplain t))
  | release x =>
    rw [claimOf_delClaim]
    split_ifs with ht
    · subst ht
      exact .inr (.inr ⟨rfl, rfl⟩)
    · exact .inl rfl
  | prioritize x q => exact .inl claimOf_zadd
  | quiet hsame _ _ => exact .inl (hsame.claim t)

theorem recordOf_after (hst : Stored s) (heff : Effect i p.node s.redis now p.pc ks pc evs)
    (ht : s.submitted t) : recordOf ks t = recordOf s.redis t ∨
      (∃ u d, p.pc = .store u t d ∧ recordOf ks t = some (u.apply p.node now d) ∧ pc = u.return t) ∨
      (∃ c d, p.pc = .enqueue c t d ∧ recordOf ks t = some d.requeued ∧ t ∈ queueOf ks) := by
  have hplain := (hst.plain t ht).1
  generalize hpc : p.pc = pc₀ at heff
  cases heff with
  | @claim x ks' hpop =>
    rw [recordOf_setClaim (ne_claim_of_plain hplain x), recordOf_zpopmax hpop]
    exact .inl rfl
  | store u x d =>
    rw [recordOf_setTask]
    split_ifs with hx
    · subst hx
      exact .inr (.inl ⟨u, d, rfl, rfl, rfl⟩)
    · exact .inl rfl
  | enqueue c x d =>
    rw [recordOf_zadd, recordOf_setTask]
    split_ifs with hx
    · subst hx
      refine .inr (.inr ⟨c, d, rfl, rfl, ?_⟩)
      exact (mem_queueOf_put (hst.plain t ht).2 hst.isZSet).mpr (.inl rfl)
    · exact .inl rfl
  | release x => exact .inl (recordOf_delClaim (ne_claim_of_plain hplain x))
  | prioritize x q => exact .inl recordOf_zadd
  | quiet hsame _ _ => exact .inl (hsame.record t)

theorem queueOf_after (hst : Stored s) (hp : Sound g s p)
    (heff : Effect i p.node s.redis now p.pc ks pc evs) (ht : t ∈ queueOf s.redis) :
    t ∈ queueOf ks ∨ (claimOf ks t = some p.node ∧ p.pc = .claim) := by
  generalize hpc : p.pc = pc₀ at heff
  cases heff with
  | @claim x ks' hpop =>
    rw [queueOf_setClaim, mem_queueOf_zpopmax hpop]
    by_cases hx : t = x
    · exact .inr ⟨by rw [claimOf_setClaim, if_pos hx], rfl⟩
    · exact .inl ⟨hx, ht⟩
  | store u x d =>
    rw [queueOf_setTask (hst.plain x (hp.store hpc)).2]
    exact .inl ht
  | enqueue c x d =>
    rw [mem_queueOf_put (hst.plain x (hp.enqueue hpc)).2 hst.isZSet]
    exact .inl (.inr ht)
  | release x => rw [queueOf_delClaim]; exact .inl ht
  | prioritize x q => rw [mem_queueOf_zadd hst.isZSet]; exact .inl (.inr ht)
  | quiet hsame _ _ => rw [hsame.queue]; exact .inl ht

theorem types_after (hst : Stored s) (hp : Sound g s p)
    (heff : Effect i p.node s.redis now p.pc ks pc evs) :
    (∀ t, ks.get (claimKey t) ≠ .wrongType) ∧ ks.isZSet queueKey = true := by
  have hset : ∀ {ks₀ : Keyspace Text} {k : String} {txt : Text} {t : TaskId},
      ks₀.get (claimKey t) ≠ .wrongType → (ks₀.set k txt).get (claimKey t) ≠ .wrongType := by
    intro ks₀ k txt t h
    by_cases hk : claimKey t = k
    · rw [hk, get_set_self]
      nofun
    · rw [get_set_ne hk]
      exact h
  have htask : ∀ {x d}, s.submitted x →
      (s.redis.set (taskKey x) (.taskData d)).isZSet queueKey = true :=
    fun hx => isZSet_setTask (hst.plain _ hx).2 hst.isZSet
  generalize hpc : p.pc = pc₀ at heff
  cases heff with
  | @claim x ks' hpop =>
    refine ⟨fun t => hset ?_, ?_⟩
    · rw [get_congr (lookup_zpopmax_ne hpop claimKey_ne_queueKey)]
      exact hst.texts t
    · rw [isZSet_set_ne claimKey_ne_queueKey.symm]
      exact isZSet_zpopmax hpop hst.isZSet
  | store u x d => exact ⟨fun t => hset (hst.texts t), htask (hp.store hpc)⟩
  | enqueue c x d =>
    refine ⟨fun t => ?_, isZSet_zadd (htask (hp.enqueue hpc))⟩
    rw [get_zadd_ne claimKey_ne_queueKey]
    exact hset (hst.texts t)
  | release x =>
    refine ⟨fun t => ?_, isZSet_del hst.isZSet⟩
    by_cases hk : claimKey t = claimKey x
    · rw [hk, get_del_self]
      nofun
    · rw [get_congr (lookup_del_ne hk)]
      exact hst.texts t
  | prioritize x q =>
    refine ⟨fun t => ?_, isZSet_zadd hst.isZSet⟩
    rw [get_zadd_ne claimKey_ne_queueKey]
    exact hst.texts t
  | quiet hsame _ _ => exact ⟨fun t => hsame.reply t ▸ hst.texts t, hsame.isZSet.trans hst.isZSet⟩

end Effect

/-! ## A thread's step keeps order -/

variable {q : Proc}

section Thread

variable {i : Nat} {inp : Input} {nx : Next}

/-- The effects of a step of thread `i` on the tasks and on the nodes, and the state it is taken
in. -/
structure Stepping (g : NodeId) (s : Cluster) (i : Nat) (inp : Input) (p : Proc) (nx : Next) :
    Prop where
  orderly : Orderly g s
  proc : s.procs[i]? = some p
  up : (s.nodes p.node).up = true
  tended : s.TendedAt g p
  exec : p.pc.exec i p.node (s.nodes p.node) s.redis inp = some nx

def after (s : Cluster) (i : Nat) (p : Proc) (nx : Next) : Cluster :=
  (s.advance i p.node nx).broadcast nx.sent

theorem up_after {m : NodeId} (hm : (s.nodes m).up = true)
    (hk : nx.node.up = true ∨ m ≠ p.node) : ((s.after i p nx).nodes m).up = true := by
  rw [after, broadcast_up, advance_node]
  split_ifs with hmn
  · exact hk.resolve_right fun hne => hne hmn
  · exact hm

namespace Stepping

variable (h : Stepping g s i inp p nx)

include h

theorem mem : p ∈ s.procs := mem_of_getElem? h.proc

theorem sound : Sound g s p := h.orderly.sound p h.mem

theorem effect : Effect i p.node s.redis inp.now p.pc nx.redis nx.pc nx.events :=
  exec_effect h.exec

theorem nodeEffect :
    NodeEffect p.node (s.nodes p.node) s.redis p.pc nx.redis nx.node nx.pc nx.sent :=
  exec_nodeEffect h.exec

theorem submitted_iff : (s.after i p nx).submitted t ↔ s.submitted t := by
  show .submitted t ∈ nx.events ++ s.history ↔ _
  simp [submitted, h.effect.not_submitted]

theorem claim_held (hq : q ∈ s.procs) (ht : q.pc.holds = some t) :
    claimOf nx.redis t = claimOf s.redis t := by
  obtain ⟨j, hj⟩ := mem_iff_getElem?.mp hq
  rcases claimOf_after h.orderly.stored h.sound h.effect t with hsame | ⟨hmem, -, -⟩ | ⟨hpc, -⟩
  · exact hsame
  · exact absurd hmem (h.orderly.exclusive.held_not_queued (a := j) ⟨q, hj, ht⟩)
  · have htended := h.tended
    rw [TendedAt, hpc] at htended
    exact absurd ht (htended.1 q hq)

theorem stored : Stored (s.after i p nx) := by
  have hst := h.orderly.stored
  obtain ⟨htexts, hz⟩ := types_after hst h.sound h.effect
  refine ⟨fun t ht => hst.plain t (h.submitted_iff.mp ht), fun t ht => ?_, fun t x hx => ?_,
    htexts, hz, (h.nodeEffect.active (m := p.node) hst.isSet).1⟩
  · have ht' := h.submitted_iff.mp ht
    obtain ⟨d, hd⟩ := hst.record t ht'
    rcases recordOf_after hst h.effect ht' with hsame | ⟨u, e, -, hrec, -⟩ | ⟨c, e, -, hrec, -⟩
    · exact ⟨d, hsame.trans hd⟩
    · exact ⟨_, hrec⟩
    · exact ⟨_, hrec⟩
  · refine h.submitted_iff.mpr ?_
    have hx' : claimOf nx.redis t = some x := hx
    rcases claimOf_after hst h.sound h.effect t with hsame | ⟨hmem, -, -⟩ | ⟨-, hnone⟩
    · exact hst.claimed t x (hsame ▸ hx')
    · exact h.orderly.exclusive.queued_born hmem
    · simp [hnone] at hx'

theorem active_kept {m : NodeId} (hm : m ∈ activeOf s.redis) :
    m ∈ activeOf nx.redis ∨ (p.pc = .unregister ∧ m = p.node) ∨ ∃ xs, p.pc = .fail m xs :=
  (h.nodeEffect.active h.orderly.stored.isSet).2 hm

theorem engaged_listed (hq : q ∈ s.procs) (he : q.pc.engaged = true) :
    q.node ∈ activeOf nx.redis := by
  have htended := h.tended
  have hne : q.pc ≠ .done := fun hd => absurd he (by rw [hd]; decide)
  rcases h.active_kept ((h.orderly.sound q hq).listed he) with hm | ⟨hpc, hqn⟩ | ⟨xs, hpc⟩
  · exact hm
  · rw [TendedAt, hpc] at htended
    simp [htended.2.1 q hq hqn] at he
  · rw [TendedAt, hpc] at htended
    exact absurd ((h.orderly.sound q hq).alive hne) (by simp [htended.1])

theorem sound_other (hq : q ∈ s.procs) (hk : nx.node.up = true ∨ q.node ≠ p.node) :
    Sound g (s.after i p nx) q := by
  refine (h.orderly.sound q hq).transfer (fun _ => h.submitted_iff.mpr) ?_ ?_ ?_
  · intro _ hup
    exact up_after hup hk
  · intro he _
    exact h.engaged_listed hq he
  · intro t ht
    exact h.claim_held hq ht

theorem handler_self {x : NodeId} (hx : nx.pc.failing = some x) : nx.pc.Handler x s.submitted := by
  have hst := h.orderly.stored
  cases hy : p.pc.failing with
  | none => simp [h.nodeEffect.failing hy] at hx
  | some y =>
    have hh := h.sound.handler y hy
    obtain ⟨hsweep, -, -⟩ := sweep_of_exec (hst.recoverable y) hh hst.record h.exec
    have hh' := hsweep.handler hh fun t ht => hst.claimed t y ht
    cases Handler.failing hh' hx
    exact hh'

theorem sound_self : Sound g (s.after i p nx) ⟨p.node, nx.pc⟩ where
  task t ht := by
    refine h.submitted_iff.mpr ?_
    rcases h.effect.keeps with hkeep | ⟨x, hx, -, hpc⟩
    · exact h.sound.task t (hkeep.task t ht)
    · rw [hpc] at ht
      cases ht
      exact h.orderly.exclusive.queued_born hx
  handler x hx := Handler.mono (h.handler_self hx) fun _ => h.submitted_iff.mpr
  alive hne := by
    refine up_after h.up (.inl ?_)
    rcases h.nodeEffect.up h.up with hup | ⟨-, hdone, -⟩
    · exact hup
    · exact absurd hdone hne
  listed he := by
    show p.node ∈ activeOf nx.redis
    rcases h.effect.keeps with hkeep | ⟨x, -, hpc, -⟩
    · by_cases hlife : nx.pc = .claim ∨ nx.pc = .subscribe
      · exact h.nodeEffect.registered h.orderly.stored.isSet hlife
      · obtain ⟨t, ht⟩ := Pc.holds_of_engaged he (not_or.mp hlife)
        exact h.engaged_listed h.mem (Pc.engaged_of_holds (hkeep.holds t ht))
    · exact h.engaged_listed h.mem (by rw [hpc]; rfl)
  owner t ht := by
    rcases h.effect.keeps with hkeep | ⟨x, -, hpc, hpc'⟩
    · have hold := hkeep.holds t ht
      exact (h.claim_held h.mem hold).trans (h.sound.owner t hold)
    · rw [hpc'] at ht
      cases ht
      have heff := h.effect
      rw [hpc, hpc'] at heff
      exact heff.claims
  stays hpc := h.sound.stays (.inl (h.nodeEffect.quits hpc))

theorem isActive_after {m : NodeId} (hm : ((s.after i p nx).nodes m).isActive = true) :
    (s.nodes m).isActive = true ∨ (m = p.node ∧ p.pc = .subscribe) := by
  rw [after, broadcast_isActive, advance_node] at hm
  split_ifs at hm with hmn
  · rw [hmn]
    exact (h.nodeEffect.isActive hm).imp_right fun hpc => ⟨rfl, hpc⟩
  · exact .inl hm

theorem listed (m : NodeId) : Listed (s.after i p nx) m where
  down hdown := by
    refine broadcast_down ?_
    rw [after, broadcast_up, advance_node] at hdown
    rw [advance_node]
    split_ifs at hdown ⊢
    · rcases h.nodeEffect.up h.up with hup | ⟨-, -, hnode⟩
      · simp [hup] at hdown
      · exact hnode
    · exact (h.orderly.node m).down hdown
  active hact := by
    have htended := h.tended
    rcases h.isActive_after hact with hact | ⟨rfl, hpc⟩
    · rcases h.active_kept ((h.orderly.node m).active hact) with hm | ⟨hpc, rfl⟩ | ⟨xs, hpc⟩
      · exact hm
      · rw [TendedAt, hpc] at htended
        simp [htended.1] at hact
      · rw [TendedAt, hpc] at htended
        rw [(h.orderly.node m).down htended.1] at hact
        exact absurd hact (by decide)
    · exact h.engaged_listed h.mem (by rw [hpc]; rfl)

theorem inbox {x : NodeId} (hx : .failover x ∈ ((s.after i p nx).nodes g).inbox) : x ≠ g := by
  rcases broadcast_inbox.mp hx with hx | ⟨-, hx⟩
  · rw [advance_node] at hx
    split_ifs at hx with hg
    · rcases h.nodeEffect.inbox with hin | ⟨-, hin⟩
      · exact h.orderly.inbox x (by rwa [hg, ← hin])
      · simp [hin] at hx
    · exact h.orderly.inbox x hx
  · obtain ⟨xs, hpc⟩ := h.nodeEffect.sent hx
    have htended := h.tended
    rw [TendedAt, hpc] at htended
    rintro rfl
    exact absurd htended.2.1 (by simp [htended.1])

/-- **A thread's step keeps order.** -/
theorem orderly_after : Orderly g (s.after i p nx) where
  exclusive := by
    obtain ⟨t, hmove⟩ := move_thread h.proc (fun _ => h.tended.idle) h.effect
    exact h.orderly.exclusive.move hmove
  stored := h.stored
  sound q hq := by
    rcases mem_advance hq with ⟨hq, hk⟩ | rfl | hd
    · exact h.sound_other hq hk
    · exact h.sound_self
    · exact sound_done hd
  node := h.listed
  inbox x := h.inbox

end Stepping

end Thread

/-! ## The other actions keep order -/

section Calm

variable {s' : Cluster}

theorem Orderly.calm (h : Orderly g s) (hex : Exclusive s'.ledger)
    (hsame : Same s.redis s'.redis) (hlook : s'.redis.lookup activeKey = s.redis.lookup activeKey)
    (hhist : s'.history = s.history) (hprocs : ∀ q ∈ s'.procs, Sound g s' q ∨ (q ∈ s.procs ∧
      (q.pc ≠ .done → (s.nodes q.node).up = true → (s'.nodes q.node).up = true)))
    (hdown : ∀ n, (s'.nodes n).up = false → s'.nodes n = .down)
    (hactive : ∀ n, (s'.nodes n).isActive = true → (s.nodes n).isActive = true)
    (hinbox : ∀ x, .failover x ∈ (s'.nodes g).inbox → x ≠ g) : Orderly g s' := by
  have hsub : ∀ t, s'.submitted t ↔ s.submitted t := fun t => by rw [submitted, submitted, hhist]
  have hact : activeOf s'.redis = activeOf s.redis := smembers_congr hlook
  have hst := h.stored
  refine ⟨hex, ⟨?_, ?_, ?_, ?_, ?_, ?_⟩, fun q hq => ?_, fun n => ⟨hdown n, fun hn => ?_⟩, hinbox⟩
  · intro t ht
    exact hst.plain t ((hsub t).mp ht)
  · intro t ht
    rw [hsame.record]
    exact hst.record t ((hsub t).mp ht)
  · intro t x hx
    rw [hsame.claim] at hx
    exact (hsub t).mpr (hst.claimed t x hx)
  · intro t
    rw [hsame.reply]
    exact hst.texts t
  · exact hsame.isZSet.trans hst.isZSet
  · exact (isSet_congr hlook).trans hst.isSet
  · rcases hprocs q hq with hq | ⟨hq, hup⟩
    · exact hq
    · exact (h.sound q hq).transfer (fun t => (hsub t).mpr) hup (fun _ hm => hact ▸ hm)
        fun t _ => hsame.claim t
  · rw [hact]
    exact (h.node n).active (hactive n hn)

variable {n : NodeId}

theorem Orderly.spawn (h : Orderly g s) (hex : Exclusive (s.spawn n pc).ledger)
    (hnew : Sound g (s.spawn n pc) ⟨n, pc⟩) : Orderly g (s.spawn n pc) := by
  refine h.calm hex .refl rfl rfl (fun q hq => ?_) (fun m => (h.node m).down) (fun _ hm => hm)
    h.inbox
  rcases mem_append.mp hq with hq | hq
  · exact .inr ⟨hq, fun _ hup => hup⟩
  · cases mem_singleton.mp hq
    exact .inl hnew

theorem Orderly.setNode (h : Orderly g s) {nd : Node}
    (hex : Exclusive (s.setNode n nd).ledger) (hup : nd.up = true)
    (hactive : nd.isActive = true → (s.nodes n).isActive = true)
    (hinbox : ∀ msg ∈ nd.inbox, msg ∈ (s.nodes n).inbox) : Orderly g (s.setNode n nd) := by
  refine h.calm hex .refl rfl rfl (fun q hq => .inr ⟨hq, fun _ hq' => ?_⟩) (fun m hm => ?_)
    (fun m hm => ?_) (fun x hx => ?_)
  · rw [setNode_nodes]
    split_ifs
    · exact hup
    · exact hq'
  · rw [setNode_nodes] at hm ⊢
    split_ifs at hm ⊢
    · simp [hup] at hm
    · exact (h.node m).down hm
  · rw [setNode_nodes] at hm
    split_ifs at hm with hmn
    · exact hmn ▸ hactive hm
    · exact hm
  · rw [setNode_nodes] at hx
    split_ifs at hx with hgn
    · exact h.inbox x (hgn ▸ hinbox _ hx)
    · exact h.inbox x hx

theorem mem_killProcs {ps : List Proc} (h : q ∈ killProcs n ps) :
    (q ∈ ps ∧ q.node ≠ n) ∨ q.pc = .done := by
  obtain ⟨r, hr, hrq⟩ := mem_map.mp h
  split_ifs at hrq with hrn
  · exact .inr (by rw [← hrq])
  · subst hrq
    exact .inl ⟨hr, hrn⟩

theorem Orderly.crash (h : Orderly g s)
    (hs : s' = { s.setNode n .down with procs := killProcs n s.procs })
    (hex : Exclusive s'.ledger) : Orderly g s' := by
  subst hs
  refine h.calm hex .refl rfl rfl (fun q hq => ?_) (fun m hm => ?_) (fun m hm => ?_)
    (fun x hx => ?_)
  · rcases mem_killProcs hq with ⟨hq, hqn⟩ | hd
    · refine .inr ⟨hq, fun _ hup => ?_⟩
      rw [setNode_nodes, if_neg hqn]
      exact hup
    · exact .inl (sound_done hd)
  · replace hm : ((s.setNode n .down).nodes m).up = false := hm
    rw [setNode_nodes] at hm ⊢
    split_ifs at hm ⊢
    · rfl
    · exact (h.node m).down hm
  · replace hm : ((s.setNode n .down).nodes m).isActive = true := hm
    rw [setNode_nodes] at hm
    split_ifs at hm
    · exact absurd hm (by decide)
    · exact hm
  · replace hx : .failover x ∈ ((s.setNode n .down).nodes g).inbox := hx
    rw [setNode_nodes] at hx
    split_ifs at hx
    · simp [Node.down] at hx
    · exact h.inbox x hx

section Submit

variable {m : Message} {now : Nat}

theorem claimOf_submitTask (hplain : ':' ∉ m.id.toList) (t : TaskId) :
    claimOf (s.submitTask n m now).redis t = claimOf s.redis t := by
  rw [submitTask, claimOf_zadd, claimOf_setTask (ne_claim_of_plain hplain t)]

theorem lookup_active_submitTask :
    (s.submitTask n m now).redis.lookup activeKey = s.redis.lookup activeKey :=
  (lookup_zadd_ne queueKey_ne_activeKey.symm).trans (lookup_set_ne taskKey_ne_activeKey.symm)

theorem Orderly.submit (h : Orderly g s) (hplain : ':' ∉ m.id.toList ∧ m.id ≠ "queue")
    (hex : Exclusive (s.submitTask n m now).ledger) : Orderly g (s.submitTask n m now) := by
  have hst := h.stored
  have hact : activeOf (s.submitTask n m now).redis = activeOf s.redis :=
    smembers_congr lookup_active_submitTask
  refine ⟨hex, ⟨?_, ?_, ?_, ?_, ?_, ?_⟩, fun q hq => ?_, fun k => ⟨(h.node k).down, ?_⟩, h.inbox⟩
  · intro t ht
    rcases submitted_submitTask.mp ht with rfl | ht
    · exact hplain
    · exact hst.plain t ht
  · intro t ht
    rw [submitTask, recordOf_zadd, recordOf_setTask]
    split_ifs with htm
    · exact ⟨_, rfl⟩
    · exact hst.record t ((submitted_submitTask.mp ht).resolve_left htm)
  · intro t x hx
    rw [claimOf_submitTask hplain.1] at hx
    exact submitted_submitTask.mpr (.inr (hst.claimed t x hx))
  · intro t
    have hne : claimKey t ≠ taskKey m.id := fun hk =>
      ne_claim_of_plain hplain.1 t (taskKey_eq_claimKey.mp hk.symm)
    rw [submitTask, get_zadd_ne claimKey_ne_queueKey, get_set_ne hne]
    exact hst.texts t
  · exact isZSet_zadd (isZSet_setTask hplain.2 hst.isZSet)
  · exact (isSet_congr lookup_active_submitTask).trans hst.isSet
  · refine (h.sound q hq).transfer (fun t ht => submitted_submitTask.mpr (.inr ht)) (fun _ => id) ?_
      fun t _ => claimOf_submitTask hplain.1 t
    intro _ hm
    rwa [hact]
  · rw [hact]
    exact (h.node k).active

end Submit

theorem Orderly.up_of_inbox (h : Orderly g s) {msg : ClusterMsg}
    (hm : msg ∈ (s.nodes n).inbox) : (s.nodes n).up = true := by
  by_contra hup
  rw [(h.node n).down (Bool.eq_false_iff.mpr hup)] at hm
  simp [Node.down] at hm

theorem step_receive (h : s.step (.receive n) = some s') :
    ∃ msg rest, (s.nodes n).inbox = msg :: rest ∧
      ((msg = .failover n ∧ s' = s.setNode n { s.nodes n with inbox := rest }) ∨
        (∃ x, x ≠ n ∧ msg = .failover x ∧
          s' = (s.setNode n { s.nodes n with inbox := rest }).spawn n (.keys x)) ∨
        ∃ t q, msg = .priorityUpdate t q ∧
          s' = (s.setNode n { s.nodes n with inbox := rest }).spawn n (.prioritize t q)) := by
  simp only [step] at h
  split at h
  · cases h
  · rename_i msg rest hin
    refine ⟨msg, rest, hin, ?_⟩
    cases msg with
    | failover x =>
      simp only at h
      split at h <;> cases h
      · rename_i hx
        exact .inl ⟨hx ▸ rfl, rfl⟩
      · rename_i hx
        exact .inr (.inl ⟨x, hx, rfl, rfl⟩)
    | priorityUpdate t q =>
      cases h
      exact .inr (.inr ⟨t, q, rfl, rfl⟩)

theorem Orderly.receive (h : Orderly g s) (hs : s.step (.receive n) = some s')
    (hex : Exclusive s'.ledger) : Orderly g s' := by
  obtain ⟨msg, rest, hin, hcases⟩ := step_receive hs
  have hmem : msg ∈ (s.nodes n).inbox := by simp [hin]
  have hup : (s.nodes n).up = true := h.up_of_inbox hmem
  have hread : Exclusive (s.setNode n { s.nodes n with inbox := rest }).ledger →
      Orderly g (s.setNode n { s.nodes n with inbox := rest }) := fun hex' =>
    h.setNode hex' hup id fun msg hm => hin ▸ mem_cons_of_mem _ hm
  have hup' : ∀ pc, (((s.setNode n { s.nodes n with inbox := rest }).spawn n pc).nodes n).up
      = true := fun pc => by
    show ((s.setNode n _).nodes n).up = true
    rw [setNode_nodes, if_pos rfl]
    exact hup
  have hex₀ := h.exclusive
  rcases hcases with ⟨-, rfl⟩ | ⟨x, hx, -, rfl⟩ | ⟨t, q, -, rfl⟩
  · exact hread hex
  · refine (hread hex₀).spawn hex ⟨nofun, fun y hy => ?_, fun _ => hup' _, nofun, nofun, nofun⟩
    exact Option.some.inj hy
  · exact (hread hex₀).spawn hex
      (sound_taskless rfl rfl rfl (hup' _) (by simp [Pc.engaged, Pc.holds]) (by simp))

theorem Orderly.start (h : Orderly g s) {k : Nat}
    (hs : s.step (.start n k) = some s') (hex : Exclusive s'.ledger) : Orderly g s' := by
  simp only [step] at hs
  split at hs
  · cases hs
  · cases hs
    have hset : Orderly g (s.setNode n { Node.down with
        up := true, maxConcurrency := if k = 0 then 5 else k }) :=
      h.setNode h.exclusive rfl (fun hact => absurd hact (by simp [Node.down]))
        (by simp [Node.down])
    refine hset.spawn hex (sound_taskless rfl rfl rfl ?_ (by simp [Pc.engaged, Pc.holds]) (by simp))
    show ((s.setNode n _).nodes n).up = true
    rw [setNode_nodes, if_pos rfl]

theorem Orderly.shutdown (h : Orderly g s) (hng : n ≠ g)
    (hs : s.step (.shutdown n) = some s') (hex : Exclusive s'.ledger) : Orderly g s' := by
  simp only [step] at hs
  split at hs
  · rename_i hup
    cases hs
    have hset : Orderly g (s.setNode n { s.nodes n with isActive := false }) :=
      h.setNode h.exclusive hup (by simp) fun _ hm => hm
    refine hset.spawn hex (sound_taskless rfl rfl rfl ?_ (by simp [Pc.engaged, Pc.holds]) fun _ =>
      hng)
    show ((s.setNode n _).nodes n).up = true
    rw [setNode_nodes, if_pos rfl]
    exact hup
  · cases hs

end Calm

theorem orderly_init : Orderly g init where
  exclusive := exclusive_init
  stored :=
    { plain := fun t ht => absurd ht (by simp [submitted, init])
      record := fun t ht => absurd ht (by simp [submitted, init])
      claimed := fun t x hx => absurd (claimOf_eq_some.mp hx) nofun
      texts := fun t => nofun
      isZSet := rfl
      isSet := rfl }
  sound q hq := absurd hq (by simp [init])
  node n := ⟨fun _ => rfl, fun hn => absurd hn (by simp [init, Node.down])⟩
  inbox x hx := absurd hx (by simp [init, Node.down])

variable {a : Action}

theorem Tended.fresh (h : s.Tended g a) : s.Fresh a := by
  cases a with
  | submit => exact h.1
  | _ => exact trivial

theorem Tended.noReject (h : s.Tended g a) : NoReject a := by
  cases a with
  | reject => exact h
  | _ => exact trivial

theorem Tended.careful (h : s.Tended g a) : s.Careful a := by
  cases a with
  | step i inp => exact fun p hp t ht => (h p hp).idle ht
  | _ => exact trivial

/-- **One step of a tended run.** -/
theorem Orderly.step (h : Orderly g s)
    (ha : s.Tended g a) (hs : s.step a = some s') : Orderly g s' := by
  have hex : Exclusive s'.ledger := by
    obtain ⟨t, hmove⟩ := step_move ha.fresh ha.noReject ha.careful hs
    exact h.exclusive.move hmove
  cases a with
  | step i inp =>
    obtain ⟨p, nx, hp, hup, hnx, rfl⟩ := step_thread hs
    exact Stepping.orderly_after ⟨h, hp, hup, ha p hp, hnx⟩
  | submit n m now =>
    simp only [Cluster.step] at hs
    split at hs <;> cases hs
    exact h.submit ha.2 hex
  | receive n => exact h.receive hs hex
  | start n k => exact h.start hs hex
  | shutdown n => exact h.shutdown ha hs hex
  | crash n =>
    simp only [Cluster.step] at hs
    split at hs <;> cases hs
    exact h.crash rfl hex
  | tick n =>
    simp only [Cluster.step] at hs
    split at hs <;> cases hs
    rename_i hn
    exact h.spawn hex (sound_taskless rfl rfl rfl hn.1 (fun _ => (h.node n).active hn.2.1)
      (by simp))
  | heartbeat n =>
    simp only [Cluster.step] at hs
    split at hs <;> cases hs
    rename_i hn
    exact h.spawn hex (sound_taskless rfl rfl rfl hn.1 (by simp [Pc.engaged, Pc.holds]) (by simp))
  | publishPriority t q =>
    cases hs
    refine h.calm hex .refl rfl rfl (fun q hq => .inr ⟨hq, fun _ hup => ?_⟩) (fun n hn => ?_)
      (fun n hn => ?_) (fun x hx => ?_)
    · rw [broadcast_up]
      exact hup
    · rw [broadcast_up] at hn
      exact broadcast_down ((h.node n).down hn)
    · rwa [broadcast_isActive] at hn
    · rcases broadcast_inbox.mp hx with hx | ⟨-, hx⟩
      · exact h.inbox x hx
      · simp at hx
  | expireHeartbeat n =>
    cases hs
    exact h.calm hex .delNode (lookup_del_ne nodeKey_ne_activeKey.symm) rfl
      (fun q hq => .inr ⟨hq, fun _ hup => hup⟩) (fun n => (h.node n).down) (fun _ hn => hn) h.inbox
  | reject => cases ha

end Cluster

end Bridge.Distributed
