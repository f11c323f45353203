import Bridge.Distributed.Failover

/-!
# What one step of a thread can do to the nodes

The counterpart of `Effect` for the other half of the cluster: the set `nodes:active`, the nodes'
own state and the messages they send. Five points of the program touch them (`registerNode`, the
end of `start`, the two commands of `shutdown`, `handleNodeFailure`); at all the others the step is
quiet. Nothing else in the development looks inside `Pc.exec` for this.
-/

namespace Bridge.Distributed

open Lib Keyspace List

/-- `nodes:active`. -/
def activeOf (ks : Keyspace Text) : List NodeId := ks.smembers activeKey

/-- The points of `start`, `shutdown` and `processNextTask` that no other point leads to. -/
def Pc.lifecycle : Pc → Bool
  | .claim | .register | .subscribe | .unregister | .quit => true
  | _ => false

def Pc.failing : Pc → Option NodeId
  | .keys x => some x
  | .scan x _ => some x
  | .requeue (.failover x _) _ => some x
  | .update (.maxRetries (.failover x _)) _ => some x
  | .store (.maxRetries (.failover x _)) _ _ => some x
  | .enqueue (.failover x _) _ _ => some x
  | _ => none

structure Node.Alike (nd nd' : Node) : Prop where
  up : nd'.up = nd.up
  subscribed : nd'.subscribed = nd.subscribed
  isActive : nd'.isActive = nd.isActive
  inbox : nd'.inbox = nd.inbox

theorem Node.Alike.refl (nd : Node) : nd.Alike nd := ⟨rfl, rfl, rfl, rfl⟩

inductive NodeEffect (n : NodeId) (nd : Node) (ks : Keyspace Text) :
    Pc → Keyspace Text → Node → Pc → List ClusterMsg → Prop
  | register : NodeEffect n nd ks .register ((ks.set (nodeKey n) nd.text).sadd activeKey n) nd
      .subscribe []
  | subscribe : NodeEffect n nd ks .subscribe ks { nd with subscribed := true, isActive := true }
      .announce []
  | unregister : NodeEffect n nd ks .unregister ((ks.del (nodeKey n)).srem activeKey n) nd .quit []
  | quit : NodeEffect n nd ks .quit ks .down .done []
  | fail (x : NodeId) (xs : List NodeId) :
      NodeEffect n nd ks (.fail x xs) (ks.srem activeKey x) nd (.check xs) [.failover x]
  | quiet {pc pc' : Pc} {ks' : Keyspace Text} {nd' : Node} :
      ks'.lookup activeKey = ks.lookup activeKey → nd.Alike nd' → pc'.lifecycle = false →
      (pc.failing = none → pc'.failing = none) → NodeEffect n nd ks pc ks' nd' pc' []

/-! No point of `start` or `shutdown`, and no handler, is where a method of `executeTask` returns to
or throws to. -/

variable {t : TaskId} {c : Caller}

theorem Caller.return_lifecycle : (c.return t).lifecycle = false := by
  cases c <;> rfl

theorem Caller.throw_lifecycle : (c.throw t).lifecycle = false := by
  cases c <;> rfl

variable {u : Update}

theorem Update.return_lifecycle : (u.return t).lifecycle = false := by
  cases u with
  | processing | completed => rfl
  | failed e _ =>
    simp only [Update.return]
    split <;> rfl
  | maxRetries c => exact Caller.return_lifecycle

theorem Update.throw_lifecycle {e : TaskError} {now : Nat} :
    (u.throw e now t).lifecycle = false := by
  cases u with
  | processing | completed | failed => rfl
  | maxRetries c => exact Caller.throw_lifecycle

theorem Caller.return_failing (h : (Pc.requeue c t).failing = none) :
    (c.return t).failing = none := by
  cases c with
  | execute => rfl
  | failover => simp [Pc.failing] at h

theorem Caller.throw_failing : (c.throw t).failing = none := by
  cases c <;> rfl

theorem Pc.claimed_failing : (Pc.claimed t).failing = none := by
  rw [Pc.claimed]
  split <;> rfl

theorem Pc.claimed_lifecycle : (Pc.claimed t).lifecycle = false := by
  rw [Pc.claimed]
  split <;> rfl

theorem Update.return_failing (h : (Pc.update u t).failing = none) :
    (u.return t).failing = none := by
  cases u with
  | processing | completed => rfl
  | failed e _ =>
    simp only [Update.return]
    split <;> rfl
  | maxRetries c =>
    cases c with
    | execute => rfl
    | failover => simp [Pc.failing] at h

theorem Update.throw_failing {e : TaskError} {now : Nat} : (u.throw e now t).failing = none := by
  cases u with
  | processing | completed | failed => rfl
  | maxRetries c => exact Caller.throw_failing

theorem Update.store_failing {d : TaskData} :
    (Pc.store u t d).failing = (Pc.update u t).failing := by
  cases u with
  | maxRetries c => cases c <;> rfl
  | _ => rfl

/-- **One step of a thread, by its effect on the nodes.** -/
theorem exec_nodeEffect {i : Nat} {n : NodeId} {nd : Node} {ks : Keyspace Text} {inp : Input}
    {pc : Pc} {nx : Next} (h : pc.exec i n nd ks inp = some nx) :
    NodeEffect n nd ks pc nx.redis nx.node nx.pc nx.sent := by
  have hnode : ∀ {txt : Text}, (ks.set (nodeKey n) txt).lookup activeKey = ks.lookup activeKey :=
    lookup_set_ne nodeKey_ne_activeKey.symm
  have htask : ∀ {t : TaskId} {d : TaskData},
      (ks.set (taskKey t) (.taskData d)).lookup activeKey = ks.lookup activeKey :=
    lookup_set_ne taskKey_ne_activeKey.symm
  have hzadd : ∀ {ks : Keyspace Text} {sc : Int} {t : TaskId},
      (ks.zadd queueKey sc t).lookup activeKey = ks.lookup activeKey :=
    lookup_zadd_ne queueKey_ne_activeKey.symm
  have hnone : ∀ {pc pc' : Pc}, pc'.failing = none → pc.failing = none → pc'.failing = none :=
    fun h _ => h
  cases pc with
  | register => cases h; exact .register
  | subscribe => cases h; exact .subscribe
  | unregister => cases h; exact .unregister
  | quit => cases h; exact .quit
  | fail x xs => cases h; exact .fail x xs
  | claim =>
    simp only [Pc.exec] at h
    split at h <;> cases h
    · exact .quiet rfl (.refl nd) rfl (hnone rfl)
    · rename_i hpop
      refine .quiet ?_ (.refl nd) Pc.claimed_lifecycle (hnone Pc.claimed_failing)
      rw [lookup_set_ne claimKey_ne_activeKey.symm,
        lookup_zpopmax_ne hpop queueKey_ne_activeKey.symm]
  | enter | leave => cases h; exact .quiet hnode ⟨rfl, rfl, rfl, rfl⟩ rfl (hnone rfl)
  | beat | announce => cases h; exact .quiet hnode (.refl nd) rfl (hnone rfl)
  | publish t r => cases h; exact .quiet rfl ⟨rfl, rfl, rfl, rfl⟩ rfl (hnone rfl)
  | store u t d =>
    cases h
    exact .quiet htask (.refl nd) Update.return_lifecycle fun hf =>
      Update.return_failing (Update.store_failing ▸ hf)
  | enqueue c t d =>
    cases h
    refine .quiet (hzadd.trans htask) (.refl nd) Caller.return_lifecycle fun hf => ?_
    cases c with
    | execute => rfl
    | failover => simp [Pc.failing] at hf
  | release t =>
    cases h
    exact .quiet (lookup_del_ne claimKey_ne_activeKey.symm) (.refl nd) rfl (hnone rfl)
  | prioritize t p => cases h; exact .quiet hzadd (.refl nd) rfl (hnone rfl)
  | load | process =>
    simp only [Pc.exec] at h
    split at h <;> cases h <;> exact .quiet rfl (.refl nd) rfl (hnone rfl)
  | update u t =>
    simp only [Pc.exec] at h
    split at h <;> cases h
    · exact .quiet rfl (.refl nd) Update.return_lifecycle Update.return_failing
    · exact .quiet rfl (.refl nd) Update.throw_lifecycle (hnone Update.throw_failing)
    · exact .quiet rfl (.refl nd) rfl fun hf => Update.store_failing.trans hf
  | requeue c t =>
    simp only [Pc.exec] at h
    split at h
    · cases h; exact .quiet rfl (.refl nd) Caller.return_lifecycle Caller.return_failing
    · cases h; exact .quiet rfl (.refl nd) Caller.throw_lifecycle (hnone Caller.throw_failing)
    · split at h <;> cases h <;> refine .quiet rfl (.refl nd) rfl fun hf => ?_ <;>
        (cases c <;> first | rfl | simp [Pc.failing] at hf)
  | keys x =>
    simp only [Pc.exec] at h
    split at h <;> cases h
    exact .quiet rfl (.refl nd) rfl (by simp [Pc.failing])
  | members =>
    simp only [Pc.exec] at h
    split at h <;> cases h
    exact .quiet rfl (.refl nd) rfl (hnone rfl)
  | scan x rest =>
    cases rest with
    | nil => cases h; exact .quiet rfl (.refl nd) rfl (by simp [Pc.failing])
    | cons k rest =>
      simp only [Pc.exec] at h
      split at h
      · cases h; exact .quiet rfl (.refl nd) rfl (by simp [Pc.failing])
      · cases h; exact .quiet rfl (.refl nd) rfl (by simp [Pc.failing])
      · split at h <;> cases h <;> exact .quiet rfl (.refl nd) rfl (by simp [Pc.failing])
  | check xs =>
    cases xs with
    | nil => cases h; exact .quiet rfl (.refl nd) rfl (hnone rfl)
    | cons x xs =>
      simp only [Pc.exec] at h
      split at h
      · cases h; exact .quiet rfl (.refl nd) rfl (hnone rfl)
      · split at h <;> cases h <;> exact .quiet rfl (.refl nd) rfl (hnone rfl)
  | done => simp [Pc.exec] at h

section ActiveOf

variable {n m : NodeId} {nd nd' : Node} {ks ks' : Keyspace Text} {pc pc' : Pc}
  {msgs : List ClusterMsg}

section NodeEffect

variable (h : NodeEffect n nd ks pc ks' nd' pc' msgs)
include h

theorem NodeEffect.active (hset : ks.isSet activeKey = true) : ks'.isSet activeKey = true ∧
      (m ∈ activeOf ks → m ∈ activeOf ks' ∨ (pc = .unregister ∧ m = n) ∨ ∃ xs,
        pc = .fail m xs) := by
  cases h with
  | register =>
    have hlook : (ks.set (nodeKey n) nd.text).lookup activeKey = ks.lookup activeKey :=
      lookup_set_ne nodeKey_ne_activeKey.symm
    have hset' := (isSet_congr hlook).trans hset
    refine ⟨isSet_sadd hset', fun hm => .inl ?_⟩
    refine (smembers_sadd hset' m).mpr (.inr ?_)
    rw [smembers_congr hlook]
    exact hm
  | unregister =>
    have hlook : (ks.del (nodeKey n)).lookup activeKey = ks.lookup activeKey :=
      lookup_del_ne nodeKey_ne_activeKey.symm
    have hset' := (isSet_congr hlook).trans hset
    refine ⟨isSet_srem hset', fun hm => ?_⟩
    by_cases hmn : m = n
    · exact .inr (.inl ⟨rfl, hmn⟩)
    · refine .inl ((smembers_srem hset' m).mpr ⟨hmn, ?_⟩)
      rw [smembers_congr hlook]
      exact hm
  | fail x xs =>
    refine ⟨isSet_srem hset, fun hm => ?_⟩
    by_cases hmx : m = x
    · exact .inr (.inr ⟨xs, hmx ▸ rfl⟩)
    · exact .inl ((smembers_srem hset m).mpr ⟨hmx, hm⟩)
  | subscribe | quit => exact ⟨hset, .inl⟩
  | quiet hlook _ _ _ =>
    refine ⟨(isSet_congr hlook).trans hset, fun hm => .inl ?_⟩
    rw [activeOf, smembers_congr hlook]
    exact hm

theorem NodeEffect.registered (hset : ks.isSet activeKey = true)
    (hpc : pc' = .claim ∨ pc' = .subscribe) : n ∈ activeOf ks' := by
  cases h with
  | register =>
    have hlook : (ks.set (nodeKey n) nd.text).lookup activeKey = ks.lookup activeKey :=
      lookup_set_ne nodeKey_ne_activeKey.symm
    exact (smembers_sadd ((isSet_congr hlook).trans hset) n).mpr (.inl rfl)
  | quiet _ _ hlife _ => rcases hpc with rfl | rfl <;> exact absurd hlife (by decide)
  | _ => simp at hpc

theorem NodeEffect.up (hup : nd.up = true) :
    nd'.up = true ∨ (pc = .quit ∧ pc' = .done ∧ nd' = .down) := by
  cases h with
  | quit => exact .inr ⟨rfl, rfl, rfl⟩
  | quiet _ halike _ _ => exact .inl (halike.up.trans hup)
  | _ => exact .inl hup

theorem NodeEffect.quits (hpc : pc' = .unregister ∨ pc' = .quit) : pc = .unregister := by
  cases h with
  | unregister => rfl
  | quiet _ _ hlife _ => rcases hpc with rfl | rfl <;> exact absurd hlife (by decide)
  | _ => simp at hpc

theorem NodeEffect.isActive (hact : nd'.isActive = true) : nd.isActive = true ∨
    pc = .subscribe := by
  cases h with
  | subscribe => exact .inr rfl
  | quit => exact absurd hact (by decide)
  | quiet _ halike _ _ => exact .inl (halike.isActive.symm.trans hact)
  | _ => exact .inl hact

theorem NodeEffect.inbox : nd'.inbox = nd.inbox ∨ (pc = .quit ∧ nd'.inbox = []) := by
  cases h with
  | quit => exact .inr ⟨rfl, rfl⟩
  | quiet _ halike _ _ => exact .inl halike.inbox
  | _ => exact .inl rfl

theorem NodeEffect.sent {x : NodeId} (hx : .failover x ∈ msgs) : ∃ xs, pc = .fail x xs := by
  cases h with
  | fail y xs =>
    cases mem_singleton.mp hx
    exact ⟨xs, rfl⟩
  | _ => cases hx

theorem NodeEffect.failing (hpc : pc.failing = none) : pc'.failing = none := by
  cases h with
  | quiet _ _ _ hf => exact hf hpc
  | _ => rfl

end NodeEffect

end ActiveOf

namespace Cluster

section Advance

variable {s : Cluster} {i j : Nat} {n m : NodeId} {nx : Next} {q : Proc}

theorem mem_advance (h : q ∈ (s.advance i n nx).procs) :
    (q ∈ s.procs ∧ (nx.node.up = true ∨ q.node ≠ n)) ∨ q = ⟨n, nx.pc⟩ ∨ q.pc = .done := by
  simp only [advance] at h
  split_ifs at h with hup
  · rcases mem_or_eq_of_mem_set h with h | h
    · exact .inl ⟨h, .inl hup⟩
    · exact .inr (.inl h)
  · obtain ⟨r, hr, hrq⟩ := mem_map.mp h
    split_ifs at hrq with hrn
    · exact .inr (.inr (by rw [← hrq]))
    · subst hrq
      rcases mem_or_eq_of_mem_set hr with hr | hr
      · exact .inl ⟨hr, .inr hrn⟩
      · exact .inr (.inl hr)

theorem advance_kept (hj : s.procs[j]? = some q) (hij : i ≠ j)
    (hq : nx.node.up = true ∨ q.node ≠ n) : (s.advance i n nx).procs[j]? = some q := by
  have hset : (s.procs.set i ⟨n, nx.pc⟩)[j]? = some q := (getElem?_set_ne hij).trans hj
  simp only [advance]
  split
  · exact hset
  · rename_i hup
    rw [killProcs, getElem?_map, hset, Option.map_some]
    rw [if_neg (hq.resolve_left hup)]

theorem advance_self (hi : i < s.procs.length) (hup : nx.node.up = true) :
    (s.advance i n nx).procs[i]? = some ⟨n, nx.pc⟩ := by
  simp only [advance, hup, if_true]
  exact getElem?_set_self hi

theorem advance_node : (s.advance i n nx).nodes m = if m = n then nx.node else s.nodes m :=
  setNode_nodes

end Advance

end Cluster

end Bridge.Distributed
