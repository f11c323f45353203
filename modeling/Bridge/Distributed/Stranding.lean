import Bridge.Distributed.Tended

/-!
# No task is stranded, and when one is

`Placed` says where a submitted task may be: closed, queued, held by a thread, claimed by a node
that is listed in `nodes:active`, or claimed by one whose failover `g` has still to handle. Every
step of a tended run keeps every task placed. Without the condition on `shutdown` a task is stranded
for good: `shutdown_strands_task`.
-/

namespace Bridge.Distributed

open Lib List

theorem Update.closed_or_holds (n : NodeId) (now : Nat) (t : TaskId) (d : TaskData) (u : Update) :
    (u.apply n now d).Closed ∨ (u.return t).holds = some t := by
  cases u with
  | processing => exact .inr rfl
  | completed => exact .inl (.inl rfl)
  | failed | maxRetries => exact .inl (.inr rfl)

variable {n : NodeId} {d : TaskData}

theorem holds_or_writes {i : Nat} {nd : Node} {ks : Keyspace Text} {inp : Input}
    {pc : Pc} {nx : Next} {t : TaskId} (hh : pc.holds = some t)
    (hrec : recordOf ks t = some d) (h : pc.exec i n nd ks inp = some nx) :
    nx.pc.holds = some t ∨ (∃ u e, pc = .store u t e) ∨ ∃ c e, pc = .enqueue c t e := by
  have hread := readTask_of_record hrec
  have hupdate : ∀ {u : Update} {x : TaskId}, u.holds x = some t → x = t := by
    intro u x hx
    cases u with
    | maxRetries c =>
      cases c with
      | execute => exact Option.some.inj hx
      | failover => simp [Update.holds, Caller.holds] at hx
    | _ => exact Option.some.inj hx
  cases pc with
  | enter x => cases h; exact .inl hh
  | load x =>
    simp only [Pc.exec] at h
    split at h <;> cases h <;> exact .inl hh
  | process x m =>
    simp only [Pc.exec] at h
    split at h <;> cases h <;> exact .inl hh
  | update u x =>
    cases hupdate hh
    simp only [Pc.exec, hread] at h
    cases h
    exact .inl hh
  | store u x e =>
    cases hupdate hh
    exact .inr (.inl ⟨u, e, rfl⟩)
  | requeue c x =>
    cases c with
    | execute =>
      cases hh
      simp only [Pc.exec, hread] at h
      split at h <;> cases h <;> exact .inl rfl
    | failover => simp [Pc.holds, Caller.holds] at hh
  | enqueue c x e =>
    cases c with
    | execute =>
      cases hh
      exact .inr (.inr ⟨.execute, e, rfl⟩)
    | failover => simp [Pc.holds, Caller.holds] at hh
  | _ => simp [Pc.holds] at hh

theorem Sweep.writes_of_past {x : NodeId} {ks ks' : Keyspace Text} {pc pc' : Pc} {t : TaskId}
    (h : Sweep x ks pc ks' pc') (hon : pc.on = some t) (hon' : pc'.on ≠ some t) :
    (∃ u e, pc = .store u t e) ∨ ∃ c e, pc = .enqueue c t e := by
  cases h with
  | mark => cases hon; exact .inl ⟨_, _, rfl⟩
  | put => cases hon; exact .inr ⟨_, _, rfl⟩
  | full | room | read => exact absurd hon hon'
  | _ => simp [Pc.on] at hon

namespace Cluster

/-- The failover of `x` is still to be handled on `g`, as far as `t` is concerned. -/
def Awaited (g : NodeId) (s : Cluster) (t : TaskId) (x : NodeId) : Prop :=
  .failover x ∈ (s.nodes g).inbox ∨
    ∃ p ∈ s.procs, p.node = g ∧ p.pc.failing = some x ∧ ¬ p.pc.Past t

inductive Placed (g : NodeId) (s : Cluster) (t : TaskId) : Prop
  | finished : s.Finished t → Placed g s t
  | queued : t ∈ queueOf s.redis → Placed g s t
  | held {p : Proc} : p ∈ s.procs → p.pc.holds = some t → Placed g s t
  | listed {x : NodeId} : claimOf s.redis t = some x → x ∈ activeOf s.redis → Placed g s t
  | awaited {x : NodeId} : claimOf s.redis t = some x → Awaited g s t x → Placed g s t

/-! ## A thread's step -/

namespace Stepping

variable {g : NodeId} {s : Cluster} {i : Nat} {inp : Input} {p : Proc} {nx : Next} {t : TaskId}
  {x : NodeId} (h : Stepping g s i inp p nx)

include h

theorem self_mem (hne : nx.pc ≠ .done) : ⟨p.node, nx.pc⟩ ∈ (s.after i p nx).procs := by
  have hi : i < s.procs.length := (List.getElem?_eq_some_iff.mp h.proc).1
  rcases h.nodeEffect.up h.up with hup | ⟨-, hdone, -⟩
  · exact mem_of_getElem? (advance_self hi hup)
  · exact absurd hdone hne

theorem other_mem {j : Nat} {q : Proc} (hj : s.procs[j]? = some q) (hij : i ≠ j)
    (hq : p.pc = .quit → q.node ≠ p.node) : q ∈ (s.after i p nx).procs := by
  refine mem_of_getElem? (advance_kept hj hij ?_)
  rcases h.nodeEffect.up h.up with hup | ⟨hpc, -, -⟩
  · exact .inl hup
  · exact .inr (hq hpc)

theorem placed_self (hh : nx.pc.holds = some t) : Placed g (s.after i p nx) t :=
  .held (h.self_mem fun hd => absurd hh (by simp [hd, Pc.holds])) hh

theorem placed_store {u : Update} (hpc : p.pc = .store u t d) : Placed g (s.after i p nx) t := by
  have hexec := h.exec
  rw [hpc] at hexec
  rcases Update.closed_or_holds p.node inp.now t d u with hc | hh
  · refine .finished ⟨u.apply p.node inp.now d, ?_, hc⟩
    cases hexec
    exact recordOf_setTask.trans (if_pos rfl)
  · refine h.placed_self ?_
    cases hexec
    exact hh

theorem placed_enqueue {c : Caller} (hpc : p.pc = .enqueue c t d) :
    Placed g (s.after i p nx) t := by
  have hq := (h.orderly.stored.plain t (h.sound.enqueue hpc)).2
  refine .queued ?_
  have hexec := h.exec
  rw [hpc] at hexec
  cases hexec
  exact (mem_queueOf_put hq h.orderly.stored.isZSet).mpr (.inl rfl)

theorem placed_finished (ht : s.submitted t) (hfin : s.Finished t) :
    Placed g (s.after i p nx) t := by
  obtain ⟨d, hd, hclosed⟩ := hfin
  rcases recordOf_after h.orderly.stored h.effect ht with hsame | ⟨u, e, hpc, -⟩ | ⟨c, e, hpc, -⟩
  · exact .finished ⟨d, hsame.trans hd, hclosed⟩
  · exact h.placed_store hpc
  · exact h.placed_enqueue hpc

/-- Executed or not, what the claim script has popped is claimed in the name of a listed node. -/
theorem placed_claim (hclaim : claimOf nx.redis t = some p.node) (hpc : p.pc = .claim) :
    Placed g (s.after i p nx) t :=
  .listed hclaim (h.engaged_listed h.mem (by rw [hpc]; rfl))

theorem placed_queued (hmem : t ∈ queueOf s.redis) : Placed g (s.after i p nx) t := by
  rcases queueOf_after h.orderly.stored h.sound h.effect hmem with hq | ⟨hclaim, hpc⟩
  · exact .queued hq
  · exact h.placed_claim hclaim hpc

theorem placed_held {q : Proc} (hq : q ∈ s.procs) (hh : q.pc.holds = some t) :
    Placed g (s.after i p nx) t := by
  obtain ⟨j, hj⟩ := mem_iff_getElem?.mp hq
  by_cases hij : i = j
  · -- the holder itself moves
    subst hij
    cases hj.symm.trans h.proc
    obtain ⟨d, hd⟩ := h.orderly.stored.record t (h.sound.task t (Pc.task_of_holds hh))
    rcases holds_or_writes hh hd h.exec with hh' | ⟨u, e, hpc⟩ | ⟨c, e, hpc⟩
    · exact h.placed_self hh'
    · exact h.placed_store hpc
    · exact h.placed_enqueue hpc
  · refine .held (h.other_mem hj hij fun hpc hqn => ?_) hh
    have htended := h.tended
    rw [TendedAt, hpc] at htended
    simp [htended q hq hqn] at hh

theorem claim_kept (ht : s.submitted t) (hx : claimOf s.redis t = some x) :
    claimOf (s.after i p nx).redis t = some x ∨ Placed g (s.after i p nx) t := by
  rcases claimOf_after h.orderly.stored h.sound h.effect t with hsame | ⟨-, hclaim, hpc⟩ | ⟨hpc, -⟩
  · exact .inl (hsame.trans hx)
  · exact .inr (h.placed_claim hclaim hpc)
  · have htended := h.tended
    rw [TendedAt, hpc] at htended
    rcases htended.2 with hq | hfin
    · exact .inr (h.placed_queued hq)
    · exact .inr (h.placed_finished ht hfin)

theorem awaited_of_fail {xs : List NodeId} (hpc : p.pc = .fail x xs) :
    Awaited g (s.after i p nx) t x := by
  have htended := h.tended
  rw [TendedAt, hpc] at htended
  refine .inl (broadcast_inbox.mpr (.inr ?_))
  have hexec := h.exec
  rw [hpc] at hexec
  cases hexec
  refine ⟨?_, mem_singleton.mpr rfl⟩
  rw [advance_node]
  split_ifs with hg
  · exact hg ▸ htended.2.2
  · exact htended.2.2

theorem placed_listed (ht : s.submitted t) (hx : claimOf s.redis t = some x)
    (hmem : x ∈ activeOf s.redis) : Placed g (s.after i p nx) t := by
  rcases h.claim_kept ht hx with hx' | hplaced
  · rcases h.active_kept hmem with hmem | ⟨hpc, rfl⟩ | ⟨xs, hpc⟩
    · exact .listed hx' hmem
    · have htended := h.tended
      rw [TendedAt, hpc] at htended
      exact absurd hx (htended.2.2 t (mem_submissions.mpr ht))
    · exact .awaited hx' (h.awaited_of_fail hpc)
  · exact hplaced

theorem quit_ne (hpc : p.pc = .quit) : g ≠ p.node := (h.sound.stays (.inr hpc)).symm

theorem inbox_kept {msg : ClusterMsg} (hm : msg ∈ (s.nodes g).inbox) :
    msg ∈ ((s.after i p nx).nodes g).inbox := by
  refine broadcast_inbox.mpr (.inl ?_)
  rw [advance_node]
  split_ifs with hg
  · rcases h.nodeEffect.inbox with hin | ⟨hpc, -⟩
    · rw [hin, ← hg]
      exact hm
    · exact absurd hg (h.quit_ne hpc)
  · exact hm

theorem placed_handler (hx : claimOf s.redis t = some x)
    (hx' : claimOf (s.after i p nx).redis t = some x) (hg : p.node = g)
    (hf : p.pc.failing = some x) (hpast : ¬ p.pc.Past t) : Placed g (s.after i p nx) t := by
  have hst := h.orderly.stored
  have hh := h.sound.handler x hf
  obtain ⟨hsweep, -, -⟩ := sweep_of_exec (hst.recoverable x) hh hst.record h.exec
  by_cases hpast' : nx.pc.Past t
  · have hon := (hsweep.past hx hpast').resolve_left hpast
    rcases hsweep.writes_of_past hon hpast'.2 with ⟨u, e, hpc⟩ | ⟨c, e, hpc⟩
    · exact h.placed_store hpc
    · exact h.placed_enqueue hpc
  · have hne : nx.pc ≠ .done := by
      intro hd
      rw [hd] at hpast'
      exact hpast' ⟨by simp [Pc.Waits, Pc.todo], nofun⟩
    have hh' := hsweep.handler hh fun u hu => hst.claimed u x hu
    exact .awaited hx' (.inr ⟨_, h.self_mem hne, hg, Handler.failing_eq hh' hne, hpast'⟩)

theorem placed_awaited (ht : s.submitted t) (hx : claimOf s.redis t = some x)
    (hwait : Awaited g s t x) : Placed g (s.after i p nx) t := by
  rcases h.claim_kept ht hx with hx' | hplaced
  · rcases hwait with hmsg | ⟨q, hq, hqg, hf, hpast⟩
    · exact .awaited hx' (.inl (h.inbox_kept hmsg))
    · obtain ⟨j, hj⟩ := mem_iff_getElem?.mp hq
      by_cases hij : i = j
      · subst hij
        cases hj.symm.trans h.proc
        exact h.placed_handler hx hx' hqg hf hpast
      · have hkept := h.other_mem hj hij fun hpc hqn => h.quit_ne hpc (hqg.symm.trans hqn)
        exact .awaited hx' (.inr ⟨q, hkept, hqg, hf, hpast⟩)
  · exact hplaced

/-- **A thread's step keeps every task placed.** -/
theorem placed (ht : s.submitted t) (hplaced : Placed g s t) : Placed g (s.after i p nx) t := by
  cases hplaced with
  | finished hfin => exact h.placed_finished ht hfin
  | queued hq => exact h.placed_queued hq
  | held hq hh => exact h.placed_held hq hh
  | listed hx hmem => exact h.placed_listed ht hx hmem
  | awaited hx hwait => exact h.placed_awaited ht hx hwait

end Stepping

/-! ## The other actions -/

section Calm

variable {g : NodeId} {s s' : Cluster} {t : TaskId}

section Placed

variable (h : Placed g s t)
include h

theorem Placed.calm (hsame : Same s.redis s'.redis)
    (hlook : s'.redis.lookup activeKey = s.redis.lookup activeKey)
    (hheld : ∀ p ∈ s.procs, p.pc.holds = some t → Placed g s' t)
    (hwait : ∀ x, Awaited g s t x → Awaited g s' t x) : Placed g s' t := by
  cases h with
  | finished hfin =>
    obtain ⟨d, hd, hclosed⟩ := hfin
    exact .finished ⟨d, (hsame.record t).trans hd, hclosed⟩
  | queued hq => exact .queued (hsame.queue ▸ hq)
  | held hp hh => exact hheld _ hp hh
  | listed hx hmem =>
    refine .listed ((hsame.claim t).trans hx) ?_
    rw [activeOf, Keyspace.smembers_congr hlook]
    exact hmem
  | awaited hx hw => exact .awaited ((hsame.claim t).trans hx) (hwait _ hw)

theorem Placed.grow (hredis : s'.redis = s.redis) (hprocs : ∀ p ∈ s.procs, p ∈ s'.procs)
    (hinbox : ∀ x, .failover x ∈ (s.nodes g).inbox → Awaited g s' t x) : Placed g s' t := by
  refine h.calm (hredis ▸ .refl) (by rw [hredis]) (fun p hp hh => .held (hprocs p hp) hh) ?_
  intro x hw
  rcases hw with hmsg | ⟨p, hp, hrest⟩
  · exact hinbox x hmsg
  · exact .inr ⟨p, hprocs p hp, hrest⟩

theorem Placed.crash (horder : Orderly g s) (hng : n ≠ g) :
    Placed g { s.setNode n .down with procs := killProcs n s.procs } t := by
  have hkept : ∀ p ∈ s.procs, p.node ≠ n → p ∈ killProcs n s.procs := by
    intro p hp hpn
    exact mem_map.mpr ⟨p, hp, if_neg hpn⟩
  refine h.calm .refl rfl (fun p hp hh => ?_) (fun x hw => ?_)
  · by_cases hpn : p.node = n
    · have hsound := horder.sound p hp
      exact .listed (hsound.owner t hh) (hsound.listed (Pc.engaged_of_holds hh))
    · exact .held (hkept p hp hpn) hh
  · rcases hw with hmsg | ⟨p, hp, hpg, hrest⟩
    · refine .inl ?_
      rw [setNode_nodes, if_neg hng.symm]
      exact hmsg
    · exact .inr ⟨p, hkept p hp fun hpn => hng (hpn.symm.trans hpg), hpg, hrest⟩

theorem Placed.receive (horder : Orderly g s) (hs : s.step (.receive n) = some s') :
    Placed g s' t := by
  obtain ⟨msg, rest, hin, hcases⟩ := step_receive hs
  have hrest : ∀ x, .failover x ∈ (s.nodes g).inbox → (n = g ∧ msg = .failover x) ∨
        .failover x ∈ ((s.setNode n { s.nodes n with inbox := rest }).nodes g).inbox := by
    intro x hx
    rw [setNode_nodes]
    split_ifs with hg
    · rw [hg, hin] at hx
      exact (mem_cons.mp hx).imp (fun heq => ⟨hg.symm, heq.symm⟩) id
    · exact .inr hx
  rcases hcases with ⟨hmsg, rfl⟩ | ⟨y, -, hmsg, rfl⟩ | ⟨u, q, hmsg, rfl⟩
  · refine h.grow rfl (fun _ hp => hp) fun x hx => ?_
    rcases hrest x hx with ⟨rfl, heq⟩ | hmem
    · -- `g` would have failed itself
      cases hmsg.symm.trans heq
      exact absurd rfl (horder.inbox n hx)
    · exact .inl hmem
  · refine h.grow rfl (fun _ hp => mem_append_left _ hp) fun x hx => ?_
    rcases hrest x hx with ⟨rfl, heq⟩ | hmem
    · cases hmsg.symm.trans heq
      exact .inr ⟨_, mem_append_right _ (mem_singleton.mpr rfl), rfl, rfl,
        fun hpast => hpast.1 trivial⟩
    · exact .inl hmem
  · refine h.grow rfl (fun _ hp => mem_append_left _ hp) fun x hx => ?_
    rcases hrest x hx with ⟨-, heq⟩ | hmem
    · exact absurd (hmsg.symm.trans heq) (by simp)
    · exact .inl hmem

theorem Placed.start (horder : Orderly g s) {k : Nat}
    (hs : s.step (.start n k) = some s') : Placed g s' t := by
  simp only [step] at hs
  split at hs
  · cases hs
  · rename_i hup
    cases hs
    refine h.grow rfl (fun _ hp => mem_append_left _ hp) fun x hx => .inl ?_
    have hg : g ≠ n := fun hg => hup (hg ▸ horder.up_of_inbox hx)
    show .failover x ∈ ((s.setNode n _).nodes g).inbox
    rw [setNode_nodes, if_neg hg]
    exact hx

theorem Placed.shutdown (hng : n ≠ g) (hs : s.step (.shutdown n) = some s') : Placed g s' t := by
  simp only [step] at hs
  split at hs
  · cases hs
    refine h.grow rfl (fun _ hp => mem_append_left _ hp) fun x hx => .inl ?_
    show .failover x ∈ ((s.setNode n _).nodes g).inbox
    rw [setNode_nodes, if_neg hng.symm]
    exact hx
  · cases hs

end Placed

theorem Placed.submit (horder : Orderly g s) {m : Message} {now : Nat}
    (hplain : ':' ∉ m.id.toList ∧ m.id ≠ "queue") (h : t ≠ m.id → Placed g s t) :
    Placed g (s.submitTask n m now) t := by
  have hclaim : claimOf (s.submitTask n m now).redis t = claimOf s.redis t :=
    claimOf_submitTask hplain.1 t
  by_cases ht : t = m.id
  · exact .queued ((mem_queueOf_put hplain.2 horder.stored.isZSet).mpr (.inl ht))
  · cases h ht with
    | finished hfin =>
      obtain ⟨d, hd, hclosed⟩ := hfin
      refine .finished ⟨d, ?_, hclosed⟩
      rw [submitTask, recordOf_zadd, recordOf_setTask, if_neg ht]
      exact hd
    | queued hq => exact .queued ((mem_queueOf_put hplain.2 horder.stored.isZSet).mpr (.inr hq))
    | held hp hh => exact .held hp hh
    | listed hx hmem =>
      refine .listed (hclaim.trans hx) ?_
      rw [activeOf, Keyspace.smembers_congr lookup_active_submitTask]
      exact hmem
    | awaited hx hw => exact .awaited (hclaim.trans hx) hw

end Calm

/-- **One step of a tended run keeps every task placed.** -/
theorem placed_step {g : NodeId} {s s' : Cluster} {a : Action} (horder : Orderly g s)
    (h : ∀ t, s.submitted t → Placed g s t) (ha : s.Tended g a) (hs : s.step a = some s') :
    ∀ t, s'.submitted t → Placed g s' t := by
  intro t ht
  cases a with
  | step i inp =>
    obtain ⟨p, nx, hp, hup, hnx, rfl⟩ := step_thread hs
    have hstep : Stepping g s i inp p nx := ⟨horder, hp, hup, ha p hp, hnx⟩
    have ht' := hstep.submitted_iff.mp ht
    exact hstep.placed ht' (h t ht')
  | submit n m now =>
    simp only [step] at hs
    split at hs <;> cases hs
    exact Placed.submit horder ha.2 fun hne => h t ((submitted_submitTask.mp ht).resolve_left hne)
  | receive n =>
    refine Placed.receive (h t ?_) horder hs
    obtain ⟨_, _, _, ⟨_, rfl⟩ | ⟨_, _, _, rfl⟩ | ⟨_, _, _, rfl⟩⟩ := step_receive hs <;> exact ht
  | start n k =>
    refine Placed.start (h t ?_) horder hs
    simp only [step] at hs
    split at hs <;> cases hs
    exact ht
  | shutdown n =>
    refine Placed.shutdown (h t ?_) ha hs
    simp only [step] at hs
    split at hs <;> cases hs
    exact ht
  | crash n =>
    simp only [step] at hs
    split at hs <;> cases hs
    exact (h t ht).crash horder ha
  | tick n | heartbeat n =>
    simp only [step] at hs
    split at hs <;> cases hs
    exact (h t ht).grow rfl (fun _ hp => mem_append_left _ hp) fun x hx => .inl hx
  | publishPriority u q =>
    cases hs
    exact (h t ht).grow rfl (fun _ hp => hp) fun x hx => .inl (broadcast_inbox.mpr (.inl hx))
  | expireHeartbeat n =>
    cases hs
    exact (h t ht).calm .delNode (Keyspace.lookup_del_ne nodeKey_ne_activeKey.symm)
      (fun p hp hh => .held hp hh) fun x hw => hw
  | reject => cases ha

/-- **No submitted task is stranded by a node leaving**, in any run in which `g` stays up: a task
that is not closed is queued, held by a running node, or claimed by a node that is listed in
`nodes:active` or whose failover is still to be handled. -/
theorem no_task_stranded {g : NodeId} {s : Cluster}
    (h : Reaches Cluster.step (Tended g) init s) {t : TaskId} (ht : s.submitted t)
    (hopen : ¬ s.Finished t) :
    t ∈ queueOf s.redis ∨ (∃ p ∈ s.procs, p.pc.holds = some t ∧ (s.nodes p.node).up = true) ∨
      ∃ x, claimOf s.redis t = some x ∧ (x ∈ activeOf s.redis ∨ Awaited g s t x) := by
  have hinv := h.invariant (fun s => Orderly g s ∧ ∀ t, s.submitted t → Placed g s t)
    ⟨orderly_init, fun t ht => absurd ht (by simp [submitted, init])⟩
    fun ⟨horder, hplaced⟩ ha hs => ⟨horder.step ha hs, placed_step horder hplaced ha hs⟩
  cases hinv.2 t ht with
  | finished hfin => exact absurd hfin hopen
  | queued hq => exact .inl hq
  | @held p hp hh =>
    have hne : p.pc ≠ .done := fun hd => absurd hh (by simp [hd, Pc.holds])
    exact .inr (.inl ⟨p, hp, hh, (hinv.1.sound p hp).alive hne⟩)
  | listed hx hmem => exact .inr (.inr ⟨_, hx, .inl hmem⟩)
  | awaited hx hw => exact .inr (.inr ⟨_, hx, .inr hw⟩)

instance (d : TaskData) : Decidable d.Closed := inferInstanceAs (Decidable (_ ∨ _))

instance (s : Cluster) (t : TaskId) : Decidable (s.Finished t) :=
  match h : recordOf s.redis t with
  | none => .isFalse fun ⟨_, hd, _⟩ => absurd (h.symm.trans hd) nofun
  | some d => decidable_of_iff d.Closed
      ⟨fun hc => ⟨d, h, hc⟩, fun ⟨_, hd, hc⟩ => Option.some.inj (h.symm.trans hd) ▸ hc⟩

instance (g : NodeId) (s : Cluster) (p : Proc) : Decidable (s.TendedAt g p) := by
  unfold TendedAt
  split <;> infer_instance

instance (g : NodeId) (s : Cluster) : (a : Action) → Decidable (s.Tended g a)
  | .submit _ m _ =>
    inferInstanceAs (Decidable (¬ s.submitted m.id ∧ ':' ∉ m.id.toList ∧ m.id ≠ "queue"))
  | .step i _ => inferInstanceAs (Decidable (∀ p ∈ s.procs[i]?, s.TendedAt g p))
  | .crash n | .shutdown n => inferInstanceAs (Decidable (n ≠ g))
  | .reject .. => .isFalse id
  | .tick _ | .heartbeat _ | .publishPriority .. | .receive _ | .expireHeartbeat _
  | .start .. => .isTrue trivial

theorem shutdown_strands_task :
    ∃ s, exec step init (claimedByA ++ [.shutdown "a", .run 3 [], .run 3 []]) = some s ∧
      s.submitted "t" ∧ ¬ s.Finished "t" ∧ "t" ∉ queueOf s.redis ∧
      (∀ p ∈ s.procs, p.pc.holds ≠ some "t") ∧ claimOf s.redis "t" = some "a" ∧
      "a" ∉ activeOf s.redis ∧ (s.nodes "b").up = true ∧ (s.nodes "b").subscribed = true ∧
      (s.nodes "b").inbox = [] ∧ ∀ p ∈ s.procs, p.pc = .done :=
  ⟨_, rfl, by decide, by decide, by decide, by decide, rfl, by decide, rfl, rfl, rfl, by decide⟩

theorem crashed_task_awaited :
    ∃ s, execIf step (Tended "b") init (claimedByA ++ [.crash "a", .expireHeartbeat "a",
        .heartbeat "b", .run 3 [], .run 3 ["a", "b"], .run 3 [], .run 3 []]) = some s ∧
      s.submitted "t" ∧ ¬ s.Finished "t" ∧ "a" ∉ activeOf s.redis ∧
      ("t" ∈ queueOf s.redis ∨ (∃ p ∈ s.procs, p.pc.holds = some "t" ∧ (s.nodes p.node).up = true) ∨
        ∃ x, claimOf s.redis "t" = some x ∧ (x ∈ activeOf s.redis ∨ Awaited "b" s "t" x)) := by
  obtain ⟨s, hs, hsub, hopen, hact⟩ : ∃ s, execIf step (Tended "b") init (claimedByA ++
      [.crash "a", .expireHeartbeat "a", .heartbeat "b", .run 3 [], .run 3 ["a", "b"], .run 3 [],
        .run 3 []]) = some s ∧
      s.submitted "t" ∧ ¬ s.Finished "t" ∧ "a" ∉ activeOf s.redis :=
    ⟨_, rfl, by decide, by decide, by decide⟩
  exact ⟨s, hs, hsub, hopen, hact, no_task_stranded (reaches_of_execIf hs) hsub hopen⟩

end Cluster

end Bridge.Distributed
