import Mathlib.Algebra.GroupWithZero.Nat
import Bridge.Distributed.Priority

/-!
# The failover of a node

Every node that is left handles the `node:failover` message by itself: it lists all claim keys,
and for each one that names the failed node it calls `requeueTask` on the task the key is about.
Nothing is deleted, so the handlers do not see each other.
-/

namespace Bridge.Distributed

open Lib List

theorem claimKey_toList (t : TaskId) : (claimKey t).toList = "task:claim:".toList ++ t.toList := by
  simp [claimKey]

theorem claimedTask_claimKey (h : ':' ∉ t.toList) : claimedTask (claimKey t) = t := by
  have hsplit : (claimKey t).toList.splitOn ':' = ["task".toList, "claim".toList, t.toList] := by
    rw [claimKey_toList]
    exact congrArg (fun l => "task".toList :: "claim".toList :: l) (splitOn_eq_singleton h)
  rw [claimedTask, hsplit]
  simp

theorem exists_claimKey {k : String} (h : "task:claim:".toList.isPrefixOf k.toList = true) :
    ∃ t, k = claimKey t := by
  obtain ⟨l, hl⟩ := isPrefixOf_iff_prefix.mp h
  refine ⟨String.ofList l, String.toList_inj.mp ?_⟩
  rw [claimKey_toList, ← hl]
  simp

theorem ne_claim_of_plain (h : ':' ∉ t.toList) (u : TaskId) : t ≠ "claim:" ++ u := by
  rintro rfl
  exact h (by simp)

structure ClaimKeys (ks : List String) : Prop where
  nodup : ks.Nodup
  keys : ∀ k ∈ ks, ∃ t, k = claimKey t

theorem ClaimKeys.tail {k : String} {ks : List String} (h : ClaimKeys (k :: ks)) : ClaimKeys ks :=
  ⟨h.nodup.of_cons, fun k' hk => h.keys k' (mem_cons_of_mem _ hk)⟩

theorem claimKeys_of_perm {ks : Keyspace Text} {order : List String}
    (h : order.Perm (ks.keysWith "task:claim:")) : ClaimKeys order := by
  refine ⟨h.nodup_iff.mpr (List.Nodup.filter _ ks.keys_nodup), fun k hk => ?_⟩
  have hmem := (mem_filter.mp (h.mem_iff.mp hk)).2
  exact exists_claimKey hmem

/-! ## The steps of a handler -/

/-- What `handleNodeFailover` relies on: the queue is a sorted set, claims are texts, and every task
claimed by `x` has an id that can be read back from its claim key, and a record. -/
structure Recoverable (ks : Keyspace Text) (x : NodeId) : Prop where
  isZSet : ks.isZSet queueKey = true
  texts : ∀ t, ks.get (claimKey t) ≠ .wrongType
  plain : ∀ t, claimOf ks t = some x → ':' ∉ t.toList ∧ t ≠ "queue"
  record : ∀ t, claimOf ks t = some x → ∃ d, recordOf ks t = some d

/-- A step of the handler of the failover of `x`. -/
inductive Sweep (x : NodeId) (ks : Keyspace Text) : Pc → Keyspace Text → Pc → Prop
  | list {order : List String} : order.Perm (ks.keysWith "task:claim:") →
      Sweep x ks (.keys x) ks (.scan x order)
  | finish : Sweep x ks (.scan x []) ks .done
  | skip {t : TaskId} {rest : List String} : claimOf ks t ≠ some x →
      Sweep x ks (.scan x (claimKey t :: rest)) ks (.scan x rest)
  | take {t : TaskId} {rest : List String} : claimOf ks t = some x →
      Sweep x ks (.scan x (claimKey t :: rest)) ks (.requeue (.failover x rest) t)
  | full {t : TaskId} {rest : List String} {d : TaskData} : recordOf ks t = some d →
      3 ≤ d.retries → Sweep x ks (.requeue (.failover x rest) t) ks
        (.update (.maxRetries (.failover x rest)) t)
  | room {t : TaskId} {rest : List String} {d : TaskData} : recordOf ks t = some d →
      d.retries < 3 → Sweep x ks (.requeue (.failover x rest) t) ks
        (.enqueue (.failover x rest) t d)
  | read {t : TaskId} {rest : List String} {d : TaskData} : recordOf ks t = some d →
      Sweep x ks (.update (.maxRetries (.failover x rest)) t) ks
        (.store (.maxRetries (.failover x rest)) t d)
  | mark {t : TaskId} {rest : List String} {d : TaskData} (n : NodeId) (now : Nat) :
      Sweep x ks (.store (.maxRetries (.failover x rest)) t d)
        (ks.set (taskKey t) (.taskData ((Update.maxRetries (.failover x rest)).apply n now d)))
        (.scan x rest)
  | put {t : TaskId} {rest : List String} {d : TaskData} (sc : Int) :
      Sweep x ks (.enqueue (.failover x rest) t d)
        ((ks.set (taskKey t) (.taskData d.requeued)).zadd queueKey sc t) (.scan x rest)

/-- The points of the handler of the failover of `x`; `orphan` are the tasks it may be at. -/
def Pc.Handler (x : NodeId) (orphan : TaskId → Prop) : Pc → Prop
  | .keys y => y = x
  | .scan y rest => y = x ∧ ClaimKeys rest
  | .requeue (.failover y rest) t => y = x ∧ orphan t ∧ ClaimKeys (claimKey t :: rest)
  | .update (.maxRetries (.failover y rest)) t => y = x ∧ orphan t ∧ ClaimKeys (claimKey t :: rest)
  | .store (.maxRetries (.failover y rest)) t _ =>
    y = x ∧ orphan t ∧ ClaimKeys (claimKey t :: rest)
  | .enqueue (.failover y rest) t _ => y = x ∧ orphan t ∧ ClaimKeys (claimKey t :: rest)
  | .done => True
  | _ => False

variable {d : TaskData}

section Handler

variable {x : NodeId} {P : TaskId → Prop} {ks ks' : Keyspace Text} {pc pc' : Pc}

theorem get_claimKey (hr : Recoverable ks x) (t : TaskId) :
    (ks.get (claimKey t) = .nil ∧ claimOf ks t ≠ some x) ∨
      ∃ text, ks.get (claimKey t) = .bulk text ∧ (text = .nodeId x ↔ claimOf ks t = some x) := by
  cases hg : ks.get (claimKey t) with
  | nil =>
    refine .inl ⟨rfl, fun hc => ?_⟩
    simp [claimOf_eq_some.mp hc] at hg
  | wrongType => exact absurd hg (hr.texts t)
  | bulk text =>
    refine .inr ⟨text, rfl, ?_⟩
    rw [claimOf_eq_some, hg]
    simp

theorem Pc.Handler.elim {motive : (pc : Pc) → pc.Handler x P → Prop} (keys : motive (.keys x) rfl)
    (scan : ∀ rest (hkeys : ClaimKeys rest), motive (.scan x rest) ⟨rfl, hkeys⟩)
    (requeue : ∀ rest t (h : P t) (hkeys : ClaimKeys (claimKey t :: rest)),
      motive (.requeue (.failover x rest) t) ⟨rfl, h, hkeys⟩)
    (update : ∀ rest t (h : P t) (hkeys : ClaimKeys (claimKey t :: rest)),
      motive (.update (.maxRetries (.failover x rest)) t) ⟨rfl, h, hkeys⟩)
    (store : ∀ rest t d (h : P t) (hkeys : ClaimKeys (claimKey t :: rest)),
      motive (.store (.maxRetries (.failover x rest)) t d) ⟨rfl, h, hkeys⟩)
    (enqueue : ∀ rest t d (h : P t) (hkeys : ClaimKeys (claimKey t :: rest)),
      motive (.enqueue (.failover x rest) t d) ⟨rfl, h, hkeys⟩)
    (done : motive .done trivial) (pc : Pc) (hh : pc.Handler x P) : motive pc hh := by
  unfold Pc.Handler at hh
  split at hh
  · cases hh
    exact keys
  · obtain ⟨rfl, hkeys⟩ := hh
    exact scan _ hkeys
  · obtain ⟨rfl, h, hkeys⟩ := hh
    exact requeue _ _ h hkeys
  · obtain ⟨rfl, h, hkeys⟩ := hh
    exact update _ _ h hkeys
  · obtain ⟨rfl, h, hkeys⟩ := hh
    exact store _ _ _ h hkeys
  · obtain ⟨rfl, h, hkeys⟩ := hh
    exact enqueue _ _ _ h hkeys
  · exact done
  · cases hh

/-- **The steps of a handler are those of `Sweep`.** -/
theorem sweep_of_exec {i : Nat} {n : NodeId} {nd : Node} {inp : Input} {nx : Next}
    (hr : Recoverable ks x) (hh : pc.Handler x P) (hP : ∀ t, P t → ∃ d, recordOf ks t = some d)
    (h : pc.exec i n nd ks inp = some nx) :
    Sweep x ks pc nx.redis nx.pc ∧ nx.node = nd ∧ nx.sent = [] := by
  cases pc, hh using Pc.Handler.elim with
  | keys =>
    simp only [Pc.exec] at h
    split at h <;> cases h
    exact ⟨.list ‹_›, rfl, rfl⟩
  | scan rest hkeys =>
    cases rest with
    | nil => cases h; exact ⟨.finish, rfl, rfl⟩
    | cons k rest =>
      obtain ⟨t, rfl⟩ := hkeys.keys k mem_cons_self
      rcases get_claimKey hr t with ⟨hg, hc⟩ | ⟨text, hg, hiff⟩
      · simp only [Pc.exec, hg] at h
        cases h
        exact ⟨.skip hc, rfl, rfl⟩
      · simp only [Pc.exec, hg] at h
        split at h <;> cases h
        · have hc := hiff.mp ‹_›
          rw [claimedTask_claimKey (hr.plain t hc).1]
          exact ⟨.take hc, rfl, rfl⟩
        · exact ⟨.skip fun hc => ‹¬ _› (hiff.mpr hc), rfl, rfl⟩
  | requeue rest t horphan =>
    obtain ⟨d, hd⟩ := hP t horphan
    simp only [Pc.exec, readTask_of_record hd] at h
    split at h <;> cases h
    · exact ⟨.full hd (by omega), rfl, rfl⟩
    · exact ⟨.room hd (by omega), rfl, rfl⟩
  | update rest t horphan =>
    obtain ⟨d, hd⟩ := hP t horphan
    simp only [Pc.exec, readTask_of_record hd] at h
    cases h
    exact ⟨.read hd, rfl, rfl⟩
  | store =>
    cases h
    exact ⟨.mark n inp.now, rfl, rfl⟩
  | enqueue =>
    cases h
    exact ⟨.put _, rfl, rfl⟩
  | done => simp [Pc.exec] at h

theorem exec_handler (ks : Keyspace Text) (hh : pc.Handler x P) (hd : pc ≠ .done) (i : Nat)
    (n : NodeId) (nd : Node) : ∃ inp nx, pc.exec i n nd ks inp = some nx := by
  let inp : Input := ⟨0, .ok ⟨true⟩, ks.keysWith "task:claim:"⟩
  refine ⟨inp, Option.isSome_iff_exists.mp ?_⟩
  cases pc with
  | keys y => simp [Pc.exec, inp]
  | scan y rest =>
    cases rest with
    | nil => rfl
    | cons k rest =>
      simp only [Pc.exec]
      split
      · rfl
      · rfl
      · split <;> rfl
  | requeue c t =>
    simp only [Pc.exec]
    split
    · rfl
    · rfl
    · split <;> rfl
  | update u t =>
    simp only [Pc.exec]
    split <;> rfl
  | store | enqueue => rfl
  | done => exact absurd rfl hd
  | _ => cases hh

theorem Sweep.writes (h : Sweep x ks pc ks' pc') :
    ks' = ks ∨ (∃ t d, (Pc.Handler x (fun u => claimOf ks u = some x) pc → claimOf ks t = some x) ∧
      (ks' = ks.set (taskKey t) (.taskData d) ∨
        ∃ sc, ks' = (ks.set (taskKey t) (.taskData d)).zadd queueKey sc t)) := by
  cases h with
  | mark n now => exact .inr ⟨_, _, fun hh => hh.2.1, .inl rfl⟩
  | put sc => exact .inr ⟨_, _, fun hh => hh.2.1, .inr ⟨sc, rfl⟩⟩
  | _ => exact .inl rfl

theorem Recoverable.setTask (hr : Recoverable ks x) (ht : claimOf ks t = some x) :
    Recoverable (ks.set (taskKey t) (.taskData d)) x ∧
      ∀ u, claimOf (ks.set (taskKey t) (.taskData d)) u = claimOf ks u := by
  obtain ⟨hplain, hqueue⟩ := hr.plain t ht
  have hclaim : ∀ u, claimOf (ks.set (taskKey t) (.taskData d)) u = claimOf ks u := fun u =>
    claimOf_setTask (ne_claim_of_plain hplain u)
  refine ⟨⟨?_, ?_, ?_, ?_⟩, hclaim⟩
  · exact isZSet_setTask hqueue hr.isZSet
  · intro u
    have hne : claimKey u ≠ taskKey t := fun hk =>
      ne_claim_of_plain hplain u (taskKey_eq_claimKey.mp hk.symm)
    rw [Keyspace.get_set_ne hne]
    exact hr.texts u
  · intro u hu
    exact hr.plain u (hclaim u ▸ hu)
  · intro u hu
    rw [recordOf_setTask]
    split_ifs
    · exact ⟨d, rfl⟩
    · exact hr.record u (hclaim u ▸ hu)

theorem Recoverable.zadd (hr : Recoverable ks x) {sc : Int} :
    Recoverable (ks.zadd queueKey sc t) x where
  isZSet := Keyspace.isZSet_zadd hr.isZSet
  texts u := by
    rw [Keyspace.get_zadd_ne claimKey_ne_queueKey]
    exact hr.texts u
  plain u hu := hr.plain u (by simpa using hu)
  record u hu := by simpa using hr.record u (by simpa using hu)

theorem Sweep.recoverable (h : Sweep x ks pc ks' pc') (hr : Recoverable ks x)
    (hh : pc.Handler x fun t => claimOf ks t = some x) :
    Recoverable ks' x ∧ ∀ u, claimOf ks' u = claimOf ks u := by
  rcases h.writes with rfl | ⟨t, d, horphan, rfl | ⟨sc, rfl⟩⟩
  · exact ⟨hr, fun _ => rfl⟩
  · exact hr.setTask (horphan hh)
  · obtain ⟨hr', hclaim⟩ := hr.setTask (d := d) (horphan hh)
    exact ⟨hr'.zadd, fun u => by rw [claimOf_zadd, hclaim]⟩

theorem Sweep.handler (h : Sweep x ks pc ks' pc') (hh : pc.Handler x P)
    (hP : ∀ t, claimOf ks t = some x → P t) : pc'.Handler x P := by
  cases h with
  | list hperm => exact ⟨rfl, claimKeys_of_perm hperm⟩
  | finish => exact trivial
  | skip _ => exact ⟨rfl, hh.2.tail⟩
  | take hc => exact ⟨rfl, hP _ hc, hh.2⟩
  | full | room | read => exact hh
  | mark | put => exact ⟨rfl, hh.2.2.tail⟩

end Handler

/-! ## What one handler does to one task -/

/-- The claim keys a handler has not looked at yet, once it has listed them. -/
def Pc.todo : Pc → List String
  | .scan _ rest => rest
  | .requeue (.failover _ rest) _ => rest
  | .update (.maxRetries (.failover _ rest)) _ => rest
  | .store (.maxRetries (.failover _ rest)) _ _ => rest
  | .enqueue (.failover _ rest) _ _ => rest
  | _ => []

def Pc.on : Pc → Option TaskId
  | .requeue (.failover _ _) t => some t
  | .update (.maxRetries (.failover _ _)) t => some t
  | .store (.maxRetries (.failover _ _)) t _ => some t
  | .enqueue (.failover _ _) t _ => some t
  | _ => none

def Pc.Waits (t : TaskId) : Pc → Prop
  | .keys _ => True
  | pc => claimKey t ∈ pc.todo

def Pc.Past (t : TaskId) (pc : Pc) : Prop := ¬ pc.Waits t ∧ pc.on ≠ some t

/-- The task is as it was: its record is `d`, and it is queued if it was. -/
structure Intact (t : TaskId) (d : TaskData) (queued : Prop) (ks : Keyspace Text) : Prop where
  record : recordOf ks t = some d
  queue : t ∈ queueOf ks ↔ queued

/-- The task has been through one `requeueTask`: one more retry and a queue entry, or, with no retry
left, the status `failed`. -/
structure Swept (t : TaskId) (d : TaskData) (queued : Prop) (ks : Keyspace Text) : Prop where
  requeued : d.retries < 3 → recordOf ks t = some d.requeued ∧ t ∈ queueOf ks
  failed : 3 ≤ d.retries → ∃ d', recordOf ks t = some d' ∧ d'.retries = d.retries ∧
    d'.status = .failed ∧ (t ∈ queueOf ks ↔ queued)

def Pc.Fits (d : TaskData) : Pc → Prop
  | .update .. => 3 ≤ d.retries
  | .store _ _ d' => d' = d ∧ 3 ≤ d.retries
  | .enqueue _ _ d' => d' = d ∧ d.retries < 3
  | _ => True

/-- How far one handler, alone, has got with one task. -/
structure Progress (t : TaskId) (d : TaskData) (queued : Prop) (ks : Keyspace Text) (pc : Pc) :
    Prop where
  waits : pc.Waits t → Intact t d queued ks
  on : pc.on = some t → Intact t d queued ks ∧ pc.Fits d
  past : pc.Past t → Swept t d queued ks

section Progress

variable {x : NodeId} {ks ks' : Keyspace Text} {pc pc' : Pc} {u : TaskId}
  {queued : Prop}

theorem mem_keysWith_of_get (h : ks.get (claimKey t) ≠ .nil) :
    claimKey t ∈ ks.keysWith "task:claim:" := by
  refine mem_filter.mpr ⟨AList.mem_keys.mp ?_, ?_⟩
  · by_contra hnot
    rw [Keyspace.get, AList.lookup_eq_none.mpr hnot] at h
    exact h rfl
  · rw [claimKey_toList]
    exact isPrefixOf_iff_prefix.mpr (prefix_append _ _)

theorem claimKey_mem_keys (h : claimOf ks t = some x) : claimKey t ∈ ks.keysWith "task:claim:" :=
  mem_keysWith_of_get (by rw [claimOf_eq_some.mp h]; nofun)

theorem not_on_of_mem {rest : List String} (h : ClaimKeys (claimKey u :: rest))
    (ht : claimKey t ∈ rest) : some u ≠ some t := by
  intro heq
  cases heq
  exact (nodup_cons.mp h.nodup).1 ht

structure SameAt (t : TaskId) (ks ks' : Keyspace Text) : Prop where
  record : recordOf ks' t = recordOf ks t
  queue : t ∈ queueOf ks' ↔ t ∈ queueOf ks

theorem Intact.congr (h : Intact t d queued ks) (hs : SameAt t ks ks') : Intact t d queued ks' :=
  ⟨hs.record.trans h.record, hs.queue.trans h.queue⟩

theorem Swept.congr (h : Swept t d queued ks) (hs : SameAt t ks ks') : Swept t d queued ks' where
  requeued hd := ⟨hs.record.trans (h.requeued hd).1, hs.queue.mpr (h.requeued hd).2⟩
  failed hd := by
    obtain ⟨d', hrec, hret, hst, hq⟩ := h.failed hd
    exact ⟨d', hs.record.trans hrec, hret, hst, hs.queue.trans hq⟩

theorem Sweep.sameAt (h : Sweep x ks pc ks' pc') (hr : Recoverable ks x)
    (hh : pc.Handler x fun t => claimOf ks t = some x) (hne : pc.on ≠ some t) :
    SameAt t ks ks' := by
  cases h with
  | @mark u rest e n now =>
    have hu : t ≠ u := fun h => hne (h ▸ rfl)
    have hqueue : u ≠ "queue" := (hr.plain u hh.2.1).2
    exact ⟨by rw [recordOf_setTask, if_neg hu], by rw [queueOf_setTask hqueue]⟩
  | @put u rest e sc =>
    have hu : t ≠ u := fun h => hne (h ▸ rfl)
    refine ⟨by rw [recordOf_zadd, recordOf_setTask, if_neg hu], ?_⟩
    rw [mem_queueOf_put (hr.plain u hh.2.1).2 hr.isZSet, or_iff_right hu]
  | _ => exact ⟨rfl, Iff.rfl⟩

theorem swept_mark (hq : t ≠ "queue") (hi : Intact t d queued ks) (hd : 3 ≤ d.retries)
    {c : Caller} {n : NodeId} {now : Nat} :
    Swept t d queued (ks.set (taskKey t) (.taskData ((Update.maxRetries c).apply n now d))) := by
  refine ⟨fun hlt => absurd hd (by omega),
    fun _ => ⟨(Update.maxRetries c).apply n now d, ?_, ?_, ?_, ?_⟩⟩
  · rw [recordOf_setTask, if_pos rfl]
  · exact Update.apply_retries ..
  · exact Update.apply_status ..
  · rw [queueOf_setTask hq]
    exact hi.queue

theorem swept_put (hq : t ≠ "queue") (hz : ks.isZSet queueKey = true) (hd : d.retries < 3)
    {sc : Int} :
    Swept t d queued ((ks.set (taskKey t) (.taskData d.requeued)).zadd queueKey sc t) := by
  refine ⟨fun _ => ⟨?_, ?_⟩, fun hle => absurd hd (by omega)⟩
  · rw [recordOf_zadd, recordOf_setTask, if_pos rfl]
  · exact (mem_queueOf_put hq hz).mpr (.inl rfl)

section Sweep

variable (h : Sweep x ks pc ks' pc')
include h

theorem Sweep.past (ht : claimOf ks t = some x)
    (hpast : pc'.Past t) : pc.Past t ∨ pc.on = some t := by
  by_cases hon : pc.on = some t
  · exact .inr hon
  · refine .inl ⟨fun hw => ?_, hon⟩
    cases h with
    | list hperm => exact hpast.1 (hperm.mem_iff.mpr (claimKey_mem_keys ht))
    | finish => simp [Pc.Waits, Pc.todo] at hw
    | @skip u rest hc =>
      rcases mem_cons.mp hw with heq | hmem
      · exact hc (claimKey_inj.mp heq ▸ ht)
      · exact hpast.1 hmem
    | @take u rest hc =>
      rcases mem_cons.mp hw with heq | hmem
      · exact hpast.2 (by rw [claimKey_inj.mp heq]; rfl)
      · exact hpast.1 hmem
    | full | room | read | mark | put => exact hpast.1 hw

theorem Sweep.waits (hh : pc.Handler x fun t => claimOf ks t = some x) (hw : pc'.Waits t) :
    pc.Waits t ∧ pc.on ≠ some t := by
  cases h with
  | list hperm => exact ⟨trivial, by simp [Pc.on]⟩
  | finish => simp [Pc.Waits, Pc.todo] at hw
  | skip _ | take _ => exact ⟨mem_cons_of_mem _ hw, by simp [Pc.on]⟩
  | full | room | read | mark | put => exact ⟨hw, not_on_of_mem hh.2.2 hw⟩

theorem swept_of_leaving (hr : Recoverable ks x)
    (hh : pc.Handler x fun t => claimOf ks t = some x) (hon : pc.on = some t)
    (hon' : pc'.on ≠ some t) (hi : Intact t d queued ks) (hf : pc.Fits d) :
    Swept t d queued ks' := by
  cases h with
  | @mark u rest e n now =>
    cases hon
    obtain ⟨rfl, hd⟩ := hf
    exact swept_mark (hr.plain t hh.2.1).2 hi hd
  | @put u rest e sc =>
    cases hon
    obtain ⟨rfl, hd⟩ := hf
    exact swept_put (hr.plain t hh.2.1).2 hr.isZSet hd
  | full | room | read => exact absurd hon hon'
  | _ => simp [Pc.on] at hon

theorem fits_of_on (hon' : pc'.on = some t)
    (hp : Progress t d queued ks pc) : Intact t d queued ks' ∧ pc'.Fits d := by
  cases h with
  | take hc =>
    cases hon'
    exact ⟨hp.waits mem_cons_self, trivial⟩
  | full hrec hd =>
    cases hon'
    obtain ⟨hi, -⟩ := hp.on rfl
    cases hi.record.symm.trans hrec
    exact ⟨hi, hd⟩
  | room hrec hd =>
    cases hon'
    obtain ⟨hi, -⟩ := hp.on rfl
    cases hi.record.symm.trans hrec
    exact ⟨hi, rfl, hd⟩
  | read hrec =>
    cases hon'
    obtain ⟨hi, hf⟩ := hp.on rfl
    cases hi.record.symm.trans hrec
    exact ⟨hi, rfl, hf⟩
  | _ => simp [Pc.on] at hon'

end Sweep

/-- **One step of a handler that is alone.** -/
theorem Progress.step (hp : Progress t d queued ks pc) (h : Sweep x ks pc ks' pc')
    (hr : Recoverable ks x) (hh : pc.Handler x fun t => claimOf ks t = some x)
    (ht : claimOf ks t = some x) : Progress t d queued ks' pc' where
  waits hw := by
    obtain ⟨hw', hne⟩ := h.waits hh hw
    exact (hp.waits hw').congr (h.sameAt hr hh hne)
  on hon := fits_of_on h hon hp
  past hpast := by
    rcases h.past ht hpast with hpast' | hon
    · exact (hp.past hpast').congr (h.sameAt hr hh hpast'.2)
    · obtain ⟨hi, hf⟩ := hp.on hon
      exact swept_of_leaving h hr hh hon hpast.2 hi hf

end Progress

namespace Cluster

/-- Every thread is a handler of the failover of `x` on a node that is up, or done. -/
structure Sweeping (x : NodeId) (s : Cluster) : Prop where
  recoverable : Recoverable s.redis x
  handler : ∀ p ∈ s.procs, p.pc.Handler x fun t => claimOf s.redis t = some x
  up : ∀ p ∈ s.procs, p.pc ≠ .done → (s.nodes p.node).up = true

def OnlySteps (_ : Cluster) : Action → Prop
  | .step .. => True
  | _ => False

variable {x : NodeId} {pc : Pc}

theorem Handler.mono {P Q : TaskId → Prop} (h : pc.Handler x P)
    (hPQ : ∀ t, P t → Q t) : pc.Handler x Q := by
  cases pc, h using Pc.Handler.elim with
  | keys => exact rfl
  | scan rest hkeys => exact ⟨rfl, hkeys⟩
  | requeue rest t h hkeys | update rest t h hkeys => exact ⟨rfl, hPQ t h, hkeys⟩
  | store rest t d h hkeys | enqueue rest t d h hkeys => exact ⟨rfl, hPQ t h, hkeys⟩
  | done => exact trivial

variable {s s' : Cluster} {i : Nat} {inp : Input}

/-- **One step of one of the handlers.** -/
theorem Sweeping.step (h : Sweeping x s) (hs : s.step (.step i inp) = some s') :
    ∃ p pc', s.procs[i]? = some p ∧ Sweep x s.redis p.pc s'.redis pc' ∧
      s'.procs = s.procs.set i ⟨p.node, pc'⟩ ∧ Sweeping x s' ∧
      ∀ t, claimOf s'.redis t = claimOf s.redis t := by
  obtain ⟨p, nx, hp, hup, hnx, rfl⟩ := step_thread hs
  have hmem := mem_of_getElem? hp
  have hh := h.handler p hmem
  obtain ⟨hsweep, hnode, -⟩ := sweep_of_exec h.recoverable hh h.recoverable.record hnx
  obtain ⟨hrec, hclaim⟩ := hsweep.recoverable h.recoverable hh
  have hnodes : ∀ n, (((s.advance i p.node nx).broadcast nx.sent).nodes n).up = (s.nodes n).up := by
    intro n
    rw [broadcast_up]
    show (Function.update s.nodes p.node nx.node n).up = _
    rw [hnode, Function.update_eq_self]
  have hprocs : ((s.advance i p.node nx).broadcast nx.sent).procs =
      s.procs.set i ⟨p.node, nx.pc⟩ := by
    show (if nx.node.up then _ else _) = _
    rw [hnode, if_pos hup]
  refine ⟨p, nx.pc, hp, hsweep, hprocs, ⟨hrec, ?_, ?_⟩, hclaim⟩
  · intro q hq
    rw [hprocs] at hq
    have hcongr : ∀ t, claimOf s.redis t = some x ↔ claimOf nx.redis t = some x := fun t => by
      rw [hclaim]
    refine Handler.mono ?_ fun t => (hcongr t).mp
    rcases mem_or_eq_of_mem_set hq with hq | rfl
    · exact h.handler q hq
    · exact hsweep.handler hh fun _ ht => ht
  · intro q hq hne
    rw [hprocs] at hq
    rw [hnodes]
    rcases mem_or_eq_of_mem_set hq with hq | rfl
    · exact h.up q hq hne
    · exact hup

/-! ### Every run of them comes to an end -/

/-- Commands a handler has still to send, once it has listed the keys. -/
def weight : Pc → Nat
  | .scan _ rest => 5 * rest.length + 1
  | .requeue (.failover _ rest) _ => 5 * rest.length + 5
  | .update (.maxRetries (.failover _ rest)) _ => 5 * rest.length + 4
  | .store (.maxRetries (.failover _ rest)) _ _ => 5 * rest.length + 3
  | .enqueue (.failover _ rest) _ _ => 5 * rest.length + 3
  | _ => 0

def unlisted : Pc → Nat
  | .keys _ => 1
  | _ => 0

def effort (s : Cluster) : Nat × Nat :=
  ((s.procs.map fun p => unlisted p.pc).sum, (s.procs.map fun p => weight p.pc).sum)

theorem sum_map_set {f : Proc → Nat} : ∀ {ps : List Proc} {i : Nat} {p : Proc} (q : Proc),
    ps[i]? = some p → ((ps.set i q).map f).sum + f p = (ps.map f).sum + f q
  | [], i, p, q, h => absurd h (by simp)
  | r :: ps, 0, p, q, h => by
    cases h
    simp only [set_cons_zero, map_cons, sum_cons]
    omega
  | r :: ps, i + 1, p, q, h => by
    have ih := sum_map_set (f := f) q (show ps[i]? = some p by simpa using h)
    simp only [set_cons_succ, map_cons, sum_cons]
    omega

variable {ks ks' : Keyspace Text}

theorem Sweep.effort_lt {pc' : Pc} (h : Sweep x ks pc ks' pc') :
    unlisted pc' < unlisted pc ∨ (unlisted pc' = unlisted pc ∧ weight pc' < weight pc) := by
  cases h with
  | list => exact .inl Nat.zero_lt_one
  | _ =>
    refine .inr ⟨rfl, ?_⟩
    simp only [weight, length_cons]
    omega

theorem halts_of_sweeping (h : Sweeping x s) : Halts Cluster.step OnlySteps s := by
  have hwf : WellFounded (@Prod.Lex Nat Nat (· < ·) (· < ·)) :=
    WellFounded.prod_lex Nat.lt_wfRel.wf Nat.lt_wfRel.wf
  refine halts_of_measure hwf effort (Sweeping x) ?_ h
  intro s a s' hsw ha hs
  cases a with
  | step i inp =>
    obtain ⟨p, pc', hp, hsweep, hprocs, hsw', -⟩ := hsw.step hs
    refine ⟨hsw', ?_⟩
    have hlist : s'.effort.1 + unlisted p.pc = s.effort.1 + unlisted pc' := by
      simp only [effort, hprocs]
      exact sum_map_set (f := fun p => unlisted p.pc) ⟨p.node, pc'⟩ hp
    have hweight : s'.effort.2 + weight p.pc = s.effort.2 + weight pc' := by
      simp only [effort, hprocs]
      exact sum_map_set (f := fun p => weight p.pc) ⟨p.node, pc'⟩ hp
    refine Prod.lex_def.mpr ?_
    rcases Sweep.effort_lt hsweep with hlt | ⟨heq, hlt⟩
    · exact .inl (by omega)
    · exact .inr ⟨by omega, by omega⟩
  | _ => cases ha

variable {ok : Cluster → Action → Prop}

theorem done_of_ended {p : Proc} (h : Sweeping x s) (hok : ∀ inp, ok s (.step i inp))
    (hend : Ended Cluster.step ok s) (hp : s.procs[i]? = some p) : p.pc = .done := by
  by_contra hne
  have hmem := mem_of_getElem? hp
  obtain ⟨inp, nx, hnx⟩ := exec_handler s.redis (h.handler p hmem) hne i p.node (s.nodes p.node)
  have hs : s.step (.step i inp) = some ((s.advance i p.node nx).broadcast nx.sent) := by
    simp only [Cluster.step, hp, h.up p hmem hne, if_true, hnx]
    rfl
  exact hend _ ⟨.step i inp, hok inp, hs⟩

/-- What a handler can have read of a task with no retry left. -/
def ReadSpent (d : TaskData) : Pc → Prop
  | .store _ _ d' => d'.retries = d.retries
  | .enqueue .. => False
  | _ => True

variable {t : TaskId}

theorem spent_of_on {pc' : Pc} {d d₁ : TaskData} (h : Sweep x ks pc ks' pc') (hr : Recoverable ks x)
    (hh : pc.Handler x fun t => claimOf ks t = some x) (hd : 3 ≤ d.retries)
    (hrec : recordOf ks t = some d₁) (hret : d₁.retries = d.retries) (hon : pc.on = some t)
    (hread : ReadSpent d pc) : (ks' = ks ∧ pc'.on = some t ∧ ReadSpent d pc') ∨
      (pc'.on = none ∧ ∃ d', recordOf ks' t = some d' ∧ d'.retries = d.retries ∧
        d'.status = .failed ∧ queueOf ks' = queueOf ks) := by
  cases h with
  | full => cases hon; exact .inl ⟨rfl, rfl, trivial⟩
  | room hrec' hlt =>
    cases hon
    cases hrec.symm.trans hrec'
    omega
  | read hrec' =>
    cases hon
    cases hrec.symm.trans hrec'
    exact .inl ⟨rfl, rfl, hret⟩
  | @mark u rest e n now =>
    cases hon
    refine .inr ⟨rfl, _, by rw [recordOf_setTask, if_pos rfl], ?_, ?_, ?_⟩
    · rw [Update.apply_retries]
      exact hread
    · exact Update.apply_status ..
    · exact queueOf_setTask (hr.plain t hh.2.1).2
  | put => cases hread
  | _ => simp [Pc.on] at hon

theorem readSpent_of_taken {pc' : Pc} (h : Sweep x ks pc ks' pc') (hon : pc.on ≠ some t)
    (hon' : pc'.on = some t) : ReadSpent d pc' := by
  cases h with
  | take => exact trivial
  | full | room | read => exact absurd hon' hon
  | _ => simp [Pc.on] at hon'

/-- A task with no retry left, under any number of handlers: they all mark it, and once handler `j`
has it behind it, it is marked. -/
structure Spent (t : TaskId) (d : TaskData) (queued : Prop) (j : Nat) (s : Cluster) : Prop where
  record : ∃ d', recordOf s.redis t = some d' ∧ d'.retries = d.retries ∧
    ((∀ p, s.procs[j]? = some p → p.pc.Past t) → d'.status = .failed)
  queue : t ∈ queueOf s.redis ↔ queued
  read : ∀ p ∈ s.procs, p.pc.on = some t → ReadSpent d p.pc

theorem Spent.step {queued : Prop} {j : Nat} (hd : 3 ≤ d.retries) (hsw : Sweeping x s)
    (ht : claimOf s.redis t = some x) (h : Spent t d queued j s)
    (hs : s.step (.step i inp) = some s') : Spent t d queued j s' := by
  obtain ⟨p, pc', hp, hsweep, hprocs, -, -⟩ := hsw.step hs
  have hmem := mem_of_getElem? hp
  have hh := hsw.handler p hmem
  obtain ⟨d₁, hrec, hret, hst⟩ := h.record
  obtain ⟨hlt, -⟩ := List.getElem?_eq_some_iff.mp hp
  -- what handler `i` has read, if it is at the task after the step
  have hreads : (pc'.on = some t → ReadSpent d pc') →
      ∀ q ∈ s'.procs, q.pc.on = some t → ReadSpent d q.pc := by
    intro hpc q hq hqon
    rw [hprocs] at hq
    rcases mem_or_eq_of_mem_set hq with hq | rfl
    · exact h.read q hq hqon
    · exact hpc hqon
  -- handler `j` has the task behind it after the step, and had it before
  have hback : p.pc.on ≠ some t ∨ pc'.on = some t →
      (∀ q, s'.procs[j]? = some q → q.pc.Past t) → ∀ q, s.procs[j]? = some q → q.pc.Past t := by
    intro hnot hpast q hq
    by_cases hij : i = j
    · subst hij
      cases hp.symm.trans hq
      have hpc : pc'.Past t := hpast ⟨p.node, pc'⟩ (by rw [hprocs, getElem?_set_self hlt])
      rcases hnot with hnot | hnot
      · exact (hsweep.past ht hpc).resolve_right hnot
      · exact absurd hnot hpc.2
    · exact hpast q (by rw [hprocs, getElem?_set_ne hij]; exact hq)
  by_cases hon : p.pc.on = some t
  · rcases spent_of_on hsweep hsw.recoverable hh hd hrec hret hon (h.read p hmem hon) with
      ⟨hks, hon', hread'⟩ | ⟨hon', d', hrec', hret', hst', hq'⟩
    · exact ⟨⟨d₁, hks ▸ hrec, hret, fun hpast => hst (hback (.inr hon') hpast)⟩,
        hks ▸ h.queue, hreads fun _ => hread'⟩
    · refine ⟨⟨d', hrec', hret', fun _ => hst'⟩, hq' ▸ h.queue, hreads fun hc => ?_⟩
      simp [hon'] at hc
  · have hsame := hsweep.sameAt hsw.recoverable hh hon
    refine ⟨⟨d₁, hsame.record.trans hrec, hret, fun hpast => hst (hback (.inl hon) hpast)⟩,
      hsame.queue.trans h.queue, hreads fun hon' => ?_⟩
    exact readSpent_of_taken hsweep hon hon'

/-! ### One handler alone -/

/-- Only thread `i` moves. -/
def Alone (i : Nat) (_ : Cluster) : Action → Prop
  | .step j _ => j = i
  | _ => False

/-- What a run of thread `i` alone has done, in terms of the state it started from. -/
structure Solo (x : NodeId) (s₀ : Cluster) (i : Nat) (n : NodeId) (s : Cluster) (pc : Pc) :
    Prop where
  sweeping : Sweeping x s
  claims : ∀ t, claimOf s.redis t = claimOf s₀.redis t
  procs : s.procs = s₀.procs.set i ⟨n, pc⟩
  progress : ∀ t d, claimOf s₀.redis t = some x → recordOf s₀.redis t = some d →
    Progress t d (t ∈ queueOf s₀.redis) s.redis pc

variable {s₀ : Cluster} {n : NodeId}

theorem solo_refl (h₀ : Sweeping x s₀)
    (hi : s₀.procs[i]? = some ⟨n, .keys x⟩) : Solo x s₀ i n s₀ (.keys x) := by
  obtain ⟨hlt, hget⟩ := List.getElem?_eq_some_iff.mp hi
  refine ⟨h₀, fun _ => rfl, ?_, ?_⟩
  · rw [← hget, set_getElem_self]
  · intro t d _ hrec
    exact ⟨fun _ => ⟨hrec, Iff.rfl⟩, fun hon => absurd hon (by simp [Pc.on]),
      fun hpast => absurd trivial hpast.1⟩

theorem Solo.step
    (h : Solo x s₀ i n s pc) (hlt : i < s₀.procs.length) (hs : s.step (.step i inp) = some s') :
    ∃ pc', Solo x s₀ i n s' pc' := by
  obtain ⟨p, pc', hp, hsweep, hprocs, hsw', hclaims⟩ := h.sweeping.step hs
  have hpc : p = ⟨n, pc⟩ := by
    rw [h.procs, getElem?_set_self hlt] at hp
    exact (Option.some.inj hp).symm
  subst hpc
  refine ⟨pc', hsw', fun t => (hclaims t).trans (h.claims t), ?_, ?_⟩
  · rw [hprocs, h.procs, set_set]
  · intro t d ht hrec
    exact (h.progress t d ht hrec).step hsweep h.sweeping.recoverable
      (h.sweeping.handler _ (mem_of_getElem? hp)) ((h.claims t).trans ht)

theorem solo_of_reaches (h₀ : Sweeping x s₀) (hi : s₀.procs[i]? = some ⟨n, .keys x⟩)
    (hrun : Reaches Cluster.step (Alone i) s₀ s) : ∃ pc, Solo x s₀ i n s pc := by
  obtain ⟨hlt, -⟩ := List.getElem?_eq_some_iff.mp hi
  refine hrun.invariant (fun s => ∃ pc, Solo x s₀ i n s pc) ⟨_, solo_refl h₀ hi⟩ ?_
  intro s a s' hx ha hs
  obtain ⟨pc, hsolo⟩ := hx
  cases a with
  | step j inp =>
    cases ha
    exact hsolo.step hlt hs
  | _ => cases ha

theorem Solo.eq_of_step {j : Nat} (h : Solo x s₀ i n s pc)
    (hothers : ∀ j p, j ≠ i → s₀.procs[j]? = some p → p.pc = .done)
    (hs : s.step (.step j inp) = some s') : j = i := by
  by_contra hji
  obtain ⟨p, nx, hp, -, hnx, -⟩ := step_thread hs
  rw [h.procs, getElem?_set_ne (Ne.symm hji)] at hp
  rw [hothers j p hji hp] at hnx
  simp [Pc.exec] at hnx

theorem Solo.swept (h : Solo x s₀ i n s .done) (ht : claimOf s₀.redis t = some x)
    (hrec : recordOf s₀.redis t = some d) : Swept t d (t ∈ queueOf s₀.redis) s.redis :=
  (h.progress t d ht hrec).past ⟨by simp [Pc.Waits, Pc.todo], by simp [Pc.on]⟩

theorem Solo.done (h : Solo x s₀ i n s pc)
    (hlt : i < s₀.procs.length) (hok : ∀ inp, ok s (.step i inp)) (hend : Ended Cluster.step ok s) :
    pc = .done := by
  have hi : s.procs[i]? = some ⟨n, pc⟩ := by rw [h.procs, getElem?_set_self hlt]
  exact done_of_ended h.sweeping hok hend hi

theorem solo_exists (h₀ : Sweeping x s₀) (hi : s₀.procs[i]? = some ⟨n, .keys x⟩) :
    ∃ s, Reaches Cluster.step OnlySteps s₀ s ∧ Solo x s₀ i n s .done := by
  have himp : ∀ (s : Cluster) a, Alone i s a → OnlySteps s a := by
    intro s a ha
    cases a with
    | step => exact trivial
    | _ => cases ha
  obtain ⟨s, hrun, hend⟩ := ((halts_of_sweeping h₀).weaken himp).exists_end
  obtain ⟨pc, hsolo⟩ := solo_of_reaches h₀ hi hrun
  obtain ⟨hlt, -⟩ := List.getElem?_eq_some_iff.mp hi
  exact ⟨s, hrun.weaken himp, hsolo.done hlt (fun _ => rfl) hend ▸ hsolo⟩

/-! ## The result -/

/-- The failover of `x` is about to be handled: every thread is done or has received the message,
and one of them has. -/
structure Failing (x : NodeId) (s : Cluster) : Prop where
  recoverable : Recoverable s.redis x
  threads : ∀ p ∈ s.procs, p.pc = .keys x ∨ p.pc = .done
  up : ∀ p ∈ s.procs, p.pc ≠ .done → (s.nodes p.node).up = true
  handled : ∃ p ∈ s.procs, p.pc = .keys x

/-- Thread `i` has received the message. -/
def handles (s : Cluster) (x : NodeId) (i : Nat) : Prop := ∃ n, s.procs[i]? = some ⟨n, .keys x⟩

/-- What the failover is for: one more retry, or the end of a task that has none left. -/
structure Recovered (t : TaskId) (d : TaskData) (ks : Keyspace Text) : Prop where
  requeued : d.retries < 3 → ∃ d', recordOf ks t = some d' ∧ d'.retries = d.retries + 1 ∧
    d'.status = .queued ∧ t ∈ queueOf ks
  failed : 3 ≤ d.retries → ∃ d', recordOf ks t = some d' ∧ d'.status = .failed ∧ t ∉ queueOf ks

theorem Failing.sweeping (h : Failing x s) : Sweeping x s := by
  refine ⟨h.recoverable, fun p hp => ?_, h.up⟩
  rcases h.threads p hp with hpc | hpc
  · rw [hpc]; exact rfl
  · rw [hpc]; exact trivial

theorem ended_of_done (h : ∀ p ∈ s.procs, p.pc = .done) : Ended Cluster.step OnlySteps s := by
  intro s' hx
  obtain ⟨a, ha, hs⟩ := hx
  cases a with
  | step i inp =>
    obtain ⟨p, nx, hp, -, hnx, -⟩ := step_thread hs
    rw [h p (mem_of_getElem? hp)] at hnx
    simp [Pc.exec] at hnx
  | _ => cases ha

/-- **All handlers one after another.** What each of them, alone, keeps of a task holds at the end
of some run. -/
theorem exists_sequential (K : Keyspace Text → Prop)
    (hK : ∀ {ks ks' d}, K ks → recordOf ks t = some d → Swept t d (t ∈ queueOf ks) ks' → K ks') :
    ∀ {s : Cluster}, Sweeping x s → (∀ p ∈ s.procs, p.pc = .keys x ∨ p.pc = .done) →
      claimOf s.redis t = some x → K s.redis →
      ∃ s', Reaches Cluster.step OnlySteps s s' ∧ Ended Cluster.step OnlySteps s' ∧ K s'.redis := by
  intro s
  induction hk : s.effort.1 using Nat.strong_induction_on generalizing s with
  | _ k ih =>
    intro hsw hthreads ht hKs
    by_cases hall : ∀ p ∈ s.procs, p.pc = .done
    · exact ⟨s, .refl, ended_of_done hall, hKs⟩
    · obtain ⟨⟨n, pc⟩, hp, hne⟩ : ∃ p ∈ s.procs, p.pc ≠ .done := by
        by_contra hno
        exact hall fun p hp => by_contra fun hne => hno ⟨p, hp, hne⟩
      obtain ⟨i, hi⟩ := mem_iff_getElem?.mp hp
      have hpc : pc = .keys x := (hthreads _ hp).resolve_right hne
      subst hpc
      obtain ⟨s₁, hrun, hsolo⟩ := solo_exists hsw hi
      obtain ⟨d, hrec⟩ := hsw.recoverable.record t ht
      have hlt : s₁.effort.1 < k := by
        have hsum := sum_map_set (f := fun p => unlisted p.pc) ⟨n, .done⟩ hi
        rw [← hsolo.procs] at hsum
        have h1 : s₁.effort.1 + 1 = s.effort.1 + 0 := hsum
        omega
      have hthreads₁ : ∀ q ∈ s₁.procs, q.pc = .keys x ∨ q.pc = .done := by
        intro q hq
        rw [hsolo.procs] at hq
        rcases mem_or_eq_of_mem_set hq with hq | rfl
        · exact hthreads q hq
        · exact .inr rfl
      obtain ⟨s', hrun', hend, hKs'⟩ := ih _ hlt rfl hsolo.sweeping hthreads₁
        ((hsolo.claims t).trans ht) (hK hKs hrec (hsolo.swept ht hrec))
      exact ⟨s', hrun.trans hrun', hend, hKs'⟩

theorem not_recovered_of_two (h : Failing x s) {i j : Nat}
    (hi : s.handles x i) (hj : s.handles x j) (hij : i ≠ j) (ht : claimOf s.redis t = some x)
    (hrec : recordOf s.redis t = some d) (hd : d.retries < 3) :
    ∃ s', Reaches Cluster.step OnlySteps s s' ∧ Ended Cluster.step OnlySteps s' ∧
      ¬ Recovered t d s'.redis := by
  obtain ⟨n, hn⟩ := hi
  obtain ⟨m, hm⟩ := hj
  obtain ⟨s₁, hrun₁, hsolo₁⟩ := solo_exists h.sweeping hn
  obtain ⟨hrec₁, hq₁⟩ := (hsolo₁.swept ht hrec).requeued hd
  have hm₁ : s₁.procs[j]? = some ⟨m, .keys x⟩ := by
    rw [hsolo₁.procs, getElem?_set_ne hij]
    exact hm
  have ht₁ := (hsolo₁.claims t).trans ht
  obtain ⟨s₂, hrun₂, hsolo₂⟩ := solo_exists hsolo₁.sweeping hm₁
  have hswept₂ := hsolo₂.swept ht₁ hrec₁
  have hthreads₂ : ∀ q ∈ s₂.procs, q.pc = .keys x ∨ q.pc = .done := by
    intro q hq
    rw [hsolo₂.procs, hsolo₁.procs] at hq
    rcases mem_or_eq_of_mem_set hq with hq | rfl
    · rcases mem_or_eq_of_mem_set hq with hq | rfl
      · exact h.threads q hq
      · exact .inr rfl
    · exact .inr rfl
  -- too many retries, or marked as failed with none left: no later handler mends that
  let K : Keyspace Text → Prop := fun ks => ∃ d', recordOf ks t = some d' ∧
    (d.retries + 2 ≤ d'.retries ∨ (3 ≤ d'.retries ∧ d'.status = .failed))
  have hmore : ∀ {e queued ks}, d.retries < e.retries → Swept t e queued ks → K ks := by
    intro e queued ks hlt hsw
    by_cases hroom : e.retries < 3
    · obtain ⟨hrec₃, -⟩ := hsw.requeued hroom
      refine ⟨_, hrec₃, .inl ?_⟩
      rw [TaskData.requeued_retries]
      omega
    · obtain ⟨e₃, hrec₃, hret₃, hst₃, -⟩ := hsw.failed (by omega)
      exact ⟨e₃, hrec₃, .inr ⟨by omega, hst₃⟩⟩
  have hK : ∀ {ks ks' e}, K ks → recordOf ks t = some e → Swept t e (t ∈ queueOf ks) ks' →
      K ks' := by
    intro ks ks' e hx hrece hsw
    obtain ⟨e', hrece', hbad⟩ := hx
    cases hrece'.symm.trans hrece
    exact hmore (by omega) hsw
  obtain ⟨s', hrun', hend, d', hrec', hbad⟩ :=
    exists_sequential K hK hsolo₂.sweeping hthreads₂ ((hsolo₂.claims t).trans ht₁)
      (hmore (Nat.lt_succ_self _) hswept₂)
  refine ⟨s', (hrun₁.trans hrun₂).trans hrun', hend, fun hgood => ?_⟩
  obtain ⟨e, hrece, hret, hst, -⟩ := hgood.requeued hd
  cases hrec'.symm.trans hrece
  rcases hbad with hbad | ⟨-, hbad⟩
  · omega
  · simp [hst] at hbad

theorem not_recovered_of_queued (h : Failing x s) (ht : claimOf s.redis t = some x)
    (hrec : recordOf s.redis t = some d) (hd : 3 ≤ d.retries) (hq : t ∈ queueOf s.redis) :
    ∃ s', Reaches Cluster.step OnlySteps s s' ∧ Ended Cluster.step OnlySteps s' ∧
      ¬ Recovered t d s'.redis := by
  let K : Keyspace Text → Prop := fun ks =>
    (∃ d', recordOf ks t = some d' ∧ 3 ≤ d'.retries) ∧ t ∈ queueOf ks
  have hK : ∀ {ks ks' e}, K ks → recordOf ks t = some e → Swept t e (t ∈ queueOf ks) ks' →
      K ks' := by
    intro ks ks' e hx hrece hsw
    obtain ⟨⟨e', hrece', hret⟩, hmem⟩ := hx
    cases hrece'.symm.trans hrece
    obtain ⟨e₃, hrec₃, hret₃, -, hiff⟩ := hsw.failed hret
    exact ⟨⟨e₃, hrec₃, by omega⟩, hiff.mpr hmem⟩
  obtain ⟨s', hrun, hend, -, hmem⟩ :=
    exists_sequential K hK h.sweeping h.threads ht ⟨⟨d, hrec, hd⟩, hq⟩
  refine ⟨s', hrun, hend, fun hgood => ?_⟩
  obtain ⟨-, -, -, hnot⟩ := hgood.failed hd
  exact hnot hmem

theorem swept_of_one (h : Failing x s) {i : Nat}
    (hi : s.handles x i) (hone : ∀ j, s.handles x j → i = j)
    (hrun : Reaches Cluster.step OnlySteps s s') (hend : Ended Cluster.step OnlySteps s')
    (ht : claimOf s.redis t = some x)
    (hrec : recordOf s.redis t = some d) : Swept t d (t ∈ queueOf s.redis) s'.redis := by
  obtain ⟨n, hn⟩ := hi
  obtain ⟨hlt, -⟩ := List.getElem?_eq_some_iff.mp hn
  have hothers : ∀ j p, j ≠ i → s.procs[j]? = some p → p.pc = .done := by
    intro j hx hji hj
    obtain ⟨m, pc⟩ := hx
    refine (h.threads _ (mem_of_getElem? hj)).resolve_left fun hpc => ?_
    cases hpc
    exact hji (hone j ⟨m, hj⟩).symm
  have halone : Reaches Cluster.step (Alone i) s s' := by
    refine hrun.mono (fun s' => ∃ pc, Solo x s i n s' pc) ⟨_, solo_refl h.sweeping hn⟩ ?_ ?_
    · intro s₁ a s₂ hx ha hs
      obtain ⟨pc, hsolo⟩ := hx
      cases a with
      | step j inp =>
        cases hsolo.eq_of_step hothers hs
        exact hsolo.step hlt hs
      | _ => cases ha
    · intro s₁ a s₂ hx ha hs
      obtain ⟨pc, hsolo⟩ := hx
      cases a with
      | step j inp => exact hsolo.eq_of_step hothers hs
      | _ => cases ha
  obtain ⟨pc, hsolo⟩ := solo_of_reaches h.sweeping hn halone
  exact Solo.swept (hsolo.done hlt (fun _ => trivial) hend ▸ hsolo) ht hrec

theorem failed_of_spent (h : Failing x s)
    (hrun : Reaches Cluster.step OnlySteps s s') (hend : Ended Cluster.step OnlySteps s')
    (ht : claimOf s.redis t = some x) (hrec : recordOf s.redis t = some d) (hd : 3 ≤ d.retries) :
    ∃ d', recordOf s'.redis t = some d' ∧ d'.status = .failed ∧
      (t ∈ queueOf s'.redis ↔ t ∈ queueOf s.redis) := by
  obtain ⟨p, hp, hpc⟩ := h.handled
  obtain ⟨j, hj⟩ := mem_iff_getElem?.mp hp
  have hstart : Spent t d (t ∈ queueOf s.redis) j s := by
    refine ⟨⟨d, hrec, rfl, fun hpast => ?_⟩, Iff.rfl, fun q hq hon => ?_⟩
    · have hnot := (hpast p hj).1
      rw [hpc] at hnot
      exact absurd trivial hnot
    · rcases h.threads q hq with hq | hq <;> simp [hq, Pc.on] at hon
  obtain ⟨hsw, -, hspent⟩ := hrun.invariant (fun s' => Sweeping x s' ∧
      claimOf s'.redis t = some x ∧ Spent t d (t ∈ queueOf s.redis) j s')
    ⟨h.sweeping, ht, hstart⟩ (by
      intro s₁ a s₂ hx ha hs
      obtain ⟨hsw, ht₁, hspent⟩ := hx
      cases a with
      | step i inp =>
        obtain ⟨-, -, -, -, -, hsw', hclaims⟩ := hsw.step hs
        exact ⟨hsw', (hclaims t).trans ht₁, hspent.step hd hsw ht₁ hs⟩
      | _ => cases ha)
  obtain ⟨d', hrec', -, hst⟩ := hspent.record
  refine ⟨d', hrec', hst fun q hq => ?_, hspent.queue⟩
  rw [done_of_ended hsw (fun _ => trivial) hend hq]
  exact ⟨by simp [Pc.Waits, Pc.todo], by simp [Pc.on]⟩

/-- **The failover counts once**: its handlers come to an end, and every interleaving of them leaves
every claimed task with one more retry and in the queue, or failed and not queued, *if and only if*
there is one handler or no claimed task has a retry left, and no claimed task without a retry left
is queued. -/
theorem failover_counts_once {x : NodeId} {s : Cluster} (h : Failing x s) :
    Halts Cluster.step OnlySteps s ∧
    ((∀ s', Reaches Cluster.step OnlySteps s s' → Ended Cluster.step OnlySteps s' →
        ∀ t d, claimOf s.redis t = some x → recordOf s.redis t = some d → Recovered t d s'.redis) ↔
      ((∀ i j, s.handles x i → s.handles x j → i = j) ∨
          ∀ t d, claimOf s.redis t = some x → recordOf s.redis t = some d → 3 ≤ d.retries) ∧
        ∀ t d, claimOf s.redis t = some x → recordOf s.redis t = some d → 3 ≤ d.retries →
          t ∉ queueOf s.redis) := by
  refine ⟨halts_of_sweeping h.sweeping, fun hgood => ⟨?_, ?_⟩, ?_⟩
  · by_contra hno
    obtain ⟨hmany, hleft⟩ := not_or.mp hno
    obtain ⟨i, j, hi, hj, hij⟩ : ∃ i j, s.handles x i ∧ s.handles x j ∧ i ≠ j := by
      by_contra hnone
      exact hmany fun i j hi hj => by_contra fun hij => hnone ⟨i, j, hi, hj, hij⟩
    obtain ⟨t, d, ht, hrec, hd⟩ : ∃ t d, claimOf s.redis t = some x ∧
        recordOf s.redis t = some d ∧ d.retries < 3 := by
      by_contra hnone
      exact hleft fun t d ht hrec => not_lt.mp fun hd => hnone ⟨t, d, ht, hrec, hd⟩
    obtain ⟨s', hrun, hend, hbad⟩ := not_recovered_of_two h hi hj hij ht hrec hd
    exact hbad (hgood s' hrun hend t d ht hrec)
  · intro t d ht hrec hd hq
    obtain ⟨s', hrun, hend, hbad⟩ := not_recovered_of_queued h ht hrec hd hq
    exact hbad (hgood s' hrun hend t d ht hrec)
  · intro hx s' hrun hend t d ht hrec
    obtain ⟨hcond, hqueue⟩ := hx
    refine ⟨fun hd => ?_, fun hd => ?_⟩
    · -- a retry left, so there is one handler
      have hone := hcond.resolve_right fun hall => absurd (hall t d ht hrec) (by omega)
      obtain ⟨⟨n, pc⟩, hp, rfl⟩ := h.handled
      obtain ⟨i, hi⟩ := mem_iff_getElem?.mp hp
      obtain ⟨hrec', hq'⟩ := (swept_of_one h ⟨n, hi⟩ (fun j hj => hone i j ⟨n, hi⟩ hj) hrun hend
        ht hrec).requeued hd
      exact ⟨d.requeued, hrec', rfl, rfl, hq'⟩
    · obtain ⟨d', hrec', hst, hiff⟩ := failed_of_spent h hrun hend ht hrec hd
      exact ⟨d', hrec', hst, fun hm => hqueue t d ht hrec hd (hiff.mp hm)⟩

end Cluster

theorem recoverable_of_single {ks : Keyspace Text} {x : NodeId}
    (hkeys : ks.keysWith "task:claim:" = [claimKey t]) (hz : ks.isZSet queueKey = true)
    (hclaim : claimOf ks t = some x) (hrec : recordOf ks t = some d) (hplain : ':' ∉ t.toList)
    (hq : t ≠ "queue") : Recoverable ks x := by
  have hone : ∀ u, claimKey u ∈ ks.keysWith "task:claim:" → u = t := by
    intro u hu
    rw [hkeys] at hu
    exact claimKey_inj.mp (mem_singleton.mp hu)
  refine ⟨hz, fun u hu => ?_, fun u hu => ?_, fun u hu => ?_⟩
  · have hut := hone u (mem_keysWith_of_get (by simp [hu]))
    simp [hut, claimOf_eq_some.mp hclaim] at hu
  · rw [hone u (claimKey_mem_keys hu)]
    exact ⟨hplain, hq⟩
  · rw [hone u (claimKey_mem_keys hu)]
    exact ⟨d, hrec⟩

/-- `a` dies inside `executeWithRetry`; `b`, which is the only other node, receives the message. -/
def oneSurvivor : List Action :=
  claimedByA ++ [.crash "a", .expireHeartbeat "a", .heartbeat "b", .run 3 [], .run 3 ["a", "b"],
    .run 3 [], .run 3 [], .run 3 [], .run 3 [], .receive "b"]

/-- The same with a third node `c`; both survivors receive the message. -/
def twoSurvivors : List Action :=
  claimedByA ++ [.start "c" 0, .run 3 [], .run 3 [], .run 3 [],
    .crash "a", .expireHeartbeat "a", .heartbeat "b", .run 4 [], .run 4 ["a", "b", "c"],
    .run 4 [], .run 4 [], .run 4 [], .run 4 [], .run 4 [], .receive "b", .receive "c"]

/-- A handler from its `KEYS` to its end, with one orphaned task. -/
def handleOne (i : Nat) : List Action :=
  .run i ["task:claim:t"] :: replicate 4 (.run i [])

namespace Cluster

theorem failover_counts_twice :
    ∃ s s', exec step init twoSurvivors = some s ∧ s.handles "a" 5 ∧ s.handles "a" 6 ∧
      claimOf s.redis "t" = some "a" ∧ (recordOf s.redis "t").map TaskData.retries = some 0 ∧
      exec step s (handleOne 5 ++ handleOne 6) = some s' ∧ (∀ p ∈ s'.procs, p.pc = .done) ∧
      (recordOf s'.redis "t").map TaskData.retries = some 2 :=
  ⟨_, _, rfl, ⟨_, rfl⟩, ⟨_, rfl⟩, rfl, rfl, rfl, by decide, rfl⟩

theorem one_survivor_counts_once : ∃ s, exec step init oneSurvivor = some s ∧ Failing "a" s ∧
      (∀ i j, s.handles "a" i → s.handles "a" j → i = j) ∧
      (Halts step OnlySteps s ∧
      ((∀ s', Reaches step OnlySteps s s' → Ended step OnlySteps s' →
          ∀ t d, claimOf s.redis t = some "a" → recordOf s.redis t = some d →
            Recovered t d s'.redis) ↔
        ((∀ i j, s.handles "a" i → s.handles "a" j → i = j) ∨
            ∀ t d, claimOf s.redis t = some "a" → recordOf s.redis t = some d → 3 ≤ d.retries) ∧
          ∀ t d, claimOf s.redis t = some "a" → recordOf s.redis t = some d → 3 ≤ d.retries →
            t ∉ queueOf s.redis)) := by
  obtain ⟨s, hs, hkeys, hz, hclaim, ⟨d, hrec⟩, hthreads, hup, hmem, hprocs⟩ :
      ∃ s, exec step init oneSurvivor = some s ∧
        s.redis.keysWith "task:claim:" = [claimKey "t"] ∧ s.redis.isZSet queueKey = true ∧
        claimOf s.redis "t" = some "a" ∧ (∃ d, recordOf s.redis "t" = some d) ∧
        (∀ p ∈ s.procs, p.pc = .keys "a" ∨ p.pc = .done) ∧
        (∀ p ∈ s.procs, p.pc ≠ .done → (s.nodes p.node).up = true) ∧
        (∃ p ∈ s.procs, p.pc = .keys "a") ∧
        s.procs = [⟨"a", .done⟩, ⟨"b", .done⟩, ⟨"a", .done⟩, ⟨"b", .done⟩, ⟨"b", .keys "a"⟩] :=
    ⟨_, rfl, rfl, rfl, rfl, ⟨_, rfl⟩, by decide, by decide, by decide, rfl⟩
  have hfail : Failing "a" s :=
    ⟨recoverable_of_single hkeys hz hclaim hrec (by decide) (by decide), hthreads, hup, hmem⟩
  have hone : ∀ i, s.handles "a" i → i = 4 := by
    intro i hx
    obtain ⟨n, hi⟩ := hx
    rcases i with _ | _ | _ | _ | _ | i <;> simp_all
  exact ⟨s, hs, hfail, fun i j hi hj => (hone i hi).trans (hone j hj).symm,
    failover_counts_once hfail⟩

end Cluster

end Bridge.Distributed
