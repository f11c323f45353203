import Bridge.WebSocket.Server

/-!
# The maps of the bridge and the sockets of the server

A handler of `task:execute` may go on when its socket is gone. It then looks the client up before it
does anything else, finds none, and leaves; where it finds one, the subscription is made before the
next `await`. So the maps are about the connected sockets at every moment: `Synced`.
-/

namespace Bridge.WebSocket

open Lib OrderedMap

variable {S T : Type} [DecidableEq S] [DecidableEq T]

/-! ## Subscriptions -/

section Subscriptions

variable {subscriptions : OrderedMap T (Finset S)} {socket : S} {taskId t : T} {set : Finset S}

theorem get_dropSubscriber_self (h : (State.dropSubscriber subscriptions socket taskId).get taskId =
    some set) :
    ∃ old, subscriptions.get taskId = some old ∧ set = old.erase socket ∧ set.Nonempty := by
  unfold State.dropSubscriber at h
  split at h
  · rename_i hnone
    exact absurd (hnone.symm.trans h) (by simp)
  · rename_i old hold
    dsimp only at h
    split at h
    · exact absurd (get_delete_self.symm.trans h) (by simp)
    · rename_i hcard
      obtain rfl := Option.some.inj (get_set_self.symm.trans h)
      exact ⟨old, hold, rfl, Finset.card_pos.mp (Nat.pos_of_ne_zero hcard)⟩

theorem get_dropSubscriber_of_ne (hne : t ≠ taskId) :
    (State.dropSubscriber subscriptions socket taskId).get t = subscriptions.get t := by
  unfold State.dropSubscriber
  split
  · rfl
  · dsimp only
    split
    · exact get_delete_of_ne hne
    · exact get_set_of_ne hne

def Shrunk (subscriptions : OrderedMap T (Finset S)) (t : T) (set : Finset S) : Prop :=
  ∃ old, subscriptions.get t = some old ∧ set ⊆ old ∧ (old.Nonempty → set.Nonempty)

theorem shrunk_dropSubscriber
    (h : (State.dropSubscriber subscriptions socket taskId).get t = some set) :
    Shrunk subscriptions t set := by
  by_cases ht : t = taskId
  · subst ht
    obtain ⟨old, hold, rfl, hne⟩ := get_dropSubscriber_self h
    exact ⟨old, hold, Finset.erase_subset _ _, fun _ => hne⟩
  · rw [get_dropSubscriber_of_ne ht] at h
    exact ⟨set, h, Finset.Subset.refl _, fun hne => hne⟩

theorem shrunk_leaveTask (h : (State.leaveTask socket subscriptions taskId).get t = some set) :
    Shrunk subscriptions t set ∧ (t = taskId → socket ∉ set) := by
  unfold State.leaveTask at h
  split at h
  · refine ⟨shrunk_dropSubscriber h, ?_⟩
    rintro rfl
    obtain ⟨old, -, rfl, -⟩ := get_dropSubscriber_self h
    exact Finset.notMem_erase socket old
  · rename_i hnot
    refine ⟨⟨set, h, Finset.Subset.refl _, fun hne => hne⟩, ?_⟩
    rintro rfl
    rwa [h] at hnot

theorem shrunk_foldl_leaveTask {taskIds : List T}
    (h : (taskIds.foldl (State.leaveTask socket) subscriptions).get t = some set) :
    Shrunk subscriptions t set ∧ (t ∈ taskIds → socket ∉ set) := by
  induction taskIds generalizing subscriptions with
  | nil => exact ⟨⟨set, h, Finset.Subset.refl _, fun hne => hne⟩, fun hmem => absurd hmem (by simp)⟩
  | cons taskId taskIds ih =>
    obtain ⟨⟨mid, hmid, hsub, hne⟩, hleft⟩ := ih h
    obtain ⟨⟨old, hold, hsub', hne'⟩, hleft'⟩ := shrunk_leaveTask hmid
    refine ⟨⟨old, hold, hsub.trans hsub', fun ho => hne (hne' ho)⟩, ?_⟩
    intro hmem
    obtain rfl | hmem := List.mem_cons.mp hmem
    · exact fun hs => hleft' rfl (hsub hs)
    · exact hleft hmem

theorem get_subscribeToTask (b : State S T) :
    (b.subscribeToTask socket taskId).taskSubscriptions.get t =
      if t = taskId then some (insert socket ((b.taskSubscriptions.get taskId).getD ∅))
      else b.taskSubscriptions.get t := by
  unfold State.subscribeToTask
  by_cases hkey : taskId ∈ b.taskSubscriptions.keys
  · rw [if_pos hkey]
    split_ifs with ht
    · exact ht ▸ get_set_self
    · exact get_set_of_ne ‹_›
  · have hnone : b.taskSubscriptions.get taskId = none := get_eq_none_iff.mpr hkey
    rw [if_neg hkey, hnone]
    dsimp only
    rw [get_set_self]
    split_ifs with ht
    · exact ht ▸ get_set_self
    · exact (get_set_of_ne ht).trans (get_set_of_ne ht)

end Subscriptions

/-! ## The invariant -/

structure Synced (w : World S T) : Prop where
  clients : ∀ s, s ∈ w.bridge.connectedClients.keys ↔ s ∈ w.connected
  limiters : ∀ s, s ∈ w.bridge.rateLimiters.keys ↔ s ∈ w.connected
  active : w.bridge.metrics.activeConnections = w.connected.card
  subscribers : ∀ t set, w.bridge.taskSubscriptions.get t = some set →
    set ⊆ w.connected ∧ set.Nonempty
  seen : w.connected ⊆ w.seen

namespace Synced

variable {w w' : World S T} {socket : S} {taskId : T}

omit [DecidableEq S] in
theorem init : Synced (⟨∅, ∅, .init⟩ : World S T) where
  clients s := by simp [State.init, OrderedMap.empty, OrderedMap.keys]
  limiters s := by simp [State.init, OrderedMap.empty, OrderedMap.keys]
  active := rfl
  subscribers t set h := absurd h (by simp [State.init, OrderedMap.empty, OrderedMap.get])
  seen := Finset.Subset.refl _

omit [DecidableEq S] in
theorem of_maps {b : State S T} (h : Synced w)
    (hclients : b.connectedClients = w.bridge.connectedClients)
    (hlimiters : b.rateLimiters = w.bridge.rateLimiters)
    (hsubs : b.taskSubscriptions = w.bridge.taskSubscriptions)
    (hactive : b.metrics.activeConnections = w.bridge.metrics.activeConnections) :
    Synced { w with bridge := b } where
  clients := by
    rw [hclients]
    exact h.clients
  limiters := by
    rw [hlimiters]
    exact h.limiters
  active := hactive.trans h.active
  subscribers := by
    rw [hsubs]
    exact h.subscribers
  seen := h.seen

theorem subscribe (h : Synced w) (hconnected : socket ∈ w.connected) (taskId : T) :
    Synced (w.update fun b => b.subscribeToTask socket taskId) where
  clients := h.clients
  limiters := h.limiters
  active := h.active
  subscribers := by
    intro t set hget
    rw [World.update, get_subscribeToTask] at hget
    split at hget
    · cases hget
      refine ⟨?_, Finset.insert_nonempty _ _⟩
      refine Finset.insert_subset hconnected ?_
      cases hold : w.bridge.taskSubscriptions.get taskId with
      | none => exact Finset.empty_subset _
      | some old => exact (h.subscribers taskId old hold).1
    · exact h.subscribers t set hget
  seen := h.seen

theorem unsubscribe (h : Synced w) (socket : S) (taskId : T) :
    Synced (w.update fun b => b.unsubscribeFromTask socket taskId) where
  clients := h.clients
  limiters := h.limiters
  active := h.active
  subscribers := by
    intro t set hget
    obtain ⟨old, hold, hsub, hne⟩ := shrunk_dropSubscriber hget
    obtain ⟨hconnected, hnonempty⟩ := h.subscribers t old hold
    exact ⟨hsub.trans hconnected, hne hnonempty⟩
  seen := h.seen

theorem connect (h : Synced w) (hnew : socket ∉ w.seen) (userId persona : Option String) :
    Synced ⟨insert socket w.connected, insert socket w.seen,
      w.bridge.handleConnection socket userId persona⟩ where
  clients s := by
    rw [Finset.mem_insert, ← h.clients]
    exact mem_keys_set
  limiters s := by
    rw [Finset.mem_insert, ← h.limiters]
    exact mem_keys_set
  active := by
    have hnot : socket ∉ w.connected := fun hc => hnew (h.seen hc)
    rw [Finset.card_insert_of_notMem hnot, Int.natCast_add, ← h.active]
    rfl
  subscribers t set hget := by
    obtain ⟨hsub, hne⟩ := h.subscribers t set hget
    exact ⟨hsub.trans (Finset.subset_insert _ _), hne⟩
  seen := Finset.insert_subset_insert socket h.seen

theorem disconnect (h : Synced w) (hconnected : socket ∈ w.connected) :
    Synced ⟨w.connected.erase socket, w.seen, w.bridge.handleDisconnect socket⟩ where
  clients s := by
    rw [Finset.mem_erase, ← h.clients, and_comm]
    exact mem_keys_delete
  limiters s := by
    rw [Finset.mem_erase, ← h.limiters, and_comm]
    exact mem_keys_delete
  active := by
    have hcard := Finset.card_erase_add_one hconnected
    have hbefore := h.active
    show w.bridge.metrics.activeConnections - 1 = ((w.connected.erase socket).card : Int)
    omega
  subscribers t set hget := by
    obtain ⟨⟨old, hold, hsub, hne⟩, hleft⟩ := shrunk_foldl_leaveTask hget
    obtain ⟨hin, hnonempty⟩ := h.subscribers t old hold
    have hgone : socket ∉ set := hleft (mem_keys_iff.mpr ⟨old, hold⟩)
    refine ⟨?_, hne hnonempty⟩
    intro s hs
    rw [Finset.mem_erase]
    exact ⟨fun heq => hgone (heq ▸ hs), hin (hsub hs)⟩
  seen := (Finset.erase_subset _ _).trans h.seen

theorem connected_of_client (h : Synced w) {clientInfo : ClientInfo}
    (hc : w.bridge.connectedClients.get socket = some clientInfo) : socket ∈ w.connected :=
  (h.clients socket).mp (mem_keys_iff.mpr ⟨clientInfo, hc⟩)

theorem accept (h : Synced w) {clientInfo : ClientInfo}
    (hc : w.bridge.connectedClients.get socket = some clientInfo) (taskId : T) :
    Synced (w.update fun b => b.accept socket clientInfo taskId) := by
  have hconnected := h.connected_of_client hc
  have hsubscribed := h.subscribe hconnected taskId
  refine ⟨?_, hsubscribed.limiters, hsubscribed.active, hsubscribed.subscribers, hsubscribed.seen⟩
  intro s
  refine mem_keys_set.trans ?_
  -- the client was there before it was counted a task
  show s = socket ∨ s ∈ w.bridge.connectedClients.keys ↔ s ∈ w.connected
  rw [h.clients]
  constructor
  · rintro (rfl | hs)
    · exact hconnected
    · exact hs
  · exact .inr

variable {q' : Option (Site S T)}

theorem handled {request : Option (TaskExecutionRequest T)} {uuid : T} (h : Synced w)
    (hh : Handled socket request uuid w w' q') : Synced w' := by
  cases hh with
  | unknown | malformed => exact h.of_maps rfl rfl rfl rfl
  | accepted hc hok => exact h.accept hc _

theorem moves {q : Site S T} {x : Option (Answer q)} (h : Synced w)
    (hm : Moves q x w w' q') : Synced w' := by
  cases hm with
  | admitted hh => exact h.handled hh
  | rejected | recorded => exact h
  | refused | failed | unrecorded => exact h.of_maps rfl rfl rfl rfl
  | finished =>
    refine h.of_maps rfl rfl rfl ?_
    obtain ⟨avg, hmetrics⟩ := State.metrics_finish w.bridge _ _ _
    rw [hmetrics]

theorem begins {e : Event S T} (h : Synced w) (hb : Begins e w w' q') : Synced w' := by
  cases hb with
  | ignored => exact h
  | connected hnew => exact h.connect hnew _ _
  | limited => exact h
  | unlimited _ _ hh => exact h.handled hh
  | subscribed hconnected => exact h.subscribe hconnected _
  | unsubscribed => exact h.unsubscribe _ _
  | disconnected hconnected => exact h.disconnect hconnected

end Synced

def Kept (p : Server S T) : Prop := p.Obedient Moves ∧ Synced p.state

theorem Kept.step {p p' : Server S T} {a : Action S T} (h : Kept p) (hs : step p a = some p') :
    Kept p' := by
  obtain ⟨hob, hsynced⟩ := h
  obtain ⟨hob', hmove⟩ := step_moves hob hs
  refine ⟨hob', ?_⟩
  generalize p'.state = w', p'.sites = sites' at hmove ⊢
  cases hmove with
  | start hb => exact hsynced.begins hb
  | resume _ hm => exact hsynced.moves hm

/-- **The maps of the bridge are about the connected sockets**, in every state that is reached. -/
theorem maps_of_connected {p : Server S T} (h : Reaches step (fun _ _ => True) init p) :
    (∀ s, s ∈ p.state.bridge.connectedClients.keys ↔ s ∈ p.state.connected) ∧
    (∀ s, s ∈ p.state.bridge.rateLimiters.keys ↔ s ∈ p.state.connected) ∧
    p.state.bridge.metrics.activeConnections = p.state.connected.card ∧
    (∀ t set, (t, set) ∈ p.state.bridge.taskSubscriptions.entries →
      (∀ s ∈ set, s ∈ p.state.connected) ∧ set ≠ ∅) := by
  have hkept := h.invariant Kept ⟨obedient_init, Synced.init⟩ fun hk _ hs => hk.step hs
  obtain ⟨-, hsynced⟩ := hkept
  refine ⟨hsynced.clients, hsynced.limiters, hsynced.active, ?_⟩
  intro t set hmem
  obtain ⟨hsub, hne⟩ := hsynced.subscribers t set (get_eq_some_iff.mpr hmem)
  exact ⟨fun s hs => hsub hs, hne.ne_empty⟩

def unlimited : (q : Site Nat Nat) → Option (Answer q)
  | .tryRemoveTokens .. => some true
  | .processMessage .. => some (.ok ⟨true, 1⟩)
  | .recordFeedback .. => some (.ok ())

/-- The socket `0` is gone when its request gets its token. -/
def goneRun : List (Action Nat Nat) :=
  [.start (.connect 0 none none), .start (.connect 1 none none),
    .start (.execute 0 (some { task := some { type := some "code" } }) 7), .start (.subscribe 1 7),
    .start (.disconnect 0), .resume 2 unlimited]

theorem maps_of_connected_goneRun : ∃ p : Server Nat Nat,
    execIf step (fun _ _ => True) init goneRun = some p ∧
    p.state.connected = {1} ∧ p.state.bridge.taskSubscriptions.keys = [7] ∧
    p.state.bridge.metrics.activeConnections = p.state.connected.card := by
  have hrun : ∃ p : Server Nat Nat, execIf step (fun _ _ => True) init goneRun = some p ∧
      p.state.connected = {1} ∧ p.state.bridge.taskSubscriptions.keys = [7] :=
    ⟨_, rfl, by decide +kernel, by decide +kernel⟩
  obtain ⟨p, hp, hconnected, hkeys⟩ := hrun
  obtain ⟨-, -, hactive, -⟩ := maps_of_connected (reaches_of_execIf hp)
  exact ⟨p, hp, hconnected, hkeys, hactive⟩

end Bridge.WebSocket
