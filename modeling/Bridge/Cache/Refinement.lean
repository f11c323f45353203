import Bridge.Cache.Memory

/-!
# The memory cache against a map whose entries expire

What `MemoryCacheService` is for is `Lib.Expiring`: a map in which an entry may have a deadline and
tags. `spec` says what each call does to that map. It knows no timers and no tag index: a deadline
is data of the entry, and an invalidation takes out the entries whose *own* tags meet the tags
given.
-/

namespace Bridge.Cache.Memory

open Lib Option

variable {V : Type}

def Removes (m : Expiring Text V Text) : Action V → Text → Prop
  | .delete key, k => k = normalizeKey key
  | .clear, _ => True
  | .invalidateByTags tags, k => m.Has (·.Meets tags) k
  | .set .., _ | .get _, _ | .tick _, _ | .fire _, _ => False

instance {m : Expiring Text V Text} {a : Action V} : DecidablePred (Removes m a) := fun k =>
  match a with
  | .delete key => inferInstanceAs (Decidable (k = normalizeKey key))
  | .clear => inferInstanceAs (Decidable True)
  | .invalidateByTags tags => inferInstanceAs (Decidable (m.Has (·.Meets tags) k))
  | .set .. | .get _ | .tick _ | .fire _ => inferInstanceAs (Decidable False)

/-- What an action at `now` does to the map. -/
def spec (json : V → Option Nat) (now : Nat) (m : Expiring Text V Text) (a : Action V) :
    Expiring Text V Text :=
  match a.stores json now with
  | some (key, e) => m.put key e
  | none => m.sweep (Removes m a)

structure Traced (V : Type) where
  state : State V
  map : Expiring Text V Text

namespace Traced

def init : Traced V := ⟨.init, .empty⟩

def step (json : V → Option Nat) (p : Traced V) (a : Action V) : Option (Traced V) :=
  (p.state.step json a).map fun s => ⟨s, spec json p.state.now p.map a⟩

/-- Whatever key is asked for now, the answer is a right one. -/
def Agrees (p : Traced V) : Prop :=
  ∀ key, p.map.Answers p.state.now (normalizeKey key) (p.state.get key).1

end Traced

namespace State

/-- A timer finds nothing live under its key, and an invalidation finds no live entry in the index
that carries none of the tags. -/
def Spares (s : State V) : Action V → Prop
  | .fire i => ∀ due key e, s.timers[i]? = some (due, key) → s.contents key = some e →
      ¬ e.Live s.now
  | .invalidateByTags tags => ∀ key e, s.contents key = some e → e.Live s.now →
      s.Listed tags key → e.Meets tags
  | _ => True

def Covered (s : State V) : Prop :=
  ∀ key e, s.contents key = some e → ∀ t ∈ e.tags, s.Indexed t key

variable {json : V → Option Nat} {s s' : State V} {a : Action V}

theorem Covered.step (h : s.Covered) (hn : s.Normalized) (hs : s.step json a = some s') :
    s'.Covered := by
  intro key e he t ht
  cases ha : a.stores json s.now with
  | some x =>
    obtain ⟨k, e'⟩ := x
    have hst := step_stored hs ha
    rw [hst.contents] at he
    rw [hst.indexed]
    by_cases hk : key = k
    · obtain rfl : e' = e := by simpa [Expiring.put, hk] using he
      exact .inr ⟨hk, ht⟩
    · exact .inl (h key e (by simpa [Expiring.put, hk] using he) t ht)
  | none =>
    have hdr := step_dropped hs hn ha
    rw [hdr.contents] at he
    obtain ⟨hp, he⟩ := Expiring.sweep_eq_some.mp he
    exact hdr.kept (h key e he t ht) hp

theorem step_now (hs : s.step json a = some s') (ha : ∀ t, a ≠ .tick t) : s'.now = s.now := by
  have hdelete : ∀ {s : State V} {key}, (s.delete key).2.now = s.now := by
    intro s key
    obtain ⟨stats, h⟩ := s.delete_eq key
    rw [h]
    rfl
  have hall : ∀ (keys : List Text) {s : State V}, (s.deleteAll keys).2.now = s.now := by
    intro keys
    induction keys with
    | nil => intro s; rfl
    | cons key rest ih => intro s; exact ih.trans hdelete
  cases a with
  | set key value options =>
    cases hs
    cases hj : json value with
    | none => simp [set, doSet, hj]
    | some size =>
      simp only [set, doSet, hj, map_some]
      cases options.tags <;> rfl
  | get key =>
    cases hs
    obtain ⟨-, stats, h⟩ | ⟨-, -, cache, stats, h⟩ := (s.get_cases key).2
    · rw [h]; rfl
    · rw [h]
  | delete key => cases hs; exact hdelete
  | clear => cases hs; rfl
  | invalidateByTags tags =>
    cases hs
    clear ha
    induction tags generalizing s with
    | nil => rfl
    | cons tag rest ih => exact ih.trans (hall _)
  | tick t => exact absurd rfl (ha t)
  | fire i =>
    simp only [step] at hs
    split at hs
    · cases hs
    · split at hs <;> cases hs
      rfl

end State

/-! ## The invariant -/

namespace Traced

variable {json : V → Option Nat} {p p' : Traced V} {a : Action V}

structure Sound (p : Traced V) : Prop where
  holds : p.map.Holds p.state.now p.state.contents
  keyed : ∀ {k e}, p.map k = some e → normalizeKey k = k
  covered : p.state.Covered
  normalized : p.state.Normalized

theorem sound_init : (init : Traced V).Sound where
  holds := .empty
  keyed h := absurd h (by simp [init, Expiring.empty])
  covered _ _ h := absurd h (by simp [init, State.init, State.contents])
  normalized _ _ h := absurd h (by simp [init, State.init, State.getKeysByTag, TagIndex.keys])

theorem Sound.agrees (h : p.Sound) : p.Agrees := by
  intro key
  rw [State.get_fst]
  exact h.holds.answers _

variable {e : Leased V Text}

theorem Sound.drops (h : p.Sound) {k : Text} (hc : p.state.contents k = some e)
    (hr : Removes p.map a k) : p.state.Drops a k := by
  cases a with
  | delete key => exact hr
  | clear => trivial
  | invalidateByTags tags =>
    obtain ⟨t, ht, hmem⟩ := (Expiring.has_of_eq (h.holds.sub hc)).mp hr
    exact ⟨t, ht, h.covered k e hc t hmem⟩
  | set | get | tick | fire => exact hr.elim

theorem Sound.spares_iff (h : p.Sound) : p.state.Spares a ↔ ∀ k e, p.map k = some e →
    e.Live p.state.now → p.state.Drops a k → Removes p.map a k := by
  cases a with
  | set | tick =>
    exact ⟨fun _ _ _ _ _ hd => hd, fun _ => trivial⟩
  | delete | clear =>
    exact ⟨fun _ _ _ _ _ hd => hd, fun _ => trivial⟩
  | get key =>
    refine ⟨fun _ k e he hl hd => ?_, fun _ => trivial⟩
    obtain ⟨rfl, hpast⟩ := hd
    exact hl.not_past ((Expiring.has_of_eq (h.holds.live he hl)).mp hpast)
  | invalidateByTags tags =>
    constructor
    · intro hsp k e he hl hd
      exact ⟨e, he, hsp k e (h.holds.live he hl) hl hd⟩
    · intro hall k e hc hl hd
      have he := h.holds.sub hc
      exact (Expiring.has_of_eq he).mp (hall k e he hl hd)
  | fire i =>
    constructor
    · intro hsp k e he hl hd
      obtain ⟨x, htimer, rfl⟩ := map_eq_some_iff.mp hd
      exact hsp x.1 x.2 e htimer (h.holds.live he hl) hl
    · intro hall due key e htimer hc hl
      refine hall key e (h.holds.sub hc) hl ?_
      simp [State.Drops, htimer, map_some]

theorem step_eq (hs : p.step json a = some p') : p.state.step json a = some p'.state ∧
    p'.map = spec json p.state.now p.map a := by
  obtain ⟨s', hs', rfl⟩ := map_eq_some_iff.mp hs
  exact ⟨hs', rfl⟩

theorem spares_of_stores {s : State V} {x : Text × Leased V Text}
    (ha : a.stores json s.now = some x) : s.Spares a := by
  cases a with
  | set => trivial
  | _ => simp [Action.stores] at ha

theorem Sound.sub_step (h : p.Sound) (hs : p.step json a = some p') {k : Text}
    (he : p'.state.contents k = some e) : p'.map k = some e := by
  obtain ⟨hs', hmap⟩ := step_eq hs
  rw [hmap, spec]
  cases ha : a.stores json p.state.now with
  | some x =>
    rw [(State.step_stored hs' ha).contents] at he
    exact (h.holds.put x.1 x.2).sub he
  | none =>
    rw [(State.step_dropped hs' h.normalized ha).contents] at he
    exact h.holds.sub_sweep h.drops he

/-- **One step keeps the relation iff it spares what it should.** -/
theorem Sound.holds_iff (h : p.Sound) (hs : p.step json a = some p') :
    p'.map.Holds p'.state.now p'.state.contents ↔ p.state.Spares a := by
  obtain ⟨hs', hmap⟩ := step_eq hs
  rw [hmap, spec]
  cases ha : a.stores json p.state.now with
  | some x =>
    have hnow : p'.state.now = p.state.now := by
      refine State.step_now hs' ?_
      intro t ht
      simp [ht, Action.stores] at ha
    rw [(State.step_stored hs' ha).contents, hnow]
    exact iff_of_true (h.holds.put x.1 x.2) (spares_of_stores ha)
  | none =>
    have hdr := State.step_dropped hs' h.normalized ha
    by_cases htick : ∃ t, a = .tick t
    · obtain ⟨t, rfl⟩ := htick
      refine iff_of_true ?_ trivial
      have hle : p.state.now ≤ p'.state.now := by
        simp only [State.step] at hs'
        split at hs'
        · rename_i hnow
          exact some.inj hs' ▸ hnow.1
        · cases hs'
      rw [hdr.contents]
      refine Expiring.Holds.tick ?_ hle
      exact (h.holds.sweep_iff h.drops).mpr (h.spares_iff.mp trivial)
    · have hnow := State.step_now hs' fun t ht => htick ⟨t, ht⟩
      rw [hdr.contents, hnow, h.holds.sweep_iff h.drops]
      exact h.spares_iff.symm

theorem Sound.keyed_step (h : p.Sound) (hs : p.step json a = some p') {k : Text}
    (he : p'.map k = some e) : normalizeKey k = k := by
  rw [(step_eq hs).2, spec] at he
  cases ha : a.stores json p.state.now with
  | some x =>
    rw [ha] at he
    simp only [Expiring.put] at he
    split_ifs at he with hk
    · rw [hk]
      exact State.stores_normalized ha
    · exact h.keyed he
  | none =>
    rw [ha] at he
    exact h.keyed (Expiring.sweep_eq_some.mp he).2

theorem Sound.step (h : p.Sound) (hs : p.step json a = some p') (ha : p.state.Spares a) :
    p'.Sound where
  holds := (h.holds_iff hs).mpr ha
  keyed := h.keyed_step hs
  covered := h.covered.step h.normalized (step_eq hs).1
  normalized := h.normalized.step (step_eq hs).1

theorem Sound.spares_of_agrees (h : p.Sound) (hs : p.step json a = some p') (hp : p'.Agrees) :
    p.state.Spares a := by
  refine (h.holds_iff hs).mp (.of_answers (h.sub_step hs) ?_)
  intro k e he
  have hk := hp k
  rwa [h.keyed_step hs he, State.get_fst, h.keyed_step hs he] at hk

end Traced

/-- **The memory cache refines the map exactly on the runs that spare every live entry.** -/
theorem agrees_iff_spares (json : V → Option Nat) (acts : List (Action V)) :
    Always (Traced.step json) Traced.Agrees .init acts ↔
      Guarded (Traced.step json) (fun p a => p.state.Spares a) .init acts :=
  always_iff_guarded Traced.Sound.agrees (fun h hs ha => h.step hs ha)
    (fun h hs hp => h.spares_of_agrees hs hp) Traced.sound_init

theorem loses_live_entry : (∃ p, exec (Traced.step fun _ : Nat => some 1) .init
        [.set (text "k") 1 { ttl := some 10 }, .tick 5, .set (text "k") 2 {}, .tick 10, .fire 0]
        = some p ∧
      p.map.read p.state.now (text "k") = some 2 ∧ (p.state.get (text "k")).1 = none ∧
      ¬ p.Agrees) ∧
    (∃ p, exec (Traced.step fun _ : Nat => some 1) .init
        [.set (text "k") 1 { tags := some [text "t"] }, .set (text "k") 2 {},
          .invalidateByTags [text "t"]] = some p ∧
      p.map.read p.state.now (text "k") = some 2 ∧ (p.state.get (text "k")).1 = none ∧
      ¬ p.Agrees) := by
  have hdisagree : ∀ {p : Traced Nat} {e : Leased Nat Text}, p.map (text "k") = some e →
      e.expiresAt = none → (p.state.get (text "k")).1 = none → ¬ p.Agrees := by
    intro p e he hx hnone hp
    have hlive : e.Live p.state.now := fun x h => absurd (hx.symm.trans h) (by simp)
    exact absurd (hnone.symm.trans ((hp (text "k")).1 e he hlive)) (by simp)
  refine ⟨⟨_, rfl, by decide, by decide, hdisagree (e := ⟨2, none, []⟩) rfl rfl (by decide)⟩,
    ⟨_, rfl, by decide, by decide, hdisagree (e := ⟨2, none, []⟩) rfl rfl (by decide)⟩⟩

end Bridge.Cache.Memory
