import Mathlib.Logic.Basic

/-!
# A map whose entries expire

What a cache is for, with nothing of how one is built: a map from keys to values in which an entry
may carry a deadline and a list of tags, and is taken out by its key, by a tag or with everything
else. Nothing happens to an entry when its deadline passes; it is the *reading* that changes.
-/

namespace Bridge.Lib

@[ext]
structure Leased (V T : Type) where
  value : V
  expiresAt : Option Nat
  tags : List T

namespace Leased

variable {V T : Type}

def Live (now : Nat) (e : Leased V T) : Prop := ∀ x, e.expiresAt = some x → now < x

def Past (now : Nat) (e : Leased V T) : Prop := ∃ x, e.expiresAt = some x ∧ x < now

/-- One of the tags is one of `ts`. -/
def Meets (ts : List T) (e : Leased V T) : Prop := ∃ t ∈ ts, t ∈ e.tags

theorem Live.anti {now now' : Nat} {e : Leased V T} (h : e.Live now') (hle : now ≤ now') :
    e.Live now := fun x hx => Nat.lt_of_le_of_lt hle (h x hx)

theorem Live.not_past {now : Nat} {e : Leased V T} (h : e.Live now) : ¬ e.Past now := by
  intro hx
  obtain ⟨x, hx, hlt⟩ := hx
  exact Nat.lt_asymm hlt (h x hx)

instance {now : Nat} {e : Leased V T} : Decidable (e.Past now) :=
  match h : e.expiresAt with
  | none => .isFalse fun hx => by
      obtain ⟨x, hx, -⟩ := hx
      exact absurd (h.symm.trans hx) (by simp)
  | some x =>
    if hlt : x < now then .isTrue ⟨x, h, hlt⟩
    else .isFalse fun hx => by
      obtain ⟨y, hy, hlt'⟩ := hx
      exact hlt (Option.some.inj (h.symm.trans hy) ▸ hlt')

instance [DecidableEq T] {ts : List T} {e : Leased V T} : Decidable (e.Meets ts) :=
  inferInstanceAs (Decidable (∃ t ∈ ts, t ∈ e.tags))

end Leased

abbrev Expiring (K V T : Type) := K → Option (Leased V T)

namespace Expiring

variable {K V T : Type}

def empty : Expiring K V T := fun _ => none

def put [DecidableEq K] (m : Expiring K V T) (k : K) (e : Leased V T) : Expiring K V T :=
  fun k' => if k' = k then some e else m k'

/-- Take out every entry under a key of `p`. -/
def sweep (m : Expiring K V T) (p : K → Prop) [DecidablePred p] : Expiring K V T :=
  fun k => if p k then none else m k

/-- The keys that have an entry with `P`. -/
def Has (m : Expiring K V T) (P : Leased V T → Prop) (k : K) : Prop := ∃ e, m k = some e ∧ P e

variable {m : Expiring K V T} {k : K}

theorem has_of_eq {P : Leased V T → Prop} {e : Leased V T}
    (h : m k = some e) : m.Has P k ↔ P e := by
  constructor
  · intro hx
    obtain ⟨e', he', hp⟩ := hx
    exact Option.some.inj (h.symm.trans he') ▸ hp
  · intro hp
    exact ⟨e, h, hp⟩

theorem not_has_of_eq {P : Leased V T → Prop} (h : m k = none) : ¬ m.Has P k := by
  intro hx
  obtain ⟨e, he, -⟩ := hx
  exact absurd (h.symm.trans he) (by simp)

instance {m : Expiring K V T} {P : Leased V T → Prop} [DecidablePred P] : DecidablePred (m.Has P) :=
  fun k => match h : m k with
  | none => .isFalse (not_has_of_eq h)
  | some _ => decidable_of_iff _ (has_of_eq h).symm

/-- `r` is a right answer to reading `k` at `now`. -/
def Answers (m : Expiring K V T) (now : Nat) (k : K) (r : Option V) : Prop :=
  (∀ e, m k = some e → e.Live now → r = some e.value) ∧
    ((m k = none ∨ m.Has (·.Past now) k) → r = none)

/-- Reading the contents of an implementation: an entry past its deadline is not there. -/
def read (c : Expiring K V T) (now : Nat) (k : K) : Option V :=
  match c k with
  | none => none
  | some e => if e.Past now then none else some e.value

variable {p : K → Prop}

theorem sweep_eq_some [DecidablePred p] {e : Leased V T} : m.sweep p k = some e ↔ ¬ p k ∧
    m k = some e := by
  unfold sweep
  split
  · simp_all
  · simp_all

theorem sweep_congr {q : K → Prop} [DecidablePred p] [DecidablePred q]
    (h : ∀ k, p k ↔ q k) : m.sweep p = m.sweep q := by
  funext k
  simp [sweep, h]

theorem sweep_eq_self [DecidablePred p] (h : ∀ k, ¬ p k) : m.sweep p = m := by
  funext k
  exact if_neg (h k)

theorem sweep_sweep {q : K → Prop} [DecidablePred p] [DecidablePred q] :
    (m.sweep p).sweep q = m.sweep fun k => p k ∨ q k := by
  funext k
  by_cases hq : q k <;> simp [sweep, hq]

theorem read_of_live {c : Expiring K V T} {now : Nat} {e : Leased V T} (h : c k = some e)
    (hl : e.Live now) : c.read now k = some e.value := by
  simp [read, h, if_neg hl.not_past]

theorem eq_of_read {c : Expiring K V T} {now : Nat} {v : V}
    (h : c.read now k = some v) : ∃ e, c k = some e ∧ e.value = v := by
  unfold read at h
  split at h
  · cases h
  · rename_i e he
    split at h
    · cases h
    · exact ⟨e, he, Option.some.inj h⟩

/-! ## An implementation and its map -/

/-- The contents of an implementation hold the map `m` at `now`. -/
structure Holds (m : Expiring K V T) (now : Nat) (c : Expiring K V T) : Prop where
  sub : ∀ {k e}, c k = some e → m k = some e
  live : ∀ {k e}, m k = some e → e.Live now → c k = some e

namespace Holds

variable {c : Expiring K V T} {now : Nat}

theorem empty : Holds (empty : Expiring K V T) now Expiring.empty :=
  ⟨fun h => h, fun h _ => h⟩

/-- **What an implementation that holds the map reads is right.** -/
theorem answers (h : Holds m now c) (k : K) : m.Answers now k (c.read now k) := by
  refine ⟨fun e he hl => read_of_live (h.live he hl) hl, ?_⟩
  intro hnone
  unfold read
  split
  · rfl
  · rename_i e he
    obtain hm | hpast := hnone
    · exact absurd ((h.sub he).symm.trans hm) (by simp)
    · exact if_pos ((has_of_eq (h.sub he)).mp hpast)

theorem of_answers (hsub : ∀ {k e}, c k = some e → m k = some e)
    (h : ∀ {k e}, m k = some e → m.Answers now k (c.read now k)) : Holds m now c := by
  refine ⟨hsub, ?_⟩
  intro k e he hl
  obtain ⟨e', he', -⟩ := eq_of_read ((h he).1 e he hl)
  rw [he', ← hsub he', he]

theorem tick (h : Holds m now c) {now' : Nat} (hle : now ≤ now') : Holds m now' c :=
  ⟨h.sub, fun he hl => h.live he (hl.anti hle)⟩

theorem put [DecidableEq K] (h : Holds m now c) (k : K) (e : Leased V T) :
    Holds (m.put k e) now (c.put k e) := by
  constructor
  · intro k' e' he
    unfold Expiring.put at he ⊢
    split
    · simpa only [*, if_true] using he
    · rw [if_neg ‹_›] at he
      exact h.sub he
  · intro k' e' he hl
    unfold Expiring.put at he ⊢
    split
    · simpa only [*, if_true] using he
    · rw [if_neg ‹_›] at he
      exact h.live he hl

section Sweep

variable {q : K → Prop} [DecidablePred p] [DecidablePred q]

theorem sub_sweep (h : Holds m now c) (hqp : ∀ {k e}, c k = some e → q k → p k) {e : Leased V T}
    (he : c.sweep p k = some e) : m.sweep q k = some e := by
  obtain ⟨hp, hc⟩ := sweep_eq_some.mp he
  exact sweep_eq_some.mpr ⟨fun hq => hp (hqp hc hq), h.sub hc⟩

/-- **A sweep is right iff it spares what is live and not meant.** -/
theorem sweep_iff (h : Holds m now c) (hqp : ∀ {k e}, c k = some e → q k → p k) :
    Holds (m.sweep q) now (c.sweep p) ↔ ∀ k e, m k = some e → e.Live now → p k → q k := by
  constructor
  · intro hs k e he hl hp
    refine Decidable.byContradiction ?_
    intro hq
    have hc : c.sweep p k = some e := hs.live (sweep_eq_some.mpr ⟨hq, he⟩) hl
    exact (sweep_eq_some.mp hc).1 hp
  · intro hpq
    refine ⟨h.sub_sweep hqp, ?_⟩
    intro k e he hl
    obtain ⟨hq, hm⟩ := sweep_eq_some.mp he
    exact sweep_eq_some.mpr ⟨fun hp => hq (hpq k e hm hl hp), h.live hm hl⟩

end Sweep

end Holds
end Expiring
end Bridge.Lib
