import Bridge.Cache.Memory

/-!
# The tag index of the memory cache

Entries and tag index are kept by different methods: `set` adds to the index what its options name,
`doDelete` removes what the entry it deletes names, and nothing removes what an entry named that was
*replaced*. The index is therefore exact as long as a `set` over an entry names all the tags of that
entry again, and `exact_iff_retags` says that it is exact on no other runs.
-/

namespace Bridge.Cache.Memory

open Lib List Option

variable {V : Type} {json : V → Option Nat}

theorem length_keys_erase {K : Type} {β : K → Type} [DecidableEq K] (m : AList β) (k : K) :
    (if k ∈ m.keys then 1 else 0) + (m.erase k).keys.length = m.keys.length := by
  rw [AList.keys_erase]
  split_ifs with hk
  · have hpos := length_pos_of_mem hk
    rw [length_erase_of_mem hk]
    omega
  · rw [erase_of_not_mem hk, Nat.zero_add]

namespace State

variable (s : State V)

theorem mem_cache {s : State V} {k : Text} : k ∈ s.cache.keys ↔ (s.contents k).isSome = true := by
  rw [← AList.mem_keys, ← AList.lookup_isSome, contents, isSome_map]

theorem delete_count (key : Text) :
    (if (s.delete key).1 = true then 1 else 0) + (s.delete key).2.cache.keys.length
      = s.cache.keys.length := by
  obtain ⟨stats, h⟩ := s.delete_eq key
  have hmem : (s.delete key).1 = true ↔ normalizeKey key ∈ s.cache.keys := by
    rw [h, ← AList.mem_keys, ← AList.lookup_isSome]
    rfl
  have hkeys : (s.delete key).2.cache.keys = (s.cache.erase (normalizeKey key)).keys := by
    rw [h]; rfl
  rw [hkeys, ← length_keys_erase s.cache (normalizeKey key)]
  by_cases hk : normalizeKey key ∈ s.cache.keys <;> simp [hmem, hk]

theorem deleteAll_count (keys : List Text) :
    (s.deleteAll keys).1 + (s.deleteAll keys).2.cache.keys.length = s.cache.keys.length := by
  induction keys generalizing s with
  | nil => exact Nat.zero_add _
  | cons key rest ih =>
    have hfirst := s.delete_count key
    have hrest := ih (s := (s.delete key).2)
    simp only [deleteAll]
    omega

theorem invalidateByTags_count (tags : List Text) :
    (s.invalidateByTags tags).1 + (s.invalidateByTags tags).2.cache.keys.length
      = s.cache.keys.length := by
  induction tags generalizing s with
  | nil => exact Nat.zero_add _
  | cons tag rest ih =>
    have hfirst := s.deleteAll_count (s.getKeysByTag tag)
    have hrest := ih (s := (s.deleteAll (s.getKeysByTag tag)).2)
    simp only [invalidateByTags]
    omega

theorem invalidateByTags_fst (tags : List Text) (h : s.Normalized) :
    (s.invalidateByTags tags).1 = s.cache.keys.countP fun k => s.Listed tags k := by
  have hperm : (s.invalidateByTags tags).2.cache.keys.Perm
      (s.cache.keys.filter fun k => ¬ s.Listed tags k) := by
    refine (perm_ext_iff_of_nodup (AList.keys_nodup _) (s.cache.keys_nodup.filter _)).mpr ?_
    intro k
    rw [mem_cache, invalidateByTags_contents h, mem_filter, mem_cache]
    by_cases hk : s.Listed tags k <;> simp [Expiring.sweep, hk]
  have hsum := s.invalidateByTags_count tags
  have hsplit :=
    length_eq_countP_add_countP (fun k => decide (s.Listed tags k)) (l := s.cache.keys)
  rw [hperm.length_eq, ← countP_eq_length_filter] at hsum
  simp only [decide_not] at hsum hsplit
  simp only [decide_eq_true_eq] at hsplit
  omega

end State

/-! ## The index and the latest `set` of each key -/

/-- The service, with the tags that the latest `set` of each key carried. -/
structure Noted (V : Type) where
  state : State V
  carried : Text → List Text

namespace Noted

def init : Noted V := ⟨.init, fun _ => []⟩

def step (json : V → Option Nat) (p : Noted V) (a : Action V) : Option (Noted V) :=
  (p.state.step json a).map fun s =>
    { state := s
      carried := match a.stores json p.state.now with
        | some (key, e) => fun k => if k = key then e.tags else p.carried k
        | none => p.carried }

/-- A key is in the index under a tag iff the cache has an entry for it and the latest `set` of the
key carried the tag. -/
def Exact (p : Noted V) : Prop :=
  ∀ t k, p.state.Indexed t k ↔ (p.state.contents k).isSome = true ∧ t ∈ p.carried k

/-- The keys of entries whose tags meet `tags`. -/
def Carriers (p : Noted V) (tags : List Text) (k : Text) : Prop :=
  (p.state.contents k).isSome = true ∧ ∃ t ∈ tags, t ∈ p.carried k

instance {p : Noted V} {tags : List Text} : DecidablePred (p.Carriers tags) := fun k =>
  inferInstanceAs (Decidable ((p.state.contents k).isSome = true ∧ ∃ t ∈ tags, t ∈ p.carried k))

/-- `invalidateByTags` removes the entries whose tags meet `tags`, and returns their number. -/
def Invalidates (p : Noted V) (tags : List Text) : Prop :=
  (p.state.invalidateByTags tags).2.contents = p.state.contents.sweep (p.Carriers tags) ∧
    (p.state.invalidateByTags tags).1 = p.state.cache.keys.countP fun k => p.Carriers tags k

end Noted

/-- A `set` over an entry names all the tags of that entry. -/
def State.Retags (json : V → Option Nat) (s : State V) (a : Action V) : Prop :=
  ∀ key e, a.stores json s.now = some (key, e) →
    ∀ e', s.contents key = some e' → ∀ t ∈ e'.tags, t ∈ e.tags

namespace Noted

variable {p p' : Noted V} {a : Action V}

structure Kept (p : Noted V) : Prop where
  exact : p.Exact
  tags : ∀ {k e}, p.state.contents k = some e → e.tags = p.carried k
  normalized : p.state.Normalized

theorem kept_init : (init : Noted V).Kept where
  exact t k := by simp [init, State.init, State.Indexed, TagIndex.keys, State.contents]
  tags h := absurd h (by simp [init, State.init, State.contents])
  normalized _ _ h := absurd h (by simp [init, State.init, State.getKeysByTag, TagIndex.keys])

theorem Exact.listed_iff (h : p.Exact) {tags : List Text} {k : Text} :
    p.state.Listed tags k ↔ p.Carriers tags k := by
  simp only [State.Listed, h _ k, Carriers]
  constructor
  · intro hx
    obtain ⟨t, ht, hsome, hmem⟩ := hx
    exact ⟨hsome, t, ht, hmem⟩
  · intro hx
    obtain ⟨hsome, t, ht, hmem⟩ := hx
    exact ⟨t, ht, hsome, hmem⟩

/-- **An exact index makes invalidation exact.** -/
theorem Kept.invalidates (h : p.Kept) (tags : List Text) : p.Invalidates tags := by
  refine ⟨(State.invalidateByTags_contents h.normalized).trans
    (Expiring.sweep_congr fun k => h.exact.listed_iff), ?_⟩
  rw [p.state.invalidateByTags_fst tags h.normalized]
  exact countP_congr fun k _ => by simp [h.exact.listed_iff]

theorem step_eq (hs : p.step json a = some p') : p.state.step json a = some p'.state ∧
    p'.carried = match a.stores json p.state.now with
      | some (key, e) => fun k => if k = key then e.tags else p.carried k
      | none => p.carried := by
  obtain ⟨s', hs', rfl⟩ := map_eq_some_iff.mp hs
  exact ⟨hs', rfl⟩

theorem Kept.exact_dropped (h : p.Kept) {q : Text → Prop} [DecidablePred q]
    (hd : State.Dropped p.state p'.state q) (hc : p'.carried = p.carried) : p'.Exact := by
  intro t k
  rw [hd.contents, hc]
  by_cases hq : q k
  · refine iff_of_false ?_ (by simp [Expiring.sweep, hq])
    intro hidx
    obtain ⟨hsome, ht⟩ := (h.exact t k).mp (hd.sub hidx)
    obtain ⟨e, he⟩ := isSome_iff_exists.mp hsome
    have hmem : t ∈ e.tags := h.tags he ▸ ht
    exact hd.gone hq ⟨e, he, hmem⟩ hidx
  · have hsame : p.state.contents.sweep q k = p.state.contents k := if_neg hq
    rw [hsame, ← h.exact]
    exact ⟨hd.sub, fun hidx => hd.kept hidx hq⟩

/-- **One step keeps the index exact iff it is no `set` that loses a tag.** -/
theorem Kept.exact_iff (h : p.Kept) (hs : p.step json a = some p') :
    p'.Exact ↔ p.state.Retags json a := by
  obtain ⟨hs', hcarried⟩ := step_eq hs
  cases ha : a.stores json p.state.now with
  | none =>
    rw [ha] at hcarried
    refine iff_of_true (h.exact_dropped (State.step_dropped hs' h.normalized ha) hcarried) ?_
    intro key e hstores
    exact absurd (ha.symm.trans hstores) (by simp)
  | some x =>
    obtain ⟨key, e⟩ := x
    rw [ha] at hcarried
    have hst := State.step_stored hs' ha
    constructor
    · intro hex key' e' hstores old hold t ht
      obtain ⟨rfl, rfl⟩ : key = key' ∧ e = e' := by simpa using ha.symm.trans hstores
      have hidx : p'.state.Indexed t key := by
        refine hst.indexed.mpr (.inl ((h.exact t key).mpr ?_))
        exact ⟨by simp [hold], h.tags hold ▸ ht⟩
      have hcar := ((hex t key).mp hidx).2
      simpa [hcarried] using hcar
    · intro hre t k
      rw [hst.indexed, hst.contents, hcarried]
      by_cases hk : k = key
      · subst hk
        simp only [Expiring.put, if_true, isSome_some, true_and]
        refine or_iff_right_of_imp fun hold => ?_
        obtain ⟨hsome, ht⟩ := (h.exact t k).mp hold
        obtain ⟨old, hold⟩ := isSome_iff_exists.mp hsome
        exact hre k e ha old hold t (h.tags hold ▸ ht)
      · simp [Expiring.put, hk, h.exact t k]

theorem Kept.step (h : p.Kept) (hs : p.step json a = some p') (ha : p.state.Retags json a) :
    p'.Kept := by
  refine ⟨(h.exact_iff hs).mpr ha, ?_, h.normalized.step (step_eq hs).1⟩
  intro k e he
  obtain ⟨hs', hcarried⟩ := step_eq hs
  cases hst : a.stores json p.state.now with
  | none =>
    rw [hst] at hcarried
    rw [(State.step_dropped hs' h.normalized hst).contents] at he
    rw [hcarried]
    exact h.tags (Expiring.sweep_eq_some.mp he).2
  | some x =>
    rw [hst] at hcarried
    rw [(State.step_stored hs' hst).contents] at he
    rw [hcarried]
    by_cases hk : k = x.1
    · obtain rfl : x.2 = e := by simpa [Expiring.put, hk] using he
      simp [hk]
    · simp only [Expiring.put, hk, if_false] at he ⊢
      exact h.tags he

end Noted

/-- **The tag index is exact on the runs that lose no tag, and on no others**: on every run, the
index lists at every moment exactly the keys of the entries whose latest `set` carried the tag, and
every invalidation removes exactly those and returns their number, iff no `set` over an entry leaves
out a tag of that entry. -/
theorem exact_iff_retags (json : V → Option Nat) (acts : List (Action V)) :
    Always (Noted.step json) (fun p => p.Exact ∧ ∀ tags, p.Invalidates tags) .init acts ↔
      Guarded (Noted.step json) (fun p a => p.state.Retags json a) .init acts :=
  always_iff_guarded (fun h => ⟨h.exact, h.invalidates⟩) (fun h hs ha => h.step hs ha)
    (fun h hs hp => (h.exact_iff hs).mp hp.1) Noted.kept_init

theorem stale_tag : ∃ p, exec (Noted.step fun _ : Nat => some 1) .init
        [.set (text "k") 1 { tags := some [text "t"] }, .set (text "k") 2 {}] = some p ∧
      p.state.Indexed (text "t") (text "k") ∧ p.carried (text "k") = [] ∧ ¬ p.Exact ∧
      (p.state.invalidateByTags [text "t"]).1 = 1 ∧ ¬ p.Invalidates [text "t"] := by
  refine ⟨_, rfl, by decide, rfl, ?_, by decide, ?_⟩
  · intro hex
    have hcar := ((hex (text "t") (text "k")).mp (by decide)).2
    exact absurd hcar (by decide)
  · intro hinv
    exact absurd hinv.2 (by decide)

end Bridge.Cache.Memory
