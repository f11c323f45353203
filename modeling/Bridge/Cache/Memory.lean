import Mathlib.Data.List.AList
import Bridge.Cache.Service
import Bridge.Lib.Expiring
import Bridge.Lib.Run

/-!
# `MemoryCacheService`

The cache in memory: a map of entries, a second map from each tag to the keys it was given for, and
the timers that `doSet` starts. A timer holds a *key*, not an entry, and is never cancelled; the
tag index is added to by `set` and cleaned by `doDelete` with the tags of the entry that is there
*then*. Both are therefore part of the state here, next to the entries.
-/

namespace Bridge.Cache.Memory

open Lib Expiring List

structure Metadata where
  key : Text
  createdAt : Nat
  expiresAt : Option Nat
  hits : Nat
  lastAccessed : Nat
  size : Nat
  tags : Option (List Text)

structure CacheEntry (V : Type) where
  value : V
  metadata : Metadata

/-- `tagIndex : Map<string, Set<string>>` -/
abbrev TagIndex := AList (fun _ : Text => List Text)

structure State (V : Type) where
  now : Nat
  cache : AList (fun _ : Text => CacheEntry V)
  tagIndex : TagIndex
  /-- The timers not fired yet, with the time each is due. -/
  timers : List (Nat × Text)
  stats : CacheStats

def State.init {V : Type} : State V := ⟨0, ∅, ∅, [], {}⟩

/-! ## The tag index -/

namespace TagIndex

def keys (idx : TagIndex) (tag : Text) : List Text := (idx.lookup tag).getD []

/-- One turn of the loop of `tagKeys`. -/
def add (key : Text) (idx : TagIndex) (tag : Text) : TagIndex :=
  idx.insert tag (if key ∈ idx.keys tag then idx.keys tag else idx.keys tag ++ [key])

/-- One turn of the loop of `doDelete`: a set that becomes empty is dropped. -/
def remove (key : Text) (idx : TagIndex) (tag : Text) : TagIndex :=
  match idx.lookup tag with
  | none => idx
  | some ks =>
    if ks.filter (· ≠ key) = [] then idx.erase tag else idx.insert tag (ks.filter (· ≠ key))

section Keys

variable {idx : TagIndex} {key tag k t : Text} {ks : List Text}

theorem keys_insert : keys (idx.insert t ks) t = ks := by
  simp [keys, AList.lookup_insert, Option.getD_some]

theorem keys_insert_ne (h : t ≠ tag) : keys (idx.insert tag ks) t = keys idx t := by
  simp [keys, AList.lookup_insert_ne h]

theorem keys_erase : keys (idx.erase t) t = [] := by
  simp [keys, AList.lookup_erase, Option.getD_none]

theorem keys_erase_ne (h : t ≠ tag) : keys (idx.erase tag) t = keys idx t := by
  simp [keys, AList.lookup_erase_ne h]

theorem keys_of_lookup (h : idx.lookup t = some ks) : keys idx t = ks := by
  simp [keys, h, Option.getD_some]

theorem mem_keys_add : k ∈ (add key idx tag).keys t ↔ k ∈ keys idx t ∨ (k = key ∧ t = tag) := by
  unfold add
  by_cases ht : t = tag
  · subst ht
    rw [keys_insert]
    split_ifs with hmem
    · exact ⟨.inl, fun h => h.elim id fun hk => hk.1 ▸ hmem⟩
    · simp
  · rw [keys_insert_ne ht]
    simp [ht]

theorem mem_keys_remove :
    k ∈ (remove key idx tag).keys t ↔ k ∈ keys idx t ∧ ¬ (k = key ∧ t = tag) := by
  unfold remove
  split
  · rename_i hnone
    refine ⟨fun h => ⟨h, ?_⟩, fun h => h.1⟩
    intro hk
    obtain ⟨rfl, rfl⟩ := hk
    simp [keys, hnone] at h
  · rename_i ks hsome
    by_cases ht : t = tag
    · subst ht
      have hmem : k ∈ ks.filter (· ≠ key) ↔ k ∈ keys idx t ∧ ¬ (k = key ∧ t = t) := by
        simp [keys_of_lookup hsome]
      rw [← hmem]
      split_ifs with hempty
      · rw [keys_erase, hempty]
      · rw [keys_insert]
    · split
      · simp [keys_erase_ne, ht]
      · simp [keys_insert_ne, ht]

end Keys

theorem mem_keys_foldl_add {key k t : Text} (tags : List Text) :
    ∀ {idx : TagIndex}, k ∈ (tags.foldl (add key) idx).keys t ↔
      k ∈ idx.keys t ∨ (k = key ∧ t ∈ tags) := by
  induction tags with
  | nil => simp
  | cons tag rest ih =>
    intro idx
    rw [foldl_cons, ih, mem_keys_add, mem_cons, and_or_left, or_assoc]

theorem mem_keys_foldl_remove {key k t : Text} (tags : List Text) :
    ∀ {idx : TagIndex}, k ∈ (tags.foldl (remove key) idx).keys t ↔
      k ∈ idx.keys t ∧ ¬ (k = key ∧ t ∈ tags) := by
  induction tags with
  | nil => simp
  | cons tag rest ih =>
    intro idx
    rw [foldl_cons, ih, mem_keys_remove, mem_cons, and_or_left, not_or, and_assoc]

end TagIndex

/-! ## The service -/

namespace State

variable {V : Type} (json : V → Option Nat)

def doGet (s : State V) (key : Text) : Option (CacheEntry V) := s.cache.lookup key

def doSet (s : State V) (key : Text) (value : V) (options : CacheOptions) : Option (State V) :=
  (json value).map fun size =>
    let expiresAt := options.expiresAt s.now
    let entry : CacheEntry V :=
      { value
        metadata :=
          { key, createdAt := s.now, expiresAt, hits := 0, lastAccessed := s.now, size,
            tags := options.tags } }
    { s with
      cache := s.cache.insert key entry
      timers := s.timers ++ expiresAt.toList.map fun due => (due, key) }

def doDelete (s : State V) (key : Text) : Bool × State V :=
  let tags := ((s.cache.lookup key).bind (·.metadata.tags)).getD []
  ((s.cache.lookup key).isSome,
    { s with tagIndex := tags.foldl (TagIndex.remove key) s.tagIndex, cache := s.cache.erase key })

def doClear (s : State V) : State V := { s with cache := ∅, tagIndex := ∅ }

def tagKeys (s : State V) (key : Text) (tags : List Text) : State V :=
  { s with tagIndex := tags.foldl (TagIndex.add key) s.tagIndex }

def getKeysByTag (s : State V) (tag : Text) : List Text := s.tagIndex.keys tag

def delete (s : State V) (key : Text) : Bool × State V :=
  match s.doDelete (normalizeKey key) with
  | (true, s') => (true, { s' with stats := s'.stats.recordDelete })
  | (false, s') => (false, s')

def get (s : State V) (key : Text) : Option V × State V :=
  let normalizedKey := normalizeKey key
  match s.doGet normalizedKey with
  | none => (none, { s with stats := s.stats.recordMiss })
  | some entry =>
    if entry.metadata.expiresAt.any (· < s.now) then
      let s' := (s.delete normalizedKey).2
      (none, { s' with stats := s'.stats.recordMiss })
    else
      let metadata :=
        { entry.metadata with hits := entry.metadata.hits + 1, lastAccessed := s.now }
      (some entry.value,
        { s with
          cache := s.cache.insert normalizedKey { entry with metadata }
          stats := s.stats.recordHit })

def set (s : State V) (key : Text) (value : V) (options : CacheOptions) : Bool × State V :=
  let normalizedKey := normalizeKey key
  match s.doSet json normalizedKey value options with
  | none => (false, s)
  | some s' =>
    let s' := { s' with stats := s'.stats.recordSet }
    (true, match options.tags with
      | none => s'
      | some tags => s'.tagKeys normalizedKey tags)

def clear (s : State V) : State V := { s.doClear with stats := {} }

/-- The inner loop of `invalidateByTags`. -/
def deleteAll (s : State V) : List Text → Nat × State V
  | [] => (0, s)
  | key :: rest =>
    let (deleted, s') := s.delete key
    let (invalidated, s'') := s'.deleteAll rest
    (invalidated + (if deleted then 1 else 0), s'')

def invalidateByTags (s : State V) : List Text → Nat × State V
  | [] => (0, s)
  | tag :: rest =>
    let (first, s') := s.deleteAll (s.getKeysByTag tag)
    let (invalidated, s'') := s'.invalidateByTags rest
    (first + invalidated, s'')

end State

/-! ## What the methods do to the contents and to the index

An entry is read back as what the cache is for: its value, its deadline and its tags. `Indexed` is
the tag index as a relation. Every later proof about the service uses the lemmas of this section
and not the methods. -/

def CacheEntry.leased {V : Type} (e : CacheEntry V) : Leased V Text :=
  ⟨e.value, e.metadata.expiresAt, e.metadata.tags.getD []⟩

namespace State

variable {V : Type} {json : V → Option Nat} {s : State V}

def contents (s : State V) : Expiring Text V Text := fun k => (s.cache.lookup k).map (·.leased)

def Indexed (s : State V) (tag key : Text) : Prop := key ∈ s.tagIndex.keys tag

instance {tag : Text} : DecidablePred (s.Indexed tag) :=
  fun key => inferInstanceAs (Decidable (key ∈ s.tagIndex.keys tag))

variable {key : Text}

theorem doDelete_contents : (s.doDelete key).2.contents = s.contents.sweep (· = key) := by
  funext k
  by_cases hk : k = key
  · subst hk
    simp [doDelete, contents, Expiring.sweep]
  · simp [doDelete, contents, Expiring.sweep, AList.lookup_erase_ne, hk]

variable {tag k : Text}

theorem doDelete_indexed : (s.doDelete key).2.Indexed tag k ↔
    s.Indexed tag k ∧ ¬ (k = key ∧ s.contents.Has (tag ∈ ·.tags) key) := by
  have htags : s.contents.Has (tag ∈ ·.tags) key ↔
      tag ∈ ((s.cache.lookup key).bind (·.metadata.tags)).getD [] := by
    cases h : s.cache.lookup key with
    | none => simp [Expiring.Has, contents, h]
    | some e => simp [Expiring.Has, contents, h, CacheEntry.leased]
  rw [htags]
  exact TagIndex.mem_keys_foldl_remove _

theorem delete_eq (s : State V) (key : Text) : ∃ stats, s.delete key =
    ((s.doDelete (normalizeKey key)).1, { (s.doDelete (normalizeKey key)).2 with stats }) := by
  unfold delete
  split
  · rename_i h
    exact ⟨_, by rw [h]⟩
  · rename_i h
    exact ⟨_, by rw [h]⟩

theorem delete_contents : (s.delete key).2.contents = s.contents.sweep (· = normalizeKey key) := by
  obtain ⟨stats, h⟩ := s.delete_eq key
  rw [h]
  exact doDelete_contents

theorem delete_indexed : (s.delete key).2.Indexed tag k ↔ s.Indexed tag k ∧
      ¬ (k = normalizeKey key ∧ s.contents.Has (tag ∈ ·.tags) (normalizeKey key)) := by
  obtain ⟨stats, h⟩ := s.delete_eq key
  rw [h]
  exact doDelete_indexed

theorem set_contents {value : V} {options : CacheOptions} :
    (s.set json key value options).2.contents =
      if (json value).isSome then
        s.contents.put (normalizeKey key) ⟨value, options.expiresAt s.now, options.tags.getD []⟩
      else s.contents := by
  cases hj : json value with
  | none => simp [set, doSet, hj]
  | some size =>
    funext k
    have hcache : (s.set json key value options).2.contents k = contents
        { s with cache := s.cache.insert (normalizeKey key) ⟨value, normalizeKey key, s.now,
          options.expiresAt s.now, 0, s.now, size, options.tags⟩ } k := by
      simp only [set, doSet, hj, Option.map_some]
      cases options.tags <;> rfl
    rw [hcache]
    by_cases hk : k = normalizeKey key
    · subst hk
      simp [contents, Expiring.put, CacheEntry.leased]
    · simp [contents, Expiring.put, AList.lookup_insert_ne, hk]

theorem set_indexed {value : V} {options : CacheOptions} :
    (s.set json key value options).2.Indexed tag k ↔ s.Indexed tag k ∨
      ((json value).isSome ∧ k = normalizeKey key ∧ tag ∈ options.tags.getD []) := by
  cases hj : json value with
  | none => simp [set, doSet, hj]
  | some size =>
    simp only [set, doSet, hj, Option.map_some, Option.isSome_some, true_and]
    cases options.tags with
    | none => simp [Indexed]
    | some tags => exact TagIndex.mem_keys_foldl_add tags

theorem past_leased {e : CacheEntry V} {now : Nat} :
    e.leased.Past now ↔ e.metadata.expiresAt.any (· < now) = true := by
  cases hx : e.metadata.expiresAt <;> simp [Leased.Past, CacheEntry.leased, hx]

theorem contents_eq_none : s.contents k = none ↔ s.cache.lookup k = none := by
  simp [contents]

theorem contents_eq_some {l : Leased V Text} :
    s.contents k = some l ↔ ∃ e, s.cache.lookup k = some e ∧ e.leased = l := by
  simp [contents]

theorem get_cases (s : State V) (key : Text) :
    (s.get key).1 = s.contents.read s.now (normalizeKey key) ∧
      ((s.contents.Has (·.Past s.now) (normalizeKey key) ∧
          ∃ stats, (s.get key).2 = { (s.doDelete (normalizeKey key)).2 with stats }) ∨
        (¬ s.contents.Has (·.Past s.now) (normalizeKey key) ∧ (s.get key).2.contents = s.contents ∧
          ∃ cache stats, (s.get key).2 = { s with cache, stats })) := by
  cases hc : s.contents (normalizeKey key) with
  | none =>
    have hget : s.get key = (none, { s with stats := s.stats.recordMiss }) := by
      simp [get, doGet, contents_eq_none.mp hc]
    rw [hget]
    refine ⟨?_, .inr ⟨not_has_of_eq hc, rfl, _, _, rfl⟩⟩
    simp [Expiring.read, hc]
  | some l =>
    obtain ⟨e, he, rfl⟩ := contents_eq_some.mp hc
    simp only [has_of_eq hc, Expiring.read, hc]
    by_cases hp : e.leased.Past s.now
    · obtain ⟨stats, hdel⟩ := s.delete_eq (normalizeKey key)
      rw [normalizeKey_normalizeKey] at hdel
      have hget : ∃ stats, s.get key =
        (none, { (s.doDelete (normalizeKey key)).2 with stats }) := by
        simp only [get, doGet, he, if_pos (past_leased.mp hp), hdel]
        exact ⟨_, rfl⟩
      obtain ⟨stats', hget⟩ := hget
      rw [hget, if_pos hp]
      exact ⟨rfl, .inl ⟨hp, _, rfl⟩⟩
    · simp only [get, doGet, he, if_neg (mt past_leased.mpr hp), if_neg hp]
      refine ⟨rfl, .inr ⟨hp, ?_, _, _, rfl⟩⟩
      funext k
      by_cases hk : k = normalizeKey key
      · subst hk
        rw [hc]
        simp [contents, CacheEntry.leased]
      · simp [contents, AList.lookup_insert_ne hk]

theorem get_fst : (s.get key).1 = s.contents.read s.now (normalizeKey key) :=
  (s.get_cases key).1

theorem get_contents : (s.get key).2.contents = s.contents.sweep fun k =>
    k = normalizeKey key ∧ s.contents.Has (·.Past s.now) (normalizeKey key) := by
  obtain ⟨hp, stats, h⟩ | ⟨hp, h, -⟩ := (s.get_cases key).2
  · rw [h]
    exact doDelete_contents.trans (sweep_congr fun k => (and_iff_left hp).symm)
  · rw [h, sweep_eq_self]
    exact fun k hk => hp hk.2

theorem get_indexed : (s.get key).2.Indexed tag k ↔ s.Indexed tag k ∧
    ¬ (k = normalizeKey key ∧ s.contents.Has (·.Past s.now) k ∧ s.contents.Has
      (tag ∈ ·.tags) k) := by
  obtain ⟨hp, stats, h⟩ | ⟨hp, -, cache, stats, h⟩ := (s.get_cases key).2
  · rw [h]
    refine doDelete_indexed.trans (and_congr_right fun _ => not_congr
      (and_congr_right fun hk => ?_))
    rw [hk]
    exact (and_iff_right hp).symm
  · rw [h]
    refine (and_iff_left ?_).symm
    intro hx
    exact hp (hx.1 ▸ hx.2.1)

/-! The two loops of `invalidateByTags`. The keys in the index are normalised ones, so deleting
them deletes themselves; a key that the first tags took out of the index is out of the cache. -/

def Normalized (s : State V) : Prop := ∀ tag, ∀ key ∈ s.getKeysByTag tag, normalizeKey key = key

theorem deleteAll_contents {keys : List Text} (hk : ∀ k ∈ keys, normalizeKey k = k) :
    (s.deleteAll keys).2.contents = s.contents.sweep (· ∈ keys) := by
  induction keys generalizing s with
  | nil => exact (sweep_eq_self (by simp)).symm
  | cons key rest ih =>
    have hrest := ih (s := (s.delete key).2) fun k hm => hk k (mem_cons_of_mem key hm)
    show ((s.delete key).2.deleteAll rest).2.contents = _
    rw [hrest, delete_contents, hk key mem_cons_self, sweep_sweep]
    exact sweep_congr fun k => mem_cons.symm

theorem deleteAll_indexed {keys : List Text} (hk : ∀ k ∈ keys, normalizeKey k = k) {tag k : Text} :
    (s.deleteAll keys).2.Indexed tag k ↔
      s.Indexed tag k ∧ ¬ (k ∈ keys ∧ s.contents.Has (tag ∈ ·.tags) k) := by
  induction keys generalizing s with
  | nil => simp [deleteAll]
  | cons key rest ih =>
    have hrest := ih (s := (s.delete key).2) fun k hm => hk k (mem_cons_of_mem key hm)
    show ((s.delete key).2.deleteAll rest).2.Indexed tag k ↔ _
    rw [hrest, delete_indexed, delete_contents, hk key mem_cons_self]
    by_cases hkk : k = key
    · subst hkk
      have hgone : ¬ (s.contents.sweep (· = k)).Has (tag ∈ ·.tags) k := by
        refine not_has_of_eq ?_
        simp [Expiring.sweep]
      simp [hgone]
    · have hsame : (s.contents.sweep (· = key)).Has (tag ∈ ·.tags) k ↔
          s.contents.Has (tag ∈ ·.tags) k := by
        simp [Expiring.Has, Expiring.sweep, hkk]
      simp [hsame, hkk]

def Listed (s : State V) (tags : List Text) (key : Text) : Prop := ∃ tag ∈ tags, s.Indexed tag key

instance {tags : List Text} : DecidablePred (s.Listed tags) :=
  fun key => inferInstanceAs (Decidable (∃ tag ∈ tags, s.Indexed tag key))

theorem deleteAll_normalized (h : s.Normalized) {tag : Text} :
    (s.deleteAll (s.getKeysByTag tag)).2.Normalized := by
  intro t k hk
  exact h t k ((deleteAll_indexed (h tag)).mp hk).1

theorem listed_cons (h : s.Normalized) {tag : Text} {rest : List Text} {k : Text} :
    s.Listed (tag :: rest) k ↔
      s.Indexed tag k ∨ (s.deleteAll (s.getKeysByTag tag)).2.Listed rest k := by
  simp only [Listed, mem_cons, exists_eq_or_imp, deleteAll_indexed (h tag)]
  refine or_congr_right' fun hno => exists_congr fun t => and_congr_right fun _ => ?_
  exact (and_iff_left fun hx => hno hx.1).symm

theorem invalidateByTags_contents {tags : List Text} (h : s.Normalized) :
    (s.invalidateByTags tags).2.contents = s.contents.sweep (s.Listed tags) := by
  induction tags generalizing s with
  | nil => exact (sweep_eq_self (by simp [Listed])).symm
  | cons tag rest ih =>
    show ((s.deleteAll (s.getKeysByTag tag)).2.invalidateByTags rest).2.contents = _
    rw [ih (deleteAll_normalized h), deleteAll_contents (h tag), sweep_sweep]
    exact sweep_congr fun k => (listed_cons h).symm

theorem invalidateByTags_indexed {tags : List Text} (h : s.Normalized) {t k : Text} :
    (s.invalidateByTags tags).2.Indexed t k ↔
      s.Indexed t k ∧ ¬ (s.Listed tags k ∧ s.contents.Has (t ∈ ·.tags) k) := by
  induction tags generalizing s with
  | nil => simp [invalidateByTags, Listed]
  | cons tag rest ih =>
    show ((s.deleteAll (s.getKeysByTag tag)).2.invalidateByTags rest).2.Indexed t k ↔ _
    rw [ih (deleteAll_normalized h), deleteAll_indexed (h tag), listed_cons h,
      deleteAll_contents (h tag), and_assoc]
    refine and_congr_right fun _ => ?_
    by_cases hk : k ∈ s.getKeysByTag tag
    · have hgone : ¬ (s.contents.sweep (· ∈ s.getKeysByTag tag)).Has (t ∈ ·.tags) k := by
        refine not_has_of_eq ?_
        simp [Expiring.sweep, hk]
      simp only [hk, true_and, hgone, and_false, not_false_eq_true, and_true]
      exact not_congr (and_iff_right (.inl hk)).symm
    · have hsame : (s.contents.sweep (· ∈ s.getKeysByTag tag)).Has (t ∈ ·.tags) k ↔
          s.contents.Has (t ∈ ·.tags) k := by
        simp [Expiring.Has, Expiring.sweep, hk]
      have hno : ¬ s.Indexed tag k := hk
      simp [hk, hno, hsame]

end State

inductive Action (V : Type)
  | set (key : Text) (value : V) (options : CacheOptions)
  | get (key : Text)
  | delete (key : Text)
  | clear
  | invalidateByTags (tags : List Text)
  /-- The clock moves on to `t`. -/
  | tick (t : Nat)
  /-- The `i`-th of the pending timers fires. -/
  | fire (i : Nat)

def State.step {V : Type} (json : V → Option Nat) (s : State V) : Action V → Option (State V)
  | .set key value options => some (s.set json key value options).2
  | .get key => some (s.get key).2
  | .delete key => some (s.delete key).2
  | .clear => some s.clear
  | .invalidateByTags tags => some (s.invalidateByTags tags).2
  | .tick t =>
    if s.now ≤ t ∧ ∀ timer ∈ s.timers, t ≤ timer.1 then some { s with now := t } else none
  | .fire i =>
    match s.timers[i]? with
    | none => none
    | some (due, key) =>
      if due = s.now then some { (s.doDelete key).2 with timers := s.timers.eraseIdx i } else none

/-! ## What a step does

An action stores one entry, or it drops the entries under some keys. -/

/-- The entry a `set` stores, and the key it goes under. -/
def Action.stores {V : Type} (json : V → Option Nat) (now : Nat) :
    Action V → Option (Text × Leased V Text)
  | .set key value options =>
    if (json value).isSome then
      some (normalizeKey key, ⟨value, options.expiresAt now, options.tags.getD []⟩)
    else none
  | _ => none

namespace State

variable {V : Type} {json : V → Option Nat} {s s' : State V} {a : Action V}

def Drops (s : State V) : Action V → Text → Prop
  | .get key, k => k = normalizeKey key ∧ s.contents.Has (·.Past s.now) (normalizeKey key)
  | .delete key, k => k = normalizeKey key
  | .clear, _ => True
  | .invalidateByTags tags, k => s.Listed tags k
  | .fire i, k => (s.timers[i]?).map (·.2) = some k
  | .set .., _ | .tick _, _ => False

instance : DecidablePred (s.Drops a) := by
  intro k
  cases a <;> dsimp only [Drops] <;> infer_instance

/-- `e` was stored under `key`. -/
structure Stored (s s' : State V) (key : Text) (e : Leased V Text) : Prop where
  contents : s'.contents = s.contents.put key e
  indexed : ∀ {t k}, s'.Indexed t k ↔ s.Indexed t k ∨ (k = key ∧ t ∈ e.tags)

/-- The entries under the keys of `p` were dropped, and their tags with them. -/
structure Dropped (s s' : State V) (p : Text → Prop) [DecidablePred p] : Prop where
  contents : s'.contents = s.contents.sweep p
  sub : ∀ {t k}, s'.Indexed t k → s.Indexed t k
  kept : ∀ {t k}, s.Indexed t k → ¬ p k → s'.Indexed t k
  gone : ∀ {t k}, p k → s.contents.Has (t ∈ ·.tags) k → ¬ s'.Indexed t k

theorem Dropped.of_indexed {p : Text → Prop} [DecidablePred p]
    (hc : s'.contents = s.contents.sweep p) (hi : ∀ {t k}, s'.Indexed t k ↔
      s.Indexed t k ∧ ¬ (p k ∧ s.contents.Has (t ∈ ·.tags) k)) : Dropped s s' p where
  contents := hc
  sub h := (hi.mp h).1
  kept h hp := hi.mpr ⟨h, fun hx => hp hx.1⟩
  gone hp ht h := (hi.mp h).2 ⟨hp, ht⟩

theorem step_stored {key : Text} {e : Leased V Text} (h : s.step json a = some s')
    (ha : a.stores json s.now = some (key, e)) : Stored s s' key e := by
  cases a with
  | set key' value options =>
    simp only [Action.stores] at ha
    split at ha
    · rename_i hj
      cases ha
      cases h
      refine ⟨by rw [set_contents, if_pos hj], ?_⟩
      intro t k
      rw [set_indexed]
      simp [hj]
    · cases ha
  | _ => simp [Action.stores] at ha

theorem dropped_nothing (hc : s'.contents = s.contents) (hi : s'.tagIndex = s.tagIndex)
    {p : Text → Prop} [DecidablePred p] (hp : ∀ k, ¬ p k) : Dropped s s' p := by
  refine .of_indexed (hc.trans (sweep_eq_self hp).symm) ?_
  intro t k
  simp [Indexed, hi, hp, false_and, not_false_eq_true, and_true]

theorem step_dropped (h : s.step json a = some s') (hn : s.Normalized)
    (ha : a.stores json s.now = none) : Dropped s s' (s.Drops a) := by
  cases a with
  | set key value options =>
    have hj : json value = none := by simpa [Action.stores] using ha
    cases h
    have hset : (s.set json key value options).2 = s := by simp [set, doSet, hj]
    rw [hset]
    exact dropped_nothing rfl rfl fun _ => id
  | get key =>
    cases h
    refine .of_indexed get_contents ?_
    intro t k
    rw [get_indexed]
    refine and_congr_right fun _ => not_congr ?_
    rw [← and_assoc]
    exact and_congr_left fun _ => and_congr_right fun hk => by rw [hk]
  | delete key =>
    cases h
    refine .of_indexed delete_contents ?_
    intro t k
    rw [delete_indexed]
    exact and_congr_right fun _ => not_congr (and_congr_right fun hk => by rw [hk])
  | clear =>
    cases h
    refine ⟨?_, ?_, fun _ hp => absurd trivial hp, ?_⟩
    · funext k
      exact (if_pos trivial).symm
    · intro t k hk
      simp [Indexed, clear, doClear, TagIndex.keys] at hk
    · intro t k _ _
      simp [Indexed, clear, doClear, TagIndex.keys]
  | invalidateByTags tags =>
    cases h
    exact .of_indexed (invalidateByTags_contents hn) (invalidateByTags_indexed hn)
  | tick t =>
    simp only [step] at h
    split at h
    · cases h
      refine dropped_nothing ?_ ?_ fun _ => id
      · rfl
      · rfl
    · cases h
  | fire i =>
    simp only [step] at h
    split at h
    · cases h
    · rename_i due key htimer
      split at h
      · cases h
        have hdrops : ∀ k, s.Drops (.fire i) k ↔ k = key := by
          intro k
          simp only [Drops, htimer, Option.map_some, Option.some.injEq]
          exact eq_comm
        refine .of_indexed ?_ ?_
        · exact doDelete_contents.trans (sweep_congr fun k => (hdrops k).symm)
        · intro t k
          rw [hdrops]
          refine doDelete_indexed.trans ?_
          exact and_congr_right fun _ => not_congr (and_congr_right fun hk => by rw [hk])
      · cases h

theorem stores_normalized {now : Nat} {x : Text × Leased V Text} (ha : a.stores json now = some x) :
    normalizeKey x.1 = x.1 := by
  cases a with
  | set key value options =>
    simp only [Action.stores] at ha
    split at ha <;> cases ha
    exact normalizeKey_normalizeKey key
  | _ => simp [Action.stores] at ha

theorem Normalized.step (h : s.Normalized) (hs : s.step json a = some s') : s'.Normalized := by
  intro t k hk
  cases ha : a.stores json s.now with
  | some x =>
    obtain ⟨key, e⟩ := x
    obtain hold | ⟨rfl, -⟩ := (step_stored hs ha).indexed.mp hk
    · exact h t k hold
    · exact stores_normalized ha
  | none => exact h t k ((step_dropped hs h ha).sub hk)

end State

end Bridge.Cache.Memory
