import Mathlib.Data.List.Nodup

/-!
# A map that remembers the order of its keys

The `Map` of JavaScript: a key that is set for the first time comes last, one that is set again
stays where it is, and one that is deleted loses its place. `keysWith P` is the keys whose values
meet `P`, in this order. It is what a secondary index by `P` has to be, and the lemmas say how it
changes. Where the values have their keys in them, the map is the list of its values.
-/

namespace Bridge.Lib

open List

structure OrderedMap (K V : Type) where
  entries : List (K × V)
  nodup : (entries.map Prod.fst).Nodup

namespace OrderedMap

variable {K V : Type} [DecidableEq K]

def empty : OrderedMap K V := ⟨[], nodup_nil⟩

section Entries

variable (m : OrderedMap K V) (k : K)

def keys : List K := m.entries.map Prod.fst

def values : List V := m.entries.map Prod.snd

def get : Option V := (m.entries.find? (·.1 = k)).map Prod.snd

def replace (v : V) (e : K × V) : K × V := if e.1 = k then (k, v) else e

theorem map_fst_replace {k : K} {v : V} (l : List (K × V)) :
    (l.map (replace k v)).map Prod.fst = l.map Prod.fst := by
  rw [map_map]
  refine map_congr_left ?_
  intro e _
  simp only [Function.comp_apply, replace]
  split_ifs with h
  · exact h.symm
  · rfl

def set (v : V) : OrderedMap K V :=
  if h : k ∈ m.keys then
    ⟨m.entries.map (replace k v), by
      rw [map_fst_replace]
      exact m.nodup⟩
  else
    ⟨m.entries ++ [(k, v)], by
      rw [map_append, map_singleton]
      exact m.nodup.append (nodup_singleton k) (disjoint_singleton.mpr h)⟩

def delete : OrderedMap K V :=
  ⟨m.entries.filter (·.1 ≠ k), m.nodup.sublist (filter_sublist.map Prod.fst)⟩

end Entries

variable {m : OrderedMap K V} {k k' : K} {v v₀ : V} {P : V → Bool}

theorem get_eq_some_iff : m.get k = some v ↔ (k, v) ∈ m.entries := by
  constructor
  · intro h
    obtain ⟨e, he, rfl⟩ := Option.map_eq_some_iff.mp h
    have hk : e.1 = k := by simpa using find?_some he
    exact hk ▸ mem_of_find?_eq_some he
  · intro h
    cases hf : m.entries.find? (·.1 = k) with
    | none => exact absurd (find?_eq_none.mp hf (k, v) h) (by simp)
    | some e =>
      have hk : e.1 = k := by simpa using find?_some hf
      have he : e = (k, v) := inj_on_of_nodup_map m.nodup (mem_of_find?_eq_some hf) h hk
      rw [get, hf, he]
      rfl

theorem get_eq_none_iff : m.get k = none ↔ k ∉ m.keys := by
  rw [Option.eq_none_iff_forall_ne_some, keys, mem_map]
  constructor
  · rintro h ⟨e, he, rfl⟩
    exact h e.2 (get_eq_some_iff.mpr he)
  · intro h v hv
    exact h ⟨(k, v), get_eq_some_iff.mp hv, rfl⟩

theorem entries_set_of_mem (h : k ∈ m.keys) :
    (m.set k v).entries = m.entries.map (replace k v) := by
  rw [set, dif_pos h]

theorem entries_set_of_not_mem (h : k ∉ m.keys) : (m.set k v).entries = m.entries ++ [(k, v)] := by
  rw [set, dif_neg h]

theorem entries_delete : (m.delete k).entries = m.entries.filter (·.1 ≠ k) := rfl

/-! ## What is under a key -/

theorem mem_keys_iff : k ∈ m.keys ↔ ∃ v, m.get k = some v := by
  rw [← Option.ne_none_iff_exists', ne_eq, get_eq_none_iff, not_not]

theorem mem_keys_set : k' ∈ (m.set k v).keys ↔ k' = k ∨ k' ∈ m.keys := by
  by_cases h : k ∈ m.keys
  · rw [keys, entries_set_of_mem h, map_fst_replace]
    constructor
    · exact .inr
    · rintro (rfl | h')
      · exact h
      · exact h'
  · rw [keys, entries_set_of_not_mem h, map_append, mem_append, or_comm]
    exact or_congr_left mem_singleton

theorem mem_keys_delete : k' ∈ (m.delete k).keys ↔ k' ∈ m.keys ∧ k' ≠ k := by
  simp only [keys, entries_delete, mem_map, mem_filter, decide_eq_true_eq]
  constructor
  · rintro ⟨e, ⟨he, hne⟩, rfl⟩
    exact ⟨⟨e, he, rfl⟩, hne⟩
  · rintro ⟨⟨e, he, rfl⟩, hne⟩
    exact ⟨e, ⟨he, hne⟩, rfl⟩

theorem mem_keys_foldl_delete (l : List K) (m : OrderedMap K V) :
    k ∈ (l.foldl delete m).keys ↔ k ∈ m.keys ∧ k ∉ l := by
  induction l generalizing m with
  | nil => simp
  | cons k' l ih =>
    rw [foldl_cons, ih, mem_keys_delete, mem_cons, not_or, and_assoc]

theorem get_set_self : (m.set k v).get k = some v := by
  rw [get_eq_some_iff]
  by_cases h : k ∈ m.keys
  · rw [entries_set_of_mem h]
    obtain ⟨e, he, hk⟩ := mem_map.mp h
    exact mem_map.mpr ⟨e, he, if_pos hk⟩
  · rw [entries_set_of_not_mem h]
    exact mem_append_right _ (mem_singleton_self _)

theorem get_set_of_ne (hne : k' ≠ k) : (m.set k v).get k' = m.get k' := by
  refine Option.ext fun x => ?_
  rw [get_eq_some_iff, get_eq_some_iff]
  by_cases h : k ∈ m.keys
  · rw [entries_set_of_mem h, mem_map]
    constructor
    · rintro ⟨e, he, heq⟩
      unfold replace at heq
      split at heq
      · exact absurd (Prod.mk.inj heq).1.symm hne
      · exact heq ▸ he
    · intro hx
      exact ⟨(k', x), hx, if_neg hne⟩
  · rw [entries_set_of_not_mem h, mem_append, mem_singleton]
    refine or_iff_left ?_
    intro heq
    exact hne (Prod.mk.inj heq).1

theorem get_delete_self : (m.delete k).get k = none := by
  rw [get_eq_none_iff, mem_keys_delete]
  exact fun h => h.2 rfl

theorem get_delete_of_ne (hne : k' ≠ k) : (m.delete k).get k' = m.get k' := by
  refine Option.ext fun x => ?_
  rw [get_eq_some_iff, get_eq_some_iff, entries_delete, mem_filter]
  exact and_iff_left (decide_eq_true hne)

section MapValues

variable {W : Type} {f : V → W}

def mapValues (f : V → W) (m : OrderedMap K V) : OrderedMap K W where
  entries := m.entries.map fun e => (e.1, f e.2)
  nodup := by
    rw [map_map]
    exact m.nodup

omit [DecidableEq K] in
theorem entries_mapValues : (m.mapValues f).entries = m.entries.map fun e => (e.1, f e.2) := rfl

omit [DecidableEq K] in
theorem keys_mapValues : (m.mapValues f).keys = m.keys := by
  rw [keys, entries_mapValues, map_map]
  rfl

theorem get_mapValues : (m.mapValues f).get k = (m.get k).map f := by
  rw [get, entries_mapValues, find?_map, Option.map_map, get, Option.map_map]
  rfl

omit [DecidableEq K] in
theorem ext_entries {m m' : OrderedMap K V} (h : m.entries = m'.entries) : m = m' := by
  cases m
  cases m'
  obtain rfl := h
  rfl

theorem mapValues_set : (m.set k v).mapValues f = (m.mapValues f).set k (f v) := by
  refine ext_entries ?_
  by_cases h : k ∈ m.keys
  · have h' : k ∈ (m.mapValues f).keys := by rwa [keys_mapValues]
    rw [entries_set_of_mem h', entries_mapValues, entries_mapValues, entries_set_of_mem h, map_map,
      map_map]
    refine map_congr_left fun e _ => ?_
    simp only [Function.comp_apply, replace]
    split <;> rfl
  · have h' : k ∉ (m.mapValues f).keys := by rwa [keys_mapValues]
    rw [entries_set_of_not_mem h', entries_mapValues, entries_mapValues, entries_set_of_not_mem h,
      map_append]
    rfl

end MapValues

/-- The keys whose values meet `P`, in order. -/
def keysWith (P : V → Bool) (m : OrderedMap K V) : List K :=
  (m.entries.filter fun e => P e.2).map Prod.fst

theorem mem_keysWith : k ∈ m.keysWith P ↔ ∃ v, m.get k = some v ∧ P v = true := by
  rw [keysWith, mem_map]
  constructor
  · rintro ⟨e, he, rfl⟩
    obtain ⟨hmem, hP⟩ := mem_filter.mp he
    exact ⟨e.2, get_eq_some_iff.mpr hmem, hP⟩
  · rintro ⟨v, hv, hP⟩
    exact ⟨(k, v), mem_filter.mpr ⟨get_eq_some_iff.mp hv, hP⟩, rfl⟩

theorem keysWith_set_of_mem (h : m.get k = some v₀) (hP : P v = P v₀) :
    (m.set k v).keysWith P = m.keysWith P := by
  have hmem := get_eq_some_iff.mp h
  rw [keysWith, entries_set_of_mem (mem_map_of_mem hmem), filter_map, map_fst_replace]
  refine congrArg (map Prod.fst) (filter_congr ?_)
  intro e he
  simp only [Function.comp_apply, replace]
  split_ifs with hk
  · have heq : e = (k, v₀) := inj_on_of_nodup_map m.nodup he hmem hk
    rw [hP, heq]
  · rfl

theorem keysWith_set_of_not_mem (h : m.get k = none) :
    (m.set k v).keysWith P = m.keysWith P ++ if P v then [k] else [] := by
  rw [keysWith, entries_set_of_not_mem (get_eq_none_iff.mp h), filter_append, map_append]
  cases hP : P v <;> simp [keysWith, hP]

theorem keysWith_delete : (m.delete k).keysWith P = (m.keysWith P).filter (· ≠ k) := by
  rw [keysWith, entries_delete, filter_filter, keysWith, filter_map, filter_filter]
  refine congrArg (map Prod.fst) (filter_congr ?_)
  intro e _
  exact Bool.and_comm _ _

theorem filterMap_get_keysWith : (m.keysWith P).filterMap m.get = m.values.filter P := by
  rw [keysWith, filterMap_map, values, filter_map]
  have hget : ∀ e ∈ m.entries.filter fun e => P e.2, (m.get ∘ Prod.fst) e = some e.2 := by
    intro e he
    exact get_eq_some_iff.mpr (mem_of_mem_filter he)
  rw [filterMap_congr hget]
  exact filterMap_eq_map ▸ rfl

/-! ## Values that have their key in them -/

/-- Every value is under the key that `f` reads off it. -/
def KeyedBy (f : V → K) (m : OrderedMap K V) : Prop := ∀ e ∈ m.entries, f e.2 = e.1

/-- `v` in the place of the value with its key, or at the end. -/
def put (f : V → K) (v : V) (l : List V) : List V :=
  if f v ∈ l.map f then l.map fun x => if f x = f v then v else x else l ++ [v]

theorem mem_put {f : V → K} {x : V} {l : List V} (h : x ∈ put f v l) : x = v ∨ x ∈ l := by
  unfold put at h
  split at h
  · obtain ⟨y, hy, rfl⟩ := mem_map.mp h
    split
    · exact .inl rfl
    · exact .inr hy
  · exact (mem_append.mp h).symm.imp_left mem_singleton.mp

namespace KeyedBy

variable {f : V → K}

omit [DecidableEq K] in
theorem map_values (h : m.KeyedBy f) : m.values.map f = m.keys := by
  rw [values, map_map]
  exact map_congr_left h

omit [DecidableEq K] in
theorem nodup (h : m.KeyedBy f) : (m.values.map f).Nodup := by
  rw [h.map_values]
  exact m.nodup

theorem get_eq_some_iff (h : m.KeyedBy f) : m.get k = some v ↔ v ∈ m.values ∧ f v = k := by
  rw [OrderedMap.get_eq_some_iff, values, mem_map]
  constructor
  · intro he
    exact ⟨⟨(k, v), he, rfl⟩, h _ he⟩
  · rintro ⟨⟨e, he, rfl⟩, rfl⟩
    exact h e he ▸ he

theorem set (h : m.KeyedBy f) : (m.set (f v) v).KeyedBy f := by
  intro e he
  by_cases hk : f v ∈ m.keys
  · rw [entries_set_of_mem hk] at he
    obtain ⟨e₀, he₀, rfl⟩ := mem_map.mp he
    unfold replace
    split
    · rfl
    · exact h e₀ he₀
  · rw [entries_set_of_not_mem hk] at he
    obtain he | he := mem_append.mp he
    · exact h e he
    · obtain rfl := mem_singleton.mp he
      rfl

theorem values_set (h : m.KeyedBy f) : (m.set (f v) v).values = put f v m.values := by
  unfold put
  rw [h.map_values]
  split_ifs with hk
  · rw [values, entries_set_of_mem hk, values, map_map, map_map]
    refine map_congr_left ?_
    intro e he
    simp only [Function.comp_apply, replace, h e he]
    split <;> rfl
  · rw [values, entries_set_of_not_mem hk, map_append]
    rfl

theorem delete (h : m.KeyedBy f) : (m.delete k).KeyedBy f := by
  intro e he
  exact h e (mem_of_mem_filter he)

theorem values_delete (h : m.KeyedBy f) : (m.delete k).values = m.values.filter (f · ≠ k) := by
  rw [values, entries_delete, values, filter_map]
  refine congrArg (map Prod.snd) (filter_congr ?_)
  intro e he
  simp [Function.comp_apply, h e he]

end KeyedBy

end OrderedMap

/-- `if (criterion) items = items.filter(..)` -/
def narrow {α τ : Type} (criterion : Option α) (keeps : α → τ → Bool) (items : List τ) : List τ :=
  match criterion with
  | none => items
  | some a => items.filter (keeps a)

theorem narrow_eq_filter {α τ : Type} (criterion : Option α) (keeps : α → τ → Bool)
    (items : List τ) :
    narrow criterion keeps items = items.filter fun t => criterion.all fun a => keeps a t := by
  cases criterion with
  | none => simp [narrow]
  | some a => rfl

end Bridge.Lib
