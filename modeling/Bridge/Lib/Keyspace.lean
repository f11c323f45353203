import Mathlib.Algebra.Order.Group.Int
import Mathlib.Data.List.AList

/-!
# A Redis key space

The commands a Redis client sends, over one flat key space. A key holds **one** value, and the
value has a type: a string, a sorted set or a set. That is the part of Redis a client cannot
abstract from — `SET` replaces whatever the key held, of any type, while `GET`, `ZADD` and
`ZPOPMAX` answer `WRONGTYPE` on a key of another type — so two features of a program that build
the same key string share one cell.
-/

namespace Bridge.Lib

open AList List Option

/-! ## Sorted sets -/

abbrev ZSet := AList (fun _ : String => Int)

namespace ZSet

def before (a b : Σ _ : String, Int) : Bool :=
  a.2 < b.2 || (a.2 == b.2 && decide (a.1 < b.1))

def maxEntry : List (Σ _ : String, Int) → Option (Σ _ : String, Int)
  | [] => none
  | e :: es =>
    match maxEntry es with
    | none => some e
    | some b => some (if before b e then e else b)

theorem maxEntry_eq_none : ∀ {es : List (Σ _ : String, Int)}, maxEntry es = none ↔ es = []
  | [] => by simp [maxEntry]
  | e :: es => by
    cases h : maxEntry es <;> simp [maxEntry, h]

theorem maxEntry_mem : ∀ {es : List (Σ _ : String, Int)} {e : Σ _ : String, Int},
    maxEntry es = some e → e ∈ es
  | [], _, h => absurd h (by simp [maxEntry])
  | x :: xs, e, h => by
    cases hm : maxEntry xs with
    | none =>
      simp only [maxEntry, hm, some.injEq] at h
      exact h ▸ mem_cons_self
    | some b =>
      simp only [maxEntry, hm, some.injEq] at h
      split at h
      · exact h ▸ mem_cons_self
      · exact h ▸ mem_cons_of_mem _ (maxEntry_mem hm)

theorem le_maxEntry : ∀ {es : List (Σ _ : String, Int)} {e x : Σ _ : String, Int},
    maxEntry es = some e → x ∈ es → x.2 ≤ e.2
  | [], _, _, h, _ => absurd h (by simp [maxEntry])
  | y :: ys, e, x, h, hx => by
    cases hm : maxEntry ys with
    | none =>
      rw [maxEntry_eq_none] at hm
      subst hm
      simp only [maxEntry, some.injEq] at h
      rcases mem_singleton.mp hx with rfl
      exact le_of_eq (congrArg Sigma.snd h)
    | some b =>
      simp only [maxEntry, hm, some.injEq] at h
      have hb : ∀ z ∈ ys, z.2 ≤ b.2 := fun z hz => le_maxEntry hm hz
      split at h
      · rename_i hlt
        subst h
        have hbe : b.2 ≤ y.2 := by
          simp only [before, Bool.or_eq_true, decide_eq_true_eq, Bool.and_eq_true,
            beq_iff_eq] at hlt
          rcases hlt with hlt | ⟨heq, _⟩
          · exact le_of_lt hlt
          · exact le_of_eq heq
        rcases mem_cons.mp hx with rfl | hx
        · exact le_refl _
        · exact le_trans (hb x hx) hbe
      · rename_i hnlt
        subst h
        have hye : y.2 ≤ b.2 := by
          simp only [before, Bool.or_eq_true, decide_eq_true_eq, not_or] at hnlt
          exact not_lt.mp hnlt.1
        rcases mem_cons.mp hx with rfl | hx
        · exact hye
        · exact hb x hx

/-- `ZPOPMAX` on the set: the member taken and what is left. -/
def popMax (z : ZSet) : Option (String × ZSet) :=
  (maxEntry z.entries).map fun e => (e.1, z.erase e.1)

theorem popMax_eq_none {z : ZSet} : z.popMax = none ↔ z = ∅ := by
  simp only [popMax, map_eq_none_iff, maxEntry_eq_none]
  exact ⟨fun h => AList.ext h, fun h => h ▸ rfl⟩

theorem popMax_mem {z z' : ZSet} {m : String} (h : z.popMax = some (m, z')) : m ∈ z := by
  simp only [popMax, map_eq_some_iff, Prod.mk.injEq] at h
  obtain ⟨e, he, rfl, -⟩ := h
  exact mem_map_of_mem (maxEntry_mem he)

theorem popMax_rest {z z' : ZSet} {m : String} (h : z.popMax = some (m, z')) : z' = z.erase m := by
  simp only [popMax, map_eq_some_iff, Prod.mk.injEq] at h
  obtain ⟨e, -, rfl, rfl⟩ := h
  rfl

theorem popMax_score {z z' : ZSet} {m m' : String} {c c' : Int}
    (h : z.popMax = some (m, z')) (hm : z.lookup m = some c) (hm' : z.lookup m' = some c') :
    c' ≤ c := by
  simp only [popMax, map_eq_some_iff, Prod.mk.injEq] at h
  obtain ⟨e, he, rfl, -⟩ := h
  have hme := mem_lookup_iff.mp hm
  have hce : e.2 = c := by
    have h1 : z.lookup e.1 = some e.2 := mem_lookup_iff.mpr (maxEntry_mem he)
    rw [hm] at h1
    exact (some.inj h1).symm
  rw [← hce]
  exact le_maxEntry he (mem_lookup_iff.mp hm' : (⟨m', c'⟩ : Σ _ : String, Int) ∈ z.entries)

end ZSet

/-! ## The key space -/

inductive Value (α : Type) where
  | str (text : α)
  | zset (members : ZSet)
  | set (members : List String)

abbrev Keyspace (α : Type) := AList (fun _ : String => Value α)

/-- The reply to `GET`. -/
inductive Reply (α : Type) where
  | nil
  | bulk (text : α)
  | wrongType

namespace Keyspace

variable {α : Type}

section Commands

variable (ks : Keyspace α)

/-- The text under a key; `none` when the key is absent or of another type. -/
def text? (k : String) : Option α :=
  match ks.lookup k with
  | some (.str text) => some text
  | _ => none

def zmembers (k : String) : ZSet :=
  match ks.lookup k with
  | some (.zset z) => z
  | _ => ∅

def smembers (k : String) : List String :=
  match ks.lookup k with
  | some (.set ms) => ms
  | _ => []

/-- A sorted-set command is refused exactly on a key of another type. -/
def isZSet (k : String) : Bool :=
  match ks.lookup k with
  | none => true
  | some (.zset _) => true
  | some _ => false

def isSet (k : String) : Bool :=
  match ks.lookup k with
  | none => true
  | some (.set _) => true
  | some _ => false

end Commands

/-! ### The commands

A command the server refuses with `WRONGTYPE` changes nothing. -/

section Changes

variable (ks : Keyspace α) (k : String)

def get : Reply α :=
  match ks.lookup k with
  | none => .nil
  | some (.str text) => .bulk text
  | some _ => .wrongType

/-- `SET` and `SETEX`. There is no clock here: a key that expires is a `DEL` by the server. -/
def set (text : α) : Keyspace α := ks.insert k (.str text)

def del : Keyspace α := ks.erase k

def zadd (score : Int) (m : String) : Keyspace α :=
  if ks.isZSet k then ks.insert k (.zset ((ks.zmembers k).insert m score)) else ks

/-- `ZPOPMAX`, when it finds a member. A sorted set that becomes empty goes with its key. -/
def zpopmax : Option (String × Keyspace α) :=
  (ks.zmembers k).popMax.map fun (m, z) =>
    (m, if z.entries.isEmpty then ks.erase k else ks.insert k (.zset z))

def sadd (m : String) : Keyspace α :=
  if ks.isSet k then ks.insert k (.set (m :: (ks.smembers k).filter (· ≠ m))) else ks

def srem (m : String) : Keyspace α :=
  if ks.isSet k then ks.insert k (.set ((ks.smembers k).filter (· ≠ m))) else ks

/-- `KEYS start*`. -/
def keysWith (start : String) : List String :=
  ks.keys.filter fun k => start.toList.isPrefixOf k.toList

end Changes

/-! ### What each command does to each reading

`text?` is the reading that survives sharing: no sorted-set or set command can change the text
under any key, whatever the key. -/

variable {ks ks' : Keyspace α} {k k' m : String} {a : α} {c : Int}

theorem get_eq_bulk : ks.get k = .bulk a ↔ ks.text? k = some a := by
  unfold get text?
  cases ks.lookup k with
  | none => simp
  | some v => cases v <;> simp

theorem get_set_self : (ks.set k a).get k = .bulk a := by
  unfold get set
  rw [lookup_insert]

theorem get_del_self : (ks.del k).get k = .nil := by
  unfold get del
  rw [lookup_erase]

theorem get_set_ne (h : k' ≠ k) : (ks.set k a).get k' = ks.get k' := by
  unfold get set
  rw [lookup_insert_ne h]

theorem get_zadd_ne (h : k' ≠ k) : (ks.zadd k c m).get k' = ks.get k' := by
  unfold zadd
  split_ifs
  · unfold get
    rw [lookup_insert_ne h]
  · rfl

theorem text?_set : (ks.set k a).text? k' = if k' = k then some a else ks.text? k' := by
  unfold text? set
  split_ifs with h
  · subst h; rw [lookup_insert]
  · rw [lookup_insert_ne h]

theorem text?_del : (ks.del k).text? k' = if k' = k then none else ks.text? k' := by
  unfold text? del
  split_ifs with h
  · subst h; rw [lookup_erase]
  · rw [lookup_erase_ne h]

theorem text?_of_isZSet (h : ks.isZSet k = true) : ks.text? k = none := by
  unfold isZSet at h
  unfold text?
  cases hl : ks.lookup k with
  | none => rfl
  | some v => rw [hl] at h; cases v <;> simp_all

theorem text?_of_isSet (h : ks.isSet k = true) : ks.text? k = none := by
  unfold isSet at h
  unfold text?
  cases hl : ks.lookup k with
  | none => rfl
  | some v => rw [hl] at h; cases v <;> simp_all

theorem text?_insert_of_none {v : Value α} (hv : ∀ b, v ≠ .str b) (h : ks.text? k = none) :
    text? (ks.insert k v) k' = ks.text? k' := by
  by_cases hk : k' = k
  · subst hk
    rw [h]
    unfold text?
    rw [lookup_insert]
    cases v with
    | str b => exact absurd rfl (hv b)
    | zset z => rfl
    | set ms => rfl
  · unfold text?
    rw [lookup_insert_ne hk]

@[simp] theorem text?_zadd : (ks.zadd k c m).text? k' = ks.text? k' := by
  unfold zadd
  split_ifs with h
  · exact text?_insert_of_none (by simp) (text?_of_isZSet h)
  · rfl

@[simp] theorem text?_sadd : (ks.sadd k m).text? k' = ks.text? k' := by
  unfold sadd
  split_ifs with h
  · exact text?_insert_of_none (by simp) (text?_of_isSet h)
  · rfl

@[simp] theorem text?_srem : (ks.srem k m).text? k' = ks.text? k' := by
  unfold srem
  split_ifs with h
  · exact text?_insert_of_none (by simp) (text?_of_isSet h)
  · rfl

theorem zpopmax_eq_some (h : ks.zpopmax k = some (m, ks')) :
    m ∈ ks.zmembers k ∧ ks.isZSet k = true ∧
      ks' = (if ((ks.zmembers k).erase m).entries.isEmpty then ks.erase k
        else ks.insert k (.zset ((ks.zmembers k).erase m))) := by
  simp only [zpopmax, map_eq_some_iff, Prod.mk.injEq] at h
  obtain ⟨⟨m', z⟩, hp, rfl, rfl⟩ := h
  have hmem := ZSet.popMax_mem hp
  refine ⟨hmem, ?_, ?_⟩
  · unfold zmembers at hmem
    unfold isZSet
    cases hl : ks.lookup k with
    | none => rfl
    | some v => rw [hl] at hmem; cases v <;> simp_all
  · rw [ZSet.popMax_rest hp]

theorem text?_zpopmax (h : ks.zpopmax k = some (m, ks')) : ks'.text? k' = ks.text? k' := by
  obtain ⟨-, hz, rfl⟩ := zpopmax_eq_some h
  split_ifs
  · rw [show text? (ks.erase k) k' = _ from text?_del]
    split_ifs with hk
    · exact hk ▸ (text?_of_isZSet hz).symm
    · rfl
  · exact text?_insert_of_none (by simp) (text?_of_isZSet hz)

/-! Sorted sets. -/

theorem zmembers_set : (ks.set k a).zmembers k' = if k' = k then ∅ else ks.zmembers k' := by
  unfold zmembers set
  split_ifs with h
  · subst h; rw [lookup_insert]
  · rw [lookup_insert_ne h]

theorem zmembers_del : (ks.del k).zmembers k' = if k' = k then ∅ else ks.zmembers k' := by
  unfold zmembers del
  split_ifs with h
  · subst h; rw [lookup_erase]
  · rw [lookup_erase_ne h]

theorem zmembers_insert_self {z : ZSet} : zmembers (ks.insert k (.zset z)) k = z := by
  unfold zmembers
  rw [lookup_insert]

theorem zmembers_of_not_isZSet (h : ¬ ks.isZSet k = true) : ks.zmembers k = ∅ := by
  unfold isZSet at h
  unfold zmembers
  cases hl : ks.lookup k with
  | none => rfl
  | some v => rw [hl] at h; cases v <;> simp_all

theorem zmembers_insert_ne {v : Value α} (h : k' ≠ k) :
    zmembers (ks.insert k v) k' = ks.zmembers k' := by
  unfold zmembers
  rw [lookup_insert_ne h]

theorem zmembers_zadd_self (h : ks.isZSet k = true) :
    (ks.zadd k c m).zmembers k = (ks.zmembers k).insert m c := by
  rw [zadd, if_pos h]
  exact zmembers_insert_self

theorem mem_of_mem_zadd {x : String} (h : x ∈ (ks.zadd k c m).zmembers k) :
    x = m ∨ x ∈ ks.zmembers k := by
  unfold zadd at h
  split_ifs at h with hz
  · rw [zmembers_insert_self] at h
    exact (mem_insert _).mp h
  · exact .inr h

theorem zmembers_zpopmax (h : ks.zpopmax k = some (m, ks')) :
    ks'.zmembers k = (ks.zmembers k).erase m := by
  obtain ⟨-, -, rfl⟩ := zpopmax_eq_some h
  split_ifs with he
  · rw [show zmembers (ks.erase k) k = _ from zmembers_del, if_pos rfl]
    refine AList.ext ?_
    rw [empty_entries]
    exact (isEmpty_iff.mp he).symm
  · exact zmembers_insert_self

theorem zpopmax_score {c' : Int} {m' : String} (h : ks.zpopmax k = some (m, ks'))
    (hm : (ks.zmembers k).lookup m = some c) (hm' : (ks.zmembers k).lookup m' = some c') :
    c' ≤ c := by
  simp only [zpopmax, map_eq_some_iff, Prod.mk.injEq] at h
  obtain ⟨⟨x, z⟩, hp, rfl, -⟩ := h
  exact ZSet.popMax_score hp hm hm'

theorem exists_zpopmax (h : m ∈ ks.zmembers k) : ∃ x ks', ks.zpopmax k = some (x, ks') := by
  cases hp : (ks.zmembers k).popMax with
  | none =>
    rw [ZSet.popMax_eq_none.mp hp] at h
    exact absurd h (notMem_empty m)
  | some r => exact ⟨r.1, _, by rw [zpopmax, hp]; rfl⟩

theorem zmembers_sadd_ne (h : k' ≠ k) : (ks.sadd k m).zmembers k' = ks.zmembers k' := by
  unfold sadd
  split_ifs
  · exact zmembers_insert_ne h
  · rfl

theorem zmembers_srem_ne (h : k' ≠ k) : (ks.srem k m).zmembers k' = ks.zmembers k' := by
  unfold srem
  split_ifs
  · exact zmembers_insert_ne h
  · rfl

/-! Sets. -/

section Sets

variable (h : ks.isSet k = true)
include h

theorem smembers_sadd (x : String) : x ∈ (ks.sadd k m).smembers k ↔ x = m ∨ x ∈ ks.smembers k := by
  rw [sadd, if_pos h]
  unfold smembers
  rw [lookup_insert]
  simp only [mem_cons, mem_filter, decide_eq_true_eq]
  exact ⟨fun hx => hx.imp_right And.left, fun hx => by
    by_cases hxm : x = m
    · exact .inl hxm
    · exact .inr ⟨hx.resolve_left hxm, hxm⟩⟩

theorem smembers_srem (x : String) : x ∈ (ks.srem k m).smembers k ↔ x ≠ m ∧ x ∈ ks.smembers k := by
  rw [srem, if_pos h]
  unfold smembers
  rw [lookup_insert]
  simp only [mem_filter, decide_eq_true_eq]
  exact And.comm

theorem isSet_sadd : (ks.sadd k m).isSet k = true := by
  rw [sadd, if_pos h]
  unfold isSet
  rw [lookup_insert]

theorem isSet_srem : (ks.srem k m).isSet k = true := by
  rw [srem, if_pos h]
  unfold isSet
  rw [lookup_insert]

end Sets

/-! Every command, at the keys it is not about. -/

theorem lookup_set_ne (h : k' ≠ k) : (ks.set k a).lookup k' = ks.lookup k' :=
  lookup_insert_ne h

theorem lookup_del_ne (h : k' ≠ k) : (ks.del k).lookup k' = ks.lookup k' :=
  lookup_erase_ne h

theorem lookup_zadd_ne (h : k' ≠ k) : (ks.zadd k c m).lookup k' = ks.lookup k' := by
  unfold zadd
  split_ifs
  · exact lookup_insert_ne h
  · rfl

theorem lookup_sadd_ne (h : k' ≠ k) : (ks.sadd k m).lookup k' = ks.lookup k' := by
  unfold sadd
  split_ifs
  · exact lookup_insert_ne h
  · rfl

theorem lookup_srem_ne (h : k' ≠ k) : (ks.srem k m).lookup k' = ks.lookup k' := by
  unfold srem
  split_ifs
  · exact lookup_insert_ne h
  · rfl

theorem lookup_zpopmax_ne (hp : ks.zpopmax k = some (m, ks')) (h : k' ≠ k) :
    ks'.lookup k' = ks.lookup k' := by
  obtain ⟨-, -, rfl⟩ := zpopmax_eq_some hp
  split_ifs
  · exact lookup_erase_ne h
  · exact lookup_insert_ne h

section Congr

variable (h : ks'.lookup k = ks.lookup k)
include h

theorem smembers_congr : ks'.smembers k = ks.smembers k := by
  unfold smembers
  rw [h]

theorem isSet_congr : ks'.isSet k = ks.isSet k := by
  unfold isSet
  rw [h]

theorem isZSet_congr : ks'.isZSet k = ks.isZSet k := by
  unfold isZSet
  rw [h]

theorem get_congr : ks'.get k = ks.get k := by
  unfold get
  rw [h]

end Congr

/-! Whether a key is still a sorted set. -/

theorem isZSet_set_ne (h : k' ≠ k) : (ks.set k a).isZSet k' = ks.isZSet k' := by
  unfold isZSet set
  rw [lookup_insert_ne h]

theorem isZSet_del (h : ks.isZSet k' = true) : (ks.del k).isZSet k' = true := by
  unfold isZSet del
  by_cases hk : k' = k
  · subst hk; rw [lookup_erase]
  · rw [lookup_erase_ne hk]; exact h

theorem isZSet_zadd (h : ks.isZSet k' = true) : (ks.zadd k c m).isZSet k' = true := by
  unfold zadd
  split_ifs with hz
  · unfold isZSet
    by_cases hk : k' = k
    · subst hk; rw [lookup_insert]
    · rw [lookup_insert_ne hk]; exact h
  · exact h

theorem isZSet_zpopmax (h : ks.zpopmax k = some (m, ks')) (hz : ks.isZSet k' = true) :
    ks'.isZSet k' = true := by
  obtain ⟨-, -, rfl⟩ := zpopmax_eq_some h
  split_ifs
  · exact isZSet_del hz
  · unfold isZSet
    by_cases hk : k' = k
    · subst hk; rw [lookup_insert]
    · rw [lookup_insert_ne hk]; exact hz

end Keyspace

end Bridge.Lib
