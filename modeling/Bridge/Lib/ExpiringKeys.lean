import Mathlib.Data.List.AList

/-!
# A Redis key space with expiry

Strings and sets under keys that may have a time to live. A key is gone once its time is over:
every command sees the key space through `find`, which does not show a key that is overdue. A
command for the other type of value answers `WRONGTYPE`; `MGET` answers nothing there. `SET` forgets
the time to live of the key it overwrites, `SADD` and `SREM` keep it, and `EXPIRE` gives one to
whatever the key holds.
-/

namespace Bridge.Lib

open AList Option

inductive Cell (S M : Type)
  | string (s : S)
  | set (members : List M)

def Cell.isString {S M : Type} : Cell S M → Bool
  | .string _ => true
  | .set _ => false

structure Slot (S M : Type) where
  cell : Cell S M
  /-- The moment up to which the key is kept. -/
  expireAt : Option Nat

def Slot.kept {S M : Type} (now : Nat) (x : Slot S M) : Bool :=
  match x.expireAt with
  | none => true
  | some e => decide (now ≤ e)

theorem Slot.kept_of_le {S M : Type} {x : Slot S M} {now t : Nat} (h : now ≤ t)
    (ht : x.kept t = true) : x.kept now = true := by
  unfold Slot.kept at ht ⊢
  split at ht
  · rfl
  · exact decide_eq_true (Nat.le_trans h (of_decide_eq_true ht))

structure ExpiringKeys (K S M : Type) where
  now : Nat
  slots : AList (fun _ : K => Slot S M)

namespace ExpiringKeys

variable {K S M : Type} [DecidableEq K]

def empty (now : Nat) : ExpiringKeys K S M := ⟨now, ∅⟩

section Entries

variable (r : ExpiringKeys K S M)

def findSlot (k : K) : Option (Slot S M) :=
  (r.slots.lookup k).filter (·.kept r.now)

def find (k : K) : Option (Cell S M) := (r.findSlot k).map (·.cell)

def put (k : K) (x : Slot S M) : ExpiringKeys K S M :=
  { r with slots := r.slots.insert k x }

def erase (k : K) : ExpiringKeys K S M :=
  { r with slots := r.slots.erase k }

end Entries

/-! ## Commands -/

inductive Reply (S : Type)
  | nil
  | bulk (s : S)
  | wrongType

section Commands

variable (r : ExpiringKeys K S M)

def get (k : K) : Reply S :=
  match r.find k with
  | none => .nil
  | some (.string s) => .bulk s
  | some (.set _) => .wrongType

/-- One of the answers of `MGET`. -/
def mget (k : K) : Option S :=
  match r.find k with
  | some (.string s) => some s
  | _ => none

def set (k : K) (s : S) : ExpiringKeys K S M := r.put k ⟨.string s, none⟩

def setex (k : K) (seconds : Nat) (s : S) : ExpiringKeys K S M :=
  r.put k ⟨.string s, some (r.now + seconds * 1000)⟩

def del (k : K) : Nat × ExpiringKeys K S M :=
  (if (r.find k).isSome then 1 else 0, r.erase k)

def sadd [DecidableEq M] (k : K) (m : M) : ExpiringKeys K S M :=
  match r.findSlot k with
  | none => r.put k ⟨.set [m], none⟩
  | some ⟨.set ms, ttl⟩ => r.put k ⟨.set (if m ∈ ms then ms else ms ++ [m]), ttl⟩
  | some ⟨.string _, _⟩ => r

def srem [DecidableEq M] (k : K) (m : M) : ExpiringKeys K S M :=
  match r.findSlot k with
  | some ⟨.set ms, ttl⟩ =>
    if ms.filter (· ≠ m) = [] then r.erase k else r.put k ⟨.set (ms.filter (· ≠ m)), ttl⟩
  | _ => r

def expire (k : K) (seconds : Nat) : ExpiringKeys K S M :=
  match r.findSlot k with
  | none => r
  | some x => r.put k { x with expireAt := some (r.now + seconds * 1000) }

def tick (t : Nat) : ExpiringKeys K S M := { r with now := t }

end Commands

/-! ## What is found afterwards -/

variable {r r' : ExpiringKeys K S M} {k k' : K} {x : Slot S M} {s : S}

theorem find_put : (r.put k x).find k = if x.kept r.now then some x.cell else none := by
  have hslot : (r.put k x).findSlot k = if x.kept r.now then some x else none := by
    rw [findSlot, put, lookup_insert, filter_some]
  rw [find, hslot]
  split <;> rfl

theorem find_put_ne (h : k' ≠ k) : (r.put k x).find k' = r.find k' := by
  rw [find, findSlot, put, lookup_insert_ne h]
  rfl

theorem find_erase : (r.erase k).find k = none := by
  rw [find, findSlot, erase, lookup_erase, filter_none, map_none]

theorem find_erase_ne (h : k' ≠ k) : (r.erase k).find k' = r.find k' := by
  rw [find, findSlot, erase, lookup_erase_ne h]
  rfl

theorem findSlot_put (h : x.kept r.now = true) : (r.put k x).findSlot k = some x := by
  rw [findSlot, put, lookup_insert, filter_some]
  exact if_pos h

theorem findSlot_put_ne (h : k' ≠ k) : (r.put k x).findSlot k' = r.findSlot k' := by
  rw [findSlot, put, lookup_insert_ne h]
  rfl

theorem find_tick (h : r.findSlot k = some x) (t : Nat) :
    (r.tick t).find k = if x.kept t then some x.cell else none := by
  have hlookup : r.slots.lookup k = some x := (filter_eq_some_iff.mp h).1
  rw [find, findSlot, tick, hlookup, filter_some]
  split <;> rfl

variable {m : M}

theorem now_sadd [DecidableEq M] : (r.sadd k m).now = r.now := by
  unfold sadd
  split <;> rfl

variable {seconds : Nat}

theorem now_expire : (r.expire k seconds).now = r.now := by
  unfold expire
  split <;> rfl

variable {ttl : Option Nat}

theorem sadd_of_string [DecidableEq M] (h : r.findSlot k = some ⟨.string s, ttl⟩) :
    r.sadd k m = r := by
  simp [sadd, h]

theorem findSlot_sadd_ne [DecidableEq M] (h : k' ≠ k) : (r.sadd k m).findSlot k' =
    r.findSlot k' := by
  unfold sadd
  split
  · exact findSlot_put_ne h
  · exact findSlot_put_ne h
  · rfl

theorem findSlot_expire (h : r.findSlot k = some x) : (r.expire k seconds).findSlot k =
      some { x with expireAt := some (r.now + seconds * 1000) } := by
  simp only [expire, h]
  exact findSlot_put (decide_eq_true (Nat.le_add_right _ _))

theorem findSlot_expire_ne (h : k' ≠ k) : (r.expire k seconds).findSlot k' = r.findSlot k' := by
  unfold expire
  split
  · rfl
  · exact findSlot_put_ne h

theorem get_eq_bulk : r.get k = .bulk s ↔ r.find k = some (.string s) := by
  unfold get
  split <;> simp_all

theorem mget_eq_some : r.mget k = some s ↔ r.find k = some (.string s) := by
  unfold mget
  split <;> simp_all

/-- The strings of `r'` are strings of `r`. -/
def Fewer (r' r : ExpiringKeys K S M) : Prop :=
  ∀ k s, r'.find k = some (.string s) → r.find k = some (.string s)

theorem Fewer.refl : Fewer r r := fun _ _ h => h

theorem Fewer.trans {r'' : ExpiringKeys K S M} (h : Fewer r'' r') (h' : Fewer r' r) :
    Fewer r'' r := fun k s hs => h' k s (h k s hs)

theorem fewer_erase : Fewer (r.erase k) r := by
  intro k' s h
  by_cases hk : k' = k
  · simp [hk, find_erase] at h
  · rwa [find_erase_ne hk] at h

theorem fewer_put_set {ms : List M} : Fewer (r.put k ⟨.set ms, ttl⟩) r := by
  intro k' s h
  by_cases hk : k' = k
  · rw [hk, find_put] at h
    split at h
    · cases h
    · cases h
  · rwa [find_put_ne hk] at h

theorem fewer_sadd [DecidableEq M] : Fewer (r.sadd k m) r := by
  unfold sadd
  split
  · exact fewer_put_set
  · exact fewer_put_set
  · exact .refl

theorem fewer_srem [DecidableEq M] : Fewer (r.srem k m) r := by
  unfold srem
  split
  · split
    · exact fewer_erase
    · exact fewer_put_set
  · exact .refl

theorem fewer_expire : Fewer (r.expire k seconds) r := by
  unfold expire
  split
  · exact .refl
  · rename_i x hx
    intro k' s h
    by_cases hk : k' = k
    · rw [hk, find_put] at h
      split at h
      · rw [hk, find, hx, map_some]
        exact h
      · cases h
    · rwa [find_put_ne hk] at h

theorem fewer_tick {t : Nat} (h : r.now ≤ t) : Fewer (r.tick t) r := by
  intro k s hs
  simp only [find, findSlot, tick, map_eq_some_iff, filter_eq_some_iff] at hs ⊢
  obtain ⟨x, ⟨hx, hall⟩, hcell⟩ := hs
  exact ⟨x, ⟨hx, Slot.kept_of_le h hall⟩, hcell⟩

theorem find_string_put {t : S} (h : (r.put k ⟨.string t, ttl⟩).find k' = some (.string s)) :
    s = t ∨ r.find k' = some (.string s) := by
  by_cases hk : k' = k
  · rw [hk, find_put] at h
    split at h
    · simp only [some.injEq, Cell.string.injEq] at h
      exact .inl h.symm
    · cases h
  · rw [find_put_ne hk] at h
    exact .inr h

/-! ## When a string is gone -/

/-- A string under the key has a time to live, and it is over by then. -/
def DueBy (k : K) (bound : Nat) (r : ExpiringKeys K S M) : Prop :=
  ∀ s e, r.findSlot k = some ⟨.string s, e⟩ → ∃ t ≤ bound, e = some t

namespace DueBy

variable {bound : Nat}

section DueBy

variable (h : DueBy k bound r)
include h

theorem put_ne (hk : k ≠ k') : DueBy k bound (r.put k' x) := by
  intro s e hs
  rw [findSlot_put_ne hk] at hs
  exact h s e hs

theorem put_set {ms : List M} : DueBy k bound (r.put k' ⟨.set ms, ttl⟩) := by
  by_cases hk : k = k'
  · subst hk
    intro s e hs
    rw [findSlot, put, lookup_insert] at hs
    obtain ⟨hcell, -⟩ := filter_eq_some_iff.mp hs
    cases hcell
  · exact h.put_ne hk

theorem erase : DueBy k bound (r.erase k') := by
  intro s e hs
  by_cases hk : k = k'
  · subst hk
    simp [findSlot, ExpiringKeys.erase, lookup_erase] at hs
  · rw [findSlot, ExpiringKeys.erase, lookup_erase_ne hk] at hs
    exact h s e hs

theorem sadd [DecidableEq M] : DueBy k bound (r.sadd k' m) := by
  unfold ExpiringKeys.sadd
  split
  · exact h.put_set
  · exact h.put_set
  · exact h

theorem srem [DecidableEq M] : DueBy k bound (r.srem k' m) := by
  unfold ExpiringKeys.srem
  split
  · split
    · exact h.erase
    · exact h.put_set
  · exact h

theorem expire_ne (hk : k ≠ k') : DueBy k bound (r.expire k' seconds) := by
  unfold ExpiringKeys.expire
  split
  · exact h
  · exact h.put_ne hk

theorem tick {t : Nat} (ht : r.now ≤ t) : DueBy k bound (r.tick t) := by
  intro s e hs
  obtain ⟨hlookup, hkept⟩ := filter_eq_some_iff.mp hs
  exact h s e (filter_eq_some_iff.mpr ⟨hlookup, Slot.kept_of_le ht hkept⟩)

theorem find_ne (hlate : bound < r.now) : r.find k ≠ some (.string s) := by
  intro hs
  obtain ⟨⟨cell, e⟩, hslot, rfl⟩ := map_eq_some_iff.mp hs
  obtain ⟨t, ht, rfl⟩ := h s e hslot
  obtain ⟨-, hkept⟩ := filter_eq_some_iff.mp hslot
  exact Nat.not_le_of_lt (Nat.lt_of_le_of_lt ht hlate) (of_decide_eq_true hkept)

end DueBy

end DueBy

/-! ## Everything that is stored -/

def live (r : ExpiringKeys K S M) : List (Sigma fun _ : K => Slot S M) :=
  r.slots.entries.filter fun e => e.2.kept r.now

/-- The keys that a whole `SCAN` answers. -/
def scan (r : ExpiringKeys K S M) (f : K → Bool) : List K := (r.live.map (·.1)).filter f

def strings (r : ExpiringKeys K S M) : Nat := r.live.countP fun e => e.2.cell.isString

def sets (r : ExpiringKeys K S M) : Nat := r.live.countP fun e => !e.2.cell.isString

omit [DecidableEq K] in
theorem length_live : r.live.length = r.strings + r.sets := by
  rw [strings, sets, List.length_eq_countP_add_countP fun e => e.2.cell.isString]
  simp

/-- What is stored under each key is as `P` says, overdue or not. -/
def Cells (P : K → Cell S M → Prop) (r : ExpiringKeys K S M) : Prop :=
  ∀ k x, r.slots.lookup k = some x → P k x.cell

section Cells

variable {P : K → Cell S M → Prop}

theorem cells_empty {now : Nat} : Cells P (empty now : ExpiringKeys K S M) := by
  intro k x hx
  simp [empty] at hx

theorem Cells.find (h : Cells P r) {c : Cell S M} (hc : r.find k = some c) : P k c := by
  obtain ⟨x, hx, rfl⟩ := map_eq_some_iff.mp hc
  exact h k x (filter_eq_some_iff.mp hx).1

theorem lookup_of_findSlot (h : r.findSlot k = some x) : r.slots.lookup k = some x :=
  (filter_eq_some_iff.mp h).1

theorem Cells.put (h : Cells P r) (hx : P k x.cell) : Cells P (r.put k x) := by
  intro k' x' hx'
  by_cases hk : k' = k
  · subst hk
    rw [ExpiringKeys.put, lookup_insert] at hx'
    cases hx'
    exact hx
  · rw [ExpiringKeys.put, lookup_insert_ne hk] at hx'
    exact h k' x' hx'

theorem Cells.erase (h : Cells P r) : Cells P (r.erase k) := by
  intro k' x' hx'
  by_cases hk : k' = k
  · subst hk
    simp [ExpiringKeys.erase, lookup_erase] at hx'
  · rw [ExpiringKeys.erase, lookup_erase_ne hk] at hx'
    exact h k' x' hx'

theorem Cells.sadd [DecidableEq M] (h : Cells P r) (hk : ∀ ms, P k (.set ms)) :
    Cells P (r.sadd k m) := by
  unfold ExpiringKeys.sadd
  split
  · exact h.put (hk _)
  · exact h.put (hk _)
  · exact h

theorem Cells.srem [DecidableEq M] (h : Cells P r)
    (hset : ∀ ms ms', P k (.set ms) → P k (.set ms')) : Cells P (r.srem k m) := by
  unfold ExpiringKeys.srem
  split
  · rename_i ms ttl hslot
    split
    · exact h.erase
    · exact h.put (hset ms _ (h k _ (lookup_of_findSlot hslot)))
  · exact h

theorem Cells.expire (h : Cells P r) : Cells P (r.expire k seconds) := by
  unfold ExpiringKeys.expire
  split
  · exact h
  · rename_i x hslot
    exact h.put (h k x (lookup_of_findSlot hslot))

end Cells

end ExpiringKeys
end Bridge.Lib
