import Bridge.Lib.Utf16

/-!
# What every cache service shares

The abstract class `CacheService` fixes the keys, the options and the statistics; the two services
behind it (in memory, and over Redis) fill in the storage.
-/

namespace Bridge.Cache

open List

abbrev Text := List UInt16

instance : LawfulBEq Text := inferInstanceAs (LawfulBEq (List UInt16))

def text (s : String) : Text := Lib.Utf16.ofString s

/-- `[a-z0-9:_-]` -/
def isKeyUnit (u : UInt16) : Bool :=
  (0x61 ≤ u && u ≤ 0x7A) || (0x30 ≤ u && u ≤ 0x39) || u == 0x3A || u == 0x5F || u == 0x2D

/-- What lower-casing and then replacing make of one unit. Two characters outside ASCII have a
lower case that meets the class: the dotted capital I, which becomes `i` and a combining dot, and
the Kelvin sign, which becomes `k`. Every other lower case keeps the number of units and stays
outside the class. -/
def normalizeUnit (u : UInt16) : Text :=
  if 0x41 ≤ u ∧ u ≤ 0x5A then [u + 0x20]
  else if isKeyUnit u then [u]
  else if u = 0x0130 then [0x69, 0x5F]
  else if u = 0x212A then [0x6B]
  else [0x5F]

def normalizeKey (key : Text) : Text := key.flatMap normalizeUnit

theorem isKeyUnit_lower {u : UInt16} (h : 0x41 ≤ u ∧ u ≤ 0x5A) : isKeyUnit (u + 0x20) = true := by
  have hle : 0x61 ≤ u + 0x20 ∧ u + 0x20 ≤ 0x7A := by
    simp only [UInt16.le_iff_toNat_le, UInt16.toNat_add, UInt16.reduceToNat] at h ⊢
    omega
  simp [isKeyUnit, hle]

theorem isKeyUnit_normalizeUnit {u x : UInt16} (hx : x ∈ normalizeUnit u) : isKeyUnit x = true := by
  unfold normalizeUnit at hx
  split at hx
  · obtain rfl := mem_singleton.mp hx
    exact isKeyUnit_lower ‹_›
  · split at hx
    · rename_i hkey
      exact mem_singleton.mp hx ▸ hkey
    · split at hx
      · obtain rfl | rfl : x = 0x69 ∨ x = 0x5F := by simpa using hx
        · rfl
        · rfl
      · split at hx <;> (obtain rfl := mem_singleton.mp hx; rfl)

theorem normalizeUnit_of_isKeyUnit {u : UInt16} (h : isKeyUnit u = true) :
    normalizeUnit u = [u] := by
  unfold normalizeUnit
  split_ifs with hup
  · exfalso
    simp only [isKeyUnit, Bool.or_eq_true, Bool.and_eq_true, decide_eq_true_eq, beq_iff_eq,
      UInt16.le_iff_toNat_le, ← UInt16.toNat_inj, UInt16.reduceToNat] at h hup
    omega
  · rfl

/-- **Normalising is idempotent.** -/
@[simp] theorem normalizeKey_normalizeKey (key : Text) :
    normalizeKey (normalizeKey key) = normalizeKey key := by
  have hfix : ∀ {k : Text}, (∀ u ∈ k, isKeyUnit u = true) → normalizeKey k = k := by
    intro k
    induction k with
    | nil => intro _; rfl
    | cons u k ih =>
      intro hk
      have hu := normalizeUnit_of_isKeyUnit (hk u mem_cons_self)
      have hrest := ih fun x hx => hk x (mem_cons_of_mem u hx)
      simp only [normalizeKey, flatMap_cons] at hrest ⊢
      rw [hu, hrest]
      rfl
  refine hfix ?_
  intro x hx
  obtain ⟨u, -, hu⟩ := mem_flatMap.mp hx
  exact isKeyUnit_normalizeUnit hu

/-! ## Options and statistics -/

structure CacheOptions where
  ttl : Option Nat := none
  tags : Option (List Text) := none
  compress : Option Bool := none

/-- `options?.ttl`, as a condition: an absent ttl and a ttl of `0` are both false. -/
def CacheOptions.ttl? (o : CacheOptions) : Option Nat := o.ttl.filter (· ≠ 0)

/-- `options?.ttl ? new Date(Date.now() + options.ttl) : undefined` -/
def CacheOptions.expiresAt (o : CacheOptions) (now : Nat) : Option Nat := o.ttl?.map (now + ·)

structure CacheStats where
  hits : Nat := 0
  misses : Nat := 0
  sets : Nat := 0
  deletes : Nat := 0
deriving DecidableEq

namespace CacheStats

def recordHit (t : CacheStats) : CacheStats := { t with hits := t.hits + 1 }
def recordMiss (t : CacheStats) : CacheStats := { t with misses := t.misses + 1 }
def recordSet (t : CacheStats) : CacheStats := { t with sets := t.sets + 1 }
def recordDelete (t : CacheStats) : CacheStats := { t with deletes := t.deletes + 1 }

end CacheStats

end Bridge.Cache
