import Bridge.Cache.Frames
import Bridge.Cache.Memory

/-!
# Entries and tag sets in one key space

`RedisCacheService` keeps an entry under `<prefix><key>` and the keys of a tag under
`<prefix>tags:<tag>`. The colon is one of the characters that `normalizeKey` leaves alone, so the
first may be the second: exactly for the keys that begin with `tags:` (`getFullKey_eq_getTagKey`).
And `getStats` counts what a `SCAN` of `<prefix>*` finds, which is both: its `keys` are the entries
*and* the tag sets (`keyspace_exact`). `MemoryCacheService` has two maps, and counts the one.
-/

namespace Bridge.Cache

open Lib Utf16 List Option

/-- `getStats().keys` of `MemoryCacheService`. -/
def Memory.statsKeys {V : Type} (s : Memory.State V) : Nat := s.cache.keys.length

/-- What the service uses of the client, and of `SCAN`. -/
structure Scanner where
  /-- A member of a set, as the client answers it. -/
  toText : List UInt8 → Text
  /-- `MATCH` -/
  glob : List UInt8 → List UInt8 → Bool
  glob_literal : ∀ {pre key : List UInt8}, pre ≠ [] → (∀ b ∈ pre, b ∉ [0x2A, 0x3F, 0x5B, 0x5C]) →
    glob (pre ++ [0x2A]) key = pre.isPrefixOf key

namespace RedisCache

variable {N : Type} (p : Platform N) (sc : Scanner) (cfg : RedisCacheConfig)

/-! ## The methods -/

/-- The `SCAN` loop: all batches together. -/
def scanKeys (pattern : List UInt8) : Call (List (List UInt8)) :=
  command fun r => (r.scan (sc.glob pattern), r)

def doGetKeys (pattern : Option Text) : Call (List (List UInt8)) := do
  let searchPattern :=
    match pattern.filter (· ≠ []) with
    | some pattern => cfg.keyPrefix ++ pattern
    | none => cfg.keyPrefix ++ text "*"
  let fullKeys ← scanKeys sc (p.utf8 searchPattern)
  pure (fullKeys.map fun key => key.drop (p.utf8 cfg.keyPrefix).length)

/-- The statistics, and `keys` with them; `doGetSize` before it writes nothing. -/
def getStats : Call (CacheStats × Nat) := do
  let keys ← doGetKeys p sc cfg none
  let w ← Async.get
  pure (w.stats, keys.length)

def getKeysByTag (tag : Text) : Call (List Text) := fun w =>
  match w.redis.find (getTagKey p cfg tag) with
  | none => some (.ok [], w)
  | some (.set members) => some (.ok (members.map sc.toText), w)
  | some (.string _) => some (.error .wrongType, w)

/-- The inner loop of `invalidateByTags`. -/
def invalidateKeys : List Text → Call Nat
  | [] => pure 0
  | key :: keys => do
    let deleted ← delete p cfg 2 key
    let others ← invalidateKeys keys
    pure ((if deleted then 1 else 0) + others)

def invalidateByTags : List Text → Call Nat
  | [] => pure 0
  | tag :: tags => do
    let keys ← getKeysByTag p sc cfg tag
    let invalidated ← invalidateKeys p cfg keys
    let others ← invalidateByTags tags
    pure (invalidated + others)

inductive Request (N : Type)
  | set (key : Text) (value : JsonValue N) (options : CacheOptions)
  | delete (key : Text)
  | invalidateByTags (tags : List Text)
  | tick (t : Nat)

def serve (w : RedisCache) : Request N → Option RedisCache
  | .set key value options => after (set p cfg key value options) w
  | .delete key => after (delete p cfg 2 key) w
  | .invalidateByTags tags => after (invalidateByTags p sc cfg tags) w
  | .tick t => if w.redis.now ≤ t then some { w with redis := w.redis.tick t } else none

def SendsUtf8 : Prop := ∀ s, p.utf8 s = utf8 s

section Keys

variable {p cfg} {key tag : Text}

theorem ascii_of_isKeyUnit {u : UInt16} (h : isKeyUnit u = true) : u.toNat < 0x80 := by
  simp only [isKeyUnit, Bool.or_eq_true, Bool.and_eq_true, decide_eq_true_eq, beq_iff_eq,
    UInt16.le_iff_toNat_le, ← UInt16.toNat_inj, UInt16.reduceToNat] at h
  omega

theorem ascii_normalizeKey : ∀ u ∈ normalizeKey key, u.toNat < 0x80 := by
  intro u hu
  obtain ⟨v, -, hv⟩ := mem_flatMap.mp hu
  exact ascii_of_isKeyUnit (isKeyUnit_normalizeUnit hv)

theorem not_low_of_ascii {u : UInt16} (h : u.toNat < 0x80) : isLow u = false := by
  rw [isLow, decide_eq_false_iff_not]
  omega

theorem getFullKey_eq (hutf8 : SendsUtf8 p) :
    getFullKey p cfg (normalizeKey key) = p.utf8 cfg.keyPrefix ++ utf8 (normalizeKey key) := by
  rw [getFullKey, hutf8, hutf8, utf8_append]
  intro u hu
  exact not_low_of_ascii (ascii_normalizeKey u (mem_of_head? hu))

theorem getTagKey_eq (hutf8 : SendsUtf8 p) :
    getTagKey p cfg tag = p.utf8 cfg.keyPrefix ++ utf8 (text "tags:" ++ tag) := by
  rw [getTagKey, append_assoc, hutf8, hutf8, utf8_append]
  intro u hu
  have hfirst : (text "tags:" ++ tag).head? = some 0x74 := rfl
  obtain rfl := some.inj (hfirst.symm.trans hu)
  rfl

theorem getFullKey_eq_getTagKey (hutf8 : SendsUtf8 p) :
    getFullKey p cfg (normalizeKey key) = getTagKey p cfg tag ↔
      normalizeKey key = text "tags:" ++ tag := by
  rw [getFullKey_eq hutf8, getTagKey_eq hutf8, append_cancel_left_eq]
  constructor
  · exact eq_of_utf8_eq ascii_normalizeKey
  · exact fun h => h ▸ rfl

end Keys

/-- Strings are under the keys of entries, and sets under the keys of tags. -/
def Placed (K T : Text → Prop) (k : List UInt8) : Cell Text (List UInt8) → Prop
  | .string _ => ∃ key, K key ∧ k = getFullKey p cfg (normalizeKey key)
  | .set _ => ∃ tag, T tag ∧ k = getTagKey p cfg tag

section Placed

variable {p sc cfg} {K T : Text → Prop} {key : Text} {value : JsonValue N} {options : CacheOptions}
  {w w' : RedisCache}

def Tidy (p : Platform N) (cfg : RedisCacheConfig) (K T : Text → Prop) (w : RedisCache) : Prop :=
  w.redis.Cells (Placed p cfg K T)

theorem kept_tidy : Kept (Tidy p cfg K T) where
  stats _ hw := hw
  erase _ hw := hw.erase
  srem _ _ hw := hw.srem fun _ _ hset => hset

theorem Tidy.store (h : Tidy p cfg K T w) (hkey : K key) {s : Text} : Tidy p cfg K T
      { w with redis := store w.redis (getFullKey p cfg (normalizeKey key)) options s } := by
  unfold RedisCache.store
  split
  · exact h.put ⟨key, hkey, rfl⟩
  · exact h.put ⟨key, hkey, rfl⟩

theorem preserves_set_tidy (hkey : K key) (htags : ∀ tag ∈ options.tags.getD [], T tag) :
    Async.Preserves (Tidy p cfg K T) (set p cfg key value options) := by
  apply kept_tidy.set
  · intro w e _ hw
    exact hw.store hkey
  · intro w tag hmem hw
    apply ExpiringKeys.Cells.expire
    exact hw.sadd fun _ => ⟨tag, htags tag hmem, rfl⟩

theorem preserves_invalidateKeys {keys : List Text} :
    Async.Preserves (Tidy p cfg K T) (invalidateKeys p cfg keys) := by
  induction keys with
  | nil => exact Async.preserves_pure
  | cons key keys ih =>
    exact kept_tidy.delete.bind fun _ => ih.bind fun _ => Async.preserves_pure

theorem preserves_invalidateByTags {tags : List Text} :
    Async.Preserves (Tidy p cfg K T) (invalidateByTags p sc cfg tags) := by
  induction tags with
  | nil => exact Async.preserves_pure
  | cons tag tags ih =>
    have hkeys : Async.Preserves (Tidy p cfg K T) (getKeysByTag p sc cfg tag) := by
      intro w r w' hw h
      unfold getKeysByTag at h
      split at h <;> (cases h; exact hw)
    exact hkeys.bind fun _ => preserves_invalidateKeys.bind fun _ => ih.bind fun _ =>
      Async.preserves_pure

end Placed

/-! ## Runs -/

def Sets (run : List (Request N)) (key : Text) : Prop :=
  ∃ value options, Request.set key value options ∈ run

def Tags (run : List (Request N)) (tag : Text) : Prop :=
  ∃ key value options tags, Request.set key value options ∈ run ∧ options.tags = some tags ∧
    tag ∈ tags

/-- No key that the run sets is one of its tags with `tags:` in front. -/
def Apart (run : List (Request N)) : Prop :=
  ∀ key tag, Sets run key → Tags run tag → normalizeKey key ≠ text "tags:" ++ tag

def Literal : Prop :=
  p.utf8 cfg.keyPrefix ≠ [] ∧ ∀ b ∈ p.utf8 cfg.keyPrefix, b ∉ [0x2A, 0x3F, 0x5B, 0x5C]

section Runs

variable {p sc cfg} {K T : Text → Prop} {w w' : RedisCache} {run : List (Request N)}

section Tidy

variable (h : Tidy p cfg K T w)
include h

theorem Tidy.serve {a : Request N} (hs : serve p sc cfg w a = some w')
    (hK : ∀ key, Sets [a] key → K key) (hT : ∀ tag, Tags [a] tag → T tag) : Tidy p cfg K T w' := by
  cases a with
  | set key value options =>
    refine after_of_preserves (preserves_set_tidy (hK key ⟨value, options, mem_cons_self⟩) ?_) h hs
    intro tag htag
    cases htags : options.tags with
    | none =>
      rw [htags] at htag
      exact absurd htag not_mem_nil
    | some tags =>
      rw [htags] at htag
      exact hT tag ⟨key, value, options, tags, mem_cons_self, htags, htag⟩
  | delete key => exact after_of_preserves kept_tidy.delete h hs
  | invalidateByTags tags => exact after_of_preserves preserves_invalidateByTags h hs
  | tick t =>
    simp only [RedisCache.serve] at hs
    split at hs
    · cases hs
      exact h
    · cases hs

theorem tidy_exec (hr : exec (RedisCache.serve p sc cfg) w run = some w')
    (hK : ∀ key, Sets run key → K key) (hT : ∀ tag, Tags run tag → T tag) : Tidy p cfg K T w' := by
  induction run generalizing w with
  | nil =>
    cases hr
    exact h
  | cons a run ih =>
    obtain ⟨w₁, hs, hrest⟩ := bind_eq_some_iff.mp hr
    refine ih (h.serve hs ?_ ?_) hrest ?_ ?_
    · rintro key ⟨value, options, hmem⟩
      obtain rfl := mem_singleton.mp hmem
      exact hK key ⟨value, options, mem_cons_self⟩
    · rintro tag ⟨key, value, options, tags, hmem, hsome, ht⟩
      obtain rfl := mem_singleton.mp hmem
      exact hT tag ⟨key, value, options, tags, mem_cons_self, hsome, ht⟩
    · rintro key ⟨value, options, hmem⟩
      exact hK key ⟨value, options, mem_cons_of_mem a hmem⟩
    · rintro tag ⟨key, value, options, tags, hmem, hsome, ht⟩
      exact hT tag ⟨key, value, options, tags, mem_cons_of_mem a hmem, hsome, ht⟩

theorem Tidy.isPrefixOf (hutf8 : SendsUtf8 p) {k : List UInt8}
    (hk : k ∈ w.redis.slots) : (p.utf8 cfg.keyPrefix).isPrefixOf k = true := by
  obtain ⟨x, hx⟩ := isSome_iff_exists.mp (AList.lookup_isSome.mpr hk)
  have hplaced := h k x hx
  rw [List.isPrefixOf_iff_prefix]
  cases hc : x.cell with
  | string s =>
    rw [hc] at hplaced
    obtain ⟨key, -, rfl⟩ := hplaced
    exact getFullKey_eq hutf8 ▸ prefix_append _ _
  | set members =>
    rw [hc] at hplaced
    obtain ⟨tag, -, rfl⟩ := hplaced
    exact getTagKey_eq hutf8 ▸ prefix_append _ _

theorem length_scan (hutf8 : SendsUtf8 p) (hlit : Literal p cfg) :
    (w.redis.scan (sc.glob (p.utf8 (cfg.keyPrefix ++ text "*")))).length =
      w.redis.strings + w.redis.sets := by
  have hpattern : p.utf8 (cfg.keyPrefix ++ text "*") = p.utf8 cfg.keyPrefix ++ [0x2A] := by
    rw [hutf8, hutf8, utf8_append]
    · rfl
    · intro u hu
      obtain rfl : 0x2A = u := some.inj hu
      rfl
  have hall : ∀ k ∈ w.redis.live.map (·.1), sc.glob (p.utf8 (cfg.keyPrefix ++ text "*"))
    k = true := by
    intro k hk
    obtain ⟨e, he, rfl⟩ := mem_map.mp hk
    rw [hpattern, sc.glob_literal hlit.1 hlit.2]
    apply h.isPrefixOf hutf8
    exact mem_map_of_mem (mem_of_mem_filter he)
  rw [ExpiringKeys.scan, filter_eq_self.mpr hall, length_map, ExpiringKeys.length_live]

theorem getStats_eq (hutf8 : SendsUtf8 p) (hlit : Literal p cfg) :
    getStats p sc cfg w = some (.ok (w.stats, w.redis.strings + w.redis.sets), w) := by
  have hlength : ((w.redis.scan (sc.glob (p.utf8 (cfg.keyPrefix ++ text "*")))).map
      fun key => key.drop (p.utf8 cfg.keyPrefix).length).length =
      w.redis.strings + w.redis.sets := by
    rw [length_map]
    exact length_scan h hutf8 hlit
  rw [← hlength]
  rfl

end Tidy

/-- **Entries and tag sets share a key exactly for the keys that begin with `tags:`, and `getStats`
counts both.** -/
theorem keyspace_exact (p : Platform N) (sc : Scanner) (cfg : RedisCacheConfig)
    (hutf8 : SendsUtf8 p) (hlit : Literal p cfg)
    (hr : exec (RedisCache.serve p sc cfg) init run = some w) :
    (∀ key tag, getFullKey p cfg (normalizeKey key) = getTagKey p cfg tag ↔
      normalizeKey key = text "tags:" ++ tag) ∧
    (Apart run → (∀ key members, Sets run key →
        w.redis.find (getFullKey p cfg (normalizeKey key)) ≠ some (.set members)) ∧
      ∀ tag s, Tags run tag → w.redis.find (getTagKey p cfg tag) ≠ some (.string s)) ∧
    (∃ keys, getStats p sc cfg w = some (.ok (w.stats, keys), w) ∧
      keys = w.redis.strings + w.redis.sets ∧ (keys = w.redis.strings ↔ w.redis.sets = 0)) ∧
    ∀ {V : Type} (s : Memory.State V), Memory.statsKeys s = s.cache.entries.length := by
  have hinit : Tidy p cfg (Sets run) (Tags run) init := ExpiringKeys.cells_empty
  have htidy : Tidy p cfg (Sets run) (Tags run) w :=
    tidy_exec hinit hr (fun _ h => h) fun _ h => h
  refine ⟨fun key tag => getFullKey_eq_getTagKey hutf8, ?_, ?_, ?_⟩
  · intro hapart
    constructor
    · intro key members hset hfind
      obtain ⟨tag, htag, heq⟩ := htidy.find hfind
      exact hapart key tag hset htag ((getFullKey_eq_getTagKey hutf8).mp heq)
    · intro tag s htag hfind
      obtain ⟨key, hset, heq⟩ := htidy.find hfind
      exact hapart key tag hset htag ((getFullKey_eq_getTagKey hutf8).mp heq.symm)
  · refine ⟨_, getStats_eq htidy hutf8 hlit, rfl, ?_⟩
    omega
  · intro V s
    exact length_map _

end Runs

/-! A platform that sends UTF-8, and the runs that set `k` with the tag `t`, and then `tags:t`. -/

noncomputable def wired : Platform Unit := { Platform.sample with utf8 := utf8 }

def Scanner.sample : Scanner where
  toText bytes := bytes.map (·.toUInt16)
  glob pattern key := pattern.dropLast.isPrefixOf key
  glob_literal _ _ := by rw [List.dropLast_concat]

def defaults : RedisCacheConfig := .resolve none none none

def setTrue (key : Text) (tags : Option (List Text)) : Request Unit :=
  .set key ⟨.bool true, .bool true⟩ { tags }

noncomputable def tagged : RedisCache :=
  (serve wired Scanner.sample defaults init (setTrue (text "k") (some [text "t"]))).getD init

noncomputable def overwritten : RedisCache :=
  (serve wired Scanner.sample defaults tagged (setTrue (text "tags:t") none)).getD init

theorem exec_tagged : exec (serve wired Scanner.sample defaults) init
    [setTrue (text "k") (some [text "t"])] = some tagged := rfl

theorem keyspace_exact_tagged : ∃ keys, getStats wired Scanner.sample defaults tagged =
      some (.ok (tagged.stats, keys), tagged) ∧
      keys = tagged.redis.strings + tagged.redis.sets := by
  have hlit : Literal wired defaults := ⟨by decide +kernel, by decide +kernel⟩
  obtain ⟨-, -, ⟨keys, hstats, hkeys, -⟩, -⟩ :=
    keyspace_exact wired Scanner.sample defaults (fun _ => rfl) hlit exec_tagged
  exact ⟨keys, hstats, hkeys⟩

theorem tag_set_counted_and_overwritten :
    (getStats wired Scanner.sample defaults tagged).map (fun r => r.1.toOption.map (·.2)) =
      some (some 2) ∧
    tagged.redis.strings = 1 ∧
    getFullKey wired defaults (normalizeKey (text "tags:t")) = getTagKey wired defaults (text "t") ∧
    (tagged.redis.find (getTagKey wired defaults (text "t"))).map Cell.isString = some false ∧
    (overwritten.redis.find (getTagKey wired defaults (text "t"))).map Cell.isString =
      some true := by
  refine ⟨?_, ?_, ?_, ?_, ?_⟩ <;> decide +kernel

end RedisCache
end Bridge.Cache
