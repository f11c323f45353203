import Bridge.Cache.Bulk
import Bridge.Cache.KeySpace

/-!
# `set`, and then `get`

What goes in comes out, compressed or not: the value is in a JSON text, perhaps in the compressed
form of another one, and `get` undoes each step.
-/

namespace Bridge.Cache.RedisCache

open Lib Async ExpiringKeys

variable {N : Type} {p : Platform N} {cfg : RedisCacheConfig} {w w' : RedisCache}
  {key : Text} {value : JsonValue N} {options : CacheOptions}

def Entry.Holds (p : Platform N) (e : Entry N) (value : JsonValue N) : Prop :=
  if e.compressed then e.value.1 = .str (p.deflate (p.stringify value.1)) else e.value = value

theorem get_of_holds {e : Entry N} (he : e.Holds p value) (depth : Nat)
    (hf : w.redis.find (getFullKey p cfg (normalizeKey key)) =
      some (.string (p.stringify (e.toJson p)))) :
    get p cfg (depth + 1) key w =
      some (.ok (some value.1), { w with stats := w.stats.recordHit }) := by
  unfold Entry.Holds at he
  cases hc : e.compressed with
  | true =>
    rw [hc, if_pos rfl] at he
    exact get_compressed depth hc he hf
  | false =>
    rw [hc, if_neg Bool.false_ne_true] at he
    rw [← he]
    exact get_entry depth hc hf

/-! ## Its place -/

def tagLife : Nat := 604800 * 1000

def storedUntil (options : CacheOptions) (now : Nat) : Option Nat :=
  options.ttl?.map fun ttl => now + (ttl + 999) / 1000 * 1000

theorem findSlot_store (r : Redis) (k : List UInt8) (options : CacheOptions) (s : Text) :
    (store r k options s).findSlot k = some ⟨.string s, storedUntil options r.now⟩ ∧
      (store r k options s).now = r.now := by
  unfold store
  split
  · rename_i ttl httl
    refine ⟨?_, rfl⟩
    rw [storedUntil, httl]
    exact findSlot_put (decide_eq_true (Nat.le_add_right _ _))
  · rename_i httl
    refine ⟨?_, rfl⟩
    rw [storedUntil, httl]
    exact findSlot_put rfl

theorem findSlot_tagged {r : Redis} {k : List UInt8} {s : Text} {ttl : Option Nat}
    (h : r.findSlot k = some ⟨.string s, ttl⟩) (tagKey m : List UInt8) :
    ((r.sadd tagKey m).expire tagKey 604800).findSlot k =
        some ⟨.string s, if tagKey = k then some (r.now + tagLife) else ttl⟩ ∧
      ((r.sadd tagKey m).expire tagKey 604800).now = r.now := by
  refine ⟨?_, by rw [now_expire, now_sadd]⟩
  by_cases hk : tagKey = k
  · subst hk
    rw [if_pos rfl, sadd_of_string h]
    exact findSlot_expire h
  · rw [if_neg hk, findSlot_expire_ne (Ne.symm hk), findSlot_sadd_ne (Ne.symm hk)]
    exact h

/-- What `tagKeys` does to the key space. -/
def tagging (p : Platform N) (cfg : RedisCacheConfig) (key : Text) (tags : List Text)
    (r : Redis) : Redis :=
  tags.foldl (fun r tag =>
    (r.sadd (getTagKey p cfg tag) (p.utf8 key)).expire (getTagKey p cfg tag) 604800) r

theorem findSlot_tagging {r : Redis} {k : List UInt8} {s : Text} {ttl : Option Nat}
    (h : r.findSlot k = some ⟨.string s, ttl⟩) (p : Platform N) (cfg : RedisCacheConfig)
    (key : Text)
    (tags : List Text) : (tagging p cfg key tags r).findSlot k = some
        ⟨.string s, if ∃ tag ∈ tags, getTagKey p cfg tag = k then some (r.now + tagLife) else ttl⟩ ∧
      (tagging p cfg key tags r).now = r.now := by
  induction tags generalizing r ttl with
  | nil =>
    refine ⟨?_, rfl⟩
    rw [if_neg (by simp)]
    exact h
  | cons tag tags ih =>
    obtain ⟨hslot, hnow⟩ := findSlot_tagged h (getTagKey p cfg tag) (p.utf8 key)
    obtain ⟨hrest, hrestNow⟩ := ih hslot
    rw [tagging, List.foldl_cons]
    refine ⟨hrest.trans ?_, hrestNow.trans hnow⟩
    rw [hnow]
    by_cases htag : getTagKey p cfg tag = k <;> by_cases htags : ∃ tag ∈ tags,
      getTagKey p cfg tag = k <;> simp [htag, htags]

def OwnTag (p : Platform N) (cfg : RedisCacheConfig) (key : Text) (options : CacheOptions) : Prop :=
  ∃ tag ∈ options.tags.getD [], getTagKey p cfg tag = getFullKey p cfg (normalizeKey key)

instance : Decidable (OwnTag p cfg key options) :=
  inferInstanceAs (Decidable (∃ tag ∈ options.tags.getD [],
    getTagKey p cfg tag = getFullKey p cfg (normalizeKey key)))

theorem set_eq (p : Platform N) (cfg : RedisCacheConfig) (key : Text) (value : JsonValue N)
    (options : CacheOptions) (w : RedisCache) :
    ∃ e : Entry N, e.Holds p value ∧ set p cfg key value options w = some (.ok (), {
      redis := tagging p cfg (normalizeKey key) (options.tags.getD [])
        (tagging p cfg (normalizeKey key) (options.tags.getD [])
          (store w.redis (getFullKey p cfg (normalizeKey key)) options (p.stringify (e.toJson p))))
      stats := w.stats.recordSet }) := by
  let serialized := p.stringify value.1
  let size := (p.utf8 serialized).length
  let compressed := options.compress != some false && cfg.enableCompression &&
    decide (cfg.compressionThreshold < size)
  -- as `doSet` has it
  let e : Entry N :=
    { value := if compressed then ⟨.str (p.deflate serialized), .str _⟩ else value
      key := normalizeKey key, createdAt := w.redis.now, expiresAt :=
      options.expiresAt w.redis.now, size
      tags := options.tags, compressed }
  refine ⟨e, ?_, ?_⟩
  · unfold Entry.Holds
    split_ifs with hc
    · exact congrArg Subtype.val (if_pos hc)
    · exact if_neg hc
  · obtain ⟨ttl, tags, compress⟩ := options
    cases tags <;> rfl

/-- **What `set` leaves under its key**, and up to when. -/
theorem set_stored (p : Platform N) (cfg : RedisCacheConfig) (key : Text) (value : JsonValue N)
    (options : CacheOptions) (w : RedisCache) :
    ∃ w', set p cfg key value options w = some (.ok (), w') ∧ ∃ e : Entry N, e.Holds p value ∧
      w'.redis.findSlot (getFullKey p cfg (normalizeKey key)) = some {
        cell := .string (p.stringify (e.toJson p))
        expireAt := if OwnTag p cfg key options then some (w.redis.now + tagLife)
          else storedUntil options w.redis.now } := by
  obtain ⟨e, he, hset⟩ := set_eq p cfg key value options w
  refine ⟨_, hset, e, he, ?_⟩
  obtain ⟨hslot, hnow⟩ := findSlot_store w.redis (getFullKey p cfg (normalizeKey key)) options
    (p.stringify (e.toJson p))
  obtain ⟨hslot₁, hnow₁⟩ := findSlot_tagging hslot p cfg (normalizeKey key) (options.tags.getD [])
  obtain ⟨hslot₂, -⟩ := findSlot_tagging hslot₁ p cfg (normalizeKey key) (options.tags.getD [])
  rw [hslot₂, hnow₁, hnow]
  by_cases hown : ∃ tag ∈ options.tags.getD [], getTagKey p cfg tag = getFullKey p cfg
    (normalizeKey key)
  · have hown' : OwnTag p cfg key options := hown
    simp [if_pos hown, if_pos hown']
  · have hown' : ¬ OwnTag p cfg key options := hown
    simp [if_neg hown, if_neg hown']

/-! ## There and back -/

def later (w : RedisCache) (t : Nat) : RedisCache := { w with redis := w.redis.tick t }

theorem ownTag_iff (hutf8 : SendsUtf8 p) : OwnTag p cfg key options ↔ ∃ tag ∈ options.tags.getD
    [], normalizeKey key = text "tags:" ++ tag := by
  refine exists_congr fun tag => and_congr_right fun _ => ?_
  rw [eq_comm, getFullKey_eq_getTagKey hutf8]

theorem kept_iff {now t : Nat} (hbefore : ∀ ttl, options.ttl = some ttl → 0 < ttl → t < now + ttl)
    {cell : Cell Text (List UInt8)} :
    Slot.kept t (⟨cell, if OwnTag p cfg key options then some (now + tagLife)
      else storedUntil options now⟩ : Slot Text (List UInt8)) = true ↔
    ¬ OwnTag p cfg key options ∨ t ≤ now + tagLife := by
  by_cases hown : OwnTag p cfg key options
  · simp [Slot.kept, hown]
  · simp only [hown, if_false, not_false_eq_true, true_or, iff_true]
    unfold storedUntil
    cases httl : options.ttl? with
    | none => rfl
    | some ttl =>
      obtain ⟨hsome, hne⟩ := Option.filter_eq_some_iff.mp httl
      have hlt := hbefore ttl hsome (Nat.pos_of_ne_zero (of_decide_eq_true hne))
      -- Redis is given whole seconds, rounded up
      have hseconds : t ≤ now + (ttl + 999) / 1000 * 1000 := by omega
      exact decide_eq_true hseconds

/-- **What was set is what is got, before its time to live is over**, unless the key is `tags:` and
one of the entry's own tags, and seven days have passed; then there is nothing. -/
theorem get_after_set (p : Platform N) (hutf8 : SendsUtf8 p) (cfg : RedisCacheConfig)
    (w : RedisCache) (key : Text) (value : JsonValue N) (options : CacheOptions) (depth t : Nat)
    (hbefore : ∀ ttl, options.ttl = some ttl → 0 < ttl → t < w.redis.now + ttl) :
    ∃ w₁ w₂ found, set p cfg key value options w = some (.ok (), w₁) ∧
      get p cfg (depth + 1) key (later w₁ t) = some (.ok (some found), w₂) ∧
      (found = value.1 ↔ value.1 = .null ∨
        (∀ tag ∈ options.tags.getD [], normalizeKey key ≠ text "tags:" ++ tag) ∨
        t ≤ w.redis.now + 604800 * 1000) := by
  have hown : (∀ tag ∈ options.tags.getD [], normalizeKey key ≠ text "tags:" ++ tag) ↔
      ¬ OwnTag p cfg key options := by
    rw [ownTag_iff hutf8]
    simp
  obtain ⟨w₁, hset, e, he, hslot⟩ := set_stored p cfg key value options w
  have hfind := find_tick hslot t
  rw [hown]
  by_cases hkept : ¬ OwnTag p cfg key options ∨ t ≤ w.redis.now + tagLife
  · rw [if_pos ((kept_iff hbefore).mpr hkept)] at hfind
    refine ⟨w₁, _, value.1, hset, get_of_holds he depth hfind, ?_⟩
    exact iff_of_true rfl (.inr hkept)
  · rw [if_neg fun h => hkept ((kept_iff hbefore).mp h)] at hfind
    have hmiss : ∀ s, (later w₁ t).redis.find (getFullKey p cfg (normalizeKey key)) ≠
      some (.string s) := by
      intro s hs
      simp [later, hfind] at hs
    refine ⟨w₁, _, .null, hset, get_missing depth hmiss, ?_⟩
    constructor
    · exact fun h => .inl h.symm
    · rintro (h | h)
      · exact h.symm
      · exact absurd h hkept

theorem get_after_set_setTrue :
    ∃ w₁ w₂ found, set wired defaults (text "k") ⟨.bool true, .bool true⟩ { ttl := some 5000 }
        init = some (.ok (), w₁) ∧
      get wired defaults 1 (text "k") (later w₁ 4999) = some (.ok (some found), w₂) ∧
      (found = .bool true ↔ (.bool true : Json Unit) = .null ∨
        (∀ tag ∈ ([] : List Text), normalizeKey (text "k") ≠ text "tags:" ++ tag) ∨
        4999 ≤ 604800 * 1000) :=
  get_after_set wired (fun _ => rfl) defaults init (text "k") ⟨.bool true, .bool true⟩
    { ttl := some 5000 } 0 4999 (by
      intro ttl httl _
      cases httl
      decide)

/-- The service after `true` was set under `tags:t`, with the tag `t` and no time to live. -/
noncomputable def ownTagged : RedisCache :=
  (after (set wired defaults (text "tags:t") ⟨.bool true, .bool true⟩ { tags := some [text "t"] })
    init).getD init

theorem own_tag_forgotten :
    set wired defaults (text "tags:t") ⟨.bool true, .bool true⟩ { tags := some [text "t"] } init =
      some (.ok (), ownTagged) ∧
    get wired defaults 1 (text "tags:t") (later ownTagged (604800 * 1000 + 1)) =
      some (.ok (some .null), { later ownTagged (604800 * 1000 + 1) with
        stats := ownTagged.stats.recordMiss }) := by
  refine ⟨rfl, get_missing 0 fun s hs => ?_⟩
  have hgone : ((later ownTagged (604800 * 1000 + 1)).redis.find
      (getFullKey wired defaults (normalizeKey (text "tags:t")))).isNone = true := by decide +kernel
  simp [hs] at hgone

end Bridge.Cache.RedisCache
