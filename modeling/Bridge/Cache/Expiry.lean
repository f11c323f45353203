import Bridge.Cache.RoundTrip

/-!
# An entry after its time to live

`set` gives Redis the time to live in whole seconds, rounded up. The entry has the exact date as
well, but that comes back from JSON as a string, and a string is never before now. So it is Redis
alone that ends an entry, up to a second late. And what lies under `tags:t` is given seven days more
whenever some key is tagged with `t`.
-/

namespace Bridge.Cache.RedisCache

open Lib Async List Option

variable {N : Type} {p : Platform N} {cfg : RedisCacheConfig} {w w' : RedisCache}
  {key : Text} {value : JsonValue N} {options : CacheOptions}

/-- What may be done after `set`: anything but to store something else under the key. -/
def Spares (p : Platform N) (cfg : RedisCacheConfig) (key : Text) (_ : RedisCache) : Action N → Prop
  | .set key' _ _ => getFullKey p cfg (normalizeKey key') ≠ getFullKey p cfg (normalizeKey key)
  | .mset entries => ∀ x ∈ entries, getFullKey p cfg x.key ≠ getFullKey p cfg (normalizeKey key)
  | .delete _ => True
  | .tick _ => True

/-! ## What nobody puts off -/

section Due

variable {k : List UInt8} {bound : Nat}

def Due (k : List UInt8) (bound : Nat) (w : RedisCache) : Prop := w.redis.DueBy k bound

theorem kept_due : Kept (Due k bound) where
  stats _ hw := hw
  erase _ hw := hw.erase
  srem _ _ hw := hw.srem

theorem Due.store_ne (h : Due k bound w) {k' : List UInt8} (hk : k' ≠ k) {s : Text}
    {stats : CacheStats} : Due k bound ⟨store w.redis k' options s, stats⟩ := by
  unfold Due RedisCache.store
  split
  · exact h.put_ne hk.symm
  · exact h.put_ne hk.symm

theorem preserves_mset_due {entries : List (Item N)}
    (hne : ∀ x ∈ entries, getFullKey p cfg x.key ≠ k) :
    Preserves (Due k bound) (mset p cfg entries) := by
  refine preserves_modify fun w hw => ?_
  induction entries generalizing w with
  | nil => exact hw
  | cons x rest ih =>
    have hput : Due k bound (Item.put p cfg w x) := hw.store_ne (hne x mem_cons_self)
    exact ih (fun y hy => hne y (mem_cons_of_mem x hy)) _ hput

theorem Due.step {a : Action N} (h : Due (getFullKey p cfg (normalizeKey key)) bound w)
    (htag : ∀ tag, getFullKey p cfg (normalizeKey key) ≠ getTagKey p cfg tag)
    (hspares : Spares p cfg key w a) (hs : step p cfg w a = some w') :
    Due (getFullKey p cfg (normalizeKey key)) bound w' := by
  cases a with
  | set key' value options =>
    refine after_of_preserves (kept_due.set ?_ ?_) h hs
    · intro w e _ hw
      exact hw.store_ne hspares
    · intro w tag _ hw
      exact hw.sadd.expire_ne (htag tag)
  | mset entries => exact after_of_preserves (preserves_mset_due hspares) h hs
  | delete key' => exact after_of_preserves kept_due.delete h hs
  | tick t =>
    simp only [RedisCache.step] at hs
    split at hs
    · rename_i hle
      cases hs
      exact h.tick hle
    · cases hs

end Due

theorem getFullKey_plain_ne (hutf8 : SendsUtf8 p) (cfg : RedisCacheConfig) (tag : Text) :
    getFullKey p cfg (normalizeKey (text "k")) ≠ getTagKey p cfg tag := by
  intro h
  have hkey := (getFullKey_eq_getTagKey hutf8).mp h
  have hk : normalizeKey (text "k") = [0x6B] := by decide
  rw [hk] at hkey
  exact absurd (cons.inj hkey).1 (by decide)

theorem prolonged (hutf8 : SendsUtf8 p) {tag s : Text} {e : Nat}
    (hkey : getFullKey p cfg (normalizeKey key) = getTagKey p cfg tag)
    (h : w.redis.findSlot (getTagKey p cfg tag) = some ⟨.string s, some e⟩) :
    ∃ w', Reaches (step p cfg) (Spares p cfg key) w w' ∧
      w'.redis.findSlot (getTagKey p cfg tag) = some ⟨.string s, some (e + tagLife)⟩ := by
  obtain ⟨hlookup, hkept⟩ := filter_eq_some_iff.mp h
  have hnow : w.redis.now ≤ e := of_decide_eq_true hkept
  have hticked : step p cfg w (.tick e : Action N) = some (later w e) := if_pos hnow
  have hplain := getFullKey_plain_ne hutf8 cfg tag
  obtain ⟨entry, -, hset⟩ := set_eq p cfg (text "k") ⟨.null, .null⟩ { tags := some [tag] }
    (later w e)
  -- the entry is still there, and another key is stored next to it
  have hslot : (later w e).redis.findSlot (getTagKey p cfg tag) = some ⟨.string s, some e⟩ :=
    filter_eq_some_iff.mpr ⟨hlookup, decide_eq_true (Nat.le_refl e)⟩
  have hstored : (store (later w e).redis (getFullKey p cfg (normalizeKey (text "k")))
    { tags := some [tag] }
      (p.stringify (entry.toJson p))).findSlot (getTagKey p cfg tag) = some ⟨.string s, some e⟩ :=
    (ExpiringKeys.findSlot_put_ne hplain.symm).trans hslot
  obtain ⟨hfirst, hfirstNow⟩ := findSlot_tagging hstored p cfg (normalizeKey (text "k")) [tag]
  obtain ⟨hsecond, -⟩ := findSlot_tagging hfirst p cfg (normalizeKey (text "k")) [tag]
  refine ⟨_, .tail (.single (a := .tick e) trivial hticked)
    (a := .set (text "k") ⟨.null, .null⟩ { tags := some [tag] }) ?_
    (congrArg (Option.map Prod.snd) hset), ?_⟩
  · exact fun heq => hplain (heq.trans hkey)
  · refine hsecond.trans ?_
    rw [if_pos ⟨tag, mem_singleton_self tag, rfl⟩, hfirstNow]
    rfl

theorem prolonged_many (hutf8 : SendsUtf8 p) {tag s : Text} {e : Nat}
    (hkey : getFullKey p cfg (normalizeKey key) = getTagKey p cfg tag)
    (h : w.redis.findSlot (getTagKey p cfg tag) = some ⟨.string s, some e⟩) (n : Nat) :
    ∃ w', Reaches (step p cfg) (Spares p cfg key) w w' ∧
      w'.redis.findSlot (getTagKey p cfg tag) = some ⟨.string s, some (e + n * tagLife)⟩ := by
  induction n with
  | zero =>
    rw [Nat.zero_mul]
    exact ⟨w, .refl, h⟩
  | succ n ih =>
    obtain ⟨w₁, hr₁, hslot₁⟩ := ih
    obtain ⟨w₂, hr₂, hslot₂⟩ := prolonged hutf8 hkey hslot₁
    refine ⟨w₂, hr₁.trans hr₂, ?_⟩
    rw [hslot₂, Nat.succ_mul, Nat.add_assoc]

theorem get_at_last {e : Entry N} (he : e.Holds p value) (depth : Nat) {t : Nat}
    (h : w.redis.findSlot (getFullKey p cfg (normalizeKey key)) =
      some ⟨.string (p.stringify (e.toJson p)), some t⟩) :
    get p cfg (depth + 1) key (later w t) =
      some (.ok (some value.1), { later w t with stats := w.stats.recordHit }) := by
  have hkept := decide_eq_true (Nat.le_refl t)
  exact get_of_holds he depth ((ExpiringKeys.find_tick h t).trans (if_pos hkept))

/-- The entry is not returned: `get` counts a miss. -/
def Missed (p : Platform N) (cfg : RedisCacheConfig) (depth : Nat) (key : Text)
    (w : RedisCache) : Prop :=
  get p cfg depth key w = some (.ok (some .null), { w with stats := w.stats.recordMiss })

theorem not_missed_at_last {e : Entry N} (he : e.Holds p value) (depth : Nat) {t : Nat}
    (h : w.redis.findSlot (getFullKey p cfg (normalizeKey key)) =
      some ⟨.string (p.stringify (e.toJson p)), some t⟩) :
    ¬ Missed p cfg (depth + 1) key (later w t) := by
  intro hmissed
  have hstats : w.stats.recordHit = w.stats.recordMiss :=
    congrArg (fun r => r.2.stats) (some.inj ((get_at_last he depth h).symm.trans hmissed))
  have hhits : w.stats.hits + 1 = w.stats.hits := congrArg CacheStats.hits hstats
  omega

/-- **An entry is never returned later than its time to live** exactly if that is in whole seconds
and the key does not begin with `tags:`. -/
theorem set_expires_iff (p : Platform N) (hutf8 : SendsUtf8 p) (cfg : RedisCacheConfig)
    (w : RedisCache)
    (key : Text) (value : JsonValue N) (options : CacheOptions) {ttl : Nat}
      (httl : options.ttl = some ttl)
    (hpos : 0 < ttl) (depth : Nat) : ∃ w₁, set p cfg key value options w = some (.ok (), w₁) ∧
      ((∀ w₂, Reaches (step p cfg) (Spares p cfg key) w₁ w₂ → w.redis.now + ttl < w₂.redis.now →
        Missed p cfg (depth + 1) key w₂) ↔
      1000 ∣ ttl ∧ ¬ text "tags:" <+: normalizeKey key) := by
  obtain ⟨w₁, hset, e, he, hslot⟩ := set_stored p cfg key value options w
  have hsome : options.ttl? = some ttl :=
    filter_eq_some_iff.mpr ⟨httl, decide_eq_true (Nat.ne_of_gt hpos)⟩
  have huntil : storedUntil options w.redis.now =
    some (w.redis.now + (ttl + 999) / 1000 * 1000) := by
    rw [storedUntil, hsome, map_some]
  refine ⟨w₁, hset, ?_, ?_⟩
  · intro hmissed
    have hplain : ¬ text "tags:" <+: normalizeKey key := by
      rintro ⟨tag, htag⟩
      have hkey : getFullKey p cfg (normalizeKey key) = getTagKey p cfg tag :=
        (getFullKey_eq_getTagKey hutf8).mpr htag.symm
      -- some date from `w` on, seven days or the time to live
      obtain ⟨t, ht, hat⟩ : ∃ t, w.redis.now ≤ t ∧ (if OwnTag p cfg key options
          then some (w.redis.now + tagLife) else storedUntil options w.redis.now) = some t := by
        split
        · exact ⟨_, Nat.le_add_right _ _, rfl⟩
        · exact ⟨_, Nat.le_add_right _ _, huntil⟩
      rw [hat, hkey] at hslot
      obtain ⟨w₂, hr, hslot₂⟩ := prolonged_many hutf8 hkey hslot (ttl + 1)
      have hnow : w₂.redis.now ≤ t + (ttl + 1) * tagLife :=
        of_decide_eq_true (filter_eq_some_iff.mp hslot₂).2
      rw [← hkey] at hslot₂
      refine not_missed_at_last he depth hslot₂
        (hmissed _ (.tail hr (a := .tick _) trivial (if_pos hnow)) ?_)
      show w.redis.now + ttl < t + (ttl + 1) * tagLife
      unfold tagLife
      omega
    refine ⟨?_, hplain⟩
    have hown : ¬ OwnTag p cfg key options := by
      rw [ownTag_iff hutf8]
      rintro ⟨tag, -, htag⟩
      exact hplain ⟨tag, htag.symm⟩
    rw [if_neg hown, huntil] at hslot
    by_contra hdvd
    have hnow := of_decide_eq_true (filter_eq_some_iff.mp hslot).2
    refine not_missed_at_last he depth hslot
      (hmissed _ (.single (a := .tick _) trivial (if_pos hnow)) ?_)
    show w.redis.now + ttl < w.redis.now + (ttl + 999) / 1000 * 1000
    omega
  · rintro ⟨hdvd, hplain⟩ w₂ hr hlate
    have htag : ∀ tag, getFullKey p cfg (normalizeKey key) ≠ getTagKey p cfg tag := by
      intro tag htag
      exact hplain ⟨tag, ((getFullKey_eq_getTagKey hutf8).mp htag).symm⟩
    have hown : ¬ OwnTag p cfg key options := by
      rintro ⟨tag, -, heq⟩
      exact htag tag heq.symm
    have hdue : Due (getFullKey p cfg (normalizeKey key)) (w.redis.now + ttl) w₁ := by
      intro s t hs
      rw [hslot, if_neg hown, huntil] at hs
      cases hs
      exact ⟨_, by omega, rfl⟩
    have hdue₂ := hr.invariant (Due _ _) hdue fun hw hspares hs => hw.step htag hspares hs
    exact get_missing depth fun s => hdue₂.find_ne hlate

theorem set_expires_iff_second :
    ∃ w₁, set wired defaults (text "k") ⟨.bool true, .bool true⟩ { ttl := some 1000 } init =
        some (.ok (), w₁) ∧
      ((∀ w₂, Reaches (step wired defaults) (Spares wired defaults (text "k")) w₁ w₂ →
        1000 < w₂.redis.now → Missed wired defaults 1 (text "k") w₂) ↔
      1000 ∣ 1000 ∧ ¬ text "tags:" <+: normalizeKey (text "k")) := by
  obtain ⟨w₁, hset, hiff⟩ := set_expires_iff wired (fun _ => rfl) defaults init (text "k")
    ⟨.bool true, .bool true⟩ { ttl := some 1000 } rfl (by decide) 0
  exact ⟨w₁, hset, hiff⟩

theorem returned_too_late :
    ∃ w₁ w₂, set wired defaults (text "k") ⟨.bool true, .bool true⟩ { ttl := some 1500 } init =
        some (.ok (), w₁) ∧ init.redis.now + 1500 < 1600 ∧
      get wired defaults 1 (text "k") (later w₁ 1600) = some (.ok (some (.bool true)), w₂) := by
  obtain ⟨w₁, hset, e, he, hslot⟩ := set_stored wired defaults (text "k") ⟨.bool true, .bool true⟩
    { ttl := some 1500 } init
  have hown : ¬ OwnTag wired defaults (text "k") { ttl := some 1500 } := by
    rintro ⟨tag, htag, -⟩
    exact absurd htag not_mem_nil
  have huntil : storedUntil { ttl := some 1500 } init.redis.now = some 2000 := rfl
  rw [if_neg hown, huntil] at hslot
  have hkept : Slot.kept 1600 (⟨.string (wired.stringify (e.toJson wired)), some 2000⟩ :
      Slot Text (List UInt8)) = true := rfl
  have hget : get wired defaults 1 (text "k") (later w₁ 1600) = _ :=
    get_of_holds he 0 ((ExpiringKeys.find_tick hslot 1600).trans (if_pos hkept))
  exact ⟨w₁, _, hset, by decide, hget⟩

end Bridge.Cache.RedisCache
