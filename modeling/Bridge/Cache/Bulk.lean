import Bridge.Cache.Frames
import Bridge.Cache.Repair
import Bridge.Lib.Run

/-!
# `mget` against `get`

`mget` re-implements `get` for many keys, and differs from it in three places: it does not normalise
the keys, it does not decompress, and it compares the date in the entry with the clock, which `get`
tries to do with a string and so never does. Redis keeps an entry up to the end of the *second* its
time to live ends in, so between the date and that end the entry is there for `get` and not for
`mget`.
-/

namespace Bridge.Cache.RedisCache

open Lib Async List ExpiringKeys Option

variable {N : Type} {p : Platform N} {cfg : RedisCacheConfig} {w w' : RedisCache}

/-! ## An entry, read back -/

namespace Entry

variable (e : Entry N)

theorem wellFormed_metadata : (e.metadata p).WellFormed := by
  refine .obj ?_ ?_
  · cases e.expiresAt <;> cases e.tags <;>
      simp only [map_none, map_some, toList_none, toList_some,
        append_nil, cons_append, nil_append, map_cons, map_nil] <;>
      decide
  · intro f hf
    have htags : ∀ tags : List Text, (Json.arr (tags.map Json.str) : Json N).WellFormed := by
      intro tags
      refine .arr fun x hx => ?_
      obtain ⟨t, -, rfl⟩ := mem_map.mp hx
      exact .str t
    simp only [mem_append, mem_cons, not_mem_nil, or_false, mem_toList, map_eq_some_iff] at hf
    obtain (((rfl | rfl) | ⟨t, -, rfl⟩) | (rfl | rfl | rfl)) | ⟨tags, -, rfl⟩ := hf
    · exact .str _
    · exact p.wellFormed_toJSON _
    · exact p.wellFormed_toJSON _
    · exact .num _
    · exact p.wellFormed_toJSON _
    · exact .num _
    · exact htags tags

theorem wellFormed_toJson : (e.toJson p).WellFormed := by
  refine .obj ?_ ?_
  · cases e.compressed <;>
      simp only [Bool.false_eq_true, if_false, if_true, append_nil, cons_append,
        nil_append, map_cons, map_nil] <;>
      decide
  · intro f hf
    cases hc : e.compressed with
    | false =>
      simp only [hc, Bool.false_eq_true, if_false, append_nil, mem_cons,
        not_mem_nil, or_false] at hf
      obtain rfl | rfl := hf
      · exact e.value.2
      · exact e.wellFormed_metadata
    | true =>
      simp only [hc, if_true, mem_append, mem_cons, not_mem_nil, or_false] at hf
      obtain (rfl | rfl) | rfl := hf
      · exact e.value.2
      · exact e.wellFormed_metadata
      · exact .bool true

theorem prop_value : (e.toJson p).prop (text "value") = some e.value.1 := rfl

theorem prop_metadata : (e.toJson p).prop (text "metadata") = some (e.metadata p) := rfl

theorem prop_compressed : (e.toJson p).prop (text "compressed") =
    if e.compressed then some (.bool true) else none := by
  cases hc : e.compressed <;> simp only [toJson, hc] <;> rfl

theorem prop_expiresAt : (e.metadata p).prop (text "expiresAt") = e.expiresAt.map p.toJSON := by
  cases hx : e.expiresAt <;> cases ht : e.tags <;> simp only [metadata, hx, ht] <;> rfl

theorem parse_toJson : p.parse (p.stringify (e.toJson p)) = some (e.toJson p) :=
  p.parse_print e.wellFormed_toJson

theorem decode_eq : decode p (p.stringify (e.toJson p)) =
    if e.compressed then
      ((p.inflate (some e.value.1)).bind p.parse).map fun v => (e.toJson p).setProp (text "value") v
    else some (e.toJson p) := by
  have hprop : ((e.toJson p).prop (text "compressed")).any (·.truthy p.isZero) = e.compressed := by
    rw [prop_compressed]
    cases e.compressed <;> rfl
  simp only [decode, parse_toJson]
  split
  · rename_i h
    cases h
  · rename_i h
    simp [toJson] at h
  · rename_i j _ h
    cases h
    rw [hprop, prop_value]

theorem decode_toJson (hc : e.compressed = false) :
    decode p (p.stringify (e.toJson p)) = some (e.toJson p) := by
  rw [decode_eq, hc]
  rfl

theorem decode_compressed (hc : e.compressed = true) {v : JsonValue N}
    (hv : e.value.1 = .str (p.deflate (p.stringify v.1))) :
    decode p (p.stringify (e.toJson p)) = some ((e.toJson p).setProp (text "value") v.1) := by
  have hvalue : (p.inflate (some e.value.1)).bind p.parse = some v.1 := by
    rw [hv, Platform.stringify, p.inflate_deflate v.2]
    exact p.parse_print v.2
  rw [decode_eq, hc, hvalue]
  rfl

def Payload (p : Platform N) (e : Entry N) : Prop :=
  e.compressed = true → ∃ v : JsonValue N, e.value.1 = .str (p.deflate (p.stringify v.1))

theorem decode_isSome (he : e.Payload p) : (decode p (p.stringify (e.toJson p))).isSome = true := by
  cases hc : e.compressed with
  | false => rw [e.decode_toJson hc]; rfl
  | true =>
    obtain ⟨v, hv⟩ := he hc
    rw [e.decode_compressed hc hv]
    rfl

theorem eq_of_stringify {e e' : Entry N}
    (h : p.stringify (e.toJson p) = p.stringify (e'.toJson p)) : e.toJson p = e'.toJson p := by
  have hparse := congrArg p.parse h
  rw [parse_toJson, parse_toJson] at hparse
  exact some.inj hparse

end Entry

/-! ## What the service stores

All texts in the key space are entries that `set` or `mset` wrote. -/

def Written (p : Platform N) (w : RedisCache) : Prop :=
  ∀ k s, w.redis.find k = some (.string s) →
    ∃ e : Entry N, e.Payload p ∧ s = p.stringify (e.toJson p)

theorem Written.fewer (h : Written p w) (hf : w'.redis.Fewer w.redis) : Written p w' :=
  fun k s hs => h k s (hf k s hs)

theorem Written.store (h : Written p w) {k : List UInt8} {options : CacheOptions} {e : Entry N}
    (he : e.Payload p) {stats : CacheStats} :
    Written p ⟨store w.redis k options (p.stringify (e.toJson p)), stats⟩ := by
  intro k' s hs
  have hput : s = p.stringify (e.toJson p) ∨ w.redis.find k' = some (.string s) := by
    unfold RedisCache.store at hs
    split at hs
    · exact find_string_put hs
    · exact find_string_put hs
  obtain rfl | hold := hput
  · exact ⟨e, he, rfl⟩
  · exact h k' s hold

theorem kept_written : Kept (Written p) where
  stats _ hw := hw.fewer .refl
  erase _ hw := hw.fewer fewer_erase
  srem _ _ hw := hw.fewer fewer_srem

theorem preserves_set {key : Text} {value : JsonValue N} {options : CacheOptions} :
    Preserves (Written p) (set p cfg key value options) := by
  apply kept_written.set
  · intro w e he hw
    exact hw.store fun hc => ⟨value, he hc⟩
  · intro w tag _ hw
    exact hw.fewer (fewer_expire.trans fewer_sadd)

theorem preserves_mset {entries : List (Item N)} : Preserves (Written p) (mset p cfg entries) := by
  refine preserves_modify fun w hw => ?_
  induction entries generalizing w with
  | nil => exact hw
  | cons x rest ih =>
    refine ih _ (hw.store ?_)
    intro hc
    simp [Item.entry] at hc

theorem written_init : Written p init := by
  intro k s hs
  simp [init, ExpiringKeys.empty, ExpiringKeys.find, ExpiringKeys.findSlot] at hs

/-- **Every text that a run leaves in the key space is an entry.** -/
theorem written_step {a : Action N} (h : Written p w) (hs : step p cfg w a = some w') :
    Written p w' := by
  cases a with
  | set key value options => exact after_of_preserves preserves_set h hs
  | mset entries => exact after_of_preserves preserves_mset h hs
  | delete key => exact after_of_preserves kept_written.delete h hs
  | tick t =>
    simp only [step] at hs
    split at hs
    · rename_i hle
      cases hs
      exact h.fewer (fewer_tick hle)
    · cases hs

/-! ## One key -/

section OneKey

variable {key : Text} {e : Entry N} (depth : Nat)

theorem isEmpty_stringify_toJson : (p.stringify (e.toJson p)).isEmpty = false := rfl

theorem not_before : ((e.expiresAt.map p.toJSON).any fun x =>
    x.truthy p.isZero && p.before x w.redis.now) = false := by
  cases e.expiresAt with
  | none => rfl
  | some t =>
    simp only [map_some, any_some, Bool.and_eq_false_imp]
    exact p.before_toJSON t _

theorem not_dateBefore (hx : ∀ t, e.expiresAt = some t → w.redis.now ≤ t) :
    ((e.expiresAt.map p.toJSON).any fun x =>
      x.truthy p.isZero && p.dateBefore x w.redis.now) = false := by
  cases ht : e.expiresAt with
  | none => rfl
  | some t =>
    simp only [map_some, any_some, Bool.and_eq_false_imp]
    intro htruthy
    rw [p.dateBefore_toJSON t _ htruthy]
    exact decide_eq_false (Nat.not_lt.mpr (hx t ht))

theorem get_decoded {data : Text} {j v : Json N}
    (hf : w.redis.find (getFullKey p cfg (normalizeKey key)) = some (.string data))
    (hne : data.isEmpty = false) (hd : decode p data = some j) (htruthy : j.truthy p.isZero = true)
    (hmetadata : j.prop (text "metadata") = some (e.metadata p))
    (hvalue : j.prop (text "value") = some v) :
    get p cfg (depth + 1) key w = some (.ok (some v), { w with stats := w.stats.recordHit }) := by
  refine tryCatch_ok ?_
  rw [bind_ok (doGet_decoded hf hne hd)]
  have hread : ofExcept (readProp (j.prop (text "metadata")) (text "expiresAt")) w =
      some (.ok (e.expiresAt.map p.toJSON), w) := by
    rw [hmetadata, ← e.prop_expiresAt]
    rfl
  have hprim : ¬ (j.prop (text "metadata")).any (·.isPrimitive) = true := by
    rw [hmetadata]
    simp [Entry.metadata, Json.isPrimitive]
  rw [if_neg (by simp [htruthy]), bind_ok hread, bind_ok rfl, if_neg (by simp [not_before]),
    if_neg hprim, hvalue]
  rfl

theorem get_entry (hc : e.compressed = false)
    (hf : w.redis.find (getFullKey p cfg (normalizeKey key)) =
      some (.string (p.stringify (e.toJson p)))) :
    get p cfg (depth + 1) key w =
      some (.ok (some e.value.1), { w with stats := w.stats.recordHit }) :=
  get_decoded depth hf isEmpty_stringify_toJson (e.decode_toJson hc) rfl e.prop_metadata
    e.prop_value

theorem get_compressed (hc : e.compressed = true) {v : JsonValue N}
    (hv : e.value.1 = .str (p.deflate (p.stringify v.1)))
    (hf : w.redis.find (getFullKey p cfg (normalizeKey key)) =
      some (.string (p.stringify (e.toJson p)))) :
    get p cfg (depth + 1) key w = some (.ok (some v.1), { w with stats := w.stats.recordHit }) := by
  have hmetadata : ((e.toJson p).setProp (text "value") v.1).prop (text "metadata") =
      some (e.metadata p) := by
    simp only [Entry.toJson, hc]
    rfl
  have hvalue : ((e.toJson p).setProp (text "value") v.1).prop (text "value") = some v.1 := by
    simp only [Entry.toJson, hc]
    rfl
  exact get_decoded depth hf isEmpty_stringify_toJson (e.decode_compressed hc hv) rfl
    hmetadata hvalue

theorem get_missing
    (hf : ∀ s, w.redis.find (getFullKey p cfg (normalizeKey key)) ≠ some (.string s)) :
    get p cfg (depth + 1) key w =
      some (.ok (some .null), { w with stats := w.stats.recordMiss }) := by
  cases hfind : w.redis.find (getFullKey p cfg (normalizeKey key)) with
  | none => exact get_of_other (doGet_absent depth hfind) rfl
  | some cell =>
    cases cell with
    | string s => exact absurd hfind (hf s)
    | set members => exact tryCatch_error (bind_error (doGet_set depth hfind))

theorem mgetOne_entry (hx : ∀ t, e.expiresAt = some t → w.redis.now ≤ t) :
    mgetOne p cfg depth key (some (p.stringify (e.toJson p))) w =
      some (.ok (some e.value.1), { w with stats := w.stats.recordHit }) := by
  have hsome : (some (p.stringify (e.toJson p))).filter (fun s => !s.isEmpty) =
      some (p.stringify (e.toJson p)) := rfl
  have hmeta : ofExcept (readProp (some (e.toJson p)) (text "metadata")) w =
      some (.ok (some (e.metadata p)), w) := by
    rw [← e.prop_metadata]
    rfl
  have hread : ofExcept (readProp (some (e.metadata p)) (text "expiresAt")) w =
      some (.ok (e.expiresAt.map p.toJSON), w) := by
    rw [← e.prop_expiresAt]
    rfl
  simp only [mgetOne, hsome, e.parse_toJson]
  refine tryCatch_ok ?_
  rw [bind_ok hmeta, bind_ok hread, bind_ok rfl, if_neg (by simp [not_dateBefore hx])]
  rfl

end OneKey

/-- `doDelete` asks `doGet`, which asks `doDelete` only about a text that does not parse: where all
texts are entries, `delete` comes back, and no run is cut short. -/
theorem delete_returns (hw : Written p w) (key : Text) : Returns (delete p cfg 2 key) w := by
  refine returns_delete ?_
  cases hfind : w.redis.find (getFullKey p cfg (normalizeKey key)) with
  | none => rw [Returns, doGet_absent 0 hfind]; rfl
  | some cell =>
    cases cell with
    | set members => rw [Returns, doGet_set 0 hfind]; rfl
    | string s =>
      obtain ⟨e, he, rfl⟩ := hw _ s hfind
      obtain ⟨j, hj⟩ := isSome_iff_exists.mp (e.decode_isSome he)
      rw [Returns, doGet_decoded hfind isEmpty_stringify_toJson hj]
      rfl

/-- The key is written as `get` normalises it, and an entry under it is neither compressed nor past
its date. -/
def Plain (p : Platform N) (cfg : RedisCacheConfig) (w : RedisCache) (key : Text) : Prop :=
  normalizeKey key = key ∧
    ∀ e : Entry N, w.redis.find (getFullKey p cfg key) = some (.string (p.stringify (e.toJson p))) →
      e.compressed = false ∧ ∀ t, e.expiresAt = some t → w.redis.now ≤ t

theorem Plain.one {key : Text} (h : Plain p cfg w key) (hw : Written p w) (depth : Nat) :
    ∃ r, (∃ w', get p cfg (depth + 1) key w = some (.ok r, w')) ∧
      ∀ w₁, w₁.redis = w.redis → ∃ w₂, w₂.redis = w.redis ∧
        mgetOne p cfg (depth + 1) key (w.redis.mget (getFullKey p cfg key)) w₁ =
          some (.ok r, w₂) := by
  obtain ⟨hkey, hplain⟩ := h
  cases hm : w.redis.mget (getFullKey p cfg key) with
  | some s =>
    have hfind := mget_eq_some.mp hm
    obtain ⟨e, -, rfl⟩ := hw _ s hfind
    obtain ⟨hc, hx⟩ := hplain e hfind
    refine ⟨some e.value.1, ⟨_, get_entry depth hc (by rw [hkey]; exact hfind)⟩, ?_⟩
    intro w₁ hw₁
    refine ⟨{ w₁ with stats := w₁.stats.recordHit }, hw₁, mgetOne_entry (depth + 1) ?_⟩
    rw [hw₁]
    exact hx
  | none =>
    have hmiss : ∀ s, w.redis.find (getFullKey p cfg (normalizeKey key)) ≠ some (.string s) := by
      intro s hs
      rw [hkey] at hs
      exact absurd (hm.symm.trans (mget_eq_some.mpr hs)) (by simp)
    refine ⟨some .null, ⟨_, get_missing depth hmiss⟩, ?_⟩
    intro w₁ hw₁
    exact ⟨{ w₁ with stats := w₁.stats.recordMiss }, hw₁, rfl⟩

theorem mgetAll_plain (hw : Written p w) (depth : Nat) {keys : List Text}
    (hk : ∀ key ∈ keys, Plain p cfg w key) : ∀ w₁, w₁.redis = w.redis → ∃ rs w₂,
      mgetAll p cfg (depth + 1) (keys.map fun key => (key, w.redis.mget (getFullKey p cfg key)))
        w₁ = some (.ok rs, w₂) ∧
      List.Forall₂ (fun key r => ∃ w', get p cfg (depth + 1) key w = some (.ok r, w')) keys rs := by
  induction keys with
  | nil => exact fun w₁ _ => ⟨[], w₁, rfl, .nil⟩
  | cons key rest ih =>
    intro w₁ hw₁
    obtain ⟨r, hget, hone⟩ := (hk key mem_cons_self).one hw depth
    obtain ⟨w₂, hw₂, hfirst⟩ := hone w₁ hw₁
    obtain ⟨rs, w₃, hrest, hall⟩ := ih (fun k hmem => hk k (mem_cons_of_mem key hmem)) w₂ hw₂
    refine ⟨r :: rs, w₃, ?_, .cons hget hall⟩
    rw [map_cons, mgetAll, bind_ok hfirst, bind_ok hrest]
    rfl

/-- **On plain keys `mget` is `get`, key by key.** -/
theorem mget_eq_get (p : Platform N) (cfg : RedisCacheConfig)
    (h : Reaches (step p cfg) (fun _ _ => True) init w) (depth : Nat) (keys : List Text)
    (hk : ∀ key ∈ keys, Plain p cfg w key) : ∃ rs w₁,
      mget p cfg (depth + 1) keys w = some (.ok rs, w₁) ∧
      List.Forall₂ (fun key r => ∃ w₂, get p cfg (depth + 1) key w = some (.ok r, w₂)) keys rs := by
  have hw : Written p w := h.invariant (Written p) written_init fun hi _ hs => written_step hi hs
  obtain ⟨rs, w₁, hall, hget⟩ := mgetAll_plain hw depth hk w rfl
  refine ⟨rs, w₁, ?_, hget⟩
  rw [mget, bind_ok rfl]
  exact hall

/-! ## A key with a capital letter -/

def trueUnder (key : Text) : Item Unit := ⟨key, ⟨.bool true, .bool true⟩, {}⟩

theorem expiresAt_trueUnder (key : Text) : ((trueUnder key).entry .sample 0).expiresAt = none := rfl

/-- The service after one `mset`, of `true` under the key. -/
noncomputable def msetTrue (key : Text) : RedisCache :=
  Item.put .sample (.resolve none none none) init (trueUnder key)

theorem step_msetTrue (key : Text) :
    step .sample (.resolve none none none) init (.mset [trueUnder key]) = some (msetTrue key) := rfl

theorem find_msetTrue (key : Text) :
    (msetTrue key).redis.find (getFullKey .sample (.resolve none none none) key) =
      some (.string (Platform.sample.stringify
        (((trueUnder key).entry .sample 0).toJson .sample))) :=
  find_put

theorem plain_msetTrue {key : Text} (hkey : normalizeKey key = key) :
    Plain .sample (.resolve none none none) (msetTrue key) key := by
  refine ⟨hkey, fun e hfind => ?_⟩
  have hcell := hfind.symm.trans (find_msetTrue key)
  have hjson := Entry.eq_of_stringify (Cell.string.inj (some.inj hcell))
  constructor
  · have hcompressed := congrArg (·.prop (text "compressed")) hjson
    simp only [Entry.prop_compressed] at hcompressed
    cases hc : e.compressed with
    | false => rfl
    | true =>
      rw [hc] at hcompressed
      simp [Item.entry] at hcompressed
  · have hmetadata := congrArg (·.prop (text "metadata")) hjson
    simp only [Entry.prop_metadata, some.injEq] at hmetadata
    have hexpires := congrArg (·.prop (text "expiresAt")) hmetadata
    simp only [Entry.prop_expiresAt] at hexpires
    intro t ht
    simp [ht, expiresAt_trueUnder] at hexpires

theorem mget_eq_get_true : ∃ rs w₁,
    mget .sample (.resolve none none none) 1 [text "k"] (msetTrue (text "k")) = some (.ok rs, w₁) ∧
    List.Forall₂ (fun key r => ∃ w₂, get .sample (.resolve none none none) 1 key
      (msetTrue (text "k")) = some (.ok r, w₂)) [text "k"] rs := by
  refine mget_eq_get _ _ (.tail .refl trivial (step_msetTrue _)) 0 _ ?_
  intro key hkey
  obtain rfl := mem_singleton.mp hkey
  exact plain_msetTrue (by decide)

theorem get_misses_capital :
    step .sample (.resolve none none none) init (.mset [trueUnder (text "A")]) =
      some (msetTrue (text "A")) ∧
    ∀ depth,
      (∃ w₁, get .sample (.resolve none none none) (depth + 1) (text "A") (msetTrue (text "A")) =
        some (.ok (some .null), w₁)) ∧
      ∃ w₁, mget .sample (.resolve none none none) (depth + 1) [text "A"] (msetTrue (text "A")) =
        some (.ok [some (.bool true)], w₁) := by
  refine ⟨step_msetTrue _, fun depth => ⟨⟨_, get_missing depth ?_⟩, ?_⟩⟩
  · intro s hs
    have hne : (text "cache:" ++ normalizeKey (text "A")).map UInt16.toUInt8 ≠
        (text "cache:" ++ text "A").map UInt16.toUInt8 := by decide
    have hempty : (msetTrue (text "A")).redis.find
        (getFullKey .sample (.resolve none none none) (normalizeKey (text "A"))) = none :=
      find_put_ne hne
    exact absurd (hempty.symm.trans hs) (by simp)
  · have hlate : ∀ t, ((trueUnder (text "A")).entry .sample 0).expiresAt = some t →
        (msetTrue (text "A")).redis.now ≤ t := by
      intro t ht
      simp [expiresAt_trueUnder] at ht
    refine ⟨{ msetTrue (text "A") with stats := (msetTrue (text "A")).stats.recordHit }, ?_⟩
    rw [mget, bind_ok rfl, map_cons, mget_eq_some.mpr (find_msetTrue _), mgetAll,
      bind_ok (mgetOne_entry (depth + 1) hlate)]
    rfl

end Bridge.Cache.RedisCache
