import Bridge.Cache.Redis

/-!
# What deleting leaves true

`doGet` and `doDelete` call each other, and write in three ways only: the statistics, a member taken
out of a tag set, a key deleted. An invariant that these keep (`Kept`) is kept by everything that
reads or deletes, to whatever depth. For `set` there is more to show: that the entry may be stored,
and its tags marked.
-/

namespace Bridge.Cache.RedisCache

open Lib Async

variable {N : Type} {p : Platform N} {cfg : RedisCacheConfig} {I : RedisCache → Prop}

structure Kept (I : RedisCache → Prop) : Prop where
  stats : ∀ {w : RedisCache} (stats : CacheStats), I w → I { w with stats }
  erase : ∀ {w : RedisCache} (k : List UInt8), I w → I { w with redis := w.redis.erase k }
  srem : ∀ {w : RedisCache} (k m : List UInt8), I w → I { w with redis := w.redis.srem k m }

theorem preserves_command {α : Type} {f : Redis → α × Redis}
    (hf : ∀ {w : RedisCache}, I w → I { w with redis := (f w.redis).2 }) :
    Preserves I (command f) := by
  intro w r w' hw h
  cases h
  exact hf hw

theorem preserves_redisGet {k : List UInt8} : Preserves I (redisGet k) := by
  intro w r w' hw h
  unfold redisGet at h
  split at h <;> (cases h; exact hw)

theorem preserves_ofExcept {α : Type} {x : Except Fault α} : Preserves I (ofExcept x) := by
  cases x with
  | ok => exact preserves_pure
  | error => exact preserves_throw

variable {tags : List Text}

theorem foldl_tags {f : Redis → Text → Redis}
    (hf : ∀ {w : RedisCache} (tag : Text), tag ∈ tags → I w → I { w with redis := f w.redis tag })
    {w : RedisCache} (hw : I w) : I { w with redis := tags.foldl f w.redis } := by
  induction tags generalizing w with
  | nil => exact hw
  | cons tag rest ih =>
    exact ih (fun t ht => hf t (List.mem_cons_of_mem tag ht)) (hf tag List.mem_cons_self hw)

theorem preserves_tags {key : Text}
    (hf : ∀ {w : RedisCache} (tag : Text), tag ∈ tags → I w → I { w with
      redis := (w.redis.sadd (getTagKey p cfg tag) (p.utf8 key)).expire
        (getTagKey p cfg tag) 604800 }) :
    Preserves I (tagKeys p cfg key tags) := by
  refine preserves_command fun hw => ?_
  exact foldl_tags (f := fun r tag => (r.sadd (getTagKey p cfg tag) (p.utf8 key)).expire
      (getTagKey p cfg tag) 604800)
    hf hw

theorem after_of_preserves {α : Type} {m : Call α} (hm : Preserves I m) {w w' : RedisCache}
    (hw : I w) (h : after m w = some w') : I w' := by
  obtain ⟨⟨r, w₁⟩, hr, rfl⟩ := Option.map_eq_some_iff.mp h
  exact hm w r w₁ hw hr

namespace Kept

variable (h : Kept I)

include h

theorem record (g : CacheStats → CacheStats) :
    Preserves I (Async.modify fun w => { w with stats := g w.stats } : Call Unit) :=
  preserves_modify fun _ hw => h.stats _ hw

theorem removeFromTags {key : Text} : Preserves I (removeFromTags p cfg key tags) := by
  refine preserves_command fun hw => ?_
  exact foldl_tags (f := fun r tag => r.srem (getTagKey p cfg tag) (p.utf8 key))
    (fun _ _ hw => h.srem _ _ hw) hw

theorem del {k : List UInt8} : Preserves I (command fun r => r.del k) :=
  preserves_command (h.erase k)

theorem doGet_doDelete (depth : Nat) : (∀ key, Preserves I (doGet p cfg depth key)) ∧
    ∀ key, Preserves I (doDelete p cfg depth key) := by
  induction depth with
  | zero => exact ⟨fun _ => preserves_pending, fun _ => preserves_pending⟩
  | succ depth ih =>
    constructor
    · intro key
      rw [doGet]
      refine preserves_redisGet.bind fun data => ?_
      split
      · exact preserves_pure
      · split
        · exact preserves_pure
        · split
          · exact preserves_pure
          · exact (ih.2 key).bind fun _ => preserves_pure
    · intro key
      rw [doDelete]
      refine (ih.1 key).bind fun entry => preserves_ofExcept.bind fun tags => ?_
      split
      · exact h.del.bind fun _ => preserves_pure
      · refine preserves_ofExcept.bind fun names => h.removeFromTags.bind fun _ => ?_
        exact h.del.bind fun _ => preserves_pure

theorem delete {depth : Nat} {key : Text} : Preserves I (delete p cfg depth key) := by
  refine Preserves.tryCatch ?_ fun _ => preserves_pure
  refine ((h.doGet_doDelete depth).2 _).bind fun result => ?_
  split
  · exact Preserves.bind (h.record CacheStats.recordDelete) fun _ => preserves_pure
  · exact preserves_pure

theorem set {key : Text} {value : JsonValue N} {options : CacheOptions}
    (hstore : ∀ {w : RedisCache} (e : Entry N),
      (e.compressed = true → e.value.1 = .str (p.deflate (p.stringify value.1))) → I w → I { w with
        redis := store w.redis (getFullKey p cfg (normalizeKey key)) options
          (p.stringify (e.toJson p)) })
    (htag : ∀ {w : RedisCache} (tag : Text), tag ∈ options.tags.getD [] → I w → I { w with
      redis := (w.redis.sadd (getTagKey p cfg tag) (p.utf8 (normalizeKey key))).expire
        (getTagKey p cfg tag) 604800 }) : Preserves I (set p cfg key value options) := by
  have htags : ∀ tags, options.tags = some tags →
    Preserves I (tagKeys p cfg (normalizeKey key) tags) := by
    intro tags hsome
    rw [hsome] at htag
    exact preserves_tags htag
  refine Preserves.bind ?_ fun _ => (h.record CacheStats.recordSet).bind fun _ => ?_
  · refine preserves_get.bind fun w₀ => Preserves.bind ?_ fun _ => ?_
    · intro w r w' hw hr
      cases hr
      refine hstore _ ?_ hw
      intro hc
      exact congrArg Subtype.val (if_pos hc)
    · split
      · exact preserves_pure
      · exact htags _ ‹_›
  · split
    · exact preserves_pure
    · exact htags _ ‹_›

end Kept

end Bridge.Cache.RedisCache
