import Bridge.Cache.Service
import Bridge.Lib.Async
import Bridge.Lib.ExpiringKeys
import Bridge.Lib.JsonText

/-!
# `RedisCacheService`

The cache over Redis. An entry is a JSON text under one key; its tags are Redis sets under other
keys of the same key space. What `doGet` reads back is whatever the text parses to, and the
methods of the abstract class then treat it as an entry: a date that went in as a `Date` comes back
as a *string*, and a text that some other program wrote may have any shape.
-/

namespace Bridge.Cache

open Lib List

/-- What the service uses of its platform, with the numbers `N` of JSON. -/
structure Platform (N : Type) where
  isZero : N → Bool
  number : Nat → N
  /-- A number, as `JSON.stringify` writes it. -/
  digits : N → Text
  /-- `JSON.parse`; `none` where it throws. -/
  parse : Text → Option (Json N)
  utf8 : Text → List UInt8
  /-- `gzip`, and the result in base 64. -/
  deflate : Text → Text
  /-- `Buffer.from(·, 'base64')`, `gunzip` and `toString`; `none` where one of them throws. -/
  inflate : Option (Json N) → Option Text
  /-- A date, as `JSON.stringify` writes it. -/
  toJSON : Nat → Json N
  /-- `· < new Date()` -/
  before : Json N → Nat → Bool
  /-- `new Date(·) < new Date()` -/
  dateBefore : Json N → Nat → Bool
  /-- The value in a template string. -/
  display : Json N → Text
  parse_print : ∀ {j}, j.WellFormed → parse (JsonText.print digits j) = some j
  -- a surrogate by itself would come back as another character, but `JSON.stringify` escapes it
  inflate_deflate : ∀ {j : Json N}, j.WellFormed →
    inflate (some (.str (deflate (JsonText.print digits j)))) = some (JsonText.print digits j)
  wellFormed_toJSON : ∀ t, (toJSON t).WellFormed
  -- a date in JSON is no number, and nothing is before or after `NaN`
  before_toJSON : ∀ t now, (toJSON t).truthy isZero = true → before (toJSON t) now = false
  dateBefore_toJSON : ∀ t now, (toJSON t).truthy isZero = true →
    dateBefore (toJSON t) now = decide (t < now)

def Platform.stringify {N : Type} (p : Platform N) (j : Json N) : Text := JsonText.print p.digits j

/-! A platform to try the service on, with one number. What it parses is what it prints. -/

namespace Platform

theorem digits_zero : JsonText.Digits fun _ : Unit => [0x30] where
  injective _ _ _ := rfl
  ne_nil _ := by simp
  units _ u hu := by rw [mem_singleton.mp hu]; rfl

open Classical in
noncomputable def parsePrinted (s : Text) : Option (Json Unit) :=
  if h : ∃ j, JsonText.print (fun _ => [0x30]) j = s then some h.choose else none

theorem parsePrinted_print (j : Json Unit) :
    parsePrinted (JsonText.print (fun _ => [0x30]) j) = some j := by
  have h : ∃ j', JsonText.print (fun _ => [0x30]) j' = JsonText.print (fun _ => [0x30]) j :=
    ⟨j, rfl⟩
  rw [parsePrinted, dif_pos h]
  exact congrArg some (JsonText.print_injective digits_zero h.choose_spec)

noncomputable def sample : Platform Unit where
  isZero _ := true
  number _ := ()
  digits _ := [0x30]
  parse := parsePrinted
  utf8 s := s.map (·.toUInt8)
  deflate s := s
  inflate j := match j with
    | some (.str s) => some s
    | _ => none
  toJSON t := .str (replicate (t + 1) 0x54)
  before _ _ := false
  dateBefore j now := match j with
    | .str s => decide (s.length ≤ now)
    | _ => false
  display _ := []
  parse_print _ := parsePrinted_print _
  inflate_deflate _ := rfl
  wellFormed_toJSON _ := .str _
  before_toJSON _ _ _ := rfl
  dateBefore_toJSON t now _ := by
    simp only [length_replicate]
    rfl

theorem parse_letter : sample.parse [0x78] = none := by
  refine dif_neg ?_
  intro h
  obtain ⟨j, hj⟩ := h
  obtain ⟨u, rest, hprint, hlead⟩ := JsonText.print_lead digits_zero j
  obtain ⟨rfl, -⟩ := cons.inj (hj.symm.trans hprint)
  cases j with
  | bool b => cases b <;> simp [JsonText.lead] at hlead
  | null | num | str | arr | obj =>
    simp [JsonText.lead, JsonText.isNumberUnit] at hlead

end Platform

structure RedisCacheConfig where
  keyPrefix : Text
  enableCompression : Bool
  compressionThreshold : Int

def RedisCacheConfig.resolve (keyPrefix : Option Text) (enableCompression : Option Bool)
    (compressionThreshold : Option Int) : RedisCacheConfig where
  keyPrefix := (keyPrefix.filter (· ≠ [])).getD (text "cache:")
  enableCompression := enableCompression.getD true
  compressionThreshold := (compressionThreshold.filter (· ≠ 0)).getD 1024

inductive Fault
  | wrongType
  | typeError

abbrev Redis := ExpiringKeys (List UInt8) Text (List UInt8)

structure RedisCache where
  redis : Redis
  stats : CacheStats

namespace RedisCache

variable {N : Type} (p : Platform N) (cfg : RedisCacheConfig)

abbrev Call := Async RedisCache Fault

def getFullKey (key : Text) : List UInt8 := p.utf8 (cfg.keyPrefix ++ key)

def getTagKey (tag : Text) : List UInt8 := p.utf8 (cfg.keyPrefix ++ text "tags:" ++ tag)

def command {α : Type} (f : Redis → α × Redis) : Call α :=
  fun w => some (.ok (f w.redis).1, { w with redis := (f w.redis).2 })

def redisGet (k : List UInt8) : Call (Option Text) := fun w =>
  match w.redis.get k with
  | .nil => some (.ok none, w)
  | .bulk s => some (.ok (some s), w)
  | .wrongType => some (.error .wrongType, w)

def recordHit : Call Unit := Async.modify fun w => { w with stats := w.stats.recordHit }
def recordMiss : Call Unit := Async.modify fun w => { w with stats := w.stats.recordMiss }
def recordSet : Call Unit := Async.modify fun w => { w with stats := w.stats.recordSet }
def recordDelete : Call Unit := Async.modify fun w => { w with stats := w.stats.recordDelete }

/-! ## Reading what was stored -/

/-- `o.name`, where `o` may be `null` or nothing. -/
def readProp (o : Option (Json N)) (name : Text) : Except Fault (Option (Json N)) :=
  match o with
  | none | some .null => .error .typeError
  | some j => .ok (j.prop name)

def ofExcept {α : Type} : Except Fault α → Call α
  | .ok a => pure a
  | .error e => Async.throw e

/-- The `try` block of `doGet`; `none` where it throws. -/
def decode (data : Text) : Option (Json N) :=
  match p.parse data with
  | none | some .null => none
  | some parsed =>
    if (parsed.prop (text "compressed")).any (·.truthy p.isZero) then
      ((p.inflate (parsed.prop (text "value"))).bind p.parse).map fun v =>
        parsed.setProp (text "value") v
    else some parsed

/-- `entry?.metadata.tags` -/
def tagsOf (entry : Json N) : Except Fault (Option (Json N)) :=
  match entry with
  | .null => .ok none
  | _ => readProp (entry.prop (text "metadata")) (text "tags")

/-- The strings of one code point that a `for` loop takes from a string. -/
def codePoints : Text → List Text
  | [] => []
  | [u] => [[u]]
  | u :: v :: rest =>
    if Utf16.isHigh u && Utf16.isLow v then [u, v] :: codePoints rest
    else [u] :: codePoints (v :: rest)

/-- What `for (const tag of tags)` goes through. -/
def elements (tags : Json N) : Except Fault (List Text) :=
  match tags with
  | .arr xs => .ok (xs.map p.display)
  | .str s => .ok (codePoints s)
  | _ => .error .typeError

def removeFromTags (key : Text) (tags : List Text) : Call Unit :=
  command fun r => ((), tags.foldl (fun r tag => r.srem (getTagKey p cfg tag) (p.utf8 key)) r)

mutual

def doGet : Nat → Text → Call (Json N)
  | 0, _ => Async.pending
  | depth + 1, key => do
    let data ← redisGet (getFullKey p cfg key)
    match data with
    | none => pure .null
    | some data =>
      if data.isEmpty then pure .null
      else
        match decode p data with
        | some parsed => pure parsed
        | none => do
          let _ ← doDelete depth key
          pure .null

def doDelete : Nat → Text → Call Bool
  | 0, _ => Async.pending
  | depth + 1, key => do
    let entry ← doGet depth key
    let tags ← ofExcept (tagsOf entry)
    match tags.filter (·.truthy p.isZero) with
    | none => pure ()
    | some tags => do
      let tags ← ofExcept (elements p tags)
      removeFromTags p cfg key tags
    let result ← command fun r => r.del (getFullKey p cfg key)
    pure (decide (0 < result))

end

def delete (depth : Nat) (key : Text) : Call Bool :=
  Async.tryCatch (do
      let result ← doDelete p cfg depth (normalizeKey key)
      if result then recordDelete
      pure result)
    fun _ => pure false

/-- The value under a key; `null` where there is none. -/
def get (depth : Nat) (key : Text) : Call (Option (Json N)) :=
  Async.tryCatch (do
      let entry ← doGet p cfg depth (normalizeKey key)
      if entry.truthy p.isZero = false then do
        recordMiss
        pure (some .null)
      else do
        let metadata := entry.prop (text "metadata")
        let expiresAt ← ofExcept (readProp metadata (text "expiresAt"))
        let now ← Async.get
        if expiresAt.any fun x => x.truthy p.isZero && p.before x now.redis.now then do
          let _ ← delete p cfg depth (normalizeKey key)
          recordMiss
          pure (some .null)
        else if metadata.any (·.isPrimitive) then Async.throw .typeError
        else do
          recordHit
          pure (entry.prop (text "value")))
    fun _ => do
      recordMiss
      pure (some .null)

/-! ## Writing -/

abbrev JsonValue (N : Type) := { j : Json N // j.WellFormed }

structure Entry (N : Type) where
  value : JsonValue N
  key : Text
  createdAt : Nat
  expiresAt : Option Nat
  size : Nat
  tags : Option (List Text)
  compressed : Bool

namespace Entry

/-- `JSON.stringify` leaves out the members that are undefined. -/
def metadata (e : Entry N) : Json N :=
  .obj ([(text "key", .str e.key), (text "createdAt", p.toJSON e.createdAt)] ++
    (e.expiresAt.map fun t => (text "expiresAt", p.toJSON t)).toList ++
    [(text "hits", .num (p.number 0)), (text "lastAccessed", p.toJSON e.createdAt),
      (text "size", .num (p.number e.size))] ++
    (e.tags.map fun tags => (text "tags", .arr (tags.map .str))).toList)

def toJson (e : Entry N) : Json N :=
  .obj ([(text "value", e.value.1), (text "metadata", e.metadata p)] ++
    if e.compressed then [(text "compressed", .bool true)] else [])

end Entry

/-- `setex`, or `set` where there is no time to live. -/
def store (r : Redis) (fullKey : List UInt8) (options : CacheOptions)
    (entryString : Text) : Redis :=
  match options.ttl? with
  | some ttl => r.setex fullKey ((ttl + 999) / 1000) entryString
  | none => r.set fullKey entryString

def tagKeys (key : Text) (tags : List Text) : Call Unit :=
  command fun r => ((), tags.foldl
    (fun r tag => (r.sadd (getTagKey p cfg tag) (p.utf8 key)).expire (getTagKey p cfg tag) 604800)
      r)

def doSet (key : Text) (value : JsonValue N) (options : CacheOptions) : Call Unit := do
  let w ← Async.get
  let serialized := p.stringify value.1
  let size := (p.utf8 serialized).length
  let compressed := options.compress != some false && cfg.enableCompression &&
    decide (cfg.compressionThreshold < size)
  let finalValue : JsonValue N :=
    if compressed then ⟨.str (p.deflate serialized), .str _⟩ else value
  let entry : Entry N :=
    { value := finalValue, key, createdAt := w.redis.now,
      expiresAt := options.expiresAt w.redis.now,
      size, tags := options.tags, compressed }
  command fun r => ((), store r (getFullKey p cfg key) options (p.stringify (entry.toJson p)))
  match options.tags with
  | none => pure ()
  | some tags => tagKeys p cfg key tags

def set (key : Text) (value : JsonValue N) (options : CacheOptions) : Call Unit := do
  doSet p cfg (normalizeKey key) value options
  recordSet
  match options.tags with
  | none => pure ()
  | some tags => tagKeys p cfg (normalizeKey key) tags

/-- What `mset` is given for one key. -/
structure Item (N : Type) where
  key : Text
  value : JsonValue N
  options : CacheOptions

def Item.entry (x : Item N) (now : Nat) : Entry N :=
  { value := x.value, key := x.key, createdAt := now, expiresAt := x.options.expiresAt now,
    size := (p.stringify x.value.1).length, tags := x.options.tags, compressed := false }

/-- One turn of the loop of `mset`. -/
def Item.put (w : RedisCache) (x : Item N) : RedisCache where
  redis := store w.redis (getFullKey p cfg x.key) x.options
    (p.stringify ((x.entry p w.redis.now).toJson p))
  stats := w.stats.recordSet

def mset (entries : List (Item N)) : Call Unit :=
  Async.modify fun w => entries.foldl (Item.put p cfg) w

/-- What `mget` makes of one of the values Redis answers. -/
def mgetOne (depth : Nat) (key : Text) (value : Option Text) : Call (Option (Json N)) :=
  match value.filter (!·.isEmpty) with
  | none => do
    recordMiss
    pure (some .null)
  | some value =>
    Async.tryCatch (match p.parse value with
      | none => Async.throw .typeError
      | some entry => do
        let metadata ← ofExcept (readProp (some entry) (text "metadata"))
        let expiresAt ← ofExcept (readProp metadata (text "expiresAt"))
        let w ← Async.get
        if expiresAt.any fun x => x.truthy p.isZero && p.dateBefore x w.redis.now then do
          let _ ← doDelete p cfg depth key
          recordMiss
          pure (some .null)
        else do
          recordHit
          pure (entry.prop (text "value")))
      fun _ => do
        recordMiss
        pure (some .null)

def mgetAll (depth : Nat) : List (Text × Option Text) → Call (List (Option (Json N)))
  | [] => pure []
  | (key, value) :: rest => do
    let first ← mgetOne p cfg depth key value
    let others ← mgetAll depth rest
    pure (first :: others)

def mget (depth : Nat) (keys : List Text) : Call (List (Option (Json N))) := do
  let w ← Async.get
  mgetAll p cfg depth (keys.map fun key => (key, w.redis.mget (getFullKey p cfg key)))

inductive Action (N : Type)
  | set (key : Text) (value : JsonValue N) (options : CacheOptions)
  | mset (entries : List (Item N))
  | delete (key : Text)
  | tick (t : Nat)

def after {α : Type} (m : Call α) (w : RedisCache) : Option RedisCache := (m w).map (·.2)

def step (w : RedisCache) : Action N → Option RedisCache
  | .set key value options => after (set p cfg key value options) w
  | .mset entries => after (mset p cfg entries) w
  -- `delete` calls `doDelete`, which calls `doGet`
  | .delete key => after (delete p cfg 2 key) w
  | .tick t => if w.redis.now ≤ t then some { w with redis := w.redis.tick t } else none

def init : RedisCache := ⟨.empty 0, {}⟩

end RedisCache
end Bridge.Cache
