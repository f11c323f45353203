import Bridge.Cache.Redis

/-!
# What `doGet` does with an entry it cannot decode

It deletes the entry: it calls `doDelete`. And `doDelete` begins by reading the entry for its tags:
it calls `doGet`, which cannot decode the entry, and so on. The `DEL` that would end this comes
after the read, and is never sent.
-/

namespace Bridge.Cache.RedisCache

open Lib Async

variable {N : Type} {p : Platform N} {cfg : RedisCacheConfig} {w : RedisCache} {key data : Text}

theorem redisGet_string {k : List UInt8} (h : w.redis.find k = some (.string data)) :
    redisGet k w = some (.ok (some data), w) := by
  simp [redisGet, ExpiringKeys.get_eq_bulk.mpr h]

theorem doGet_absent (depth : Nat) (h : w.redis.find (getFullKey p cfg key) = none) :
    doGet p cfg (depth + 1) key w = some (.ok .null, w) := by
  have hget : redisGet (getFullKey p cfg key) w = some (.ok none, w) := by
    simp [redisGet, ExpiringKeys.get, h]
  rw [doGet, bind_ok hget]
  rfl

theorem doGet_set (depth : Nat) {members : List (List UInt8)}
    (h : w.redis.find (getFullKey p cfg key) = some (.set members)) :
    doGet p cfg (depth + 1) key w = some (.error .wrongType, w) := by
  have hget : redisGet (getFullKey p cfg key) w = some (.error .wrongType, w) := by
    simp [redisGet, ExpiringKeys.get, h]
  rw [doGet]
  exact bind_error hget

theorem doGet_empty (depth : Nat) (h : w.redis.find (getFullKey p cfg key) = some (.string data))
    (he : data.isEmpty = true) : doGet p cfg (depth + 1) key w = some (.ok .null, w) := by
  rw [doGet, bind_ok (redisGet_string h)]
  simp only [if_pos he]
  rfl

variable {depth : Nat}

theorem doGet_decoded {j : Json N}
    (h : w.redis.find (getFullKey p cfg key) = some (.string data)) (he : data.isEmpty = false)
    (hd : decode p data = some j) : doGet p cfg (depth + 1) key w = some (.ok j, w) := by
  rw [doGet, bind_ok (redisGet_string h)]
  simp only [he, Bool.false_eq_true, if_false, hd]
  rfl

/-- **The two methods wait for each other.** -/
theorem pending_of_undecodable (h : w.redis.find (getFullKey p cfg key) = some (.string data))
    (he : data.isEmpty = false) (hd : decode p data = none) (depth : Nat) :
    doGet p cfg depth key w = none ∧ doDelete p cfg depth key w = none := by
  induction depth with
  | zero => exact ⟨rfl, rfl⟩
  | succ depth ih =>
    constructor
    · rw [doGet, bind_ok (redisGet_string h)]
      simp only [he, Bool.false_eq_true, if_false, hd]
      exact bind_pending ih.2
    · rw [doDelete]
      exact bind_pending ih.1

/-! ## Coming back -/

theorem returns_ofExcept {α : Type} (x : Except Fault α) : Returns (ofExcept x) w := by
  cases x <;> rfl

theorem returns_doDelete (h : Returns (doGet p cfg depth key) w) :
    Returns (doDelete p cfg (depth + 1) key) w := by
  rw [doDelete]
  refine h.bind fun entry w₁ _ => (returns_ofExcept _).bind fun tags w₂ _ => ?_
  split
  · rfl
  · exact (returns_ofExcept _).bind fun _ w₃ _ => rfl

theorem returns_delete (h : Returns (doGet p cfg depth (normalizeKey key)) w) :
    Returns (delete p cfg (depth + 1) key) w := by
  refine Returns.tryCatch ((returns_doDelete h).bind fun result w' _ => ?_) fun _ _ _ => rfl
  split <;> rfl

theorem returns_get (depth : Nat) {j : Json N}
    (h : ∀ d, doGet p cfg (d + 1) (normalizeKey key) w = some (.ok j, w)) :
    Returns (get p cfg (depth + 2) key) w := by
  have hdelete : Returns (delete p cfg (depth + 2) (normalizeKey key)) w := by
    refine returns_delete ?_
    rw [normalizeKey_normalizeKey, Returns, h]
    rfl
  refine Returns.tryCatch ?_ fun _ _ _ => rfl
  rw [Returns, bind_ok (h (depth + 1))]
  split
  · rfl
  · refine (returns_ofExcept _).bind fun expiresAt w' hw => ?_
    obtain rfl : w = w' := by
      cases hx : readProp (j.prop (text "metadata")) (text "expiresAt") with
      | ok x =>
        rw [hx] at hw
        exact (Prod.mk.inj (Option.some.inj hw)).2
      | error e =>
        rw [hx] at hw
        simp [ofExcept, Async.throw] at hw
    refine Returns.bind rfl fun now w₁ hnow => ?_
    obtain rfl : w = w₁ := (Prod.mk.inj (Option.some.inj hnow)).2
    split
    · exact hdelete.bind fun _ _ _ => rfl
    · split <;> rfl

theorem get_pending (h : doGet p cfg depth (normalizeKey key) w = none) :
    get p cfg depth key w = none := tryCatch_pending (bind_pending h)

theorem delete_pending (h : doDelete p cfg depth (normalizeKey key) w = none) :
    delete p cfg depth key w = none := tryCatch_pending (bind_pending h)

/-- What `get` takes for an entry: its `metadata` is neither missing nor a primitive value. -/
def isEntry (j : Json N) : Bool :=
  (j.prop (text "metadata")).any fun
    | .arr _ | .obj _ => true
    | _ => false

/-- What is no entry is answered as a miss, and stays stored. -/
theorem get_of_other {j : Json N} (h : doGet p cfg depth (normalizeKey key) w = some (.ok j, w))
    (hj : isEntry j = false) :
    get p cfg depth key w = some (.ok (some .null), { w with stats := w.stats.recordMiss }) := by
  cases htruthy : j.truthy p.isZero with
  | false =>
    refine tryCatch_ok ?_
    rw [bind_ok h, if_pos htruthy]
    rfl
  | true =>
    apply tryCatch_error
    rw [bind_ok h, if_neg (by simp [htruthy])]
    rw [isEntry] at hj
    cases hmeta : j.prop (text "metadata") with
    | none => rfl
    | some m =>
      rw [hmeta] at hj
      cases m with
      | null | bool | num | str => rfl
      | arr | obj => cases hj

/-- `get` and `delete` come back, and a `get` of what is no entry removes it. -/
structure Repairs (p : Platform N) (cfg : RedisCacheConfig) (w : RedisCache) (key data : Text) :
    Prop where
  get : ∃ depth, Returns (get p cfg depth key) w
  delete : ∃ depth, Returns (delete p cfg depth key) w
  removed : (decode p data).any isEntry = false →
    ∀ depth r w', RedisCache.get p cfg depth key w = some (r, w') →
      w'.redis.find (getFullKey p cfg (normalizeKey key)) = none

/-- **What is stored is read, deleted and repaired as it should be iff it is an entry.** -/
theorem repairs_iff (p : Platform N) (cfg : RedisCacheConfig) (w : RedisCache) (key data : Text)
    (h : w.redis.find (getFullKey p cfg (normalizeKey key)) = some (.string data)) :
    Repairs p cfg w key data ↔ (decode p data).any isEntry = true := by
  have hread : ∀ j, decode p data = some j → ∃ j', (j' = .null ∨ j' = j) ∧
      ∀ d, doGet p cfg (d + 1) (normalizeKey key) w = some (.ok j', w) := by
    intro j hj
    cases he : data.isEmpty with
    | true => exact ⟨.null, .inl rfl, fun d => doGet_empty d h he⟩
    | false => exact ⟨j, .inr rfl, fun d => doGet_decoded h he hj⟩
  constructor
  · intro hrep
    by_contra hno
    rw [Bool.not_eq_true] at hno
    -- a `get` that comes back leaves the text where it is
    have hstays : ∀ j, isEntry j = false →
        doGet p cfg 1 (normalizeKey key) w = some (.ok j, w) → False := by
      intro j hj hget
      have hgone := hrep.removed hno _ _ _ (get_of_other hget hj)
      exact absurd (h.symm.trans hgone) (by simp)
    cases hd : decode p data with
    | some j =>
      rw [hd] at hno
      obtain ⟨j', hj', hget⟩ := hread j hd
      refine hstays j' ?_ (hget 0)
      rcases hj' with rfl | rfl
      · rfl
      · exact hno
    | none =>
      cases he : data.isEmpty with
      | true => exact hstays .null rfl (doGet_empty 0 h he)
      | false =>
        obtain ⟨depth, hret⟩ := hrep.get
        simp [Returns, get_pending (pending_of_undecodable h he hd depth).1] at hret
  · intro hentry
    obtain ⟨j, hj⟩ : ∃ j, decode p data = some j := by
      cases hd : decode p data with
      | some j => exact ⟨j, rfl⟩
      | none => simp [hd] at hentry
    obtain ⟨j', -, hget⟩ := hread j hj
    refine ⟨⟨_, returns_get 0 hget⟩, ⟨2, returns_delete ?_⟩, fun hno => ?_⟩
    · rw [Returns, hget]
      rfl
    · exact absurd (hentry.symm.trans hno) (by decide)

/-- A service that finds `data` under the key `k`, whoever wrote it. -/
noncomputable def holding (data : Text) : RedisCache :=
  ⟨(ExpiringKeys.empty 0).set (getFullKey .sample (.resolve none none none) (text "k")) data, {}⟩

theorem find_holding (data : Text) :
    (holding data).redis.find (getFullKey .sample (.resolve none none none)
      (normalizeKey (text "k"))) = some (.string data) := by
  have hk : normalizeKey (text "k") = text "k" := by decide
  rw [hk]
  exact ExpiringKeys.find_put

def taggedEntry : Json Unit :=
  .obj [(text "value", .bool true),
    (text "metadata", .obj [(text "key", .str (text "k")), (text "tags", .arr [.str (text "t")])])]

theorem repairs_entry : Repairs .sample (.resolve none none none)
    (holding (Platform.sample.stringify taggedEntry)) (text "k")
    (Platform.sample.stringify taggedEntry) := by
  refine (repairs_iff _ _ _ _ _ (find_holding _)).mpr ?_
  have hparse : Platform.sample.parse (Platform.sample.stringify taggedEntry) = some taggedEntry :=
    Platform.parsePrinted_print _
  rw [decode, hparse]
  rfl

/-- `x` is no JSON, and `true` is JSON of another shape. -/
theorem never_repaired : (decode .sample [0x78] = none ∧ ∀ depth,
      get .sample (.resolve none none none) depth (text "k") (holding [0x78]) = none ∧
        delete .sample (.resolve none none none) depth (text "k") (holding [0x78]) = none) ∧
    ∃ w, get .sample (.resolve none none none) 1 (text "k")
        (holding (Platform.sample.stringify (.bool true))) = some (.ok (some .null), w) ∧
      w.redis.find (getFullKey .sample (.resolve none none none) (normalizeKey (text "k"))) =
        some (.string (Platform.sample.stringify (.bool true))) := by
  constructor
  · have hd : decode .sample [0x78] = none := by
      rw [decode, Platform.parse_letter]
    refine ⟨hd, fun depth => ?_⟩
    have hpending := pending_of_undecodable (find_holding [0x78]) rfl hd depth
    exact ⟨get_pending hpending.1, delete_pending hpending.2⟩
  · have hparse : Platform.sample.parse (Platform.sample.stringify (.bool true)) =
        some (.bool true) := Platform.parsePrinted_print _
    have hd : decode .sample (Platform.sample.stringify (.bool true)) = some (.bool true) := by
      rw [decode, hparse]
      rfl
    exact ⟨_, get_of_other (doGet_decoded (find_holding _) rfl hd) rfl, find_holding _⟩

end Bridge.Cache.RedisCache
