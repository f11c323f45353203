import Bridge.Breaker.Circuit

/-!
# What a half-open breaker takes for a probe

Half open, the breaker is to let a few operations through and to close when they have succeeded. It
counts successes when operations **end**, and refuses nothing when they start: it lets through every
operation that comes while it waits for the first of them to end, and it counts an operation that
was in flight since before it opened like one of its probes.
-/

namespace Bridge.Breaker

open Lib List

def period (history : List Event) : List Event := history.takeWhile (· ≠ .halfOpened)

def startedIn (es : List Event) : List Nat :=
  es.filterMap fun e => match e with
    | .started op _ => some op
    | _ => none

def succeededIn (es : List Event) : List Nat :=
  es.filterMap fun e => match e with
    | .succeeded op => some op
    | _ => none

def probesIn (es : List Event) : List Nat := (succeededIn es).filter (· ∈ startedIn es)

/-- In a half-open period no more operations start than the breaker asks for, and a half-open
breaker that closes has seen as many succeed that started in the period. -/
structure Probing (cfg : CircuitBreakerConfig) (w : World) : Prop where
  started : w.breaker.state = .HALF_OPEN →
    (startedIn (period w.history)).length ≤ cfg.halfOpenMaxAttempts
  closed : ∀ earlier, w.history = .closed :: earlier →
    cfg.halfOpenMaxAttempts ≤ (probesIn (period earlier)).length

/-- No operation is started on top of those the half-open breaker asks for, and the success that
closes it, like those counted before, is of an operation started in the period. -/
def Paced (cfg : CircuitBreakerConfig) (w : World) : Action → Prop
  | .execute => w.breaker.state = .HALF_OPEN →
      (startedIn (period w.history)).length < cfg.halfOpenMaxAttempts
  | .settle op true => w.breaker.state = .HALF_OPEN →
      cfg.halfOpenMaxAttempts ≤ w.breaker.halfOpenAttempts + 1 →
      ∀ op' ∈ op :: succeededIn (period w.history), op' ∈ startedIn (period w.history)
  | _ => True

instance {cfg : CircuitBreakerConfig} {w : World} {a : Action} : Decidable (Paced cfg w a) := by
  unfold Paced
  split <;> infer_instance

structure Counting (cfg : CircuitBreakerConfig) (w : World) : Prop where
  probing : Probing cfg w
  counted : w.breaker.state = .HALF_OPEN →
    w.breaker.halfOpenAttempts = (succeededIn (period w.history)).length
  few : w.breaker.state = .HALF_OPEN → w.breaker.halfOpenAttempts < cfg.halfOpenMaxAttempts

variable {cfg : CircuitBreakerConfig} {w w' : World} {a : Action}

theorem Counting.of_state (hstate : w.breaker.state ≠ .HALF_OPEN)
    (hclosed : ∀ earlier, w.history = .closed :: earlier →
      cfg.halfOpenMaxAttempts ≤ (probesIn (period earlier)).length) : Counting cfg w where
  probing := ⟨fun h => absurd h hstate, hclosed⟩
  counted h := absurd h hstate
  few h := absurd h hstate

theorem counting_init (t₀ : Time) : Counting cfg (.init t₀) :=
  .of_state (by simp [World.init]) fun earlier h => absurd h (by simp [World.init])

theorem start_history : (w.start w.breaker).history = .started w.ops w.now :: w.history := by
  simp [World.start, transition]

theorem Counting.admitted (h : Counting cfg w) (hne : w.breaker.state ≠ .OPEN)
    (hp : Paced cfg w .execute) : Counting cfg (w.start w.breaker) := by
  cases hstate : w.breaker.state with
  | OPEN => exact absurd hstate hne
  | CLOSED =>
    refine .of_state (by simp [World.start, hstate]) fun earlier he => ?_
    simp [World.start] at he
  | HALF_OPEN =>
    refine ⟨⟨fun _ => ?_, fun earlier he => ?_⟩, fun _ => ?_, fun _ => h.few hstate⟩
    · rw [start_history]
      exact hp hstate
    · simp [World.start] at he
    · rw [start_history]
      exact h.counted hstate

theorem counting_probed (hm : 1 ≤ cfg.halfOpenMaxAttempts) (hopen : w.breaker.state = .OPEN) :
    Counting cfg (w.start w.breaker.transitionToHalfOpen) := by
  have hhistory : (w.start w.breaker.transitionToHalfOpen).history =
      .started w.ops w.now :: .halfOpened :: w.history := by
    simp [World.start, transition, CircuitBreaker.transitionToHalfOpen, hopen]
  refine ⟨⟨fun _ => ?_, fun earlier he => ?_⟩, fun _ => ?_, fun _ => hm⟩
  · rw [hhistory]
    exact hm
  · simp [World.start] at he
  · rw [hhistory]
    rfl

/-! ## Ending -/

namespace CircuitBreaker

variable {b : CircuitBreaker} (now : Time)

theorem settle_closes (h : b.state = .HALF_OPEN)
    (hm : cfg.halfOpenMaxAttempts ≤ b.halfOpenAttempts + 1) :
    (b.settle cfg now true).state = .CLOSED := by
  simp [settle, onSuccess, h, hm, transitionToClosed]

theorem settle_counts (h : b.state = .HALF_OPEN)
    (hm : ¬ cfg.halfOpenMaxAttempts ≤ b.halfOpenAttempts + 1) :
    (b.settle cfg now true).state = .HALF_OPEN ∧
      (b.settle cfg now true).halfOpenAttempts = b.halfOpenAttempts + 1 := by
  simp [settle, onSuccess, h, hm]

theorem settle_other (cfg : CircuitBreakerConfig) {ok : Bool}
    (h : ok = true → b.state ≠ .HALF_OPEN) : (b.settle cfg now ok).state ≠ .HALF_OPEN ∧
      ((b.settle cfg now ok).state = .CLOSED → b.state = .CLOSED) := by
  cases ok <;> cases hstate : b.state <;>
    simp only [settle, onSuccess, onFailure, hstate, Bool.false_eq_true, if_true, if_false]
  case true.HALF_OPEN => exact absurd hstate (h rfl)
  all_goals try split
  all_goals simp [transitionToOpen]

end CircuitBreaker

theorem Counting.closes_iff (h : Counting cfg w) (op : Nat) (hstate : w.breaker.state = .HALF_OPEN)
    (hm : cfg.halfOpenMaxAttempts ≤ w.breaker.halfOpenAttempts + 1) :
    cfg.halfOpenMaxAttempts ≤ (probesIn (period (.succeeded op :: w.history))).length ↔
      ∀ op' ∈ op :: succeededIn (period w.history), op' ∈ startedIn (period w.history) := by
  have hprobes : probesIn (period (.succeeded op :: w.history)) =
      (op :: succeededIn (period w.history)).filter (· ∈ startedIn (period w.history)) := rfl
  have hlength : (op :: succeededIn (period w.history)).length = cfg.halfOpenMaxAttempts := by
    have hcounted := h.counted hstate
    have hfew := h.few hstate
    rw [length_cons]
    omega
  have hle := length_filter_le (· ∈ startedIn (period w.history))
    (op :: succeededIn (period w.history))
  rw [hprobes, ← hlength]
  constructor
  · intro hge op' hop'
    have hall := length_filter_eq_length_iff.mp (Nat.le_antisymm hle hge) op' hop'
    exact of_decide_eq_true hall
  · intro hall
    refine Nat.le_of_eq (Eq.symm (length_filter_eq_length_iff.mpr ?_))
    exact fun op' hop' => decide_eq_true (hall op' hop')

theorem settle_history_closes (op : Nat) (hstate : w.breaker.state = .HALF_OPEN)
    (hm : cfg.halfOpenMaxAttempts ≤ w.breaker.halfOpenAttempts + 1) :
    (w.settle cfg op true).history = .closed :: .succeeded op :: w.history := by
  simp [World.settle, transition, CircuitBreaker.settle_closes w.now hstate hm, hstate]

theorem settle_history_ne {op : Nat} {ok : Bool} {earlier : List Event}
    (h : (w.breaker.settle cfg w.now ok).state = .CLOSED → w.breaker.state = .CLOSED) :
    (w.settle cfg op ok).history ≠ .closed :: earlier := by
  simp only [World.settle, transition]
  split
  · cases ok <;> simp
  · rename_i hne
    split
    · simp
    · simp
    · rename_i hclosed
      exact absurd (hclosed.trans (h hclosed).symm) hne

theorem Counting.settled (h : Counting cfg w) {op : Nat} {ok : Bool}
    (hp : Paced cfg w (.settle op ok)) : Counting cfg (w.settle cfg op ok) := by
  by_cases hprobe : ok = true ∧ w.breaker.state = .HALF_OPEN
  · obtain ⟨rfl, hstate⟩ := hprobe
    by_cases hm : cfg.halfOpenMaxAttempts ≤ w.breaker.halfOpenAttempts + 1
    · have hclosed := CircuitBreaker.settle_closes w.now hstate hm
      refine .of_state (by simp [World.settle, hclosed]) fun earlier he => ?_
      rw [settle_history_closes op hstate hm] at he
      obtain rfl := (cons.inj he).2
      exact (h.closes_iff op hstate hm).mpr (hp hstate hm)
    · obtain ⟨hstate', hattempts⟩ := CircuitBreaker.settle_counts w.now hstate hm
      have hhistory : (w.settle cfg op true).history = .succeeded op :: w.history := by
        simp [World.settle, transition, hstate', hstate]
      refine ⟨⟨fun _ => ?_, fun earlier he => ?_⟩, fun _ => ?_, fun _ => ?_⟩
      · rw [hhistory]
        exact h.probing.started hstate
      · exact absurd (hhistory.symm.trans he) (by simp)
      · rw [hhistory]
        exact hattempts.trans (congrArg (· + 1) (h.counted hstate))
      · exact hattempts ▸ Nat.lt_of_not_le hm
  · obtain ⟨hstate', hclosed⟩ := CircuitBreaker.settle_other w.now cfg
      fun hok hstate => hprobe ⟨hok, hstate⟩
    refine .of_state hstate' fun earlier he => ?_
    exact absurd he (settle_history_ne hclosed)

theorem Counting.step (hm : 1 ≤ cfg.halfOpenMaxAttempts) (h : Counting cfg w)
    (hs : w.step cfg a = some w') (hp : Paced cfg w a) : Counting cfg w' := by
  cases World.step_cases hs with
  | admitted hne => exact h.admitted hne hp
  | probed hopen => exact counting_probed hm hopen
  | rejected => exact h
  | settled => exact h.settled hp
  | reset => exact .of_state (by simp [CircuitBreaker.reset]) fun _ he => absurd he (by simp)
  | ticked => exact ⟨⟨h.probing.started, h.probing.closed⟩, h.counted, h.few⟩

theorem Counting.paced (h : Counting cfg w) (hs : w.step cfg a = some w') (hp : Probing cfg w') :
    Paced cfg w a := by
  cases World.step_cases hs with
  | admitted hne =>
    intro hstate
    have hle := hp.started hstate
    rw [start_history] at hle
    exact hle
  | probed hopen | rejected hopen =>
    exact fun hstate => absurd (hopen.symm.trans hstate) (by decide)
  | @settled op ok =>
    cases ok with
    | false => trivial
    | true =>
      intro hstate hm
      exact (h.closes_iff op hstate hm).mp (hp.closed _ (settle_history_closes op hstate hm))
  | reset => trivial
  | ticked => trivial

/-- **The half-open state probes as it is meant to exactly on the paced runs.** -/
theorem probing_iff_paced (cfg : CircuitBreakerConfig) (hm : 1 ≤ cfg.halfOpenMaxAttempts)
    (t₀ : Time) (acts : List Action) : Always (World.step cfg) (Probing cfg) (.init t₀) acts ↔
      Guarded (World.step cfg) (Paced cfg) (.init t₀) acts :=
  always_iff_guarded Counting.probing (fun h hs hp => h.step hm hs hp)
    (fun h hs hp => h.paced hs hp) (counting_init t₀)

theorem probing_closes_after_probe : Always (World.step ⟨1, 10, 1⟩) (Probing ⟨1, 10, 1⟩) (.init 0)
      [.execute, .settle 0 false, .tick 10, .execute, .settle 1 true] :=
  (probing_iff_paced ⟨1, 10, 1⟩ (by decide) 0 _).mpr (by decide +kernel)

theorem half_open_admits_more : (∃ w, exec (World.step ⟨1, 10, 1⟩) (.init 0)
        [.execute, .settle 0 false, .tick 10, .execute, .execute] = some w ∧
      w.breaker.state = .HALF_OPEN ∧ startedIn (period w.history) = [2, 1] ∧
      ¬ Probing ⟨1, 10, 1⟩ w) ∧
    ∃ w, exec (World.step ⟨1, 10, 1⟩) (.init 0)
        [.execute, .execute, .settle 0 false, .tick 10, .execute, .settle 1 true] = some w ∧
      w.breaker.state = .CLOSED ∧ w.inFlight = [2] ∧ ¬ Probing ⟨1, 10, 1⟩ w := by
  constructor
  · have hrun : (exec (World.step ⟨1, 10, 1⟩) (.init 0)
        [.execute, .settle 0 false, .tick 10, .execute, .execute]).map
          (fun w => (w.breaker.state, startedIn (period w.history))) =
            some (.HALF_OPEN, [2, 1]) := by decide +kernel
    obtain ⟨w, hw, hfinal⟩ := Option.map_eq_some_iff.mp hrun
    obtain ⟨hstate, hstarted⟩ := Prod.mk.inj hfinal
    refine ⟨w, hw, hstate, hstarted, fun hp => ?_⟩
    exact absurd (hp.started hstate) (by rw [hstarted]; decide)
  · have hrun : (exec (World.step ⟨1, 10, 1⟩) (.init 0)
        [.execute, .execute, .settle 0 false, .tick 10, .execute, .settle 1 true]).map
          (fun w => (w.breaker.state, w.inFlight, w.history)) =
            some (.CLOSED, [2], [.closed, .succeeded 1, .started 2 10, .halfOpened, .opened 0,
              .failed 0, .started 1 0, .started 0 0]) := by decide +kernel
    obtain ⟨w, hw, hfinal⟩ := Option.map_eq_some_iff.mp hrun
    obtain ⟨hstate, hrest⟩ := Prod.mk.inj hfinal
    obtain ⟨hflight, hhistory⟩ := Prod.mk.inj hrest
    exact ⟨w, hw, hstate, hflight, fun hp => absurd (hp.closed _ hhistory) (by decide)⟩

end Bridge.Breaker
