import Bridge.UseCases.CollaborativeExecution

/-!
# When a collaboration mode returns

The four modes call the adapters one after another, all at once, or in a loop; none of them looks at
the stored tasks. `executeMode_returns` says for each mode which of the calls it makes have to
resolve for the mode to return, and `keeps_executeMode` that the tasks are as they were either way.
-/

namespace Bridge.UseCases.Collaborative

open Lib Lib.Prog Domain List Option

section Calls

variable {α β : Type} {w w' : World} {ok : Bool}

@[simp] theorem on_awaits_some {a : α} : on (awaits (some a)) w = (.ok a, w) := rfl

@[simp] theorem on_awaits_none : on (awaits (none : Option α)) w = (.error .other, w) := rfl

theorem on_awaits_eq_ok {o : Option α} {a : α} :
    on (awaits o) w = (.ok a, w') ↔ o = some a ∧ w' = w := by
  cases o with
  | none => simp
  | some b => simp [eq_comm]

theorem returns_awaits_bind {o : Option α} {f : α → Method β} :
    Returns (awaits o >>= f) w ↔ ∃ a, o = some a ∧ Returns (f a) w := by
  rw [returns_bind]
  constructor
  · intro hx
    obtain ⟨a, w', h, hf⟩ := hx
    obtain ⟨rfl, rfl⟩ := on_awaits_eq_ok.mp h
    exact ⟨a, rfl, hf⟩
  · rintro ⟨a, rfl, hf⟩
    exact ⟨a, w, rfl, hf⟩

variable {g : World → World}

theorem effect_ok {u : Unit} (h : on (effect ok g) w = (.ok u, w')) : ok = true ∧ w' = g w := by
  cases ok with
  | false => simp [effect] at h
  | true =>
    cases h
    exact ⟨rfl, rfl⟩

theorem effect_error {e : Failure} (h : on (effect ok g) w = (.error e, w')) :
    ok = false ∧ w' = w := by
  cases ok with
  | false =>
    cases h
    exact ⟨rfl, rfl⟩
  | true => simp [effect] at h

theorem returns_effect_bind {f : Unit → Method β} :
    Returns (effect ok g >>= f) w ↔ ok = true ∧ Returns (f ()) (g w) := by
  rw [returns_bind]
  constructor
  · intro hx
    obtain ⟨u, w', h, hf⟩ := hx
    obtain ⟨rfl, rfl⟩ := effect_ok h
    exact ⟨rfl, hf⟩
  · rintro ⟨rfl, hf⟩
    exact ⟨(), g w, rfl, hf⟩

end Calls

/-! ## The tasks are left alone -/

def SameTasks (w w' : World) : Prop := w'.repo = w.repo

instance : Std.Refl SameTasks := ⟨fun _ => rfl⟩

instance : IsTrans World SameTasks := ⟨fun _ _ _ h h' => h'.trans h⟩

theorem keeps_awaits {α : Type} {o : Option α} : Keeps SameTasks (awaits o) := by
  cases o with
  | none => exact keeps_throw
  | some a => exact keeps_pure

theorem keeps_saveResult {ok : Bool} {r : SavedResult} : Keeps SameTasks (saveResult ok r) := by
  intro w
  cases ok <;> rfl

section Modes

variable {env : Env} {cmd : Command} {task : Task}

variable {adapters : List AdapterType} {steps : List CollaborationStep} {saved : List SavedResult}
  {input : String}

theorem keeps_sequentialSteps :
    Keeps SameTasks (sequentialSteps env cmd task input steps saved adapters) := by
  induction adapters generalizing input steps saved with
  | nil => exact keeps_pure
  | cons a as ih =>
    apply keeps_awaits.bind
    intro output
    split
    · exact keeps_saveResult.bind fun _ => ih
    · exact ih

variable {iteration : Nat} {prev : Option String} {i : Nat}

theorem keeps_iterativePass :
    Keeps SameTasks (iterativePass env task iteration i prev steps adapters) := by
  induction adapters generalizing i prev steps with
  | nil => exact keeps_pure
  | cons a as ih => exact keeps_awaits.bind fun _ => ih

theorem keeps_iterativeLoop {n : Nat} :
    Keeps SameTasks (iterativeLoop env cmd task adapters n iteration prev steps) := by
  induction n generalizing iteration prev steps with
  | zero => exact keeps_pure
  | succ n ih =>
    apply keeps_iterativePass.bind
    intro hx
    obtain ⟨prev, steps⟩ := hx
    dsimp only
    split
    · exact keeps_pure
    · exact ih

theorem keeps_executeReview : Keeps SameTasks (executeReview env task adapters) := by
  unfold executeReview
  split
  · exact keeps_awaits.bind fun _ => keeps_awaits.bind fun _ => keeps_pure
  · exact keeps_throw

/-- **No mode touches the tasks.** -/
theorem keeps_executeMode : Keeps SameTasks (executeMode env cmd task adapters) := by
  unfold executeMode
  split
  · exact keeps_sequentialSteps.bind fun _ => keeps_awaits.bind fun _ => keeps_pure
  · exact keeps_awaits.bind fun _ => keeps_awaits.bind fun _ => keeps_pure
  · exact keeps_executeReview
  · exact keeps_iterativeLoop.bind fun _ => keeps_awaits.bind fun _ => keeps_pure
  · exact keeps_throw

theorem forall_block_succ {P : Nat → Prop} {m n : Nat} :
    (∀ k, m ≤ k → k < m + (n + 1) → P k) ↔ P m ∧ ∀ k, m + 1 ≤ k → k < m + 1 + n → P k := by
  constructor
  · intro h
    exact ⟨h m (Nat.le_refl m) (by omega), fun k hk hk' => h k (by omega) (by omega)⟩
  · intro hx k hk hk'
    obtain ⟨hfirst, hrest⟩ := hx
    rcases Nat.eq_or_lt_of_le hk with rfl | hlt
    · exact hfirst
    · exact hrest k hlt (by omega)

variable {w : World}

theorem sequentialSteps_length {w' : World} {r : List CollaborationStep × List SavedResult}
    (h : on (sequentialSteps env cmd task input steps saved adapters) w = (.ok r, w')) :
    r.1.length = steps.length + adapters.length := by
  induction adapters generalizing input steps saved w with
  | nil =>
    cases h
    rfl
  | cons a as ih =>
    obtain ⟨output, w₁, -, h⟩ := on_bind_eq_ok.mp h
    split at h
    · obtain ⟨-, w₂, -, h⟩ := on_bind_eq_ok.mp h
      rw [ih h]
      simp only [length_append, length_cons, length_nil]
      omega
    · rw [ih h]
      simp only [length_append, length_cons, length_nil]
      omega

def StepReturns (env : Env) (cmd : Command) (k : Nat) : Prop :=
  (env.adapter k).isSome = true ∧ (cmd.includeIntermediateResults = true → env.savesResult k = true)

theorem sequentialSteps_returns :
    Returns (sequentialSteps env cmd task input steps saved adapters) w ↔
      ∀ k, steps.length ≤ k → k < steps.length + adapters.length → StepReturns env cmd k := by
  induction adapters generalizing input steps saved w with
  | nil =>
    refine iff_of_true returns_pure ?_
    intro k hk hk'
    exact absurd hk' (Nat.not_lt.mpr hk)
  | cons a as ih =>
    rw [length_cons, forall_block_succ, sequentialSteps, returns_awaits_bind]
    have hrest {input : String} {step : CollaborationStep} {saved : List SavedResult} {w : World} :
        Returns (sequentialSteps env cmd task input (steps ++ [step]) saved as) w ↔
          ∀ k, steps.length + 1 ≤ k → k < steps.length + 1 + as.length → StepReturns env cmd k := by
      rw [ih, length_append, length_singleton]
    cases hinc : cmd.includeIntermediateResults with
    | false =>
      simp only [Bool.false_eq_true, if_false, hrest, exists_and_right, StepReturns, hinc,
        isSome_iff_exists, false_imp_iff, and_true]
    | true =>
      simp only [if_true, saveResult, returns_effect_bind, hrest, StepReturns, hinc,
        isSome_iff_exists, exists_and_right, true_imp_iff, and_assoc]

theorem mapM_zipIdx_isSome : ((adapters.zipIdx i).mapM fun (p : AdapterType × Nat) =>
        (env.adapter p.2).map (p.1, ·)).isSome = true ↔
      ∀ k, i ≤ k → k < i + adapters.length → (env.adapter k).isSome = true := by
  induction adapters generalizing i with
  | nil =>
    refine iff_of_true rfl ?_
    intro k hk hk'
    exact absurd hk' (Nat.not_lt.mpr hk)
  | cons a as ih =>
    rw [length_cons, forall_block_succ, ← ih, zipIdx_cons, mapM_cons]
    cases env.adapter i with
    | none => simp
    | some output =>
      cases (as.zipIdx (i + 1)).mapM fun p => (env.adapter p.2).map (p.1, ·) <;> simp

/-! ## Iterative -/

def Recorded (env : Env) (steps : List CollaborationStep) : Prop :=
  ∀ (k : Nat) (s : CollaborationStep), steps[k]? = some s → env.adapter k = some s.output

theorem forall_step_append {P : Nat → CollaborationStep → Prop} {s : CollaborationStep}
    (h : ∀ k t, steps[k]? = some t → P k t) (hs : P steps.length s) (k : Nat)
    (t : CollaborationStep) (ht : (steps ++ [s])[k]? = some t) : P k t := by
  rw [getElem?_append] at ht
  split at ht
  · exact h k t ht
  · rename_i hk
    have hlt : k - steps.length < 1 := (List.getElem?_eq_some_iff.mp ht).1
    rw [show k - steps.length = 0 by omega] at ht
    cases ht
    rwa [show k = steps.length by omega]

theorem Recorded.append {s : CollaborationStep}
    (h : Recorded env steps) (hs : env.adapter steps.length = some s.output) :
    Recorded env (steps ++ [s]) :=
  forall_step_append h hs

theorem iterativePass_ok {w' : World} {r : Option String × List CollaborationStep}
    (hrec : Recorded env steps)
    (h : on (iterativePass env task iteration i prev steps adapters) w = (.ok r, w')) :
    Recorded env r.2 ∧ r.2.length = steps.length + adapters.length := by
  induction adapters generalizing i prev steps w with
  | nil =>
    cases h
    exact ⟨hrec, rfl⟩
  | cons a as ih =>
    obtain ⟨output, w₁, hcall, h⟩ := on_bind_eq_ok.mp h
    obtain ⟨hrec', hlen⟩ := ih (hrec.append (on_awaits_eq_ok.mp hcall).1) h
    refine ⟨hrec', ?_⟩
    rw [hlen]
    simp only [length_append, length_cons, length_nil]
    omega

theorem iterativePass_returns : Returns (iterativePass env task iteration i prev steps adapters) w ↔
      ∀ k, steps.length ≤ k → k < steps.length + adapters.length →
        (env.adapter k).isSome = true := by
  induction adapters generalizing i prev steps w with
  | nil =>
    refine iff_of_true returns_pure ?_
    intro k hk hk'
    exact absurd hk' (Nat.not_lt.mpr hk)
  | cons a as ih =>
    rw [length_cons, forall_block_succ, iterativePass, returns_awaits_bind]
    simp only [ih, length_append, length_singleton, isSome_iff_exists, exists_and_right]

/-- The two last of the first `m` adapter calls have given outputs that agree. -/
def Env.agrees (env : Env) (m : Nat) : Bool :=
  match env.adapter (m - 2), env.adapter (m - 1) with
  | some first, some second => checkConsensus env.lower [first, second]
  | _, _ => false

theorem checkConsensus_lastTwoOutputs (h : Recorded env steps) (hlen : 2 ≤ steps.length) :
    checkConsensus env.lower (lastTwoOutputs steps) = env.agrees steps.length := by
  have hfirst : steps.length - 2 < steps.length := by omega
  have hsecond : steps.length - 2 + 1 < steps.length := by omega
  have hdrop : steps.drop (steps.length - 2) =
      [steps[steps.length - 2], steps[steps.length - 2 + 1]] := by
    rw [drop_eq_getElem_cons, drop_eq_getElem_cons, drop_eq_nil_of_le (by omega)]
  rw [lastTwoOutputs, hdrop, Env.agrees, h _ _ (getElem?_eq_getElem hfirst),
    show steps.length - 1 = steps.length - 2 + 1 by omega,
    h _ _ (getElem?_eq_getElem hsecond)]
  rfl

/-- The loop, when it has `n` adapters to call, may end after `j` iterations out of `last`. -/
def StopsAfter (env : Env) (cmd : Command) (n last j : Nat) : Prop :=
  j = last ∨ (cmd.stopOnConsensus = true ∧ 1 < j ∧ env.agrees (j * n) = true)

theorem stops_iff {n : Nat} (hn : 0 < n)
    (hrec : Recorded env steps) (hlen : steps.length = (iteration + 1) * n) :
    (cmd.stopOnConsensus && decide (0 < iteration) &&
        checkConsensus env.lower (lastTwoOutputs steps)) = true ↔
      cmd.stopOnConsensus = true ∧ 1 < iteration + 1 ∧ env.agrees ((iteration + 1) * n) = true := by
  rcases Nat.eq_zero_or_pos iteration with rfl | hpos
  · simp
  · have htwo : 2 ≤ steps.length := by
      rw [hlen]
      calc 2 ≤ iteration + 1 := by omega
        _ ≤ (iteration + 1) * n := Nat.le_mul_of_pos_right _ hn
    rw [checkConsensus_lastTwoOutputs hrec htwo, hlen]
    simp [hpos]

theorem iterativeLoop_returns (hn : 0 < adapters.length)
    {m iteration : Nat} {prev : Option String} {steps : List CollaborationStep} {w : World}
    (hrec : Recorded env steps) (hlen : steps.length = iteration * adapters.length) :
    Returns (iterativeLoop env cmd task adapters m iteration prev steps) w ↔ m = 0 ∨
      ∃ j, iteration < j ∧ j ≤ iteration + m ∧
        (∀ k, iteration * adapters.length ≤ k → k < j * adapters.length →
          (env.adapter k).isSome = true) ∧
        StopsAfter env cmd adapters.length (iteration + m) j := by
  induction m generalizing iteration prev steps w with
  | zero => exact iff_of_true returns_pure (.inl rfl)
  | succ m ih =>
    have hnext : steps.length + adapters.length = (iteration + 1) * adapters.length := by
      rw [hlen, Nat.succ_mul]
    rw [iterativeLoop, returns_bind]
    constructor
    · intro hx
      obtain ⟨⟨prev', steps'⟩, w', hpass, hrest⟩ := hx
      obtain ⟨hrec', hlen'⟩ := iterativePass_ok hrec hpass
      have hcalls := iterativePass_returns.mp ⟨_, _, hpass⟩
      rw [hnext, hlen] at hcalls
      rw [hnext] at hlen'
      refine .inr ?_
      dsimp only at hrest
      split_ifs at hrest with hstop
      · refine ⟨iteration + 1, by omega, by omega, hcalls, .inr ?_⟩
        exact (stops_iff hn hrec' hlen').mp hstop
      · rcases (ih hrec' hlen').mp hrest with rfl | ⟨j, hj, hjm, hmore, hstop⟩
        · exact ⟨iteration + 1, by omega, by omega, hcalls, .inl rfl⟩
        · refine ⟨j, by omega, by omega, fun k hk hk' => ?_, ?_⟩
          · rcases Nat.lt_or_ge k ((iteration + 1) * adapters.length) with hlt | hge
            · exact hcalls k hk hlt
            · exact hmore k hge hk'
          · rwa [Nat.add_right_comm] at hstop
    · rintro (h | ⟨j, hj, hjm, hcalls, hstop⟩)
      · exact absurd h (Nat.succ_ne_zero m)
      have hle : (iteration + 1) * adapters.length ≤ j * adapters.length :=
        Nat.mul_le_mul_right _ hj
      obtain ⟨⟨prev', steps'⟩, w', hpass⟩ : Returns
          (iterativePass env task iteration 0 prev steps adapters) w := by
        rw [iterativePass_returns, hnext, hlen]
        exact fun k hk hk' => hcalls k hk (Nat.lt_of_lt_of_le hk' hle)
      obtain ⟨hrec', hlen'⟩ := iterativePass_ok hrec hpass
      rw [hnext] at hlen'
      refine ⟨_, _, hpass, ?_⟩
      dsimp only
      split
      · exact returns_pure
      · rename_i hgo
        rw [ih hrec' hlen']
        -- the loop goes on: it ends neither here nor by consensus
        rcases Nat.eq_or_lt_of_le hj with rfl | hlt
        · rcases hstop with hlast | hstop
          · exact .inl (by omega)
          · exact absurd ((stops_iff hn hrec' hlen').mpr hstop) hgo
        · refine .inr ⟨j, hlt, by omega, fun k hk hk' => hcalls k ?_ hk', ?_⟩
          · exact Nat.le_trans (Nat.mul_le_mul_right _ (Nat.le_succ _)) hk
          · rwa [Nat.add_right_comm]

theorem iterativeLoop_length {m : Nat} {w' : World} {r : List CollaborationStep × Bool}
    (hrec : Recorded env steps)
    (h : on (iterativeLoop env cmd task adapters m iteration prev steps) w = (.ok r, w')) :
    (if m = 0 then steps.length else steps.length + adapters.length) ≤ r.1.length := by
  induction m generalizing iteration prev steps w with
  | zero =>
    cases h
    exact Nat.le_refl _
  | succ m ih =>
    obtain ⟨⟨prev', steps'⟩, w₁, hpass, h⟩ := on_bind_eq_ok.mp h
    obtain ⟨hrec', hlen⟩ := iterativePass_ok hrec hpass
    rw [if_neg (Nat.succ_ne_zero m), ← hlen]
    dsimp only at h
    split at h
    · cases h
      exact Nat.le_refl _
    · refine Nat.le_trans ?_ (ih hrec' h)
      split <;> omega

theorem returns_lastOutput_bind {β : Type} {f : String → Method β}
    (hf : ∀ output, Returns (f output) w) :
    Returns (lastOutput steps >>= f) w ↔ 0 < steps.length := by
  rw [lastOutput, returns_awaits_bind, length_pos_iff]
  constructor
  · rintro ⟨output, h, -⟩ rfl
    cases h
  · intro h
    exact ⟨_, by rw [getLast?_eq_some_getLast h]; rfl, hf _⟩

/-- **Which calls have to resolve for a mode with `n` adapters to return.** -/
def ModeReturns (env : Env) (cmd : Command) (n : Nat) : Prop :=
  match cmd.mode with
  | .sequential => ∀ k < n, StepReturns env cmd k
  | .parallel => (∀ k < n, (env.adapter k).isSome = true) ∧
      (env.merge (cmd.mergeStrategy.getD .combine)).isSome = true
  | .review => n = 2 ∧ ∀ k < 2, (env.adapter k).isSome = true
  | .iterative => ∃ j, 0 < j ∧ j ≤ cmd.iterations ∧ (∀ k < j * n, (env.adapter k).isSome = true) ∧
      StopsAfter env cmd n cmd.iterations j
  | .unknown _ => False

theorem executeSequential_returns
    (hn : 2 ≤ adapters.length) : Returns (executeSequential env cmd task adapters) w ↔
      ∀ k < adapters.length, StepReturns env cmd k := by
  have hsteps : Returns (sequentialSteps env cmd task task.prompt [] [] adapters) w ↔
      ∀ k < adapters.length, StepReturns env cmd k := by
    rw [sequentialSteps_returns]
    simp
  rw [← hsteps, executeSequential, returns_bind]
  constructor
  · rintro ⟨r, w', h, -⟩
    exact ⟨r, w', h⟩
  · intro hx
    obtain ⟨⟨steps, saved⟩, w', h⟩ := hx
    have hlen := sequentialSteps_length h
    refine ⟨_, w', h, ?_⟩
    rw [returns_lastOutput_bind fun _ => returns_pure]
    simp only [length_nil] at hlen
    omega

theorem executeParallel_returns : Returns (executeParallel env cmd task adapters) w ↔
      (∀ k < adapters.length, (env.adapter k).isSome = true) ∧
        (env.merge (cmd.mergeStrategy.getD .combine)).isSome = true := by
  have hcalls : (parallelOutputs env adapters).isSome = true ↔
      ∀ k < adapters.length, (env.adapter k).isSome = true := by
    rw [parallelOutputs, mapM_zipIdx_isSome]
    simp
  rw [← hcalls, executeParallel, returns_awaits_bind]
  simp only [returns_awaits_bind, returns_pure, and_true, isSome_iff_exists, exists_and_right]

theorem executeReview_returns : Returns (executeReview env task adapters) w ↔
      adapters.length = 2 ∧ ∀ k < 2, (env.adapter k).isSome = true := by
  unfold executeReview
  split
  · simp only [returns_awaits_bind, returns_pure, and_true, exists_and_right, length_cons,
      length_nil, Nat.reduceAdd, true_and, ← isSome_iff_exists]
    constructor
    · intro hx k hk
      obtain ⟨hfirst, hsecond⟩ := hx
      obtain rfl | rfl : k = 0 ∨ k = 1 := by omega
      · exact hfirst
      · exact hsecond
    · intro h
      exact ⟨h 0 (by omega), h 1 (by omega)⟩
  · rename_i hne
    refine iff_of_false not_returns_throw ?_
    rintro ⟨hlen, -⟩
    obtain ⟨a, b, rfl⟩ := length_eq_two.mp hlen
    exact hne a b rfl

theorem executeIterative_returns
    (hn : 2 ≤ adapters.length) : Returns (executeIterative env cmd task adapters) w ↔
      ∃ j, 0 < j ∧ j ≤ cmd.iterations ∧ (∀ k < j * adapters.length, (env.adapter k).isSome = true) ∧
        StopsAfter env cmd adapters.length cmd.iterations j := by
  have hrec : Recorded env [] := fun k s hs => absurd hs (by simp)
  have hloop : Returns (iterativeLoop env cmd task adapters cmd.iterations 0 none []) w ↔
      cmd.iterations = 0 ∨ ∃ j, 0 < j ∧ j ≤ cmd.iterations ∧
        (∀ k < j * adapters.length, (env.adapter k).isSome = true) ∧
        StopsAfter env cmd adapters.length cmd.iterations j := by
    rw [iterativeLoop_returns (by omega) hrec (by simp)]
    simp
  rw [executeIterative, returns_bind]
  constructor
  · intro hx
    obtain ⟨⟨steps, consensus⟩, w', h, hrest⟩ := hx
    rcases hloop.mp ⟨_, _, h⟩ with hzero | hsome
    · -- the loop has not run, and there is no last step
      rw [hzero] at h
      cases h
      exact absurd ((returns_lastOutput_bind fun _ => returns_pure).mp hrest) (by simp)
    · exact hsome
  · intro hsome
    obtain ⟨⟨steps, consensus⟩, w', h⟩ := hloop.mpr (.inr hsome)
    obtain ⟨j, hpos, hle, -⟩ := hsome
    have hlen := iterativeLoop_length hrec h
    rw [if_neg (by omega)] at hlen
    refine ⟨_, w', h, (returns_lastOutput_bind fun _ => returns_pure).mpr ?_⟩
    simp only [length_nil] at hlen
    omega

/-- **When a mode returns.** -/
theorem executeMode_returns (hn : 2 ≤ adapters.length) :
    Returns (executeMode env cmd task adapters) w ↔ ModeReturns env cmd adapters.length := by
  unfold executeMode ModeReturns
  cases cmd.mode with
  | sequential => exact executeSequential_returns hn
  | parallel => exact executeParallel_returns
  | review => exact executeReview_returns
  | iterative => exact executeIterative_returns hn
  | unknown text => exact iff_of_false not_returns_throw id

end Modes

end Bridge.UseCases.Collaborative
