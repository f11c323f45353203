import Bridge.UseCases.CollaborativeRejection

/-!
# What an iterative collaboration does

Two nested loops share the list of steps and the last output. `AreSteps` says all that there is to
say of a step from its place in the list alone: who made it, from what input, with what output. One
turn of the inner loop adds a step of that kind, so a round adds one for each adapter
(`iterativePass_steps`), and the rounds go on until two outputs agree or there are none left
(`iterativeLoop_steps`).
-/

namespace Bridge.UseCases.Collaborative

open Lib Lib.Prog Domain List

def refinementPrompt (originalInput previousOutput : String) (iteration adapterIndex : Nat) :
    String :=
  s!"Iteration {iteration + 1}, Step {adapterIndex + 1}:\n\n" ++
    s!"Original Task: {originalInput}\n\n" ++
    s!"Previous Output:\n{previousOutput}\n\n" ++
    "Please refine or build upon the previous output."

section

variable {env : Env} {cmd : Command} {task : Task} {adapters : List AdapterType}
    {output : Nat → String}

/-- The output before the step at place `k`. -/
def previous (output : Nat → String) : Nat → Option String
  | 0 => none
  | k + 1 => some (output k)

/-- What the step at place `k` is, from `0` on, if the calls of the adapters give these outputs. -/
structure IsStep (env : Env) (task : Task) (adapters : List AdapterType) (output : Nat → String)
    (k : Nat) (s : CollaborationStep) : Prop where
  step : s.step = k + 1
  adapter : adapters[k % adapters.length]? = some s.adapter
  fresh : k = 0 ∨ output (k - 1) = "" → s.input = task.prompt
  refined : k ≠ 0 → output (k - 1) ≠ "" → s.input =
    refinementPrompt task.prompt (output (k - 1)) (k / adapters.length) (k % adapters.length)
  output : s.output = output k
  executionTime : s.executionTime = env.elapsed k

def AreSteps (env : Env) (task : Task) (adapters : List AdapterType) (output : Nat → String)
    (steps : List CollaborationStep) : Prop :=
  ∀ k s, steps[k]? = some s → IsStep env task adapters output k s

variable {steps : List CollaborationStep}

theorem AreSteps.recorded (h : AreSteps env task adapters output steps)
    (houtput : ∀ k, env.adapter k = some (output k)) : Recorded env steps := by
  intro k s hs
  rw [houtput, (h k s hs).output]

theorem prepareIterativeInput_fresh {prompt : String} {iteration i k : Nat}
    (h : k = 0 ∨ output (k - 1) = "") :
    prepareIterativeInput prompt (previous output k) iteration i = prompt := by
  cases k with
  | zero => rfl
  | succ k =>
    obtain hk | hk := h
    · exact absurd hk (Nat.succ_ne_zero k)
    · have hnone : (previous output (k + 1)).filter (fun text => decide (text ≠ "")) = none := by
        rw [previous, Option.filter_some]
        exact if_neg (by simpa using hk)
      simp only [prepareIterativeInput, hnone]

theorem prepareIterativeInput_refined {prompt : String} {iteration i k : Nat} (hk : k ≠ 0)
    (h : output (k - 1) ≠ "") : prepareIterativeInput prompt (previous output k) iteration i =
      refinementPrompt prompt (output (k - 1)) iteration i := by
  cases k with
  | zero => exact absurd rfl hk
  | succ k =>
    have hsome : (previous output (k + 1)).filter (fun text => decide (text ≠ "")) =
      some (output k) := by
      rw [previous, Option.filter_some]
      exact if_pos (decide_eq_true h)
    simp only [prepareIterativeInput, hsome]
    rfl

theorem isStep_of_turn {a : AdapterType} {iteration i : Nat} (ha : adapters[i]? = some a) {k : Nat}
    (hk : k = iteration * adapters.length + i) : IsStep env task adapters output k
      ⟨k + 1, a, prepareIterativeInput task.prompt (previous output k) iteration i, output k,
        env.elapsed k⟩ := by
  have hi : i < adapters.length := (List.getElem?_eq_some_iff.mp ha).1
  have hmod : k % adapters.length = i := by
    rw [hk, Nat.mul_comm, Nat.mul_add_mod, Nat.mod_eq_of_lt hi]
  have hdiv : k / adapters.length = iteration := by
    rw [hk, Nat.mul_comm, Nat.mul_add_div (Nat.zero_lt_of_lt hi), Nat.div_eq_of_lt hi, Nat.add_zero]
  refine ⟨rfl, ?_, prepareIterativeInput_fresh, ?_, rfl, rfl⟩
  · rw [hmod]
    exact ha
  · intro hne htext
    rw [hmod, hdiv]
    exact prepareIterativeInput_refined hne htext

theorem iterativePass_steps (houtput : ∀ k, env.adapter k = some (output k))
    (before rest : List AdapterType)
    (hadapters : adapters = before ++ rest) {iteration : Nat} (hlen : steps.length = iteration *
      adapters.length + before.length)
    (hsteps : AreSteps env task adapters output steps) (w : World) :
    ∃ steps', on (iterativePass env task iteration before.length (previous output steps.length)
        steps rest) w = (.ok (previous output steps'.length, steps'), w) ∧
      steps'.length = (iteration + 1) * adapters.length ∧ AreSteps env task adapters output
        steps' := by
  induction rest generalizing before steps with
  | nil =>
    refine ⟨steps, rfl, ?_, hsteps⟩
    rw [hlen, hadapters, append_nil, Nat.succ_mul]
  | cons a rest ih =>
    have ha : adapters[before.length]? = some a := by
      rw [hadapters, getElem?_append_right (Nat.le_refl _), Nat.sub_self]
      rfl
    let step : CollaborationStep :=
      ⟨steps.length + 1, a,
        prepareIterativeInput task.prompt (previous output steps.length) iteration before.length,
        output steps.length, env.elapsed steps.length⟩
    have hturn := forall_step_append hsteps (isStep_of_turn ha hlen)
    have hmore : (steps ++ [step]).length = iteration * adapters.length +
      (before ++ [a]).length := by
      rw [length_append, length_append, hlen]
      rfl
    obtain ⟨steps', hpass, hrest⟩ := ih (before ++ [a]) (by rw [hadapters, append_cons]) hmore hturn
    refine ⟨steps', ?_, hrest⟩
    rw [length_append, length_append] at hpass
    have hcall : on (awaits (env.adapter steps.length)) w = (.ok (output steps.length), w) := by
      rw [houtput]
      rfl
    rw [iterativePass, on_bind_ok hcall]
    exact hpass

/-! ## The rounds -/

/-- The last two outputs of a round pass `checkConsensus`. -/
def RoundAgrees (lower : String → String) (output : Nat → String) (n round : Nat) : Prop :=
  checkConsensus lower [output (round * n - 2), output (round * n - 1)] = true

theorem roundAgrees_iff (houtput : ∀ k, env.adapter k = some (output k)) {n round : Nat} :
    env.agrees (round * n) = true ↔ RoundAgrees env.lower output n round := by
  rw [Env.agrees, houtput, houtput]
  rfl

/-- Up to round `last`, with `n` adapters, and the rounds after `done` to come: the first round from
the second on that agrees, if the command stops there; or all of them. -/
def EndsAfter (env : Env) (cmd : Command) (output : Nat → String) (n done last round : Nat)
    (consensus : Bool) : Prop :=
  (consensus = true ∧ cmd.stopOnConsensus = true ∧ done < round ∧ 2 ≤ round ∧ round ≤ last ∧
      RoundAgrees env.lower output n round ∧
      ∀ r, done < r → 2 ≤ r → r < round → ¬ RoundAgrees env.lower output n r) ∨
    (consensus = false ∧ round = last ∧
      (cmd.stopOnConsensus = true → ∀ r, done < r → 2 ≤ r → r ≤ last → ¬ RoundAgrees env.lower
        output n r))

theorem iterativeLoop_steps (houtput : ∀ k, env.adapter k = some (output k)) (cmd : Command)
    (task : Task)
    (adapters : List AdapterType) (hn : 0 < adapters.length) (m iteration : Nat)
      (steps : List CollaborationStep)
    (hlen : steps.length = iteration * adapters.length)
    (hsteps : AreSteps env task adapters output steps) (w : World) : ∃ steps' consensus round,
      on (iterativeLoop env cmd task adapters m iteration (previous output steps.length) steps) w =
        (.ok (steps', consensus), w) ∧
      steps'.length = round * adapters.length ∧ AreSteps env task adapters output steps' ∧
      EndsAfter env cmd output adapters.length iteration (iteration + m) round consensus := by
  induction m generalizing iteration steps with
  | zero =>
    refine ⟨steps, false, iteration, rfl, hlen, hsteps, .inr ⟨rfl, rfl, ?_⟩⟩
    intro _ r hr _ hle
    omega
  | succ m ih =>
    obtain ⟨steps₁, hpass, hlen₁, hsteps₁⟩ : ∃ steps₁,
        on (iterativePass env task iteration 0 (previous output steps.length) steps adapters) w =
          (.ok (previous output steps₁.length, steps₁), w) ∧
        steps₁.length = (iteration + 1) * adapters.length ∧ AreSteps env task adapters
          output steps₁ :=
      iterativePass_steps houtput [] adapters rfl hlen hsteps w
    rw [iterativeLoop, on_bind_ok hpass]
    dsimp only
    have hrecorded := hsteps₁.recorded houtput
    split_ifs with htest
    · obtain ⟨hcmd, htwo, hagrees⟩ := (stops_iff hn hrecorded hlen₁).mp htest
      rw [roundAgrees_iff houtput] at hagrees
      refine ⟨steps₁, true, iteration + 1, rfl, hlen₁, hsteps₁, .inl ⟨rfl, hcmd, ?_⟩⟩
      refine ⟨by omega, htwo, by omega, hagrees, fun r hr _ hlt => by omega⟩
    · obtain ⟨steps', consensus, round, hloop, hlen', hsteps', hends⟩ :=
        ih (iteration + 1) steps₁ hlen₁ hsteps₁
      refine ⟨steps', consensus, round, hloop, hlen', hsteps', ?_⟩
      -- this round did not agree, if that matters
      have hthis : cmd.stopOnConsensus = true → 2 ≤ iteration + 1 →
          ¬ RoundAgrees env.lower output adapters.length (iteration + 1) := by
        intro hcmd htwo hagrees
        exact htest ((stops_iff hn hrecorded hlen₁).mpr
          ⟨hcmd, htwo, (roundAgrees_iff houtput).mpr hagrees⟩)
      have hsplit : ∀ r, iteration < r → r = iteration + 1 ∨ iteration + 1 < r := by
        intro r hr
        omega
      obtain ⟨hc, hcmd, hdone, htwo, hlast, hagrees, hfirst⟩ | ⟨hc, hround, hnone⟩ := hends
      · refine .inl ⟨hc, hcmd, by omega, htwo, by omega, hagrees, ?_⟩
        intro r hr hr2 hlt
        obtain rfl | hr := hsplit r hr
        · exact hthis hcmd hr2
        · exact hfirst r hr hr2 hlt
      · refine .inr ⟨hc, by omega, ?_⟩
        intro hcmd r hr hr2 hle
        obtain rfl | hr := hsplit r hr
        · exact hthis hcmd hr2
        · exact hnone hcmd r hr hr2 (by omega)

theorem lastOutput_steps (hsteps : AreSteps env task adapters output steps)
    (hlen : 0 < steps.length) (w : World) :
    on (lastOutput steps) w = (.ok (output (steps.length - 1)), w) := by
  have hlast : steps.length - 1 < steps.length := by omega
  have hget : steps.getLast? = some steps[steps.length - 1] := by
    rw [getLast?_eq_getElem?, getElem?_eq_getElem]
  rw [lastOutput, hget, Option.map_some, (hsteps _ _ (getElem?_eq_getElem hlast)).output]
  rfl

/-- **What an iterative collaboration returns**, for all adapters, iterations and outputs. -/
theorem executeIterative_exact (env : Env) (cmd : Command) (task : Task)
    (adapters : List AdapterType)
    (output : Nat → String) (m : Nat) (w : World) (hadapters : 2 ≤ adapters.length)
    (hm : cmd.maxIterations = some (m : Int)) (hpos : 1 ≤ m)
    (houtput : ∀ k, env.adapter k = some (output k)) :
    ∃ result consensus round, on (executeIterative env cmd task adapters) w = (.ok result, w) ∧
      result.steps.length = adapters.length * round ∧
      (∀ k s, result.steps[k]? = some s → IsStep env task adapters output k s) ∧
      EndsAfter env cmd output adapters.length 0 m round consensus ∧
      result.consensus = some consensus ∧
      result.finalOutput = output (adapters.length * round - 1) := by
  have hiterations : cmd.iterations = m := by
    simp only [Command.iterations, hm]
    rw [if_neg (by omega), Int.toNat_natCast]
  obtain ⟨steps, consensus, round, hloop, hlen, hsteps, hends⟩ :=
    iterativeLoop_steps houtput cmd task adapters (by omega) m 0 [] (by simp)
      (fun k s hs => by cases hs) w
  rw [Nat.zero_add] at hends
  have hround : 1 ≤ round := by
    obtain ⟨-, -, -, htwo, -⟩ | ⟨-, rfl, -⟩ := hends
    · omega
    · exact hpos
  have hsome : 0 < steps.length := by
    rw [hlen]
    exact Nat.mul_pos hround (by omega)
  have hlast := lastOutput_steps hsteps hsome w
  rw [Nat.mul_comm] at hlen
  have hreturn : on (executeIterative env cmd task adapters) w = (.ok
      { taskId := task.id
        mode := .iterative
        steps := steps
        finalOutput := output (steps.length - 1)
        totalExecutionTime := totalTime steps
        consensus := some consensus
        adaptersUsed := adapters
        intermediateResults := none }, w) := by
    have hfirst : on (iterativeLoop env cmd task adapters m 0 none []) w =
      (.ok (steps, consensus), w) := hloop
    rw [executeIterative, hiterations, on_bind_ok hfirst]
    rw [on_bind_ok hlast]
    rfl
  exact ⟨_, consensus, round, hreturn, hlen, hsteps, hends, rfl, congrArg (fun n => output (n - 1))
    hlen⟩

def agreeing : Env := { rejecting 0 with adapter := fun _ => some "x" }

def twice : Command :=
  { commandFor none .iterative with maxIterations := some 2, stopOnConsensus := true }

theorem executeIterative_exact_agreeing : ∃ result consensus round,
      on (executeIterative agreeing twice (storedTask idOne .inProgress) [.claude, .gemini])
        (worldWith []) = (.ok result, worldWith []) ∧
      result.steps.length = 2 * round ∧
      (∀ k s, result.steps[k]? = some s →
        IsStep agreeing (storedTask idOne .inProgress) [.claude, .gemini] (fun _ => "x") k s) ∧
      EndsAfter agreeing twice (fun _ => "x") 2 0 2 round consensus ∧
      result.consensus = some consensus ∧ result.finalOutput = "x" :=
  executeIterative_exact agreeing twice (storedTask idOne .inProgress) [.claude, .gemini]
    (fun _ => "x") 2 (worldWith []) (by decide) rfl (by decide) fun _ => rfl

end

end Bridge.UseCases.Collaborative
