import Bridge.UseCases.ExecuteTask

/-!
# Overlapping executions of one task

At most one call can move the task to `IN_PROGRESS`: the check and the update are not separated by
an `await`. Every other call is turned away, and should leave the task alone. It does not: its
`catch` block finds the task `IN_PROGRESS` — by the work of the first call — and fails it, and when
the first call comes to its end the transition to `COMPLETED` is no longer permitted
(`rejected_call_fails_task`). -/

namespace Bridge.UseCases

open Lib Domain List Option

variable {cfg : Config} {inp : Input}

namespace State

theorem step_cases {s s' : State} {i : Nat} (h : s.step cfg (.step i inp) = some s') :
      ∃ c task' pc', s.calls[i]? = some c ∧ c.pc.exec cfg c.opts inp s.task = some (task', pc') ∧
      s' = ⟨task', s.calls.set i (c.next inp pc')⟩ := by
  simp only [State.step] at h
  split at h
  · cases h
  · rename_i c hc
    obtain ⟨⟨task', pc'⟩, hx, rfl⟩ := map_eq_some_iff.mp h
    exact ⟨c, task', pc', hc, hx, rfl⟩

end State

/-! ## The invariant -/

def Answer.ok : Answer → Bool
  | .output .. => true
  | .error _ => false
  | .nullish => false

namespace Call

def succeeded (c : Call) : Bool := (c.answer.map Answer.ok).getD false

def outcome (c : Call) : TaskStatus := if c.succeeded then .completed else .failed

end Call

def Failure.turnedAway : Failure → Bool
  | .invalidTaskState _ => true
  | _ => false

/-- The status of the task `st`, seen from a call. -/
def Call.Sound (st : Option TaskStatus) (c : Call) : Prop :=
  match c.moved, c.pc with
  -- before it has moved the task, and when it is turned away, a call knows nothing
  | false, .find => c.succeeded = false
  | false, .refind _ => True
  | false, .resave _ => False
  | false, .failed _ => True
  | false, .rejected _ => True
  | false, _ => False
  | true, .find => False
  | true, .save => st = some .inProgress ∧ c.succeeded = false
  | true, .started => st = some .inProgress ∧ c.succeeded = false
  | true, .route => st = some .inProgress ∧ c.succeeded = false
  | true, .execute _ => st = some .inProgress ∧ c.succeeded = false
  | true, .retry _ => st = some .inProgress ∧ c.succeeded = false
  | true, .saveResult r => st = some .inProgress ∧ r.isSuccess = c.succeeded
  | true, .refind e => e.turnedAway = false ∧
      ((st = some .inProgress ∧ c.succeeded = false) ∨ st = some c.outcome)
  | true, .resave e => e.turnedAway = false ∧ st = some c.outcome
  | true, .failed e => e.turnedAway = false ∧ st = some c.outcome
  | true, .rejected e => e.turnedAway = false ∧ st = some c.outcome
  | true, _ => st = some c.outcome

variable {st : Option TaskStatus} {c : Call}

theorem Call.Sound.ne_pending (h : c.Sound st) (hm : c.moved = true) : st ≠ some .pending := by
  have hout : some c.outcome ≠ some .pending := by
    rw [Call.outcome]
    split <;> simp
  obtain ⟨opts, pc, moved, answer⟩ := c
  cases hm
  cases pc with
  | find => cases h
  | save | started | route | execute | retry | saveResult => rw [h.1]; simp
  | refind e =>
    rcases h.2 with ⟨h, -⟩ | h
    · rw [h]; simp
    · rw [h]; exact hout
  | resave | failed | rejected => rw [h.2]; exact hout
  | saveTask | validate | completed | returned => rw [show st = _ from h]; exact hout

theorem Call.Sound.of_not_moved {st' : Option TaskStatus} (h : c.Sound st)
    (hm : c.moved = false) : c.Sound st' := by
  obtain ⟨opts, pc, moved, answer⟩ := c
  cases hm
  cases pc <;> exact h

/-- The condition on what a call waits for, when the task is `st`: the `catch` block of a call that
has not moved the task does not find it `IN_PROGRESS`, and that of one that has can read it; the
result of a successful adapter call can be saved; and a failed adapter call has a message. -/
def Call.Undisturbed (st : Option TaskStatus) (inp : Input) (c : Call) : Prop :=
  match c.pc with
  | .refind _ => st = some .inProgress → (c.moved = true → inp.ok = true) ∧
      (c.moved = false → inp.ok = false)
  | .saveResult _ => c.succeeded = true → inp.ok = true
  | .execute _ => inp.answer ≠ .error none ∧ inp.answer ≠ .error (some "")
  | .retry _ => inp.answer ≠ .error none ∧ inp.answer ≠ .error (some "")
  | _ => True

instance {inp : Input} {c : Call} : Decidable (c.Undisturbed st inp) := by
  obtain ⟨_, pc, _, _⟩ := c
  cases pc <;> dsimp only [Call.Undisturbed] <;> infer_instance

def State.Undisturbed (s : State) : State.Step → Prop
  | .call _ => True
  | .step i inp => ∀ c ∈ s.calls[i]?, c.Undisturbed s.status inp

instance {s : State} {a : State.Step} : Decidable (s.Undisturbed a) := by
  cases a <;> dsimp only [State.Undisturbed] <;> infer_instance

/-- What one step of a call does: it keeps the call sound, and only a call that has moved the task,
or moves it now, touches it. -/
structure Stepped (task task' : Option Task) (c c' : Call) : Prop where
  sound : c'.Sound (task'.map Task.status)
  moved : c.moved = true → c'.moved = true
  moves : c.moved = false → c'.moved = true → task.map Task.status = some .pending
  keeps : c.moved = false → c'.moved = false → task' = task

section Exec

variable {task task' : Option Task} {opts : Options}
  {answer : Option Answer} {pc pc' : Pc}

theorem stepped_early (hs : Call.Sound (task.map Task.status) ⟨opts, pc, false, answer⟩)
    (hu : ∀ e, pc = .refind e → task.map Task.status = some .inProgress → inp.ok = false)
    (h : pc.exec cfg opts inp task = some (task', pc')) :
    Stepped task task' ⟨opts, pc, false, answer⟩ (Call.next ⟨opts, pc, false, answer⟩ inp pc') := by
  cases pc with
  | find =>
    simp only [Pc.exec] at h
    split at h
    · cases h
      exact ⟨trivial, nofun, nofun, fun _ _ => rfl⟩
    · split at h
      · cases h
        exact ⟨trivial, nofun, nofun, fun _ _ => rfl⟩
      · rename_i t
        split_ifs at h with hcan
        · obtain ⟨t', ht', hst⟩ := Task.updateStatus_of_canTransitionTo inp.now hcan
          rw [ht'] at h
          cases h
          refine ⟨?_, nofun, fun _ _ => ?_, nofun⟩
          · exact ⟨congrArg some hst, hs⟩
          · exact congrArg some (Task.canTransitionTo_inProgress.mp hcan)
        · cases h
          exact ⟨trivial, nofun, nofun, fun _ _ => rfl⟩
  | refind e =>
    have hkept : (task', pc') = (task, .failed e) := by
      simp only [Pc.exec] at h
      split at h
      · rename_i t hok
        split_ifs at h with hst
        · exact absurd (hu e rfl (congrArg some hst)) (by simp [hok])
        · exact (some.inj h).symm
      · exact (some.inj h).symm
    cases hkept
    exact ⟨trivial, nofun, nofun, fun _ _ => rfl⟩
  | failed e =>
    cases h
    exact ⟨trivial, nofun, nofun, fun _ _ => rfl⟩
  | rejected e => simp [Pc.exec] at h
  | _ => cases hs

variable {a : AdapterType}

theorem sound_callAdapter {st : Option TaskStatus} (hst : st = some .inProgress)
    (hans : (⟨opts, pc, true, answer⟩ : Call).succeeded = false) :
    Call.Sound st ⟨opts, callAdapter cfg a, true, answer⟩ := by
  simp only [callAdapter]
  split
  · exact ⟨hst, hans⟩
  · exact ⟨rfl, .inl ⟨hst, hans⟩⟩

theorem Call.outcome_of_succeeded {b : Bool} (h : b = c.succeeded) :
    (if b then .completed else .failed) = c.outcome := by
  rw [h]
  rfl

theorem isSuccess_of_message {msg : Option String}
    (h : (Answer.error msg) ≠ .error none ∧ (Answer.error msg) ≠ .error (some "")) :
    (Result.createError msg a).isSuccess = false := by
  rw [Bool.eq_false_iff, Ne, Result.isSuccess_createError]
  rintro (rfl | rfl)
  · exact h.1 rfl
  · exact h.2 rfl

theorem exec_answer (hpc : pc = .execute a ∨ pc = .retry a)
    (hmsg : inp.answer ≠ .error none ∧ inp.answer ≠ .error (some ""))
    (h : pc.exec cfg opts inp task = some (task', pc')) :
    task' = task ∧ ((∃ r, pc' = .saveResult r ∧ r.isSuccess = inp.answer.ok) ∨
      (inp.answer.ok = false ∧ (pc' = .retry a ∨ pc' = .refind .other))) := by
  cases hans : inp.answer with
  | output text k =>
    rcases hpc with rfl | rfl
    all_goals
      simp only [Pc.exec, hans] at h
      cases h
      exact ⟨rfl, .inl ⟨_, rfl, rfl⟩⟩
  | error msg =>
    rw [hans] at hmsg
    have hresult := isSuccess_of_message (a := a) hmsg
    rcases hpc with rfl | rfl
    · simp only [Pc.exec, hans] at h
      split at h <;> cases h
      · exact ⟨rfl, .inr ⟨rfl, .inl rfl⟩⟩
      · exact ⟨rfl, .inl ⟨_, rfl, hresult⟩⟩
    · simp only [Pc.exec, hans] at h
      cases h
      exact ⟨rfl, .inl ⟨_, rfl, hresult⟩⟩
  | nullish =>
    rcases hpc with rfl | rfl
    all_goals
      simp only [Pc.exec, hans] at h
      cases h
      exact ⟨rfl, .inr ⟨rfl, .inr rfl⟩⟩

theorem sound_refind {e : Failure}
    (hs : Call.Sound (task.map Task.status) ⟨opts, .refind e, true, answer⟩)
    (hok : task.map Task.status = some .inProgress → inp.ok = true)
    (h : (Pc.refind e).exec cfg opts inp task = some (task', pc')) :
    (Call.next ⟨opts, .refind e, true, answer⟩ inp pc').Sound (task'.map Task.status) := by
  obtain ⟨he, ⟨hst, hans⟩ | hst⟩ := hs
  · obtain ⟨t, rfl, ht⟩ := map_eq_some_iff.mp hst
    have hcan : t.canTransitionTo .failed = true :=
      (Task.canTransitionTo_end (b := false)).mpr ht
    obtain ⟨t', ht', hst'⟩ := Task.updateStatus_of_canTransitionTo inp.now hcan
    simp only [Pc.exec, hok hst, ht, if_true, ht'] at h
    cases h
    exact ⟨he, congrArg some (hst'.trans (Call.outcome_of_succeeded (b := false) hans.symm))⟩
  · have hne : task.map Task.status ≠ some .inProgress := by
      rw [hst, Call.outcome]
      split <;> simp
    have hkept : (task', pc') = (task, .failed e) := by
      simp only [Pc.exec] at h
      split at h
      · split_ifs at h with hst'
        · exact absurd (congrArg some hst') hne
        · exact (some.inj h).symm
      · exact (some.inj h).symm
    cases hkept
    exact ⟨he, hst⟩

theorem sound_moved (hs : Call.Sound (task.map Task.status) ⟨opts, pc, true, answer⟩)
    (hrefind : ∀ e, pc = .refind e → task.map Task.status = some .inProgress → inp.ok = true)
    (hsave : ∀ r, pc = .saveResult r → (⟨opts, pc, true, answer⟩ : Call).succeeded = true →
      inp.ok = true) (hanswer : ∀ a, pc = .execute a ∨ pc = .retry a →
      inp.answer ≠ .error none ∧ inp.answer ≠ .error (some ""))
    (h : pc.exec cfg opts inp task = some (task', pc')) :
    (Call.next ⟨opts, pc, true, answer⟩ inp pc').Sound (task'.map Task.status) := by
  cases pc with
  | save =>
    simp only [Pc.exec] at h
    split at h <;> cases h
    · exact hs
    · exact ⟨rfl, .inl hs⟩
  | started =>
    simp only [Pc.exec] at h
    split at h
    · cases h
      exact ⟨rfl, .inl hs⟩
    · split at h <;> cases h
      · exact sound_callAdapter hs.1 hs.2
      · exact hs
  | route =>
    simp only [Pc.exec] at h
    split at h <;> cases h
    · exact sound_callAdapter hs.1 hs.2
    · exact ⟨rfl, .inl hs⟩
  | execute a =>
    obtain ⟨rfl, hnext⟩ := exec_answer (.inl rfl) (hanswer a (.inl rfl)) h
    rcases hnext with ⟨r, rfl, hr⟩ | ⟨hfail, rfl | rfl⟩
    · exact ⟨hs.1, hr⟩
    · exact ⟨hs.1, hfail⟩
    · exact ⟨rfl, .inl ⟨hs.1, hfail⟩⟩
  | retry a =>
    obtain ⟨rfl, hnext⟩ := exec_answer (.inr rfl) (hanswer a (.inr rfl)) h
    rcases hnext with ⟨r, rfl, hr⟩ | ⟨hfail, rfl | rfl⟩
    · exact ⟨hs.1, hr⟩
    · exact ⟨hs.1, hfail⟩
    · exact ⟨rfl, .inl ⟨hs.1, hfail⟩⟩
  | saveResult r =>
    obtain ⟨hst, hr⟩ := hs
    cases hok : inp.ok with
    | false =>
      simp only [Pc.exec, hok] at h
      cases h
      refine ⟨rfl, .inl ⟨hst, Bool.eq_false_iff.mpr fun hans => ?_⟩⟩
      exact absurd (hsave r rfl hans) (by simp [hok])
    | true =>
      obtain ⟨t, rfl, ht⟩ := map_eq_some_iff.mp hst
      obtain ⟨t', ht', hst'⟩ := Task.updateStatus_of_canTransitionTo inp.now
        ((Task.canTransitionTo_end (b := r.isSuccess)).mpr ht)
      simp only [Pc.exec, hok, ht'] at h
      cases h
      exact congrArg some (hst'.trans (Call.outcome_of_succeeded hr))
  | saveTask r =>
    simp only [Pc.exec] at h
    split at h
    · cases h
      exact ⟨rfl, .inr hs⟩
    · split at h <;> cases h <;> exact hs
  | validate r | completed r =>
    simp only [Pc.exec] at h
    split at h <;> cases h
    · exact hs
    · exact ⟨rfl, .inr hs⟩
  | refind e => exact sound_refind hs (hrefind e rfl) h
  | resave e =>
    cases h
    exact hs
  | failed e =>
    cases h
    refine ⟨?_, hs.2⟩
    split
    · exact hs.1
    · rfl
  | find => cases hs
  | returned | rejected => simp [Pc.exec] at h

end Exec

/-- **One step of a call.** -/
theorem stepped_of_exec {s : State} {i : Nat} {task' : Option Task} {pc' : Pc}
    (hc : s.calls[i]? = some c) (hs : c.Sound s.status)
    (hu : s.Undisturbed (.step i inp)) (h : c.pc.exec cfg c.opts inp s.task = some (task', pc')) :
    Stepped s.task task' c (c.next inp pc') := by
  have hguard := hu c hc
  obtain ⟨opts, pc, moved, answer⟩ := c
  cases moved with
  | false =>
    refine stepped_early hs (fun e he hst => ?_) h
    subst he
    exact (hguard hst).2 rfl
  | true =>
    refine ⟨sound_moved hs ?_ ?_ ?_ h, fun _ => rfl, nofun, nofun⟩
    · rintro e rfl hst
      exact (hguard hst).1 rfl
    · rintro r rfl hans
      exact hguard hans
    · rintro a (rfl | rfl) <;> exact hguard

namespace State

/-- The invariant: every call is sound, and one at most has moved the task. -/
structure Fair (s : State) : Prop where
  sound : ∀ c ∈ s.calls, c.Sound s.status
  unique : ∀ (i j : Nat) (c d : Call), s.calls[i]? = some c → s.calls[j]? = some d →
    c.moved = true → d.moved = true → i = j

theorem fair_init {task : Option Task} : Fair (init task) where
  sound c hc := absurd hc (by simp [init])
  unique i j c d hc := absurd hc (by simp [init])

variable {s : State}

theorem Fair.call (h : Fair s) (opts : Options) :
    Fair { s with calls := s.calls ++ [⟨opts, .find, false, none⟩] } where
  sound c hc := by
    rcases mem_append.mp hc with hc | hc
    · exact h.sound c hc
    · cases mem_singleton.mp hc
      exact (rfl : Call.succeeded ⟨opts, .find, false, none⟩ = false)
  unique i j c d hc hd hcm hdm := by
    have hold : ∀ {k : Nat} {e : Call},
        (s.calls ++ [⟨opts, .find, false, none⟩])[k]? = some e → e.moved = true →
        s.calls[k]? = some e := by
      intro k e he hm
      rw [getElem?_append] at he
      split at he
      · exact he
      · rcases mem_singleton.mp (mem_of_getElem? he) with rfl
        cases hm
    exact h.unique i j c d (hold hc hcm) (hold hd hdm) hcm hdm

theorem Fair.step {i : Nat} {task' : Option Task} {pc' : Pc} (h : Fair s)
    (hc : s.calls[i]? = some c)
    (hu : s.Undisturbed (.step i inp)) (hx : c.pc.exec cfg c.opts inp s.task = some (task', pc')) :
    Fair ⟨task', s.calls.set i (c.next inp pc')⟩ := by
  have hstep := stepped_of_exec hc (h.sound c (mem_of_getElem? hc)) hu hx
  have hi : i < s.calls.length := (List.getElem?_eq_some_iff.mp hc).1
  have hself : (s.calls.set i (c.next inp pc'))[i]? = some (c.next inp pc') :=
    getElem?_set_self hi
  have hother : ∀ {j : Nat}, i ≠ j → (s.calls.set i (c.next inp pc'))[j]? = s.calls[j]? :=
    fun hij => getElem?_set_ne hij
  -- a call that has moved the task is the only one to touch it
  have hmover : ∀ {j : Nat} {d : Call}, i ≠ j → s.calls[j]? = some d → d.moved = true →
      (c.next inp pc').moved = false ∧ task' = s.task := by
    intro j d hij hd hdm
    have hcm : c.moved = false := by
      by_contra hcm
      exact hij (h.unique i j c d hc hd (Bool.not_eq_false _ ▸ hcm) hdm)
    have hnm : (c.next inp pc').moved = false := by
      by_contra hnm
      have hpend := hstep.moves hcm (Bool.not_eq_false _ ▸ hnm)
      exact (h.sound d (mem_of_getElem? hd)).ne_pending hdm hpend
    exact ⟨hnm, hstep.keeps hcm hnm⟩
  refine ⟨fun d hd => ?_, fun j k d e hd he hdm hem => ?_⟩
  · obtain ⟨j, hj⟩ := getElem?_of_mem hd
    rcases eq_or_ne i j with rfl | hij
    · cases hself.symm.trans hj
      exact hstep.sound
    · have hd := (hother hij).symm.trans hj
      have hsound := h.sound d (mem_of_getElem? hd)
      cases hdm : d.moved with
      | false => exact hsound.of_not_moved hdm
      | true => exact (hmover hij hd hdm).2 ▸ hsound
  · rcases eq_or_ne i j with rfl | hij <;> rcases eq_or_ne i k with rfl | hik
    · rfl
    · cases hself.symm.trans hd
      exact absurd hdm (by simp [(hmover hik ((hother hik).symm.trans he) hem).1])
    · cases hself.symm.trans he
      exact absurd hem (by simp [(hmover hij ((hother hij).symm.trans hd) hdm).1])
    · exact h.unique j k d e ((hother hij).symm.trans hd) ((hother hik).symm.trans he) hdm hem

theorem fair_step {s' : State} {a : Step} (h : Fair s) (hu : s.Undisturbed a)
    (hs : s.step cfg a = some s') : Fair s' := by
  cases a with
  | call opts =>
    cases hs
    exact h.call opts
  | step i inp =>
    obtain ⟨c, task', pc', hc, hx, rfl⟩ := step_cases hs
    exact h.step hc hu hx

theorem fair_of_reaches {task : Option Task}
    (h : Reaches (step cfg) Undisturbed (init task) s) : Fair s :=
  h.invariant Fair fair_init fair_step

end State

def Pc.failure : Pc → Option Failure
  | .refind e => some e
  | .resave e => some e
  | .failed e => some e
  | .rejected e => some e
  | _ => none

theorem Call.Sound.not_moved {e : Failure} (h : c.Sound st)
    (he : c.pc.failure = some e) (hturned : e.turnedAway = true) : c.moved = false := by
  obtain ⟨opts, pc, moved, answer⟩ := c
  cases moved with
  | false => rfl
  | true =>
    cases pc with
    | refind | resave | failed | rejected =>
      cases he
      exact absurd (h.1.symm.trans hturned) (by simp)
    | _ => simp [Pc.failure] at he

theorem Call.Sound.settled (h : c.Sound st)
    (hm : c.moved = true) (hs : c.pc.settled = true) : st = some c.outcome := by
  obtain ⟨opts, pc, moved, answer⟩ := c
  cases hm
  cases pc with
  | returned r => exact h
  | rejected e => exact h.2
  | _ => simp [Pc.settled] at hs

namespace State

/-- **Overlapping executions**, where no `catch` block touches the work of another call. -/
theorem execute_calls_fair {cfg : Config} {task : Option Task} {s : State}
    (h : Reaches (step cfg) Undisturbed (init task) s) :
    (∀ (i : Nat) (inp : Input) (s' : State) (c : Call) (st : TaskStatus),
      s.Undisturbed (.step i inp) → s.step cfg (.step i inp) = some s' → s'.calls[i]? = some c →
      c.pc.failure = some (.invalidTaskState st) → s'.task = s.task) ∧
    (∀ c ∈ s.calls, c.moved = true → c.pc.settled = true →
      s.status = some (if c.succeeded then .completed else .failed)) := by
  have hfair := fair_of_reaches h
  constructor
  · intro i inp s' c' st hu hs hc' he
    have hmoved : c'.moved = false :=
      ((fair_step hfair hu hs).sound c' (mem_of_getElem? hc')).not_moved he rfl
    obtain ⟨c, task', pc', hc, hx, rfl⟩ := step_cases hs
    have hi : i < s.calls.length := (List.getElem?_eq_some_iff.mp hc).1
    cases (getElem?_set_self hi).symm.trans hc'
    have hstep := stepped_of_exec hc (hfair.sound c (mem_of_getElem? hc)) hu hx
    have hbefore : c.moved = false := by
      by_contra hm
      simp [hstep.moved (Bool.not_eq_false _ ▸ hm)] at hmoved
    exact hstep.keeps hbefore hmoved
  · intro c hc hm hset
    exact (hfair.sound c hc).settled hm hset

section Runs

def pendingTask : Task :=
  { id := ⟨"00000000-0000-4000-8000-000000000000", by decide⟩
    prompt := "p", type := .search, status := .pending, tags := [], userId := none
    createdAt := 0, updatedAt := 0, events := [] }

def plainOptions : Options := ⟨none, false, false⟩

def allRegistered : Config := ⟨fun _ => true, id⟩

def resolves : Input := ⟨true, .output "x" none, .claude, 0⟩

theorem rejected_call_fails_task : (exec (step allRegistered) (init (some pendingTask))
      ([.call plainOptions, .call plainOptions] ++ [.step 0 resolves, .step 1 resolves])).map
        (fun s => (s.status, s.calls.map fun c => (c.pc, c.moved))) =
      some (some .inProgress, [(.save, true), (.refind (.invalidTaskState .inProgress), false)]) ∧
    (exec (step allRegistered) (init (some pendingTask))
      ([.call plainOptions, .call plainOptions] ++ [.step 0 resolves, .step 1 resolves] ++
        replicate 3 (.step 1 resolves) ++ replicate 7 (.step 0 resolves))).map
        (fun s => (s.status, s.calls.map fun c => (c.pc, c.moved, c.succeeded))) =
      some (some .failed,
        [(.rejected (.cannotTransition "Cannot transition from FAILED to COMPLETED"), true, true),
          (.rejected (.invalidTaskState .inProgress), false, false)]) := by
  decide +kernel

theorem turned_away_call_spares_task : ∃ s s' c, Reaches (step allRegistered) Undisturbed
      (init (some pendingTask)) s ∧
    s.step allRegistered (.step 1 resolves) = some s' ∧ s'.calls[1]? = some c ∧
    c.pc.failure = some (.invalidTaskState .inProgress) ∧ s'.task = s.task ∧
    s.status = some .completed := by
  obtain ⟨s, hs, hnext, hmoved⟩ : ∃ s, execIf (step allRegistered) Undisturbed
      (init (some pendingTask))
      ([.call plainOptions, .call plainOptions] ++ [.step 0 resolves, .step 1 resolves] ++
        replicate 7 (.step 0 resolves)) = some s ∧
      (s.Undisturbed (.step 1 resolves) ∧
        ∃ s' c, s.step allRegistered (.step 1 resolves) = some s' ∧ s'.calls[1]? = some c ∧
          c.pc.failure = some (.invalidTaskState .inProgress)) ∧
      ∃ c ∈ s.calls, c.moved = true ∧ c.pc.settled = true ∧ c.succeeded = true :=
    ⟨_, rfl, ⟨by decide, _, _, rfl, rfl, rfl⟩, _, mem_cons_self, rfl, rfl, rfl⟩
  obtain ⟨hu, s', c, hs', hc, he⟩ := hnext
  obtain ⟨d, hd, hm, hset, hok⟩ := hmoved
  have hrun := reaches_of_execIf hs
  have hfair := execute_calls_fair hrun
  refine ⟨s, s', c, hrun, hs', hc, he, hfair.1 1 resolves s' c _ hu hs' hc he, ?_⟩
  rw [hfair.2 d hd hm hset, hok]
  rfl

end Runs

end State

end Bridge.UseCases
