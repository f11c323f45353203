import Bridge.UseCases.CollaborativeModes

/-!
# What a rejected collaboration leaves behind

A rejected call should leave no task `IN_PROGRESS` that was not, and no task that was anything else.
The `catch` block sees neither what this call has done nor who has started the task: it acts if the
command names a task, and then on whatever is `IN_PROGRESS`. So a task created by the call stays
`IN_PROGRESS` for ever, and one that another run is working on is failed
(`rejection_misplaces_tasks`).
-/

namespace Bridge.UseCases.Collaborative

open Lib Lib.Prog Domain

variable {r : Repository}

theorem status_save {t : Task} {id : TaskId} :
    (r.save t).status id = if id = t.id then some t.status else r.status id := by
  unfold Repository.status
  split_ifs with h
  · rw [h, Repository.findById_save_self]
    rfl
  · rw [Repository.findById_save_ne h]

/-- The task `id` has the status `st`, and every other task is as it was in `r`. -/
structure Leaves (r r' : Repository) (id : TaskId) (st : Option TaskStatus) : Prop where
  self : r'.status id = st
  other : ∀ id', id' ≠ id → r'.status id' = r.status id'

theorem leaves_refl {id : TaskId} : Leaves r r id (r.status id) :=
  ⟨rfl, fun _ _ => rfl⟩

theorem Leaves.save {r r' : Repository} {id : TaskId} {t : Task} {st : Option TaskStatus}
    (h : Leaves r r' id st) (hid : t.id = id) : Leaves r (r'.save t) id (some t.status) where
  self := by rw [status_save, if_pos hid.symm]
  other id' hne := by
    rw [status_save, if_neg (hid.symm ▸ hne)]
    exact h.other id' hne

variable {e : Failure}

section Update

variable {env : Env} {t t' : Task} {st : TaskStatus} {w w' : World}

theorem updateStatus_method_ok (h : on (updateStatus env t st) w = (.ok t', w')) :
    t.canTransitionTo st = true ∧ t'.id = t.id ∧ t'.status = st ∧
      w' = { w with repo := w.repo.save t' } := by
  unfold updateStatus at h
  cases hupdate : t.updateStatus st (env.now st) with
  | error message =>
    simp [hupdate] at h
  | ok t₁ =>
    rw [hupdate] at h
    cases h
    obtain ⟨hcan, hst⟩ := Task.updateStatus_ok hupdate
    exact ⟨hcan, Task.updateStatus_id hupdate, hst, rfl⟩

theorem updateStatus_method_error (h : on (updateStatus env t st) w = (.error e, w')) :
    t.canTransitionTo st = false ∧ w' = w := by
  unfold updateStatus at h
  cases hcan : t.canTransitionTo st with
  | false =>
    rw [Task.updateStatus, if_neg (by simp [hcan])] at h
    cases h
    exact ⟨rfl, rfl⟩
  | true =>
    obtain ⟨t₁, hupdate, -⟩ := Task.updateStatus_of_canTransitionTo (env.now st) hcan
    rw [hupdate] at h
    exact absurd h (by rintro ⟨⟩)

end Update

/-! ## The `try` block -/

variable {value : String}

section Try

variable {env : Env} {cmd : Command} {t : Task} {w : World}

theorem length_of_mapM_ok {f : AdapterType → Except Failure AdapterType}
    {types adapters : List AdapterType} (h : types.mapM f = .ok adapters) :
    adapters.length = types.length := by
  induction types generalizing adapters with
  | nil =>
    cases h
    rfl
  | cons type types ih =>
    rw [List.mapM_cons] at h
    cases hf : f type with
    | error e =>
      rw [hf] at h
      exact absurd h (by rintro ⟨⟩)
    | ok a =>
      cases hrest : types.mapM f with
      | error e =>
        rw [hf, hrest] at h
        exact absurd h (by rintro ⟨⟩)
      | ok as =>
        rw [hf, hrest] at h
        cases h
        simp [ih hrest]

theorem selectAdapters_length {requested : Option (List AdapterType)} {adapters : List AdapterType}
    (h : selectAdapters env requested = .ok adapters) : 2 ≤ adapters.length := by
  unfold selectAdapters at h
  split at h
  · rename_i types hfilter
    have hlen : 2 ≤ types.length := by simpa using (Option.filter_eq_some_iff.mp hfilter).2
    rwa [length_of_mapM_ok h]
  · split at h
    · cases h
    · rename_i primary _
      dsimp only at h
      generalize (if primary = AdapterType.claude then AdapterType.gemini else AdapterType.claude) =
        secondary at h
      split at h <;> cases h
      exact Nat.le_refl 2

def WorkReturns (env : Env) (cmd : Command) (adapters : List AdapterType) : Prop :=
  env.savesStarted = true ∧ env.emitsStarted = true ∧ ModeReturns env cmd adapters.length ∧
    env.savesFinal = true

/-- The status the `try` block leaves the task with. -/
inductive Reached (env : Env) (cmd : Command) (t : Task) : TaskStatus → Prop
  | stayed (h : t.status = .pending → ∀ adapters, selectAdapters env cmd.adapters ≠ .ok adapters) :
      Reached env cmd t t.status
  | started {adapters : List AdapterType} (hsel : selectAdapters env cmd.adapters = .ok adapters)
      (hwork : ¬ WorkReturns env cmd adapters) : Reached env cmd t .inProgress
  | completed {adapters : List AdapterType} (hsel : selectAdapters env cmd.adapters = .ok adapters)
      (hwork : WorkReturns env cmd adapters) : Reached env cmd t .completed

theorem conclude_leaves {id : TaskId} {result : CollaborativeExecutionResult}
    (h : Leaves r w.repo id (some .inProgress)) (hid : t.id = id) (hst : t.status = .inProgress) :
    Leaves r (on (conclude env cmd t result) w).2.repo id
      (some (if env.savesFinal then .completed else .inProgress)) := by
  unfold conclude
  cases hfinal : env.savesFinal with
  | false => exact h
  | true =>
  let Q (w' : World) := Leaves r w'.repo id (some .completed)
  show Q (on (updateStatus env t .completed >>= _) _).2
  refine end_bind (P := Q) (fun e w' hx => ?_) fun t' w₁ hx => ?_
  · -- a task that is `IN_PROGRESS` can be completed
    have hcan : t.canTransitionTo .completed = true := Task.canTransitionTo_end (b := true).mpr hst
    exact absurd ((updateStatus_method_error hx).1.symm.trans hcan) Bool.false_ne_true
  obtain ⟨-, hid', hst', rfl⟩ := updateStatus_method_ok hx
  have hsaved : Leaves r (w.repo.save t') id (some .completed) := hst' ▸ h.save (hid'.trans hid)
  refine end_bind (P := Q) (fun e w' hx => ?_) fun _ w₁ hx => ?_
  · obtain ⟨-, rfl⟩ := effect_error hx
    exact hsaved
  obtain ⟨-, rfl⟩ := effect_ok hx
  have hsaved' : Leaves r ((w.repo.save t').save t') id (some .completed) :=
    hst' ▸ hsaved.save (hid'.trans hid)
  refine end_bind (P := Q) (fun e w' hx => ?_) fun _ w₁ hx => ?_
  · obtain ⟨-, rfl⟩ := effect_error hx
    exact hsaved'
  · obtain ⟨-, rfl⟩ := effect_ok hx
    exact hsaved'

theorem collaborate_reaches (ht : w.repo.findById t.id = some t) : ∃ st, Reached env cmd t st ∧
      Leaves w.repo (on (collaborate env cmd t) w).2.repo t.id (some st) := by
  have hw : Leaves w.repo w.repo t.id (some t.status) := by
    have hrefl : Leaves w.repo w.repo t.id (w.repo.status t.id) := leaves_refl
    rwa [Repository.status, ht] at hrefl
  let P (w' : World) := ∃ st, Reached env cmd t st ∧ Leaves w.repo w'.repo t.id (some st)
  unfold collaborate
  cases hsel : selectAdapters env cmd.adapters with
  | error e =>
    refine ⟨t.status, .stayed fun _ adapters h => ?_, hw⟩
    exact absurd (hsel.symm.trans h) (by simp)
  | ok adapters =>
    have hlen := selectAdapters_length hsel
    show P (on (if adapters.length < 2 then _ else _) w).2
    rw [if_neg (Nat.not_lt.mpr hlen)]
    refine end_bind (P := P) (fun e w' h => ?_) fun t₁ w₁ h => ?_
    · obtain ⟨hcan, rfl⟩ := updateStatus_method_error h
      refine ⟨t.status, .stayed fun hst => ?_, hw⟩
      exact absurd (hcan.symm.trans (Task.canTransitionTo_inProgress.mpr hst)) Bool.false_ne_true
    obtain ⟨-, hid, hst, rfl⟩ := updateStatus_method_ok h
    -- from here on the task is `IN_PROGRESS`, until everything has resolved
    have hstarted {w' : World} (hleaves : Leaves w.repo w'.repo t.id (some .inProgress))
        (hwork : ¬ WorkReturns env cmd adapters) : P w' :=
      ⟨.inProgress, .started hsel hwork, hleaves⟩
    have hsaved : Leaves w.repo (w.repo.save t₁) t.id (some .inProgress) := hst ▸ hw.save hid
    refine end_bind (P := P) (fun e w' h => ?_) fun _ w₂ h => ?_
    · obtain ⟨hfalse, rfl⟩ := effect_error h
      exact hstarted hsaved fun hwork => Bool.false_ne_true (hfalse.symm.trans hwork.1)
    obtain ⟨hsaves, rfl⟩ := effect_ok h
    have hsaved' : Leaves w.repo ((w.repo.save t₁).save t₁) t.id (some .inProgress) :=
      hst ▸ hsaved.save hid
    refine end_bind (P := P) (fun e w' h => ?_) fun _ w₃ h => ?_
    · obtain ⟨hfalse, rfl⟩ := effect_error h
      exact hstarted hsaved' fun hwork => Bool.false_ne_true (hfalse.symm.trans hwork.2.1)
    obtain ⟨hemits, rfl⟩ := effect_ok h
    refine end_bind (P := P) (fun e w' h => ?_) fun result w₄ h => ?_
    · have hsame := keeps_executeMode.of_on h
      refine hstarted (hsame ▸ hsaved') fun hwork => ?_
      obtain ⟨a, w'', hreturns⟩ := (executeMode_returns hlen).mpr hwork.2.2.1
      exact absurd (h.symm.trans hreturns) (by simp)
    have hmode := (executeMode_returns hlen).mp ⟨result, w₄, h⟩
    have hsame := keeps_executeMode.of_on h
    have hworked : Leaves w.repo w₄.repo t.id (some .inProgress) := hsame ▸ hsaved'
    have hend : Leaves w.repo (on (conclude env cmd t₁ result) w₄).2.repo t.id _ :=
      conclude_leaves hworked hid hst
    cases hfinal : env.savesFinal with
    | false =>
      refine hstarted ?_ fun hwork => Bool.false_ne_true (hfinal.symm.trans hwork.2.2.2)
      simpa [hfinal] using hend
    | true =>
      refine ⟨.completed, .completed hsel ⟨hsaves, hemits, hmode, hfinal⟩, ?_⟩
      simpa [hfinal] using hend

variable {w' : World}

theorem findById_ok {ok : Bool} {o : Option Task} (h : on (findById ok value) w = (.ok o, w')) :
    w' = w ∧ ∃ id : TaskId, id.value = value ∧ o = w.repo.findById id := by
  unfold findById at h
  cases hid : TaskId.fromString value with
  | error message =>
    simp [hid] at h
  | ok id =>
    rw [hid] at h
    cases ok with
    | false => cases h
    | true =>
      cases h
      exact ⟨rfl, id, TaskId.fromString_ok.mp hid, rfl⟩

theorem findById_error {ok : Bool} (h : on (findById ok value) w = (.error e, w')) :
    w' = w ∧ (ok = true → ∀ id : TaskId, id.value ≠ value) := by
  unfold findById at h
  cases hid : TaskId.fromString value with
  | error message =>
    rw [hid] at h
    cases h
    refine ⟨rfl, fun _ id hvalue => ?_⟩
    exact absurd (hid.symm.trans (TaskId.fromString_ok.mpr hvalue)) (by simp)
  | ok id =>
    rw [hid] at h
    cases ok with
    | false =>
      cases h
      exact ⟨rfl, fun hok => absurd hok Bool.false_ne_true⟩
    | true => exact absurd h (by rintro ⟨⟩)

theorem getOrCreateTask_named {r : Except Failure Task} (hnamed : cmd.named = some value)
    (h : on (getOrCreateTask env cmd) w = (r, w')) :
    w' = w ∧ ∀ t, r = .ok t → t.id.value = value ∧ w.repo.findById t.id = some t := by
  unfold getOrCreateTask at h
  rw [hnamed] at h
  rcases hfind : on (findById env.finds value) w with ⟨e | o, w₁⟩
  · rw [on_bind_error hfind] at h
    cases h
    exact ⟨(findById_error hfind).1, nofun⟩
  · rw [on_bind_ok hfind] at h
    obtain ⟨rfl, id, hid, rfl⟩ := findById_ok hfind
    cases hstored : w₁.repo.findById id with
    | none =>
      rw [hstored] at h
      cases h
      exact ⟨rfl, nofun⟩
    | some t =>
      rw [hstored] at h
      cases h
      refine ⟨rfl, fun t' ht => ?_⟩
      cases ht
      have hkeyed := Repository.findById_id hstored
      exact ⟨hkeyed ▸ hid, hkeyed ▸ hstored⟩

theorem getOrCreateTask_new {r : Except Failure Task} (hnamed : cmd.named = none)
    (h : on (getOrCreateTask env cmd) w = (r, w')) :
    (w' = w ∧ (∃ e, r = .error e) ∧ (cmd.supplied = none ∨ env.savesNew = false)) ∨
    ∃ t, r = .ok t ∧ t.id = env.newId ∧ t.status = .pending ∧ w'.repo = w.repo.save t ∧
      cmd.supplied ≠ none ∧ env.savesNew = true := by
  unfold getOrCreateTask at h
  rw [hnamed] at h
  cases hsup : cmd.supplied with
  | none =>
    rw [hsup] at h
    cases h
    exact .inl ⟨rfl, ⟨_, rfl⟩, .inl rfl⟩
  | some supplied =>
    rw [hsup] at h
    cases hsave : env.savesNew with
    | false =>
      rw [hsave] at h
      cases h
      exact .inl ⟨rfl, ⟨_, rfl⟩, .inr rfl⟩
    | true =>
      rw [hsave] at h
      cases h
      exact .inr ⟨_, rfl, rfl, rfl, rfl, by simp, rfl⟩

end Try

section Catch

variable {env : Env} {cmd : Command} {w w' : World}

theorem updateStatus_failed_leaves {t : Task} {ok : Bool} (hst : t.status = .inProgress) :
    Leaves w.repo (on (updateStatus env t .failed >>= saveTask ok) w).2.repo t.id
      (some .failed) := by
  let P (w' : World) := Leaves w.repo w'.repo t.id (some .failed)
  refine end_bind (P := P) (fun e w' h => ?_) fun t' w₁ h => ?_
  · -- a task that is `IN_PROGRESS` can be failed
    have hcan : t.canTransitionTo .failed = true := Task.canTransitionTo_end (b := false).mpr hst
    exact absurd ((updateStatus_method_error h).1.symm.trans hcan) Bool.false_ne_true
  obtain ⟨-, hid, hst', rfl⟩ := updateStatus_method_ok h
  have hfailed : Leaves w.repo (w.repo.save t') t.id (some .failed) := hst' ▸ leaves_refl.save hid
  cases ok with
  | false => exact hfailed
  | true => exact (hst' ▸ hfailed.save hid : Leaves w.repo _ t.id (some .failed))

theorem repair_spec : (∀ id : TaskId, id.value ≠ value →
      (on (repair env value) w).2.repo.status id = w.repo.status id) ∧
    (env.refinds = true → ∀ id : TaskId, id.value = value →
      (on (repair env value) w).2.repo.status id ≠ some .inProgress) := by
  unfold repair
  rcases hfind : on (findById env.refinds value) w with ⟨e | o, w₁⟩
  · rw [on_bind_error hfind]
    obtain ⟨rfl, hnone⟩ := findById_error hfind
    exact ⟨fun id _ => rfl, fun hok id hid => absurd hid (hnone hok id)⟩
  rw [on_bind_ok hfind]
  obtain ⟨rfl, id, hid, rfl⟩ := findById_ok hfind
  have heq : ∀ id' : TaskId, id'.value = value → id' = id := by
    rintro ⟨v, hv⟩ rfl
    cases id
    cases hid
    rfl
  cases hstored : w₁.repo.findById id with
  | none =>
    refine ⟨fun _ _ => rfl, fun _ id' hid' => ?_⟩
    rw [heq id' hid']
    simp [Repository.status, hstored]
  | some t =>
    obtain rfl := Repository.findById_id hstored
    by_cases hst : t.status = .inProgress
    · simp only [hst, if_true]
      have hfailed : Leaves w₁.repo
          (on (updateStatus env t .failed >>= saveTask env.resaves) w₁).2.repo t.id _ :=
        updateStatus_failed_leaves hst
      refine ⟨fun id' hid' => hfailed.other id' fun h => hid' (h ▸ hid), fun _ id' hid' => ?_⟩
      rw [heq id' hid', show _ = _ from hfailed.self]
      simp
    · simp only [hst, if_false]
      refine ⟨fun _ _ => rfl, fun _ id' hid' => ?_⟩
      rw [heq id' hid']
      simpa [Repository.status, hstored] using hst

theorem execute_error (h : on (execute env cmd) w = (.error e, w')) :
    ∃ w₁, on (getOrCreateTask env cmd >>= collaborate env cmd) w = (.error e, w₁) ∧
      w' = match cmd.named with
        | some value => (on (repair env value) w₁).2
        | none => w₁ := by
  unfold execute at h
  rcases hbody : on (getOrCreateTask env cmd >>= collaborate env cmd) w with ⟨e₁ | a, w₁⟩
  · rw [on_tryCatch_error hbody] at h
    cases hnamed : cmd.named with
    | none =>
      rw [hnamed] at h
      cases h
      exact ⟨_, rfl, rfl⟩
    | some value =>
      rw [hnamed] at h
      have hignored : on (tryCatch (repair env value) fun _ => pure ()) w₁ =
          (.ok (), (on (repair env value) w₁).2) := by
        rcases hrepair : on (repair env value) w₁ with ⟨e₂ | u, w₂⟩
        · exact on_tryCatch_error hrepair
        · exact on_tryCatch_ok hrepair
      rw [on_bind_ok hignored] at h
      cases h
      exact ⟨_, rfl, rfl⟩
  · simp [on_tryCatch_ok hbody] at h

end Catch

/-! ## The whole call -/

/-- **The condition.** A task that is named is not `IN_PROGRESS`; and if a task is created and
adapters are found for it, everything resolves up to the save of the final result. -/
def Spared (env : Env) (cmd : Command) (r : Repository) : Prop :=
  match cmd.named with
  | some value => ∀ id : TaskId, id.value = value → r.status id ≠ some .inProgress
  | none => cmd.supplied ≠ none → env.savesNew = true →
      ∀ adapters, selectAdapters env cmd.adapters = .ok adapters → WorkReturns env cmd adapters

section Execute

variable {env : Env} {cmd : Command} {w w' : World}

theorem named_rejection_iff (hnamed : cmd.named = some value)
    (h : on (execute env cmd) w = (.error e, w')) (hread : env.refinds = true) :
    (∀ id, w'.repo.status id = some .inProgress ↔ w.repo.status id = some .inProgress) ↔
      ∀ id : TaskId, id.value = value → w.repo.status id ≠ some .inProgress := by
  obtain ⟨w₁, hbody, hw'⟩ := execute_error h
  rw [hnamed] at hw'
  subst hw'
  -- the `try` block touches the named task only, and the `catch` block settles it
  have htry : ∀ id : TaskId, id.value ≠ value → w₁.repo.status id = w.repo.status id := by
    let P (w' : World) := ∀ id : TaskId, id.value ≠ value → w'.repo.status id = w.repo.status id
    have hend : P (on (getOrCreateTask env cmd >>= collaborate env cmd) w).2 := by
      refine end_bind (P := P) (fun e w' hx => ?_) fun t w' hx => ?_
      · obtain ⟨rfl, -⟩ := getOrCreateTask_named hnamed hx
        exact fun _ _ => rfl
      · obtain ⟨rfl, ht⟩ := getOrCreateTask_named hnamed hx
        obtain ⟨hid, hstored⟩ := ht t rfl
        obtain ⟨st, -, hleaves⟩ := collaborate_reaches hstored
        exact fun id hne => hleaves.other id fun hidt => hne (hidt ▸ hid)
    rwa [hbody] at hend
  constructor
  · intro hall id hid hst
    exact repair_spec.2 hread id hid ((hall id).mpr hst)
  · intro hspared id
    by_cases hid : id.value = value
    · exact iff_of_false (repair_spec.2 hread id hid) (hspared id hid)
    · rw [repair_spec.1 id hid, htry id hid]

theorem created_rejection_iff (hnamed : cmd.named = none)
    (h : on (execute env cmd) w = (.error e, w')) (hfresh : w.repo.findById env.newId = none) :
    (∀ id, w'.repo.status id = some .inProgress ↔ w.repo.status id = some .inProgress) ↔
      (cmd.supplied ≠ none → env.savesNew = true →
        ∀ adapters, selectAdapters env cmd.adapters = .ok adapters →
          WorkReturns env cmd adapters) := by
  obtain ⟨w₁, hbody, hw'⟩ := execute_error h
  rw [hnamed] at hw'
  subst hw'
  rcases hget : on (getOrCreateTask env cmd) w with ⟨r, w₂⟩
  rcases getOrCreateTask_new hnamed hget with
    ⟨rfl, ⟨e', rfl⟩, hnone⟩ | ⟨t, rfl, hid, hpending, hrepo, hsup, hsave⟩
  · -- nothing is stored
    rw [on_bind_error hget] at hbody
    cases hbody
    refine iff_of_true (fun id => Iff.rfl) fun hsup hsave => ?_
    rcases hnone with hnone | hnone
    · exact absurd hnone hsup
    · exact absurd (hnone.symm.trans hsave) Bool.false_ne_true
  rw [on_bind_ok hget] at hbody
  have hstored : w₂.repo.findById t.id = some t := by
    rw [hrepo, Repository.findById_save_self]
  obtain ⟨st, hreached, hleaves⟩ : ∃ st, Reached env cmd t st ∧
      Leaves w₂.repo (on (collaborate env cmd t) w₂).2.repo t.id (some st) :=
    collaborate_reaches hstored
  rw [hbody] at hleaves
  have hbefore : w.repo.status t.id = none := by
    rw [Repository.status, hid, hfresh]
    rfl
  have hother : ∀ id, id ≠ t.id → w'.repo.status id = w.repo.status id := by
    intro id hne
    rw [hleaves.other id hne, hrepo, status_save, if_neg hne]
  -- all that counts is the status of the new task
  have hnew : (∀ id, w'.repo.status id = some .inProgress ↔ w.repo.status id = some .inProgress) ↔
      st ≠ .inProgress := by
    constructor
    · rintro hall rfl
      exact absurd (hbefore.symm.trans ((hall t.id).mp hleaves.self)) (by simp)
    · intro hst id
      by_cases hne : id = t.id
      · subst hne
        rw [hleaves.self, hbefore]
        simpa using hst
      · rw [hother id hne]
  rw [hnew]
  cases hreached with
  | stayed hstay =>
    rw [hpending]
    refine iff_of_true (by simp) fun _ _ adapters hsel => ?_
    exact absurd hsel (hstay hpending adapters)
  | @started adapters hsel hwork =>
    exact iff_of_false (by simp) fun hall => hwork (hall hsup hsave adapters hsel)
  | @completed adapters hsel hwork =>
    refine iff_of_true (by simp) fun _ _ adapters' hsel' => ?_
    cases hsel.symm.trans hsel'
    exact hwork

/-- **When a rejected call leaves the tasks `IN_PROGRESS` that were so before it, and no others.**
-/
theorem execute_rejection_iff (h : on (execute env cmd) w = (.error e, w'))
    (hread : env.refinds = true) (hfresh : w.repo.findById env.newId = none) :
    (∀ id, w'.repo.status id = some .inProgress ↔ w.repo.status id = some .inProgress) ↔
      Spared env cmd w.repo := by
  unfold Spared
  cases hnamed : cmd.named with
  | some value => exact named_rejection_iff hnamed h hread
  | none => exact created_rejection_iff hnamed h hfresh

end Execute

section Runs

def idOne : TaskId := ⟨"00000000-0000-4000-8000-000000000001", by decide⟩

def idTwo : TaskId := ⟨"00000000-0000-4000-8000-000000000002", by decide⟩

def idNew : TaskId := ⟨"00000000-0000-4000-8000-000000000003", by decide⟩

def storedTask (id : TaskId) (status : TaskStatus) : Task :=
  { id := id, prompt := "p", type := .search, status := status, tags := [], userId := none
    createdAt := 0, updatedAt := 0, events := [] }

def worldWith (tasks : List Task) : World :=
  ⟨tasks.foldl Repository.save ⟨∅, fun _ _ h => absurd h (by simp)⟩, [], []⟩

def rejecting (call : Nat) : Env :=
  { registered := fun _ => true, lower := id, newId := idNew, now := fun _ => 0
    finds := true, savesNew := true, route := some .claude, savesStarted := true
    emitsStarted := true, adapter := fun k => if k = call then none else some "x"
    elapsed := fun _ => 0, savesResult := fun _ => true, merge := fun _ => some ("x", true)
    elapsedParallel := 0, savesFinal := true, savesCompleted := true, emitsCompleted := true
    refinds := true, resaves := true }

def commandFor (taskId : Option TaskId) (mode : CollaborationMode) : Command :=
  { taskId := taskId.map TaskId.value, prompt := some "p", type := some .search, mode := mode
    adapters := some [.claude, .gemini], maxIterations := none, userId := none
    mergeStrategy := none, includeIntermediateResults := false, stopOnConsensus := false }

theorem rejection_misplaces_tasks :
    (∃ w', on (execute (rejecting 0) (commandFor none .sequential)) (worldWith []) =
        (.error .other, w') ∧
      (worldWith []).repo.status idNew = none ∧ w'.repo.status idNew = some .inProgress) ∧
    ∃ w', on (execute (rejecting 0) (commandFor (some idOne) .sequential))
        (worldWith [storedTask idOne .inProgress]) =
        (.error (.cannotTransition "Cannot transition from IN_PROGRESS to IN_PROGRESS"), w') ∧
      (worldWith [storedTask idOne .inProgress]).repo.status idOne = some .inProgress ∧
      w'.repo.status idOne = some .failed :=
  ⟨⟨_, rfl, by decide, by decide⟩, _, rfl, by decide, by decide⟩

theorem named_task_failed : ∃ w', on (execute (rejecting 2) (commandFor (some idOne) .iterative))
      (worldWith [storedTask idOne .pending, storedTask idTwo .inProgress]) = (.error .other, w') ∧
    w'.repo.status idOne = some .failed ∧
    ∀ id, w'.repo.status id = some .inProgress ↔
      (worldWith [storedTask idOne .pending, storedTask idTwo .inProgress]).repo.status id =
        some .inProgress := by
  obtain ⟨w', h, hfailed⟩ : ∃ w', on (execute (rejecting 2) (commandFor (some idOne) .iterative))
        (worldWith [storedTask idOne .pending, storedTask idTwo .inProgress]) =
        (.error .other, w') ∧ w'.repo.status idOne = some .failed := ⟨_, rfl, by decide⟩
  refine ⟨w', h, hfailed, (execute_rejection_iff h rfl rfl).mpr ?_⟩
  intro id hid
  have heq : id = idOne := by
    cases id
    cases hid
    rfl
  rw [heq]
  decide

end Runs

end Bridge.UseCases.Collaborative
