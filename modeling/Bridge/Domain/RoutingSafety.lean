import Bridge.Domain.TaskRouter

/-!
# Does the adapter fit the task?

`route` tests whether the adapter can execute the task on one of its three ways only, for the
adapter that the task prefers. The scores of `selectByCapabilities` come out right for every type.
Of the default strategies `performance-based` answers with Gemini whatever the type of the task; it
fits only because `rule-based` is asked before it, for the types that Gemini cannot execute.
`route_executable_iff` says when that is so.
-/

namespace Bridge.Domain

open Lib List Option

variable {task : TaskEntity}

/-! ## Capabilities -/

theorem selectByCapabilities_of_sorted {adapter : AdapterType} {x : Score} (rest : Scores)
    (hscores : capabilityScores task = (adapter, x) :: rest)
    (hsorted : ((adapter, x) :: rest).Pairwise fun a b => notBelow a b = true) :
    selectByCapabilities task = ⟨adapter, x, "Selected based on capability matching"⟩ := by
  rw [selectByCapabilities, hscores, mergeSort_of_pairwise hsorted]
  simp

theorem selectByCapabilities_of_swapped {x y : Score}
    (hscores : capabilityScores task = [(.claude, x), (.gemini, y)])
    (hbelow : notBelow (.claude, x) (.gemini, y) = false) :
    selectByCapabilities task = ⟨.gemini, y, "Selected based on capability matching"⟩ := by
  have hsort : [(AdapterType.claude, x), (.gemini, y)].mergeSort notBelow =
    [(.gemini, y), (.claude, x)] := by
    simp [mergeSort, hbelow]
  rw [selectByCapabilities, hscores, hsort]
  rfl

theorem capabilityScores_congr {task' : TaskEntity} (h : task.props.type = task'.props.type) :
    capabilityScores task = capabilityScores task' := by
  have hscore : scoreAdapter task = scoreAdapter task' := by
    funext scores adapter
    rw [scoreAdapter, scoreAdapter, TaskEntity.canBeExecutedBy, TaskEntity.canBeExecutedBy, h]
  rw [capabilityScores, capabilityScores, hscore, h]

def TaskType.sample (type : TaskType) : TaskEntity := .new { TaskEntity.freshProps with type }

theorem selectByCapabilities_of_tie (rest : Scores)
    (hscores : capabilityScores task = (.claude, some (8 / 10)) :: (.gemini, some (8 / 10)) :: rest)
    (hrest : ∀ e ∈ rest, e.2 = none) : selectByCapabilities task = ⟨.claude, some (8 / 10),
      "Selected based on capability matching"⟩ := by
  refine selectByCapabilities_of_sorted _ hscores ?_
  have hnan : ∀ a, ∀ e ∈ rest, notBelow a e = true := by
    intro a e he
    rw [notBelow, hrest e he]
    cases a.2 <;> rfl
  refine pairwise_cons.mpr ⟨?_, pairwise_cons.mpr ⟨hnan _, ?_⟩⟩
  · intro e he
    obtain rfl | he := mem_cons.mp he
    · exact decide_eq_true (le_refl _)
    · exact hnan _ e he
  · exact List.Pairwise.imp_of_mem (fun _ hb _ => hnan _ _ hb)
      (pairwise_of_forall (R := fun _ _ => True) fun _ _ => trivial)

theorem selectByCapabilities_eq (task : TaskEntity) : selectByCapabilities task =
      { adapter := (getPreferredAdapterForTask task.props.type).getD .claude
        confidence := some (if (getPreferredAdapterForTask task.props.type).isSome then 1 else 8 /
          10)
        reason := "Selected based on capability matching" } := by
  have hscores : capabilityScores task = capabilityScores task.props.type.sample :=
    capabilityScores_congr rfl
  cases htype : task.props.type with
  | refactoring | testing | validation =>
    rw [htype] at hscores
    exact selectByCapabilities_of_sorted [(.gemini, some 0)]
      (hscores.trans (by decide +kernel)) (by decide +kernel)
  | search | multimodal =>
    rw [htype] at hscores
    exact selectByCapabilities_of_swapped (x := some 0) (hscores.trans (by decide +kernel))
      (by decide +kernel)
  | codeGeneration =>
    rw [htype] at hscores
    exact selectByCapabilities_of_tie
      [(.openai, none), (.cohere, none), (.huggingface, none), (.localModel, none)]
      (hscores.trans (by decide +kernel)) (by decide)
  | codeReview | debugging | documentation =>
    rw [htype] at hscores
    exact selectByCapabilities_of_tie [(.openai, none)] (hscores.trans (by decide +kernel))
      (by decide)
  | architecture =>
    rw [htype] at hscores
    exact selectByCapabilities_of_tie [] (hscores.trans (by decide +kernel)) (by decide)

theorem canBeExecutedBy_selectByCapabilities (task : TaskEntity) :
    task.canBeExecutedBy (selectByCapabilities task).adapter = true := by
  rw [selectByCapabilities_eq, TaskEntity.canBeExecutedBy]
  cases task.props.type <;> rfl

/-! ## Strategies -/

/-- The strategy selects only adapters that can execute the task. -/
def RoutingStrategy.Sound (s : RoutingStrategy) : Prop :=
  ∀ task adapter, s.canHandle task = true → s.selectAdapter task = some adapter →
    task.canBeExecutedBy adapter = true

namespace TaskRouter

variable {calls : List Call} {s : RoutingStrategy}

theorem sound_ruleBased : ruleBased.Sound := by
  intro task adapter _ hselect
  cases htype : task.props.type <;> simp only [ruleBased, htype, some.injEq,
    reduceCtorEq] at hselect <;>
    subst hselect <;> simp [TaskEntity.canBeExecutedBy, htype, TaskType.compatible]

theorem sound_complexityBased : complexityBased.Sound := by
  intro task adapter _ hselect
  cases htype : task.props.type <;>
    simp only [complexityBased, htype, some.injEq, reduceCtorEq] at hselect <;>
    subst hselect <;> simp [TaskEntity.canBeExecutedBy, htype, TaskType.compatible]

def urgentRefactoring : TaskEntity := .new { TaskEntity.freshProps with priority := .urgent }

theorem answers_ruleBased (h : task.canBeExecutedBy .gemini = false) :
    ruleBased.answers task = true := by
  rw [TaskEntity.canBeExecutedBy] at h
  cases htype : task.props.type <;> rw [htype] at h <;>
    first
    | exact absurd h (by decide)
    | simp [RoutingStrategy.answers, ruleBased, htype]

theorem live_concat (calls : List Call) (c : Call) : live (calls ++ [c]) = keep (live calls) c :=
  foldl_concat ..

theorem mem_live (h : s ∈ live calls) :
    .addStrategy s ∈ calls ∨ s ∈ defaults ∧ .removeStrategy s.name ∉ calls := by
  induction calls using reverseRecOn with
  | nil => exact .inr ⟨h, not_mem_nil⟩
  | append_singleton calls c ih =>
    rw [live_concat] at h
    cases c with
    | addStrategy strategy =>
      obtain h | h := mem_append.mp h
      · obtain hadded | ⟨hdefault, hkept⟩ := ih h
        · exact .inl (mem_append_left _ hadded)
        · exact .inr ⟨hdefault, by simpa using hkept⟩
      · rw [mem_singleton.mp h]
        exact .inl (mem_append_right _ (mem_singleton_self _))
    | removeStrategy name =>
      obtain ⟨h, hname⟩ := mem_filter.mp h
      obtain hadded | ⟨hdefault, hkept⟩ := ih h
      · exact .inl (mem_append_left _ hadded)
      · refine .inr ⟨hdefault, ?_⟩
        intro hremoved
        obtain hold | hnew := mem_append.mp hremoved
        · exact hkept hold
        · obtain ⟨rfl⟩ := mem_singleton.mp hnew
          simp at hname

theorem live_split (s : RoutingStrategy) (pre rest : List RoutingStrategy)
    (hdefaults : defaults = pre ++ s :: rest) (h : .removeStrategy s.name ∉ calls) :
    ∃ pre' rest', live calls = pre' ++ s :: rest' ∧ pre'.Sublist pre := by
  induction calls using reverseRecOn with
  | nil => exact ⟨pre, rest, hdefaults, .refl _⟩
  | append_singleton calls c ih =>
    obtain ⟨hold, hlast⟩ := not_or.mp fun hor => h (mem_append.mpr hor)
    obtain ⟨pre', rest', hlive, hsub⟩ := ih hold
    rw [live_concat, hlive]
    cases c with
    | addStrategy strategy =>
      exact ⟨pre', rest' ++ [strategy], by simp [keep], hsub⟩
    | removeStrategy name =>
      have hname : (s.name != name) = true := by
        rw [bne_iff_ne]
        rintro rfl
        exact hlast (mem_singleton_self _)
      refine ⟨pre'.filter fun s => s.name != name, rest'.filter fun s => s.name != name, ?_,
        filter_sublist.trans hsub⟩
      rw [keep, filter_append, filter_cons, if_pos hname]

/-! ## The default that does not look at the type -/

theorem sound_of_mem_live (hsound : ∀ s, .addStrategy s ∈ calls → s.Sound) (h : s ∈ live calls) :
    s.Sound ∨ s = performanceBased ∧ .removeStrategy "performance-based" ∉ calls := by
  obtain hadded | ⟨hdefault, hkept⟩ := mem_live h
  · exact .inl (hsound s hadded)
  · simp only [defaults, mem_cons, not_mem_nil, or_false] at hdefault
    obtain rfl | rfl | rfl := hdefault
    · exact .inl sound_ruleBased
    · exact .inl sound_complexityBased
    · exact .inr ⟨rfl, hkept⟩

/-- The tasks that `performance-based` must not get to: urgent ones that Gemini cannot execute.
Somebody with a higher priority answers them. -/
def Covered (calls : List Call) : Prop :=
  ∀ task : TaskEntity, task.NoUsablePreference → 3 ≤ task.props.priority.value →
    task.canBeExecutedBy .gemini = false → ∃ s ∈ live calls, 60 < s.priority ∧ s.answers task = true

theorem covered_of_ruleBased (h : .removeStrategy "rule-based" ∉ calls) : Covered calls := by
  intro task _ _ hgemini
  obtain ⟨pre, rest, hlive, -⟩ := live_split ruleBased [] _ rfl h
  refine ⟨ruleBased, ?_, by decide +kernel, answers_ruleBased hgemini⟩
  rw [hlive]
  exact mem_append_right _ mem_cons_self

theorem executable_of_covered (hsound : ∀ s, .addStrategy s ∈ calls → s.Sound)
    (h : .removeStrategy "performance-based" ∈ calls ∨ Covered calls) (task : TaskEntity) :
    task.canBeExecutedBy ((after calls).route task).adapter = true := by
  by_cases hpreference : task.NoUsablePreference
  · rw [route_of_noUsablePreference _ hpreference]
    obtain ⟨s, adapter, hfirst, hselect, hroute⟩ | ⟨-, hroute⟩ := routeByStrategies_after calls task
    · rw [hroute]
      obtain ⟨hmem, hanswers⟩ := mem_filter.mp hfirst.mem
      obtain ⟨hcan, -⟩ := RoutingStrategy.answers_iff.mp hanswers
      obtain hs | ⟨rfl, hkept⟩ := sound_of_mem_live hsound hmem
      · exact hs task adapter hcan hselect
      · obtain rfl : AdapterType.gemini = adapter := some.inj hselect
        by_contra hgemini
        obtain hremoved | hcovered := h
        · exact hkept hremoved
        · obtain ⟨s', hs', hbetter, hs'answers⟩ :=
            hcovered task hpreference (of_decide_eq_true hcan) (Bool.eq_false_iff.mpr hgemini)
          have hle : s'.priority ≤ 60 := hfirst.le (mem_filter.mpr ⟨hs', hs'answers⟩)
          exact absurd hbetter (not_lt.mpr hle)
    · rw [hroute]
      exact canBeExecutedBy_selectByCapabilities task
  · -- the preferred adapter was tested
    unfold TaskEntity.NoUsablePreference at hpreference
    push Not at hpreference
    obtain ⟨preferred, hpreferred, hcan⟩ := hpreference
    rw [Ne, Bool.not_eq_false] at hcan
    simp only [route, hpreferred, hcan, if_true]

theorem covered_of_executable (hkept : .removeStrategy "performance-based" ∉ calls)
    (h : ∀ task : TaskEntity, task.canBeExecutedBy ((after calls).route task).adapter = true) :
    Covered calls := by
  intro task hpreference hurgent hgemini
  have hanswers : performanceBased.answers task = true :=
    RoutingStrategy.answers_iff.mpr ⟨decide_eq_true hurgent, .gemini, rfl⟩
  obtain ⟨pre, rest, hlive, hpre⟩ :=
    live_split performanceBased [ruleBased, complexityBased] _ rfl hkept
  have hexecutable := h task
  rw [route_of_noUsablePreference _ hpreference] at hexecutable
  obtain ⟨s, adapter, hfirst, hselect, hroute⟩ | ⟨hnone, -⟩ := routeByStrategies_after calls task
  · obtain ⟨hmem, hs⟩ := mem_filter.mp hfirst.mem
    refine ⟨s, hmem, ?_, hs⟩
    rw [hlive, filter_append, filter_cons, if_pos hanswers] at hfirst
    obtain hbefore | rfl | hlt := hfirst.of_append
    · have hdefault := hpre.subset (mem_of_mem_filter hbefore)
      simp only [mem_cons, not_mem_nil, or_false] at hdefault
      obtain rfl | rfl := hdefault <;> decide +kernel
    · obtain rfl : AdapterType.gemini = adapter := some.inj hselect
      rw [hroute] at hexecutable
      exact absurd hexecutable (Bool.eq_false_iff.mp hgemini)
    · exact hlt
  · have hmem : performanceBased ∈ live calls := by
      rw [hlive]
      exact mem_append_right _ mem_cons_self
    exact absurd hanswers (Bool.eq_false_iff.mp (hnone _ hmem))

/-- **When the adapter fits every task**: `performance-based` was removed, or the urgent tasks that
Gemini cannot execute are all answered by strategies of a higher priority; as they are while
`rule-based` is not removed. -/
theorem route_executable_iff (calls : List Call) (hsound : ∀ s, .addStrategy s ∈ calls → s.Sound) :
    ((∀ task : TaskEntity, task.canBeExecutedBy ((after calls).route task).adapter = true) ↔
      .removeStrategy "performance-based" ∈ calls ∨ Covered calls) ∧
    (.removeStrategy "rule-based" ∉ calls → Covered calls) := by
  refine ⟨⟨?_, executable_of_covered hsound⟩, covered_of_ruleBased⟩
  intro h
  by_cases hremoved : .removeStrategy "performance-based" ∈ calls
  · exact .inl hremoved
  · exact .inr (covered_of_executable hremoved h)

theorem route_executable_iff_new :
    Covered [.removeStrategy "complexity-based", .addStrategy complexityBased] ∧
    ∀ task : TaskEntity, task.canBeExecutedBy ((after [.removeStrategy "complexity-based",
      .addStrategy complexityBased]).route task).adapter = true :=
  have h := route_executable_iff [.removeStrategy "complexity-based", .addStrategy complexityBased]
    (by simp [sound_complexityBased])
  have hcovered := h.2 (by simp)
  ⟨hcovered, h.1.mpr (.inr hcovered)⟩

theorem urgent_refactoring_misrouted :
    ((after [.removeStrategy "rule-based"]).route urgentRefactoring).adapter = .gemini ∧
      urgentRefactoring.canBeExecutedBy .gemini = false := by
  have hlive : live [.removeStrategy "rule-based"] = [complexityBased, performanceBased] := rfl
  have hsorted : (after [.removeStrategy "rule-based"]).strategies =
    [complexityBased, performanceBased] := by
    rw [strategies_after, hlive]
    exact mergeSort_of_pairwise (by decide +kernel)
  have hpreference : urgentRefactoring.NoUsablePreference := by
    intro preferred h
    cases h
  refine ⟨?_, by decide⟩
  rw [route_of_noUsablePreference _ hpreference, routeByStrategies, hsorted]
  rfl

end TaskRouter

end Bridge.Domain
