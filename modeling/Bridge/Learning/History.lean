import Bridge.Learning.Module

/-!
# What becomes of recorded feedback

One module, its file, and any interleaving of its calls. `feedbackHistory` should end up as *what
was loaded, followed by what was recorded*, and two places of the class do not see to it: the load
replaces the array whatever it holds by then, and `exportToCSV` replaces it by a copy for as long as
its file operations take, and for good if one of them fails.
-/

namespace Bridge.Learning

open Lib List

structure Store where
  module : Module
  disk : Disk
  deriving DecidableEq

namespace Store

inductive Step where
  | act (a : Action)
  -- another program changes the disk
  | external (d : Disk)

def init (d : Disk) : Store := ⟨.new, d⟩

def step (s : Store) : Step → Option Store
  | .act a => (s.module.act s.disk a).map fun r => ⟨r.1, r.2⟩
  | .external d => some { s with disk := d }

end Store

variable {m : Module}

namespace Module

def expected (m : Module) : List Entry := m.loaded ++ m.recorded.map Feedback.entry

/-- The arrays put aside by the exports under way, the first one's first. -/
def aside (m : Module) : List Nat := m.calls.filterMap Pc.original

def Settled (m : Module) : Prop := ∀ pc ∈ m.calls, pc.settled = true

theorem Settled.aside (h : m.Settled) : m.aside = [] := by
  rw [Module.aside, filterMap_eq_nil_iff]
  intro pc hpc
  have hs := h pc hpc
  cases pc with
  | done | rejected => rfl
  | _ => simp [Pc.settled] at hs

/-- A load that finds data comes before any feedback and outside any export. -/
def LoadsFirst (m : Module) (d : Disk) (inp : Input) (pc : Pc) : Prop :=
  pc = .load → inp.ok = true → d.file ≠ .absent → d.file ≠ .corrupt → m.recorded = [] ∧ m.aside = []

/-- An export fails with an empty history only; and one that succeeds is the last that began, or the
history is empty. -/
def ExportsNest (m : Module) (d : Disk) (i : Nat) (inp : Input) (pc : Pc) : Prop :=
  pc.original.isSome = true → ∀ nx ∈ pc.exec m d inp, (nx.pc = .rejected → m.expected = []) ∧
    (nx.pc = .done → m.expected = [] ∨ (m.calls.drop (i + 1)).filterMap Pc.original = [])

/-- **The condition**; feedback is recorded outside any export. -/
def Undisturbed (m : Module) (d : Disk) : Action → Prop
  | .recordFeedback _ => m.aside = []
  | .step i inp => ∀ pc ∈ m.calls[i]?, m.LoadsFirst d inp pc ∧ m.ExportsNest d i inp pc
  | _ => True

end Module

/-! ## What one step of a call can do to the history -/

structure Same (m m' : Module) : Prop where
  arrays : m'.arrays = m.arrays
  feedbackHistory : m'.feedbackHistory = m.feedbackHistory
  loaded : m'.loaded = m.loaded
  recorded : m'.recorded = m.recorded

variable {f : Feedback}

namespace Same

variable {m₁ m₂ : Module}

theorem refl : Same m m := ⟨rfl, rfl, rfl, rfl⟩

theorem trans (h₁ : Same m m₁) (h₂ : Same m₁ m₂) : Same m m₂ :=
  ⟨h₂.arrays.trans h₁.arrays, h₂.feedbackHistory.trans h₁.feedbackHistory,
    h₂.loaded.trans h₁.loaded, h₂.recorded.trans h₁.recorded⟩

theorem foldl {β : Type} {f : Module → β → Module} (hf : ∀ m b, Same m (f m b)) :
    ∀ (l : List β) (m : Module), Same m (l.foldl f m)
  | [], _ => .refl
  | b :: l, m => (hf m b).trans (foldl hf l (f m b))

theorem setPattern {k : String} {p : Pattern} : Same m (m.setPattern k p) :=
  ⟨rfl, rfl, rfl, rfl⟩

theorem loadPatterns : Same m m.loadPatterns := foldl (fun _ _ => setPattern) _ m

theorem updatePatterns : Same m (m.updatePatterns f) := by
  simp only [Module.updatePatterns]
  split
  · exact ⟨rfl, rfl, rfl, rfl⟩
  · exact setPattern

end Same

theorem Module.updatePatterns_calls : (m.updatePatterns f).calls = m.calls := by
  simp only [Module.updatePatterns]
  split <;> rfl

structure Installed (m : Module) (l : List Entry) (m' : Module) : Prop where
  arrays : m'.arrays = m.arrays.alloc l
  feedbackHistory : m'.feedbackHistory = m.arrays.next
  loaded : m'.loaded = l
  recorded : m'.recorded = m.recorded

theorem installed_install {d : LearningData} : Installed m d.feedbackHistory (m.install d) := by
  have hset : ∀ (m : Module) (e : String × Pattern), Same m (m.setPattern e.1 e.2) :=
    fun _ _ => .setPattern
  have h := (show Same m { m with patterns := [] } from ⟨rfl, rfl, rfl, rfl⟩).trans
      (Same.foldl hset d.patterns _)
  refine ⟨?_, ?_, rfl, h.recorded⟩
  · show Heap.alloc _ _ = _
    rw [h.arrays]
  · show Heap.next _ = _
    rw [h.arrays]

inductive Effect (m : Module) (d : Disk) (inp : Input) : Pc → Module → Pc → Prop
  | install {ld : LearningData} {m' : Module} : inp.ok = true → d.file = .data ld →
      Installed m ld.feedbackHistory m' → Effect m d inp .load m' .done
  | restore (o : Nat) : Effect m d inp (.csv o) { m with feedbackHistory := o } .done
  | reject {pc : Pc} : Effect m d inp pc m .rejected
  | quiet {pc pc' : Pc} {m' : Module} : Same m m' → pc'.original = pc.original →
      Effect m d inp pc m' pc'

variable {pc : Pc}

/-- **One step of a call, by its effect.** -/
theorem exec_effect {d : Disk} {inp : Input} {nx : Next}
    (h : pc.exec m d inp = some nx) : Effect m d inp pc nx.module nx.pc := by
  cases pc with
  | load =>
    simp only [Pc.exec] at h
    split at h <;> cases h
    · rename_i ld hok hfile
      have hi := installed_install (m := m) (d := ld)
      exact .install hok hfile ⟨hi.arrays, hi.feedbackHistory, hi.loaded, hi.recorded⟩
    · have hs := Same.loadPatterns (m := m)
      exact .quiet ⟨hs.arrays, hs.feedbackHistory, hs.loaded, hs.recorded⟩ rfl
  | analyze =>
    cases h
    refine .quiet ?_ rfl
    split
    · exact ⟨rfl, rfl, rfl, rfl⟩
    · exact .refl
  | access c sn =>
    simp only [Pc.exec] at h
    split at h <;> cases h <;> cases c <;> exact .quiet .refl rfl
  | mkdir c sn =>
    simp only [Pc.exec] at h
    split at h <;> cases h
    · cases c <;> exact .quiet .refl rfl
    · exact .reject
  | backup c sn =>
    cases h
    cases c <;> exact .quiet .refl rfl
  | write c text =>
    simp only [Pc.exec] at h
    split at h <;> cases h
    · cases c <;> exact .quiet .refl rfl
    · exact .reject
  | read o =>
    simp only [Pc.exec] at h
    split at h <;> cases h
    · exact .quiet .refl rfl
    · exact .reject
  | csv o =>
    simp only [Pc.exec] at h
    split at h <;> cases h
    · exact .restore o
    · exact .reject
  | done | rejected => simp [Pc.exec] at h

/-! ## The invariant -/

namespace Module

structure Kept (m : Module) : Prop where
  current : m.aside = [] → m.arrays.read m.feedbackHistory = some m.expected
  first : ∀ o, m.aside.head? = some o → m.arrays.read o = some m.expected
  empty : m.expected = [] → ∀ r ∈ m.feedbackHistory :: m.aside, m.arrays.read r = some []
  valid : ∀ r ∈ m.feedbackHistory :: m.aside, m.arrays.Valid r

variable {m : Module}

theorem Kept.of_empty (hexp : m.expected = [])
    (h : ∀ r ∈ m.feedbackHistory :: m.aside, m.arrays.read r = some []) : Kept m where
  current _ := (h _ mem_cons_self).trans (by rw [hexp])
  first o ho := (h o (mem_cons_of_mem _ (mem_of_mem_head? ho))).trans (by rw [hexp])
  empty _ := h
  valid r hr := ⟨[], h r hr⟩

theorem Kept.of_alone (ha : m.aside = [])
    (h : m.arrays.read m.feedbackHistory = some m.expected) : Kept m := by
  have hmem : ∀ r ∈ m.feedbackHistory :: m.aside, r = m.feedbackHistory := by
    intro r hr
    rw [ha] at hr
    exact mem_singleton.mp hr
  refine ⟨fun _ => h, fun o ho => ?_, fun he r hr => ?_, fun r hr => ?_⟩
  · simp [ha] at ho
  · rw [hmem r hr, h, he]
  · rw [hmem r hr]
    exact ⟨_, h⟩

variable {m' : Module}

theorem Kept.congr (h : Kept m) (hs : Same m m') (ha : m'.aside = m.aside) : Kept m' := by
  have hexp : m'.expected = m.expected := by rw [expected, expected, hs.loaded, hs.recorded]
  refine ⟨?_, ?_, ?_, ?_⟩
  · rw [ha, hs.arrays, hs.feedbackHistory, hexp]
    exact h.current
  · rw [ha, hs.arrays, hexp]
    exact h.first
  · rw [ha, hs.arrays, hs.feedbackHistory, hexp]
    exact h.empty
  · rw [ha, hs.arrays, hs.feedbackHistory]
    exact h.valid

theorem kept_new : Kept new :=
  .of_empty rfl fun r hr => by
    have hr' : r = 0 := by simpa [new, aside, Pc.original] using hr
    subst hr'
    rfl

variable {i : Nat}

theorem aside_set (hpc : m.calls[i]? = some pc) (pc' : Pc) :
    m.aside = (m.calls.take i).filterMap Pc.original ++
        (pc.original.toList ++ (m.calls.drop (i + 1)).filterMap Pc.original) ∧
      (m.calls.set i pc').filterMap Pc.original = (m.calls.take i).filterMap Pc.original ++
        (pc'.original.toList ++ (m.calls.drop (i + 1)).filterMap Pc.original) := by
  obtain ⟨hi, rfl⟩ := List.getElem?_eq_some_iff.mp hpc
  have hset : ∀ q : Pc, (m.calls.set i q).filterMap Pc.original =
      (m.calls.take i).filterMap Pc.original ++
        (q.original.toList ++ (m.calls.drop (i + 1)).filterMap Pc.original) := by
    intro q
    rw [set_eq_take_append_cons_drop, if_pos hi, filterMap_append, filterMap_cons]
    cases q.original <;> rfl
  refine ⟨?_, hset pc'⟩
  rw [aside, ← hset, set_getElem_self]

theorem Kept.quiet {pc pc' : Pc} (h : Kept m)
    (hpc : m.calls[i]? = some pc) (hs : Same m m') (ho : pc'.original = pc.original) :
    Kept { m' with calls := m.calls.set i pc' } := by
  refine h.congr ⟨hs.arrays, hs.feedbackHistory, hs.loaded, hs.recorded⟩ ?_
  obtain ⟨hbefore, hafter⟩ := aside_set hpc pc'
  rw [hbefore, ← ho]
  exact hafter

theorem Kept.install {l : List Entry}
    (hpc : m.calls[i]? = some .load) (hi : Installed m l m') (hrec : m.recorded = [])
    (ha : m.aside = []) : Kept { m' with calls := m.calls.set i .done } := by
  have hexp : m'.expected = l := by simp [expected, hi.loaded, hi.recorded, hrec]
  have ha' : (m.calls.set i .done).filterMap Pc.original = [] := by
    obtain ⟨hbefore, hafter⟩ := aside_set hpc .done
    exact hafter.trans (hbefore.symm.trans ha)
  refine .of_alone ha' ?_
  show m'.arrays.read m'.feedbackHistory = some m'.expected
  rw [hi.arrays, hi.feedbackHistory, hexp]
  exact Heap.read_alloc_next

theorem mem_aside_of_set {r : Nat} {pc pc' : Pc} (hpc : m.calls[i]? = some pc)
    (ho : pc'.original = none) (hr : r ∈ (m.calls.set i pc').filterMap Pc.original) :
    r ∈ m.aside := by
  obtain ⟨hbefore, hafter⟩ := aside_set hpc pc'
  rw [hafter, ho] at hr
  rw [hbefore]
  rcases mem_append.mp hr with hr | hr
  · exact mem_append_left _ hr
  · exact mem_append_right _ (mem_append_right _ hr)

theorem Kept.reject (h : Kept m) (hpc : m.calls[i]? = some pc)
    (hexp : m.expected = []) : Kept { m with calls := m.calls.set i .rejected } := by
  refine .of_empty hexp fun r hr => h.empty hexp r ?_
  rcases mem_cons.mp hr with rfl | hr
  · exact mem_cons_self
  · exact mem_cons_of_mem _ (mem_aside_of_set hpc rfl hr)

theorem Kept.restore {o : Nat} (h : Kept m) (hpc : m.calls[i]? = some (.csv o))
    (hlast : m.expected = [] ∨ (m.calls.drop (i + 1)).filterMap Pc.original = []) :
    Kept { m with feedbackHistory := o, calls := m.calls.set i .done } := by
  obtain ⟨hbefore, hafter⟩ := aside_set hpc .done
  have ho : o ∈ m.aside := by
    rw [hbefore]
    exact mem_append_right _ mem_cons_self
  have hmem : ∀ r ∈ o :: (m.calls.set i .done).filterMap Pc.original, r ∈ m.aside := by
    intro r hr
    rcases mem_cons.mp hr with rfl | hr
    · exact ho
    · exact mem_aside_of_set hpc rfl hr
  rcases hlast with hexp | hlast
  · exact .of_empty hexp fun r hr => h.empty hexp r (mem_cons_of_mem _ (hmem r hr))
  · -- the exports that began before this one are those still under way
    replace hbefore : m.aside = (m.calls.take i).filterMap Pc.original ++ [o] := by
      rw [hbefore, hlast]
      rfl
    replace hafter : (m.calls.set i .done).filterMap Pc.original =
        (m.calls.take i).filterMap Pc.original := by
      rw [hafter, hlast]
      exact append_nil _
    refine ⟨fun ha => ?_, fun r hr => ?_, fun he r hr => ?_, fun r hr => ?_⟩
    · refine h.first o ?_
      rw [hbefore, ← hafter, show (m.calls.set i .done).filterMap Pc.original = [] from ha]
      rfl
    · refine h.first r ?_
      replace hr : ((m.calls.set i .done).filterMap Pc.original).head? = some r := hr
      rw [hafter] at hr
      rw [hbefore, head?_append, hr]
      rfl
    · exact h.empty he r (mem_cons_of_mem _ (hmem r hr))
    · exact h.valid r (mem_cons_of_mem _ (hmem r hr))

theorem Kept.recordFeedback (h : Kept m) (ha : m.aside = []) : Kept (m.recordFeedback f) := by
  have hread := h.current ha
  have hhist : m.history = m.expected := by rw [history, hread]; rfl
  let m₁ : Module := { m with
    arrays := m.arrays.write m.feedbackHistory (m.history ++ [f.entry])
    recorded := m.recorded ++ [f] }
  have hk : Kept m₁ := by
    refine .of_alone ha ?_
    have hexp : m₁.expected = m.expected ++ [f.entry] := by simp [m₁, expected]
    rw [hexp, ← hhist]
    exact Heap.read_write_self hread
  have hs := Same.updatePatterns (m := m₁) (f := f)
  refine hk.congr ⟨hs.arrays, hs.feedbackHistory, hs.loaded, hs.recorded⟩ ?_
  show ((m₁.updatePatterns f).calls ++ [Pc.analyze]).filterMap Pc.original = m₁.aside
  rw [updatePatterns_calls, filterMap_append]
  exact append_nil _

theorem Kept.startSave (h : Kept m) : Kept (m.startSave .save) := by
  refine h.congr ⟨rfl, rfl, rfl, rfl⟩ ?_
  show (m.calls ++ [_]).filterMap Pc.original = m.aside
  rw [filterMap_append]
  exact append_nil _

theorem Kept.startExport {now : Nat} (h : Kept m) : Kept (m.startExport now) := by
  have ha : (m.startExport now).aside = m.aside ++ [m.feedbackHistory] := by
    show (m.calls ++ [_]).filterMap Pc.original = _
    rw [filterMap_append]
    rfl
  have hmem : ∀ r ∈ m.aside ++ [m.feedbackHistory], r ∈ m.feedbackHistory :: m.aside := by
    intro r hr
    rcases mem_append.mp hr with hr | hr
    · exact mem_cons_of_mem _ hr
    · exact mem_cons.mpr (.inl (mem_singleton.mp hr))
  refine ⟨fun he => ?_, fun o ho => ?_, fun he r hr => ?_, fun r hr => ?_⟩
  · rw [ha] at he
    simp at he
  · rw [ha, head?_append] at ho
    refine Heap.read_alloc ?_
    cases hfirst : m.aside.head? with
    | none =>
      rw [hfirst] at ho
      cases ho
      exact h.current (head?_eq_none_iff.mp hfirst)
    | some o' =>
      rw [hfirst] at ho
      cases ho
      exact h.first o hfirst
  · rw [ha] at hr
    rcases mem_cons.mp hr with rfl | hr
    · have hhist : m.history = [] := by
        rw [history, h.empty he _ mem_cons_self]
        rfl
      show (m.arrays.alloc (m.history.map (Entry.stamped now))).read m.arrays.next = some []
      rw [hhist]
      exact Heap.read_alloc_next
    · exact Heap.read_alloc (h.empty he r (hmem r hr))
  · rw [ha] at hr
    rcases mem_cons.mp hr with rfl | hr
    · exact ⟨_, Heap.read_alloc_next⟩
    · exact (h.valid r (hmem r hr)).alloc

/-- **A call that goes on keeps what was recorded.** -/
theorem Kept.step {d : Disk} {inp : Input} {nx : Next} (h : Kept m)
    (hu : m.Undisturbed d (.step i inp)) (hpc : m.calls[i]? = some pc)
    (hnx : pc.exec m d inp = some nx) : Kept { nx.module with calls := m.calls.set i nx.pc } := by
  obtain ⟨hload, hexport⟩ := hu pc hpc
  obtain ⟨m', d', pc'⟩ := nx
  have heff : Effect m d inp pc m' pc' := exec_effect hnx
  cases heff with
  | install hok hfile hi =>
    obtain ⟨hrec, ha⟩ := hload rfl hok (by simp [hfile]) (by simp [hfile])
    exact .install hpc hi hrec ha
  | restore o => exact h.restore hpc ((hexport rfl _ hnx).2 rfl)
  | reject =>
    by_cases ho : pc.original.isSome = true
    · exact h.reject hpc ((hexport ho _ hnx).1 rfl)
    · have hnone : pc.original = none := Option.not_isSome_iff_eq_none.mp ho
      exact h.quiet hpc .refl hnone.symm
  | quiet hs ho => exact h.quiet hpc hs ho

end Module

namespace Store

def Undisturbed (s : Store) : Step → Prop
  | .act a => s.module.Undisturbed s.disk a
  | .external _ => True

theorem kept_step {s s' : Store} {a : Step} (h : s.module.Kept) (ha : s.Undisturbed a)
    (hs : s.step a = some s') : s'.module.Kept := by
  cases a with
  | external d =>
    cases hs
    exact h
  | act a =>
    obtain ⟨⟨m', d'⟩, hact, rfl⟩ := Option.map_eq_some_iff.mp hs
    cases a with
    | recordFeedback f =>
      cases hact
      exact h.recordFeedback ha
    | saveToPersistence =>
      cases hact
      exact h.startSave
    | exportToCSV now =>
      cases hact
      exact h.startExport
    | destroy =>
      cases hact
      have h' : Module.Kept { s.module with autoSave := false } :=
        h.congr ⟨rfl, rfl, rfl, rfl⟩ rfl
      exact h'.startSave
    | autoSave =>
      simp only [Module.act] at hact
      split at hact <;> cases hact
      exact h.startSave
    | step i inp =>
      simp only [Module.act] at hact
      split at hact
      · cases hact
      · rename_i pc hpc
        obtain ⟨nx, hnx, heq⟩ := Option.map_eq_some_iff.mp hact
        cases heq
        exact h.step ha hpc hnx

/-- **Feedback is not lost, duplicated or altered**: once every call has settled, the history is
what was loaded followed by what was recorded, in every run that meets the condition. -/
theorem feedback_kept {d : Disk} {s : Store} (h : Reaches step Undisturbed (init d) s)
    (hs : s.module.Settled) :
    s.module.history = s.module.loaded ++ s.module.recorded.map Feedback.entry := by
  have hk : s.module.Kept :=
    h.invariant (fun s => s.module.Kept) Module.kept_new fun hk ha hs => kept_step hk ha hs
  rw [Module.history, hk.current hs.aside]
  rfl

/-! ## The condition is needed -/

instance (m : Module) : Decidable m.Settled :=
  inferInstanceAs (Decidable (∀ pc ∈ m.calls, pc.settled = true))

instance (m : Module) (d : Disk) (inp : Input) (pc : Pc) : Decidable (m.LoadsFirst d inp pc) :=
  inferInstanceAs (Decidable (_ → _ → _ → _ → _ ∧ _))

instance (m : Module) (d : Disk) (i : Nat) (inp : Input) (pc : Pc) :
    Decidable (m.ExportsNest d i inp pc) :=
  inferInstanceAs (Decidable (_ → ∀ nx ∈ pc.exec m d inp, (nx.pc = .rejected → m.expected = []) ∧
    (nx.pc = .done → m.expected = [] ∨ (m.calls.drop (i + 1)).filterMap Pc.original = [])))

instance (m : Module) (d : Disk) (a : Action) : Decidable (m.Undisturbed d a) := by
  cases a <;> dsimp only [Module.Undisturbed] <;> infer_instance

instance (s : Store) (a : Step) : Decidable (s.Undisturbed a) := by
  cases a <;> dsimp only [Store.Undisturbed] <;> infer_instance

/-- The pending operation of call `i` succeeds. -/
def Step.ok (i : Nat) : Step := .act (.step i ⟨true, false⟩)

def Step.fail (i : Nat) : Step := .act (.step i ⟨false, false⟩)

/-- Feedback for a task `t`. -/
def liked : Feedback := ⟨"t", true, 1, .claude, none⟩

def disliked : Feedback := ⟨"t", false, 2, .gemini, some 1⟩

def written : Disk := ⟨true, .data ⟨[], [disliked.entry]⟩⟩

theorem feedback_lost :
    (∃ s, exec step (init written) [.act (.recordFeedback liked), .ok 0, .ok 1] = some s ∧
      s.module.Settled ∧ s.module.recorded = [liked] ∧
      s.module.history = [disliked.entry]) ∧
    (∃ s, exec step (init ⟨true, .absent⟩) [.ok 0, .act (.exportToCSV 5),
        .act (.recordFeedback liked), .ok 1, .ok 1, .ok 1, .ok 1, .ok 1, .ok 2] = some s ∧
      s.module.Settled ∧ s.module.recorded = [liked] ∧ s.module.history = []) ∧
    (∃ s, exec step (init ⟨true, .absent⟩) [.ok 0, .act (.recordFeedback liked), .ok 1,
        .act (.exportToCSV 5), .ok 2, .ok 2, .fail 2] = some s ∧
      s.module.Settled ∧ s.module.recorded = [liked] ∧
      s.module.history = [⟨liked, some 5⟩]) :=
  ⟨⟨_, rfl, by decide, rfl, rfl⟩, ⟨_, rfl, by decide, rfl, rfl⟩, ⟨_, rfl, by decide, rfl, rfl⟩⟩

theorem feedback_kept_around_export :
    ∃ s, execIf step Undisturbed (init written) [.ok 0, .act (.recordFeedback liked), .ok 1,
        .act (.exportToCSV 5), .ok 2, .act .saveToPersistence, .ok 3, .ok 2, .ok 2, .fail 3, .ok 2,
        .ok 2, .fail 3, .act (.recordFeedback liked), .ok 4] = some s ∧
      s.module.Settled ∧ s.module.loaded = [disliked.entry] ∧
      s.module.recorded = [liked, liked] ∧
      s.module.history = s.module.loaded ++ s.module.recorded.map Feedback.entry := by
  obtain ⟨s, hs, hset, hload, hrec⟩ : ∃ s, execIf step Undisturbed (init written) [.ok 0,
      .act (.recordFeedback liked), .ok 1, .act (.exportToCSV 5), .ok 2, .act .saveToPersistence,
      .ok 3, .ok 2, .ok 2, .fail 3, .ok 2, .ok 2, .fail 3, .act (.recordFeedback liked), .ok 4] =
        some s ∧
      s.module.Settled ∧ s.module.loaded = [disliked.entry] ∧ s.module.recorded = [liked, liked] :=
    ⟨_, rfl, by decide, rfl, rfl⟩
  exact ⟨s, hs, hset, hload, hrec, feedback_kept (reaches_of_execIf hs) hset⟩

end Store

end Bridge.Learning
