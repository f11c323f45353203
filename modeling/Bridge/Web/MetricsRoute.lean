import Mathlib.Data.List.DropRight
import Mathlib.Algebra.Order.Ring.Rat
import Bridge.Lib.Sites

/-!
# The metrics route

A `POST` reads the whole metrics file, adds its task to what it has read, and writes the whole file
again. Nothing keeps another request from writing in between, and then what that one added is gone:
the totals are right iff no request ever writes over a file that is not the one it read.
-/

namespace Bridge.Web.MetricsRoute

open Lib Coroutine List

/-! ## The file -/

structure TaskEntry where
  taskId : String
  type : String
  success : Bool
  executionTime : Rat
  executedBy : Option String
  timestamp : String
  deriving DecidableEq

/-- A value in `tasksByType`. -/
inductive Count
  | number (n : Nat)
  | text (s : String)
  deriving DecidableEq

structure Summary where
  totalTasks : Nat
  successCount : Nat
  totalTime : Rat
  tasksByType : String → Option Count

structure Metrics where
  tasks : List TaskEntry
  summary : Summary

def Metrics.empty : Metrics := ⟨[], ⟨0, 0, 0, fun _ => none⟩⟩

def inherited (name : String) : Option String :=
  if name = "constructor" then some "function Object() \x7b [native code] \x7d"
  else if name = "__proto__" then some "[object Object]"
  else if name ∈ ["__defineGetter__", "__defineSetter__", "hasOwnProperty", "__lookupGetter__",
      "__lookupSetter__", "isPrototypeOf", "propertyIsEnumerable", "toString", "valueOf",
      "toLocaleString"] then some ("function " ++ name ++ "() \x7b [native code] \x7d")
  else none

/-- `(count || 0) + 1` -/
def Count.next : Option Count → Count
  | none => .number 1
  | some (.number n) => .number (n + 1)
  | some (.text s) => if s = "" then .number 1 else .text (s ++ "1")

/-- `tasksByType[type] = (tasksByType[type] || 0) + 1`. The `__proto__` that is inherited takes no
text. -/
def countType (tasksByType : String → Option Count) (type : String) : String → Option Count :=
  match tasksByType type with
  | some count => fun name => if name = type then some (Count.next (some count)) else
    tasksByType name
  | none =>
    if type = "__proto__" then tasksByType
    else fun name =>
      if name = type then some (Count.next ((inherited type).map .text)) else tasksByType name

/-- `slice(-1000)`, where there are more. -/
def keepLast (tasks : List TaskEntry) : List TaskEntry :=
  if 1000 < tasks.length then tasks.rtake 1000 else tasks

def Metrics.add (m : Metrics) (entry : TaskEntry) : Metrics where
  tasks := keepLast (m.tasks ++ [entry])
  summary := {
    totalTasks := m.summary.totalTasks + 1
    successCount := m.summary.successCount + if entry.success then 1 else 0
    totalTime := m.summary.totalTime + entry.executionTime
    tasksByType := countType m.summary.tasksByType entry.type }

/-! ## The requests -/

structure World where
  file : Option Metrics
  saved : List TaskEntry

/-- What `readFile` finds and `JSON.parse` makes of it. -/
def World.metrics (w : World) : Metrics := w.file.getD .empty

/-- What a request awaits: the read, and the write of what it has made of the metrics it read. -/
inductive Site
  | readFile (entry : TaskEntry)
  | writeFile (entry : TaskEntry) (read : Metrics)

abbrev Answer (_ : Site) : Type := Unit

/-- The error that a write rejects with is answered with `Failed to update metrics`. -/
def post (entry : TaskEntry) : Coroutine World Answer String Unit := do
  turn (.readFile entry)
  let w ← read
  awaits (.writeFile entry w.metrics) "Failed to update metrics"
  let metrics := w.metrics.add entry
  Coroutine.modify fun w => ⟨some metrics, w.saved ++ [entry]⟩

abbrev Route := Pool World Answer String Unit

abbrev Action := Pool.Action TaskEntry Answer

def step : Route → Action → Option Route := Pool.step post

def init (file : Option Metrics) : Route := ⟨⟨file, []⟩, []⟩

inductive Moves : (q : Site) → Option (Answer q) → World → World → Option Site → Prop
  | readFile {entry : TaskEntry} {x : Option Unit} {w : World} :
      Moves (.readFile entry) x w w (some (.writeFile entry w.metrics))
  | written {entry : TaskEntry} {read : Metrics} {w : World} :
      Moves (.writeFile entry read) (some ()) w ⟨some (read.add entry), w.saved ++ [entry]⟩ none
  | failed {entry : TaskEntry} {read : Metrics} {w : World} :
      Moves (.writeFile entry read) none w w none

def Begins (entry : TaskEntry) (w w' : World) (q : Option Site) : Prop :=
  w' = w ∧ q = some (.readFile entry)

theorem obeys_post (entry : TaskEntry) (w : World) :
    (post entry).Obeys Moves (fun _ P w => P w none) (Begins entry w) w := by
  refine ⟨⟨rfl, rfl⟩, ?_⟩
  intro x w'
  refine ⟨.readFile, ?_⟩
  intro y w''
  cases y with
  | none => exact .failed
  | some u => exact .written

theorem step_moves {p p' : Route} {a : Action} (h : p.Obedient Moves) (hs : step p a = some p') :
    p'.Obedient Moves ∧ Pool.SiteStep Begins Moves p.state p.sites a p'.state p'.sites :=
  h.step obeys_post hs

/-- What the route itself writes: the last 1000 tasks of all, and numbers in `tasksByType`. -/
structure Metrics.WellFormed (m : Metrics) : Prop where
  tasks : m.tasks.length = min 1000 m.summary.totalTasks
  numbers : ∀ type count, m.summary.tasksByType type = some count → ∃ n, count = .number n

theorem wellFormed_empty : Metrics.empty.WellFormed :=
  ⟨rfl, fun _ _ h => absurd h (by simp [Metrics.empty])⟩

def Count.toNat : Option Count → Nat
  | some (.number n) => n
  | some (.text _) | none => 0

/-- The metrics are those of `m`, and what the posted tasks add. -/
structure Accurate (m : Metrics) (posted : List TaskEntry) (m' : Metrics) : Prop where
  totalTasks : m'.summary.totalTasks = m.summary.totalTasks + posted.length
  successCount : m'.summary.successCount = m.summary.successCount + posted.countP TaskEntry.success
  totalTime : m'.summary.totalTime = m.summary.totalTime + (posted.map TaskEntry.executionTime).sum
  tasksByType : ∀ type ∈ posted.map TaskEntry.type, m'.summary.tasksByType type =
    some (.number (Count.toNat (m.summary.tasksByType type) +
      (posted.map TaskEntry.type).count type))
  otherTypes : ∀ type ∉ posted.map TaskEntry.type,
    m'.summary.tasksByType type = m.summary.tasksByType type
  tasks : m'.tasks = (m.tasks ++ posted).rtake (min 1000 m'.summary.totalTasks)

/-- A type that is counted, because nothing is inherited under it or it has a count already. -/
def Ordinary (m : Metrics) (type : String) : Prop :=
  inherited type = none ∨ (m.summary.tasksByType type).isSome

/-! ### The counts by type -/

section CountType

variable {f : String → Option Count} {type name : String} {types : List String}

theorem countType_of_ne (hne : name ≠ type) : countType f type name = f name := by
  unfold countType
  cases f type with
  | some count => exact if_neg hne
  | none =>
    by_cases hproto : type = "__proto__"
    · simp [if_pos hproto]
    · simp [if_neg hproto, if_neg hne]

theorem countType_of_some {count : Count} (h : f type = some count) :
    countType f type type = some (Count.next (some count)) := by
  simp only [countType, h, if_true]

def Countable (f : String → Option Count) (type : String) : Prop :=
  (∃ n, f type = some (.number n)) ∨ (f type = none ∧ inherited type = none)

theorem countType_of_countable (h : Countable f type) :
    countType f type type = some (.number (Count.toNat (f type) + 1)) := by
  obtain ⟨n, hn⟩ | ⟨hnone, hinh⟩ := h
  · rw [countType_of_some hn, hn]
    rfl
  · have hproto : type ≠ "__proto__" := by
      rintro rfl
      exact absurd hinh (by decide)
    simp only [countType, hnone, if_neg hproto, hinh, if_true]
    rfl

theorem foldl_countType_of_not_mem (h : type ∉ types) : types.foldl countType f type = f type := by
  induction types generalizing f with
  | nil => rfl
  | cons t types ih =>
    rw [foldl_cons, ih fun hmem => h (mem_cons_of_mem t hmem)]
    refine countType_of_ne ?_
    rintro rfl
    exact h mem_cons_self

theorem foldl_countType (h : Countable f type) (hmem : type ∈ types) :
    types.foldl countType f type = some (.number (Count.toNat (f type) + types.count type)) := by
  induction types generalizing f with
  | nil => cases hmem
  | cons t types ih =>
    rw [foldl_cons]
    by_cases ht : t = type
    · subst ht
      have hnext := countType_of_countable h
      by_cases hrest : t ∈ types
      · rw [ih (.inl ⟨_, hnext⟩) hrest, hnext, count_cons_self]
        simp [Count.toNat, Nat.add_assoc, Nat.add_comm 1]
      · rw [foldl_countType_of_not_mem hrest, hnext, count_cons_self,
          count_eq_zero.mpr hrest]
    · have hsame : countType f t type = f type := countType_of_ne (Ne.symm ht)
      have hcount : Countable (countType f t) type := by
        unfold Countable
        rw [hsame]
        exact h
      rw [ih hcount ((mem_cons.mp hmem).resolve_left (Ne.symm ht)), hsame, count_cons_of_ne ht]

def Uncounted (f : String → Option Count) (type : String) : Prop :=
  f type = none ∨ ∃ s, s ≠ "" ∧ f type = some (.text s)

theorem append_one_ne_empty (s : String) : s ++ "1" ≠ "" := by
  intro h
  have hlength := congrArg String.length h
  simp at hlength

theorem inherited_ne_empty : inherited type ≠ some "" := by
  unfold inherited
  split_ifs <;> simp

theorem countType_of_inherited {s : String} (hnone : f type = none) (hinh : inherited type = some s)
    (hproto : type ≠ "__proto__") : countType f type type = some (.text (s ++ "1")) := by
  have hs : s ≠ "" := by
    rintro rfl
    exact inherited_ne_empty hinh
  simp only [countType, hnone, if_neg hproto, if_true, hinh, Option.map_some, Count.next, if_neg hs]

theorem uncounted_countType (hinh : inherited type ≠ none) (h : Uncounted f type) (t : String) :
    Uncounted (countType f t) type := by
  by_cases ht : t = type
  · subst ht
    obtain hnone | ⟨s, hs, htext⟩ := h
    · by_cases hproto : t = "__proto__"
      · left
        simp [countType, hnone, if_pos hproto]
      · obtain ⟨s, hs⟩ := Option.ne_none_iff_exists'.mp hinh
        exact .inr ⟨s ++ "1", append_one_ne_empty s, countType_of_inherited hnone hs hproto⟩
    · right
      refine ⟨s ++ "1", append_one_ne_empty s, ?_⟩
      rw [countType_of_some htext]
      simp [Count.next, if_neg hs]
  · unfold Uncounted
    rw [countType_of_ne (Ne.symm ht)]
    exact h

theorem uncounted_foldl (hinh : inherited type ≠ none) (h : Uncounted f type) :
    Uncounted (types.foldl countType f) type := by
  induction types generalizing f with
  | nil => exact h
  | cons t types ih => exact ih (uncounted_countType hinh h t)

theorem Uncounted.ne_number (h : Uncounted f type) (n : Nat) : f type ≠ some (.number n) := by
  obtain hnone | ⟨s, -, htext⟩ := h
  · simp [hnone]
  · simp [htext]

end CountType

/-! ### The requests, one after the other -/

section Fold

variable {m : Metrics} {posted : List TaskEntry}

theorem keepLast_eq (tasks : List TaskEntry) : keepLast tasks = tasks.rtake 1000 := by
  unfold keepLast
  split_ifs with h
  · rfl
  · rw [rtake, Nat.sub_eq_zero_of_le (not_lt.mp h), drop_zero]

theorem rtake_rtake_append (n : Nat) (tasks : List TaskEntry) (entry : TaskEntry) :
    (tasks.rtake n ++ [entry]).rtake n = (tasks ++ [entry]).rtake n := by
  simp only [rtake_eq_reverse_take_reverse, reverse_append, reverse_reverse]
  cases n with
  | zero => rfl
  | succ n =>
    simp only [reverse_singleton, singleton_append, take_succ_cons, take_take]
    rw [Nat.min_eq_left (Nat.le_succ n)]

theorem foldl_add_tasks (h : m.tasks.length ≤ 1000) :
    (posted.foldl Metrics.add m).tasks = (m.tasks ++ posted).rtake 1000 := by
  induction posted using reverseRecOn with
  | nil => rw [append_nil, rtake, Nat.sub_eq_zero_of_le h, drop_zero]; rfl
  | append_singleton posted entry ih =>
    rw [foldl_concat, ← append_assoc, ← rtake_rtake_append, ← ih]
    exact keepLast_eq _

theorem foldl_add_totalTasks :
    (posted.foldl Metrics.add m).summary.totalTasks = m.summary.totalTasks + posted.length := by
  induction posted using reverseRecOn with
  | nil => rfl
  | append_singleton posted entry ih =>
    rw [foldl_concat, length_append, ← Nat.add_assoc, ← ih]
    rfl

theorem foldl_add_successCount : (posted.foldl Metrics.add m).summary.successCount =
    m.summary.successCount + posted.countP TaskEntry.success := by
  induction posted using reverseRecOn with
  | nil => rfl
  | append_singleton posted entry ih =>
    rw [foldl_concat, countP_append, ← Nat.add_assoc, ← ih, countP_singleton]
    rfl

theorem foldl_add_totalTime : (posted.foldl Metrics.add m).summary.totalTime =
    m.summary.totalTime + (posted.map TaskEntry.executionTime).sum := by
  induction posted using reverseRecOn with
  | nil => simp
  | append_singleton posted entry ih =>
    rw [foldl_concat, map_append, sum_append, ← add_assoc, ← ih, map_singleton, sum_singleton]
    rfl

theorem foldl_add_tasksByType : (posted.foldl Metrics.add m).summary.tasksByType =
    (posted.map TaskEntry.type).foldl countType m.summary.tasksByType := by
  induction posted using reverseRecOn with
  | nil => rfl
  | append_singleton posted entry ih =>
    rw [foldl_concat, map_append, map_singleton, foldl_concat, ← ih]
    rfl

theorem Metrics.WellFormed.countable (h : m.WellFormed) {type : String} (ho : Ordinary m type) :
    Countable m.summary.tasksByType type := by
  cases hcount : m.summary.tasksByType type with
  | some count =>
    obtain ⟨n, rfl⟩ := h.numbers type count hcount
    exact .inl ⟨n, hcount⟩
  | none =>
    refine .inr ⟨hcount, ?_⟩
    obtain hinh | hsome := ho
    · exact hinh
    · simp [hcount] at hsome

theorem accurate_foldl_iff (h : m.WellFormed) : Accurate m posted (posted.foldl Metrics.add m) ↔
      ∀ entry ∈ posted, Ordinary m entry.type := by
  constructor
  · intro hacc entry hmem
    by_contra hodd
    obtain ⟨hinh, hnone⟩ := not_or.mp hodd
    have hcount := hacc.tasksByType entry.type (mem_map_of_mem hmem)
    rw [foldl_add_tasksByType] at hcount
    have huncounted : Uncounted m.summary.tasksByType entry.type :=
      .inl (Option.not_isSome_iff_eq_none.mp hnone)
    exact (uncounted_foldl hinh huncounted).ne_number _ hcount
  · intro hord
    refine ⟨foldl_add_totalTasks, foldl_add_successCount, foldl_add_totalTime, ?_, ?_, ?_⟩
    · intro type hmem
      obtain ⟨entry, hentry, rfl⟩ := mem_map.mp hmem
      rw [foldl_add_tasksByType]
      exact foldl_countType (h.countable (hord entry hentry)) hmem
    · intro type hmem
      rw [foldl_add_tasksByType]
      exact foldl_countType_of_not_mem hmem
    · rw [foldl_add_tasks (h.tasks ▸ Nat.min_le_left _ _), foldl_add_totalTasks]
      have hlength : (m.tasks ++ posted).length = min 1000 m.summary.totalTasks +
        posted.length := by
        rw [length_append, h.tasks]
      have hdrop : min 1000 m.summary.totalTasks + posted.length - 1000 =
          min 1000 m.summary.totalTasks + posted.length -
            min 1000 (m.summary.totalTasks + posted.length) := by
        omega
      rw [rtake, rtake, hlength, hdrop]

end Fold

/-! ## Requests that overlap -/

def Pending (p : Route) (read : Metrics) : Prop := ∃ entry, some (.writeFile entry read) ∈ p.sites

def Fresh (p : Route) : Action → Prop
  | .start _ => True
  | .resume i answer => ∀ entry read, p.sites[i]? = some (some (.writeFile entry read)) →
      answer (.writeFile entry read) = some () → read = p.state.metrics

theorem step_cases {p p' : Route} {a : Action} (h : p.Obedient Moves) (hs : step p a = some p') :
    (p'.state = p.state ∧ Fresh p a ∧
      ∀ read, Pending p' read → Pending p read ∨ read = p.state.metrics) ∨
    (∃ entry read, Pending p read ∧ (Fresh p a ↔ read = p.state.metrics) ∧
      p'.state = ⟨some (read.add entry), p.state.saved ++ [entry]⟩ ∧
      ∀ read, Pending p' read → Pending p read) := by
  obtain ⟨-, hmove⟩ := step_moves h hs
  unfold Pending
  generalize p'.state = w', p'.sites = sites' at hmove ⊢
  cases hmove with
  | start hb =>
    obtain ⟨rfl, rfl⟩ := hb
    refine .inl ⟨rfl, trivial, ?_⟩
    rintro read ⟨entry, hmem⟩
    obtain hmem | hmem := mem_append.mp hmem
    · exact .inl ⟨entry, hmem⟩
    · cases mem_singleton.mp hmem
  | resume hi hm =>
    rename_i i answer q q'
    -- the request that goes on is the one at this site
    have hfresh : ∀ entry read, q = .writeFile entry read → (Fresh p (.resume i answer) ↔
          (answer (.writeFile entry read) = some () → read = p.state.metrics)) := by
      rintro entry read rfl
      constructor
      · intro hf
        exact hf entry read hi
      · intro hf entry' read' hi'
        obtain ⟨rfl, rfl⟩ : entry = entry' ∧ read = read' := by
          simpa using hi.symm.trans hi'
        exact hf
    generalize hx : answer q = x at hm
    cases hm with
    | readFile =>
      refine .inl ⟨rfl, ?_, ?_⟩
      · intro entry read hi'
        simp [hi] at hi'
      · rintro read ⟨entry, hmem⟩
        obtain hmem | heq := mem_or_eq_of_mem_set hmem
        · exact .inl ⟨entry, hmem⟩
        · cases heq
          exact .inr rfl
    | written =>
      rename_i entry read
      refine .inr ⟨entry, read, ⟨entry, mem_of_getElem? hi⟩, ?_, rfl, ?_⟩
      · rw [hfresh entry read rfl]
        exact ⟨fun hf => hf hx, fun heq _ => heq⟩
      · rintro read' ⟨entry', hmem⟩
        obtain hmem | heq := mem_or_eq_of_mem_set hmem
        · exact ⟨entry', hmem⟩
        · cases heq
    | failed =>
      rename_i entry read
      refine .inl ⟨rfl, ?_, ?_⟩
      · rw [hfresh entry read rfl]
        intro hanswer
        simp [hx] at hanswer
      · rintro read' ⟨entry', hmem⟩
        obtain hmem | heq := mem_or_eq_of_mem_set hmem
        · exact .inl ⟨entry', hmem⟩
        · cases heq

section Runs

variable {m : Metrics} {p p' : Route} {a : Action}

def Behind (m : Metrics) (saved : List TaskEntry) (read : Metrics) : Prop :=
  read.summary.totalTasks < m.summary.totalTasks + saved.length

/-- Nothing was lost so far: what a request has read is the file, or lacks a task. -/
structure Intact (m : Metrics) (p : Route) : Prop where
  obedient : p.Obedient Moves
  current : p.state.metrics = p.state.saved.foldl Metrics.add m
  pending : ∀ read, Pending p read → read = p.state.metrics ∨ Behind m p.state.saved read

structure Lost (m : Metrics) (p : Route) : Prop where
  obedient : p.Obedient Moves
  current : Behind m p.state.saved p.state.metrics
  pending : ∀ read, Pending p read → Behind m p.state.saved read

theorem Behind.add {saved : List TaskEntry} {read : Metrics} (h : Behind m saved read)
    (entry : TaskEntry) : Behind m (saved ++ [entry]) (read.add entry) := by
  unfold Behind at h ⊢
  rw [length_append, ← Nat.add_assoc]
  exact Nat.succ_lt_succ h

theorem Behind.mono {saved : List TaskEntry} {read : Metrics} (h : Behind m saved read)
    (entry : TaskEntry) : Behind m (saved ++ [entry]) read := by
  unfold Behind at h ⊢
  rw [length_append, ← Nat.add_assoc]
  exact Nat.lt_succ_of_lt h

theorem Intact.behind (h : Intact m p) {read : Metrics} (hread : Pending p read)
    (entry : TaskEntry) : Behind m (p.state.saved ++ [entry]) read := by
  obtain rfl | hbehind := h.pending read hread
  · unfold Behind
    rw [h.current, foldl_add_totalTasks, length_append, ← Nat.add_assoc]
    exact Nat.lt_succ_self _
  · exact hbehind.mono entry

theorem Intact.next (h : Intact m p) (hs : step p a = some p') (hf : Fresh p a) : Intact m p' := by
  refine ⟨(step_moves h.obedient hs).1, ?_, ?_⟩
  · obtain ⟨hstate, -, -⟩ | ⟨entry, read, -, hiff, hstate, -⟩ := step_cases h.obedient hs
    · rw [hstate]
      exact h.current
    · rw [hstate, foldl_concat, ← h.current, ← hiff.mp hf]
      rfl
  · intro read hread
    obtain ⟨hstate, -, hpending⟩ | ⟨entry, _, -, -, hstate, hpending⟩ := step_cases h.obedient hs
    · rw [hstate]
      obtain hold | rfl := hpending read hread
      · exact h.pending read hold
      · exact .inl rfl
    · rw [hstate]
      exact .inr (h.behind (hpending read hread) entry)

theorem Intact.lost (h : Intact m p) (hs : step p a = some p') (hf : ¬ Fresh p a) : Lost m p' := by
  obtain ⟨-, hfresh, -⟩ | ⟨entry, read, hread, hiff, hstate, hpending⟩ := step_cases h.obedient hs
  · exact absurd hfresh hf
  · have hbehind : Behind m p.state.saved read :=
      (h.pending read hread).resolve_left fun heq => hf (hiff.mpr heq)
    refine ⟨(step_moves h.obedient hs).1, ?_, ?_⟩
    · rw [hstate]
      exact hbehind.add entry
    · intro other hother
      rw [hstate]
      exact h.behind (hpending other hother) entry

theorem Lost.next (h : Lost m p) (hs : step p a = some p') : Lost m p' := by
  obtain ⟨hstate, -, hpending⟩ | ⟨entry, read, hread, -, hstate, hpending⟩ :=
    step_cases h.obedient hs
  · refine ⟨(step_moves h.obedient hs).1, ?_, ?_⟩
    · rw [hstate]
      exact h.current
    · intro other hother
      rw [hstate]
      obtain hold | rfl := hpending other hother
      · exact h.pending other hold
      · exact h.current
  · refine ⟨(step_moves h.obedient hs).1, ?_, ?_⟩
    · rw [hstate]
      exact (h.pending read hread).add entry
    · intro other hother
      rw [hstate]
      exact (h.pending other (hpending other hother)).mono entry

theorem Lost.not_accurate (h : Lost m p) : ¬ Accurate m p.state.saved p.state.metrics := by
  intro hacc
  exact absurd hacc.totalTasks h.current.ne

theorem intact_init (file : Option Metrics) : Intact (file.getD .empty) (init file) := by
  refine ⟨?_, rfl, ?_⟩
  · intro c hc
    cases hc
  · rintro read ⟨entry, hmem⟩
    cases hmem

end Runs

/-- **When the metrics are right about all the requests that were answered with success.** -/
theorem metrics_accurate_iff (file : Option Metrics) (run : List Action) (p : Route)
    (hfile : (file.getD .empty).WellFormed) (hrun : exec step (init file) run = some p) :
    Accurate (file.getD .empty) p.state.saved p.state.metrics ↔ Guarded step Fresh (init file) run ∧
        ∀ entry ∈ p.state.saved, Ordinary (file.getD .empty) entry.type := by
  obtain ⟨hguarded, hintact⟩ | ⟨hnot, hlost⟩ :=
    guarded_or_lost Intact.next Intact.lost Lost.next (intact_init file) hrun
  · rw [hintact.current, accurate_foldl_iff hfile]
    exact ⟨fun hord => ⟨hguarded, hord⟩, fun h => h.2⟩
  · exact ⟨fun hacc => absurd hacc hlost.not_accurate, fun h => absurd h.1 hnot⟩

def saving (_ : Site) : Option Unit := some ()

def codeTask : TaskEntry := ⟨"t1", "code", true, 3, none, "2024-01-01T00:00:00.000Z"⟩

def searchTask : TaskEntry := ⟨"t2", "search", false, 4, none, "2024-01-01T00:00:01.000Z"⟩

def twoRequests : List Action :=
  [.start codeTask, .resume 0 saving, .resume 0 saving,
    .start searchTask, .resume 1 saving, .resume 1 saving]

theorem metrics_accurate_iff_twoRequests : ∃ p, exec step (init none) twoRequests = some p ∧
    p.state.saved = [codeTask, searchTask] ∧ Accurate .empty p.state.saved p.state.metrics := by
  have hrun : ∃ p, exec step (init none) twoRequests = some p ∧
      p.state.saved = [codeTask, searchTask] := ⟨_, rfl, rfl⟩
  obtain ⟨p, hp, hsaved⟩ := hrun
  have hguarded : Guarded step Fresh (init none) twoRequests := by
    refine .cons rfl trivial (.cons rfl ?_ (.cons rfl ?_
      (.cons rfl trivial (.cons rfl ?_ (.cons rfl ?_ trivial)))))
    all_goals
      intro entry read hi _
      cases hi
    · rfl
    · rfl
  refine ⟨p, hp, hsaved, ?_⟩
  refine (metrics_accurate_iff none twoRequests p wellFormed_empty hp).mpr ⟨hguarded, ?_⟩
  rw [hsaved]
  have hordinary : ∀ entry ∈ [codeTask, searchTask], inherited entry.type = none := by decide
  exact fun entry hentry => .inl (hordinary entry hentry)

theorem metrics_lost :
    (exec step (init none) [.start codeTask, .start searchTask, .resume 0 saving, .resume 1 saving,
      .resume 0 saving, .resume 1 saving]).map (fun p => (p.state.saved, p.state.metrics.tasks,
        p.state.metrics.summary.totalTasks, p.state.metrics.summary.tasksByType "code")) =
      some ([codeTask, searchTask], [searchTask], 1, none) ∧
    (exec step (init none) [.start { codeTask with type := "constructor" }, .resume 0 saving,
      .resume 0 saving]).map (fun p => (p.state.saved.length,
        p.state.metrics.summary.tasksByType "constructor")) =
      some (1, some (.text "function Object() \x7b [native code] \x7d1")) := by
  refine ⟨?_, ?_⟩
  · rfl
  · rfl

end Bridge.Web.MetricsRoute
