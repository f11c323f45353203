import Bridge.Lib.Csv
import Bridge.Web.WorkflowHistory
import Mathlib.Data.List.Infix

/-!
# The history of the workflows as CSV

The history is kept in the storage of the browser as JSON, and comes back from there with its dates
as strings. `exportHistory` asks every start time for its `toISOString`, which a string does not
have; of the strings it writes, only the description is in quotes.
-/

namespace Bridge.Web.WorkflowHistory

open Lib Csv List Option

variable {V : Type}

/-- How JavaScript writes numbers and dates, and what it makes of a text in lower case. -/
structure Format where
  number : Rat → List Char
  iso : Int → List Char
  toLowerCase : String → String
  textdata_number : ∀ n, (number n).all isTextdata = true
  textdata_iso : ∀ t, (iso t).all isTextdata = true

/-- The store; the first `restored` of the executions have come from the storage. -/
structure Store (V : Type) where
  state : State V
  restored : Nat

inductive StoreAction (V : Type)
  | act (action : Action V)
  | reload

/-- `persist` writes the last hundred executions at every action, and reads them when the page is
loaded. The objects it makes of them are new ones, but nothing refers to the old ones any more. -/
def storeStep (s : Store V) : StoreAction V → Option (Store V)
  | .act .clearHistory => some ⟨s.state.clearHistory, 0⟩
  | .act action => (step s.state action).map (⟨·, s.restored⟩)
  | .reload =>
    let stored := s.state.executions.drop (s.state.executions.length - 100)
    some ⟨init s.state.heap stored, stored.length⟩

def emptyStore : Store V := ⟨init Heap.empty [], 0⟩

/-- The digits of `toString(36)`. -/
def base36 : List Char := "0123456789abcdefghijklmnopqrstuvwxyz".toList

def generateId (p : Format) (now : Int) (random : List Char) : String :=
  String.ofList ("exec_".toList ++ p.number now ++ '_' :: random)

/-- The clock gives times, and the ids are generated. -/
def Generated (p : Format) (_ : Store V) : StoreAction V → Prop
  | .act (.startExecution id _ _ _ now) =>
    (∃ time random, id = generateId p time random ∧ ∀ c ∈ random, c ∈ base36) ∧ now.isSome
  | .act (.completeExecution _ _ now) => now.isSome
  | _ => True

/-! ## The export -/

/-- `a < b`, which is false of a date that is not valid. -/
def earlier (a b : Moment) : Bool :=
  match a, b with
  | some a, some b => a < b
  | _, _ => false

/-- `a.includes(b)` -/
def includes (a b : String) : Bool := decide (b.toList <:+: a.toList)

/-- An empty string is no filter. -/
def admits (p : Format) (filters : WorkflowHistoryFilters) (e : Execution V) : Bool :=
  (filters.workflowType.all fun t => t = "" || e.workflowType = t) &&
  (filters.status.all fun status => e.status = status) &&
  (filters.dateFrom.all fun t => !earlier e.startTime t) &&
  (filters.dateTo.all fun t => !earlier t e.startTime) &&
  (filters.searchQuery.all fun query => query = "" ||
    includes (p.toLowerCase e.taskDescription) (p.toLowerCase query) ||
    includes (p.toLowerCase e.workflowTitle) (p.toLowerCase query) ||
    includes (p.toLowerCase e.id) (p.toLowerCase query))

/-- The executions, each with whether it came from the storage. -/
def Store.marked (s : Store V) : List (Execution V × Bool) :=
  s.state.executions.zipIdx.map fun (e, i) => (e, decide (i < s.restored))

def Store.getFilteredExecutions (p : Format) (s : Store V) : List (Execution V × Bool) :=
  (s.marked.filter fun m => admits p s.state.filters m.1).mergeSort
    fun a b => !earlier a.1.startTime b.1.startTime

def statusText : Status → List Char
  | .executing => "executing".toList
  | .completed => "completed".toList
  | .failed => "failed".toList
  | .cancelled => "cancelled".toList

def durationText (p : Format) : Option Duration → List Char
  | none => []
  | some none => "NaN".toList
  | some (some n) => p.number n

/-- The fields behind the description, when the dates are dates. -/
def laterFields (p : Format) (e : Execution V) : Option Record := do
  let startTime ← e.startTime
  let endTime ← e.endTime.elim (some []) (Option.map p.iso)
  return [p.iso startTime, endTime, durationText p e.duration, statusText e.status,
    p.number e.steps.length, p.number e.refinements.length, p.number e.promptExports.length]

/-- A row; `toISOString` throws on a date that is not valid, and a string has none. -/
def row (p : Format) (m : Execution V × Bool) : Option Record :=
  if m.2 then none
  else (laterFields p m.1).map fun fields => m.1.id.toList :: m.1.workflowType.toList ::
    ('"' :: doubled m.1.taskDescription.toList ++ ['"']) :: fields

def headers : Record :=
  ["ID", "Workflow Type", "Task Description", "Start Time", "End Time", "Duration (ms)", "Status",
    "Steps Count", "Refinements Count", "Exports Count"].map String.toList

def joined (rows : List Record) : List Char := ['\n'].intercalate (rows.map [','].intercalate)

/-- `exportHistory('csv')`; `none` when it throws. -/
def Store.exportHistory (p : Format) (s : Store V) : Option (List Char) :=
  ((s.getFilteredExecutions p).mapM (row p)).map fun rows => joined (headers :: rows)

def RecordOf (r : Record) (m : Execution V × Bool) : Prop :=
  ∃ rest, r = m.1.id.toList :: m.1.workflowType.toList :: m.1.taskDescription.toList :: rest ∧
    rest.length = 7 ∧ rest[3]? = some (statusText m.1.status)

def Found (d : Dialect) (executions : List (Execution V × Bool)) (csv : List Char) : Prop :=
  ∃ records, parseFile d csv = some (headers :: records) ∧ List.Forall₂ RecordOf records executions

/-- The execution is not from the storage, its type is a plain field and its description may stand
in quotes. -/
def Exportable (d : Dialect) (m : Execution V × Bool) : Prop :=
  m.2 = false ∧ (∀ c ∈ m.1.workflowType.toList, d.textdata c = true) ∧
    quotableText d m.1.taskDescription.toList = true

/-! ## The executions of a store -/

structure Proper (e : Execution V) : Prop where
  id : e.id.toList.all isTextdata = true
  startTime : e.startTime.isSome
  endTime : ∀ t, e.endTime = some t → t.isSome

variable {p : Format} {d : Dialect} {e : Execution V} {executions : List (Execution V)}
    {m : Execution V × Bool}

theorem textdata_generateId {time : Int} {random : List Char} (h : ∀ c ∈ random, c ∈ base36) :
    (generateId p time random).toList.all isTextdata = true := by
  have hbase36 : base36.all isTextdata = true := by decide
  have hrandom : random.all isTextdata = true :=
    all_eq_true.mpr fun c hc => all_eq_true.mp hbase36 c (h c hc)
  unfold generateId
  rw [String.toList_ofList, all_append, all_append, all_cons, p.textdata_number, hrandom]
  rfl

theorem proper_updateExecution {id : String} {f : Execution V → Execution V}
    (hf : ∀ e, Proper e → Proper (f e)) (h : ∀ e ∈ executions, Proper e) :
    ∀ e ∈ updateExecution executions id f, Proper e := by
  intro e he
  obtain ⟨e', he', rfl⟩ := mem_map.mp he
  split
  · exact h e' he'
  · exact hf e' (h e' he')

theorem proper_reviseOne {executionId : String} {stepIndex : Rat} {update : StepUpdate V}
    {now : Moment} (heap : Heap (WorkflowStep V)) (h : Proper e) :
    Proper (reviseOne executionId stepIndex update now heap e).2 := by
  unfold reviseOne reviseSteps
  split
  · exact h
  · split
    · split
      · exact h
      · exact h
    · exact ⟨h.id, h.startTime, h.endTime⟩

theorem proper_mapHeap {f : Heap (WorkflowStep V) → Execution V → Heap (WorkflowStep V) ×
    Execution V} (hf : ∀ heap e, Proper e → Proper (f heap e).2) (heap : Heap (WorkflowStep V))
    (h : ∀ e ∈ executions, Proper e) : ∀ e ∈ (mapHeap f heap executions).2, Proper e := by
  induction executions generalizing heap with
  | nil => exact h
  | cons e es ih =>
    obtain ⟨he, hes⟩ := forall_mem_cons.mp h
    exact forall_mem_cons.mpr ⟨hf heap e he, ih _ hes⟩

theorem proper_step {s s' : Store V} {a : StoreAction V} (h : ∀ e ∈ s.state.executions, Proper e)
    (ha : Generated p s a) (hs : storeStep s a = some s') : ∀ e ∈ s'.state.executions,
      Proper e := by
  cases a with
  | reload =>
    cases hs
    intro e he
    exact h e (mem_of_mem_drop he)
  | act a =>
    cases a with
    | startExecution id workflowType workflowTitle taskDescription now =>
      cases hs
      obtain ⟨⟨time, random, rfl, hrandom⟩, hnow⟩ := ha
      intro e he
      rcases mem_append.mp he with he | he
      · exact h e he
      · rw [mem_singleton.mp he]
        exact ⟨textdata_generateId hrandom, hnow, fun _ ht => by cases ht⟩
    | updateExecutionStep executionId stepIndex update now =>
      cases hs
      exact proper_mapHeap (fun heap e => proper_reviseOne heap) s.state.heap h
    | completeExecution executionId status now =>
      cases hs
      refine proper_updateExecution (fun e he => ⟨he.id, he.startTime, ?_⟩) h
      intro t ht
      cases ht
      exact ha
    | addRefinement | addPromptExport | updateMetadata =>
      cases hs
      exact proper_updateExecution (fun e he => ⟨he.id, he.startTime, he.endTime⟩) h
    | setFilters filters =>
      cases hs
      exact h
    | clearHistory =>
      cases hs
      intro e he
      cases he

theorem proper_of_reaches {s : Store V} (h : Reaches storeStep (Generated p) emptyStore s) :
    ∀ e ∈ s.state.executions, Proper e :=
  h.invariant (fun s => ∀ e ∈ s.state.executions, Proper e) (by simp [emptyStore, init]) proper_step

theorem mem_getFilteredExecutions {s : Store V} (h : m ∈ s.getFilteredExecutions p) :
    m.1 ∈ s.state.executions := by
  have hmarked := mem_of_mem_filter (mem_mergeSort.mp h)
  obtain ⟨x, hx, rfl⟩ := mem_map.mp hmarked
  exact fst_mem_of_mem_zipIdx hx

/-! ## Rows -/

theorem textdata_statusText (status : Status) : (statusText status).all isTextdata = true := by
  cases status with
  | executing | completed | failed | cancelled => decide

theorem textdata_durationText (duration : Option Duration) :
    (durationText p duration).all isTextdata = true := by
  unfold durationText
  split
  · rfl
  · decide
  · exact p.textdata_number _

structure Later (e : Execution V) (fields : Record) : Prop where
  length : fields.length = 7
  status : fields[3]? = some (statusText e.status)
  textdata : ∀ t ∈ fields, t.all isTextdata = true

theorem Later.ne_nil {fields : Record} (h : Later e fields) : fields ≠ [] := by
  rintro rfl
  exact absurd h.length (by decide)

theorem laterFields_of_proper (h : Proper e) : ∃ fields, laterFields p e = some fields ∧
    Later e fields := by
  obtain ⟨startTime, hstart⟩ := isSome_iff_exists.mp h.startTime
  obtain ⟨endTime, hend, hplain⟩ : ∃ endTime,
      e.endTime.elim (some []) (Option.map p.iso) = some endTime ∧
      endTime.all isTextdata = true := by
    cases hfinish : e.endTime with
    | none => exact ⟨[], rfl, rfl⟩
    | some t =>
      obtain ⟨t, rfl⟩ := isSome_iff_exists.mp (h.endTime t hfinish)
      exact ⟨p.iso t, rfl, p.textdata_iso t⟩
  refine ⟨_, by simp only [laterFields, hstart, hend, bind_eq_bind, bind_some]; rfl, rfl, rfl, ?_⟩
  simp only [forall_mem_cons]
  exact ⟨p.textdata_iso _, hplain, textdata_durationText _, textdata_statusText _,
    p.textdata_number _, p.textdata_number _, p.textdata_number _, fun _ h => absurd h not_mem_nil⟩

def written (p : Format) (m : Execution V × Bool) : Record :=
  m.1.id.toList :: m.1.workflowType.toList ::
    ('"' :: doubled m.1.taskDescription.toList ++ ['"']) :: (laterFields p m.1).getD []

theorem mapM_row {executions : List (Execution V × Bool)} (h : ∀ m ∈ executions, Proper m.1) :
    executions.mapM (row p) =
      if executions.all (!·.2) then some (executions.map (written p)) else none := by
  induction executions with
  | nil => rfl
  | cons m executions ih =>
    obtain ⟨hm, hrest⟩ := forall_mem_cons.mp h
    obtain ⟨fields, hfields, -⟩ := laterFields_of_proper (p := p) hm
    have hrow : row p m = if m.2 then none else some (written p m) := by
      simp [row, written, hfields, map_some, getD_some]
    rw [mapM_cons, hrow, ih hrest, all_cons]
    cases m.2 with
    | true => rfl
    | false =>
      cases executions.all (!·.2) with
      | true => rfl
      | false => rfl

theorem textdata_of_all {t : List Char} (h : t.all isTextdata = true) :
    ∀ c ∈ t, d.textdata c = true :=
  fun c hc => d.ascii c (all_eq_true.mp h c hc)

section Lines

variable {fields : Record} {rows : List Record} {id type description : List Char}

theorem joined_cons (hne : fields ≠ []) :
    joined ((id :: type :: ('"' :: doubled description ++ ['"']) :: fields) :: rows) =
    id ++ ',' :: (type ++ ',' :: '"' :: (doubled description ++ '"' :: ',' ::
      ['\n'].intercalate ([','].intercalate fields :: rows.map [','].intercalate))) := by
  obtain ⟨t, fields, rfl⟩ := exists_cons_of_ne_nil hne
  simp only [joined, map_cons, intercalate_cons_cons, append_assoc, intercalate_append]
  rfl

/-- Once the id and the type are found, the rest of a line depends on the description alone. -/
theorem parse_rest (hlater : Later e fields) (hid : id.all isTextdata = true)
    (htype : ∀ c ∈ type, d.textdata c = true) :
    parseFile d (joined ((id :: type :: ('"' :: doubled description ++ ['"']) :: fields) :: rows)) =
      if quotableText d description then
        (parseFile d (joined rows)).map fun records =>
          (id :: type :: description :: fields) :: records
      else none := by
  rw [joined_cons hlater.ne_nil, parseFile, parse_field (textdata_of_all hid), parse_field htype]
  refine (parse_doubled description [] [id, type] _).trans ?_
  rw [parse_joined hlater.ne_nil (fun t ht => textdata_of_all (hlater.textdata t ht)) (by simp)]
  rfl

end Lines

variable {executions : List (Execution V × Bool)} {rows : List Record}

theorem found_of_exportable (hproper : ∀ m ∈ executions, Proper m.1)
    (h : ∀ m ∈ executions, Exportable d m) :
    ∃ records, parseFile d (joined (executions.map (written p))) = some records ∧
      List.Forall₂ RecordOf records executions := by
  induction executions with
  | nil => exact ⟨[], rfl, .nil⟩
  | cons m executions ih =>
    obtain ⟨⟨-, htype, hdescription⟩, hrest⟩ := forall_mem_cons.mp h
    obtain ⟨hm, hproper⟩ := forall_mem_cons.mp hproper
    obtain ⟨fields, hfields, hlater⟩ := laterFields_of_proper (p := p) hm
    obtain ⟨records, hrecords, hfound⟩ := ih hproper hrest
    rw [map_cons, written, hfields, getD_some, parse_rest hlater hm.id htype, if_pos hdescription,
      hrecords]
    exact ⟨_, rfl, .cons ⟨fields, rfl, hlater.length, hlater.status⟩ hfound⟩

theorem exportable_of_found (hproper : ∀ m ∈ executions, Proper m.1)
    (hfresh : ∀ m ∈ executions, m.2 = false)
    {records : List Record} (hrecords : parseFile d (joined (executions.map (written p))) =
      some records)
    (h : List.Forall₂ RecordOf records executions) : ∀ m ∈ executions, Exportable d m := by
  induction executions generalizing records with
  | nil => exact fun _ hm => absurd hm not_mem_nil
  | cons m executions ih =>
    obtain ⟨hm, hfresh⟩ := forall_mem_cons.mp hfresh
    obtain ⟨hpm, hproper⟩ := forall_mem_cons.mp hproper
    obtain ⟨fields, hfields, hlater⟩ := laterFields_of_proper (p := p) hpm
    rw [map_cons, written, hfields, getD_some] at hrecords
    cases h with
    | cons hrecord h =>
      obtain ⟨rest, rfl, -⟩ := hrecord
      have htype : ∀ c ∈ m.1.workflowType.toList, d.textdata c = true := by
        have hfound := hrecords
        rw [joined_cons hlater.ne_nil, parseFile, parse_field (textdata_of_all hpm.id)] at hfound
        exact textdata_of_found hfound ⟨m.1.taskDescription.toList :: rest, rfl⟩
      rw [parse_rest hlater hpm.id htype] at hrecords
      split at hrecords
      · rename_i hdescription
        obtain ⟨records', hrecords', heq⟩ := map_eq_some_iff.mp hrecords
        cases heq
        exact forall_mem_cons.mpr ⟨⟨hm, htype, hdescription⟩, ih hproper hfresh hrecords' h⟩
      · cases hrecords

theorem parse_headers : parseFile d (joined (headers :: rows)) =
    (parseFile d (joined rows)).map fun records => headers :: records := by
  have htextdata : headers.all (List.all · isTextdata) = true := by decide
  have hplain : ∀ t ∈ headers, ∀ c ∈ t, d.textdata c = true :=
    fun t ht => textdata_of_all (all_eq_true.mp htextdata t ht)
  obtain ⟨hfirst, hrest⟩ := forall_mem_cons.mp hplain
  have hjoined : joined (headers :: rows) = "ID".toList ++ ',' ::
      ['\n'].intercalate ([','].intercalate headers.tail :: rows.map [','].intercalate) := by
    rw [joined, map_cons, headers, map_cons, map_cons, intercalate_cons_cons, append_assoc,
      intercalate_append, intercalate_append]
    rfl
  rw [hjoined, parseFile, parse_field hfirst]
  exact parse_joined (by decide) hrest (by decide) _

/-! ## The whole file -/

/-- **The filtered executions are found in the export iff** none came from the storage, and their
types are plain fields. -/
theorem exportHistory_found_iff (p : Format) (d : Dialect) {s : Store V}
    (h : Reaches storeStep (Generated p) emptyStore s) :
    (∃ csv, s.exportHistory p = some csv ∧ Found d (s.getFilteredExecutions p) csv) ↔
      ∀ m ∈ s.getFilteredExecutions p, Exportable d m := by
  have hproper : ∀ m ∈ s.getFilteredExecutions p, Proper m.1 :=
    fun m hm => proper_of_reaches h m.1 (mem_getFilteredExecutions hm)
  rw [Store.exportHistory, mapM_row hproper]
  constructor
  · rintro ⟨csv, hcsv, records, hrecords, hfound⟩
    split_ifs at hcsv with hall
    · cases hcsv
      rw [parse_headers] at hrecords
      obtain ⟨records', hrecords', heq⟩ := map_eq_some_iff.mp hrecords
      cases heq
      exact exportable_of_found hproper (by simpa using hall) hrecords' hfound
    · cases hcsv
  · intro hexport
    have hall : (s.getFilteredExecutions p).all (!·.2) = true :=
      all_eq_true.mpr fun m hm => by rw [(hexport m hm).1]; rfl
    obtain ⟨records, hrecords, hfound⟩ := found_of_exportable hproper hexport
    rw [if_pos hall]
    refine ⟨_, rfl, records, ?_, hfound⟩
    rw [parse_headers, hrecords]
    rfl

def plainFormat : Format :=
  ⟨fun _ => ['0'], fun _ => ['0'], id, fun _ => by decide, fun _ => by decide⟩

def started (workflowType : String) : Store Unit :=
  ⟨emptyStore.state.startExecution (generateId plainFormat 0 []) workflowType "" "task" (some 0), 0⟩

theorem reaches_started (workflowType : String) :
    Reaches storeStep (Generated plainFormat) emptyStore (started workflowType) := by
  refine Reaches.single (a := .act (.startExecution _ workflowType _ _ _)) ?_ rfl
  exact ⟨⟨0, [], rfl, fun _ h => absurd h not_mem_nil⟩, rfl⟩

theorem filtered_single {s : Store V} (hs : s.marked = [m]) (hfilters : s.state.filters = {}) :
    s.getFilteredExecutions plainFormat = [m] := by
  have hadmits : admits plainFormat s.state.filters m.1 = true := by
    rw [hfilters]
    rfl
  simp [Store.getFilteredExecutions, hs, hadmits]

theorem exportHistory_found_iff_started : ∃ csv, (started "plan").exportHistory plainFormat =
    some csv ∧ Found rfc4180 ((started "plan").getFilteredExecutions plainFormat) csv := by
  refine (exportHistory_found_iff plainFormat rfc4180 (reaches_started "plan")).mpr ?_
  rw [filtered_single rfl rfl]
  intro m hm
  rw [mem_singleton.mp hm]
  refine ⟨rfl, ?_, by decide⟩
  have hplain : "plan".toList.all isTextdata = true := by decide
  exact textdata_of_all hplain

def reloaded : Store Unit := ⟨init Heap.empty (started "plan").state.executions, 1⟩

theorem unexportable_histories :
    (Reaches storeStep (Generated plainFormat) emptyStore reloaded ∧ reloaded.exportHistory
      plainFormat = none) ∧
    Reaches storeStep (Generated plainFormat) emptyStore (started "a,b") ∧
    ((started "a,b").exportHistory plainFormat).bind (parseFile rfc4180) = some [headers,
      ["exec_0_", "a", "b", "task", "0", "", "", "executing", "0", "0", "0"].map
        String.toList] := by
  refine ⟨⟨(reaches_started "plan").tail (a := .reload) trivial rfl, ?_⟩, reaches_started _, ?_⟩
  · rw [Store.exportHistory, filtered_single rfl rfl]
    rfl
  · rw [Store.exportHistory, filtered_single rfl rfl]
    decide +kernel

end Bridge.Web.WorkflowHistory
