import Bridge.Lib.Heap
import Bridge.Lib.Run
import Bridge.Learning.Data

/-!
# The learning module

`LearningModule` and the `LearningPersistence` it owns, as a state machine. The asynchronous methods
are calls: a call is at one of its `await`s (`Pc`), and a step is *the pending file operation
settles, and the method runs on to its next `await`*. Between two steps of a call anything else may
happen.

Not modelled: log lines. Left to `Backups` and `CsvExport`: the names of the backups (`createBackup`
swallows its errors), and the text of the CSV file.
-/

namespace Bridge.Learning

open Lib

/-- The data file. What is not the text of some `LearningData` does not parse. -/
inductive File where
  | absent
  | corrupt
  | data (d : LearningData)
  deriving DecidableEq

structure Disk where
  -- the data directory exists
  dir : Bool
  file : File
  deriving DecidableEq

/-- How a file operation settles. A `writeFile` that fails may have truncated the file. -/
structure Input where
  ok : Bool
  torn : Bool

/-- Who called `saveToPersistence`: somebody outside, the timer or `destroy`; or `exportToCSV`,
which keeps the array it has replaced. -/
inductive Caller where
  | save
  | exportToCSV (original : Nat)
  deriving DecidableEq

/-- The data `saveToPersistence` builds: references to the pattern objects and to the array. -/
structure Snapshot where
  patterns : List (String × Nat)
  feedbackHistory : Nat
  deriving DecidableEq

inductive Pc where
  -- `initialize`: the `readFile` of `load`
  | load
  -- `recordFeedback`: after `updatePatterns`
  | analyze
  -- `save`: `ensureDataDirectory`, its `access` and its `mkdir`
  | access (c : Caller) (sn : Snapshot)
  | mkdir (c : Caller) (sn : Snapshot)
  -- `save`: `createBackup`
  | backup (c : Caller) (sn : Snapshot)
  -- `save`: the `writeFile`
  | write (c : Caller) (text : LearningData)
  -- `exportToCSV`: the `readFile` of its `load`, and its `writeFile`
  | read (original : Nat)
  | csv (original : Nat)
  | done
  | rejected
  deriving DecidableEq

/-- The array an `exportToCSV` in flight has put aside. -/
def Pc.original : Pc → Option Nat
  | .access (.exportToCSV o) _ => some o
  | .mkdir (.exportToCSV o) _ => some o
  | .backup (.exportToCSV o) _ => some o
  | .write (.exportToCSV o) _ => some o
  | .read o => some o
  | .csv o => some o
  | _ => none

def Pc.settled : Pc → Bool
  | .done => true
  | .rejected => true
  | _ => false

/-! ## The module -/

structure Module where
  arrays : Heap (List Entry)
  objects : Heap Pattern
  -- `Map` keeps the order of insertion
  patterns : List (String × Nat)
  feedbackHistory : Nat
  -- `autoSaveInterval` is set
  autoSave : Bool
  calls : List Pc
  -- what happened, for the statements: nothing below reads these
  loaded : List Entry
  recorded : List Feedback
  insights : List Insights
  deriving DecidableEq

namespace Module

def new : Module where
  arrays := Heap.empty.alloc []
  objects := .empty
  patterns := []
  feedbackHistory := 0
  autoSave := false
  calls := [.load]
  loaded := []
  recorded := []
  insights := []

section State

variable (m : Module)

/-- The array `feedbackHistory` refers to. -/
def history : List Entry := (m.arrays.read m.feedbackHistory).getD []

/-- `Map.set` with a new object. -/
def setPattern (k : String) (p : Pattern) : Module :=
  { m with
    objects := m.objects.alloc p
    patterns := if (m.patterns.lookup k).isSome then
        m.patterns.map fun e => if e.1 = k then (k, m.objects.next) else e
      else m.patterns ++ [(k, m.objects.next)] }

def loadPatterns : Module :=
  defaultPatterns.foldl (fun m p => m.setPattern p.taskType p) m

/-- The `then` branch of `loadFromPersistence`: a new map and a new array. -/
def install (d : LearningData) : Module :=
  let m' := d.patterns.foldl (fun m e => m.setPattern e.1 e.2) { m with patterns := [] }
  { m' with
    arrays := m'.arrays.alloc d.feedbackHistory
    feedbackHistory := m'.arrays.next
    loaded := d.feedbackHistory }

def deref (ps : List (String × Nat)) : List (String × Pattern) :=
  ps.filterMap fun e => (m.objects.read e.2).map fun p => (e.1, p)

def text (sn : Snapshot) : LearningData :=
  ⟨m.deref sn.patterns, (m.arrays.read sn.feedbackHistory).getD []⟩

/-- `updatePatterns`: an object that is there is changed in place. -/
def updatePatterns (f : Feedback) : Module :=
  match m.patterns.lookup f.taskId with
  | some r =>
    { m with objects := m.objects.write r (updatedPattern m.history f (m.objects.read r)) }
  | none => m.setPattern f.taskId (updatedPattern m.history f none)

/-- `recordFeedback`, up to its first `await`. -/
def recordFeedback (f : Feedback) : Module :=
  let m₁ := { m with
    arrays := m.arrays.write m.feedbackHistory (m.history ++ [f.entry])
    recorded := m.recorded ++ [f] }
  let m₂ := m₁.updatePatterns f
  { m₂ with calls := m₂.calls ++ [.analyze] }

/-- `saveToPersistence`, up to its first `await`. -/
def startSave (c : Caller) : Module :=
  { m with calls := m.calls ++ [.access c ⟨m.patterns, m.feedbackHistory⟩] }

/-- `destroy`: it clears the interval and starts a save that nobody awaits. -/
def destroy : Module := { m with autoSave := false }.startSave .save

/-- `exportToCSV`, up to its first `await`: `feedbackHistory` is a copy from here on. -/
def startExport (now : Nat) : Module :=
  { m with
    arrays := m.arrays.alloc (m.history.map (Entry.stamped now))
    feedbackHistory := m.arrays.next }.startSave (.exportToCSV m.feedbackHistory)

def analyzePerformance : Module :=
  { m with insights := m.insights ++
      [⟨analyzeCLIPerformance m.history .claude, analyzeCLIPerformance m.history .gemini,
        generateRecommendations (m.deref m.patterns)⟩] }

end State

end Module

structure Next where
  module : Module
  disk : Disk
  pc : Pc

def Pc.exec (m : Module) (d : Disk) (inp : Input) : Pc → Option Next
  | .load =>
    -- an absent file is no error, but a failed read or a text that does not parse is: both end with
    -- the default patterns
    let m' := match inp.ok, d.file with
      | true, .data ld => m.install ld
      | _, _ => m.loadPatterns
    some ⟨{ m' with autoSave := true }, d, .done⟩
  | .analyze =>
    some ⟨if m.history.length % 10 = 0 then m.analyzePerformance else m, d, .done⟩
  | .access c sn =>
    if inp.ok && d.dir then some ⟨m, d, .backup c sn⟩ else some ⟨m, d, .mkdir c sn⟩
  | .mkdir c sn =>
    if inp.ok then some ⟨m, { d with dir := true }, .backup c sn⟩ else some ⟨m, d, .rejected⟩
  | .backup c sn => some ⟨m, d, .write c (m.text sn)⟩
  | .write c text =>
    if inp.ok then
      some ⟨m, { d with file := .data text }, match c with
        | .save => .done
        | .exportToCSV o => .read o⟩
    else some ⟨m, { d with file := if inp.torn then .corrupt else d.file }, .rejected⟩
  | .read o =>
    match inp.ok, d.file with
    | true, .data _ => some ⟨m, d, .csv o⟩
    | _, _ => some ⟨m, d, .rejected⟩
  | .csv o =>
    if inp.ok then some ⟨{ m with feedbackHistory := o }, d, .done⟩ else some ⟨m, d, .rejected⟩
  | .done => none
  | .rejected => none

inductive Action where
  | recordFeedback (f : Feedback)
  | saveToPersistence
  | exportToCSV (now : Nat)
  | destroy
  -- the interval fires
  | autoSave
  -- a call goes on
  | step (i : Nat) (inp : Input)

def Module.act (m : Module) (d : Disk) : Action → Option (Module × Disk)
  | .recordFeedback f => some (m.recordFeedback f, d)
  | .saveToPersistence => some (m.startSave .save, d)
  | .exportToCSV now => some (m.startExport now, d)
  | .destroy => some (m.destroy, d)
  | .autoSave => if m.autoSave then some (m.startSave .save, d) else none
  | .step i inp =>
    match m.calls[i]? with
    | none => none
    | some pc => (pc.exec m d inp).map fun nx =>
        ({ nx.module with calls := m.calls.set i nx.pc }, nx.disk)

end Bridge.Learning
