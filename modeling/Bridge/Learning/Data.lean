import Mathlib.Algebra.Order.Ring.Rat

/-!
# The learning data

Feedback, patterns and what the module computes from them. Numbers are exact rationals; the clock is
the number of milliseconds `Date.now()` returns.
-/

namespace Bridge.Learning

/-- `CLISource`. -/
inductive Cli where
  | claude
  | gemini
  deriving DecidableEq, Repr

def Cli.other : Cli → Cli
  | .claude => .gemini
  | .gemini => .claude

def Cli.text : Cli → String
  | .claude => "claude"
  | .gemini => "gemini"

structure Feedback where
  taskId : String
  success : Bool
  executionTime : ℚ
  cli : Cli
  userSatisfaction : Option ℚ
  deriving DecidableEq

structure Entry where
  feedback : Feedback
  timestamp : Option Nat
  deriving DecidableEq

/-- The entry of a feedback that has just been recorded: its own fields and no other. -/
def Feedback.entry (f : Feedback) : Entry := ⟨f, none⟩

/-- The copy `exportToCSV` makes. -/
def Entry.stamped (now : Nat) (e : Entry) : Entry := { e with timestamp := some now }

inductive Value where
  | bool (b : Bool)
  | text (s : String)
  deriving DecidableEq

structure Pattern where
  taskType : String
  successRate : ℚ
  avgExecutionTime : ℚ
  preferredCLI : Cli
  conditions : List (String × Value)
  deriving DecidableEq

/-- The patterns of `loadPatterns`. -/
def defaultPatterns : List Pattern :=
  [{ taskType := "multimodal"
     successRate := 95 / 100
     avgExecutionTime := 2000
     preferredCLI := .gemini
     conditions := [("hasImages", .bool true)] },
   { taskType := "code"
     successRate := 93 / 100
     avgExecutionTime := 1500
     preferredCLI := .claude
     conditions := [("complexity", .text "high")] }]

/-- What is written to the file, but for `lastUpdated` and `version`: nothing reads the first, and
the second decides a log line only. -/
structure LearningData where
  patterns : List (String × Pattern)
  feedbackHistory : List Entry
  deriving DecidableEq

/-! ## What is computed from the history -/

def successRate (fs : List Feedback) : ℚ := (fs.countP (·.success) : ℚ) / fs.length

def avgExecutionTime (fs : List Feedback) : ℚ := (fs.map (·.executionTime)).sum / fs.length

/-- The body of `updatePatterns`: the pattern of the task id, or a new one, with the figures of the
feedback for the same task id and the same CLI. -/
def updatedPattern (history : List Entry) (f : Feedback) (old : Option Pattern) : Pattern :=
  let pattern := old.getD
    { taskType := f.taskId, successRate := 0, avgExecutionTime := 0, preferredCLI := f.cli,
      conditions := [] }
  let relevant := (history.map Entry.feedback).filter fun g =>
    g.taskId = f.taskId ∧ g.cli = f.cli
  { pattern with
    successRate := successRate relevant
    avgExecutionTime := avgExecutionTime relevant }

structure Performance where
  successRate : ℚ
  avgExecutionTime : ℚ
  totalTasks : Nat
  deriving DecidableEq

def analyzeCLIPerformance (history : List Entry) (cli : Cli) : Performance :=
  let fs := (history.map Entry.feedback).filter fun f => f.cli = cli
  if fs.isEmpty then ⟨0, 0, 0⟩ else ⟨successRate fs, avgExecutionTime fs, fs.length⟩

def recommendationsFor (taskType : String) (p : Pattern) : List String :=
  (if p.successRate < 8 / 10 then
    ["Consider switching " ++ taskType ++ " tasks to " ++ p.preferredCLI.other.text ++
      " for better success rate"]
  else []) ++
  (if p.avgExecutionTime > 5000 then
    [taskType ++ " tasks are taking too long. Consider optimization or task splitting"]
  else [])

def generateRecommendations (patterns : List (String × Pattern)) : List String :=
  patterns.flatMap fun (taskType, p) => recommendationsFor taskType p

/-- The payload of `performanceInsights`. -/
structure Insights where
  claudePerformance : Performance
  geminiPerformance : Performance
  recommendations : List String
  deriving DecidableEq

end Bridge.Learning
