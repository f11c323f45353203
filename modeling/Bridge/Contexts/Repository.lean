import Mathlib.Algebra.Order.Monoid.Unbundled.WithTop
import Mathlib.Algebra.Order.Ring.Rat
import Mathlib.Data.List.AList
import Bridge.Lib.OrderedMap

/-!
# `InMemoryCompressedContextRepository`

The contexts are in one `Map`, by id; a second one has, for each task, the `Set` of the ids of its
contexts. `findByTaskId` goes through the second, everything else through the first.
-/

namespace Bridge.Contexts

open Lib

/-- A number that is not `NaN`. -/
abbrev Extended := WithBot (WithTop Rat)

abbrev Num := Option Extended

def Extended.ofRat (x : Rat) : Extended := (x : WithTop Rat)

/-- `a <= b` -/
def Num.le (a b : Num) : Bool :=
  match a, b with
  | some a, some b => decide (a ≤ b)
  | _, _ => false

abbrev Moment := Option Int

/-- `a < b`, for two dates -/
def Moment.before (a b : Moment) : Bool :=
  match a, b with
  | some a, some b => decide (a < b)
  | _, _ => false

/-- `a <= b`, for two dates -/
def Moment.upTo (a b : Moment) : Bool :=
  match a, b with
  | some a, some b => decide (a ≤ b)
  | _, _ => false

inductive CompressionType
  | embeddings
  | summary
  | hybrid
  deriving DecidableEq

abbrev Embedding := List Num

structure Phases where
  analysis : Option Embedding
  routing : Option Embedding
  execution : Option Embedding

structure Summaries where
  analysis : Option String := none
  routing : Option String := none
  execution : Option String := none

inductive ContextEventData
  | accessed (taskId : String) (accessedAt : Int) (useCount : Nat)
  | tagAdded (tag : String) (timestamp : Int)
  | tagRemoved (tag : String) (timestamp : Int)

structure ContextEvent where
  aggregateId : String
  eventData : ContextEventData
  eventVersion : Nat
  timestamp : Int

structure CompressedContext where
  id : String
  taskId : String
  compressionType : CompressionType
  phases : Phases
  compressionRatio : Num
  createdAt : Int
  accessedAt : Option Moment
  tags : List String
  summaries : Summaries := {}
  /-- `selectedAdapter` in the metadata of the routing phase -/
  selectedAdapter : Option String := none
  qualityScore : Option Rat := none
  originalSize : Rat := 1
  compressedSize : Rat := 1
  useCount : Nat := 0
  events : List ContextEvent := []

structure SearchCriteria where
  taskId : Option String := none
  compressionType : Option CompressionType := none
  tags : Option (List String) := none
  similarTo : Option CompressedContext := none
  minSimilarityScore : Option Num := none
  createdAfter : Option Moment := none
  createdBefore : Option Moment := none
  minCompressionRatio : Option Num := none
  maxCompressionRatio : Option Num := none

structure Repository where
  contexts : OrderedMap String CompressedContext
  taskIdIndex : AList (fun _ : String => List String)

namespace Repository

def empty : Repository := ⟨.empty, ∅⟩

/-- `Set.add` -/
def addId (ids : List String) (id : String) : List String := if id ∈ ids then ids else ids ++ [id]

def save (s : Repository) (context : CompressedContext) : Repository where
  contexts := s.contexts.set context.id context
  taskIdIndex :=
    s.taskIdIndex.insert context.taskId
      (addId ((s.taskIdIndex.lookup context.taskId).getD []) context.id)

def unindex (index : AList (fun _ : String => List String)) (taskId id : String) :
    AList (fun _ : String => List String) :=
  match index.lookup taskId with
  | none => index
  | some ids =>
    if ids.filter (· ≠ id) = [] then index.erase taskId
    else index.insert taskId (ids.filter (· ≠ id))

def deleteById (s : Repository) (id : String) : Bool × Repository :=
  match s.contexts.get id with
  | none => (false, s)
  | some context => (true, ⟨s.contexts.delete id, unindex s.taskIdIndex context.taskId id⟩)

def deleteEach : List CompressedContext → Repository → Nat × Repository
  | [], s => (0, s)
  | context :: contexts, s =>
    let (deleted, s) := s.deleteById context.id
    let (count, s) := deleteEach contexts s
    ((if deleted then 1 else 0) + count, s)

/-! ## Finding -/

/-- `sort((a, b) => b.createdAt.getTime() - a.createdAt.getTime())`, which is stable. -/
def newestFirst (contexts : List CompressedContext) : List CompressedContext :=
  contexts.mergeSort fun a b => decide (b.createdAt ≤ a.createdAt)

def findById (s : Repository) (id : String) : Option CompressedContext := s.contexts.get id

def findByTaskId (s : Repository) (taskId : String) : List CompressedContext :=
  newestFirst (((s.taskIdIndex.lookup taskId).getD []).filterMap s.contexts.get)

def findAll (s : Repository) : List CompressedContext := newestFirst s.contexts.values

def usable (embedding : Option Embedding) : Option Embedding := embedding.filter (·.length > 0)

def hasEmbeddings (context : CompressedContext) : Bool :=
  [context.phases.analysis, context.phases.routing, context.phases.execution].any
    fun embedding => (usable embedding).isSome

def extractEmbedding (context : CompressedContext) : Option Embedding :=
  [context.phases.analysis, context.phases.routing, context.phases.execution].findSome? usable

variable (cosine : Embedding → Embedding → Num)

/-- The double `0.7`. -/
def defaultMinSimilarity : Extended := .ofRat (3152519739159347 / 4503599627370496)

/-- One turn of the loop of `findSimilar`; a similarity that passes the test is not `NaN`. -/
def candidate (target : CompressedContext) (targetEmbedding : Embedding) (minSimilarity : Num)
    (context : CompressedContext) : Option (CompressedContext × Extended) :=
  if context.id = target.id then none
  else if hasEmbeddings context then
    match extractEmbedding context with
    | none => none
    | some candidateEmbedding =>
      match cosine targetEmbedding candidateEmbedding with
      | none => none
      | some similarity =>
        if Num.le minSimilarity (some similarity) then some (context, similarity) else none
  else none

section Queries

variable (s : Repository)

def findSimilar (target : CompressedContext) (limit : Nat := 5)
    (minSimilarity : Num := some defaultMinSimilarity) : List (CompressedContext × Extended) :=
  if hasEmbeddings target then
    match extractEmbedding target with
    | none => []
    | some targetEmbedding =>
      ((s.contexts.values.filterMap (candidate cosine target targetEmbedding
        minSimilarity)).mergeSort fun a b => decide (b.2 ≤ a.2)).take limit
  else []

/-- The filters of `search`, in its order. -/
def filtered (criteria : SearchCriteria) : List CompressedContext :=
  let results := s.contexts.values
  let results := narrow criteria.taskId (fun taskId c => c.taskId = taskId) results
  let results := narrow criteria.compressionType (fun type c => c.compressionType = type) results
  let results := narrow (criteria.tags.filter (·.length > 0))
    (fun tags c => tags.all fun tag => decide (tag ∈ c.tags)) results
  let results := narrow criteria.createdAfter (fun date c => Moment.upTo date (some c.createdAt))
    results
  let results := narrow criteria.createdBefore (fun date c => Moment.upTo (some c.createdAt) date)
    results
  let results := narrow criteria.minCompressionRatio (fun x c => Num.le x c.compressionRatio)
    results
  narrow criteria.maxCompressionRatio (fun x c => Num.le c.compressionRatio x) results

/-- `minSimilarityScore || 0.7` -/
def minSimilarity (criteria : SearchCriteria) : Extended :=
  match criteria.minSimilarityScore with
  | some (some x) => if x = 0 then defaultMinSimilarity else x
  | _ => defaultMinSimilarity

def search (criteria : SearchCriteria) : List CompressedContext :=
  let results := s.filtered criteria
  match criteria.similarTo with
  | some target =>
    (s.findSimilar cosine target results.length (some (minSimilarity criteria))).map Prod.fst
  | none => newestFirst results

/-- An object without keys is searched for like any other: nothing is filtered. -/
def count (criteria : Option SearchCriteria) : Nat :=
  match criteria with
  | none => s.contexts.entries.length
  | some criteria => (s.search cosine criteria).length

/-! ## Operations -/

def deleteByTaskId (taskId : String) : Nat × Repository :=
  deleteEach (s.findByTaskId taskId) s

def deleteOlderThan (date : Moment) : Nat × Repository :=
  deleteEach (s.contexts.values.filter fun c => Moment.before (some c.createdAt) date) s

/-- `context.accessedAt || context.createdAt` -/
def lastAccessed (context : CompressedContext) : Moment :=
  context.accessedAt.getD (some context.createdAt)

/-- `cutoffDate` is what `setDate` makes of the date and the days. -/
def deleteUnusedContexts (cutoffDate : Moment) : Nat × Repository :=
  deleteEach (s.contexts.values.filter fun c => Moment.before (lastAccessed c) cutoffDate) s

inductive Operation
  | save (context : CompressedContext)
  | delete (id : String)
  | deleteById (id : String)
  | deleteByTaskId (taskId : String)
  | deleteOlderThan (date : Moment)
  | deleteUnusedContexts (cutoffDate : Moment)
  | clear

def perform : Operation → Option Nat × Repository
  | .save context => (none, s.save context)
  | .delete id => (none, (s.deleteById id).2)
  | .deleteById id => (some (s.deleteById id).1.toNat, (s.deleteById id).2)
  | .deleteByTaskId taskId => ((s.deleteByTaskId taskId).1, (s.deleteByTaskId taskId).2)
  | .deleteOlderThan date => ((s.deleteOlderThan date).1, (s.deleteOlderThan date).2)
  | .deleteUnusedContexts date => ((s.deleteUnusedContexts date).1, (s.deleteUnusedContexts date).2)
  | .clear => (none, empty)

end Queries

def run (operations : List Operation) : Repository :=
  operations.foldl (fun s op => (s.perform op).2) empty

end Repository

end Bridge.Contexts
