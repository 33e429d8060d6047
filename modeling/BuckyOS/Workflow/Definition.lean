import BuckyOS.Lib.Json
import BuckyOS.Lib.Text

/-! The workflow language as it is submitted (steps, control nodes, edges, guards) and the
expressions a definition is compiled to. -/
namespace BuckyOS.Workflow
inductive StepType where
  | autonomous
  | humanConfirm
  | humanRequired
deriving DecidableEq

inductive OutputMode where
  | single
  | finiteSeekable
  | finiteSequential
deriving DecidableEq

inductive JoinMode where
  | all
  | any
  | nOfM
deriving DecidableEq

inductive RetryFallback where
  | human
  | abort
deriving DecidableEq

structure BudgetGuard where
  maxCostUsdb : Option ℚ := none
deriving DecidableEq

structure RetryGuard where
  maxAttempts : ℕ := 1
  fallback : Option RetryFallback := none
deriving DecidableEq

structure GuardConfig where
  budget : Option BudgetGuard := none
  retry : Option RetryGuard := none
  maxCostUsdb : Option ℚ := none
deriving DecidableEq

structure StepDefinition where
  id : String
  name : String
  executor : Option String := none
  stepType : StepType
  input : Option Json := none
  inputSchema : Option Json := none
  outputSchema : Json
  subjectRef : Option String := none
  prompt : Option String := none
  idempotent : Bool := true
  skippable : Bool := true
  outputMode : OutputMode := .single
  guards : Option GuardConfig := none
deriving DecidableEq

structure BranchNodeDefinition where
  id : String
  on : String
  paths : OrderedMap String String
  maxIterations : ℕ
deriving DecidableEq

structure ParallelNodeDefinition where
  id : String
  branches : List String
  join : JoinMode
  n : Option ℕ := none
deriving DecidableEq

structure ForEachNodeDefinition where
  id : String
  items : String
  steps : List String
  maxItems : ℕ
  concurrency : ℕ := 1
deriving DecidableEq

inductive ControlNodeDefinition where
  | branch (node : BranchNodeDefinition)
  | parallel (node : ParallelNodeDefinition)
  | forEach (node : ForEachNodeDefinition)
deriving DecidableEq

def ControlNodeDefinition.id : ControlNodeDefinition → String
  | .branch node | .parallel node | .forEach node => node.id

structure EdgeDefinition where
  source : String
  target : Option String := none
deriving DecidableEq

structure WorkflowDefinition where
  schemaVersion : String
  id : String
  name : String
  steps : List StepDefinition
  nodes : List ControlNodeDefinition := []
  edges : List EdgeDefinition
  guards : Option GuardConfig := none
  defs : OrderedMap String Json := .empty
deriving DecidableEq

structure RefPath where
  nodeId : String
  fieldPath : List String
deriving DecidableEq

namespace RefPath
def opens (raw : String) : Bool := decide (raw.toList.take 2 = ['$','\x7b'])

def parse (raw : String) : Option RefPath :=
  if opens raw && raw.toList.getLast? == some '\x7d' then
    match (((raw.toList.drop 2).dropLast).splitOn '.').map String.ofList with
    | nodeId :: "output" :: fieldPath =>
      if nodeId = "" then none else some ⟨nodeId,fieldPath⟩
    | _ => none
  else none

def asString (reference : RefPath) : String :=
  "$\x7b" ++ ".".intercalate (reference.nodeId :: "output" :: reference.fieldPath) ++ "\x7d"

example : parse "$\x7ba.output.x.y\x7d" = some ⟨"a",["x","y"]⟩ := by decide +kernel

end RefPath

/-- How an `executor` field names what to run. -/
inductive ExecutorRef where
  | actual (value : String)
  | semanticPath (value : String)
deriving DecidableEq

namespace ExecutorRef
def beforeColons : List Char → Option (List Char)
  | [] => none
  | ':' :: ':' :: _ => some []
  | c :: cs => (beforeColons cs).map (c :: ·)

def knownNamespaces : List String := ["service","http","appservice","operator","func"]

def parse (raw : String) : Option ExecutorRef :=
  let trimmed := Text.trim raw
  if trimmed = "" then none
  else if trimmed.toList.head? = some '/' then some (.semanticPath trimmed)
  else
    match beforeColons trimmed.toList with
    | some ns => if String.ofList ns ∈ knownNamespaces then some (.actual trimmed) else none
    | none => none

def asStr : ExecutorRef → String
  | .actual value | .semanticPath value => value

def namespaceOf : ExecutorRef → Option String
  | .actual value => (beforeColons value.toList).map String.ofList
  | .semanticPath value =>
    ((value.toList.dropWhile (· = '/')).splitOn '/').head?.map String.ofList

def isFunctionObject : ExecutorRef → Bool
  | .actual value => decide (value.toList.take 6 = "func::".toList)
  | .semanticPath _ => false

example : parse " service::aicc.llm.chat " = some (.actual "service::aicc.llm.chat") := by
  decide +kernel

end ExecutorRef

/-- A JSON value in which texts may stand for references. -/
inductive ValueTemplate where
  | literal (value : Json)
  | reference (ref : RefPath)
  | array (items : List ValueTemplate)
  | object (fields : List (String × ValueTemplate))

inductive AwaitKind where
  | confirm
  | required
deriving DecidableEq

inductive JoinStrategy where
  | all
  | any
  | nOfM (n : ℕ)
deriving DecidableEq

inductive Expr where
  | apply (executor : ExecutorRef) (funId : Option String)
      (params : List (String × ValueTemplate)) (outputMode : OutputMode) (idempotent : Bool)
      (stepType : StepType) (guards : GuardConfig)
  | matchOn (on : RefPath) (cases : OrderedMap String String) (maxIterations : ℕ)
  | par (branches : List String) (join : JoinStrategy)
  | map (collection : RefPath) (steps : List String) (maxItems concurrency actualConcurrency : ℕ)
  | await (kind : AwaitKind) (subject : Option RefPath) (prompt : Option String)
      (outputSchema : Json)

structure RetryPolicy where
  maxAttempts : ℕ := 1
  fallback : RetryFallback := .human
deriving DecidableEq

def RetryPolicy.ofGuard : Option RetryGuard → RetryPolicy
  | none => {}
  | some guard => ⟨max guard.maxAttempts 1,guard.fallback.getD .human⟩

/-- A content address. The digest is taken to be free of collisions, so an address is kept as what
it is computed from: the type of the object and its JSON text. -/
structure ObjectId where
  objectType : String
  content : Json
deriving DecidableEq

def deterministicObjectId (objectType : String) (value : Json) : ObjectId := ⟨objectType,value⟩

structure CompiledNode where
  id : String
  name : String
  expr : Expr
  outputSchema : Option Json
  skippable : Bool
  idempotent : Bool

end BuckyOS.Workflow
