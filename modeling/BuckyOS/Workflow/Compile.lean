import BuckyOS.Workflow.Analysis

/-! Compilation of an analysed definition into the expressions the orchestrator runs. -/
namespace BuckyOS.Workflow
inductive WorkflowError where
  | analysis (report : AnalysisReport)
  | invalidReference (reference : String)
  | nodeNotFound (nodeId : String)
  | unsupportedNode (nodeId : String)
  | nodeNotWaitingHuman (nodeId : String)
  | nodeNotSkippable (nodeId : String)
  | missingPendingThunk (thunkObjId : ObjectId)
  | referenceResolution (reference : String)
  | invalidHumanAction (nodeId action : String)
  | rollbackBlocked (nodeId : String)
  | serialization (message : String)
  | objectStore (message : String)
  | dispatcher (message : String)
  | taskTracker (message : String)
  | forEachItemsType (nodeId : String) (actual : Json)
  | forEachTooManyItems (nodeId : String) (count max : ℕ)
  | forEachBodyNotApply (nodeId bodyStepId : String)
  | missingMapState (nodeId : String)
  | missingParState (nodeId : String)
  | unknownExecutorNamespace (nodeId executor : String)
  | unresolvedSemanticExecutor (nodeId executor : String)
  | executorNamespaceNotImplemented (nodeId executor ns : String)
  /-- An index out of range, which ends the call. -/
  | indexOutOfRange

abbrev WorkflowResult := Except WorkflowError

structure CompiledWorkflow where
  schemaVersion : String
  workflowId : String
  workflowName : String
  definition : WorkflowDefinition
  nodes : OrderedMap String CompiledNode
  graph : WorkflowGraph
  warnings : List AnalysisIssue

def CompiledWorkflow.Keyed (workflow : CompiledWorkflow) : Prop :=
  ∀ nodeId node, workflow.nodes.get? nodeId = some node → node.id = nodeId

structure CompileOutput where
  workflow : CompiledWorkflow
  warnings : List AnalysisIssue

mutual

def compileValueTemplate : Json → WorkflowResult ValueTemplate
  | .string text =>
    if RefPath.opens text then
      match RefPath.parse text with
      | some reference => .ok (.reference reference)
      | none => .error (.invalidReference text)
    else .ok (.literal (.string text))
  | .array items => do return .array (← compileItems items)
  | .object fields => do return .object (← compileFields fields)
  | value => .ok (.literal value)

def compileItems : List Json → WorkflowResult (List ValueTemplate)
  | [] => .ok []
  | item :: items => do return (← compileValueTemplate item) :: (← compileItems items)

def compileFields : List (String × Json) → WorkflowResult (List (String × ValueTemplate))
  | [] => .ok []
  | (key,value) :: fields => do
    return (key,← compileValueTemplate value) :: (← compileFields fields)

end

def compileParams : Option Json → WorkflowResult (List (String × ValueTemplate))
  | some (.object fields) => compileFields fields
  | some other => do return [("value",← compileValueTemplate other)]
  | none => .ok []

def stepExecutor (step : StepDefinition) : WorkflowResult ExecutorRef :=
  match step.executor with
  | none => .error (.serialization ("autonomous step " ++ quoted step.id ++ " requires executor"))
  | some executorStr =>
    match ExecutorRef.parse executorStr with
    | some executor => .ok executor
    | none => .error (.unknownExecutorNamespace step.id executorStr)

section
variable (hashExecutor : String → String)

/-- The content address of a function object; other executors have none. -/
def functionId (executor : ExecutorRef) : Option String :=
  if executor.isFunctionObject then some (hashExecutor executor.asStr) else none

variable (step : StepDefinition) (workflow : WorkflowDefinition)

def compileStep : WorkflowResult Expr :=
  match step.stepType with
  | .autonomous => do
    let executor ← stepExecutor step
    let params ← compileParams step.input
    return .apply executor (functionId hashExecutor executor) params step.outputMode
      step.idempotent step.stepType (step.guards.getD {})
  | .humanConfirm =>
    .ok (.await .confirm (step.subjectRef.bind RefPath.parse) step.prompt step.outputSchema)
  | .humanRequired =>
    .ok (.await .required (step.subjectRef.bind RefPath.parse) step.prompt step.outputSchema)

def compileStepNode : WorkflowResult CompiledNode := do
  let expr ← compileStep hashExecutor step
  return {
    id := step.id
    name := step.name
    expr := expr
    outputSchema := some step.outputSchema
    skippable := step.skippable
    idempotent := step.idempotent}

def compileJoin (parallel : ParallelNodeDefinition) : JoinStrategy :=
  match parallel.join with
  | .all => .all
  | .any => .any
  | .nOfM => .nOfM (parallel.n.getD 1)

def firstStep? (stepId : String) : Option StepDefinition :=
  workflow.steps.find? (fun step => step.id = stepId)

def actualConcurrency (forEach : ForEachNodeDefinition) : ℕ :=
  let sourceStep := (RefPath.parse forEach.items).bind
    (fun reference => firstStep? workflow reference.nodeId)
  match sourceStep.map StepDefinition.outputMode with
  | some .finiteSequential => 1
  | _ => max forEach.concurrency 1

def compileControlExpr :
    ControlNodeDefinition → WorkflowResult (Expr × Json)
  | .branch branch =>
    match RefPath.parse branch.on with
    | some on => .ok (.matchOn on branch.paths branch.maxIterations,branchSchema branch)
    | none => .error (.invalidReference branch.on)
  | .parallel parallel =>
    .ok (.par parallel.branches (compileJoin parallel),
      Json.ofFields [("type",.string "object"),
        ("properties",Json.ofFields (parallel.branches.filterMap (fun branchId =>
          (firstStep? workflow branchId).map (fun step => (branchId,step.outputSchema)))))])
  | .forEach forEach =>
    match RefPath.parse forEach.items with
    | some collection =>
      .ok (.map collection forEach.steps forEach.maxItems forEach.concurrency
          (actualConcurrency workflow forEach),
        arraySchema ((forEach.steps.getLast?.bind (fun stepId =>
          (firstStep? workflow stepId).map (fun step => step.outputSchema))).getD
            (Json.ofFields [])))
    | none => .error (.invalidReference forEach.items)

def compileControlNode (node : ControlNodeDefinition) :
    WorkflowResult CompiledNode := do
  let compiled ← compileControlExpr workflow node
  return {
    id := node.id
    name := node.id
    expr := compiled.1
    outputSchema := some compiled.2
    skippable := false
    idempotent := true}

def compileNodes : WorkflowResult (List CompiledNode) := do
  let steps ← workflow.steps.mapM (compileStepNode hashExecutor)
  let controls ← workflow.nodes.mapM (compileControlNode workflow)
  return steps ++ controls

def compileWorkflow (fuel : ℕ) (definition : WorkflowDefinition) :
    Option (WorkflowResult CompileOutput) :=
  (analyzeWorkflow fuel definition).map (fun report =>
    if report.hasErrors then .error (.analysis report)
    else do
      let nodes ← compileNodes hashExecutor definition
      return {
        workflow := {
          schemaVersion := definition.schemaVersion
          workflowId := definition.id
          workflowName := definition.name
          definition := definition
          nodes := OrderedMap.ofList (nodes.map (fun node => (node.id,node)))
          graph := workflowGraph definition
          warnings := report.warnings}
        warnings := report.warnings})

end
end BuckyOS.Workflow
