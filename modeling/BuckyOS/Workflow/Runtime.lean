import BuckyOS.Lib.Effects
import BuckyOS.Lib.Registry
import BuckyOS.Workflow.Compile

/-! The state of a workflow run, what enters it from outside, and the parts of the orchestrator
that only read a run: references, inputs, cache keys, thunks and dependencies. -/
namespace BuckyOS.Workflow
inductive RunStatus where
  | created
  | running
  | waitingHuman
  | completed
  | failed
  | paused
  | aborted
  | budgetExhausted
deriving DecidableEq

inductive NodeRunState where
  | pending
  | ready
  | running
  | completed
  | failed
  | retrying
  | waitingHuman
  | skipped
  | aborted
  | cancelled
deriving DecidableEq

/-- A node that will not run again by itself and lets its successors run. -/
def NodeRunState.done : NodeRunState → Bool
  | .completed | .skipped => true
  | _ => false

/-- A node that an abort or a join takes out of the run. -/
def NodeRunState.live : NodeRunState → Bool
  | .pending | .ready | .running | .waitingHuman => true
  | _ => false

structure PendingThunk where
  nodeId : String
  thunkObjId : ObjectId
  attempt : ℕ
  shardIndex : Option ℕ := none
deriving DecidableEq

def PendingThunk.runs (thunk : PendingThunk) (nodeId : String) : Bool :=
  decide (thunk.nodeId = nodeId) && thunk.shardIndex.isNone

structure MapState where
  forEachId : String
  bodyStepId : String
  items : List Json
  shardStates : List NodeRunState
  shardOutputs : List Json
  shardAttempts : List ℕ
  maxConcurrency : ℕ
deriving DecidableEq

structure ParState where
  nodeId : String
  branches : List String
  join : JoinStrategy
  completedCount : ℕ
deriving DecidableEq

structure WorkflowRun where
  runId : String
  workflowId : String
  workflowName : String
  planVersion : ℕ
  status : RunStatus
  nodeStates : OrderedMap String NodeRunState
  nodeOutputs : OrderedMap String Json
  nodeAttempts : OrderedMap String ℕ
  branchIterations : OrderedMap String ℕ
  pendingThunks : Registry PendingThunk.thunkObjId
  activatedNodes : OrderedSet String
  metrics : OrderedMap String Json
  humanWaitingNodes : OrderedSet String
  mapStates : OrderedMap String MapState
  parStates : OrderedMap String ParState
  seq : ℕ

structure EventEnvelope where
  eventType : String
  runId : String
  planVersion : ℕ
  seq : ℕ
  actor : String
  nodeId : Option String
  payload : Option Json
deriving DecidableEq

inductive HumanActionKind where
  | approve
  | modify
  | reject
  | retry
  | skip
  | abort
  | rollback
deriving DecidableEq

def HumanActionKind.asStr : HumanActionKind → String
  | .approve => "approve"
  | .modify => "modify"
  | .reject => "reject"
  | .retry => "retry"
  | .skip => "skip"
  | .abort => "abort"
  | .rollback => "rollback"

structure HumanAction where
  nodeId : String
  action : HumanActionKind
  payload : Option Json := none
  actor : String := "human"
deriving DecidableEq

structure ThunkObject where
  funId : String
  params : Json
  metadata : Json
deriving DecidableEq

def ThunkObject.toJson (thunk : ThunkObject) : Json :=
  .object [("fun_id",.string ("func:" ++ thunk.funId)),("metadata",thunk.metadata),
    ("params",thunk.params)]

inductive ThunkExecutionStatus where
  | waiting
  | dispatched
  | success
  | failed
  | cancelled
deriving DecidableEq

def ThunkExecutionStatus.asStr : ThunkExecutionStatus → String
  | .waiting => "waiting"
  | .dispatched => "dispatched"
  | .success => "success"
  | .failed => "failed"
  | .cancelled => "cancelled"

structure ThunkExecutionResult where
  thunkObjId : ObjectId
  taskId : String := ""
  status : ThunkExecutionStatus
  resultObjId : Option ObjectId := none
  result : Option Json := none
  error : Option String := none
  metrics : Json := .null
deriving DecidableEq

structure TaskHumanAction where
  kind : String
  payload : Option Json := none
  actor : Option String := none
deriving DecidableEq

structure WorkflowStepTaskData where
  runId : String := ""
  nodeId : String
  humanAction : Option TaskHumanAction := none
deriving DecidableEq

variable (run : WorkflowRun) (compiled : CompiledNode) (id : ObjectId)

def ObjectId.text : String := id.objectType ++ ":" ++ id.content.render

namespace WorkflowRun
variable (run : WorkflowRun) (nodeId : String)

/-- The state of a node; a node without an entry is pending. -/
def stateOf : NodeRunState :=
  (run.nodeStates.get? nodeId).getD .pending

def isDone : Bool :=
  (run.nodeStates.get? nodeId).any NodeRunState.done

def setState (state : NodeRunState) : WorkflowRun :=
  {run with nodeStates := run.nodeStates.insert nodeId state}

def setOutput (output : Json) : WorkflowRun :=
  {run with nodeOutputs := run.nodeOutputs.insert nodeId output}

def activate (nodeIds : List String) : WorkflowRun :=
  {run with activatedNodes := run.activatedNodes.addAll nodeIds}

def awaitHuman : WorkflowRun :=
  {run.setState nodeId .waitingHuman with
    humanWaitingNodes := run.humanWaitingNodes.add nodeId}

def stopWaiting : WorkflowRun :=
  {run with humanWaitingNodes := run.humanWaitingNodes.erase nodeId}

def attemptOf : ℕ := (run.nodeAttempts.get? nodeId).getD 0

def countAttempt : WorkflowRun :=
  {run with nodeAttempts := run.nodeAttempts.upsert nodeId 0 (· + 1)}

def addThunk (thunk : PendingThunk) : WorkflowRun :=
  {run with pendingThunks := run.pendingThunks.insert thunk}

def removeThunk (thunkObjId : ObjectId) : WorkflowRun :=
  {run with pendingThunks := run.pendingThunks.erase thunkObjId}

def thunksOf : List PendingThunk :=
  run.pendingThunks.items.filter (fun thunk => thunk.runs nodeId)

def dropThunks : WorkflowRun :=
  {run with pendingThunks := run.pendingThunks.filter (fun thunk => !thunk.runs nodeId)}

def setMapState (state : MapState) : WorkflowRun :=
  {run with mapStates := run.mapStates.insert nodeId state}

end WorkflowRun

def followPath : Json → List String → Option Json
  | value, [] => some value
  | value, segment :: path => (value.get? segment).bind (fun next => followPath next path)

def resolveReferenceValue (reference : RefPath) : WorkflowResult Json :=
  match (run.nodeOutputs.get? reference.nodeId).bind
      (fun output => followPath output reference.fieldPath) with
  | some value => .ok value
  | none => .error (.referenceResolution reference.asString)

mutual

def resolveTemplateValue (run : WorkflowRun) : ValueTemplate → WorkflowResult Json
  | .literal value => .ok value
  | .reference reference => resolveReferenceValue run reference
  | .array items => do return .array (← resolveItems run items)
  | .object fields => do return Json.ofFields (← resolveFields run fields)

def resolveItems (run : WorkflowRun) : List ValueTemplate → WorkflowResult (List Json)
  | [] => .ok []
  | item :: items => do return (← resolveTemplateValue run item) :: (← resolveItems run items)

def resolveFields (run : WorkflowRun) :
    List (String × ValueTemplate) → WorkflowResult (List (String × Json))
  | [] => .ok []
  | (key,value) :: fields => do
    return (key,← resolveTemplateValue run value) :: (← resolveFields run fields)

end

def resolveApplyInput : WorkflowResult Json :=
  match compiled.expr with
  | .apply _ _ params _ _ _ _ => do return Json.ofFields (← resolveFields run params)
  | _ => .error (.unsupportedNode compiled.id)

def resolveShardInput (bodyNode : CompiledNode) (item : Json) (index : ℕ) :
    WorkflowResult Json :=
  match bodyNode.expr with
  | .apply _ _ params _ _ _ _ => do
    return Json.ofFields ((← resolveFields run params) ++ [("_item",item),("_index",.ofNat index)])
  | _ => .error (.unsupportedNode bodyNode.id)

section
variable {run run' : WorkflowRun}

mutual

theorem resolveTemplateValue_congr (h : run.nodeOutputs = run'.nodeOutputs) :
    (value : ValueTemplate) → resolveTemplateValue run value = resolveTemplateValue run' value
  | .literal value => by simp only [resolveTemplateValue]
  | .reference reference => by simp only [resolveTemplateValue,resolveReferenceValue,h]
  | .array items => by rw [resolveTemplateValue,resolveTemplateValue,resolveItems_congr h items]
  | .object fields => by rw [resolveTemplateValue,resolveTemplateValue,resolveFields_congr h fields]

theorem resolveItems_congr (h : run.nodeOutputs = run'.nodeOutputs) :
    (items : List ValueTemplate) → resolveItems run items = resolveItems run' items
  | [] => by rw [resolveItems,resolveItems]
  | item :: items => by
    rw [resolveItems,resolveItems,resolveTemplateValue_congr h item,resolveItems_congr h items]

theorem resolveFields_congr (h : run.nodeOutputs = run'.nodeOutputs) :
    (fields : List (String × ValueTemplate)) → resolveFields run fields = resolveFields run' fields
  | [] => by rw [resolveFields,resolveFields]
  | (key,value) :: fields => by
    rw [resolveFields,resolveFields,resolveTemplateValue_congr h value,resolveFields_congr h fields]

end

theorem resolveApplyInput_congr (h : run.nodeOutputs = run'.nodeOutputs) (compiled : CompiledNode) :
    resolveApplyInput run compiled = resolveApplyInput run' compiled := by
  unfold resolveApplyInput
  split
  · rw [resolveFields_congr h]
  · rfl

end

def retryPolicy : RetryPolicy :=
  match compiled.expr with
  | .apply _ _ _ _ _ _ guards => RetryPolicy.ofGuard guards.retry
  | _ => {}

def isIdempotent : Bool :=
  match compiled.expr with
  | .apply _ _ _ _ idempotent _ _ => idempotent || compiled.idempotent
  | _ => compiled.idempotent

/-- What a cached result is filed under: the executor, its content identity and the input. -/
def cacheAddress (executor : ExecutorRef) (funId : Option String) (input : Json) : ObjectId :=
  deterministicObjectId "workflow_cache" (.object [("executor",.string executor.asStr),
    ("identity",.string (funId.getD ("ref:" ++ executor.asStr))),("input",input)])

def cacheKey (resolvedInput : Json) : ObjectId :=
  match compiled.expr with
  | .apply executor funId _ _ _ _ _ => cacheAddress executor funId resolvedInput
  | _ => ⟨"",.null⟩

def requireFunctionObject (nodeId : String) (executor : ExecutorRef) (funId : Option String) :
    WorkflowResult String :=
  match funId with
  | some id => .ok id
  | none =>
    match executor with
    | .semanticPath value => .error (.unresolvedSemanticExecutor nodeId value)
    | .actual value => .error (.executorNamespaceNotImplemented nodeId value
        (executor.namespaceOf.getD "<unknown>"))

structure ScheduledThunk where
  thunkObjId : ObjectId
  thunk : ThunkObject
deriving DecidableEq

def ScheduledThunk.ofParts (funId : String) (params metadata : Json) : ScheduledThunk where
  thunkObjId := deterministicObjectId "thunk"
    (.object [("fun_id",.string funId),("metadata",metadata),("params",params)])
  thunk := ⟨funId,params,metadata⟩

def thunkParams (subject : String) (resolvedInput : Json) : WorkflowResult Json :=
  match resolvedInput with
  | .object fields => .ok (.object fields)
  | other => .error (.serialization
      ("resolved " ++ subject ++ " must be a JSON object, got " ++ other.render))

def thunkMetadata (runId nodeId : String) (attempt : ℕ) : Json :=
  .object [("attempt",.ofNat attempt),("node_id",.string nodeId),("run_id",.string runId)]

def ObjectId.metadata? (name : String) : Option Json :=
  (id.content.get? "metadata").bind (fun metadata => metadata.get? name)

/-- The `for_each` node a thunk runs a shard of. -/
def ObjectId.forEach? : Option String :=
  (id.metadata? "for_each_id").bind Json.asStr

/-- The node a thunk runs, or runs a shard of. -/
def ObjectId.owner? : Option String :=
  match id.forEach? with
  | some forEachId => some forEachId
  | none => (id.metadata? "node_id").bind Json.asStr

def buildThunk (runId : String) (compiled : CompiledNode) (resolvedInput : Json) (attempt : ℕ) :
    WorkflowResult ScheduledThunk :=
  match compiled.expr with
  | .apply executor funId _ _ _ _ _ => do
    let funId ← requireFunctionObject compiled.id executor funId
    let params ← thunkParams ("thunk params for node " ++ quoted compiled.id) resolvedInput
    return ScheduledThunk.ofParts funId params (thunkMetadata runId compiled.id attempt)
  | _ => .error (.unsupportedNode compiled.id)

def shardNodeId (forEachId : String) (index : ℕ) : String :=
  forEachId ++ "[" ++ toString index ++ "]"

def shardMetadata (runId forEachId bodyStepId : String) (index attempt : ℕ) : Json :=
  .object [("attempt",.ofNat attempt),("body_step_id",.string bodyStepId),
    ("for_each_id",.string forEachId),("node_id",.string (shardNodeId forEachId index)),
    ("run_id",.string runId),("shard",.object [("index",.ofNat index)])]

def buildShardThunk (runId : String) (bodyNode : CompiledNode) (forEachId bodyStepId : String)
    (index : ℕ) (resolvedInput : Json) (attempt : ℕ) : WorkflowResult ScheduledThunk :=
  match bodyNode.expr with
  | .apply executor funId _ _ _ _ _ => do
    let funId ← requireFunctionObject bodyNode.id executor funId
    let params ← thunkParams ("shard params for " ++ quoted (shardNodeId forEachId index))
      resolvedInput
    return ScheduledThunk.ofParts funId params
      (shardMetadata runId forEachId bodyStepId index attempt)
  | _ => .error (.forEachBodyNotApply forEachId bodyStepId)

variable {resolvedInput : Json} {runId : String} {attempt : ℕ} {scheduled : ScheduledThunk}

theorem thunkParams_ok {subject : String} {params : Json}
    (h : thunkParams subject resolvedInput = .ok params) : params = resolvedInput := by
  unfold thunkParams at h
  split at h
  · exact (Except.ok.inj h).symm
  · simp at h

theorem buildThunk_ok {compiled : CompiledNode}
    (h : buildThunk runId compiled resolvedInput attempt = .ok scheduled) : ∃ funId, scheduled =
      .ofParts funId resolvedInput (thunkMetadata runId compiled.id attempt) ∧
      ∃ executor params outputMode idempotent stepType guards,
        compiled.expr = .apply executor (some funId) params outputMode idempotent stepType guards := by
  rw [buildThunk] at h
  split at h
  · rename_i executor funId params outputMode idempotent stepType guards hexpr
    obtain ⟨id,hid,hrest⟩ := bind_eq_ok_iff.mp h
    obtain ⟨params',hparams,hok⟩ := bind_eq_ok_iff.mp hrest
    obtain rfl := thunkParams_ok hparams
    obtain rfl : funId = some id := by
      unfold requireFunctionObject at hid
      cases funId with
      | some funId => rw [Except.ok.inj hid]
      | none => cases executor <;> simp at hid
    exact ⟨_,(Except.ok.inj hok).symm,_,_,_,_,_,_,hexpr⟩
  · simp at h

theorem buildShardThunk_ok {bodyNode : CompiledNode} {forEachId bodyStepId : String} {index : ℕ}
    (h : buildShardThunk runId bodyNode forEachId bodyStepId index resolvedInput attempt = .ok
      scheduled) : ∃ funId, scheduled = .ofParts funId resolvedInput
      (shardMetadata runId forEachId bodyStepId index attempt) := by
  rw [buildShardThunk] at h
  split at h
  · obtain ⟨id,-,hrest⟩ := bind_eq_ok_iff.mp h
    obtain ⟨params,hparams,hok⟩ := bind_eq_ok_iff.mp hrest
    obtain rfl := thunkParams_ok hparams
    exact ⟨_,(Except.ok.inj hok).symm⟩
  · simp at h

section ThunkIds
variable (funId : String) (params : Json) (runId nodeId bodyStepId : String) (index attempt : ℕ)

open ScheduledThunk (ofParts)

@[simp] theorem forEach?_node :
    (ofParts funId params (thunkMetadata runId nodeId attempt)).thunkObjId.forEach? =
      none := rfl

@[simp] theorem owner?_node :
    (ofParts funId params (thunkMetadata runId nodeId attempt)).thunkObjId.owner? =
      some nodeId := rfl

@[simp] theorem attempt_node :
    (ofParts funId params (thunkMetadata runId nodeId attempt)).thunkObjId.metadata?
      "attempt" = some (.ofNat attempt) := rfl

@[simp] theorem forEach?_shard : (ofParts funId params
      (shardMetadata runId nodeId bodyStepId index attempt)).thunkObjId.forEach? = some nodeId := rfl

@[simp] theorem owner?_shard : (ofParts funId params
      (shardMetadata runId nodeId bodyStepId index attempt)).thunkObjId.owner? = some nodeId := rfl

@[simp] theorem shard_shard : (ofParts funId params
      (shardMetadata runId nodeId bodyStepId index attempt)).thunkObjId.metadata? "shard" =
      some (.object [("index",.ofNat index)]) := rfl

end ThunkIds

def extractItems : Json → Option (List Json)
  | .array items => some items
  | value => (value.get? "items").bind Json.asArray

variable (workflow : CompiledWorkflow) (run : WorkflowRun) (nodeId : String)

/-- The node that a branch of a parallel node, or the first step of a `for_each`, runs within. -/
def encloses (parentId nodeId : String) : Bool :=
  (workflow.nodes.get? parentId).any (fun parent =>
    match parent.expr with
    | .par branches _ => decide (nodeId ∈ branches)
    | .map _ steps _ _ _ => decide (steps.head? = some nodeId)
    | _ => false)

def dependencySatisfied (nodeId dependency : String) : Bool :=
  run.isDone dependency || decide (run.nodeStates.get? dependency = some .running) &&
    encloses workflow dependency nodeId

def isActionable : Bool :=
  decide (run.stateOf nodeId = .pending) &&
    (workflow.graph.dependencies nodeId).all (dependencySatisfied workflow run nodeId)

def subjectForNode (compiled : CompiledNode) : WorkflowResult Json :=
  match compiled.expr with
  | .await .confirm (some subject) _ _ => resolveReferenceValue run subject
  | .await _ _ _ _ => .ok .null
  | _ => .error (.invalidHumanAction compiled.id "subject")

def ensureWaitingHuman : WorkflowResult Unit :=
  if run.nodeStates.get? nodeId = some .waitingHuman then .ok ()
  else .error (.nodeNotWaitingHuman nodeId)

namespace ParState
variable (state : ParState) (run : WorkflowRun)

def completedBranches : List String :=
  state.branches.filter (fun branchId => run.isDone branchId)

def anyFailed : Bool :=
  state.branches.any (fun branchId => run.nodeStates.get? branchId = some .failed)

def joinSatisfied : Bool :=
  match state.join with
  | .all => decide ((state.completedBranches run).length = state.branches.length)
  | .any => !(state.completedBranches run).isEmpty
  | .nOfM n => decide (n ≤ (state.completedBranches run).length)

end ParState

/-- The run while a join cancels the branches it does not need. -/
structure Cancelling where
  run : WorkflowRun
  branches : List String := []
  thunks : List ObjectId := []

def Cancelling.branch (completed : List String) (acc : Cancelling) (branchId : String) :
    Cancelling :=
  if branchId ∈ completed then acc
  else
    match acc.run.nodeStates.get? branchId with
    | some state =>
      if state.live then
        let running := decide (state = .running)
        let run := if running then acc.run.dropThunks branchId else acc.run
        let thunks := if running then acc.run.thunksOf branchId else []
        {run := {run.setState branchId .cancelled with
            activatedNodes := run.activatedNodes.erase branchId}
         branches := acc.branches ++ [branchId]
         thunks := acc.thunks ++ thunks.map PendingThunk.thunkObjId}
      else acc
    | none => acc

def refreshedStatus : RunStatus :=
  if run.status = .aborted then .aborted
  else if run.nodeStates.values.any (fun state => state = .waitingHuman) then .waitingHuman
  else if run.nodeStates.values.any (fun state => state = .running) then .running
  else if run.activatedNodes.keys.any (fun nodeId => run.nodeStates.get? nodeId = some .pending)
  then .running
  else if run.nodeStates.values.any (fun state => state = .failed) then .failed
  else .completed

end BuckyOS.Workflow
