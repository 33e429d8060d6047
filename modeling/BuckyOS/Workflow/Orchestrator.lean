import BuckyOS.Lib.Machine
import BuckyOS.Workflow.Runtime

/-! The orchestrator: every call that advances a run, with the calls it makes to the object store,
the dispatcher, the task tracker and the executor adapters. A call that fails leaves behind what
it has done so far. -/
namespace BuckyOS.Workflow
open Fallible

/-- A direct execution: what was run, on which input, and the answer. -/
structure Invocation where
  executor : ExecutorRef
  input : Json
  answer : Except String Json

/-- A run with its surroundings. The events are those of the call in progress; the object store,
the dispatched and cancelled thunks, the direct executions and the results accepted from the
dispatcher are kept over all calls, and calls to the outside are counted. -/
structure World where
  run : WorkflowRun
  events : List EventEnvelope := []
  store : ObjectId → Option Json := fun _ => none
  scheduled : List ScheduledThunk := []
  cancelled : List ObjectId := []
  invoked : List Invocation := []
  reported : List (ObjectId × Json) := []
  calls : ℕ := 0

/-- What the outside does: which call of a service fails, which executors run directly, and what
a direct execution answers. -/
structure Env where
  outage : ℕ → Option WorkflowError := fun _ => none
  supports : ExecutorRef → Bool := fun _ => false
  invoke : ℕ → ExecutorRef → Json → Except String Json

abbrev Orch (α : Type) := Fallible World WorkflowError α

namespace World
def called (w : World) : World := {w with calls := w.calls + 1}

def stored (w : World) (id : ObjectId) (value : Json) : World :=
  {w with store := Function.update w.store id (some value)}

def emitted (w : World) (eventType : String) (nodeId : Option String) (actor : String)
    (payload : Option Json) : World :=
  {w with
    run := {w.run with seq := w.run.seq + 1}
    events := w.events ++ [{
      eventType := eventType
      runId := w.run.runId
      planVersion := w.run.planVersion
      seq := w.run.seq + 1
      actor := actor
      nodeId := nodeId
      payload := payload}]}

end World

def readRun : Orch WorkflowRun := read World.run

def modifyRun (f : WorkflowRun → WorkflowRun) : Orch Unit :=
  update (fun w => {w with run := f w.run})

def emitEvent (eventType : String) (nodeId : Option String) (actor : String)
    (payload : Option Json) : Orch Unit :=
  update (fun w => w.emitted eventType nodeId actor payload)

section
variable (env : Env)

def external : Orch Unit := fun w =>
  match env.outage w.calls with
  | some e => (.error e,w.called)
  | none => (.ok (),w.called)

variable (id : ObjectId) (compiled : CompiledNode) (resolvedInput : Json)

def putJsonWithId (value : Json) : Orch Unit := do
  external env
  update (fun w => w.stored id value)

def putJson (objectType : String) (value : Json) : Orch ObjectId := do
  putJsonWithId env (deterministicObjectId objectType value) value
  return deterministicObjectId objectType value

def getJson : Orch (Option Json) := do
  external env
  read (fun w => w.store id)

def scheduleThunk (scheduled : ScheduledThunk) : Orch Unit := do
  external env
  update (fun w => {w with scheduled := w.scheduled ++ [scheduled]})

def cancelThunks (thunks : List ObjectId) : Orch Unit :=
  update (fun w => {w with
    cancelled := w.cancelled ++ thunks
    calls := w.calls + thunks.length})

def invoke (executor : ExecutorRef) (input : Json) : Orch (Except String Json) := fun w =>
  let answer := env.invoke w.calls executor input
  (.ok answer,{w.called with invoked := w.invoked ++ [⟨executor,input,answer⟩]})

def sync : Orch Unit := external env

def hasAdapter : Bool :=
  match compiled.expr with
  | .apply executor _ _ _ _ _ _ => env.supports executor
  | _ => false

def lookupCache : Orch (Option Json) := do
  let entry ← getJson env (cacheKey compiled resolvedInput)
  return entry.bind (fun value => value.get? "result")

def cachedResult : Orch (Option Json) :=
  if compiled.idempotent then lookupCache env compiled resolvedInput else pure none

def cacheEntry (outputId : ObjectId) (output metrics : Json) : Json :=
  .object [("metrics",metrics),("result",output),("result_obj_id",.string outputId.text)]

variable (workflow : CompiledWorkflow)

variable (forEachId : String) (compiled : CompiledNode) (nodeId : String)

def syncNode : Orch Unit :=
  if (workflow.nodes.get? nodeId).isSome then sync env else pure ()

def activateSuccessors : Orch Unit :=
  modifyRun (fun run => run.activate (workflow.graph.explicitSuccessorsOf nodeId))

def refreshRunStatus : Orch Unit := do
  let run ← readRun
  modifyRun (fun run => {run with status := refreshedStatus run})
  if refreshedStatus run = .failed ∧ run.status ≠ .failed then
    emitEvent "run.failed" none "engine" none
  else if refreshedStatus run = .completed ∧ run.status ≠ .completed then
    emitEvent "run.completed" none "engine" (some (Json.ofFields [("terminal_nodes",
      .array (workflow.graph.terminalFrom.keys.map Json.string))]))
  else pure ()

def settle : Orch Unit := do
  refreshRunStatus workflow
  sync env

def failPar (parId : String) : Orch Unit := do
  modifyRun (fun run => {run.setState parId .failed with parStates := run.parStates.erase parId})
  emitEvent "step.failed" (some parId) "engine"
    (some (Json.ofFields [("reason",.string "branch_failed")]))
  syncNode env workflow parId

/-- What a join leaves of a run: unneeded branches cancelled, the outputs of the others collected
in the output of the parallel node. -/
def joinPar (state : ParState) (run : WorkflowRun) : Cancelling :=
  state.branches.foldl (Cancelling.branch (state.completedBranches run)) {run := run}

def parOutput (state : ParState) (run : WorkflowRun) : Json :=
  Json.ofFields ((state.completedBranches run).map (fun branchId =>
    (branchId,(run.nodeOutputs.get? branchId).getD .null)))

def completePar (parId : String) (state : ParState) : Orch Unit := do
  let run ← readRun
  cancelThunks (joinPar state run).thunks
  modifyRun (fun _ => {((joinPar state run).run.setOutput parId (parOutput state run)).setState
    parId .completed with parStates := (joinPar state run).run.parStates.erase parId})
  activateSuccessors workflow parId
  emitEvent "step.completed" (some parId) "engine" (some (Json.ofFields [
    ("completed_branches",.array ((state.completedBranches run).map Json.string)),
    ("cancelled_branches",.array ((joinPar state run).branches.map Json.string))]))
  visit (syncNode env workflow) (joinPar state run).branches
  syncNode env workflow parId

def checkParCompletion (parId : String) : Orch Unit := do
  let run ← readRun
  match run.parStates.get? parId with
  | none => fail (.missingParState parId)
  | some state =>
    if state.anyFailed run = true ∧ state.join = .all then failPar env workflow parId
    else if state.joinSatisfied run then completePar env workflow parId state
    else pure ()

def notifyParBranchCompleted (finishedNodeId : String) : Orch Unit := do
  let run ← readRun
  visit (checkParCompletion env workflow)
    ((run.parStates.entries.filter (fun entry => finishedNodeId ∈ entry.2.branches)).map Prod.fst)

def completeApply (payload : Json) : Orch Unit := do
  activateSuccessors workflow nodeId
  notifyParBranchCompleted env workflow nodeId
  emitEvent "step.completed" (some nodeId) "engine" (some payload)
  sync env

def completeFromCache (cached : Json) : Orch Unit := do
  modifyRun (fun run => (run.setState compiled.id .completed).setOutput compiled.id cached)
  completeApply env workflow compiled.id (Json.ofFields [("source",.string "cache")])

/-- What a failed attempt makes of a node: another attempt, a question to a human, or failure. -/
def recordFailure (policy : RetryPolicy) (attempt : ℕ) (retry : Bool)
    (error : Json) : Orch Unit :=
  if attempt < policy.maxAttempts ∧ retry = true then do
    modifyRun (fun run => run.setState nodeId .pending)
    emitEvent "step.retrying" (some nodeId) "engine"
      (some (Json.ofFields [("attempt",.ofNat (attempt + 1)),("error",error)]))
  else if policy.fallback = .human then do
    modifyRun (fun run => run.awaitHuman nodeId)
    emitEvent "step.waiting_human" (some nodeId) "engine"
      (some (Json.ofFields [("reason",.string "retries_exhausted"),("error",error)]))
  else do
    modifyRun (fun run => run.setState nodeId .failed)
    emitEvent "step.failed" (some nodeId) "engine" (some (Json.ofFields [("error",error)]))

def failApplyNodeDirect (attempt : ℕ) (error : String) : Orch Unit := do
  recordFailure compiled.id (retryPolicy compiled) attempt true (.string error)
  sync env

def keepResult (resolvedInput : Json) (outputId : ObjectId)
    (output metrics : Json) : Orch Unit :=
  if isIdempotent compiled then
    putJsonWithId env (cacheKey compiled resolvedInput) (cacheEntry outputId output metrics)
  else pure ()

def completeApplyNodeDirect (resolvedInput output metrics : Json) :
    Orch Unit := do
  let outputId ← putJson env "workflow_result" output
  modifyRun (fun run => {(run.setState compiled.id .completed).setOutput compiled.id output with
    metrics := run.metrics.insert compiled.id metrics})
  keepResult env compiled resolvedInput outputId output metrics
  completeApply env workflow compiled.id (Json.ofFields
    [("result_obj_id",.string outputId.text),("mode",.string "direct")])

def scheduleApplyDirect (executor : ExecutorRef) (resolvedInput : Json)
    (attempt : ℕ) : Orch Unit := do
  modifyRun (fun run => run.setState compiled.id .running)
  emitEvent "step.started" (some compiled.id) "engine" (some (Json.ofFields
    [("executor",.string executor.asStr),("mode",.string "direct")]))
  sync env
  let answer ← invoke env executor resolvedInput
  match answer with
  | .ok output => completeApplyNodeDirect env workflow compiled resolvedInput output .null
  | .error error => failApplyNodeDirect env compiled attempt error

def dispatchApply (resolvedInput : Json) (attempt : ℕ) : Orch Unit := do
  let run ← readRun
  let scheduled ← lift (buildThunk run.runId compiled resolvedInput attempt)
  let _ ← putJson env "workflow_thunk" scheduled.thunk.toJson
  scheduleThunk env scheduled
  modifyRun (fun run => (run.addThunk ⟨compiled.id,scheduled.thunkObjId,attempt,none⟩).setState
    compiled.id .running)
  emitEvent "step.started" (some compiled.id) "engine" none
  sync env
  sync env

def startApply (resolvedInput : Json) : Orch Unit := do
  modifyRun (fun run => run.countAttempt compiled.id)
  let run ← readRun
  match compiled.expr with
  | .apply executor _ _ _ _ _ _ =>
    if env.supports executor then
      scheduleApplyDirect env workflow compiled executor resolvedInput (run.attemptOf compiled.id)
    else dispatchApply env compiled resolvedInput (run.attemptOf compiled.id)
  | _ => fail (.unsupportedNode compiled.id)

def scheduleApply : Orch Unit := do
  let run ← readRun
  let resolvedInput ← lift (resolveApplyInput run compiled)
  let cached ← cachedResult env compiled resolvedInput
  match cached with
  | some output => completeFromCache env workflow compiled output
  | none => startApply env workflow compiled resolvedInput

def askAboutBranch (payload : Json) : Orch Unit := do
  modifyRun (fun run => run.awaitHuman compiled.id)
  emitEvent "step.waiting_human" (some compiled.id) "engine" (some payload)
  sync env

def advanceMatch (on : RefPath) (cases : OrderedMap String String)
    (maxIterations : ℕ) : Orch Unit := do
  let run ← readRun
  let currentIteration := (run.branchIterations.get? compiled.id).getD 0
  if maxIterations ≤ currentIteration then
    askAboutBranch env compiled (Json.ofFields [("reason",.string "max_iterations_reached")])
  else do
    let value ← lift (resolveReferenceValue run on)
    let branchKey := value.asStr.getD value.render
    match cases.get? branchKey with
    | none => askAboutBranch env compiled (Json.ofFields
        [("reason",.string "unexpected_branch"),("branch",.string branchKey)])
    | some target => do
      modifyRun (fun run => {run with
        branchIterations := run.branchIterations.insert compiled.id (currentIteration + 1)})
      modifyRun (fun run => ((run.setOutput compiled.id (Json.ofFields
        [("branch",.string branchKey)])).setState compiled.id .completed).activate [target])
      activateSuccessors workflow compiled.id
      emitEvent "step.completed" (some compiled.id) "engine" none
      sync env

def storeSubject (subject : Option Json) : Orch Unit :=
  match subject with
  | some value => do
    let _ ← putJson env "workflow_subject" value
  | none => pure ()

def enterHumanWait (prompt : Option String) : Orch Unit := do
  modifyRun (fun run => run.awaitHuman compiled.id)
  let run ← readRun
  let subject := (subjectForNode run compiled).toOption
  storeSubject env (subject.filter (fun value => value ≠ .null))
  emitEvent "step.waiting_human" (some compiled.id) "engine" (some (Json.ofFields
    [("node_id",.string compiled.id),("prompt",.ofOption prompt),("subject",subject.getD .null)]))
  sync env

variable (run : WorkflowRun) (action : HumanAction)

def openBranch (branchId : String) : WorkflowRun :=
  let run := run.activate [branchId]
  match run.nodeStates.get? branchId with
  | some .ready => run.setState branchId .pending
  | some _ => run
  | none => run.setState branchId .pending

def enterPar (branches : List String) (join : JoinStrategy) :
    Orch Unit := do
  modifyRun (fun run => {run with
    parStates := run.parStates.insert compiled.id ⟨compiled.id,branches,join,0⟩})
  modifyRun (fun run => (branches.foldl openBranch run).setState compiled.id .running)
  emitEvent "step.started" (some compiled.id) "engine"
    (some (Json.ofFields [("branches",.array (branches.map Json.string))]))
  sync env

def completeMap : Orch Unit := do
  modifyRun (fun run => {(run.setOutput forEachId (.array
      ((run.mapStates.get? forEachId).elim [] MapState.shardOutputs))).setState forEachId .completed with
    mapStates := run.mapStates.erase forEachId})
  activateSuccessors workflow forEachId
  notifyParBranchCompleted env workflow forEachId
  emitEvent "step.completed" (some forEachId) "engine" none
  syncNode env workflow forEachId

def allShardsDone : Bool :=
  (run.mapStates.get? forEachId).any
    (fun state => state.shardStates.all (fun shard => shard = .completed))

def adjustMap (f : MapState → MapState) (run : WorkflowRun) : WorkflowRun :=
  match run.mapStates.get? forEachId with
  | some state => run.setMapState forEachId (f state)
  | none => run

def MapState.setShard (state : MapState) (index : ℕ) (shard : NodeRunState) : MapState :=
  {state with shardStates := state.shardStates.set index shard}

def MapState.completeShard (state : MapState) (index : ℕ) (output : Json) : MapState :=
  {state.setShard index .completed with shardOutputs := state.shardOutputs.set index output}

def MapState.countAttempt (state : MapState) (index : ℕ) : MapState :=
  {state with shardAttempts := state.shardAttempts.modify index (· + 1)}

def runShard (executor : ExecutorRef) (index : ℕ) (resolvedInput : Json) :
    Orch Bool := do
  let answer ← invoke env executor resolvedInput
  match answer with
  | .ok output => do
    modifyRun (adjustMap forEachId (fun state => state.completeShard index output))
    emitEvent "step.progress" (some forEachId) "engine" (some (Json.ofFields
      [("shard",.ofNat index),("status",.string "completed"),("mode",.string "direct")]))
    sync env
    return true
  | .error error => do
    modifyRun (fun run => (adjustMap forEachId (fun state => state.setShard index .failed)
      run).setState forEachId .failed)
    emitEvent "step.failed" (some forEachId) "engine" (some (Json.ofFields
      [("shard",.ofNat index),("error",.string error),("mode",.string "direct")]))
    sync env
    syncNode env workflow forEachId
    return false

def dispatchShard (forEachId bodyStepId : String) (bodyNode : CompiledNode) (index attempt : ℕ)
    (resolvedInput : Json) : Orch Unit := do
  let run ← readRun
  let scheduled ← lift (buildShardThunk run.runId bodyNode forEachId bodyStepId index
    resolvedInput attempt)
  let _ ← putJson env "workflow_thunk" scheduled.thunk.toJson
  scheduleThunk env scheduled
  modifyRun (fun run => adjustMap forEachId (fun state => state.setShard index .running)
    (run.addThunk ⟨forEachId,scheduled.thunkObjId,attempt,some index⟩))
  sync env
  sync env

def startShard (forEachId bodyStepId : String) (bodyNode : CompiledNode) (index : ℕ)
    (state : MapState) : Orch Bool := do
  modifyRun (adjustMap forEachId (fun state => state.countAttempt index))
  let run ← readRun
  let resolvedInput ← lift (resolveShardInput run bodyNode ((state.items[index]?).getD .null) index)
  match bodyNode.expr with
  | .apply executor _ _ _ _ _ _ =>
    if env.supports executor then runShard env workflow forEachId executor index resolvedInput
    else do
      dispatchShard env forEachId bodyStepId bodyNode index
        ((state.shardAttempts[index]?).getD 0 + 1) resolvedInput
      return true
  | _ => fail (.unsupportedNode bodyNode.id)

/-- Start pending shards in order, up to the number that may run at a time; whether no direct
execution failed. -/
def startShards (forEachId bodyStepId : String) (bodyNode : CompiledNode) (maxConcurrency : ℕ) :
    List ℕ → ℕ → Orch Bool
  | [], _ => pure true
  | index :: indices, runningCount =>
    if hasAdapter env bodyNode = false ∧ maxConcurrency ≤ runningCount then pure true
    else do
      let run ← readRun
      match run.mapStates.get? forEachId with
      | none => startShards forEachId bodyStepId bodyNode maxConcurrency indices runningCount
      | some state =>
        if state.shardStates[index]? = some .pending then do
          let go ← startShard env workflow forEachId bodyStepId bodyNode index state
          if go then
            startShards forEachId bodyStepId bodyNode maxConcurrency indices
              (if hasAdapter env bodyNode then runningCount else runningCount + 1)
          else pure false
        else startShards forEachId bodyStepId bodyNode maxConcurrency indices runningCount

def dispatchPendingShards (bodyNode : CompiledNode) : Orch Unit := do
  let run ← readRun
  match run.mapStates.get? forEachId with
  | none => fail (.missingMapState forEachId)
  | some state => do
    let running := state.shardStates.count .running
    let go ← startShards env workflow forEachId state.bodyStepId bodyNode state.maxConcurrency
      (List.range state.items.length) running
    let run ← readRun
    if go = true ∧ hasAdapter env bodyNode = true ∧ allShardsDone forEachId run = true then
      completeMap env workflow forEachId
    else pure ()

def forEachBody (steps : List String) :
    WorkflowResult (String × CompiledNode) :=
  match steps with
  | [] => .error (.forEachBodyNotApply forEachId "<empty>")
  | bodyStepId :: _ =>
    match workflow.nodes.get? bodyStepId with
    | none => .error (.nodeNotFound bodyStepId)
    | some bodyNode =>
      match bodyNode.expr with
      | .apply .. => .ok (bodyStepId,bodyNode)
      | _ => .error (.forEachBodyNotApply forEachId bodyStepId)

def forEachItems (forEachId : String) (collection : RefPath) (maxItems : ℕ) :
    WorkflowResult (List Json) := do
  let value ← resolveReferenceValue run collection
  match extractItems value with
  | none => .error (.forEachItemsType forEachId value)
  | some items =>
    if maxItems < items.length then .error (.forEachTooManyItems forEachId items.length maxItems)
    else .ok items

def enterMap (collection : RefPath) (steps : List String)
    (maxItems actualConcurrency : ℕ) : Orch Unit := do
  let body ← lift (forEachBody workflow compiled.id steps)
  let run ← readRun
  let items ← lift (forEachItems run compiled.id collection maxItems)
  modifyRun (fun run => (run.setMapState compiled.id {
    forEachId := compiled.id
    bodyStepId := body.1
    items := items
    shardStates := List.replicate items.length .pending
    shardOutputs := List.replicate items.length .null
    shardAttempts := List.replicate items.length 0
    maxConcurrency := max actualConcurrency 1}).setState compiled.id .running)
  emitEvent "step.started" (some compiled.id) "engine" (some (Json.ofFields
    [("total",.ofNat items.length),("concurrency",.ofNat actualConcurrency)]))
  sync env
  if items = [] then completeMap env workflow compiled.id
  else dispatchPendingShards env workflow compiled.id body.2

def markReady (acc : List String × WorkflowRun) (nodeId : String) : List String × WorkflowRun :=
  if isActionable workflow acc.2 nodeId then (acc.1 ++ [nodeId],acc.2.setState nodeId .ready)
  else acc

/-- The activated nodes a tick may start, in the order of their ids; they are ready from now on. -/
def actionableNodes : Orch (List String) := fun w =>
  let found := w.run.activatedNodes.keys.foldl (markReady workflow) ([],w.run)
  (.ok found.1,{w with run := found.2})

def advanceNode : Orch Unit :=
  match workflow.nodes.get? nodeId with
  | none => fail (.nodeNotFound nodeId)
  | some compiled =>
    match compiled.expr with
    | .apply .. => scheduleApply env workflow compiled
    | .matchOn on cases maxIterations => advanceMatch env workflow compiled on cases maxIterations
    | .await _ _ prompt _ => enterHumanWait env compiled prompt
    | .par branches join => enterPar env compiled branches join
    | .map collection steps maxItems _ actualConcurrency =>
      enterMap env workflow compiled collection steps maxItems actualConcurrency

/-- More rounds than a tick can take: every round takes an attempt or the last turn of a node. -/
def roundLimit : ℕ :=
  (workflow.nodes.values.map (fun node => (retryPolicy node).maxAttempts + 1)).sum + 1

/-- The rounds of a tick; whether there is nothing left to start. -/
def tickRounds : ℕ → Orch Bool
  | 0 => pure false
  | rounds + 1 => do
    let actionable ← actionableNodes workflow
    if actionable = [] then pure true
    else do
      visit (advanceNode env workflow) actionable
      tickRounds rounds

def beginRun : Orch Unit := do
  let run ← readRun
  if run.status = .created then do
    modifyRun (fun run => {run with status := .running})
    emitEvent "run.started" none "engine" none
  else pure ()

def tick : Orch Unit := do
  beginRun
  let _ ← tickRounds env workflow (roundLimit workflow)
  settle env workflow

def handleShardCompleted (index : ℕ) (output : Json) : Orch Unit := do
  let run ← readRun
  match run.mapStates.get? forEachId with
  | none => fail (.missingMapState forEachId)
  | some state =>
    if state.shardStates.length ≤ index then fail (.missingMapState forEachId)
    else do
      modifyRun (adjustMap forEachId (fun state => state.completeShard index output))
      emitEvent "step.progress" (some forEachId) "engine" (some (Json.ofFields
        [("shard",.ofNat index),("status",.string "completed")]))
      sync env
      match workflow.nodes.get? state.bodyStepId with
      | none => fail (.nodeNotFound state.bodyStepId)
      | some bodyNode => do
        dispatchPendingShards env workflow forEachId bodyNode
        let run ← readRun
        if allShardsDone forEachId run then completeMap env workflow forEachId else pure ()

def handleShardFailed (index : ℕ) (error : Json) : Orch Unit := do
  let run ← readRun
  match run.mapStates.get? forEachId with
  | none => fail (.missingMapState forEachId)
  | some state =>
    if state.shardStates.length ≤ index then fail .indexOutOfRange
    else do
      modifyRun (adjustMap forEachId (fun state => state.setShard index .failed))
      emitEvent "step.failed" (some forEachId) "engine"
        (some (Json.ofFields [("shard",.ofNat index),("error",error)]))
      modifyRun (fun run => run.setState forEachId .failed)
      sync env
      syncNode env workflow forEachId

def reportedOutput (result : ThunkExecutionResult) : Orch Json :=
  match result.result with
  | some value => pure value
  | none =>
    match result.resultObjId with
    | none => pure .null
    | some id => do
      let stored ← getJson env id
      match stored with
      | some value => return value
      | none => fail (.objectStore ("missing result object " ++ quoted id.text))

def resultAddress (result : ThunkExecutionResult) (output : Json) : Orch ObjectId :=
  match result.resultObjId with
  | some id => pure id
  | none => putJson env "workflow_result" output

/-- Keep the reported result of an idempotent node, under the input the node has by now. -/
def keepReported (outputId : ObjectId) (output metrics : Json) :
    Orch Unit :=
  if isIdempotent compiled then do
    let run ← readRun
    let resolvedInput ← lift (resolveApplyInput run compiled)
    putJsonWithId env (cacheKey compiled resolvedInput) (cacheEntry outputId output metrics)
  else pure ()

def completeReported (result : ThunkExecutionResult)
    (output : Json) (outputId : ObjectId) : Orch Unit := do
  modifyRun (fun run => {(run.setState nodeId .completed).setOutput nodeId output with
    metrics := run.metrics.insert nodeId result.metrics})
  keepReported env compiled outputId output result.metrics
  completeApply env workflow nodeId (Json.ofFields [("result_obj_id",.string outputId.text)])

def acceptResult (pending : PendingThunk)
    (result : ThunkExecutionResult) : Orch Unit := do
  let output ← reportedOutput env result
  let outputId ← resultAddress env result output
  update (fun w => {w with reported := w.reported ++ [(result.thunkObjId,output)]})
  match pending.shardIndex with
  | some index => handleShardCompleted env workflow pending.nodeId index output
  | none => completeReported env workflow compiled pending.nodeId result output outputId

def rejectResult (pending : PendingThunk)
    (result : ThunkExecutionResult) : Orch Unit :=
  match pending.shardIndex with
  | some index => handleShardFailed env workflow pending.nodeId index (.ofOption result.error)
  | none => do
    let run ← readRun
    recordFailure pending.nodeId (retryPolicy compiled)
      ((run.nodeAttempts.get? pending.nodeId).getD 1) (decide (result.status = .failed))
      (.ofOption result.error)
    sync env

def keepThunk (pending : PendingThunk) (result : ThunkExecutionResult) (eventType : String) :
    Orch Unit := do
  modifyRun (fun run => run.addThunk pending)
  emitEvent eventType (some pending.nodeId) "engine" (some (Json.ofFields
    [("task_id",.string result.taskId),("status",.string result.status.asStr)]))

def applyResult (pending : PendingThunk)
    (result : ThunkExecutionResult) : Orch Unit :=
  match result.status with
  | .waiting => keepThunk pending result "step.waiting_dispatch"
  | .dispatched => keepThunk pending result "step.dispatched"
  | .success => acceptResult env workflow compiled pending result
  | .failed | .cancelled => rejectResult env workflow compiled pending result

def handleThunkResult (result : ThunkExecutionResult) : Orch Unit := do
  let run ← readRun
  match run.pendingThunks.find? result.thunkObjId with
  | none => fail (.missingPendingThunk result.thunkObjId)
  | some pending => do
    modifyRun (fun run => run.removeThunk result.thunkObjId)
    match workflow.nodes.get? pending.nodeId with
    | none => fail (.nodeNotFound pending.nodeId)
    | some compiled => do
      applyResult env workflow compiled pending result
      settle env workflow

def decideNode (decision : Json) : Orch Unit := do
  modifyRun (fun run => ((run.setOutput nodeId decision).setState nodeId .completed).stopWaiting
    nodeId)
  activateSuccessors workflow nodeId

def approve : Orch Unit := do
  let run ← readRun
  lift (ensureWaitingHuman run action.nodeId)
  let subject ← lift (subjectForNode run compiled)
  decideNode workflow action.nodeId (Json.ofFields
    [("decision",.string "approved"),("final_subject",subject)])

def modify (action : HumanAction) : Orch Unit := do
  let run ← readRun
  lift (ensureWaitingHuman run action.nodeId)
  match action.payload.bind (fun payload => payload.get? "modified_subject") with
  | none => fail (.invalidHumanAction action.nodeId "modify")
  | some modified => decideNode workflow action.nodeId (Json.ofFields
      [("decision",.string "approved"),("final_subject",modified)])

def reject : Orch Unit := do
  let run ← readRun
  lift (ensureWaitingHuman run action.nodeId)
  decideNode workflow action.nodeId (Json.ofFields [("decision",.string "rejected"),
    ("final_subject",.null),
    ("feedback",(action.payload.bind (fun payload => payload.get? "feedback")).getD (.string ""))])

/-- Make a node run again: it is pending and has no output. -/
def resetNode (nodeId : String) : WorkflowRun :=
  {(run.setState nodeId .pending).stopWaiting nodeId with
    nodeOutputs := run.nodeOutputs.erase nodeId}

def retry (action : HumanAction) : Orch Unit := do
  let run ← readRun
  if run.stateOf action.nodeId = .waitingHuman ∨ run.stateOf action.nodeId = .failed then
    modifyRun (fun run => resetNode run action.nodeId)
  else fail (.invalidHumanAction action.nodeId "retry")

def skip : Orch Unit := do
  if compiled.skippable then do
    modifyRun (fun run => ((run.setState action.nodeId .skipped).setOutput action.nodeId
      .null).stopWaiting action.nodeId)
    activateSuccessors workflow action.nodeId
    emitEvent "step.skipped" (some action.nodeId) action.actor none
  else fail (.nodeNotSkippable action.nodeId)

def abortRun : WorkflowRun :=
  {run with
    nodeStates := run.nodeStates.mapValues (fun _ state => if state.live then .aborted else state)
    status := .aborted}

def abort : Orch Unit := do
  modifyRun abortRun
  emitEvent "run.aborted" none action.actor none

/-- A node that has taken effect and cannot be taken back. -/
def isBarrier (nodeId : String) : Bool :=
  (workflow.nodes.get? nodeId).any (fun node => !node.idempotent) &&
    decide (run.nodeStates.get? nodeId = some .completed)

def rollback : Orch Unit := do
  let run ← readRun
  match (workflow.graph.downstreamFrom action.nodeId).find? (isBarrier workflow run) with
  | some nodeId => fail (.rollbackBlocked nodeId)
  | none =>
    modifyRun (fun run => ((workflow.graph.downstreamFrom action.nodeId ++ [action.nodeId]).foldl
      resetNode run).activate [action.nodeId])

def applyHumanAction : Orch Unit :=
  match action.action with
  | .approve => approve workflow compiled action
  | .modify => modify workflow action
  | .reject => reject workflow action
  | .retry => retry action
  | .skip => skip workflow compiled action
  | .abort => abort action
  | .rollback => rollback workflow action

def touchedNodes : List String :=
  match action.action with
  | .rollback => workflow.graph.downstreamFrom action.nodeId
  | .abort => (run.nodeStates.entries.filter (fun entry => entry.2 = .aborted)).map Prod.fst
  | _ => []

def handleHumanAction : Orch Unit := do
  match workflow.nodes.get? action.nodeId with
  | none => fail (.nodeNotFound action.nodeId)
  | some compiled => do
    applyHumanAction workflow compiled action
    emitEvent "human.action" (some action.nodeId) action.actor (some (Json.ofFields
      [("action",.string action.action.asStr),("payload",action.payload.getD .null)]))
    let run ← readRun
    visit (syncNode env workflow) (action.nodeId :: touchedNodes workflow run action)
    settle env workflow

def withdrawThunks : Orch Unit := do
  let run ← readRun
  cancelThunks ((run.thunksOf nodeId).map PendingThunk.thunkObjId)
  modifyRun (fun run => run.dropThunks nodeId)

def acceptsOutput : NodeRunState → Bool
  | .running | .waitingHuman | .failed | .pending => true
  | _ => false

def submitStepOutput (nodeId actor : String) (output : Json) : Orch Unit := do
  match workflow.nodes.get? nodeId with
  | none => fail (.nodeNotFound nodeId)
  | some _ => do
    let run ← readRun
    if acceptsOutput (run.stateOf nodeId) then do
      withdrawThunks nodeId
      modifyRun (fun run => ((run.setState nodeId .completed).setOutput nodeId output).stopWaiting
        nodeId)
      activateSuccessors workflow nodeId
      emitEvent "step.completed" (some nodeId) actor
        (some (Json.ofFields [("source",.string "submit_step_output")]))
      notifyParBranchCompleted env workflow nodeId
      sync env
      settle env workflow
    else fail (.invalidHumanAction nodeId "submit_output")

def reportStepProgress (nodeId actor : String) (progress : Json) : Orch Unit := do
  match workflow.nodes.get? nodeId with
  | none => fail (.nodeNotFound nodeId)
  | some _ => do
    emitEvent "step.progress" (some nodeId) actor (some progress)
    sync env

def requestHuman (nodeId actor : String) (prompt : Option String) (subject : Option Json) :
    Orch Unit := do
  match workflow.nodes.get? nodeId with
  | none => fail (.nodeNotFound nodeId)
  | some _ => do
    withdrawThunks nodeId
    modifyRun (fun run => run.awaitHuman nodeId)
    storeSubject env subject
    emitEvent "step.waiting_human" (some nodeId) actor (some (Json.ofFields
      [("prompt",.ofOption prompt),("subject",subject.getD .null),("actor",.string actor)]))
    sync env
    settle env workflow

def parseActionKind : String → Option HumanActionKind
  | "approve" => some .approve
  | "modify" => some .modify
  | "reject" => some .reject
  | "retry" => some .retry
  | "skip" => some .skip
  | "abort" => some .abort
  | "rollback" => some .rollback
  | _ => none

inductive TaskRequest where
  | nothing
  | submit (nodeId actor : String) (output : Json)
  | act (action : HumanAction)
deriving DecidableEq

def readTaskData (runId : String) (data : WorkflowStepTaskData) : WorkflowResult TaskRequest :=
  let nodeId := Text.trim data.nodeId
  if nodeId = "" then .error (.serialization "task_data.request.node_id missing")
  else if data.runId ≠ "" ∧ data.runId ≠ runId then
    .error (.serialization ("task_data.request.run_id " ++ quoted data.runId ++
      " does not match run " ++ quoted runId))
  else
    match data.humanAction with
    | none => .ok .nothing
    | some action =>
      let kind := Text.trim action.kind
      let actor := action.actor.getD "human"
      if kind = "" then .error (.serialization "task_data.human_action.kind missing")
      else if kind = "submit_output" then .ok (.submit nodeId actor (action.payload.getD .null))
      else
        match parseActionKind kind with
        | some actionKind => .ok (.act ⟨nodeId,actionKind,action.payload,actor⟩)
        | none => .error (.invalidHumanAction nodeId kind)

def applyTaskData (data : WorkflowStepTaskData) : Orch Unit := do
  let run ← readRun
  let request ← lift (readTaskData run.runId data)
  match request with
  | .nothing => pure ()
  | .submit nodeId actor output => submitStepOutput env workflow nodeId actor output
  | .act action => handleHumanAction env workflow action

inductive Operation where
  | tick
  | thunkResult (result : ThunkExecutionResult)
  | humanAction (action : HumanAction)
  | submitStepOutput (nodeId actor : String) (output : Json)
  | reportStepProgress (nodeId actor : String) (progress : Json)
  | requestHuman (nodeId actor : String) (prompt : Option String) (subject : Option Json)
  | taskData (data : WorkflowStepTaskData)
deriving DecidableEq

def perform : Operation → Orch Unit
  | .tick => tick env workflow
  | .thunkResult result => handleThunkResult env workflow result
  | .humanAction action => handleHumanAction env workflow action
  | .submitStepOutput nodeId actor output => submitStepOutput env workflow nodeId actor output
  | .reportStepProgress nodeId actor progress => reportStepProgress env workflow nodeId actor progress
  | .requestHuman nodeId actor prompt subject => requestHuman env workflow nodeId actor prompt subject
  | .taskData data => applyTaskData env workflow data

def answering (call : Orch Unit) : Orch (List EventEnvelope) := do
  update (fun w => {w with events := []})
  call
  read World.events

def step (w : World) (operation : Operation) : WorkflowResult (List EventEnvelope) × World :=
  answering (perform env workflow operation) w

def newRun (runId : String) (metrics : OrderedMap String Json) : WorkflowRun where
  runId := runId
  workflowId := workflow.workflowId
  workflowName := workflow.workflowName
  planVersion := 1
  status := .created
  nodeStates := workflow.nodes.mapValues (fun _ _ => .pending)
  nodeOutputs := .empty
  nodeAttempts := .empty
  branchIterations := .empty
  pendingThunks := .empty
  activatedNodes := OrderedSet.addAll .empty workflow.graph.startNodes
  metrics := metrics
  humanWaitingNodes := .empty
  mapStates := .empty
  parStates := .empty
  seq := 0

def createRun (runId : String) (metrics : OrderedMap String Json) : Orch (List EventEnvelope) :=
  answering (do
    modifyRun (fun _ => newRun workflow runId metrics)
    emitEvent "run.created" none "engine" none
    sync env)

end
end BuckyOS.Workflow
