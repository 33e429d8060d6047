import BuckyOS.TaskManager.Acl

/-! The calls of the task manager. Each first reads the store and makes a plan from what it saw:
an answer, or a write that is then one transaction of its own. -/
namespace BuckyOS.TaskManager
inductive CreateTaskExecutor where
  | selfApp (appInstanceId : Option String)
  | humanSet (assignees : List String)
deriving DecidableEq

structure CreateTaskReq where
  name : String
  schemaId : String
  schemaVersion : Option ℕ := none
  input : Json
  executor : CreateTaskExecutor
  parentId : Option TaskId := none
  childControlPolicy : Option ChildControlPolicy := none
  policyPreset : Option String := none
  permissionBoundary : Bool := false
  idempotencyKey : String
  retryOf : Option TaskId := none
  supersedes : Option TaskId := none
  message : Option String := none
deriving DecidableEq

structure CreateDelegatedTaskReq where
  name : String
  schemaId : String
  schemaVersion : Option ℕ := none
  input : Json
  creator : ActorRef
  runnerAppInstanceId : Option String := none
  parentId : Option TaskId := none
  childControlPolicy : Option ChildControlPolicy := none
  policyPreset : Option String := none
  permissionBoundary : Bool := false
  idempotencyKey : String
  retryOf : Option TaskId := none
  supersedes : Option TaskId := none
  message : Option String := none
deriving DecidableEq

structure CreatePromisedTaskReq where
  name : String
  schemaId : String
  schemaVersion : Option ℕ := none
  input : Json
  creator : ActorRef
  expectedInputDigest : Option String := none
  originRef : Option TaskOriginRef := none
  parentId : Option TaskId := none
  childControlPolicy : Option ChildControlPolicy := none
  policyPreset : Option String := none
  permissionBoundary : Bool := false
  idempotencyKey : String
  waitReason : Option TaskWaitReason := none
  message : Option String := none
deriving DecidableEq

structure RequestControlReq where
  taskId : TaskId
  action : TaskControlAction
  requestId : String
  recursive : Bool := false
  expectedRevision : Option ℕ := none
deriving DecidableEq

structure RequestDelegatedControlReq where
  taskId : TaskId
  controller : ActorRef
  action : TaskControlAction
  requestId : String
  expectedRevision : Option ℕ := none
deriving DecidableEq

/-- What a runner sends along with every write: the instance and the epoch it thinks are bound. -/
structure RunnerWriteEnvelope where
  taskId : TaskId
  appInstanceId : Option String := none
  runnerEpoch : ℕ
  expectedRevision : ℕ
deriving DecidableEq

structure CommitResultReq where
  taskId : TaskId
  result : Json
  appInstanceId : Option String := none
  runnerEpoch : Option ℕ := none
  expectedRevision : ℕ
deriving DecidableEq

structure BindAppExecutorReq where
  taskId : TaskId
  targetId : Option String := none
  appId : String
  appInstanceId : String
  deliveryId : Option String := none
  expectedRevision : ℕ
deriving DecidableEq

structure ReleaseAppExecutorReq where
  taskId : TaskId
  expectedInstanceId : String
  expectedRunnerEpoch : ℕ
  reason : TaskWaitReason
  expectedRevision : ℕ
deriving DecidableEq

inductive TaskRequest where
  | createTask (req : CreateTaskReq)
  | createDelegatedTask (req : CreateDelegatedTaskReq)
  | createPromisedTask (req : CreatePromisedTaskReq)
  | getTask (taskId : TaskId)
  | listTasks (req : ListTasksReq)
  | getTaskTree (rootId : TaskId) (cursor : Option String) (limit : Option ℕ)
  | getSubtasks (taskId : TaskId) (cursor : Option String) (limit : Option ℕ)
  | archiveTask (taskId : TaskId) (expectedRevision : ℕ)
  | requestControl (req : RequestControlReq)
  | requestDelegatedControl (req : RequestDelegatedControlReq)
  | updateAssignees (taskId : TaskId) (add remove : List String) (expectedRevision : ℕ)
  | grantTaskAccess (taskId : TaskId) (grant : TaskAclGrantSpec) (expectedRevision : ℕ)
  | revokeTaskAccess (taskId : TaskId) (grantId : String) (expectedRevision : ℕ)
  | listTaskAccess (taskId : TaskId)
  | reportStarted (envelope : RunnerWriteEnvelope)
  | reportProgress (envelope : RunnerWriteEnvelope) (progress : Option Json)
      (message : Option String)
  | reportWaiting (envelope : RunnerWriteEnvelope) (reason : TaskWaitReason)
  | reportRunning (envelope : RunnerWriteEnvelope)
  | updateControlProfile (envelope : RunnerWriteEnvelope) (profile : TaskControlProfile)
  | ackControl (envelope : RunnerWriteEnvelope) (requestId : String) (applied : Bool)
      (rejectReason : Option String)
  | commitResult (req : CommitResultReq)
  | failTask (envelope : RunnerWriteEnvelope) (error : TaskError)
  | setPromiseWait (taskId : TaskId) (waitReason : TaskWaitReason) (expectedRevision : ℕ)
  | bindAppExecutor (req : BindAppExecutorReq)
  | releaseAppExecutor (req : ReleaseAppExecutorReq)
  | finishPromiseFailure (taskId : TaskId) (error : TaskError) (expectedRevision : ℕ)
  | cancelPromisedTask (taskId : TaskId) (expectedRevision : ℕ)
  | registerTaskSchema (definition : TaskSchemaDefinition)
  | getTaskSchema (schemaId : String) (schemaVersion : Option ℕ)
  | listTaskSchemas (userCreatableOnly includeDisabled : Bool)
  | setTaskSchemaEnabled (schemaId : String) (schemaVersion : ℕ) (enabled : Bool)
  | listTaskEvents (taskId rootId afterEventId : Option String) (limit : Option ℕ)
  | addTaskNote (taskId : TaskId) (noteType : Option String) (content : String)
      (data : Option Json)
  | listTaskNotes (taskId : TaskId)
deriving DecidableEq

structure BatchControlResult where
  requested : List TaskId := []
  skippedByPolicy : List TaskId := []
  denied : List TaskId := []
  alreadyTerminal : List TaskId := []
deriving DecidableEq

inductive NodeVerdict where
  | requested
  | skippedByPolicy
  | denied
  | alreadyTerminal
deriving DecidableEq

def BatchControlResult.push (result : BatchControlResult) (taskId : TaskId) :
    NodeVerdict → BatchControlResult
  | .requested => {result with requested := result.requested ++ [taskId]}
  | .skippedByPolicy => {result with skippedByPolicy := result.skippedByPolicy ++ [taskId]}
  | .denied => {result with denied := result.denied ++ [taskId]}
  | .alreadyTerminal => {result with alreadyTerminal := result.alreadyTerminal ++ [taskId]}

inductive TaskResponse where
  | task (task : Task)
  | page (tasks : List TaskSummary) (nextCursor : Option String)
  | controlled (task : Task)
  | batch (result : BatchControlResult)
  | grants (grants : List TaskAclGrant)
  | schema (schema : TaskSchemaDefinition)
  | schemas (schemas : List TaskSchemaDefinition)
  | events (events : List TaskEvent) (nextCursor : Option String)
  | note (note : TaskNote)
  | notes (notes : List TaskNote)
deriving DecidableEq

/-- A recursive request under way: the tasks still to come and what became of the others. -/
structure Batch where
  rootId : TaskId
  action : TaskControlAction
  requestId : String
  rest : List Task
  result : BatchControlResult := {}
deriving DecidableEq

inductive TaskPlan where
  | answer (response : TaskResponse)
  | write (write : TaskWrite)
  | control (write : TaskWrite)
  | recurse (batch : Batch)
  | create (args : CreateTaskArgs)
  | assign (taskId : TaskId) (actor : ActorRef) (add remove : List String) (expectedRevision : ℕ)
  | grant (taskId : TaskId) (actor : ActorRef) (spec : TaskAclGrantSpec) (expectedRevision : ℕ)
  | revoke (taskId : TaskId) (actor : ActorRef) (grantId : String) (expectedRevision : ℕ)
  | registerSchema (schema : TaskSchemaDefinition)
  | setSchemaEnabled (schemaId : String) (schemaVersion : ℕ) (enabled : Bool)
  | addNote (note : TaskNote)
deriving DecidableEq

structure Prepared where
  task : Option Task := none
  plan : TaskPlan
deriving DecidableEq

/-- A control request is answered from the task as it is, or it is written. -/
inductive ControlStep where
  | replay (task : Task)
  | write (write : TaskWrite)
deriving DecidableEq

def ControlStep.plan : ControlStep → TaskPlan
  | .replay task => .answer (.controlled task)
  | .write step => .control step

section Checks
variable (env : TaskEnv) (s : TaskStore) (ctx : RequestContext)

def requireZoneTrusted (what : String) : Except RpcError Unit :=
  if ctx.zoneTrusted then .ok ()
  else .error (.task .permissionDenied (what ++ " requires a zone-trusted service identity"))

def loadTask (taskId : TaskId) : Except RpcError Task :=
  match s.getTask taskId with
  | some task => .ok task
  | none => .error (.task .notFound taskId)

def loadVisible (taskId : TaskId) : Except RpcError (Task × TaskPermission) := do
  let task ← loadTask s taskId
  let permission ← computePermission env s ctx.principal task
  if permission.visible then return (task,permission)
  else .error (.task .notFound taskId)

def requireAction (taskId : TaskId) (action : TaskAction) :
    Except RpcError (Task × TaskPermission) := do
  let (task,permission) ← loadVisible env s ctx taskId
  if permission.allows action then return (task,permission)
  else .error (.task .permissionDenied ("missing " ++ action.text ++ " on task " ++ taskId))

def resolveSchema (schemaId : String) (schemaVersion : Option ℕ) (input : Json)
    (executorKind : TaskExecutorKind) : Except RpcError TaskSchemaDefinition := do
  let schema ← s.getSchema schemaId schemaVersion
  if !schema.enabled then
    .error (.task .schemaNotFound ("schema " ++ schemaId ++ " is disabled"))
  else if executorKind ∉ schema.allowedExecutorKinds then
    .error (.task .inputSchemaMismatch
      ("schema " ++ schemaId ++ " does not allow executor kind " ++ executorKind.text))
  else
    match env.schemaViolation schema.inputSchema input with
    | some violation => .error (.task .inputSchemaMismatch violation)
    | none => return schema

def verifyAppRunnerWrite (task : Task) (envelope : RunnerWriteEnvelope) : Except RpcError Unit :=
  match task.executor with
  | .app _ appId appInstanceId =>
    if appId ≠ ctx.appId then
      .error (.task .permissionDenied
        ("caller app " ++ ctx.appId ++ " is not the bound runner " ++ appId))
    else
      match appInstanceId with
      | some bound =>
        if envelope.appInstanceId ≠ some bound then
          .error (.task .staleRunnerEpoch ("instance " ++
            debugOption (envelope.appInstanceId.map Text.debugText) ++ " is not the bound instance " ++
              bound))
        else verifyEpoch
      | none => verifyEpoch
  | _ => .error (.task .invalidPhase "task has no App executor")
where
  verifyEpoch : Except RpcError Unit :=
    if envelope.runnerEpoch ≠ task.runnerEpoch then
      .error (.task .staleRunnerEpoch ("runner epoch " ++ toString envelope.runnerEpoch ++
        " != current " ++ toString task.runnerEpoch))
    else if task.phase = .terminal then
      .error (.task .alreadyCompleted "task already terminal")
    else .ok ()

def loadRunnerTask (envelope : RunnerWriteEnvelope) : Except RpcError Task := do
  let task ← loadTask s envelope.taskId
  verifyAppRunnerWrite ctx task envelope
  return task

end Checks

section Control
variable (env : TaskEnv) (s : TaskStore) (ctx : RequestContext) (now : ℕ)

def cancelDirect (task : Task) (expectedRevision : Option ℕ) (mode : String) : TaskWrite where
  taskId := task.taskId
  actor := ctx.actorRef
  eventType := .taskCanceled
  payload := .object [("cancel_mode",.string "interrupt"),("path",.string mode)]
  expectedRevision := expectedRevision
  change := .cancelDirect ctx.actorRef

variable (batch : Batch) (node : Task) (task : Task)

def checkAvailable : TaskControlAction → Except RpcError Unit
  | .pause =>
    if task.controlProfile.pause = .available then .ok ()
    else .error (.task .controlNotAvailable "runner does not currently support pause")
  | .resume =>
    if task.phase ≠ .paused then .error (.task .invalidPhase "resume requires a Paused task")
    else if task.controlProfile.resume = .available then .ok ()
    else .error (.task .controlNotAvailable "runner does not currently support resume")
  | .cancel =>
    if task.controlProfile.cancel.isUnavailable ∧ task.executor.kind = .app then
      .error (.task .controlNotAvailable "runner does not currently support cancel")
    else .ok ()

def controlEvent (pending : Option TaskControlRequest) (action : TaskControlAction)
    (requestId : String) : Except RpcError (TaskEventType × Json) :=
  match pending with
  | some pending =>
    if pending.action = .cancel then
      .error (.task .controlAlreadyPending "a cancel request is already pending")
    else if action = .cancel then
      .ok (.controlSuperseded,.object [("action",.string action.text),
        ("request_id",.string requestId),("superseded_action",.string pending.action.text),
        ("superseded_request_id",.string pending.requestId)])
    else .error (.task .controlAlreadyPending
      ("pending " ++ pending.action.text ++ " request " ++ pending.requestId))
  | none => .ok (.controlRequested,.object [("action",.string action.text),
      ("request_id",.string requestId)])

/-- How a cancel closes a task that has no runner to acknowledge it. -/
def directCancelMode : Option String :=
  match task.executor with
  | .humanSet => some "human_set"
  | .unbound => if task.originRef.isNone then some "unbound" else none
  | .app .. => none

def requestControlSingle (action : TaskControlAction) (requestId : String)
    (expectedRevision : Option ℕ) : Except RpcError ControlStep :=
  if task.pendingControl.any (fun pending => pending.requestId = requestId) then
    .ok (.replay task)
  else if task.phase = .terminal then
    .error (.task .alreadyCompleted "task already terminal")
  else
    match if action = .cancel then directCancelMode task else none with
    | some mode => .ok (.write (cancelDirect ctx task expectedRevision mode))
    | none => do
      checkAvailable task action
      let (eventType,payload) ← controlEvent task.pendingControl action requestId
      return .write {
        taskId := task.taskId
        actor := ctx.actorRef
        eventType := eventType
        payload := payload
        expectedRevision := expectedRevision
        change := .requestControl {
          requestId := requestId
          action := action
          requestedBy := ctx.actorRef
          requestedAt := now}}

def verdictOf (error : RpcError) : Option NodeVerdict :=
  match error.code with
  | some .alreadyCompleted => some .alreadyTerminal
  | some .controlNotAvailable | some .controlAlreadyPending
  | some .invalidPhase => some .skippedByPolicy
  | some .permissionDenied => some .denied
  | _ => none

/-- What a recursive request does at a task: book it, or write to it. -/
inductive NodePlan where
  | settled (verdict : NodeVerdict)
  | write (write : TaskWrite)
deriving DecidableEq

def Batch.nodeRequestId : String :=
  if node.taskId = batch.rootId then batch.requestId
  else batch.requestId ++ ":" ++ node.taskId

def Batch.prepareNode : Except RpcError NodePlan :=
  if node.taskId ≠ batch.rootId ∧ !node.childControlPolicy.follows batch.action then
    .ok (.settled .skippedByPolicy)
  else if node.phase = .terminal then .ok (.settled .alreadyTerminal)
  else do
    let permission ← computePermission env s ctx.principal node
    if !permission.allows .control then return .settled .denied
    else
      match requestControlSingle ctx now node batch.action (batch.nodeRequestId node) none with
      | .ok (.replay _) => return .settled .requested
      | .ok (.write write) => return .write write
      | .error error =>
        match verdictOf error with
        | some verdict => return .settled verdict
        | none => .error error

def Batch.book (rest : List Task) (verdict : NodeVerdict) : Batch :=
  {batch with rest := rest, result := batch.result.push node.taskId verdict}

def maxRecursiveControlNodes : ℕ := 512

def handleRequestControl (req : RequestControlReq) : Except RpcError Prepared :=
  if Text.trim req.requestId = "" then .error (.parseRequest "request_id is required")
  else do
    let (task,_) ← requireAction env s ctx req.taskId .control
    if !req.recursive then
      let step ← requestControlSingle ctx now task req.action req.requestId req.expectedRevision
      return ⟨some task,step.plan⟩
    else
      let subtree ← s.collectSubtree task maxRecursiveControlNodes
      return ⟨some task,.recurse {
        rootId := task.taskId
        action := req.action
        requestId := req.requestId
        rest := subtree}⟩

def handleRequestDelegatedControl (req : RequestDelegatedControlReq) :
    Except RpcError Prepared := do
  requireZoneTrusted ctx "request_delegated_control"
  if Text.trim req.requestId = "" ∨ Text.trim req.controller.userId = "" ∨
      Text.trim req.controller.appId = "" then
    .error (.parseRequest "controller and request_id are required")
  else
    let controller : RequestContext :=
      {userId := req.controller.userId, appId := req.controller.appId}
    let (task,_) ← requireAction env s controller req.taskId .control
    let step ← requestControlSingle controller now task req.action req.requestId
      req.expectedRevision
    return ⟨some task,step.plan⟩

end Control

section Creates
variable (env : TaskEnv) (s : TaskStore) (ctx : RequestContext)

def policyPresetCollaborativeTreeV1 : String := "collaborative-tree/v1"

def cleaned (texts : List String) : List String := (texts.map Text.trim).filter (fun text => text ≠ "")

/-- The executor of a plain create, its assignees, the first phase and what it waits for. -/
def initialExecutor (executor : CreateTaskExecutor) :
    Except RpcError (TaskExecutor × List String × TaskPhase × Option TaskWaitReason) :=
  match executor with
  | .selfApp appInstanceId => .ok (.app none ctx.appId appInstanceId,[],.accepted,none)
  | .humanSet assignees =>
    if cleaned assignees = [] then
      .error (.parseRequest "a HumanSet task needs at least one assignee")
    else .ok (.humanSet,cleaned assignees,.waiting,some {kind := .humanInput})

def CreateTaskExecutor.instanceId : CreateTaskExecutor → Option String
  | .selfApp appInstanceId => appInstanceId
  | .humanSet _ => none

def requireParent (parentId : Option TaskId) : Except RpcError Unit :=
  match parentId with
  | none => .ok ()
  | some parentId => do
    let (_,permission) ← loadVisible env s ctx parentId
    if permission.allows .createChild then return ()
    else .error (.task .permissionDenied ("missing CreateChild on parent " ++ parentId))

def CreateTaskReq.args (req : CreateTaskReq) (ctx : RequestContext) (schema : TaskSchemaDefinition)
    (executor : TaskExecutor) (assignees : List String) (phase : TaskPhase)
    (waitReason : Option TaskWaitReason) : CreateTaskArgs where
  name := req.name
  schemaId := schema.schemaId
  schemaVersion := schema.schemaVersion
  input := req.input
  creator := {
    userId := ctx.userId
    appId := ctx.appId
    appInstanceId := req.executor.instanceId}
  idempotencyKey := req.idempotencyKey
  parentId := req.parentId
  childControlPolicy := req.childControlPolicy.getD {}
  policyPreset := req.policyPreset.getD policyPresetCollaborativeTreeV1
  permissionBoundary := req.permissionBoundary
  retryOf := req.retryOf
  supersedes := req.supersedes
  executor := executor
  assignees := assignees
  phase := phase
  waitReason := waitReason
  message := req.message

def handleCreateTask (req : CreateTaskReq) : Except RpcError Prepared :=
  if Text.trim req.name = "" then .error (.parseRequest "task name is required")
  else if Text.trim req.idempotencyKey = "" then
    .error (.parseRequest "idempotency_key is required")
  else do
    let (executor,assignees,phase,waitReason) ← initialExecutor ctx req.executor
    let schema ← resolveSchema env s req.schemaId req.schemaVersion req.input executor.kind
    requireParent env s ctx req.parentId
    return {plan := .create (req.args ctx schema executor assignees phase waitReason)}

def checkDelegated (name idempotencyKey : String) (creator : ActorRef) : Except RpcError Unit :=
  if Text.trim name = "" ∨ Text.trim idempotencyKey = "" then
    .error (.parseRequest "name and idempotency_key are required")
  else if Text.trim creator.userId = "" ∨ Text.trim creator.appId = "" then
    .error (.parseRequest "delegated creator envelope is incomplete")
  else .ok ()

def CreateDelegatedTaskReq.args (req : CreateDelegatedTaskReq) (ctx : RequestContext)
    (schema : TaskSchemaDefinition) : CreateTaskArgs where
  name := req.name
  schemaId := schema.schemaId
  schemaVersion := schema.schemaVersion
  input := req.input
  creator := req.creator
  idempotencyKey := req.idempotencyKey
  parentId := req.parentId
  childControlPolicy := req.childControlPolicy.getD {}
  policyPreset := req.policyPreset.getD policyPresetCollaborativeTreeV1
  permissionBoundary := req.permissionBoundary
  retryOf := req.retryOf
  supersedes := req.supersedes
  executor := .app none ctx.appId req.runnerAppInstanceId
  phase := .accepted
  message := req.message

def handleCreateDelegatedTask (req : CreateDelegatedTaskReq) : Except RpcError Prepared := do
  requireZoneTrusted ctx "create_delegated_task"
  checkDelegated req.name req.idempotencyKey req.creator
  let schema ← resolveSchema env s req.schemaId req.schemaVersion req.input .app
  return {plan := .create (req.args ctx schema)}

variable (req : CreatePromisedTaskReq)

def CreatePromisedTaskReq.args (schema : TaskSchemaDefinition) :
    CreateTaskArgs where
  name := req.name
  schemaId := schema.schemaId
  schemaVersion := schema.schemaVersion
  input := req.input
  creator := req.creator
  idempotencyKey := req.idempotencyKey
  originRef := req.originRef
  parentId := req.parentId
  childControlPolicy := req.childControlPolicy.getD {}
  policyPreset := req.policyPreset.getD policyPresetCollaborativeTreeV1
  permissionBoundary := req.permissionBoundary
  executor := .unbound
  phase := .promised
  waitReason := some (req.waitReason.getD {kind := .dispatch})
  message := req.message

def trustedCreatePromisedTask : Except RpcError CreateTaskArgs := do
  checkDelegated req.name req.idempotencyKey req.creator
  if ∃ expected ∈ req.expectedInputDigest, env.digest req.input ≠ expected then
    .error (.task .inputSchemaMismatch
      "input digest does not match the control plane's frozen copy")
  else
    let schema ← resolveSchema env s req.schemaId req.schemaVersion req.input .unbound
    return req.args schema

def handleCreatePromisedTask : Except RpcError Prepared := do
  requireZoneTrusted ctx "create_promised_task"
  let args ← trustedCreatePromisedTask env s req
  return {plan := .create args}

end Creates

section Reads
variable (env : TaskEnv) (s : TaskStore) (ctx : RequestContext)

variable (taskId : TaskId)

def handleGetTask : Except RpcError Prepared := do
  let (task,permission) ← loadVisible env s ctx taskId
  return ⟨some task,.answer (.task (trimTask task permission))⟩

def visibleSummaries : List Task → Except RpcError (List TaskSummary)
  | [] => .ok []
  | task :: rest => do
    let permission ← computePermission env s ctx.principal task
    let summaries ← visibleSummaries rest
    return if permission.visible then summarizeTask task :: summaries else summaries

def answerPage (page : Except RpcError (List Task × Option String)) : Except RpcError Prepared := do
  let (tasks,nextCursor) ← page
  let summaries ← visibleSummaries env s ctx tasks
  return {plan := .answer (.page summaries nextCursor)}

def handleListTasks (req : ListTasksReq) : Except RpcError Prepared :=
  answerPage env s ctx (s.listTasks req)

def handleGetTaskTree (rootId : TaskId) (cursor : Option String) (limit : Option ℕ) :
    Except RpcError Prepared :=
  answerPage env s ctx (s.listTree rootId cursor (clampLimit (limit.getD 200)))

def handleGetSubtasks (cursor : Option String) (limit : Option ℕ) :
    Except RpcError Prepared := do
  let _ ← loadVisible env s ctx taskId
  answerPage env s ctx (s.listChildren taskId cursor (clampLimit (limit.getD 100)))

def handleListTaskAccess : Except RpcError Prepared := do
  let _ ← requireAction env s ctx taskId .grant
  return {plan := .answer (.grants (s.allGrantsForTask taskId))}

def handleListTaskEvents (taskId rootId afterEventId : Option String) (limit : Option ℕ) :
    Except RpcError Prepared :=
  match taskId.or rootId with
  | none => .error (.parseRequest "task_id or root_id is required")
  | some anchor => do
    let _ ← loadVisible env s ctx anchor
    let events ← s.listEvents taskId rootId afterEventId (limit.getD 100)
    return {plan := .answer (.events events (events.getLast?.map TaskEvent.eventId))}

def handleListTaskNotes : Except RpcError Prepared := do
  let _ ← loadVisible env s ctx taskId
  return {plan := .answer (.notes (s.listTaskNotes taskId))}

def handleAddTaskNote (now : ℕ) (taskId : TaskId) (noteType : Option String) (content : String)
    (data : Option Json) : Except RpcError Prepared :=
  if Text.trim content = "" then .error (.parseRequest "note content is required")
  else do
    let (task,_) ← loadVisible env s ctx taskId
    return ⟨some task,.addNote {
      id := 0
      taskId := taskId
      noteType := (Text.trimmed noteType).getD "human"
      content := Text.trim content
      data := data.getD (.object [])
      authorUserId := ctx.userId
      authorAppId := ctx.appId
      createdAt := now
      updatedAt := now}⟩

end Reads

section Management
variable (env : TaskEnv) (s : TaskStore) (ctx : RequestContext)

variable (taskId : TaskId)

def handleArchiveTask (expectedRevision : ℕ) : Except RpcError Prepared := do
  let (task,_) ← requireAction env s ctx taskId .archive
  if task.phase ≠ .terminal then
    .error (.task .invalidPhase "only terminal tasks can be archived")
  else return ⟨some task,.write {
    taskId := taskId
    actor := ctx.actorRef
    eventType := .taskArchived
    payload := .object []
    expectedRevision := some expectedRevision
    change := .archive}⟩

def handleUpdateAssignees (add remove : List String) (expectedRevision : ℕ) :
    Except RpcError Prepared := do
  let (task,_) ← requireAction env s ctx taskId .reassign
  return ⟨some task,.assign taskId ctx.actorRef (cleaned add) (cleaned remove) expectedRevision⟩

def handleGrantTaskAccess (grant : TaskAclGrantSpec) (expectedRevision : ℕ) :
    Except RpcError Prepared := do
  let (task,_) ← requireAction env s ctx taskId .grant
  if grant.actions = [] then .error (.parseRequest "a grant needs at least one action")
  else return ⟨some task,.grant taskId ctx.actorRef grant expectedRevision⟩

def handleRevokeTaskAccess (grantId : String) (expectedRevision : ℕ) :
    Except RpcError Prepared := do
  let (task,_) ← requireAction env s ctx taskId .grant
  return ⟨some task,.revoke taskId ctx.actorRef grantId expectedRevision⟩

end Management

section Runner
variable (env : TaskEnv) (s : TaskStore) (ctx : RequestContext)

def runnerWrite (envelope : RunnerWriteEnvelope) (eventType : TaskEventType) (payload : Json)
    (change : TaskChange) : TaskPlan :=
  .write {
    taskId := envelope.taskId
    actor := ctx.actorRef
    eventType := eventType
    payload := payload
    expectedRevision := some envelope.expectedRevision
    change := change}

def handleReportStarted (envelope : RunnerWriteEnvelope) : Except RpcError Prepared := do
  let task ← loadRunnerTask s ctx envelope
  if task.phase ≠ .accepted then
    .error (.task .invalidPhase ("report_started requires Accepted, found " ++ task.phase.text))
  else return ⟨some task,runnerWrite ctx envelope .phaseChanged
    (.object [("from",.string "Accepted"),("to",.string "Running"),
      ("via",.string "report_started")]) .run⟩

def handleReportProgress (envelope : RunnerWriteEnvelope) (progress : Option Json)
    (message : Option String) : Except RpcError Prepared := do
  let task ← loadRunnerTask s ctx envelope
  return ⟨some task,runnerWrite ctx envelope .progressReported
    (.object [("message",optionalText message)]) (.reportProgress progress message)⟩

def handleReportWaiting (envelope : RunnerWriteEnvelope) (reason : TaskWaitReason) :
    Except RpcError Prepared := do
  let task ← loadRunnerTask s ctx envelope
  if task.phase ≠ .accepted ∧ task.phase ≠ .running then
    .error (.task .invalidPhase
      ("report_waiting requires Accepted/Running, found " ++ task.phase.text))
  else return ⟨some task,runnerWrite ctx envelope .waitReasonChanged
    (.object [("from",.string task.phase.text),("kind",.string reason.kind.text)])
    (.reportWaiting reason)⟩

def handleReportRunning (envelope : RunnerWriteEnvelope) : Except RpcError Prepared := do
  let task ← loadRunnerTask s ctx envelope
  if task.phase ≠ .waiting ∧ task.phase ≠ .accepted then
    .error (.task .invalidPhase
      ("report_running requires Waiting/Accepted, found " ++ task.phase.text))
  else return ⟨some task,runnerWrite ctx envelope .phaseChanged
    (.object [("from",.string task.phase.text),("to",.string "Running"),
      ("via",.string "report_running")]) .run⟩

def handleUpdateControlProfile (now : ℕ) (envelope : RunnerWriteEnvelope)
    (profile : TaskControlProfile) : Except RpcError Prepared := do
  let task ← loadRunnerTask s ctx envelope
  return ⟨some task,runnerWrite ctx envelope .controlProfileChanged (.object [])
    (.updateControlProfile {profile with updatedAt := now})⟩

def ackEvent (applied : Bool) (action : TaskControlAction) : TaskEventType :=
  if applied then if action = .cancel then .taskCanceled else .controlApplied else .controlRejected

variable (task : Task) (req : CommitResultReq)

def ackPayload (requestId : String) (applied : Bool) (action : TaskControlAction)
    (rejectReason : Option String) : Json :=
  if applied then
    .object [("action",.string action.text),
      ("cancel_mode",.string (if task.controlProfile.cancel = .safe then "safe" else "interrupt")),
      ("request_id",.string requestId)]
  else .object [("action",.string action.text),("reject_reason",optionalText rejectReason),
    ("request_id",.string requestId)]

def handleAckControl (envelope : RunnerWriteEnvelope) (requestId : String) (applied : Bool)
    (rejectReason : Option String) : Except RpcError Prepared := do
  let task ← loadRunnerTask s ctx envelope
  match task.pendingControl with
  | none => .error (.task .invalidPhase "no pending control request")
  | some pending =>
    if pending.requestId ≠ requestId then
      .error (.task .invalidPhase
        ("pending request is " ++ pending.requestId ++ ", not " ++ requestId))
    else return ⟨some task,runnerWrite ctx envelope (ackEvent applied pending.action)
      (ackPayload task requestId applied pending.action rejectReason)
      (.ackControl applied pending.action ctx.actorRef)⟩

def CommitResultReq.envelope (runnerEpoch : ℕ) : RunnerWriteEnvelope where
  taskId := req.taskId
  appInstanceId := req.appInstanceId
  runnerEpoch := runnerEpoch
  expectedRevision := req.expectedRevision

def verifyCommitter : Except RpcError Unit :=
  match task.executor with
  | .app .. =>
    match req.runnerEpoch with
    | none => .error (.parseRequest "runner_epoch is required for App runner commits")
    | some runnerEpoch => verifyAppRunnerWrite ctx task (req.envelope runnerEpoch)
  | .humanSet =>
    if ctx.userId ∉ s.activeAssignees req.taskId then
      .error (.task .permissionDenied (ctx.userId ++ " is not an active assignee"))
    else if task.phase = .terminal then
      .error (.task .alreadyCompleted "task already terminal")
    else .ok ()
  | .unbound => .error (.task .invalidPhase "an unbound task has no committer")

def handleCommitResult : Except RpcError Prepared := do
  let task ← loadTask s req.taskId
  verifyCommitter s ctx task req
  let schema ← s.getSchema task.schemaId (some task.schemaVersion)
  match env.schemaViolation schema.outputSchema req.result with
  | some violation => .error (.task .resultSchemaMismatch violation)
  | none => return ⟨some task,.write {
      taskId := req.taskId
      actor := ctx.actorRef
      eventType := .resultCommitted
      payload := .object []
      expectedRevision := some req.expectedRevision
      change := .commitResult req.result ctx.actorRef}⟩

def handleFailTask (envelope : RunnerWriteEnvelope) (error : TaskError) :
    Except RpcError Prepared := do
  let task ← loadRunnerTask s ctx envelope
  return ⟨some task,runnerWrite ctx envelope .taskFailed
    (.object [("code",.string error.code),("message",.string error.message)])
    (.failTask error ctx.actorRef)⟩

end Runner

section Trusted
variable (env : TaskEnv) (s : TaskStore) (ctx : RequestContext) (actor : ActorRef)

variable (req : ReleaseAppExecutorReq) (taskId : TaskId)

def trustedSetPromiseWait (waitReason : TaskWaitReason) (expectedRevision : ℕ) :
    TaskWrite where
  taskId := taskId
  actor := actor
  eventType := .waitReasonChanged
  payload := .object [("kind",.string waitReason.kind.text)]
  expectedRevision := some expectedRevision
  change := .setPromiseWait waitReason

def trustedBindAppExecutor (req : BindAppExecutorReq) : TaskWrite where
  taskId := req.taskId
  actor := actor
  eventType := .runnerBound
  payload := .object [("app_id",.string req.appId),("app_instance_id",.string req.appInstanceId),
    ("delivery_id",optionalText req.deliveryId),("target_id",optionalText req.targetId)]
  expectedRevision := some req.expectedRevision
  change := .bindAppExecutor req.targetId req.appId req.appInstanceId

def trustedReleaseAppExecutor : TaskWrite where
  taskId := req.taskId
  actor := actor
  eventType := .runnerReleased
  payload := .object [("instance_id",.string req.expectedInstanceId),
    ("reason",.string req.reason.kind.text)]
  expectedRevision := some req.expectedRevision
  change := .releaseAppExecutor req.expectedInstanceId req.expectedRunnerEpoch req.reason

def trustedFinishPromiseFailure (error : TaskError) (expectedRevision : ℕ) :
    TaskWrite where
  taskId := taskId
  actor := actor
  eventType := .taskFailed
  payload := .object [("code",.string error.code),("message",.string error.message),
    ("path",.string "promise")]
  expectedRevision := some expectedRevision
  change := .finishPromiseFailure error actor

def trustedCancelPromisedTask (expectedRevision : ℕ) : TaskWrite where
  taskId := taskId
  actor := actor
  eventType := .taskCanceled
  payload := .object [("cancel_mode",.string "interrupt"),("path",.string "promise")]
  expectedRevision := some expectedRevision
  change := .cancelPromisedTask actor

def handleTrusted (what : String) (write : ActorRef → TaskWrite) : Except RpcError Prepared := do
  requireZoneTrusted ctx what
  return {plan := .write (write ctx.actorRef)}

def handleReleaseAppExecutor : Except RpcError Prepared := do
  if ctx.zoneTrusted then
    return {plan := .write (trustedReleaseAppExecutor ctx.actorRef req)}
  else
    let (task,_) ← requireAction env s ctx req.taskId .reassign
    return ⟨some task,.write (trustedReleaseAppExecutor ctx.actorRef req)⟩

def handleRegisterTaskSchema (definition : TaskSchemaDefinition) : Except RpcError Prepared :=
  if Text.trim definition.schemaId = "" then .error (.parseRequest "schema_id is required")
  else if definition.allowedExecutorKinds = [] then
    .error (.parseRequest "allowed_executor_kinds must not be empty")
  else if !ctx.zoneTrusted ∧ definition.publisherAppId ≠ ctx.appId then
    .error (.task .permissionDenied "publisher_app_id must match the caller app")
  else .ok {plan := .registerSchema definition}

end Trusted

def prepare (env : TaskEnv) (s : TaskStore) (ctx : RequestContext) (now : ℕ) :
    TaskRequest → Except RpcError Prepared
  | .createTask req => handleCreateTask env s ctx req
  | .createDelegatedTask req => handleCreateDelegatedTask env s ctx req
  | .createPromisedTask req => handleCreatePromisedTask env s ctx req
  | .getTask taskId => handleGetTask env s ctx taskId
  | .listTasks req => handleListTasks env s ctx req
  | .getTaskTree rootId cursor limit => handleGetTaskTree env s ctx rootId cursor limit
  | .getSubtasks taskId cursor limit => handleGetSubtasks env s ctx taskId cursor limit
  | .archiveTask taskId revision => handleArchiveTask env s ctx taskId revision
  | .requestControl req => handleRequestControl env s ctx now req
  | .requestDelegatedControl req => handleRequestDelegatedControl env s ctx now req
  | .updateAssignees taskId add remove revision =>
    handleUpdateAssignees env s ctx taskId add remove revision
  | .grantTaskAccess taskId grant revision => handleGrantTaskAccess env s ctx taskId grant revision
  | .revokeTaskAccess taskId grantId revision =>
    handleRevokeTaskAccess env s ctx taskId grantId revision
  | .listTaskAccess taskId => handleListTaskAccess env s ctx taskId
  | .reportStarted envelope => handleReportStarted s ctx envelope
  | .reportProgress envelope progress message =>
    handleReportProgress s ctx envelope progress message
  | .reportWaiting envelope reason => handleReportWaiting s ctx envelope reason
  | .reportRunning envelope => handleReportRunning s ctx envelope
  | .updateControlProfile envelope profile =>
    handleUpdateControlProfile s ctx now envelope profile
  | .ackControl envelope requestId applied reason =>
    handleAckControl s ctx envelope requestId applied reason
  | .commitResult req => handleCommitResult env s ctx req
  | .failTask envelope error => handleFailTask s ctx envelope error
  | .setPromiseWait taskId reason revision =>
    handleTrusted ctx "set_promise_wait" (trustedSetPromiseWait · taskId reason revision)
  | .bindAppExecutor req =>
    handleTrusted ctx "bind_app_executor" (trustedBindAppExecutor · req)
  | .releaseAppExecutor req => handleReleaseAppExecutor env s ctx req
  | .finishPromiseFailure taskId error revision =>
    handleTrusted ctx "finish_promise_failure" (trustedFinishPromiseFailure · taskId error revision)
  | .cancelPromisedTask taskId revision =>
    handleTrusted ctx "cancel_promised_task" (trustedCancelPromisedTask · taskId revision)
  | .registerTaskSchema definition => handleRegisterTaskSchema ctx definition
  | .getTaskSchema schemaId version => do
    let schema ← s.getSchema schemaId version
    return {plan := .answer (.schema schema)}
  | .listTaskSchemas userCreatableOnly includeDisabled =>
    .ok {plan := .answer (.schemas (s.listSchemas userCreatableOnly includeDisabled))}
  | .setTaskSchemaEnabled schemaId version enabled => do
    requireZoneTrusted ctx "set_task_schema_enabled"
    return {plan := .setSchemaEnabled schemaId version enabled}
  | .listTaskEvents taskId rootId after limit =>
    handleListTaskEvents env s ctx taskId rootId after limit
  | .addTaskNote taskId noteType content data =>
    handleAddTaskNote env s ctx now taskId noteType content data
  | .listTaskNotes taskId => handleListTaskNotes env s ctx taskId

section Writes
variable (env : TaskEnv) (ctx : RequestContext)

def answered {α : Type} (s : TaskStore) (respond : α → TaskResponse)
    (outcome : Except RpcError (α × TaskStore)) : Except RpcError TaskResponse × TaskStore :=
  match outcome with
  | .ok (a,s') => (.ok (respond a),s')
  | .error error => (.error error,s)

/-- A recursive request that nothing else comes between: each task is read, then written. -/
def controlNodes (stamps : ℕ → Stamp) :
    ℕ → List Task → Batch → TaskStore → Except RpcError TaskResponse × TaskStore
  | _, [], batch, s => (.ok (.batch batch.result),s)
  | k, node :: rest, batch, s =>
    match batch.prepareNode env s ctx (stamps k).now node with
    | .error error => (.error error,s)
    | .ok (.settled verdict) => controlNodes stamps (k + 1) rest (batch.book node rest verdict) s
    | .ok (.write write) =>
      match s.mutateTask (stamps k) write with
      | .ok (_,s') => controlNodes stamps (k + 1) rest (batch.book node rest .requested) s'
      | .error error =>
        match verdictOf error with
        | some verdict => controlNodes stamps (k + 1) rest (batch.book node rest verdict) s
        | none => (.error error,s)

def carryOut (s : TaskStore) (stamps : ℕ → Stamp) :
    TaskPlan → Except RpcError TaskResponse × TaskStore
  | .answer response => (.ok response,s)
  | .write write => answered s (fun outcome => .task outcome.task) (s.mutateTask (stamps 0) write)
  | .control write =>
    answered s (fun outcome => .controlled outcome.task) (s.mutateTask (stamps 0) write)
  | .recurse batch => controlNodes env ctx stamps 0 batch.rest batch s
  | .create args => answered s .task (s.createTask (stamps 0) env args)
  | .assign taskId actor add remove revision =>
    answered s (fun outcome => .task outcome.task)
      (s.updateAssignees (stamps 0) taskId actor add remove revision)
  | .grant taskId actor spec revision =>
    answered s (fun outcome => .task outcome.task)
      (s.insertGrant (stamps 0) taskId actor spec revision)
  | .revoke taskId actor grantId revision =>
    answered s (fun outcome => .task outcome.task)
      (s.revokeGrant (stamps 0) taskId actor grantId revision)
  | .registerSchema schema => answered s .schema (s.registerSchema (stamps 0) schema)
  | .setSchemaEnabled schemaId version enabled =>
    answered s .schema (s.setSchemaEnabled schemaId version enabled)
  | .addNote note => (.ok (.note (s.addTaskNote note).1),(s.addTaskNote note).2)

def handle (s : TaskStore) (stamps : ℕ → Stamp) (request : TaskRequest) :
    Except RpcError TaskResponse × TaskStore :=
  match prepare env s ctx (stamps 0).now request with
  | .error error => (.error error,s)
  | .ok prepared => carryOut env ctx s stamps prepared.plan

end Writes
end BuckyOS.TaskManager
