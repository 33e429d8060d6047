import BuckyOS.Lib.Effects
import BuckyOS.TaskManager.Types

/-! The task store: the rows of its tables, the queries on them, and the writes, each one
transaction that checks the revision of a task, changes its row and appends one event. -/
namespace BuckyOS.TaskManager
/-- What the functions of the service take from elsewhere: the digest of an input, what is wrong
with a value under a schema, and whether the zone lets a user with an app view the tasks of an
owner. -/
structure TaskEnv where
  digest : Json → String
  schemaViolation : Json → Json → Option String
  mayView : String → String → Bool → String → Bool

structure Stamp where
  now : ℕ
  newId : String
  seq : ℕ
  suffix : UInt16
deriving DecidableEq

def Stamp.draw (stamp : Stamp) : EventDraw := ⟨stamp.now,stamp.seq,stamp.suffix⟩

/-- The tables. The assignees of a task stand under its id, each with whether the assignment is
active. -/
structure TaskStore where
  tasks : OrderedMap TaskId Task := .empty
  assignees : OrderedMap TaskId (OrderedMap String Bool) := .empty
  grants : List TaskAclGrant := []
  events : List TaskEvent := []
  notes : List TaskNote := []
  lastNote : ℕ := 0
  schemas : List TaskSchemaDefinition := []

structure MutationOutcome where
  task : Task
  event : TaskEvent
deriving DecidableEq

structure CreateTaskArgs where
  name : String
  schemaId : String
  schemaVersion : ℕ
  input : Json
  creator : ActorRef
  idempotencyKey : String
  originRef : Option TaskOriginRef := none
  parentId : Option TaskId := none
  childControlPolicy : ChildControlPolicy := {}
  policyPreset : String
  permissionBoundary : Bool := false
  retryOf : Option TaskId := none
  supersedes : Option TaskId := none
  executor : TaskExecutor
  assignees : List String := []
  phase : TaskPhase
  waitReason : Option TaskWaitReason := none
  message : Option String := none
deriving DecidableEq

structure ListTasksReq where
  creatorUserId : Option String := none
  creatorAppId : Option String := none
  schemaId : Option String := none
  phase : Option TaskPhase := none
  rootId : Option TaskId := none
  executorKind : Option TaskExecutorKind := none
  runnerAppId : Option String := none
  runnerTargetId : Option String := none
  createdAfter : Option ℕ := none
  createdBefore : Option ℕ := none
  includeArchived : Bool := false
  cursor : Option String := none
  limit : Option ℕ := none
deriving DecidableEq

section Pages
def Task.key (task : Task) : ℕ ×ₗ TaskId := toLex (task.createdAt,task.taskId)

def makeCursor (createdAt : ℕ) (taskId : TaskId) : String := toString createdAt ++ ":" ++ taskId

def parseCursor (cursor : String) : Except RpcError (ℤ × TaskId) :=
  match Text.splitOnce ':' cursor.toList with
  | none => .error (.parseRequest ("invalid cursor: " ++ cursor))
  | some (createdAt,taskId) =>
    match (Text.parseSigned createdAt).filter (fun n => -2 ^ 63 ≤ n ∧ n < 2 ^ 63) with
    | none => .error (.parseRequest ("invalid cursor: " ++ cursor))
    | some createdAt => .ok (createdAt,String.ofList taskId)

def afterCursor (cursor : ℤ × TaskId) (task : Task) : Bool :=
  cursor.1 < task.createdAt ∨ task.createdAt = cursor.1 ∧ cursor.2 < task.taskId

def clampLimit (limit : ℕ) : ℕ := max 1 (min limit 500)

/-- No more rows than the limit; where more are left, the cursor to go on from. -/
def page (limit : ℕ) (rows : List Task) : List Task × Option String :=
  let fetched := rows.take (limit + 1)
  if limit < fetched.length then
    let tasks := fetched.take limit
    (tasks,tasks.getLast?.map (fun task => makeCursor task.createdAt task.taskId))
  else (fetched,none)

def admits {α : Type} [DecidableEq α] (filter : Option α) (value : α) : Bool :=
  match filter with
  | some wanted => decide (value = wanted)
  | none => true

def ListTasksReq.admits (req : ListTasksReq) (task : Task) : Bool :=
  TaskManager.admits req.creatorUserId task.creator.userId &&
  TaskManager.admits req.creatorAppId task.creator.appId &&
  TaskManager.admits req.schemaId task.schemaId &&
  TaskManager.admits req.phase task.phase &&
  TaskManager.admits req.rootId task.rootId &&
  TaskManager.admits req.executorKind task.executor.kind &&
  TaskManager.admits (req.runnerAppId.map some) task.executor.runnerAppId &&
  TaskManager.admits (req.runnerTargetId.map some) task.executor.runnerTargetId &&
  decide (∀ after ∈ req.createdAfter, Int.bmod after (2 ^ 64) ≤ task.createdAt) &&
  decide (∀ before ∈ req.createdBefore, task.createdAt < Int.bmod before (2 ^ 64)) &&
  (req.includeArchived || task.archivedAt.isNone)

end Pages

namespace TaskStore
section Reads
variable (s : TaskStore)

variable (rootId : TaskId) (task : Task) (taskId : TaskId)

def activeAssignees : List String :=
  match s.assignees.get? taskId with
  | some users => (users.entries.filter (fun entry => entry.2)).map Prod.fst
  | none => []

def attachAssignees : Task :=
  if task.executor.kind = .humanSet then
    {task with assignees := some (s.activeAssignees task.taskId)}
  else task

def getTask : Option Task := (s.tasks.get? taskId).map s.attachAssignees

/-- The tasks from one up to its root, each with its parent and whether it is a boundary. -/
def chainFrom : ℕ → Option TaskId → Except RpcError (List (TaskId × Option TaskId × Bool))
  | _, none => .ok []
  | 0, some _ => .error (.reason "task parent chain too deep or cyclic")
  | fuel + 1, some current =>
    match s.tasks.get? current with
    | none => .ok []
    | some row => do
      let rest ← chainFrom fuel row.parentId
      return (current,row.parentId,row.permissionBoundary) :: rest

def getTaskChain : Except RpcError (List (TaskId × Option TaskId × Bool)) :=
  s.chainFrom 129 (some taskId)

def activeGrantsFor (taskIds : List TaskId) : List TaskAclGrant :=
  taskIds.flatMap (fun taskId =>
    s.grants.filter (fun grant => grant.taskId = taskId ∧ grant.revokedAt = none))

def allGrantsForTask : List TaskAclGrant :=
  (s.grants.filter (fun grant => grant.taskId = taskId)).insertionSort
    (fun a b => a.createdAt ≤ b.createdAt)

def isTreeParticipant (userId appId : String) : Bool :=
  s.tasks.values.any (fun task => task.rootId = rootId ∧
    (task.creator.userId = userId ∧ task.creator.appId = appId ∨
      task.executor.runnerAppId = some appId)) ||
  s.tasks.values.any (fun task => task.rootId = rootId ∧ userId ∈ s.activeAssignees task.taskId)

def rows : List Task := s.tasks.values.insertionSort (fun a b => a.key ≤ b.key)

def pageFrom (limit : ℕ) (cursor : Option String) (rows : List Task) :
    Except RpcError (List Task × Option String) :=
  match cursor with
  | none => .ok (page limit rows)
  | some cursor => do
    let after ← parseCursor cursor
    return page limit (rows.filter (afterCursor after))

def listTasks (req : ListTasksReq) : Except RpcError (List Task × Option String) :=
  pageFrom (clampLimit (req.limit.getD 100)) req.cursor (s.rows.filter req.admits)

def listTree (cursor : Option String) (limit : ℕ) :
    Except RpcError (List Task × Option String) :=
  s.listTasks {rootId := some rootId, includeArchived := true, cursor := cursor, limit := some limit}

def listChildren (parentId : TaskId) (cursor : Option String) (limit : ℕ) :
    Except RpcError (List Task × Option String) :=
  pageFrom (clampLimit limit) cursor (s.rows.filter (fun task => task.parentId = some parentId))

/-- Add the children of a task to the result and to the tasks still to be looked at; whether the
result is full. -/
def collectChildren (maxNodes : ℕ) (current : TaskId) :
    List Task → List Task → List TaskId → Bool × List Task × List TaskId
  | [], result, frontier => (false,result,frontier)
  | node :: rest, result, frontier =>
    if node.parentId = some current then
      if maxNodes ≤ (result ++ [node]).length then (true,result ++ [node],node.taskId :: frontier)
      else collectChildren maxNodes current rest (result ++ [node]) (node.taskId :: frontier)
    else collectChildren maxNodes current rest result frontier

/-- Every round takes a task off the frontier, and no more tasks come onto it than into the
result. -/
def collectLoop (tree : List Task) (maxNodes : ℕ) : ℕ → List Task → List TaskId → List Task
  | 0, result, _ | _ + 1, result, [] => result
  | fuel + 1, result, current :: frontier =>
    match collectChildren maxNodes current tree result frontier with
    | (true,result,_) => result
    | (false,result,frontier) => collectLoop tree maxNodes fuel result frontier

def collectSubtree (maxNodes : ℕ) : Except RpcError (List Task) := do
  let (tree,_) ← s.listTree task.rootId none (max maxNodes 1)
  return collectLoop tree maxNodes (maxNodes + 1) [task] [task.taskId]

def findByIdempotency (userId appId idempotencyKey : String) : Option Task :=
  (s.tasks.values.find? (fun task => task.creator.userId = userId ∧ task.creator.appId = appId ∧
    task.idempotencyKey = idempotencyKey)).map s.attachAssignees

def findByOrigin (origin : TaskOriginRef) : Option Task :=
  s.tasks.values.find? (fun task => task.originRef = some origin)

def getSchema (schemaId : String) (version : Option ℕ) : Except RpcError TaskSchemaDefinition :=
  let found := match version with
    | some version => s.schemas.find? (fun schema =>
        schema.schemaId = schemaId ∧ schema.schemaVersion = version)
    | none => ((s.schemas.filter (fun schema => schema.schemaId = schemaId ∧ schema.enabled))
        |>.insertionSort (fun a b => b.schemaVersion ≤ a.schemaVersion)).head?
  match found with
  | some schema => .ok schema
  | none => .error (.task .schemaNotFound
      (schemaId ++ "@" ++ debugOption (version.map toString)))

def listSchemas (userCreatableOnly includeDisabled : Bool) : List TaskSchemaDefinition :=
  (s.schemas.filter (fun schema => (!userCreatableOnly || schema.userCreatable) &&
    (includeDisabled || schema.enabled))).insertionSort (fun a b =>
      toLex (a.schemaId,a.schemaVersion) ≤ toLex (b.schemaId,b.schemaVersion))

def listEvents (taskId rootId afterEventId : Option String) (limit : ℕ) :
    Except RpcError (List TaskEvent) :=
  let listed (events : List TaskEvent) := ((events.filter (fun event =>
      ∀ after ∈ afterEventId, after < event.eventId)).insertionSort
        (fun a b => a.eventId ≤ b.eventId)).take (clampLimit limit)
  match taskId,rootId with
  | some taskId, none => .ok (listed (s.events.filter (fun event => event.taskId = taskId)))
  | none, some rootId => .ok (listed (s.events.filter (fun event => event.rootId = rootId)))
  | _, _ => .error (.parseRequest "exactly one of task_id / root_id is required")

def listTaskNotes : List TaskNote :=
  (s.notes.filter (fun note => note.taskId = taskId)).insertionSort
    (fun a b => toLex (a.createdAt,a.id) ≤ toLex (b.createdAt,b.id))

end Reads
end TaskStore

inductive TaskChange where
  | requestControl (request : TaskControlRequest)
  | cancelDirect (completedBy : ActorRef)
  | archive
  | run
  | reportProgress (progress : Option Json) (message : Option String)
  | reportWaiting (reason : TaskWaitReason)
  | updateControlProfile (profile : TaskControlProfile)
  | ackControl (applied : Bool) (action : TaskControlAction) (completedBy : ActorRef)
  | commitResult (result : Json) (completedBy : ActorRef)
  | failTask (error : TaskError) (completedBy : ActorRef)
  | setPromiseWait (reason : TaskWaitReason)
  | bindAppExecutor (targetId : Option String) (appId appInstanceId : String)
  | releaseAppExecutor (expectedInstanceId : String) (expectedRunnerEpoch : ℕ)
      (reason : TaskWaitReason)
  | finishPromiseFailure (error : TaskError) (completedBy : ActorRef)
  | cancelPromisedTask (completedBy : ActorRef)
deriving DecidableEq

namespace TaskChange
def close (outcome : TaskOutcome) (completedBy : ActorRef) (now : ℕ) (task : Task) : Task :=
  {task with
    phase := .terminal
    outcome := some outcome
    pendingControl := none
    waitReason := none
    completedBy := some completedBy
    completedAt := some now}

def unlessTerminal (task : Task) (next : Except RpcError Task) : Except RpcError Task :=
  if task.phase = .terminal then .error (.task .alreadyCompleted "task already terminal") else next

def apply (now : ℕ) (task : Task) : TaskChange → Except RpcError Task
  | requestControl request => unlessTerminal task (.ok {task with pendingControl := some request})
  | cancelDirect completedBy => unlessTerminal task
      (if task.result.isSome then .error (.task .alreadyCompleted "result already committed")
      else .ok (close .canceled completedBy now task))
  | archive =>
    .ok (if task.archivedAt.isNone then {task with archivedAt := some now} else task)
  | run => .ok {task with phase := .running, waitReason := none}
  | reportProgress progress message => .ok {task with
      progress := if progress.isSome then progress else task.progress
      message := if message.isSome then message else task.message}
  | reportWaiting reason => .ok {task with phase := .waiting, waitReason := some reason}
  | updateControlProfile profile => .ok {task with controlProfile := profile}
  | ackControl applied action completedBy =>
    if applied then
      match action with
      | .pause => .ok {task with pendingControl := none, phase := .paused}
      | .resume => .ok {task with pendingControl := none, phase := .running, waitReason := none}
      | .cancel =>
        if task.result.isSome then .error (.task .alreadyCompleted "result already committed")
        else .ok (close .canceled completedBy now task)
    else .ok {task with pendingControl := none}
  | commitResult result completedBy =>
    if task.phase = .terminal ∨ task.result.isSome then
      .error (.task .alreadyCompleted "result already committed or task terminal")
    else .ok (close .succeeded completedBy now {task with result := some result})
  | failTask error completedBy =>
    if task.phase = .terminal ∨ task.result.isSome then
      .error (.task .alreadyCompleted "task already terminal")
    else .ok (close .failed completedBy now {task with error := some error})
  | setPromiseWait reason =>
    if task.phase ≠ .promised then
      .error (.task .invalidPhase "set_promise_wait requires a Promised task")
    else .ok {task with waitReason := some reason}
  | bindAppExecutor targetId appId appInstanceId =>
    let bound : Except RpcError Task := unlessTerminal task (.ok {task with
      executor := .app targetId appId (some appInstanceId)
      runnerEpoch := task.runnerEpoch + 1
      phase := .accepted
      waitReason := none})
    match task.executor with
    | .unbound =>
      if task.phase ≠ .promised then
        .error (.task .invalidPhase "bind requires a Promised/Unbound task")
      else bound
    | .app boundTarget _ boundInstance =>
      if boundInstance.isSome then .error (.task .invalidPhase "task already has a bound instance")
      else if boundTarget ≠ targetId then
        .error (.task .invalidPhase "logical target is frozen after the first bind")
      else bound
    | .humanSet => .error (.task .invalidPhase "cannot bind an App executor on a HumanSet task")
  | releaseAppExecutor expectedInstanceId expectedRunnerEpoch reason =>
    match task.executor with
    | .app targetId appId appInstanceId => unlessTerminal task
        (if appInstanceId ≠ some expectedInstanceId then
          .error (.task .staleRunnerEpoch "bound instance does not match")
        else if task.runnerEpoch ≠ expectedRunnerEpoch then
          .error (.task .staleRunnerEpoch "runner epoch does not match")
        else .ok {task with
          executor := .app targetId appId none
          runnerEpoch := task.runnerEpoch + 1
          phase := .waiting
          waitReason := some reason})
    | _ => .error (.task .invalidPhase "task has no App executor")
  | finishPromiseFailure error completedBy =>
    if task.executor.kind ≠ .unbound then
      .error (.task .invalidPhase "finish_promise_failure requires an Unbound task")
    else unlessTerminal task (.ok (close .failed completedBy now {task with error := some error}))
  | cancelPromisedTask completedBy =>
    if task.executor.kind ≠ .unbound then
      .error (.task .invalidPhase "cancel_promised_task requires an Unbound task")
    else unlessTerminal task (.ok (close .canceled completedBy now task))

end TaskChange

structure TaskWrite where
  taskId : TaskId
  actor : ActorRef
  eventType : TaskEventType
  payload : Json
  expectedRevision : Option ℕ
  change : TaskChange
deriving DecidableEq

namespace TaskStore
section Writes
variable (s : TaskStore) (stamp : Stamp)

def revisionConflict (expected found : ℕ) : RpcError :=
  .task .revisionConflict ("expected revision " ++ toString expected ++ ", found " ++ toString found)

def uniqueViolation : RpcError := .reason "task store error: UNIQUE constraint failed"

/-- Append an event, unless one has its id or its task and revision. -/
def appendEvent (event : TaskEvent) : Except RpcError TaskStore :=
  if s.events.any (fun old => old.eventId = event.eventId ∨
      old.taskId = event.taskId ∧ old.taskRevision = event.taskRevision) then
    .error uniqueViolation
  else .ok {s with events := s.events ++ [event]}

def rowEvent (stamp : Stamp) (task : Task) (eventType : TaskEventType) (actor : ActorRef)
    (payload : Json) : TaskEvent where
  draw := stamp.draw
  taskId := task.taskId
  rootId := task.rootId
  taskRevision := task.revision + 1
  eventType := eventType
  actor := some actor
  payload := payload
  createdAt := stamp.now

def commitRow (task : Task) (eventType : TaskEventType) (actor : ActorRef) (payload : Json) :
    Except RpcError (MutationOutcome × TaskStore) := do
  let stored := {task with revision := task.revision + 1, updatedAt := stamp.now}
  let event := rowEvent stamp task eventType actor payload
  let s' ← {s with tasks := s.tasks.insert task.taskId {stored with assignees := none}}.appendEvent
    event
  return (⟨stored,event⟩,s')

def mutateTask (write : TaskWrite) : Except RpcError (MutationOutcome × TaskStore) :=
  match s.getTask write.taskId with
  | none => .error (.task .notFound write.taskId)
  | some task =>
    if ∃ expected ∈ write.expectedRevision, task.revision ≠ expected then
      .error (revisionConflict (write.expectedRevision.getD 0) task.revision)
    else do
      let changed ← write.change.apply stamp.now task
      s.commitRow stamp changed write.eventType write.actor write.payload

def changedAssignees (current add remove : List String) : List String :=
  add.foldl (fun users user => if user ∈ users then users else users ++ [user])
    (current.filter (fun user => user ∉ remove))

variable (taskId : TaskId) (actor : ActorRef) (grantId : String)

def updateAssignees (add remove : List String)
    (expectedRevision : ℕ) : Except RpcError (MutationOutcome × TaskStore) :=
  match s.tasks.get? taskId with
  | none => .error (.task .notFound taskId)
  | some task =>
    if task.executor.kind ≠ .humanSet then
      .error (.task .invalidPhase "update_assignees only applies to HumanSet tasks")
    else if task.phase = .terminal then
      .error (.task .alreadyCompleted "task already terminal")
    else if task.revision ≠ expectedRevision then
      .error (revisionConflict expectedRevision task.revision)
    else
      let current := changedAssignees (s.activeAssignees taskId) add remove
      if current = [] then
        .error (.task .invalidPhase "a HumanSet task must keep at least one active assignee")
      else
        let users := (s.assignees.get? taskId).getD .empty
        let revoked := remove.foldl (fun users user =>
          if user ∈ users.keys then users.insert user false else users) users
        let granted := add.foldl (fun users user => users.insert user true) revoked
        {s with assignees := s.assignees.insert taskId granted}.commitRow stamp
          {task with assignees := some current} .assigneesChanged actor
          (.object [("active",.array (current.map .string)),("add",.array (add.map .string)),
            ("remove",.array (remove.map .string))])

def insertGrant (spec : TaskAclGrantSpec)
    (expectedRevision : ℕ) : Except RpcError (MutationOutcome × TaskStore) :=
  match s.tasks.get? taskId with
  | none => .error (.task .notFound taskId)
  | some task =>
    if task.revision ≠ expectedRevision then
      .error (revisionConflict expectedRevision task.revision)
    else
      let grant : TaskAclGrant := {
        grantId := stamp.newId
        taskId := taskId
        subject := spec.subject
        actions := spec.actions
        scope := spec.scope
        dataScope := spec.dataScope
        createdBy := actor
        createdAt := stamp.now}
      if s.grants.any (fun old => old.grantId = stamp.newId) then .error uniqueViolation
      else {s with grants := s.grants ++ [grant]}.commitRow stamp (s.attachAssignees task)
        .accessGranted actor (.object [
          ("actions",.array (spec.actions.map (fun action => Json.string (TaskAction.text action)))),
          ("data_scope",.string spec.dataScope.text),("grant_id",.string stamp.newId),
          ("scope",.string spec.scope.text),("subject",spec.subject.json)])

def isActiveGrant (grant : TaskAclGrant) : Bool :=
  grant.grantId = grantId ∧ grant.taskId = taskId ∧ grant.revokedAt = none

def revokedGrants (now : ℕ) : List TaskAclGrant :=
  s.grants.map (fun grant =>
    if isActiveGrant taskId grantId grant then {grant with revokedAt := some now} else grant)

def revokeGrant (expectedRevision : ℕ) :
    Except RpcError (MutationOutcome × TaskStore) :=
  match s.tasks.get? taskId with
  | none => .error (.task .notFound taskId)
  | some task =>
    if task.revision ≠ expectedRevision then
      .error (revisionConflict expectedRevision task.revision)
    else if s.grants.any (isActiveGrant taskId grantId) then
      {s with grants := s.revokedGrants taskId grantId stamp.now}.commitRow stamp
        (s.attachAssignees task) .accessRevoked actor (.object [("grant_id",.string grantId)])
    else .error (.task .notFound ("active grant " ++ grantId ++ " on task " ++ taskId))

/-- A create that was made before is answered with its task, when the two are alike. -/
def replayCreated (env : TaskEnv) (existing : Task) (args : CreateTaskArgs) :
    Except RpcError Task :=
  if existing.schemaId = args.schemaId ∧ existing.schemaVersion = args.schemaVersion ∧
      existing.inputDigest = env.digest args.input ∧ existing.parentId = args.parentId ∧
      existing.executor.kind = args.executor.kind then .ok existing
  else .error (.task .idempotencyConflict
    ("idempotency key " ++ args.idempotencyKey ++ " maps to a different immutable request"))

def newTask (env : TaskEnv) (stamp : Stamp) (rootId : TaskId) (args : CreateTaskArgs) : Task where
  taskId := stamp.newId
  name := args.name
  parentId := args.parentId
  rootId := rootId
  childControlPolicy := args.childControlPolicy
  schemaId := args.schemaId
  schemaVersion := args.schemaVersion
  input := args.input
  inputDigest := env.digest args.input
  creator := args.creator
  idempotencyKey := args.idempotencyKey
  originRef := args.originRef
  retryOf := args.retryOf
  supersedes := args.supersedes
  executor := args.executor
  runnerEpoch := if args.executor.kind = .app then 1 else 0
  phase := args.phase
  waitReason := args.waitReason
  controlProfile := .baseline stamp.now
  message := args.message
  policyPreset := args.policyPreset
  permissionBoundary := args.permissionBoundary
  revision := 1
  createdAt := stamp.now
  updatedAt := stamp.now

def creationEvent (stamp : Stamp) (rootId : TaskId) (args : CreateTaskArgs) : TaskEvent where
  draw := stamp.draw
  taskId := stamp.newId
  rootId := rootId
  taskRevision := 1
  eventType := .taskCreated
  actor := some args.creator
  payload := .object [("executor_kind",.string args.executor.kind.text),
    ("parent_id",optionalText args.parentId),("phase",.string args.phase.text),
    ("schema_id",.string args.schemaId),("schema_version",.number (toString args.schemaVersion))]
  createdAt := stamp.now

def insertTask (env : TaskEnv) (rootId : TaskId) (args : CreateTaskArgs) :
    Except RpcError (Task × TaskStore) := do
  let task := newTask env stamp rootId args
  let s' ← {s with
    tasks := s.tasks.insert stamp.newId task
    assignees :=
      if args.assignees = [] then s.assignees
      else s.assignees.insert stamp.newId
        (args.assignees.foldl (fun users user => users.insert user true) .empty)}.appendEvent
          (creationEvent stamp rootId args)
  return (s'.attachAssignees task,s')

def rootFor (parentId : Option TaskId) : Except RpcError TaskId :=
  match parentId with
  | some parentId =>
    match s.getTask parentId with
    | some parent => .ok parent.rootId
    | none => .error (.task .notFound ("parent task " ++ parentId))
  | none => .ok stamp.newId

/-- The task a create is answered with: an earlier one with the same key or origin, or a new one. -/
def createTask (env : TaskEnv) (args : CreateTaskArgs) : Except RpcError (Task × TaskStore) :=
  match s.findByIdempotency args.creator.userId args.creator.appId args.idempotencyKey with
  | some existing => do
    let task ← replayCreated env existing args
    return (task,s)
  | none => do
    let rootId ← s.rootFor stamp args.parentId
    match args.originRef.bind s.findByOrigin with
    | some existing => do
      let task ← replayCreated env existing args
      return (task,s)
    | none =>
      if stamp.newId ∈ s.tasks.keys ∨ ¬ args.assignees.Nodup then .error uniqueViolation
      else s.insertTask stamp env rootId args

/-- Publish a revision of a schema; one that is there stays as it is. -/
def registerSchema (schema : TaskSchemaDefinition) :
    Except RpcError (TaskSchemaDefinition × TaskStore) :=
  match s.schemas.find? (fun old =>
      old.schemaId = schema.schemaId ∧ old.schemaVersion = schema.schemaVersion) with
  | some existing =>
    if existing.inputSchema = schema.inputSchema ∧ existing.outputSchema = schema.outputSchema ∧
        existing.presentationSchema = schema.presentationSchema ∧
        existing.allowedExecutorKinds = schema.allowedExecutorKinds ∧
        existing.publisherAppId = schema.publisherAppId then .ok (existing,s)
    else .error (.task .idempotencyConflict ("task schema " ++ schema.schemaId ++ "@" ++
      toString schema.schemaVersion ++ " already published with different content"))
  | none =>
    let stored := {schema with createdAt := stamp.now}
    .ok (stored,{s with schemas := s.schemas ++ [stored]})

def setSchemaEnabled (schemaId : String) (version : ℕ) (enabled : Bool) :
    Except RpcError (TaskSchemaDefinition × TaskStore) :=
  if s.schemas.any (fun schema => schema.schemaId = schemaId ∧ schema.schemaVersion = version) then
    let s' : TaskStore := {s with schemas := s.schemas.map (fun schema =>
      if schema.schemaId = schemaId ∧ schema.schemaVersion = version then
        {schema with enabled := enabled}
      else schema)}
    do
      let schema ← s'.getSchema schemaId (some version)
      return (schema,s')
  else .error (.task .schemaNotFound (schemaId ++ "@" ++ toString version))

def addTaskNote (note : TaskNote) : TaskNote × TaskStore :=
  let stored := {note with id := s.lastNote + 1}
  (stored,{s with notes := s.notes ++ [stored], lastNote := s.lastNote + 1})

end Writes
end TaskStore
end BuckyOS.TaskManager
