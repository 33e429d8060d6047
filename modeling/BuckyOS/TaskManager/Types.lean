import BuckyOS.Lib.Json
import BuckyOS.Lib.Text

/-! The tasks of the task manager: their states, controls, grants and events, and the errors its
calls answer with. -/
namespace BuckyOS.TaskManager
abbrev TaskId := String

inductive TaskErrCode where
  | notFound
  | permissionDenied
  | revisionConflict
  | staleRunnerEpoch
  | invalidPhase
  | controlNotAvailable
  | controlAlreadyPending
  | alreadyCompleted
  | inputSchemaMismatch
  | resultSchemaMismatch
  | idempotencyConflict
  | schemaNotFound
deriving DecidableEq

inductive RpcError where
  | task (code : TaskErrCode) (detail : String)
  | parseRequest (message : String)
  | reason (message : String)
deriving DecidableEq

def RpcError.code : RpcError → Option TaskErrCode
  | .task code _ => some code
  | _ => none

structure ActorRef where
  userId : String
  appId : String
  appInstanceId : Option String := none
deriving DecidableEq

structure TaskOriginRef where
  kind : String
  id : String
deriving DecidableEq

inductive TaskExecutorKind where
  | unbound
  | app
  | humanSet
deriving DecidableEq

def TaskExecutorKind.text : TaskExecutorKind → String
  | .unbound => "Unbound"
  | .app => "App"
  | .humanSet => "HumanSet"

inductive TaskExecutor where
  | unbound
  | app (targetId : Option String) (appId : String) (appInstanceId : Option String)
  | humanSet
deriving DecidableEq

def TaskExecutor.kind : TaskExecutor → TaskExecutorKind
  | .unbound => .unbound
  | .app .. => .app
  | .humanSet => .humanSet

def TaskExecutor.runnerAppId : TaskExecutor → Option String
  | .app _ appId _ => some appId
  | _ => none

def TaskExecutor.runnerTargetId : TaskExecutor → Option String
  | .app targetId _ _ => targetId
  | _ => none

inductive TaskPhase where
  | promised
  | accepted
  | running
  | waiting
  | paused
  | terminal
deriving DecidableEq

def TaskPhase.text : TaskPhase → String
  | .promised => "Promised"
  | .accepted => "Accepted"
  | .running => "Running"
  | .waiting => "Waiting"
  | .paused => "Paused"
  | .terminal => "Terminal"

inductive TaskWaitReasonKind where
  | dispatch
  | capacity
  | authorization
  | humanInput
  | childTask
  | dependency
  | external
  | other
deriving DecidableEq

def TaskWaitReasonKind.text : TaskWaitReasonKind → String
  | .dispatch => "Dispatch"
  | .capacity => "Capacity"
  | .authorization => "Authorization"
  | .humanInput => "HumanInput"
  | .childTask => "ChildTask"
  | .dependency => "Dependency"
  | .external => "External"
  | .other => "Other"

structure TaskWaitReason where
  kind : TaskWaitReasonKind
  code : Option String := none
  relatedTaskId : Option TaskId := none
  message : Option String := none
deriving DecidableEq

inductive TaskOutcome where
  | succeeded
  | failed
  | canceled
deriving DecidableEq

structure TaskError where
  code : String
  message : String
  detail : Option Json := none
deriving DecidableEq

inductive TaskControlAction where
  | pause
  | resume
  | cancel
deriving DecidableEq

def TaskControlAction.text : TaskControlAction → String
  | .pause => "Pause"
  | .resume => "Resume"
  | .cancel => "Cancel"

structure TaskControlRequest where
  requestId : String
  action : TaskControlAction
  requestedBy : ActorRef
  requestedAt : ℕ
deriving DecidableEq

inductive ControlAvailability where
  | available
  | unavailable (reason : Option String)
deriving DecidableEq

inductive CancelCapability where
  | unavailable (reason : Option String)
  | interrupt
  | safe
deriving DecidableEq

def CancelCapability.isUnavailable : CancelCapability → Bool
  | .unavailable _ => true
  | _ => false

structure TaskControlProfile where
  pause : ControlAvailability
  resume : ControlAvailability
  cancel : CancelCapability
  updatedAt : ℕ
deriving DecidableEq

def TaskControlProfile.baseline (now : ℕ) : TaskControlProfile :=
  {pause := .unavailable none, resume := .unavailable none, cancel := .interrupt, updatedAt := now}

structure ChildControlPolicy where
  followPause : Bool := true
  followResume : Bool := true
  followCancel : Bool := true
deriving DecidableEq

def ChildControlPolicy.follows (policy : ChildControlPolicy) : TaskControlAction → Bool
  | .pause => policy.followPause
  | .resume => policy.followResume
  | .cancel => policy.followCancel

inductive TaskAction where
  | readMeta
  | readInput
  | readResult
  | reportProgress
  | control
  | commit
  | createChild
  | reassign
  | grant
  | archive
deriving DecidableEq

def TaskAction.text : TaskAction → String
  | .readMeta => "ReadMeta"
  | .readInput => "ReadInput"
  | .readResult => "ReadResult"
  | .reportProgress => "ReportProgress"
  | .control => "Control"
  | .commit => "Commit"
  | .createChild => "CreateChild"
  | .reassign => "Reassign"
  | .grant => "Grant"
  | .archive => "Archive"

inductive TaskGrantSubject where
  | rootCreator
  | creator
  | runner
  | assignees
  | user (userId : String)
  | app (appId : String)
  | principal (userId appId : String)
  | systemRole (role : String)
deriving DecidableEq

inductive TaskGrantScope where
  | selfOnly
  | subtree
  | wholeTree
deriving DecidableEq

def TaskGrantScope.text : TaskGrantScope → String
  | .selfOnly => "SelfOnly"
  | .subtree => "Subtree"
  | .wholeTree => "WholeTree"

inductive TaskDataScope where
  | metaOnly
  | payload
  | full
deriving DecidableEq

def TaskDataScope.text : TaskDataScope → String
  | .metaOnly => "MetaOnly"
  | .payload => "Payload"
  | .full => "Full"

def TaskDataScope.rank : TaskDataScope → ℕ
  | .metaOnly => 0
  | .payload => 1
  | .full => 2

def TaskDataScope.max (a b : TaskDataScope) : TaskDataScope := if a.rank ≤ b.rank then b else a

structure TaskAclGrant where
  grantId : String
  taskId : TaskId
  subject : TaskGrantSubject
  actions : List TaskAction
  scope : TaskGrantScope
  dataScope : TaskDataScope
  createdBy : ActorRef
  createdAt : ℕ
  revokedAt : Option ℕ := none
deriving DecidableEq

structure TaskAclGrantSpec where
  subject : TaskGrantSubject
  actions : List TaskAction
  scope : TaskGrantScope
  dataScope : TaskDataScope
deriving DecidableEq

structure TaskSchemaDefinition where
  schemaId : String
  schemaVersion : ℕ
  inputSchema : Json
  outputSchema : Json
  presentationSchema : Option Json := none
  allowedExecutorKinds : List TaskExecutorKind
  userCreatable : Bool := false
  publisherAppId : String
  enabled : Bool
  createdAt : ℕ := 0
deriving DecidableEq

structure Task where
  taskId : TaskId
  name : String
  parentId : Option TaskId := none
  rootId : TaskId
  childControlPolicy : ChildControlPolicy := {}
  schemaId : String
  schemaVersion : ℕ
  input : Json
  inputDigest : String
  creator : ActorRef
  idempotencyKey : String
  originRef : Option TaskOriginRef := none
  retryOf : Option TaskId := none
  supersedes : Option TaskId := none
  executor : TaskExecutor
  runnerEpoch : ℕ
  assignees : Option (List String) := none
  phase : TaskPhase
  waitReason : Option TaskWaitReason := none
  pendingControl : Option TaskControlRequest := none
  controlProfile : TaskControlProfile
  progress : Option Json := none
  message : Option String := none
  outcome : Option TaskOutcome := none
  result : Option Json := none
  error : Option TaskError := none
  completedBy : Option ActorRef := none
  policyPreset : String
  permissionBoundary : Bool := false
  revision : ℕ
  dataScope : Option TaskDataScope := none
  createdAt : ℕ
  updatedAt : ℕ
  completedAt : Option ℕ := none
  archivedAt : Option ℕ := none
deriving DecidableEq

structure TaskSummary where
  taskId : TaskId
  name : String
  parentId : Option TaskId
  rootId : TaskId
  schemaId : String
  schemaVersion : ℕ
  creator : ActorRef
  executorKind : TaskExecutorKind
  phase : TaskPhase
  waitReason : Option TaskWaitReason
  pendingControlAction : Option TaskControlAction
  outcome : Option TaskOutcome
  message : Option String
  revision : ℕ
  createdAt : ℕ
  updatedAt : ℕ
  completedAt : Option ℕ
  archivedAt : Option ℕ
deriving DecidableEq

inductive TaskEventType where
  | taskCreated
  | runnerBound
  | runnerReleased
  | phaseChanged
  | waitReasonChanged
  | progressReported
  | controlProfileChanged
  | controlRequested
  | controlSuperseded
  | controlApplied
  | controlRejected
  | assigneesChanged
  | accessGranted
  | accessRevoked
  | resultCommitted
  | taskFailed
  | taskCanceled
  | taskArchived
deriving DecidableEq

/-- What the id of an event is drawn from: the clock, a counter of the process and a random suffix. -/
structure EventDraw where
  now : ℕ
  seq : ℕ
  suffix : UInt16
deriving DecidableEq

/-- The counter wraps. -/
def newEventId (draw : EventDraw) : String :=
  String.ofList ('e' :: Text.padded 10 13 draw.now ++
    '-' :: Text.padded 10 6 (draw.seq % 1000000) ++ '-' :: Text.padded 16 4 draw.suffix.toNat)

structure TaskEvent where
  draw : EventDraw
  taskId : TaskId
  rootId : TaskId
  taskRevision : ℕ
  eventType : TaskEventType
  actor : Option ActorRef
  payload : Json
  createdAt : ℕ
deriving DecidableEq

abbrev TaskEvent.eventId (event : TaskEvent) : String := newEventId event.draw

structure TaskNote where
  id : ℕ
  taskId : TaskId
  noteType : String
  content : String
  data : Json
  authorUserId : String
  authorAppId : String
  createdAt : ℕ
  updatedAt : ℕ
deriving DecidableEq

section Texts
def debugOption (text : Option String) : String :=
  match text with
  | some text => "Some(" ++ text ++ ")"
  | none => "None"

def optionalText (text : Option String) : Json :=
  match text with
  | some text => .string text
  | none => .null

def TaskGrantSubject.json : TaskGrantSubject → Json
  | .rootCreator => .object [("kind",.string "RootCreator")]
  | .creator => .object [("kind",.string "Creator")]
  | .runner => .object [("kind",.string "Runner")]
  | .assignees => .object [("kind",.string "Assignees")]
  | .user userId => .object [("kind",.string "User"),("user_id",.string userId)]
  | .app appId => .object [("app_id",.string appId),("kind",.string "App")]
  | .principal userId appId => .object [("app_id",.string appId),("kind",.string "Principal"),
      ("user_id",.string userId)]
  | .systemRole role => .object [("kind",.string "SystemRole"),("role",.string role)]

end Texts
end BuckyOS.TaskManager
