import BuckyOS.TaskManager.Store

/-! Who may do what with a task: the relations of a principal to it, the rows they give, the grants
along the chain of parents, and what is left of a task for a reader. -/
namespace BuckyOS.TaskManager
/-- The caller behind a verified session token. -/
structure RequestContext where
  userId : String
  appId : String
  zoneTrusted : Bool := false
  sudoMode : Bool := false
deriving DecidableEq

structure Principal where
  userId : String
  appId : String
  roles : List String
  sudoMode : Bool
deriving DecidableEq

def systemRoleZoneTrusted : String := "zone-trusted"

namespace RequestContext
def principal (ctx : RequestContext) : Principal where
  userId := ctx.userId
  appId := ctx.appId
  roles := if ctx.zoneTrusted then [systemRoleZoneTrusted] else []
  sudoMode := ctx.sudoMode

def actorRef (ctx : RequestContext) : ActorRef := {userId := ctx.userId, appId := ctx.appId}

end RequestContext

structure TaskPermission where
  actions : Finset TaskAction := ∅
  dataScope : Option TaskDataScope := none
deriving DecidableEq

namespace TaskPermission
variable (permission : TaskPermission)

def allows (action : TaskAction) : Bool :=
  action ∈ permission.actions

def visible : Bool := permission.allows .readMeta

def add (actions : List TaskAction) (scope : TaskDataScope) :
    TaskPermission where
  actions := permission.actions ∪ actions.toFinset
  dataScope := some (match permission.dataScope with
    | some existing => existing.max scope
    | none => scope)

def addIf (condition : Bool) (actions : List TaskAction)
    (scope : TaskDataScope) : TaskPermission :=
  if condition then permission.add actions scope else permission

end TaskPermission

structure Relations where
  isCreator : Bool
  isRunner : Bool
  isAssignee : Bool
  isRootCreator : Bool
deriving DecidableEq

def expandCollaborativeTreePreset (permission : TaskPermission) (relations : Relations) :
    TaskPermission :=
  (((permission
    |>.addIf relations.isRootCreator
      [.readMeta,.readInput,.readResult,.control,.createChild,.reassign,.grant,.archive] .full)
    |>.addIf relations.isCreator [.readMeta,.readInput,.readResult] .full)
    |>.addIf relations.isRunner [.readMeta,.readInput,.reportProgress,.commit,.createChild] .full)
    |>.addIf relations.isAssignee [.readMeta,.readInput,.commit,.reassign] .full

/-- The tasks whose grants reach down to the first of a chain, and whether its root is one. -/
def inheritable : List (TaskId × Option TaskId × Bool) → List TaskId × Bool
  | [] => ([],false)
  | (taskId,none,_) :: _ => ([taskId],true)
  | (taskId,some _,true) :: _ => ([taskId],false)
  | (taskId,some _,false) :: rest => (taskId :: (inheritable rest).1,(inheritable rest).2)

def createdBy (principal : Principal) (task : Task) : Bool :=
  task.creator.userId = principal.userId ∧ task.creator.appId = principal.appId

def TaskGrantSubject.matches (principal : Principal) (relations : Relations) :
    TaskGrantSubject → Bool
  | .rootCreator => relations.isRootCreator
  | .creator => relations.isCreator
  | .runner => relations.isRunner
  | .assignees => relations.isAssignee
  | .user userId => userId = principal.userId
  | .app appId => appId = principal.appId
  | .principal userId appId => userId = principal.userId ∧ appId = principal.appId
  | .systemRole role => role ∈ principal.roles

/-- Whether a grant on a task of the chain reaches the task at its end. -/
def TaskAclGrant.covers (grant : TaskAclGrant) (taskId : TaskId) : Bool :=
  grant.taskId = taskId ∨ grant.scope = .subtree ∨ grant.scope = .wholeTree

def TaskAclGrant.applies (grant : TaskAclGrant) (principal : Principal) (task : Task)
    (relations : Relations) : Bool :=
  grant.covers task.taskId && grant.subject.matches principal relations

section Permission
variable (env : TaskEnv) (s : TaskStore) (principal : Principal) (task : Task)

def assigneesOf : List String :=
  match task.assignees with
  | some users => users
  | none => if task.executor.kind = .humanSet then s.activeAssignees task.taskId else []

def isRootCreatorOf (rootReachable : Bool) : Bool :=
  rootReachable &&
    if task.parentId = none then createdBy principal task
    else
      match s.getTask task.rootId with
      | some root => createdBy principal root
      | none => false

def relationsTo (rootReachable : Bool) : Relations where
  isCreator := createdBy principal task
  isRunner := task.executor.runnerAppId = some principal.appId
  isAssignee := principal.userId ∈ assigneesOf s task
  isRootCreator := isRootCreatorOf s principal task rootReachable

def addGrant (relations : Relations) (permission : TaskPermission) (grant : TaskAclGrant) :
    TaskPermission :=
  permission.addIf (grant.applies principal task relations) grant.actions grant.dataScope

def ungranted (rootReachable : Bool) : TaskPermission :=
  let preset := expandCollaborativeTreePreset {} (relationsTo s principal task rootReachable)
  let viewed := preset.addIf
    (env.mayView principal.userId principal.appId principal.sudoMode task.creator.userId)
    [.readMeta,.readInput,.readResult] .full
  viewed.addIf (rootReachable && !viewed.visible &&
    s.isTreeParticipant task.rootId principal.userId principal.appId) [.readMeta] .metaOnly

def granted (reach : List TaskId × Bool) : TaskPermission :=
  (s.activeGrantsFor reach.1).foldl (addGrant principal task (relationsTo s principal task reach.2))
    (ungranted env s principal task reach.2)

def computePermission : Except RpcError TaskPermission := do
  let chain ← s.getTaskChain task.taskId
  return granted env s principal task (inheritable chain)

end Permission

def trimTask (task : Task) (permission : TaskPermission) : Task :=
  let scope := permission.dataScope.getD .metaOnly
  let payloadScope : Bool := scope ≠ .metaOnly
  let readsInput : Bool := payloadScope && permission.allows .readInput
  let readsResult : Bool := payloadScope && permission.allows .readResult
  {task with
    input := if readsInput then task.input else .null
    result := if readsResult then task.result else none
    error :=
      if readsResult then task.error
      else task.error.map (fun error => {code := error.code, message := ""})
    idempotencyKey := if scope = .full then task.idempotencyKey else ""
    originRef := if scope = .full then task.originRef else none
    progress := if scope = .metaOnly then none else task.progress
    dataScope := some scope}

def summarizeTask (task : Task) : TaskSummary where
  taskId := task.taskId
  name := task.name
  parentId := task.parentId
  rootId := task.rootId
  schemaId := task.schemaId
  schemaVersion := task.schemaVersion
  creator := {userId := task.creator.userId, appId := task.creator.appId}
  executorKind := task.executor.kind
  phase := task.phase
  waitReason := task.waitReason
  pendingControlAction := task.pendingControl.map TaskControlRequest.action
  outcome := task.outcome
  message := task.message
  revision := task.revision
  createdAt := task.createdAt
  updatedAt := task.updatedAt
  completedAt := task.completedAt
  archivedAt := task.archivedAt

end BuckyOS.TaskManager
