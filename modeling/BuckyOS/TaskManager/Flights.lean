import BuckyOS.Lib.Machine
import BuckyOS.TaskManager.Handlers
import BuckyOS.TaskManager.Versions

/-! The task manager under concurrent calls. A call reads, is then in flight with the plan it made,
and stores its write later; between the two any number of other calls read and write. -/
namespace BuckyOS.TaskManager
open Option
open Except (ok.inj)

/-- A call between its reads and its write. A recursive request holds the task it looked at last
and the write it made up for it. -/
structure Flight where
  ctx : RequestContext
  request : TaskRequest
  seen : Option Task
  plan : TaskPlan
  node : Option (Task × TaskWrite) := none
deriving DecidableEq

structure TaskServer where
  store : TaskStore
  flights : List Flight := []

/-- A call arrives and reads, or a call in flight takes its next step. -/
inductive TaskInput where
  | start (ctx : RequestContext) (request : TaskRequest) (now : ℕ)
  | advance (index : ℕ) (stamp : Stamp)
deriving DecidableEq

abbrev TaskOutput := Option (Except RpcError TaskResponse)

namespace TaskServer
variable (env : TaskEnv) (server : TaskServer) (index : ℕ)

def start (ctx : RequestContext) (request : TaskRequest)
    (now : ℕ) : TaskOutput × TaskServer :=
  match prepare env server.store ctx now request with
  | .error error => (some (.error error),server)
  | .ok ⟨_,.answer response⟩ => (some (.ok response),server)
  | .ok ⟨seen,plan⟩ =>
    (none,{server with flights := server.flights ++ [{
      ctx := ctx
      request := request
      seen := seen
      plan := plan}]})

def land (store : TaskStore)
    (answer : Except RpcError TaskResponse) : TaskOutput × TaskServer :=
  (some answer,{store := store, flights := server.flights.eraseIdx index})

def stay (store : TaskStore) (flight : Flight) :
    TaskOutput × TaskServer :=
  (none,{store := store, flights := server.flights.set index flight})

/-- The next step of a recursive request: look at the next task, or store what was made up for it. -/
def advanceBatch (stamp : Stamp) (flight : Flight)
    (batch : Batch) : TaskOutput × TaskServer :=
  match batch.rest with
  | [] => server.land index server.store (.ok (.batch batch.result))
  | node :: rest =>
    match flight.node with
    | none =>
      match batch.prepareNode env server.store flight.ctx stamp.now node with
      | .error error => server.land index server.store (.error error)
      | .ok (.settled verdict) =>
        server.stay index server.store {flight with plan := .recurse (batch.book node rest verdict)}
      | .ok (.write write) => server.stay index server.store {flight with node := some (node,write)}
    | some (_,write) =>
      match server.store.mutateTask stamp write with
      | .ok (_,store) =>
        server.stay index store
          {flight with plan := .recurse (batch.book node rest .requested), node := none}
      | .error error =>
        match verdictOf error with
        | some verdict =>
          server.stay index server.store
            {flight with plan := .recurse (batch.book node rest verdict), node := none}
        | none => server.land index server.store (.error error)

def advance (stamp : Stamp) :
    TaskOutput × TaskServer :=
  match server.flights[index]? with
  | none => (none,server)
  | some flight =>
    match flight.plan with
    | .recurse batch => server.advanceBatch env index stamp flight batch
    | plan =>
      let done := carryOut env flight.ctx server.store (fun _ => stamp) plan
      server.land index done.2 done.1

def step : TaskInput → TaskOutput × TaskServer
  | .start ctx request now => server.start env ctx request now
  | .advance index stamp => server.advance env index stamp

def after (inputs : List TaskInput) : TaskServer :=
  (Machine.run (step env) server inputs).2

end TaskServer

section Asked
def TaskRequest.envelope? : TaskRequest → Option RunnerWriteEnvelope
  | .reportStarted envelope | .reportProgress envelope _ _ | .reportWaiting envelope _
  | .reportRunning envelope | .updateControlProfile envelope _ | .ackControl envelope _ _ _
  | .failTask envelope _ => some envelope
  | _ => none

/-- What a runner's report asks for, by the task it saw. -/
inductive RunnerAsks (ctx : RequestContext) (task : Task) :
    TaskRequest → TaskEventType → TaskChange → Prop
  | started {envelope} (phase : task.phase = .accepted) :
    RunnerAsks ctx task (.reportStarted envelope) .phaseChanged .run
  | progress {envelope progress message} :
    RunnerAsks ctx task (.reportProgress envelope progress message) .progressReported
      (.reportProgress progress message)
  | waiting {envelope reason} (phase : task.phase = .accepted ∨ task.phase = .running) :
    RunnerAsks ctx task (.reportWaiting envelope reason) .waitReasonChanged (.reportWaiting reason)
  | running {envelope} (phase : task.phase = .waiting ∨ task.phase = .accepted) :
    RunnerAsks ctx task (.reportRunning envelope) .phaseChanged .run
  | profile {envelope profile profile'} :
    RunnerAsks ctx task (.updateControlProfile envelope profile) .controlProfileChanged
      (.updateControlProfile profile')
  | ack {envelope applied reason pending} (found : task.pendingControl = some pending) :
    RunnerAsks ctx task (.ackControl envelope pending.requestId applied reason)
      (ackEvent applied pending.action) (.ackControl applied pending.action ctx.actorRef)
  | fail {envelope error} :
    RunnerAsks ctx task (.failTask envelope error) .taskFailed (.failTask error ctx.actorRef)

/-- What the other calls that write one task ask for, by the task they saw if they saw one. -/
inductive ManagerAsks : Option Task → TaskRequest → TaskEventType → TaskChange → Prop
  | archive {task taskId revision} (phase : task.phase = .terminal) :
    ManagerAsks (some task) (.archiveTask taskId revision) .taskArchived .archive
  | promiseWait {taskId reason revision} :
    ManagerAsks none (.setPromiseWait taskId reason revision) .waitReasonChanged
      (.setPromiseWait reason)
  | bind {req} :
    ManagerAsks none (.bindAppExecutor req) .runnerBound
      (.bindAppExecutor req.targetId req.appId req.appInstanceId)
  | release {seen req} :
    ManagerAsks seen (.releaseAppExecutor req) .runnerReleased
      (.releaseAppExecutor req.expectedInstanceId req.expectedRunnerEpoch req.reason)
  | promiseFailure {taskId error revision actor} :
    ManagerAsks none (.finishPromiseFailure taskId error revision) .taskFailed
      (.finishPromiseFailure error actor)
  | promiseCancel {taskId revision actor} :
    ManagerAsks none (.cancelPromisedTask taskId revision) .taskCanceled (.cancelPromisedTask actor)

/-- The write a call made up from the store it read, with the task it saw there. -/
inductive Asked (s : TaskStore) : RequestContext → TaskRequest → Option Task → TaskWrite → Prop
  | runner {ctx request envelope task eventType payload change}
    (sent : request.envelope? = some envelope) (loaded : loadRunnerTask s ctx envelope = .ok task)
    (asks : RunnerAsks ctx task request eventType change) :
    Asked s ctx request (some task)
      ⟨envelope.taskId,ctx.actorRef,eventType,payload,some envelope.expectedRevision,change⟩
  | commit {ctx req task} (loaded : loadTask s req.taskId = .ok task)
    (verified : verifyCommitter s ctx task req = .ok ()) :
    Asked s ctx (.commitResult req) (some task)
      ⟨req.taskId,ctx.actorRef,.resultCommitted,.object [],some req.expectedRevision,
        .commitResult req.result ctx.actorRef⟩
  | manager {ctx request seen eventType change taskId actor payload revision}
    (asks : ManagerAsks seen request eventType change) :
    Asked s ctx request seen ⟨taskId,actor,eventType,payload,some revision,change⟩
  | control {ctx controller req now task write} (loaded : loadTask s req.taskId = .ok task)
    (single : requestControlSingle controller now task req.action req.requestId
      req.expectedRevision = .ok (.write write)) :
    Asked s ctx (.requestControl req) (some task) write
  | delegated {ctx controller req now task write} (loaded : loadTask s req.taskId = .ok task)
    (single : requestControlSingle controller now task req.action req.requestId
      req.expectedRevision = .ok (.write write)) :
    Asked s ctx (.requestDelegatedControl req) (some task) write

inductive CreateAsks (env : TaskEnv) (s : TaskStore) (ctx : RequestContext) :
    TaskRequest → CreateTaskArgs → Prop
  | plain {req executor assignees phase waitReason schema}
    (initial : initialExecutor ctx req.executor = .ok (executor,assignees,phase,waitReason))
    (resolved : resolveSchema env s req.schemaId req.schemaVersion req.input executor.kind =
      .ok schema) (parent : requireParent env s ctx req.parentId = .ok ()) :
    CreateAsks env s ctx (.createTask req) (req.args ctx schema executor assignees phase waitReason)
  | delegated {req schema} (trusted : ctx.zoneTrusted = true)
    (resolved : resolveSchema env s req.schemaId req.schemaVersion req.input .app = .ok schema) :
    CreateAsks env s ctx (.createDelegatedTask req) (req.args ctx schema)
  | promised {req schema} (trusted : ctx.zoneTrusted = true)
    (resolved : resolveSchema env s req.schemaId req.schemaVersion req.input .unbound = .ok schema) :
    CreateAsks env s ctx (.createPromisedTask req) (req.args schema)

inductive Planned (env : TaskEnv) (s : TaskStore) (ctx : RequestContext) (request : TaskRequest) :
    Prepared → Prop
  | answer {seen response} : Planned env s ctx request ⟨seen,.answer response⟩
  | write {seen write plan} (written : plan = .write write ∨ plan = .control write)
    (asked : Asked s ctx request seen write) : Planned env s ctx request ⟨seen,plan⟩
  | recurse {req task subtree} (asked : request = .requestControl req)
    (recursive : req.recursive = true) (loaded : loadTask s req.taskId = .ok task)
    (collected : s.collectSubtree task maxRecursiveControlNodes = .ok subtree) :
    Planned env s ctx request ⟨some task,.recurse {
      rootId := task.taskId
      action := req.action
      requestId := req.requestId
      rest := subtree}⟩
  | create {seen args} (asked : CreateAsks env s ctx request args) :
    Planned env s ctx request ⟨seen,.create args⟩
  | assign {seen taskId actor add remove revision} :
    Planned env s ctx request ⟨seen,.assign taskId actor add remove revision⟩
  | grant {seen taskId actor spec revision} :
    Planned env s ctx request ⟨seen,.grant taskId actor spec revision⟩
  | revoke {seen taskId actor grantId revision} :
    Planned env s ctx request ⟨seen,.revoke taskId actor grantId revision⟩
  | registerSchema {seen schema} : Planned env s ctx request ⟨seen,.registerSchema schema⟩
  | setSchemaEnabled {seen schemaId version enabled} :
    Planned env s ctx request ⟨seen,.setSchemaEnabled schemaId version enabled⟩
  | addNote {seen note} : Planned env s ctx request ⟨seen,.addNote note⟩

end Asked

def TaskPlan.taskWrite? : TaskPlan → Option TaskWrite
  | .write step | .control step => some step
  | _ => none

section Prepare
variable {env : TaskEnv} {s : TaskStore} {ctx : RequestContext} {now : ℕ} {taskId : TaskId}
  {task : Task} {permission : TaskPermission}

theorem loadVisible_ok (h : loadVisible env s ctx taskId = .ok (task,permission)) :
    loadTask s taskId = .ok task ∧
      computePermission env s ctx.principal task = .ok permission ∧ permission.visible = true := by
  obtain ⟨task',hload,h⟩ := bind_eq_ok_iff.mp h
  obtain ⟨permission',hpermission,h⟩ := bind_eq_ok_iff.mp h
  by_cases hvisible : permission'.visible = true
  · rw [if_pos hvisible] at h
    obtain ⟨rfl,rfl⟩ := Prod.mk.inj (ok.inj h)
    exact ⟨hload,hpermission,hvisible⟩
  · rw [if_neg hvisible] at h
    exact absurd h (by simp)

theorem loadTask_of_requireAction {action : TaskAction}
    (h : requireAction env s ctx taskId action = .ok (task,permission)) : loadTask s taskId = .ok task := by
  obtain ⟨⟨task',permission'⟩,hload,h⟩ := bind_eq_ok_iff.mp h
  by_cases hallows : permission'.allows action = true
  · simp only [hallows,if_true] at h
    obtain ⟨rfl,rfl⟩ := Prod.mk.inj (ok.inj h)
    exact (loadVisible_ok hload).1
  · simp only [hallows] at h
    exact absurd h (by simp)

theorem loadTask_eq_ok : loadTask s taskId = .ok task ↔ s.getTask taskId = some task := by
  rw [loadTask]
  split <;> simp_all

variable {envelope : RunnerWriteEnvelope}

theorem verifyEpoch_ok (h : verifyAppRunnerWrite.verifyEpoch task envelope = .ok ()) :
    envelope.runnerEpoch = task.runnerEpoch ∧ task.phase ≠ .terminal := by
  obtain ⟨hepoch,h⟩ := ite_error_eq_ok.mp h
  obtain ⟨hphase,-⟩ := ite_error_eq_ok.mp h
  exact ⟨not_not.mp hepoch,hphase⟩

theorem verifyAppRunnerWrite_ok (h : verifyAppRunnerWrite ctx task envelope = .ok ()) :
    ∃ targetId bound, task.executor = .app targetId ctx.appId bound ∧
      (∀ instanceId ∈ bound, envelope.appInstanceId = some instanceId) ∧
      envelope.runnerEpoch = task.runnerEpoch ∧ task.phase ≠ .terminal := by
  rw [verifyAppRunnerWrite] at h
  split at h
  · rename_i targetId appId bound hexecutor
    obtain ⟨happ,hrest⟩ := ite_error_eq_ok.mp h
    rw [not_not.mp happ] at hexecutor
    split at hrest
    · rename_i instanceId
      obtain ⟨hinstance,hepoch⟩ := ite_error_eq_ok.mp hrest
      refine ⟨targetId,some instanceId,hexecutor,?_,verifyEpoch_ok hepoch⟩
      intro bound hbound
      rw [← some.inj hbound]
      exact not_not.mp hinstance
    · exact ⟨targetId,none,hexecutor,by simp,verifyEpoch_ok hrest⟩
  · exact absurd h (by simp)

theorem loadRunnerTask_ok (h : loadRunnerTask s ctx envelope = .ok task) :
    s.getTask envelope.taskId = some task ∧ verifyAppRunnerWrite ctx task envelope = .ok () := by
  obtain ⟨task',hload,h⟩ := bind_eq_ok_iff.mp h
  obtain ⟨_,hverify,h⟩ := bind_eq_ok_iff.mp h
  obtain rfl := ok.inj h
  exact ⟨loadTask_eq_ok.mp hload,hverify⟩

/-- A control request is written to a task that is not over: as a direct cancel, or as a request
that the profile and the pending request let through. -/
theorem requestControlSingle_write {action : TaskControlAction} {requestId : String}
    {expected : Option ℕ} {write : TaskWrite}
    (h : requestControlSingle ctx now task action requestId expected = .ok (.write write)) :
    task.phase ≠ .terminal ∧ write.taskId = task.taskId ∧ write.expectedRevision = expected ∧
      ((action = .cancel ∧ (directCancelMode task).isSome = true ∧
          write.eventType = .taskCanceled ∧ write.change = .cancelDirect ctx.actorRef) ∨
        (controlEvent task.pendingControl action requestId = .ok (write.eventType,write.payload) ∧
          (action = .cancel → directCancelMode task = none) ∧
          write.change = .requestControl {
            requestId := requestId
            action := action
            requestedBy := ctx.actorRef
            requestedAt := now})) := by
  rw [requestControlSingle] at h
  split at h
  · exact absurd h (by simp)
  · obtain ⟨hphase,h⟩ := ite_error_eq_ok.mp h
    refine ⟨hphase,?_⟩
    split at h
    · rename_i mode hmode
      obtain rfl := ControlStep.write.inj (ok.inj h)
      by_cases haction : action = .cancel
      · rw [if_pos haction] at hmode
        exact ⟨rfl,rfl,.inl ⟨haction,by rw [hmode]; rfl,rfl,rfl⟩⟩
      · rw [if_neg haction] at hmode
        exact absurd hmode (by simp)
    · rename_i hmode
      obtain ⟨_,-,h⟩ := bind_eq_ok_iff.mp h
      obtain ⟨⟨eventType,payload⟩,hevent,h⟩ := bind_eq_ok_iff.mp h
      obtain rfl := ControlStep.write.inj (ok.inj h)
      refine ⟨rfl,rfl,.inr ⟨hevent,?_,rfl⟩⟩
      intro haction
      rwa [if_pos haction] at hmode

theorem requireZoneTrusted_ok {what : String} (h : requireZoneTrusted ctx what = .ok ()) :
    ctx.zoneTrusted = true := by
  rw [requireZoneTrusted] at h
  split at h
  · assumption
  · exact absurd h (by simp)

variable {prepared : Prepared}

theorem answerPage_ok {page : Except RpcError (List Task × Option String)}
    (h : answerPage env s ctx page = .ok prepared) : ∃ response, prepared = ⟨none,.answer response⟩ := by
  obtain ⟨⟨tasks,cursor⟩,-,h⟩ := bind_eq_ok_iff.mp h
  obtain ⟨summaries,-,h⟩ := bind_eq_ok_iff.mp h
  exact ⟨_,(ok.inj h).symm⟩

variable {request : TaskRequest}

theorem planned_runnerWrite {eventType : TaskEventType} {payload : Json} {change : TaskChange}
    (hsent : request.envelope? = some envelope) (hload : loadRunnerTask s ctx envelope = .ok task)
    (hasks : RunnerAsks ctx task request eventType change) :
    Planned env s ctx request ⟨some task,runnerWrite ctx envelope eventType payload change⟩ :=
  .write (.inl rfl) (.runner hsent hload hasks)

theorem planned_controlled {controlled : ControlStep}
    (h : ∀ write, controlled = .write write → Asked s ctx request (some task) write) :
    Planned env s ctx request ⟨some task,controlled.plan⟩ := by
  cases controlled with
  | replay task => exact .answer
  | write step => exact .write (.inr rfl) (h step rfl)

theorem prepare_planned (h : prepare env s ctx now request = .ok prepared) :
    Planned env s ctx request prepared := by
  cases request with
  | createTask req =>
    simp only [prepare,handleCreateTask,ite_error_eq_ok] at h
    obtain ⟨-,-,h⟩ := h
    obtain ⟨⟨executor,assignees,phase,waitReason⟩,hinitial,h⟩ := bind_eq_ok_iff.mp h
    obtain ⟨schema,hschema,h⟩ := bind_eq_ok_iff.mp h
    obtain ⟨_,hparent,h⟩ := bind_eq_ok_iff.mp h
    obtain rfl := ok.inj h
    exact .create (.plain hinitial hschema hparent)
  | createDelegatedTask req =>
    obtain ⟨_,htrusted,h⟩ := bind_eq_ok_iff.mp h
    obtain ⟨_,-,h⟩ := bind_eq_ok_iff.mp h
    obtain ⟨schema,hschema,h⟩ := bind_eq_ok_iff.mp h
    obtain rfl := ok.inj h
    exact .create (.delegated (requireZoneTrusted_ok htrusted) hschema)
  | createPromisedTask req =>
    obtain ⟨_,htrusted,h⟩ := bind_eq_ok_iff.mp h
    obtain ⟨args,hargs,h⟩ := bind_eq_ok_iff.mp h
    obtain ⟨_,-,hargs⟩ := bind_eq_ok_iff.mp hargs
    obtain ⟨-,hargs⟩ := ite_error_eq_ok.mp hargs
    obtain ⟨schema,hschema,hargs⟩ := bind_eq_ok_iff.mp hargs
    obtain rfl := ok.inj h
    obtain rfl := ok.inj hargs
    exact .create (.promised (requireZoneTrusted_ok htrusted) hschema)
  | getTask taskId | listTaskAccess taskId | getTaskSchema schemaId version
  | listTaskNotes taskId =>
    obtain ⟨_,-,h⟩ := bind_eq_ok_iff.mp h
    obtain rfl := ok.inj h
    exact .answer
  | listTasks req | getTaskTree rootId cursor limit =>
    obtain ⟨_,rfl⟩ := answerPage_ok h
    exact .answer
  | getSubtasks taskId cursor limit =>
    obtain ⟨_,-,h⟩ := bind_eq_ok_iff.mp h
    obtain ⟨_,rfl⟩ := answerPage_ok h
    exact .answer
  | archiveTask taskId revision =>
    obtain ⟨⟨task,_⟩,-,h⟩ := bind_eq_ok_iff.mp h
    obtain ⟨hphase,h⟩ := ite_error_eq_ok.mp h
    obtain rfl := ok.inj h
    exact .write (.inl rfl) (.manager (.archive (not_not.mp hphase)))
  | requestControl req =>
    obtain ⟨-,h⟩ := ite_error_eq_ok.mp h
    obtain ⟨⟨task,_⟩,hload,h⟩ := bind_eq_ok_iff.mp h
    by_cases hrecursive : req.recursive
    · simp only [hrecursive,Bool.not_true,Bool.false_eq_true,if_false] at h
      obtain ⟨subtree,hsubtree,h⟩ := bind_eq_ok_iff.mp h
      obtain rfl := ok.inj h
      exact .recurse rfl hrecursive (loadTask_of_requireAction hload) hsubtree
    · simp only [hrecursive,Bool.not_false,if_true] at h
      obtain ⟨controlled,hsingle,h⟩ := bind_eq_ok_iff.mp h
      obtain rfl := ok.inj h
      refine planned_controlled ?_
      rintro write rfl
      exact .control (loadTask_of_requireAction hload) hsingle
  | requestDelegatedControl req =>
    obtain ⟨_,-,h⟩ := bind_eq_ok_iff.mp h
    obtain ⟨-,h⟩ := ite_error_eq_ok.mp h
    obtain ⟨⟨task,_⟩,hload,h⟩ := bind_eq_ok_iff.mp h
    obtain ⟨controlled,hsingle,h⟩ := bind_eq_ok_iff.mp h
    obtain rfl := ok.inj h
    refine planned_controlled ?_
    rintro write rfl
    exact .delegated (loadTask_of_requireAction hload) hsingle
  | updateAssignees _ _ _ _ | revokeTaskAccess _ _ _ | setTaskSchemaEnabled _ _ _ =>
    obtain ⟨_,-,h⟩ := bind_eq_ok_iff.mp h
    obtain rfl := ok.inj h
    first | exact .assign | exact .revoke | exact .setSchemaEnabled
  | grantTaskAccess taskId grant revision =>
    obtain ⟨_,-,h⟩ := bind_eq_ok_iff.mp h
    obtain ⟨-,h⟩ := ite_error_eq_ok.mp h
    obtain rfl := ok.inj h
    exact .grant
  | reportStarted envelope =>
    obtain ⟨task,hload,h⟩ := bind_eq_ok_iff.mp h
    obtain ⟨hphase,h⟩ := ite_error_eq_ok.mp h
    obtain rfl := ok.inj h
    exact planned_runnerWrite rfl hload (.started (not_not.mp hphase))
  | reportProgress _ _ _ | updateControlProfile _ _ | failTask _ _ =>
    obtain ⟨task,hload,h⟩ := bind_eq_ok_iff.mp h
    obtain rfl := ok.inj h
    exact planned_runnerWrite rfl hload (by constructor)
  | reportWaiting _ _ | reportRunning _ =>
    obtain ⟨task,hload,h⟩ := bind_eq_ok_iff.mp h
    obtain ⟨hphase,h⟩ := ite_error_eq_ok.mp h
    obtain rfl := ok.inj h
    rw [not_and_or,not_not,not_not] at hphase
    exact planned_runnerWrite rfl hload (by constructor; exact hphase)
  | ackControl envelope requestId applied reason =>
    obtain ⟨task,hload,h⟩ := bind_eq_ok_iff.mp h
    split at h
    · exact absurd h (by simp)
    · rename_i pending hpending
      obtain ⟨hid,h⟩ := ite_error_eq_ok.mp h
      obtain rfl := ok.inj h
      obtain rfl := not_not.mp hid
      exact planned_runnerWrite rfl hload (.ack hpending)
  | commitResult req =>
    obtain ⟨task,hload,h⟩ := bind_eq_ok_iff.mp h
    obtain ⟨_,hverified,h⟩ := bind_eq_ok_iff.mp h
    obtain ⟨_,-,h⟩ := bind_eq_ok_iff.mp h
    split at h
    · exact absurd h (by simp)
    · obtain rfl := ok.inj h
      exact .write (.inl rfl) (.commit hload hverified)
  | setPromiseWait _ _ _ | bindAppExecutor _ | finishPromiseFailure _ _ _ | cancelPromisedTask _ _ =>
    simp only [prepare] at h
    obtain ⟨_,-,h⟩ := bind_eq_ok_iff.mp h
    obtain rfl := ok.inj h
    exact .write (.inl rfl) (.manager (by constructor))
  | releaseAppExecutor req =>
    simp only [prepare,handleReleaseAppExecutor] at h
    split at h
    · obtain rfl := ok.inj h
      exact .write (.inl rfl) (.manager .release)
    · obtain ⟨⟨task,_⟩,-,h⟩ := bind_eq_ok_iff.mp h
      obtain rfl := ok.inj h
      exact .write (.inl rfl) (.manager .release)
  | registerTaskSchema definition =>
    simp only [prepare,handleRegisterTaskSchema,ite_error_eq_ok] at h
    obtain ⟨-,-,-,h⟩ := h
    obtain rfl := ok.inj h
    exact .registerSchema
  | listTaskSchemas userCreatableOnly includeDisabled =>
    obtain rfl := ok.inj h
    exact .answer
  | listTaskEvents taskId rootId after limit =>
    simp only [prepare,handleListTaskEvents] at h
    split at h
    · exact absurd h (by simp)
    · obtain ⟨_,-,h⟩ := bind_eq_ok_iff.mp h
      obtain ⟨_,-,h⟩ := bind_eq_ok_iff.mp h
      obtain rfl := ok.inj h
      exact .answer
  | addTaskNote taskId noteType content data =>
    obtain ⟨-,h⟩ := ite_error_eq_ok.mp h
    obtain ⟨_,-,h⟩ := bind_eq_ok_iff.mp h
    obtain rfl := ok.inj h
    exact .addNote

theorem prepare_runner (hsent : request.envelope? = some envelope)
    (h : prepare env s ctx now request = .ok prepared) :
    (∃ task, prepared.task = some task ∧ loadRunnerTask s ctx envelope = .ok task) ∧
      ∃ write, prepared.plan = .write write := by
  cases request with
  | reportStarted _ | reportWaiting _ _ | reportRunning _ =>
    obtain rfl := some.inj hsent
    obtain ⟨task,hload,h⟩ := bind_eq_ok_iff.mp h
    obtain ⟨-,h⟩ := ite_error_eq_ok.mp h
    obtain rfl := ok.inj h
    exact ⟨⟨task,rfl,hload⟩,_,rfl⟩
  | reportProgress _ _ _ | updateControlProfile _ _ | failTask _ _ =>
    obtain rfl := some.inj hsent
    obtain ⟨task,hload,h⟩ := bind_eq_ok_iff.mp h
    obtain rfl := ok.inj h
    exact ⟨⟨task,rfl,hload⟩,_,rfl⟩
  | ackControl _ _ _ _ =>
    obtain rfl := some.inj hsent
    obtain ⟨task,hload,h⟩ := bind_eq_ok_iff.mp h
    split at h
    · exact absurd h (by simp)
    · obtain ⟨-,h⟩ := ite_error_eq_ok.mp h
      obtain rfl := ok.inj h
      exact ⟨⟨task,rfl,hload⟩,_,rfl⟩
  | _ => exact absurd hsent (by simp [TaskRequest.envelope?])

theorem Planned.creates {args : CreateTaskArgs} (h : Planned env s ctx request prepared)
    (hplan : prepared.plan = .create args) : CreateAsks env s ctx request args := by
  cases h with
  | write written _ => rcases written with rfl | rfl <;> exact absurd hplan (by simp)
  | create asked =>
    obtain rfl := TaskPlan.create.inj hplan
    exact asked
  | _ => exact absurd hplan (by simp)

theorem Planned.recurses {batch : Batch} (h : Planned env s ctx request prepared)
    (hplan : prepared.plan = .recurse batch) :
    ∃ req task, request = .requestControl req ∧ req.recursive = true ∧
      prepared.task = some task ∧ loadTask s req.taskId = .ok task ∧
      s.collectSubtree task maxRecursiveControlNodes = .ok batch.rest ∧
      batch.rootId = task.taskId ∧ batch.action = req.action ∧ batch.requestId = req.requestId := by
  cases h with
  | write written _ => rcases written with rfl | rfl <;> exact absurd hplan (by simp)
  | @recurse req task subtree asked recursive loaded collected =>
    obtain rfl := TaskPlan.recurse.inj hplan
    exact ⟨req,task,asked,recursive,rfl,loaded,collected,rfl,rfl,rfl⟩
  | _ => exact absurd hplan (by simp)

theorem Planned.asked {write : TaskWrite} (h : Planned env s ctx request prepared)
    (hwrite : prepared.plan.taskWrite? = some write) : Asked s ctx request prepared.task write := by
  cases h with
  | write written asked =>
    rcases written with rfl | rfl
    · obtain rfl := some.inj hwrite
      exact asked
    · obtain rfl := some.inj hwrite
      exact asked
  | _ => exact absurd hwrite (by simp [TaskPlan.taskWrite?])

end Prepare

section Stores
variable {env : TaskEnv} {s s' : TaskStore} {stamp : Stamp} {flight : Flight}

def Flight.writing (flight : Flight) : Option (Option Task × TaskWrite) :=
  match flight.plan with
  | .recurse _ => flight.node.map (fun entry => (some entry.1,entry.2))
  | plan => plan.taskWrite?.map (fun write => (flight.seen,write))

inductive Stores (env : TaskEnv) (flight : Flight) (stamp : Stamp) (s s' : TaskStore) : Prop
  | write {seen write outcome} (planned : flight.writing = some (seen,write))
    (stored : s.mutateTask stamp write = .ok (outcome,s'))
  | create {args task} (planned : flight.plan = .create args)
    (stored : s.createTask stamp env args = .ok (task,s'))
  | assign {taskId actor add remove revision outcome}
    (planned : flight.plan = .assign taskId actor add remove revision)
    (stored : s.updateAssignees stamp taskId actor add remove revision = .ok (outcome,s'))
  | grant {taskId actor spec revision outcome}
    (planned : flight.plan = .grant taskId actor spec revision)
    (stored : s.insertGrant stamp taskId actor spec revision = .ok (outcome,s'))
  | revoke {taskId actor grantId revision outcome}
    (planned : flight.plan = .revoke taskId actor grantId revision)
    (stored : s.revokeGrant stamp taskId actor grantId revision = .ok (outcome,s'))
  | registerSchema {schema published} (planned : flight.plan = .registerSchema schema)
    (stored : s.registerSchema stamp schema = .ok (published,s'))
  | setSchemaEnabled {schemaId version enabled schema}
    (planned : flight.plan = .setSchemaEnabled schemaId version enabled)
    (stored : s.setSchemaEnabled schemaId version enabled = .ok (schema,s'))
  | addNote {note} (planned : flight.plan = .addNote note) (stored : (s.addTaskNote note).2 = s')

theorem answered_store {α : Type} {respond : α → TaskResponse} {outcome : Except RpcError (α × TaskStore)} :
    (answered s respond outcome).2 = s ∨ ∃ a, outcome = .ok (a,(answered s respond outcome).2) := by
  cases outcome with
  | error error => exact .inl rfl
  | ok done => exact .inr ⟨done.1,rfl⟩

theorem carryOut_stores (hplan : ∀ batch, flight.plan ≠ .recurse batch) :
    (carryOut env flight.ctx s (fun _ => stamp) flight.plan).2 = s ∨
      Stores env flight stamp s (carryOut env flight.ctx s (fun _ => stamp) flight.plan).2 := by
  cases h : flight.plan with
  | answer response => exact .inl rfl
  | recurse batch => exact absurd h (hplan batch)
  | write write | control write =>
    refine answered_store.imp_right ?_
    rintro ⟨outcome,hstored⟩
    exact .write (by rw [Flight.writing,h]; rfl) hstored
  | create | assign | grant | revoke | registerSchema | setSchemaEnabled =>
    refine answered_store.imp_right ?_
    rintro ⟨_,hstored⟩
    first
      | exact .create h hstored | exact .assign h hstored | exact .grant h hstored
      | exact .revoke h hstored | exact .registerSchema h hstored | exact .setSchemaEnabled h hstored
  | addNote note => exact .inr (.addNote h rfl)

/-- A flight after a step of a recursive request: the next task is booked, or a write is made up. -/
inductive Flight.Moves (env : TaskEnv) (s : TaskStore) : Flight → Flight → Prop
  | book {flight batch node rest verdict} (planned : flight.plan = .recurse batch)
    (next : batch.rest = node :: rest) :
    Moves env s flight {flight with plan := .recurse (batch.book node rest verdict), node := none}
  | look {flight batch node rest now write} (planned : flight.plan = .recurse batch)
    (next : batch.rest = node :: rest)
    (prepared : batch.prepareNode env s flight.ctx now node = .ok (.write write)) :
    Moves env s flight {flight with node := some (node,write)}

end Stores

namespace TaskServer
variable {env : TaskEnv} {server : TaskServer} {stamp : Stamp} {index : ℕ}
variable {store : TaskStore} {flight : Flight}

theorem land_flights {answer : Except RpcError TaskResponse}
    (h : flight ∈ (server.land index store answer).2.flights) : flight ∈ server.flights :=
  List.mem_of_mem_eraseIdx h

theorem stay_flights {moved : Flight} (h : flight ∈ (server.stay index store moved).2.flights) :
    flight ∈ server.flights ∨ flight = moved := List.mem_or_eq_of_mem_set h

theorem advanceBatch_cases {batch : Batch} (hplan : flight.plan = .recurse batch)
    (hmem : flight ∈ server.flights) :
    ((server.advanceBatch env index stamp flight batch).2.store = server.store ∨
      Stores env flight stamp server.store (server.advanceBatch env index stamp flight batch).2.store) ∧
    ∀ flight' ∈ (server.advanceBatch env index stamp flight batch).2.flights,
      flight' ∈ server.flights ∨ ∃ flight ∈ server.flights, flight.Moves env server.store flight' := by
  cases hrest : batch.rest with
  | nil =>
    simp only [advanceBatch,hrest]
    exact ⟨.inl rfl,fun _ h => .inl (land_flights h)⟩
  | cons node rest =>
    have hbook : ∀ verdict, flight.Moves env server.store
        {flight with plan := .recurse (batch.book node rest verdict), node := none} :=
      fun _ => .book hplan hrest
    cases hnode : flight.node with
    | none =>
      cases hprepared : batch.prepareNode env server.store flight.ctx stamp.now node with
      | error error =>
        simp only [advanceBatch,hrest,hnode,hprepared]
        exact ⟨.inl rfl,fun _ h => .inl (land_flights h)⟩
      | ok plan =>
        cases plan with
        | settled verdict =>
          simp only [advanceBatch,hrest,hnode,hprepared]
          refine ⟨.inl rfl,fun _ h => (stay_flights h).imp_right ?_⟩
          rintro rfl
          exact ⟨flight,hmem,hbook verdict⟩
        | write write =>
          simp only [advanceBatch,hrest,hnode,hprepared]
          refine ⟨.inl rfl,fun _ h => (stay_flights h).imp_right ?_⟩
          rintro rfl
          exact ⟨flight,hmem,.look hplan hrest hprepared⟩
    | some entry =>
      have hwriting : flight.writing = some (some entry.1,entry.2) := by
        rw [Flight.writing,hplan,hnode]
        rfl
      cases hstored : server.store.mutateTask stamp entry.2 with
      | ok done =>
        simp only [advanceBatch,hrest,hnode,hstored]
        refine ⟨.inr (.write hwriting hstored),fun _ h => (stay_flights h).imp_right ?_⟩
        rintro rfl
        exact ⟨flight,hmem,hbook .requested⟩
      | error error =>
        cases hverdict : verdictOf error with
        | none =>
          simp only [advanceBatch,hrest,hnode,hstored,hverdict]
          exact ⟨.inl rfl,fun _ h => .inl (land_flights h)⟩
        | some verdict =>
          simp only [advanceBatch,hrest,hnode,hstored,hverdict]
          refine ⟨.inl rfl,fun _ h => (stay_flights h).imp_right ?_⟩
          rintro rfl
          exact ⟨flight,hmem,hbook verdict⟩

theorem advance_cases : ((server.advance env index stamp).2.store = server.store ∨
      ∃ flight, server.flights[index]? = some flight ∧
        Stores env flight stamp server.store (server.advance env index stamp).2.store) ∧
    ∀ flight' ∈ (server.advance env index stamp).2.flights, flight' ∈ server.flights ∨
      ∃ flight ∈ server.flights, flight.Moves env server.store flight' := by
  cases hindex : server.flights[index]? with
  | none =>
    simp only [advance,hindex]
    exact ⟨.inl True.intro,fun _ h => .inl h⟩
  | some flight =>
    have hmem := List.mem_of_getElem? hindex
    by_cases hbatch : ∃ batch, flight.plan = .recurse batch
    · obtain ⟨batch,hplan⟩ := hbatch
      simp only [advance,hindex,hplan]
      obtain ⟨hstore,hflights⟩ := @advanceBatch_cases env server stamp index flight batch hplan hmem
      exact ⟨hstore.imp_right (fun h => ⟨flight,rfl,h⟩),hflights⟩
    · push Not at hbatch
      have hadvance : server.advance env index stamp =
          server.land index (carryOut env flight.ctx server.store (fun _ => stamp) flight.plan).2
            (carryOut env flight.ctx server.store (fun _ => stamp) flight.plan).1 := by
        simp only [advance,hindex]
      rw [hadvance]
      exact ⟨(carryOut_stores hbatch).imp_right (fun h => ⟨flight,rfl,h⟩),fun _ h => .inl (land_flights h)⟩

theorem start_cases {ctx : RequestContext} {request : TaskRequest} {now : ℕ} :
    (server.start env ctx request now).2.store = server.store ∧
    ∀ flight' ∈ (server.start env ctx request now).2.flights, flight' ∈ server.flights ∨
      (flight'.ctx = ctx ∧ flight'.request = request ∧ flight'.node = none ∧
        prepare env server.store ctx now request = .ok ⟨flight'.seen,flight'.plan⟩) := by
  rw [start]
  split
  · exact ⟨rfl,fun _ h => .inl h⟩
  · exact ⟨rfl,fun _ h => .inl h⟩
  · rename_i seen plan _ hprepare
    refine ⟨rfl,?_⟩
    intro flight' h
    rcases List.mem_append.mp h with h | h
    · exact .inl h
    · rw [List.mem_singleton] at h
      subst h
      exact .inr ⟨rfl,rfl,rfl,hprepare⟩

end TaskServer

theorem prepareNode_write {env : TaskEnv} {s : TaskStore} {ctx : RequestContext} {now : ℕ}
    {batch : Batch} {node : Task} {write : TaskWrite}
    (h : batch.prepareNode env s ctx now node = .ok (.write write)) :
    requestControlSingle ctx now node batch.action (batch.nodeRequestId node) none = .ok (.write write) := by
  rw [Batch.prepareNode] at h
  split at h
  · exact absurd h (by simp)
  · split at h
    · exact absurd h (by simp)
    · obtain ⟨permission,-,h⟩ := bind_eq_ok_iff.mp h
      split at h
      · exact absurd h (by simp [pure,Except.pure])
      · split at h
        · exact absurd h (by simp [pure,Except.pure])
        · rename_i hsingle
          obtain rfl := NodePlan.write.inj (ok.inj h)
          exact hsingle
        · split at h
          · exact absurd h (by simp [pure,Except.pure])
          · exact absurd h (by simp)

section Sprung
open TaskStore

variable {env : TaskEnv} {s s' : TaskStore} {stamp : Stamp} {flight flight' : Flight}

structure Batch.Continues (batch₀ batch : Batch) : Prop where
  rest : batch.rest <:+ batch₀.rest
  rootId : batch.rootId = batch₀.rootId
  action : batch.action = batch₀.action
  requestId : batch.requestId = batch₀.requestId

/-- A call in flight read an earlier store: its plan is the one it made then, or a recursive request
further on; what it made up for a task it made up from an earlier store too. -/
structure Flight.Sprung (env : TaskEnv) (s : TaskStore) (flight : Flight) : Prop where
  planned : ∃ s₀ now plan, s₀.Keyed ∧ Later s₀ s ∧
    prepare env s₀ flight.ctx now flight.request = .ok ⟨flight.seen,plan⟩ ∧
    (flight.plan = plan ∨ ∃ batch₀ batch, plan = .recurse batch₀ ∧ flight.plan = .recurse batch ∧
      batch₀.Continues batch)
  noted : ∀ node write, flight.node = some (node,write) → ∃ s₁ now batch rest, Later s₁ s ∧
    flight.plan = .recurse batch ∧ batch.rest = node :: rest ∧
    batch.prepareNode env s₁ flight.ctx now node = .ok (.write write)

theorem Flight.Sprung.mono (h : flight.Sprung env s) (hlater : Later s s') : flight.Sprung env s' where
  planned := by
    obtain ⟨s₀,now,plan,hkeyed,h₀,hprepare,hplan⟩ := h.planned
    exact ⟨s₀,now,plan,hkeyed,h₀.trans hlater,hprepare,hplan⟩
  noted node write hnode := by
    obtain ⟨s₁,now,batch,rest,h₁,hplan,hrest,hprepared⟩ := h.noted node write hnode
    exact ⟨s₁,now,batch,rest,h₁.trans hlater,hplan,hrest,hprepared⟩

theorem Flight.Moves.same (h : flight.Moves env s flight') :
    flight'.ctx = flight.ctx ∧ flight'.request = flight.request ∧ flight'.seen = flight.seen := by
  cases h <;> exact ⟨rfl,rfl,rfl⟩

theorem Flight.Moves.sprung (h : flight.Moves env s flight') (hsprung : flight.Sprung env s) :
    flight'.Sprung env s := by
  obtain ⟨s₀,now₀,plan,hkeyed,h₀,hprepare,hplan⟩ := hsprung.planned
  cases h with
  | @book batch node rest verdict planned next =>
    refine ⟨⟨s₀,now₀,plan,hkeyed,h₀,hprepare,.inr ?_⟩,fun _ _ h => absurd h (by simp)⟩
    have hshorter : rest <:+ batch.rest := ⟨[node],next.symm⟩
    rcases hplan with rfl | ⟨batch₀,batch',rfl,hbatch,hcontinues⟩
    · exact ⟨batch,_,planned,rfl,hshorter,rfl,rfl,rfl⟩
    · obtain rfl : batch' = batch := TaskPlan.recurse.inj (hbatch.symm.trans planned)
      exact ⟨batch₀,_,rfl,rfl,hshorter.trans hcontinues.rest,hcontinues.rootId,hcontinues.action,
        hcontinues.requestId⟩
  | @look batch node rest now write planned next prepared =>
    refine ⟨⟨s₀,now₀,plan,hkeyed,h₀,hprepare,hplan⟩,?_⟩
    rintro node' write' hnode
    obtain ⟨rfl,rfl⟩ := Prod.mk.inj (some.inj hnode)
    exact ⟨s,now,batch,rest,Later.refl s,planned,next,prepared⟩

theorem registerSchema_rows {schema published : TaskSchemaDefinition}
    (h : s.registerSchema stamp schema = .ok (published,s')) :
    s'.tasks = s.tasks ∧ s'.assignees = s.assignees ∧ s'.events = s.events := by
  rw [registerSchema] at h
  split at h
  · split at h
    · obtain ⟨-,rfl⟩ := Prod.mk.inj (ok.inj h)
      exact ⟨rfl,rfl,rfl⟩
    · exact absurd h (by simp)
  · obtain ⟨-,rfl⟩ := Prod.mk.inj (ok.inj h)
    exact ⟨rfl,rfl,rfl⟩

theorem setSchemaEnabled_rows {schemaId : String} {version : ℕ} {enabled : Bool}
    {schema : TaskSchemaDefinition} (h : s.setSchemaEnabled schemaId version enabled = .ok (schema,s')) :
    s'.tasks = s.tasks ∧ s'.assignees = s.assignees ∧ s'.events = s.events := by
  rw [setSchemaEnabled] at h
  split at h
  · obtain ⟨_,-,h⟩ := bind_eq_ok_iff.mp h
    obtain ⟨-,rfl⟩ := Prod.mk.inj (ok.inj h)
    exact ⟨rfl,rfl,rfl⟩
  · exact absurd h (by simp)

/-- Every write is a rewrite of one row, a creation, or leaves the tasks and their events. -/
inductive Written (env : TaskEnv) (flight : Flight) (stamp : Stamp) (s s' : TaskStore) : Prop
  | change {seen write task changed} (planned : flight.writing = some (seen,write))
    (found : s.getTask write.taskId = some task)
    (expected : ∀ revision ∈ write.expectedRevision, task.revision = revision)
    (applied : write.change.apply stamp.now task = .ok changed)
    (rewrite : Rewrite s s' task.bare (changed.next stamp.now).bare
      (rowEvent stamp changed write.eventType write.actor write.payload))
  | touch {task event} (row : s.tasks.get? task.taskId = some task)
    (kind : event.eventType = .assigneesChanged ∨ event.eventType = .accessGranted ∨
      event.eventType = .accessRevoked)
    (rewrite : Rewrite s s' task (task.next stamp.now) event)
  | create {args rootId} (planned : flight.plan = .create args)
    (creation : Creation env stamp args s s' rootId)
  | aside (tasks : s'.tasks = s.tasks) (assignees : s'.assignees = s.assignees)
    (events : s'.events = s.events)

theorem Stores.written (h : Stores env flight stamp s s') (hs : s.Keyed) :
    Written env flight stamp s s' := by
  cases h with
  | write planned stored =>
    obtain ⟨task,changed,hfound,hexpected,happlied,-,-,hrewrite⟩ := mutateTask_ok hs stored
    exact .change planned hfound hexpected happlied hrewrite
  | create planned stored =>
    rcases createTask_ok stored with ⟨rfl,-⟩ | ⟨rootId,hcreation,-⟩
    · exact .aside rfl rfl rfl
    · exact .create planned hcreation
  | assign planned stored =>
    obtain ⟨task,hevent,hrewrite⟩ := updateAssignees_ok hs stored
    exact .touch hrewrite.found (.inl hevent) hrewrite
  | grant planned stored =>
    obtain ⟨task,hevent,hrewrite⟩ := insertGrant_ok hs stored
    exact .touch hrewrite.found (.inr (.inl hevent)) hrewrite
  | revoke planned stored =>
    obtain ⟨task,hevent,hrewrite⟩ := revokeGrant_ok hs stored
    exact .touch hrewrite.found (.inr (.inr hevent)) hrewrite
  | registerSchema planned stored =>
    obtain ⟨htasks,hassignees,hevents⟩ := registerSchema_rows stored
    exact .aside htasks hassignees hevents
  | setSchemaEnabled planned stored =>
    obtain ⟨htasks,hassignees,hevents⟩ := setSchemaEnabled_rows stored
    exact .aside htasks hassignees hevents
  | addNote planned stored =>
    subst stored
    exact .aside rfl rfl rfl

theorem Written.later (h : Written env flight stamp s s') : Later s s' := by
  cases h with
  | change _ _ _ _ rewrite | touch _ _ rewrite => exact rewrite.later
  | create _ creation => exact creation.later
  | aside tasks assignees _ => exact Later.of_rows tasks assignees

theorem Written.keyed (h : Written env flight stamp s s') (hs : s.Keyed) : s'.Keyed := by
  cases h with
  | change _ _ _ _ rewrite | touch _ _ rewrite => exact rewrite.keyed hs
  | create _ creation => exact creation.keyed hs
  | aside tasks _ _ =>
    constructor
    · intro id row hrow
      rw [tasks] at hrow
      exact hs.taskId hrow
    · intro id row hrow
      rw [tasks] at hrow
      exact hs.assignees hrow

/-- The rows of the store are in order, and every call in flight read an earlier store. -/
structure TaskServer.Sprung (env : TaskEnv) (server : TaskServer) : Prop where
  keyed : server.store.Keyed
  flights : ∀ flight ∈ server.flights, flight.Sprung env server.store

variable {server : TaskServer}

theorem TaskServer.sprung_of_idle (hkeyed : server.store.Keyed) (hidle : server.flights = []) :
    server.Sprung env := ⟨hkeyed,by simp [hidle]⟩

theorem TaskServer.step_written (hserver : server.Sprung env) (input : TaskInput) :
    (server.step env input).2.store = server.store ∨
    ∃ index stamp flight, input = .advance index stamp ∧ server.flights[index]? = some flight ∧
      Stores env flight stamp server.store (server.step env input).2.store ∧
      Written env flight stamp server.store (server.step env input).2.store := by
  cases input with
  | start ctx request now => exact .inl start_cases.1
  | advance index stamp =>
    refine advance_cases.1.imp_right ?_
    rintro ⟨flight,hflight,hstores⟩
    exact ⟨index,stamp,flight,rfl,hflight,hstores,hstores.written hserver.keyed⟩

theorem TaskServer.step_later (hserver : server.Sprung env) (input : TaskInput) :
    Later server.store (server.step env input).2.store := by
  rcases step_written hserver input with h | ⟨_,_,_,_,_,_,hwritten⟩
  · rw [h]
    exact Later.refl _
  · exact hwritten.later

theorem TaskServer.step_sprung (hserver : server.Sprung env) (input : TaskInput) :
    (server.step env input).2.Sprung env where
  keyed := by
    rcases step_written hserver input with h | ⟨_,_,_,_,_,_,hwritten⟩
    · rw [h]
      exact hserver.keyed
    · exact hwritten.keyed hserver.keyed
  flights := by
    have hlater := step_later hserver input
    intro flight' hflight'
    refine Flight.Sprung.mono ?_ hlater
    cases input with
    | start ctx request now =>
      rcases start_cases.2 flight' hflight' with h | ⟨rfl,rfl,hnode,hprepare⟩
      · exact hserver.flights flight' h
      · refine ⟨⟨_,now,_,hserver.keyed,Later.refl _,hprepare,.inl rfl⟩,?_⟩
        intro node write h
        rw [hnode] at h
        exact absurd h (by simp)
    | advance index stamp =>
      rcases advance_cases.2 flight' hflight' with h | ⟨flight,hflight,hmoves⟩
      · exact hserver.flights flight' h
      · exact hmoves.sprung (hserver.flights flight hflight)

/-- Where the write of a call in flight comes from: the call asked for it from what it read, or it
was made up for a task that a recursive request had collected. -/
theorem Flight.Sprung.origin (h : flight.Sprung env s) {seen : Option Task} {write : TaskWrite}
    (hwriting : flight.writing = some (seen,write)) : (seen = flight.seen ∧ ∃ s₀, s₀.Keyed ∧ Later s₀ s ∧
      Asked s₀ flight.ctx flight.request flight.seen write) ∨
    ∃ s₀ req task node subtree requestId now, s₀.Keyed ∧ Later s₀ s ∧
      flight.request = .requestControl req ∧ req.recursive = true ∧ loadTask s₀ req.taskId = .ok task ∧
      s₀.collectSubtree task maxRecursiveControlNodes = .ok subtree ∧ node ∈ subtree ∧ seen = some node ∧
      requestControlSingle flight.ctx now node req.action requestId none = .ok (.write write) := by
  obtain ⟨s₀,now₀,plan,hkeyed,h₀,hprepare,hplan⟩ := h.planned
  have hplanned := prepare_planned hprepare
  by_cases hbatch : ∃ batch, flight.plan = .recurse batch
  · obtain ⟨batch,hbatch⟩ := hbatch
    have hnode : ∃ node, flight.node = some (node,write) ∧ seen = some node := by
      rw [Flight.writing,hbatch] at hwriting
      obtain ⟨⟨node,write'⟩,hnode,heq⟩ := map_eq_some_iff.mp hwriting
      obtain ⟨rfl,rfl⟩ := Prod.mk.inj heq
      exact ⟨node,hnode,rfl⟩
    obtain ⟨node,hnode,rfl⟩ := hnode
    obtain ⟨s₁,now,batch',rest,-,hbatch',hrest,hprepared⟩ := h.noted node write hnode
    obtain rfl : batch' = batch := TaskPlan.recurse.inj (hbatch'.symm.trans hbatch)
    have hcontinues : ∃ batch₀, plan = .recurse batch₀ ∧ batch₀.Continues batch' := by
      rcases hplan with rfl | ⟨batch₀,batch'',rfl,hbatch'',hcontinues⟩
      · exact ⟨batch',hbatch,List.suffix_refl _,rfl,rfl,rfl⟩
      · obtain rfl : batch'' = batch' := TaskPlan.recurse.inj (hbatch''.symm.trans hbatch)
        exact ⟨batch₀,rfl,hcontinues⟩
    obtain ⟨batch₀,rfl,hcontinues⟩ := hcontinues
    obtain ⟨req,task,hrequest,hrecursive,-,hload,hcollected,-,haction,-⟩ := hplanned.recurses rfl
    have hmem : node ∈ batch₀.rest := hcontinues.rest.subset (by rw [hrest]; simp)
    refine .inr ⟨s₀,req,task,node,batch₀.rest,batch'.nodeRequestId node,now,hkeyed,h₀,hrequest,
      hrecursive,hload,hcollected,hmem,rfl,?_⟩
    rw [← haction,← hcontinues.action]
    exact prepareNode_write hprepared
  · push Not at hbatch
    have hsame : flight.plan = plan := by
      rcases hplan with hplan | ⟨_,batch,_,hplan,_⟩
      · exact hplan
      · exact absurd hplan (hbatch batch)
    subst hsame
    have hwrite : flight.plan.taskWrite? = some write ∧ flight.seen = seen := by
      rw [Flight.writing] at hwriting
      split at hwriting
      · rename_i batch hplan
        exact absurd hplan (hbatch batch)
      · obtain ⟨write',hwrite,heq⟩ := map_eq_some_iff.mp hwriting
        obtain ⟨rfl,rfl⟩ := Prod.mk.inj heq
        exact ⟨hwrite,rfl⟩
    obtain ⟨hwrite,rfl⟩ := hwrite
    exact .inl ⟨rfl,s₀,hkeyed,h₀,hplanned.asked hwrite⟩

theorem Flight.Sprung.creates (h : flight.Sprung env s) {args : CreateTaskArgs}
    (hplan : flight.plan = .create args) :
    ∃ s₀, s₀.Keyed ∧ Later s₀ s ∧ CreateAsks env s₀ flight.ctx flight.request args := by
  obtain ⟨s₀,now,plan,hkeyed,hlater,hprepare,hsame | ⟨_,batch,_,hbatch,_⟩⟩ := h.planned
  · exact ⟨s₀,hkeyed,hlater,(prepare_planned hprepare).creates (hsame.symm.trans hplan)⟩
  · rw [hplan] at hbatch
    exact absurd hbatch (by simp)

theorem CreateAsks.phase {ctx : RequestContext} {request : TaskRequest} {args : CreateTaskArgs}
    (h : CreateAsks env s ctx request args) : args.phase ≠ .terminal := by
  cases h with
  | @plain req executor assignees phase waitReason schema initial _ _ =>
    change phase ≠ .terminal
    cases hexecutor : req.executor with
    | selfApp instanceId =>
      rw [hexecutor] at initial
      obtain ⟨-,-,rfl,-⟩ := Prod.mk.inj (ok.inj initial)
      simp
    | humanSet users =>
      rw [hexecutor] at initial
      obtain ⟨-,initial⟩ := ite_error_eq_ok.mp initial
      obtain ⟨-,-,rfl,-⟩ := Prod.mk.inj (ok.inj initial)
      simp
  | delegated => simp [CreateDelegatedTaskReq.args]
  | promised => simp [CreatePromisedTaskReq.args]

end Sprung
end BuckyOS.TaskManager
