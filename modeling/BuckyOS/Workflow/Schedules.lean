import BuckyOS.Lib.Machine
import BuckyOS.Lib.Registry
import BuckyOS.Workflow.Cron

/-! The schedules of the workflow service: what is kept of them in memory and in the task database,
how they fire, and the calls that scan, fire, pause, resume and update them. The process may end at
every call to the outside; what was in memory is then gone. -/
namespace BuckyOS.Workflow
open Fallible

inductive ScheduleStatus where
  | running
  | paused
  | failed
  | canceled
deriving DecidableEq

inductive MisfirePolicy where
  | skip
  | runOnce
  | catchUp
  | manual
deriving DecidableEq

structure SchedulePolicy where
  misfire : MisfirePolicy := .runOnce
  catchUpLimit : ℕ := 1
deriving DecidableEq

structure ScheduleState where
  nextFireAt : Option ℤ := none
  lastFireAt : Option ℤ := none
  lastTaskId : Option String := none
  lastRunId : Option String := none
  consecutiveFailures : ℕ := 0
  lastError : Option String := none
deriving DecidableEq

structure ScheduleTarget where
  taskType : String
  nameTemplate : String := ""
  dataTemplate : Json := .null
deriving DecidableEq

structure WorkflowSchedule where
  scheduleId : String
  status : ScheduleStatus := .running
  spec : ScheduleSpec
  target : ScheduleTarget
  state : ScheduleState := {}
  policy : SchedulePolicy := {}
  rootTaskId : Option String := none
deriving DecidableEq

inductive FireStatus where
  | created
  | taskCreated
  | skipped
  | failed
deriving DecidableEq

structure ScheduleFireRecord where
  scheduleId : String
  fireTime : ℤ
  byHand : Bool
  status : FireStatus := .created
  taskId : Option String := none
  runId : Option String := none
  error : Option String := none
deriving DecidableEq

abbrev FireKey := String × ℤ

def ScheduleFireRecord.key (fire : ScheduleFireRecord) : FireKey := (fire.scheduleId,fire.fireTime)

/-- A task or a run that a fire has created. -/
structure FireTarget where
  key : FireKey
  id : String
  isRun : Bool
deriving DecidableEq

/-- The service with the task database. The targets created are kept as a record of what happened;
a subtask is found again under the key of its fire. -/
structure ScheduleServer where
  schedules : OrderedMap String WorkflowSchedule := .empty
  fires : Registry ScheduleFireRecord.key := .empty
  hydrated : Bool := false
  saved : OrderedMap String WorkflowSchedule := .empty
  targets : List FireTarget := []
  calls : ℕ := 0

structure ScheduleEnv where
  ends : ℕ → Bool := fun _ => false
  loads : ℕ → Bool := fun _ => true
  saves : ℕ → Bool := fun _ => true
  activeRuns : ℕ → ℕ := fun _ => 0
  renderedType : ScheduleTarget → FireKey → Bool → String := fun target _ _ => target.taskType
  createRun : ℕ → Except String String
  findSubtask : ℕ → Option String := fun _ => none
  createSubtask : ℕ → Except String String

/-- A computation of the service; it fails when the process ends. -/
abbrev Scheduling (α : Type) := Fallible ScheduleServer Unit α

section Times
def catchUpTimes (now : ℤ) (spec : ScheduleSpec) : ℕ → ℤ → List ℤ
  | 0, _ => []
  | limit + 1, cursor =>
    if cursor ≤ now then
      cursor ::
        match nextFireAfter now spec cursor with
        | none => []
        | some next => catchUpTimes now spec limit next
    else []

/-- The times to fire a schedule at, the time it is due next, and what is noted instead. -/
def dueFireTimes (schedule : WorkflowSchedule) (now : ℤ) :
    List ℤ × Option ℤ × Option String :=
  match schedule.state.nextFireAt with
  | none => ([],none,none)
  | some nextFireAt =>
    if now < nextFireAt then ([],some nextFireAt,none)
    else
      let next := nextFireAfter now schedule.spec now
      match schedule.policy.misfire with
      | .skip => ([],next,none)
      | .manual => ([],next,some "schedule_missed_manual")
      | .runOnce => ([nextFireAt],next,none)
      | .catchUp => (catchUpTimes now schedule.spec (max schedule.policy.catchUpLimit 1) nextFireAt,
          next,none)

def initialNextFireAt (spec : ScheduleSpec) (now : ℤ) : Option ℤ :=
  match spec with
  | .once runAt _ => if runAt ≤ now then some runAt else nextFireAfter now spec now
  | _ => nextFireAfter now spec now

end Times

namespace WorkflowSchedule
def failedFire (error : String) (schedule : WorkflowSchedule) : WorkflowSchedule :=
  {schedule with
    status := .failed
    state := {schedule.state with
      consecutiveFailures := min (schedule.state.consecutiveFailures + 1) (2 ^ 32 - 1)
      lastError := some error}}

def skippedFire (now : ℤ) (fire : ScheduleFireRecord) (schedule : WorkflowSchedule) :
    WorkflowSchedule :=
  {schedule with
    state := {schedule.state with
      lastFireAt := some fire.fireTime
      lastError := some "previous_run_still_active"
      nextFireAt :=
        if fire.byHand then schedule.state.nextFireAt
        else nextFireAfter now schedule.spec fire.fireTime}}

def succeededFire (now : ℤ) (fire : ScheduleFireRecord) (schedule : WorkflowSchedule) :
    WorkflowSchedule :=
  let state := {schedule.state with
    lastFireAt := some fire.fireTime
    lastTaskId := fire.taskId
    lastRunId := fire.runId
    consecutiveFailures := 0
    lastError := none}
  match schedule.spec with
  | .once .. => {schedule with status := .canceled, state := {state with nextFireAt := none}}
  | spec => {schedule with
      state :=
        if isRebootSchedule spec then {state with nextFireAt := none}
        else if fire.byHand then state
        else {state with nextFireAt := nextFireAfter now spec fire.fireTime}}

end WorkflowSchedule

namespace ScheduleServer
variable (scheduleId : String) (now : ℤ) (s : ScheduleServer)

/-- A saved schedule as it comes into memory. -/
def rearmed (schedule : WorkflowSchedule) : WorkflowSchedule :=
  if schedule.status = .running ∧ isRebootSchedule schedule.spec then
    {schedule with state := {schedule.state with nextFireAt := some now}}
  else schedule

def hydrate : ScheduleServer :=
  {s with
    schedules := s.saved.values.foldl (fun schedules schedule =>
      if schedule.scheduleId ∈ schedules.keys then schedules
      else schedules.insert schedule.scheduleId (rearmed now schedule)) s.schedules
    hydrated := true}

def due (now : ℤ) : List WorkflowSchedule :=
  s.schedules.values.filter (fun schedule =>
    schedule.status = .running ∧ ∃ ts ∈ schedule.state.nextFireAt, ts ≤ now)

def updateSchedule (f : WorkflowSchedule → WorkflowSchedule)
    (s : ScheduleServer) : ScheduleServer :=
  match s.schedules.get? scheduleId with
  | some schedule => {s with schedules := s.schedules.insert scheduleId (f schedule)}
  | none => s

/-- Begin a fire unless one is on record under its key. -/
def beginFire (fireTime : ℤ) (byHand : Bool) (s : ScheduleServer) :
    (ScheduleFireRecord × Bool) × ScheduleServer :=
  match s.fires.find? (scheduleId,fireTime) with
  | some existing => ((existing,false),s)
  | none =>
    let fire : ScheduleFireRecord := {scheduleId := scheduleId, fireTime := fireTime, byHand := byHand}
    ((fire,true),{s with fires := s.fires.insert fire})

def completeFire (fire : ScheduleFireRecord) (s : ScheduleServer) : ScheduleServer :=
  {s with fires := s.fires.insert fire}

def restarted : ScheduleServer :=
  {s with schedules := .empty, fires := .empty, hydrated := false}

def subtaskOf (key : FireKey) : Option String :=
  (s.targets.find? (fun target => target.key = key ∧ target.isRun = false)).map FireTarget.id

end ScheduleServer

section
variable (env : ScheduleEnv)

def outward : Scheduling ℕ := fun s =>
  (if env.ends s.calls then .error () else .ok s.calls,{s with calls := s.calls + 1})

variable (now : ℤ) (scheduleId : String) (fire : ScheduleFireRecord)

def saveSchedule : Scheduling Unit := do
  let number ← outward env
  update (fun s =>
    match s.schedules.get? scheduleId with
    | some schedule =>
      if schedule.rootTaskId.isSome ∧ env.saves number then
        {s with saved := s.saved.insert scheduleId schedule}
      else s
    | none => s)

def updateAndSave (f : WorkflowSchedule → WorkflowSchedule) :
    Scheduling Unit := do
  update (ScheduleServer.updateSchedule scheduleId f)
  saveSchedule env scheduleId

inductive FireResult where
  | fired (fire : ScheduleFireRecord)
  | notFound
  | notEnabled
  | fireFailed (message : String)
deriving DecidableEq

def failScheduleFire (error : String) : Scheduling FireResult := do
  update (ScheduleServer.completeFire {fire with status := .failed, error := some error})
  updateAndSave env fire.scheduleId (WorkflowSchedule.failedFire error)
  return .fireFailed error

def completeScheduleAfterSuccess : Scheduling FireResult := do
  update (ScheduleServer.completeFire fire)
  updateAndSave env fire.scheduleId (WorkflowSchedule.succeededFire now fire)
  return .fired fire

def skipFire : Scheduling FireResult := do
  let skipped := {fire with status := .skipped, error := some "previous_run_still_active"}
  update (ScheduleServer.completeFire skipped)
  updateAndSave env fire.scheduleId (WorkflowSchedule.skippedFire now fire)
  return .fired skipped

def fireRun : Scheduling FireResult := do
  let number ← outward env
  match env.createRun number with
  | .error error => failScheduleFire env fire error
  | .ok runId => do
    update (fun s => {s with targets := s.targets ++ [⟨fire.key,runId,true⟩]})
    let number ← outward env
    completeScheduleAfterSuccess env now
      {fire with status := .taskCreated, taskId := env.findSubtask number, runId := some runId}

/-- Create the subtask that a fire is for; the task service creates one under a key only once. -/
def fireSubtask : Scheduling FireResult := do
  let number ← outward env
  let existing ← read (fun s => s.subtaskOf fire.key)
  match existing,env.createSubtask number with
  | _, .error error => failScheduleFire env fire error
  | some taskId, .ok _ =>
    completeScheduleAfterSuccess env now {fire with status := .taskCreated, taskId := some taskId}
  | none, .ok taskId => do
    update (fun s => {s with targets := s.targets ++ [⟨fire.key,taskId,false⟩]})
    completeScheduleAfterSuccess env now {fire with status := .taskCreated, taskId := some taskId}

def carryOut (schedule : WorkflowSchedule) (fire : ScheduleFireRecord) :
    Scheduling FireResult :=
  if schedule.rootTaskId.isNone then failScheduleFire env fire "schedule_root_task_missing"
  else do
    let number ← outward env
    if 0 < env.activeRuns number then skipFire env now fire
    else if env.renderedType schedule.target fire.key fire.byHand = "workflow.run" then
      fireRun env now fire
    else fireSubtask env now fire

def beginFire (scheduleId : String) (fireTime : ℤ) (byHand : Bool) :
    Scheduling (ScheduleFireRecord × Bool) := fun s =>
  (.ok (s.beginFire scheduleId fireTime byHand).1,(s.beginFire scheduleId fireTime byHand).2)

def fireSchedule (fireTime : ℤ) (byHand : Bool) :
    Scheduling FireResult := do
  let found ← read (fun s => s.schedules.get? scheduleId)
  match found with
  | none => return .notFound
  | some schedule =>
    if byHand = false ∧ schedule.status ≠ .running then return .notEnabled
    else do
      let begun ← beginFire scheduleId fireTime byHand
      if begun.2 then carryOut env now schedule begun.1 else return .fired begun.1

def scanSchedule (schedule : WorkflowSchedule) : Scheduling Unit := do
  let (fireTimes,nextFireAt,missed) := dueFireTimes schedule now
  match missed with
  | some error => updateAndSave env schedule.scheduleId (fun schedule => {schedule with
      state := {schedule.state with lastError := some error, nextFireAt := nextFireAt}})
  | none => do
    visit (fun fireTime => do
      let _ ← fireSchedule env now schedule.scheduleId fireTime false) fireTimes
    if schedule.policy.misfire = .skip then
      updateAndSave env schedule.scheduleId (fun schedule => {schedule with
        state := {schedule.state with nextFireAt := nextFireAt}})
    else pure ()

def ensureSchedulesHydrated : Scheduling Unit := do
  let hydrated ← read ScheduleServer.hydrated
  if hydrated then pure ()
  else do
    let number ← outward env
    if env.loads number then update (ScheduleServer.hydrate now) else pure ()

def scanDueSchedules : Scheduling Unit := do
  ensureSchedulesHydrated env now
  let hydrated ← read ScheduleServer.hydrated
  if hydrated then do
    let due ← read (fun s => s.due now)
    visit (scanSchedule env now) due
  else pure ()

structure ScheduleChange where
  spec : Option ScheduleSpec := none
  target : Option ScheduleTarget := none
  policy : Option SchedulePolicy := none
deriving DecidableEq

def ScheduleChange.apply (change : ScheduleChange) (now : ℤ) (schedule : WorkflowSchedule) :
    WorkflowSchedule :=
  let changed : WorkflowSchedule := match change.spec with
    | none => schedule
    | some spec =>
      if schedule.status = .running then
        {schedule with
          spec := spec
          state := {schedule.state with nextFireAt := initialNextFireAt spec now}}
      else {schedule with spec := spec}
  {changed with
    target := change.target.getD changed.target
    policy := change.policy.getD changed.policy}

def setScheduleStatus (status : ScheduleStatus) : Scheduling Unit :=
  updateAndSave env scheduleId (fun schedule => {schedule with
    status := status
    state :=
      if status = .canceled then {schedule.state with nextFireAt := none} else schedule.state})

def resumeScheduledTask : Scheduling Unit :=
  updateAndSave env scheduleId (fun schedule => {schedule with
    status := .running
    state := {schedule.state with
      nextFireAt := initialNextFireAt schedule.spec now
      lastError := none}})

inductive ScheduleCall where
  | scan (now : ℤ)
  | runNow (scheduleId : String) (fireTime now : ℤ)
  | pause (scheduleId : String)
  | resume (scheduleId : String) (now : ℤ)
  | archive (scheduleId : String)
  | update (scheduleId : String) (change : ScheduleChange) (now : ℤ)
  | restart
deriving DecidableEq

def performCall : ScheduleCall → Scheduling Unit
  | .scan now => scanDueSchedules env now
  | .runNow scheduleId fireTime now => do
    let _ ← fireSchedule env now scheduleId fireTime true
  | .pause scheduleId => setScheduleStatus env scheduleId .paused
  | .resume scheduleId now => resumeScheduledTask env now scheduleId
  | .archive scheduleId => setScheduleStatus env scheduleId .canceled
  | .update scheduleId change now => updateAndSave env scheduleId (change.apply now)
  | .restart => fail ()

/-- One call; whether it came to its end, and what it leaves. -/
def ScheduleServer.step (s : ScheduleServer) (call : ScheduleCall) : Bool × ScheduleServer :=
  match performCall env call s with
  | (.ok _,s') => (true,s')
  | (.error _,s') => (false,s'.restarted)

end

end BuckyOS.Workflow
