import BuckyOS.Workflow.Records

/-! The service around the orchestrator: it keeps the runs with their recorded events. A call works on
the stored run in place and records its events when it succeeds. -/
namespace BuckyOS.Workflow
open List OrderedMap Option

inductive DefinitionStatus where
  | draft
  | active
  | archived
deriving DecidableEq

/-- The parts of a stored definition that the calls on runs read. -/
structure DefinitionRecord where
  id : String
  compiled : CompiledWorkflow
  status : DefinitionStatus := .active

structure RunRecord where
  run : WorkflowRun
  workflowId : String
  events : List EventEnvelope := []

namespace RunRecord
def appendEvents (record : RunRecord) (events : List EventEnvelope) : RunRecord :=
  {record with events := record.events ++ events}

def eventsSince (record : RunRecord) (sinceSeq limit : ℕ) : List EventEnvelope :=
  (record.events.filter (fun event => decide (sinceSeq < event.seq))).take limit

end RunRecord

/-- The service. The run and the events of the world are those of the last call; the rest is what
all runs share. -/
structure Server where
  definitions : OrderedMap String DefinitionRecord
  runs : OrderedMap String RunRecord := .empty
  world : World

inductive ServerReply where
  | created (runId : String) (status : RunStatus) (events : List EventEnvelope) (seq : ℕ)
  | done (events : List EventEnvelope) (fromSeq toSeq : ℕ)
  | history (events : List EventEnvelope) (nextSeq : ℕ)
  | notFound (kind id : String)
  | definitionArchived (workflowId : String)
  | failed (error : WorkflowError)

/-- The calls on runs. `tick_run` is `start_run`; human actions reach a run in the data of its tasks,
and reports about thunks as the other calls do. -/
inductive ServerCall where
  | createRun (workflowId runId : String) (metrics : OrderedMap String Json) (autoStart : Bool)
  | startRun (runId : String)
  | submitStepOutput (runId nodeId actor : String) (output : Json)
  | reportStepProgress (runId nodeId actor : String) (progress : Json)
  | requestHuman (runId nodeId actor : String) (prompt : Option String) (subject : Option Json)
  | humanAction (runId : String) (action : HumanAction)
  | thunkReport (runId : String) (result : ThunkExecutionResult)
  | applyRunData (runId : String) (data : WorkflowStepTaskData)
  | getHistory (runId : String) (sinceSeq limit : ℕ)

namespace Server
def put (server : Server) (runId : String) (record : RunRecord) (w : World) : Server :=
  {server with
    runs := server.runs.insert runId record
    world := w}

section
variable (env : Env)

/-- What a call on a run does with its workflow: an answer and what it leaves. -/
abbrev RunCall := CompiledWorkflow → World → WorkflowResult (List EventEnvelope) × World

def once (operation : Operation) : RunCall := fun workflow w => step env workflow w operation

def submitAndTick (nodeId actor : String) (output : Json) : RunCall := fun workflow w =>
  match step env workflow w (.submitStepOutput nodeId actor output) with
  | (.error e,w₁) => (.error e,w₁)
  | (.ok events,w₁) =>
    match step env workflow w₁ .tick with
    | (.error e,w₂) => (.error e,w₂)
    | (.ok more,w₂) => (.ok (events ++ more),w₂)

/-- Take the data of a task and, if it did something, move on; a failure to move on is only
logged. -/
def applyAndTick (data : WorkflowStepTaskData) : RunCall := fun workflow w =>
  match step env workflow w (.taskData data) with
  | (.error e,w₁) => (.error e,w₁)
  | (.ok events,w₁) =>
    if events = [] then (.ok events,w₁)
    else
      match step env workflow w₁ .tick with
      | (.error _,w₂) => (.ok events,w₂)
      | (.ok more,w₂) => (.ok (events ++ more),w₂)

variable (server : Server) (runId : String)

def onRun (call : RunCall) : ServerReply × Server :=
  match server.runs.get? runId with
  | none => (.notFound "run" runId,server)
  | some record =>
    match server.definitions.get? record.workflowId with
    | none => (.notFound "workflow" record.workflowId,server)
    | some definition =>
      match call definition.compiled {server.world with run := record.run} with
      | (.error e,w) => (.failed e,server.put runId {record with run := w.run} w)
      | (.ok events,w) => (.done events record.run.seq w.run.seq,
          server.put runId ({record with run := w.run}.appendEvents events) w)

def createRun (server : Server) (workflowId runId : String) (metrics : OrderedMap String Json)
    (autoStart : Bool) : ServerReply × Server :=
  match server.definitions.get? workflowId with
  | none => (.notFound "workflow" workflowId,server)
  | some definition =>
    if definition.status = .archived then (.definitionArchived workflowId,server)
    else
      match Workflow.createRun env definition.compiled runId metrics server.world with
      | (.error e,w) => (.failed e,{server with world := w})
      | (.ok events,w) =>
        if autoStart then
          match step env definition.compiled w .tick with
          | (.error e,w₁) => (.failed e,{server with world := w₁})
          | (.ok more,w₁) => (.created runId w₁.run.status (events ++ more) w₁.run.seq,
              server.put runId (RunRecord.appendEvents ⟨w₁.run,definition.id,[]⟩ (events ++ more)) w₁)
        else (.created runId w.run.status events w.run.seq,
          server.put runId (RunRecord.appendEvents ⟨w.run,definition.id,[]⟩ events) w)

def getHistory (sinceSeq limit : ℕ) : ServerReply :=
  match server.runs.get? runId with
  | none => .notFound "run" runId
  | some record =>
    let events := record.eventsSince sinceSeq limit
    .history events ((events.getLast?.map EventEnvelope.seq).getD sinceSeq)

def step : ServerCall → ServerReply × Server
  | .createRun workflowId runId metrics autoStart =>
    server.createRun env workflowId runId metrics autoStart
  | .startRun runId => server.onRun runId (once env .tick)
  | .submitStepOutput runId nodeId actor output =>
    server.onRun runId (submitAndTick env nodeId actor output)
  | .reportStepProgress runId nodeId actor progress =>
    server.onRun runId (once env (.reportStepProgress nodeId actor progress))
  | .requestHuman runId nodeId actor prompt subject =>
    server.onRun runId (once env (.requestHuman nodeId actor prompt subject))
  | .humanAction runId action => server.onRun runId (once env (.humanAction action))
  | .thunkReport runId result => server.onRun runId (once env (.thunkResult result))
  | .applyRunData runId data => server.onRun runId (applyAndTick env data)
  | .getHistory runId sinceSeq limit => (server.getHistory runId sinceSeq limit,server)

end
end Server

namespace ServerReply
def isError : ServerReply → Bool
  | .notFound _ _ | .definitionArchived _ | .failed _ => true
  | _ => false

/-- An answer with every event up to the number it names. -/
def isFull : ServerReply → Bool
  | .done events fromSeq toSeq => fromSeq + events.length = toSeq
  | reply => !reply.isError

end ServerReply

def ServerCall.target : ServerCall → Option String
  | .createRun _ _ _ _ => none
  | .startRun runId | .submitStepOutput runId _ _ _ | .reportStepProgress runId _ _ _
  | .requestHuman runId _ _ _ _ | .humanAction runId _ | .thunkReport runId _
  | .applyRunData runId _ => some runId
  | .getHistory _ _ _ => none

def ServerCall.creates : ServerCall → Option String
  | .createRun _ runId _ _ => some runId
  | _ => none

/-- The recorded events stand in the order of their numbers, within those of the run. -/
structure InOrder (record : RunRecord) : Prop where
  increasing : (record.events.map EventEnvelope.seq).Pairwise (· < ·)
  bounded : ∀ event ∈ record.events, 1 ≤ event.seq ∧ event.seq ≤ record.run.seq

structure Told (complete : Prop) (w : World) (r : WorkflowResult (List EventEnvelope) × World) :
    Prop where
  outputs : Furnished r.2.run
  grows : w.run.seq ≤ r.2.run.seq
  numbers : ∀ events, r.1 = .ok events →
    events.map EventEnvelope.seq = List.range' (w.run.seq + 1) events.length ∧
      w.run.seq + events.length ≤ r.2.run.seq ∧ (complete → w.run.seq + events.length = r.2.run.seq)

section Calls
variable (env : Env) (workflow : CompiledWorkflow) {w : World}

theorem Told.mono {complete complete' : Prop} {r : WorkflowResult (List EventEnvelope) × World}
    (h : Told complete w r) (himp : complete' → complete) : Told complete' w r := by
  refine ⟨h.outputs,h.grows,?_⟩
  intro events hevents
  obtain ⟨hnumbers,hle,htotal⟩ := h.numbers events hevents
  exact ⟨hnumbers,hle,fun hc => htotal (himp hc)⟩

theorem Told.append {complete : Prop} {w₁ w₂ : World} {events more : List EventEnvelope}
    (h : Told True w (.ok events,w₁)) (h' : Told True w₁ (.ok more,w₂)) :
    Told complete w (.ok (events ++ more),w₂) := by
  obtain ⟨hnumbers,-,htotal⟩ := h.numbers events rfl
  obtain ⟨hnumbers',-,htotal'⟩ := h'.numbers more rfl
  have hseq : w.run.seq + events.length = w₁.run.seq := htotal trivial
  have hseq' : w₁.run.seq + more.length = w₂.run.seq := htotal' trivial
  refine ⟨h'.outputs,h.grows.trans h'.grows,?_⟩
  rintro _ ⟨⟩
  have hlength : w.run.seq + (events ++ more).length = w₂.run.seq := by
    rw [length_append]
    omega
  refine ⟨?_,hlength.le,fun _ => hlength⟩
  rw [map_append,hnumbers,hnumbers',length_append,range'_append_1.symm]
  congr 2
  omega

end Calls

/-- What a call that works on a run makes of its record. A complete call that succeeds records every
event it emitted. -/
structure Continues (complete : Prop) (reply : ServerReply) (record record' : RunRecord) : Prop where
  done : ∀ events fromSeq toSeq, reply = .done events fromSeq toSeq →
    fromSeq = record.run.seq ∧ toSeq = record'.run.seq ∧
      record'.events = record.events ++ events ∧
      events.map EventEnvelope.seq = List.range' (fromSeq + 1) events.length ∧
      fromSeq + events.length ≤ toSeq ∧ (complete → fromSeq + events.length = toSeq)
  failed : ∀ error, reply = .failed error →
    record'.events = record.events ∧ record.run.seq ≤ record'.run.seq
  refused : ∀ kind id, reply = .notFound kind id → record' = record

variable {record : RunRecord}

structure Sound (record : RunRecord) : Prop where
  order : InOrder record
  outputs : Furnished record.run

def Kept (server : Server) : Prop :=
  ∀ runId record, server.runs.get? runId = some record → Sound record

variable {server : Server}

theorem Kept.put (h : Kept server) {runId : String} (hrecord : Sound record) (w : World) :
    Kept (server.put runId record w) := by
  intro runId' record' hget
  change (server.runs.insert runId record).get? runId' = some record' at hget
  rw [get?_insert] at hget
  split_ifs at hget with hid
  · exact some.inj hget ▸ hrecord
  · exact h runId' record' hget

variable (env : Env)

/-- A call on a run is answered with all its events, or leaves the number of the run. -/
def Server.Records (server : Server) (call : ServerCall) : Prop :=
  ∀ runId record record', call.target = some runId → server.runs.get? runId = some record →
    (server.step env call).2.runs.get? runId = some record' →
      (server.step env call).1.isFull = true ∨ record'.run.seq = record.run.seq

end BuckyOS.Workflow
