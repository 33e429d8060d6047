import BuckyOS.TaskManager.Fencing
import BuckyOS.TaskManager.Subtree

/-! The control protocol under races: what may become of a pending request, and how a task with a
runner comes to be canceled. -/
namespace BuckyOS.TaskManager
open TaskStore Option Except

section Law
variable (env : TaskEnv) (server : TaskServer) (input : TaskInput)

def TaskServer.Acks (taskId : TaskId) (requestId : String) :
    Prop :=
  ∃ index stamp flight envelope applied reason, input = .advance index stamp ∧
    server.flights[index]? = some flight ∧ envelope.taskId = taskId ∧
    flight.request = .ackControl envelope requestId applied reason

def TaskServer.RunnerApplies (row : Task) : Prop :=
  ∃ index stamp flight envelope requestId reason targetId bound, input = .advance index stamp ∧
    server.flights[index]? = some flight ∧ envelope.taskId = row.taskId ∧
    flight.request = .ackControl envelope requestId true reason ∧
    row.executor = .app targetId flight.ctx.appId bound ∧
    (∀ instanceId ∈ bound, envelope.appInstanceId = some instanceId) ∧
    envelope.runnerEpoch = row.runnerEpoch

def TaskEvent.Supersedes (event : TaskEvent) (taskId : TaskId) (old new : TaskControlRequest) :
    Prop :=
  event.eventType = .controlSuperseded ∧ event.taskId = taskId ∧
    event.payload.get? "superseded_request_id" = some (.string old.requestId) ∧
    event.payload.get? "request_id" = some (.string new.requestId)

/-- What a step may make of a pending request: it stays; it is resolved, by an acknowledgement of it
or by the end of the task; or, unless it is a cancel, a cancel takes its place and the event says
so. -/
def TaskServer.KeepsRequest (row row' : Task) (pending : TaskControlRequest) : Prop :=
  row'.pendingControl = some pending ∨
  (row'.pendingControl = none ∧
    (row'.phase = .terminal ∨ server.Acks input row.taskId pending.requestId)) ∨
  (pending.action ≠ .cancel ∧ ∃ request event, row'.pendingControl = some request ∧
    request.action = .cancel ∧ event.Supersedes row.taskId pending request ∧
    (server.step env input).2.store.events = server.store.events ++ [event])

def TaskServer.Lawful : Prop :=
  ∀ id row row', server.store.tasks.get? id = some row →
    (server.step env input).2.store.tasks.get? id = some row' →
    (∀ pending, row.pendingControl = some pending → server.KeepsRequest env input row row' pending) ∧
    (row.executor.kind = .app → row.outcome ≠ some .canceled → row'.outcome = some .canceled →
      server.RunnerApplies input row)

def TaskRequest.controls : TaskRequest → Bool
  | .requestControl _ | .requestDelegatedControl _ | .ackControl _ _ _ _ => true
  | _ => false

/-- A control request or an acknowledgement is stored on the task as it was read: it expects no
revision above the one read, or the task still has that one. -/
def TaskServer.Undisturbed : TaskInput → Prop
  | .start _ _ _ => True
  | .advance index _ => ∀ flight ∈ server.flights[index]?, flight.request.controls = true →
      ∀ seen write, flight.writing = some (some seen,write) →
        (∃ expected ∈ write.expectedRevision, expected ≤ seen.revision) ∨
          ∀ row ∈ server.store.tasks.get? write.taskId, row.revision ≤ seen.revision

end Law

namespace TaskChange
variable {now : ℕ} {task changed : Task}

/-- A pending request goes with the end of the task, with an acknowledgement, or for another
request. -/
theorem apply_pending {change : TaskChange} (h : change.apply now task = .ok changed) :
    changed.pendingControl = task.pendingControl ∨
    (changed.phase = .terminal ∧ changed.pendingControl = none) ∨
    (∃ request, change = requestControl request ∧ changed.pendingControl = some request) ∨
    ∃ applied action completedBy, change = ackControl applied action completedBy ∧
      changed.pendingControl = none := by
  cases change with
  | requestControl request =>
    obtain ⟨-,h⟩ := unlessTerminal_eq_ok.mp h
    obtain rfl := ok.inj h
    exact .inr (.inr (.inl ⟨request,rfl,rfl⟩))
  | ackControl applied action completedBy =>
    refine .inr (.inr (.inr ⟨applied,action,completedBy,rfl,?_⟩))
    cases applied <;> cases action <;>
      simp only [apply,if_true,ite_error_eq_ok,ok.injEq,Bool.false_eq_true,if_false] at h
    case true.cancel =>
      obtain ⟨-,rfl⟩ := h
      rfl
    all_goals
      subst h
      rfl
  | cancelDirect _ | finishPromiseFailure _ _ | cancelPromisedTask _ =>
    simp only [apply,unlessTerminal_eq_ok,ite_error_eq_ok,ok.injEq] at h
    obtain ⟨-,-,rfl⟩ := h
    exact .inr (.inl ⟨rfl,rfl⟩)
  | commitResult _ _ | failTask _ _ =>
    simp only [apply,ite_error_eq_ok,ok.injEq] at h
    obtain ⟨-,rfl⟩ := h
    exact .inr (.inl ⟨rfl,rfl⟩)
  | bindAppExecutor _ _ _ =>
    obtain ⟨-,-,rfl⟩ := bindAppExecutor_ok h
    exact .inl rfl
  | releaseAppExecutor _ _ _ =>
    obtain ⟨_,_,-,-,-,rfl⟩ := releaseAppExecutor_ok h
    exact .inl rfl
  | setPromiseWait _ =>
    obtain ⟨-,h⟩ := ite_error_eq_ok.mp h
    obtain rfl := ok.inj h
    exact .inl rfl
  | archive =>
    obtain rfl := ok.inj h
    split <;> exact .inl rfl
  | run | reportProgress _ _ | reportWaiting _ | updateControlProfile _ =>
    obtain rfl := ok.inj h
    exact .inl rfl

theorem apply_canceled {change : TaskChange} (h : change.apply now task = .ok changed)
    (happ : task.executor.kind = .app) (hbefore : task.outcome ≠ some .canceled)
    (hafter : changed.outcome = some .canceled) : (∃ completedBy, change = cancelDirect completedBy) ∨
      ∃ completedBy, change = ackControl true .cancel completedBy := by
  cases hends : change.ends with
  | false =>
    have hsame := (apply_of_not_ends h hends).1
    exact absurd (hsame.symm.trans hafter) hbefore
  | true =>
    cases change with
    | cancelDirect completedBy => exact .inl ⟨completedBy,rfl⟩
    | ackControl applied action completedBy => cases applied <;> cases action <;> simp [ends] at hends ⊢
    | commitResult _ _ | failTask _ _ =>
      simp only [apply,ite_error_eq_ok,ok.injEq] at h
      obtain ⟨-,rfl⟩ := h
      exact absurd hafter (by simp [close])
    | finishPromiseFailure _ _ | cancelPromisedTask _ =>
      obtain ⟨hkind,-⟩ := ite_error_eq_ok.mp h
      rw [happ] at hkind
      exact absurd (by simp) hkind
    | _ => exact absurd hends (by simp [ends])

end TaskChange

section Origins
variable {env : TaskEnv} {s s₀ : TaskStore} {ctx : RequestContext} {flight : Flight}
  {request : TaskRequest} {write : TaskWrite}

def TaskChange.isControl : TaskChange → Bool
  | .requestControl _ | .cancelDirect _ => true
  | _ => false

def Controlled (seen : Option Task) (write : TaskWrite) : Prop :=
  ∃ controller now task action requestId expected, seen = some task ∧
    requestControlSingle controller now task action requestId expected = .ok (.write write)

variable {seen : Option Task} {applied : Bool} {action : TaskControlAction} {completedBy : ActorRef}

theorem Asked.controlled (h : Asked s₀ ctx request seen write)
    (hchange : write.change.isControl = true) : request.controls = true ∧ Controlled seen write := by
  cases h with
  | runner _ _ asks | manager asks => cases asks <;> exact absurd hchange (by simp [TaskChange.isControl])
  | commit _ _ => exact absurd hchange (by simp [TaskChange.isControl])
  | control _ single | delegated _ single => exact ⟨rfl,_,_,_,_,_,_,rfl,single⟩

theorem Flight.Sprung.controlled (h : flight.Sprung env s)
    (hwriting : flight.writing = some (seen,write)) (hchange : write.change.isControl = true) :
    flight.request.controls = true ∧ Controlled seen write := by
  rcases h.origin hwriting with ⟨rfl,_,-,-,hasked⟩ | ⟨_,_,_,node,_,_,_,-,-,hrequest,-,-,-,-,rfl,hsingle⟩
  · exact hasked.controlled hchange
  · exact ⟨by rw [hrequest]; rfl,_,_,node,_,_,_,rfl,hsingle⟩

/-- A write that comes from an acknowledgement of the request pending on the task seen. -/
def Acknowledged (ctx : RequestContext) (request : TaskRequest) (seen : Option Task)
    (write : TaskWrite) (applied : Bool) : Prop :=
  ∃ envelope reason task pending, seen = some task ∧ task.pendingControl = some pending ∧
    request = .ackControl envelope pending.requestId applied reason ∧
    write.taskId = envelope.taskId ∧ verifyAppRunnerWrite ctx task envelope = .ok ()

theorem Asked.acknowledged (h : Asked s₀ ctx request seen write)
    (hchange : write.change = .ackControl applied action completedBy) :
    Acknowledged ctx request seen write applied := by
  cases h with
  | @runner _ envelope task eventType payload change sent loaded asks =>
    cases asks with
    | @ack _ applied' reason pending found =>
      obtain rfl := some.inj sent
      obtain ⟨rfl,-,-⟩ := TaskChange.ackControl.inj hchange
      exact ⟨_,reason,task,pending,rfl,found,rfl,rfl,(loadRunnerTask_ok loaded).2⟩
    | _ => exact absurd hchange (by simp)
  | commit _ _ => exact absurd hchange (by simp)
  | manager asks => cases asks <;> exact absurd hchange (by simp)
  | control _ single | delegated _ single =>
    obtain ⟨-,-,-,⟨-,-,-,h⟩ | ⟨-,-,h⟩⟩ := requestControlSingle_write single <;>
      exact absurd (h.symm.trans hchange) (by simp)

theorem Flight.Sprung.acknowledged (h : flight.Sprung env s) (hwriting : flight.writing = some (seen,write))
    (hchange : write.change = .ackControl applied action completedBy) :
    Acknowledged flight.ctx flight.request seen write applied := by
  rcases h.origin hwriting with ⟨rfl,_,-,-,hasked⟩ | ⟨_,_,_,_,_,_,_,-,-,-,-,-,-,-,-,hsingle⟩
  · exact hasked.acknowledged hchange
  · obtain ⟨-,-,-,⟨-,-,-,h⟩ | ⟨-,-,h⟩⟩ := requestControlSingle_write hsingle <;>
      exact absurd (h.symm.trans hchange) (by simp)

theorem Asked.glimpsed {seen : Task} (h : Asked s₀ ctx request (some seen) write)
    (hkeyed : s₀.Keyed) (hcontrols : request.controls = true) :
    s₀.tasks.get? write.taskId = some seen.bare := by
  generalize htask : some seen = task at h
  cases h with
  | runner _ loaded _ =>
    obtain rfl := some.inj htask
    exact (hkeyed.row (loadRunnerTask_ok loaded).1).1
  | commit _ _ => exact absurd hcontrols (by simp [TaskRequest.controls])
  | manager asks => cases asks <;> exact absurd hcontrols (by simp [TaskRequest.controls])
  | control loaded single | delegated loaded single =>
    obtain rfl := some.inj htask
    obtain ⟨hrow,hid⟩ := hkeyed.row (loadTask_eq_ok.mp loaded)
    rw [(requestControlSingle_write single).2.1,hid,hrow]

theorem Flight.Sprung.glimpsed (h : flight.Sprung env s) {seen : Task}
    (hwriting : flight.writing = some (some seen,write)) (hcontrols : flight.request.controls = true) :
    ∃ s₀, Later s₀ s ∧ s₀.tasks.get? write.taskId = some seen.bare := by
  rcases h.origin hwriting with ⟨heq,s₀,hkeyed,hlater,hasked⟩ |
    ⟨s₀,_,task,node,_,_,_,hkeyed,hlater,-,-,hload,hcollected,hnode,heq,hsingle⟩
  · rw [← heq] at hasked
    exact ⟨s₀,hlater,hasked.glimpsed hkeyed hcontrols⟩
  · obtain rfl := some.inj heq
    refine ⟨s₀,hlater,?_⟩
    rw [(requestControlSingle_write hsingle).2.1]
    rcases hkeyed.get?_of_collected hcollected hnode with rfl | hrow
    · obtain ⟨hrow,hid⟩ := hkeyed.row (loadTask_eq_ok.mp hload)
      rw [hid,hrow]
    · rw [hrow,bare_of_assignees (hkeyed.assignees hrow)]

end Origins

section Steps
variable {env : TaskEnv} {server : TaskServer} {flight : Flight} {index : ℕ} {stamp : Stamp}
  {write : TaskWrite} {task : Task}

theorem bare_of_undisturbed (h : server.Sprung env) (hflight : server.flights[index]? = some flight)
    (hundisturbed : server.Undisturbed (.advance index stamp))
    (hcontrols : flight.request.controls = true) {seen : Task}
    (hwriting : flight.writing = some (some seen,write))
    (hfound : server.store.getTask write.taskId = some task)
    (hexpected : ∀ revision ∈ write.expectedRevision, task.revision = revision) :
    task.bare = seen.bare := by
  have hmem := List.mem_of_getElem? hflight
  obtain ⟨s₀,hlater,hseen⟩ := (h.flights flight hmem).glimpsed hwriting hcontrols
  have hrow := (h.keyed.row hfound).1
  have hle : task.revision ≤ seen.revision := by
    rcases hundisturbed flight hflight hcontrols seen write hwriting with
      ⟨expected,hexp,hle⟩ | hle
    · rw [hexpected expected hexp]
      exact hle
    · exact hle task.bare hrow
  obtain ⟨row,hrow',-,hge,hsame⟩ := hlater hseen
  obtain rfl : row = task.bare := some.inj (hrow'.symm.trans hrow)
  exact (hsame (le_antisymm hle hge)).1

variable {pending : TaskControlRequest} {seen : Option Task} {changed : Task} {input : TaskInput}

theorem controlEvent_of_pending {action : TaskControlAction} {requestId : String}
    {eventType : TaskEventType} {payload : Json}
    (h : controlEvent (some pending) action requestId = .ok (eventType,payload)) :
    pending.action ≠ .cancel ∧ action = .cancel ∧ eventType = .controlSuperseded ∧
      payload.get? "superseded_request_id" = some (.string pending.requestId) ∧
      payload.get? "request_id" = some (.string requestId) := by
  obtain ⟨hpending,h⟩ := ite_error_eq_ok.mp h
  split at h
  · rename_i haction
    obtain ⟨rfl,rfl⟩ := Prod.mk.inj (ok.inj h)
    exact ⟨hpending,haction,rfl,rfl,rfl⟩
  · exact absurd h (by simp)

section Undisturbed
variable (h : server.Sprung env) (hflight : server.flights[index]? = some flight)
  (hundisturbed : server.Undisturbed (.advance index stamp))
  (hwriting : flight.writing = some (seen,write))
  (hfound : server.store.getTask write.taskId = some task)
  (hexpected : ∀ revision ∈ write.expectedRevision, task.revision = revision)
  (happlied : write.change.apply stamp.now task = .ok changed)
include h hflight hundisturbed hwriting hfound hexpected happlied

theorem keepsRequest_of_change
    (hevents : (server.step env (.advance index stamp)).2.store.events = server.store.events ++
      [rowEvent stamp changed write.eventType write.actor write.payload])
    (hpending : task.pendingControl = some pending) :
    server.KeepsRequest env (.advance index stamp) task.bare (changed.next stamp.now).bare pending := by
  have hmem := List.mem_of_getElem? hflight
  have hsprung := h.flights flight hmem
  rcases TaskChange.apply_pending happlied with hsame | ⟨hphase,hnone⟩ | ⟨request,hchange,hnew⟩ |
    ⟨applied,action,completedBy,hchange,hnone⟩
  · exact .inl (hsame.trans hpending)
  · exact .inr (.inl ⟨hnone,.inl hphase⟩)
  · obtain ⟨hcontrols,controller,now,seen',action,requestId,expected,rfl,hsingle⟩ :=
      hsprung.controlled hwriting (by rw [hchange]; rfl)
    have hbare := bare_of_undisturbed h hflight hundisturbed hcontrols hwriting hfound hexpected
    have hseen : seen'.pendingControl = some pending := by
      calc seen'.pendingControl = seen'.bare.pendingControl := rfl
        _ = task.bare.pendingControl := by rw [hbare]
        _ = some pending := hpending
    obtain ⟨-,-,-,⟨-,-,-,hdirect⟩ | ⟨hevent,-,hrequest⟩⟩ := requestControlSingle_write hsingle
    · exact absurd (hdirect.symm.trans hchange) (by simp)
    · rw [hseen] at hevent
      obtain ⟨hother,haction,htype,hold,hnamed⟩ := controlEvent_of_pending hevent
      obtain rfl := TaskChange.requestControl.inj (hrequest.symm.trans hchange)
      have hid : changed.taskId = task.taskId := Task.taskId_of_fixed (TaskChange.apply_fixed happlied).1
      exact .inr (.inr ⟨hother,_,_,hnew,haction,⟨htype,hid,hold,hnamed⟩,hevents⟩)
  · obtain ⟨envelope,reason,seen',pending',rfl,hpending',hrequest,hid,-⟩ :=
      hsprung.acknowledged hwriting hchange
    have hcontrols : flight.request.controls = true := by
      rw [hrequest]
      rfl
    have hbare := bare_of_undisturbed h hflight hundisturbed hcontrols hwriting hfound hexpected
    have heq : pending' = pending := by
      have hseen : seen'.pendingControl = task.pendingControl := by
        calc seen'.pendingControl = seen'.bare.pendingControl := rfl
          _ = task.bare.pendingControl := by rw [hbare]
      exact some.inj (hpending'.symm.trans (hseen.trans hpending))
    subst heq
    have htaskId : envelope.taskId = task.bare.taskId := hid.symm.trans (h.keyed.row hfound).2.symm
    exact .inr (.inl ⟨hnone,.inr ⟨index,stamp,flight,envelope,applied,reason,rfl,hflight,htaskId,hrequest⟩⟩)

theorem runnerApplies_of_change (happ : task.executor.kind = .app)
    (hbefore : task.outcome ≠ some .canceled) (hafter : changed.outcome = some .canceled) :
    server.RunnerApplies (.advance index stamp) task.bare := by
  have hmem := List.mem_of_getElem? hflight
  have hsprung := h.flights flight hmem
  rcases TaskChange.apply_canceled happlied happ hbefore hafter with ⟨_,hchange⟩ | ⟨_,hchange⟩
  · obtain ⟨hcontrols,controller,now,seen',action,requestId,expected,rfl,hsingle⟩ :=
      hsprung.controlled hwriting (by rw [hchange]; rfl)
    have hbare := bare_of_undisturbed h hflight hundisturbed hcontrols hwriting hfound hexpected
    obtain ⟨-,-,-,⟨-,hmode,-,-⟩ | ⟨-,-,hrequest⟩⟩ := requestControlSingle_write hsingle
    · have hexecutor : seen'.executor = task.executor := by
        calc seen'.executor = seen'.bare.executor := rfl
          _ = task.bare.executor := by rw [hbare]
      rw [directCancelMode,hexecutor] at hmode
      split at hmode
      · rename_i hkind
        rw [hkind] at happ
        exact absurd happ (by simp [TaskExecutor.kind])
      · rename_i hkind
        rw [hkind] at happ
        exact absurd happ (by simp [TaskExecutor.kind])
      · exact absurd hmode (by simp)
    · exact absurd (hrequest.symm.trans hchange) (by simp)
  · obtain ⟨envelope,reason,seen',pending,rfl,-,hrequest,hid,hverify⟩ := hsprung.acknowledged hwriting hchange
    have hcontrols : flight.request.controls = true := by
      rw [hrequest]
      rfl
    have hbare := bare_of_undisturbed h hflight hundisturbed hcontrols hwriting hfound hexpected
    obtain ⟨targetId,bound,hexecutor,hbound,hepoch,-⟩ := verifyAppRunnerWrite_ok hverify
    refine ⟨index,stamp,flight,envelope,pending.requestId,reason,targetId,bound,rfl,hflight,
      hid.symm.trans (h.keyed.row hfound).2.symm,hrequest,?_,hbound,?_⟩
    · rw [hbare]
      exact hexecutor
    · rw [hbare]
      exact hepoch

end Undisturbed

theorem lawful_of_same {row row' : Task} (hpending : row'.pendingControl = row.pendingControl)
    (houtcome : row'.outcome = row.outcome) :
    (∀ pending, row.pendingControl = some pending → server.KeepsRequest env input row row' pending) ∧
    (row.executor.kind = .app → row.outcome ≠ some .canceled → row'.outcome = some .canceled →
      server.RunnerApplies input row) := ⟨fun _ hrow => .inl (hpending.trans hrow),
    fun _ hbefore hafter => absurd (houtcome.symm.trans hafter) hbefore⟩

theorem step_lawful (h : server.Sprung env) (hundisturbed : server.Undisturbed input) :
    server.Lawful env input := by
  intro id row row' hrow hrow'
  rcases TaskServer.step_written h input with hsame | ⟨index,stamp,flight,rfl,hflight,-,hwritten⟩
  · rw [hsame,hrow] at hrow'
    obtain rfl := some.inj hrow'
    exact lawful_of_same rfl rfl
  · cases hwritten with
    | @change seen write task changed planned found expected applied rewrite =>
      rw [rewrite.get?] at hrow'
      split at hrow'
      · rename_i hid
        subst hid
        obtain rfl := some.inj (hrow.symm.trans rewrite.found)
        obtain rfl := some.inj hrow'
        exact ⟨fun pending hpending => keepsRequest_of_change h hflight hundisturbed planned found
            expected applied rewrite.events hpending,
          fun happ hbefore hafter => runnerApplies_of_change h hflight hundisturbed planned found
            expected applied happ hbefore hafter⟩
      · obtain rfl := some.inj (hrow.symm.trans hrow')
        exact lawful_of_same rfl rfl
    | touch _ _ rewrite =>
      rw [rewrite.get?] at hrow'
      split at hrow'
      · rename_i hid
        subst hid
        obtain rfl := some.inj (hrow.symm.trans rewrite.found)
        obtain rfl := some.inj hrow'
        exact lawful_of_same rfl rfl
      · obtain rfl := some.inj (hrow.symm.trans hrow')
        exact lawful_of_same rfl rfl
    | create _ creation =>
      obtain rfl := some.inj ((creation.get?_of_some hrow).2.symm.trans hrow')
      exact lawful_of_same rfl rfl
    | aside tasks _ _ =>
      rw [tasks,hrow] at hrow'
      obtain rfl := some.inj hrow'
      exact lawful_of_same rfl rfl

/-- In every run whose control requests and acknowledgements are undisturbed, every step keeps the
control protocol. -/
theorem control_protocol_kept (env : TaskEnv) (server : TaskServer) (hkeyed : server.store.Keyed)
    (hidle : server.flights = []) (inputs : List TaskInput)
    (hundisturbed : Machine.Along (TaskServer.step env) TaskServer.Undisturbed server inputs)
    (k : ℕ) (input : TaskInput) (hinput : inputs[k]? = some input) :
    (server.after env (inputs.take k)).Lawful env input := by
  have hsprung : (server.after env (inputs.take k)).Sprung env :=
    Machine.run_invariant (I := TaskServer.Sprung env)
      (fun _ input hs => TaskServer.step_sprung hs input) (TaskServer.sprung_of_idle hkeyed hidle) _
  exact step_lawful hsprung (hundisturbed.of_getElem? hinput)

end Steps

section Samples
instance (server : TaskServer) : DecidablePred server.Undisturbed
  | .start _ _ _ => inferInstanceAs (Decidable True)
  | .advance index _ =>
    decidable_of_iff (∀ flight ∈ server.flights[index]?, flight.request.controls = true →
      ∀ pair ∈ flight.writing, ∀ seen ∈ pair.1,
        (∃ expected ∈ pair.2.expectedRevision, expected ≤ seen.revision) ∨
          ∀ row ∈ server.store.tasks.get? pair.2.taskId, row.revision ≤ seen.revision) (by
      constructor
      · intro h flight hflight hcontrols seen write hwriting
        exact h flight hflight hcontrols _ hwriting seen rfl
      · rintro h flight hflight hcontrols ⟨_,write⟩ hwriting seen rfl
        exact h flight hflight hcontrols seen write hwriting)

def createPausable : List TaskInput :=
  createForSelf ++ [.start appCaller (.updateControlProfile (reportAt 1)
      {pause := .available, resume := .available, cancel := .safe, updatedAt := 0}) 1,
    .advance 0 ⟨1,"",1,0⟩]

def requestOf (action : TaskControlAction) (requestId : String) : TaskRequest :=
  .requestControl {taskId := "t", action := action, requestId := requestId}

def pauseThenCancel : List TaskInput :=
  createPausable ++ [.start appCaller (requestOf .pause "p") 2,.advance 0 ⟨2,"",2,0⟩,
    .start appCaller (requestOf .cancel "c") 3,.advance 0 ⟨3,"",3,0⟩,
    .start appCaller (.ackControl (reportAt 4) "c" true none) 4,.advance 0 ⟨4,"",4,0⟩]

/-- A pause reads before a cancel is stored and is stored after it. -/
def pauseOvertaken : List TaskInput :=
  createPausable ++ [.start appCaller (requestOf .pause "p") 2,
    .start appCaller (requestOf .cancel "c") 2,.advance 1 ⟨2,"",2,0⟩,.advance 0 ⟨3,"",3,0⟩]

/-- A cancel reads the promised task, which is bound to an instance before the cancel is stored. -/
def cancelOvertaken : List TaskInput :=
  promiseAndBind.take 2 ++ [.start appCaller (requestOf .cancel "c") 1,
    .start dispatchCaller (.bindAppExecutor {
      taskId := "t"
      appId := "editor"
      appInstanceId := "i1"
      expectedRevision := 1}) 1,
    .advance 1 ⟨1,"",1,0⟩,.advance 0 ⟨2,"",2,0⟩]

def pendingAfter (inputs : List TaskInput) (taskId : TaskId) :
    Option (Option (TaskControlAction × String)) :=
  ((freshServer.after plainEnv inputs).store.tasks.get? taskId).map
    (fun task => task.pendingControl.map (fun pending => (pending.action,pending.requestId)))

theorem control_protocol_kept_superseded :
    Machine.Along (TaskServer.step plainEnv) TaskServer.Undisturbed freshServer pauseThenCancel ∧
    pendingAfter (pauseThenCancel.take 7) "t" = some (some (.pause,"p")) ∧
    pendingAfter (pauseThenCancel.take 8) "t" = some (some (.cancel,"c")) ∧
    (freshServer.after plainEnv (pauseThenCancel.take 7)).Lawful plainEnv (.advance 0 ⟨3,"",3,0⟩) := by
  have hundisturbed : Machine.Along (TaskServer.step plainEnv) TaskServer.Undisturbed freshServer
      pauseThenCancel := by decide +kernel
  exact ⟨hundisturbed,by decide +kernel,by decide +kernel,
    control_protocol_kept plainEnv freshServer sound_freshServer.keyed rfl pauseThenCancel
      hundisturbed 7 _ rfl⟩

/-- A pending cancel gives way to a pause that read before it, and a task that is bound is canceled
by a request that read before. -/
theorem racing_controls_break_protocol :
    (pendingAfter (pauseOvertaken.take 7) "t" = some (some (.cancel,"c")) ∧
      pendingAfter pauseOvertaken "t" = some (some (.pause,"p"))) ∧
    executorBefore cancelOvertaken 5 "t" = some (.app none "editor" (some "i1"),1) ∧
      phaseAfter cancelOvertaken "t" = some (.terminal,some .canceled) := by
  decide +kernel

end Samples
end BuckyOS.TaskManager
