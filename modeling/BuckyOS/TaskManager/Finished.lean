import BuckyOS.TaskManager.Flights

/-! Tasks that are over: when the record of how a task ended stays as it was written, and how it
goes with the events of the task. -/
namespace BuckyOS.TaskManager
open TaskStore List OrderedMap Except TaskServer

section Endings
def Task.ending (task : Task) : TaskPhase × Option TaskOutcome × Option Json × Option TaskError ×
    Option ActorRef × Option ℕ :=
  (task.phase,task.outcome,task.result,task.error,task.completedBy,task.completedAt)

/-- A task has an outcome exactly when it is over, and a result exactly when it succeeded. -/
structure Task.Coherent (task : Task) : Prop where
  outcome : task.outcome.isSome = true ↔ task.phase = .terminal
  result : task.result.isSome = true ↔ task.outcome = some .succeeded

def TaskEventType.ends : TaskEventType → Bool
  | .resultCommitted | .taskFailed | .taskCanceled => true
  | _ => false

def TaskStore.endings (s : TaskStore) (taskId : TaskId) : List TaskEvent :=
  s.events.filter (fun event => event.taskId = taskId ∧ event.eventType.ends = true)

/-- Rows under their ids and coherent, each with one event of its end if it is over and none if it
is not, and no event of a task that does not exist. -/
structure TaskStore.Sound (s : TaskStore) : Prop where
  keyed : s.Keyed
  coherent : ∀ {id row}, s.tasks.get? id = some row → row.Coherent
  endings : ∀ {id row}, s.tasks.get? id = some row →
    (s.endings id).length = if row.phase = .terminal then 1 else 0
  known : ∀ event ∈ s.events, event.taskId ∈ s.tasks.keys

/-- What is over in a store is over in the same way in another. -/
def Frozen (s s' : TaskStore) : Prop :=
  ∀ ⦃id row⦄, s.tasks.get? id = some row → row.phase = .terminal →
    ∃ row', s'.tasks.get? id = some row' ∧ row'.ending = row.ending

theorem Frozen.refl (s : TaskStore) : Frozen s s := fun _ row hrow _ => ⟨row,hrow,rfl⟩

theorem Frozen.trans {s s' s'' : TaskStore} (h : Frozen s s') (h' : Frozen s' s'') :
    Frozen s s'' := by
  intro id row hrow hphase
  obtain ⟨row',hrow',hending⟩ := h hrow hphase
  have hphase' : row'.phase = .terminal := (congrArg Prod.fst hending).trans hphase
  obtain ⟨row'',hrow'',hending'⟩ := h' hrow' hphase'
  exact ⟨row'',hrow'',hending'.trans hending⟩

end Endings

namespace TaskChange
variable {now : ℕ} {task changed : Task}

def ends : TaskChange → Bool
  | cancelDirect _ | ackControl true .cancel _ | commitResult _ _ | failTask _ _
  | finishPromiseFailure _ _ | cancelPromisedTask _ => true
  | _ => false

/-- The changes that set a phase without looking whether the task is over. -/
def reopens : TaskChange → Bool
  | run | reportWaiting _ | ackControl true _ _ => true
  | _ => false

/-- A change that does not close a task leaves the record of its end, and moves it between phases
other than the last at most, unless it is one that does not look. -/
theorem apply_of_not_ends {change : TaskChange} (h : change.apply now task = .ok changed)
    (hends : change.ends = false) :
    changed.outcome = task.outcome ∧ changed.result = task.result ∧ changed.error = task.error ∧
      changed.completedBy = task.completedBy ∧ changed.completedAt = task.completedAt ∧
      (changed.phase = task.phase ∨
        (change.reopens = true ∨ task.phase ≠ .terminal) ∧ changed.phase ≠ .terminal) := by
  cases change with
  | cancelDirect _ | commitResult _ _ | failTask _ _ | finishPromiseFailure _ _
  | cancelPromisedTask _ => exact absurd hends (by simp [ends])
  | bindAppExecutor targetId appId instanceId =>
    obtain ⟨hphase,_,rfl⟩ := bindAppExecutor_ok h
    exact ⟨rfl,rfl,rfl,rfl,rfl,.inr ⟨.inr hphase,by simp⟩⟩
  | releaseAppExecutor instanceId epoch reason =>
    obtain ⟨_,_,hphase,_,_,rfl⟩ := releaseAppExecutor_ok h
    exact ⟨rfl,rfl,rfl,rfl,rfl,.inr ⟨.inr hphase,by simp⟩⟩
  | ackControl applied action completedBy =>
    cases applied with
    | false =>
      obtain rfl := ok.inj h
      exact ⟨rfl,rfl,rfl,rfl,rfl,.inl rfl⟩
    | true =>
      cases action with
      | cancel => exact absurd hends (by simp [ends])
      | pause | resume =>
        obtain rfl := ok.inj h
        exact ⟨rfl,rfl,rfl,rfl,rfl,.inr ⟨.inl rfl,by simp⟩⟩
  | run | reportWaiting _ =>
    obtain rfl := ok.inj h
    exact ⟨rfl,rfl,rfl,rfl,rfl,.inr ⟨.inl rfl,by simp⟩⟩
  | archive =>
    obtain rfl := ok.inj h
    split <;> exact ⟨rfl,rfl,rfl,rfl,rfl,.inl rfl⟩
  | requestControl _ | setPromiseWait _ =>
    simp only [apply,unlessTerminal_eq_ok,ite_error_eq_ok,ok.injEq] at h
    obtain ⟨_,rfl⟩ := h
    exact ⟨rfl,rfl,rfl,rfl,rfl,.inl rfl⟩
  | reportProgress _ _ | updateControlProfile _ =>
    obtain rfl := ok.inj h
    exact ⟨rfl,rfl,rfl,rfl,rfl,.inl rfl⟩

theorem apply_of_ends {change : TaskChange} (h : change.apply now task = .ok changed)
    (hends : change.ends = true) (hreopens : change.reopens = true → task.phase ≠ .terminal)
    (hcoherent : task.Coherent) :
    task.phase ≠ .terminal ∧ changed.phase = .terminal ∧ changed.Coherent := by
  have hnone : task.phase ≠ .terminal → task.result.isSome = false := by
    intro hphase
    by_contra hresult
    rw [Bool.not_eq_false] at hresult
    refine hphase (hcoherent.outcome.mp ?_)
    rw [hcoherent.result.mp hresult]
    rfl
  have hclosed : ∀ outcome completedBy, task.phase ≠ .terminal → outcome ≠ .succeeded →
      (close outcome completedBy now task).Coherent := by
    intro outcome completedBy hphase houtcome
    refine ⟨by simp [close],?_⟩
    simp [close,hnone hphase,houtcome]
  cases change with
  | cancelDirect completedBy =>
    simp only [apply,unlessTerminal_eq_ok,ite_error_eq_ok,ok.injEq] at h
    obtain ⟨hphase,-,rfl⟩ := h
    exact ⟨hphase,rfl,hclosed _ _ hphase (by simp)⟩
  | ackControl applied action completedBy =>
    cases applied with
    | false => exact absurd hends (by simp [ends])
    | true =>
      cases action with
      | pause | resume => exact absurd hends (by simp [ends])
      | cancel =>
        obtain ⟨-,h⟩ := ite_error_eq_ok.mp h
        obtain rfl := ok.inj h
        have hphase := hreopens rfl
        exact ⟨hphase,rfl,hclosed _ _ hphase (by simp)⟩
  | commitResult result completedBy =>
    simp only [apply,ite_error_eq_ok,not_or,ok.injEq] at h
    obtain ⟨⟨hphase,-⟩,rfl⟩ := h
    exact ⟨hphase,rfl,by simp [close],by simp [close]⟩
  | failTask error completedBy =>
    simp only [apply,ite_error_eq_ok,not_or,ok.injEq] at h
    obtain ⟨⟨hphase,-⟩,rfl⟩ := h
    obtain ⟨houtcome,hresult⟩ := hclosed .failed completedBy hphase (by simp)
    exact ⟨hphase,rfl,houtcome,hresult⟩
  | finishPromiseFailure error completedBy =>
    simp only [apply,unlessTerminal_eq_ok,ite_error_eq_ok,ok.injEq] at h
    obtain ⟨-,hphase,rfl⟩ := h
    obtain ⟨houtcome,hresult⟩ := hclosed .failed completedBy hphase (by simp)
    exact ⟨hphase,rfl,houtcome,hresult⟩
  | cancelPromisedTask completedBy =>
    simp only [apply,unlessTerminal_eq_ok,ite_error_eq_ok,ok.injEq] at h
    obtain ⟨-,hphase,rfl⟩ := h
    exact ⟨hphase,rfl,hclosed _ _ hphase (by simp)⟩
  | _ => exact absurd hends (by simp [ends])

end TaskChange

section Labels
variable {s : TaskStore} {ctx : RequestContext} {now : ℕ} {task : Task} {write : TaskWrite}
variable {action : TaskControlAction} {requestId : String}

theorem controlEvent_ends {pending : Option TaskControlRequest} {eventType : TaskEventType}
    {payload : Json} (h : controlEvent pending action requestId = .ok (eventType,payload)) :
    eventType.ends = false := by
  cases pending with
  | none =>
    obtain ⟨rfl,-⟩ := Prod.mk.inj (ok.inj h)
    rfl
  | some pending =>
    obtain ⟨-,h⟩ := ite_error_eq_ok.mp h
    split at h
    · obtain ⟨rfl,-⟩ := Prod.mk.inj (ok.inj h)
      rfl
    · exact absurd h (by simp)

theorem requestControlSingle_labels {expected : Option ℕ}
    (h : requestControlSingle ctx now task action requestId expected = .ok (.write write)) :
    write.eventType.ends = write.change.ends ∧ write.change.reopens = false := by
  obtain ⟨-,-,-,hcancel | hrequest⟩ := requestControlSingle_write h
  · obtain ⟨-,-,heventType,hchange⟩ := hcancel
    rw [heventType,hchange]
    exact ⟨rfl,rfl⟩
  · obtain ⟨hevent,-,hchange⟩ := hrequest
    rw [hchange,controlEvent_ends hevent]
    exact ⟨rfl,rfl⟩

/-- The event of a write says the task is over exactly when the write closes it. -/
theorem Asked.labels {request : TaskRequest} {seen : Option Task}
    (h : Asked s ctx request seen write) : write.eventType.ends = write.change.ends := by
  cases h with
  | runner _ _ asks =>
    cases asks with
    | @ack envelope applied reason pending found =>
      cases applied <;> cases hpending : pending.action <;>
        simp [ackEvent,TaskChange.ends,TaskEventType.ends]
    | _ => rfl
  | commit _ _ => rfl
  | manager asks => cases asks <;> rfl
  | control _ single | delegated _ single => exact (requestControlSingle_labels single).1

end Labels

section Rows
variable {s s' : TaskStore} {old new : Task} {event : TaskEvent}

theorem endings_append (hevents : s'.events = s.events ++ [event]) (id : TaskId) :
    (s'.endings id).length = (s.endings id).length +
      if event.taskId = id ∧ event.eventType.ends = true then 1 else 0 := by
  rw [TaskStore.endings,TaskStore.endings,hevents,filter_append,length_append]
  by_cases hboth : event.taskId = id ∧ event.eventType.ends = true
  · rw [if_pos hboth,filter_cons_of_pos (by simp [hboth])]
    rfl
  · rw [if_neg hboth,filter_cons_of_neg (by simpa using hboth)]
    rfl

theorem TaskStore.Rewrite.sound (h : Rewrite s s' old new event) (hs : s.Sound) (hcoherent : new.Coherent)
    (hends : event.eventType.ends = true → old.phase ≠ .terminal ∧ new.phase = .terminal)
    (hkeeps : event.eventType.ends = false → (new.phase = .terminal ↔ old.phase = .terminal)) :
    s'.Sound where
  keyed := h.keyed hs.keyed
  coherent {id row} hrow := by
    rw [h.get?] at hrow
    split at hrow
    · rwa [← Option.some.inj hrow]
    · exact hs.coherent hrow
  endings {id row} hrow := by
    rw [endings_append h.events,h.taskId]
    rw [h.get?] at hrow
    split at hrow
    · rename_i hid
      subst hid
      obtain rfl := Option.some.inj hrow
      rw [hs.endings h.found]
      cases hevent : event.eventType.ends with
      | true =>
        obtain ⟨hold,hnew⟩ := hends hevent
        simp [hold,hnew]
      | false => simp [hkeeps hevent]
    · rename_i hid
      have hother : ¬ (old.taskId = id ∧ event.eventType.ends = true) := fun hboth => hid hboth.1.symm
      rw [hs.endings hrow,if_neg hother,Nat.add_zero]
  known earlier hearlier := by
    rw [h.events,mem_append,mem_singleton] at hearlier
    rw [mem_keys_iff]
    rcases hearlier with hearlier | rfl
    · obtain ⟨row,hrow⟩ := (mem_keys_iff _ _).mp (hs.known earlier hearlier)
      obtain ⟨row',hrow',-⟩ := h.later hrow
      exact ⟨row',hrow'⟩
    · exact ⟨new,by rw [h.taskId,h.stored]⟩

theorem TaskStore.Rewrite.frozen (h : Rewrite s s' old new event)
    (hending : old.phase = .terminal → new.ending = old.ending) : Frozen s s' := by
  intro id row hrow hphase
  by_cases hid : id = old.taskId
  · subst hid
    obtain rfl : row = old := Option.some.inj (hrow.symm.trans h.found)
    exact ⟨new,h.stored,hending hphase⟩
  · exact ⟨row,by rw [h.get?,if_neg hid,hrow],rfl⟩

variable {env : TaskEnv} {stamp : Stamp} {args : CreateTaskArgs} {rootId : TaskId}

theorem TaskStore.Creation.sound (h : Creation env stamp args s s' rootId) (hs : s.Sound)
    (hphase : args.phase ≠ .terminal) : s'.Sound where
  keyed := h.keyed hs.keyed
  coherent {id row} hrow := by
    rw [h.get?] at hrow
    split at hrow
    · rw [← Option.some.inj hrow]
      exact ⟨by simp [newTask,hphase],by simp [newTask]⟩
    · exact hs.coherent hrow
  endings {id row} hrow := by
    have hevents : s'.events = s.events ++ [creationEvent stamp rootId args] := by rw [h.eq]
    rw [endings_append hevents]
    rw [if_neg (fun hboth => absurd hboth.2 (by simp [creationEvent,TaskEventType.ends])),Nat.add_zero]
    rw [h.get?] at hrow
    split at hrow
    · rename_i hid
      subst hid
      have hopen : (newTask env stamp rootId args).phase ≠ .terminal := hphase
      rw [← Option.some.inj hrow,if_neg hopen,length_eq_zero_iff,TaskStore.endings,filter_eq_nil_iff]
      intro event hevent hboth
      rw [decide_eq_true_eq] at hboth
      exact h.newId (hboth.1 ▸ hs.known event hevent)
    · exact hs.endings hrow
  known event hevent := by
    rw [mem_keys_iff]
    rw [h.eq] at hevent
    rcases mem_append.mp hevent with hevent | hevent
    · obtain ⟨row,hrow⟩ := (mem_keys_iff _ _).mp (hs.known event hevent)
      exact ⟨row,(h.get?_of_some hrow).2⟩
    · rw [mem_singleton.mp hevent]
      exact ⟨_,(h.get? stamp.newId).trans (if_pos rfl)⟩

theorem TaskStore.Creation.frozen (h : Creation env stamp args s s' rootId) : Frozen s s' :=
  fun _ row hrow _ => ⟨row,(h.get?_of_some hrow).2,rfl⟩

end Rows

section Steps
variable {env : TaskEnv} {s s' : TaskStore} {stamp : Stamp} {flight : Flight} {server : TaskServer}

def TaskRequest.reopening : TaskRequest → Option RunnerWriteEnvelope
  | .reportStarted envelope | .reportWaiting envelope _ | .reportRunning envelope
  | .ackControl envelope _ true _ => some envelope
  | _ => none

variable {request : TaskRequest}

theorem envelope?_of_reopening {envelope : RunnerWriteEnvelope}
    (h : request.reopening = some envelope) : request.envelope? = some envelope := by
  cases request with
  | reportStarted _ | reportWaiting _ _ | reportRunning _ => exact h
  | ackControl _ _ applied _ =>
    cases applied with
    | false => exact absurd h (by simp [TaskRequest.reopening])
    | true => exact h
  | _ => exact absurd h (by simp [TaskRequest.reopening])

/-- A report that sets a phase expects no revision above the one it read. -/
def Timely (request : TaskRequest) (seen : Option Task) : Prop :=
  ∀ envelope task, request.reopening = some envelope → seen = some task →
    envelope.expectedRevision ≤ task.revision

/-- Every report that sets a phase expects no revision above the one the task has when it reads. -/
def TaskServer.ReadsFirst (server : TaskServer) : TaskInput → Prop
  | .start _ request _ => ∀ envelope ∈ request.reopening,
      ∀ task ∈ server.store.getTask envelope.taskId, envelope.expectedRevision ≤ task.revision
  | .advance _ _ => True

instance (server : TaskServer) : DecidablePred server.ReadsFirst
  | .start _ request _ => inferInstanceAs (Decidable (∀ envelope ∈ request.reopening,
      ∀ task ∈ server.store.getTask envelope.taskId, envelope.expectedRevision ≤ task.revision))
  | .advance _ _ => inferInstanceAs (Decidable True)

theorem RunnerAsks.reopening {ctx : RequestContext} {task : Task} {eventType : TaskEventType}
    {change : TaskChange} (h : RunnerAsks ctx task request eventType change)
    (hreopens : change.reopens = true) : request.reopening = request.envelope? := by
  cases h with
  | @ack envelope applied reason pending found =>
    cases applied with
    | false => exact absurd hreopens (by simp [TaskChange.reopens])
    | true => rfl
  | started | waiting | running => rfl
  | progress | profile | fail => exact absurd hreopens (by simp [TaskChange.reopens])

variable {seen : Option Task} {write : TaskWrite}

theorem Flight.Sprung.labels (h : flight.Sprung env s)
    (hwriting : flight.writing = some (seen,write)) : write.eventType.ends = write.change.ends := by
  rcases h.origin hwriting with ⟨-,_,-,-,hasked⟩ | ⟨_,_,_,_,_,_,_,-,-,-,-,-,-,-,-,hsingle⟩
  · exact hasked.labels
  · exact (requestControlSingle_labels hsingle).1

section
variable {task : Task} (hfound : s.getTask write.taskId = some task)
  (hexpected : ∀ revision ∈ write.expectedRevision, task.revision = revision)
  (hreopens : write.change.reopens = true)
include hfound hexpected hreopens

theorem Asked.alive_of_reopens {s₀ : TaskStore} {ctx : RequestContext}
    (h : Asked s₀ ctx request seen write) (hkeyed : s₀.Keyed) (hlater : Later s₀ s)
    (htimely : Timely request seen) : task.phase ≠ .terminal := by
  cases h with
  | @runner _ envelope seen eventType payload change sent loaded asks =>
    obtain ⟨hload,hverify⟩ := loadRunnerTask_ok loaded
    obtain ⟨_,_,_,_,_,hphase⟩ := verifyAppRunnerWrite_ok hverify
    have hread := htimely envelope seen ((asks.reopening hreopens).trans sent) rfl
    have hle : task.revision ≤ seen.revision := by
      rw [hexpected _ rfl]
      exact hread
    rw [hlater.unchanged hkeyed hload hfound hle]
    exact hphase
  | commit _ _ => exact absurd hreopens (by simp [TaskChange.reopens])
  | manager asks => exact absurd hreopens (by cases asks <;> simp [TaskChange.reopens])
  | control _ single | delegated _ single =>
    exact absurd hreopens (by simp [(requestControlSingle_labels single).2])

theorem Flight.Sprung.alive_of_reopens (h : flight.Sprung env s)
    (htimely : Timely flight.request flight.seen) (hwriting : flight.writing = some (seen,write)) :
    task.phase ≠ .terminal := by
  rcases h.origin hwriting with ⟨-,s₀,hkeyed,hlater,hasked⟩ | ⟨_,_,_,_,_,_,_,-,-,-,-,-,-,-,-,hsingle⟩
  · exact hasked.alive_of_reopens hfound hexpected hreopens hkeyed hlater htimely
  · exact absurd hreopens (by simp [(requestControlSingle_labels hsingle).2])

end

theorem Written.sound (h : Written env flight stamp s s') (hs : s.Sound)
    (hsprung : flight.Sprung env s) (htimely : Timely flight.request flight.seen) :
    s'.Sound ∧ Frozen s s' := by
  have hkeyed := h.keyed hs.keyed
  cases h with
  | @change seen write task changed planned found expected applied rewrite =>
    have hlabel := hsprung.labels planned
    have halive := fun hreopens => hsprung.alive_of_reopens found expected hreopens htimely planned
    have hcoherent : task.Coherent := by
      obtain ⟨houtcome,hresult⟩ := hs.coherent (hs.keyed.row found).1
      exact ⟨houtcome,hresult⟩
    cases hends : write.change.ends with
    | true =>
      obtain ⟨hopen,hclosed,hend⟩ := TaskChange.apply_of_ends applied hends halive hcoherent
      refine ⟨rewrite.sound hs ⟨hend.outcome,hend.result⟩ (fun _ => ⟨hopen,hclosed⟩) ?_,
        rewrite.frozen (fun hphase => absurd hphase hopen)⟩
      intro hevent
      exact absurd (hlabel.trans hends) (by simpa [rowEvent] using hevent)
    | false =>
      obtain ⟨houtcome,hresult,herror,hby,hat,hphase⟩ := TaskChange.apply_of_not_ends applied hends
      have hsame : changed.phase = .terminal ↔ task.phase = .terminal := by
        rcases hphase with hphase | ⟨hopen,hopen'⟩
        · rw [hphase]
        · exact ⟨fun h => absurd h hopen',fun h => absurd h (hopen.elim halive id)⟩
      refine ⟨rewrite.sound hs ⟨?_,?_⟩ ?_ (fun _ => hsame),rewrite.frozen ?_⟩
      · change changed.outcome.isSome = true ↔ changed.phase = .terminal
        rw [houtcome,hsame]
        exact hcoherent.outcome
      · change changed.result.isSome = true ↔ changed.outcome = some .succeeded
        rw [hresult,houtcome]
        exact hcoherent.result
      · intro hevent
        exact absurd (hlabel.trans hends) (by simpa [rowEvent] using hevent)
      · intro hover
        have hstill : changed.phase = task.phase := (hsame.mpr hover).trans hover.symm
        change changed.ending = task.ending
        rw [Task.ending,Task.ending,hstill,houtcome,hresult,herror,hby,hat]
  | @touch task event row kind rewrite =>
    have hquiet : event.eventType.ends = false := by
      rcases kind with hkind | hkind | hkind <;> rw [hkind] <;> rfl
    obtain ⟨houtcome,hresult⟩ := hs.coherent row
    refine ⟨rewrite.sound hs ⟨houtcome,hresult⟩ ?_ (fun _ => Iff.rfl),rewrite.frozen (fun _ => rfl)⟩
    intro hevent
    rw [hquiet] at hevent
    exact absurd hevent (by simp)
  | create planned creation =>
    obtain ⟨_,-,-,hasks⟩ := hsprung.creates planned
    exact ⟨creation.sound hs hasks.phase,creation.frozen⟩
  | aside tasks assignees events =>
    constructor
    · refine ⟨hkeyed,?_,?_,?_⟩
      · intro id row hrow
        rw [tasks] at hrow
        exact hs.coherent hrow
      · intro id row hrow
        rw [tasks] at hrow
        rw [TaskStore.endings,events]
        exact hs.endings hrow
      · intro event hevent
        rw [events] at hevent
        rw [tasks]
        exact hs.known event hevent
    · intro id row hrow _
      exact ⟨row,by rw [tasks,hrow],rfl⟩

/-- A store in which everything is sound, with calls in flight that read first. -/
structure TaskServer.Finishing (env : TaskEnv) (server : TaskServer) : Prop where
  sprung : server.Sprung env
  sound : server.store.Sound
  timely : ∀ flight ∈ server.flights, Timely flight.request flight.seen

theorem step_finishing (h : server.Finishing env) {input : TaskInput} (hinput : server.ReadsFirst input) :
    (server.step env input).2.Finishing env ∧ Frozen server.store (server.step env input).2.store := by
  have hsound : (server.step env input).2.store.Sound ∧
      Frozen server.store (server.step env input).2.store := by
    rcases step_written h.sprung input with hsame | ⟨_,_,flight,_,hflight,_,hwritten⟩
    · rw [hsame]
      exact ⟨h.sound,Frozen.refl _⟩
    · have hmem := mem_of_getElem? hflight
      exact hwritten.sound h.sound (h.sprung.flights flight hmem) (h.timely flight hmem)
  refine ⟨⟨step_sprung h.sprung input,hsound.1,?_⟩,hsound.2⟩
  intro flight' hflight'
  cases input with
  | start ctx request now =>
    rcases start_cases.2 flight' hflight' with hold | ⟨-,hrequest,-,hprepare⟩
    · exact h.timely flight' hold
    · rw [hrequest]
      intro envelope task hreopening hseen
      have hsent := envelope?_of_reopening hreopening
      obtain ⟨⟨task',hseen',hload⟩,-⟩ := prepare_runner hsent hprepare
      obtain rfl : task' = task := Option.some.inj (hseen'.symm.trans hseen)
      exact hinput envelope hreopening task' (loadRunnerTask_ok hload).1
  | advance index stamp =>
    rcases advance_cases.2 flight' hflight' with hold | ⟨flight,hflight,hmoves⟩
    · exact h.timely flight' hold
    · obtain ⟨-,hrequest,hseen⟩ := hmoves.same
      rw [hrequest,hseen]
      exact h.timely flight hflight

/-- In every run whose reports read first, the store stays sound and what is over at one point is
over in the same way at every later one. -/
theorem finished_stays_finished (env : TaskEnv) (server : TaskServer) (hsound : server.store.Sound)
    (hidle : server.flights = []) (inputs : List TaskInput)
    (hreads : Machine.Along (TaskServer.step env) TaskServer.ReadsFirst server inputs) (k : ℕ) :
    (server.after env inputs).store.Sound ∧
      Frozen (server.after env (inputs.take k)).store (server.after env inputs).store := by
  have hstart : server.Finishing env :=
    ⟨sprung_of_idle hsound.keyed hidle,hsound,by simp [hidle]⟩
  rw [← take_append_drop k inputs,Machine.along_append] at hreads
  have hmiddle : (server.after env (inputs.take k)).Finishing env :=
    Machine.run_invariant_along (I := TaskServer.Finishing env)
      (fun _ _ hs hinput => (step_finishing hs hinput).1) hstart hreads.1
  have hend := Machine.run_invariant_along
    (I := fun server' => server'.Finishing env ∧
      Frozen (server.after env (inputs.take k)).store server'.store)
    (fun _ _ hs hinput => ⟨(step_finishing hs.1 hinput).1,
      hs.2.trans (step_finishing hs.1 hinput).2⟩) ⟨hmiddle,Frozen.refl _⟩ hreads.2
  have hwhole : (Machine.run (step env) (server.after env (inputs.take k))
      (inputs.drop k)).2 = server.after env inputs := by
    conv_rhs => rw [← take_append_drop k inputs]
    rw [TaskServer.after,TaskServer.after,Machine.run_append]
  rw [TaskServer.after] at hwhole
  rw [hwhole] at hend
  exact ⟨hend.1.sound,hend.2⟩

end Steps

section Runs
/-- A service that finds nothing wrong with any value and shows nobody the tasks of others. -/
def plainEnv : TaskEnv where
  digest _ := ""
  schemaViolation _ _ := none
  mayView _ _ _ _ := false

def rawSchema : TaskSchemaDefinition where
  schemaId := "raw"
  schemaVersion := 1
  inputSchema := .object []
  outputSchema := .object []
  allowedExecutorKinds := [.unbound,.app,.humanSet]
  publisherAppId := "system"
  enabled := true

def freshServer : TaskServer := {store := {schemas := [rawSchema]}}

attribute [local simp] freshServer

theorem sound_freshServer : freshServer.store.Sound where
  keyed := ⟨fun h => absurd h (by simp [get?,empty]),fun h => absurd h (by simp [get?,empty])⟩
  coherent h := absurd h (by simp [get?,empty])
  endings h := absurd h (by simp [get?,empty])
  known _ h := absurd h (by simp)

def appCaller : RequestContext := {userId := "alice", appId := "editor"}

def createForSelf : List TaskInput :=
  [.start appCaller (.createTask {
      name := "draft"
      schemaId := "raw"
      input := .null
      executor := .selfApp none
      idempotencyKey := "k"}) 0,
    .advance 0 ⟨0,"t",0,0⟩]

def reportAt (revision : ℕ) : RunnerWriteEnvelope :=
  {taskId := "t", runnerEpoch := 1, expectedRevision := revision}

def startThenFail : List TaskInput :=
  createForSelf ++ [.start appCaller (.reportStarted (reportAt 1)) 1,.advance 0 ⟨1,"",1,0⟩,
    .start appCaller (.failTask (reportAt 2) {code := "io", message := "lost"}) 2,
    .advance 0 ⟨2,"",2,0⟩]

/-- A report of the start reads before the failure is stored, expects the revision the failure
makes, and is stored after it. -/
def failThenStart : List TaskInput :=
  createForSelf ++ [.start appCaller (.reportStarted (reportAt 2)) 1,
    .start appCaller (.failTask (reportAt 1) {code := "io", message := "lost"}) 1,
    .advance 1 ⟨1,"",1,0⟩,.advance 0 ⟨2,"",2,0⟩]

def phaseAfter (inputs : List TaskInput) (taskId : TaskId) :
    Option (TaskPhase × Option TaskOutcome) :=
  ((freshServer.after plainEnv inputs).store.tasks.get? taskId).map
    (fun task => (task.phase,task.outcome))

theorem finished_stays_finished_failed :
    Machine.Along (TaskServer.step plainEnv) TaskServer.ReadsFirst freshServer startThenFail ∧
    phaseAfter startThenFail "t" = some (.terminal,some .failed) ∧
    (freshServer.after plainEnv startThenFail).store.Sound ∧
      Frozen (freshServer.after plainEnv (startThenFail.take 4)).store
        (freshServer.after plainEnv startThenFail).store := by
  have hreads : Machine.Along (step plainEnv) TaskServer.ReadsFirst freshServer
      startThenFail := by decide +kernel
  exact ⟨hreads,by decide +kernel,
    finished_stays_finished plainEnv freshServer sound_freshServer rfl startThenFail hreads 4⟩

/-- The failed task runs again. -/
theorem failed_task_runs_again :
    phaseAfter (failThenStart.take 5) "t" = some (.terminal,some .failed) ∧
      phaseAfter failThenStart "t" = some (.running,some .failed) := by
  decide +kernel

end Runs
end BuckyOS.TaskManager
