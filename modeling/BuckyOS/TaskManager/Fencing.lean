import BuckyOS.TaskManager.Finished

/-! Fencing of runners: when every write of a runner is stored while the runner is the bound one,
and every result of a human task by somebody assigned to it. -/
namespace BuckyOS.TaskManager
open TaskStore Option TaskServer

/-- An app runs a task under an epoch with the instance that is bound, or with none where the task
was created for the app as such; a task that was released is run by nobody. -/
def Task.RunBy (task : Task) (appId : String) (instanceId : Option String) (epoch : ℕ) : Prop :=
  (∃ targetId, task.executor = .app targetId appId instanceId) ∧ task.runnerEpoch = epoch ∧
    (instanceId = none → epoch ≤ 1)

/-- The writer of a report or of a result is the bound runner, or assigned to the task. -/
def Fenced (s : TaskStore) (ctx : RequestContext) : TaskRequest → Prop
  | .commitResult req => ∃ task, s.getTask req.taskId = some task ∧
      ((∃ epoch, req.runnerEpoch = some epoch ∧ task.RunBy ctx.appId req.appInstanceId epoch) ∨
        task.executor = .humanSet ∧ ctx.userId ∈ s.activeAssignees req.taskId)
  | request => ∀ envelope ∈ request.envelope?, ∃ task, s.getTask envelope.taskId = some task ∧
      task.RunBy ctx.appId envelope.appInstanceId envelope.runnerEpoch

def TaskRequest.runnerClaim : TaskRequest → Option (TaskId × Option String × ℕ)
  | .commitResult req => some (req.taskId,req.appInstanceId,req.expectedRevision)
  | request => request.envelope?.map (fun envelope =>
      (envelope.taskId,envelope.appInstanceId,envelope.expectedRevision))

/-- What a runner names fits the task it saw: no revision above the one read, and where no instance
is bound, a task that was never released and no instance. -/
def Task.Fits (task : Task) (instanceId : Option String) (expectedRevision : ℕ) : Prop :=
  expectedRevision ≤ task.revision ∧ (∀ targetId appId, task.executor = .app targetId appId none →
    task.runnerEpoch ≤ 1 ∧ instanceId = none)

/-- Every report and every result fits the task it reads. -/
def TaskServer.ReadsBound (server : TaskServer) : TaskInput → Prop
  | .start _ request _ => ∀ claim ∈ request.runnerClaim, ∀ task ∈ server.store.getTask claim.1,
      task.Fits claim.2.1 claim.2.2
  | .advance _ _ => True

attribute [local simp] TaskRequest.envelope? TaskRequest.runnerClaim

section Fence
variable {env : TaskEnv} {s s₀ : TaskStore} {ctx : RequestContext} {flight : Flight} {task : Task}

theorem runBy_of_verified {envelope : RunnerWriteEnvelope}
    (h : verifyAppRunnerWrite ctx task envelope = .ok ())
    (hfits : task.Fits envelope.appInstanceId envelope.expectedRevision) :
    task.RunBy ctx.appId envelope.appInstanceId envelope.runnerEpoch := by
  obtain ⟨targetId,bound,hexecutor,hbound,hepoch,-⟩ := verifyAppRunnerWrite_ok h
  cases bound with
  | none =>
    obtain ⟨hfirst,hnone⟩ := hfits.2 targetId ctx.appId hexecutor
    rw [hnone]
    exact ⟨⟨targetId,hexecutor⟩,hepoch.symm,fun _ => hepoch.trans_le hfirst⟩
  | some instanceId =>
    rw [hbound instanceId rfl]
    exact ⟨⟨targetId,hexecutor⟩,hepoch.symm,fun h => absurd h (by simp)⟩

theorem activeAssignees_of_unchanged (hlater : Later s₀ s) {id : TaskId}
    (hseen : s₀.tasks.get? id = some task) (hfound : s.tasks.get? id = some task) :
    s.activeAssignees id = s₀.activeAssignees id := by
  obtain ⟨row,hrow,-,-,hsame⟩ := hlater hseen
  obtain rfl : row = task := some.inj (hrow.symm.trans hfound)
  exact (hsame rfl).2

theorem Asked.fenced {request : TaskRequest} {seen : Option Task} {write : TaskWrite}
    (h : Asked s₀ ctx request seen write) (hkeyed : s₀.Keyed) (hs : s.Keyed) (hlater : Later s₀ s)
    (hfits : ∀ claim task, request.runnerClaim = some claim → seen = some task → task.Fits claim.2.1
      claim.2.2) (hfound : s.getTask write.taskId = some task)
    (hexpected : ∀ revision ∈ write.expectedRevision, task.revision = revision) :
    Fenced s ctx request := by
  cases h with
  | @runner _ envelope seen eventType payload change sent loaded asks =>
    obtain ⟨hload,hverify⟩ := loadRunnerTask_ok loaded
    have hclaim : request.runnerClaim =
        some (envelope.taskId,envelope.appInstanceId,envelope.expectedRevision) := by
      cases asks <;> simp_all
    have hfit := hfits _ seen hclaim rfl
    have hle : task.revision ≤ seen.revision := by
      rw [hexpected _ rfl]
      exact hfit.1
    obtain rfl := hlater.unchanged hkeyed hload hfound hle
    have hrun := runBy_of_verified hverify hfit
    cases asks <;> (
      intro envelope' henvelope'
      obtain rfl := some.inj (henvelope'.symm.trans sent)
      exact ⟨task,hfound,hrun⟩)
  | @commit req seen loaded verified =>
    have hload := loadTask_eq_ok.mp loaded
    have hfit := hfits (req.taskId,req.appInstanceId,req.expectedRevision) seen rfl rfl
    have hle : task.revision ≤ seen.revision := by
      rw [hexpected _ rfl]
      exact hfit.1
    obtain rfl := hlater.unchanged hkeyed hload hfound hle
    refine ⟨task,hfound,?_⟩
    rw [verifyCommitter] at verified
    split at verified
    · split at verified
      · exact absurd verified (by simp)
      · rename_i epoch hepoch
        exact .inl ⟨epoch,hepoch,runBy_of_verified verified hfit⟩
    · rename_i hexecutor
      obtain ⟨hassigned,-⟩ := ite_error_eq_ok.mp verified
      rw [← activeAssignees_of_unchanged hlater (hkeyed.row hload).1 (hs.row hfound).1] at hassigned
      exact .inr ⟨hexecutor,not_not.mp hassigned⟩
    · exact absurd verified (by simp)
  | manager asks => cases asks <;> exact fun _ h => absurd h (by simp)
  | control _ _ | delegated _ _ => exact fun _ h => absurd h (by simp)

end Fence

section Runs
variable {env : TaskEnv} {server : TaskServer} {flight : Flight}
variable {index : ℕ} {stamp : Stamp} {response : TaskResponse} {s : TaskStore}
  {ctx : RequestContext} {request : TaskRequest}

theorem fenced_of_no_claim (h : request.runnerClaim = none) : Fenced s ctx request := by
  cases request with
  | commitResult req => exact absurd h (by simp)
  | reportStarted _ | reportProgress _ _ _ | reportWaiting _ _ | reportRunning _
  | updateControlProfile _ _ | ackControl _ _ _ _ | failTask _ _ => exact absurd h (by simp)
  | _ => exact fun _ henvelope => absurd henvelope (by simp)

theorem prepare_claim {now : ℕ} {claim : TaskId × Option String × ℕ} {prepared : Prepared}
    (hclaim : request.runnerClaim = some claim) (h : prepare env s ctx now request = .ok prepared) :
    (∃ task, prepared.task = some task ∧ s.getTask claim.1 = some task) ∧
      ∃ write, prepared.plan = .write write := by
  cases request with
  | reportStarted _ | reportProgress _ _ _ | reportWaiting _ _ | reportRunning _
  | updateControlProfile _ _ | ackControl _ _ _ _ | failTask _ _ =>
    obtain rfl := some.inj hclaim
    obtain ⟨⟨task,hseen,hload⟩,hwrite⟩ := prepare_runner rfl h
    exact ⟨⟨task,hseen,(loadRunnerTask_ok hload).1⟩,hwrite⟩
  | commitResult req =>
    obtain rfl := some.inj hclaim
    obtain ⟨task,hload,h⟩ := bind_eq_ok_iff.mp h
    obtain ⟨_,-,h⟩ := bind_eq_ok_iff.mp h
    obtain ⟨_,-,h⟩ := bind_eq_ok_iff.mp h
    split at h
    · exact absurd h (by simp)
    · obtain rfl := Except.ok.inj h
      exact ⟨⟨task,rfl,loadTask_eq_ok.mp hload⟩,_,rfl⟩
  | _ => exact absurd hclaim (by simp)

/-- Every call in flight read an earlier store, and every report and result among them fits the task
it saw there. -/
structure TaskServer.Fitting (env : TaskEnv) (server : TaskServer) : Prop where
  sprung : server.Sprung env
  fits : ∀ flight ∈ server.flights, ∀ claim task, flight.request.runnerClaim = some claim →
    flight.seen = some task → task.Fits claim.2.1 claim.2.2

theorem step_fitting (h : server.Fitting env) {input : TaskInput}
    (hinput : server.ReadsBound input) : (server.step env input).2.Fitting env := by
  refine ⟨step_sprung h.sprung input,?_⟩
  intro flight' hflight'
  cases input with
  | start ctx request now =>
    rcases start_cases.2 flight' hflight' with hold | ⟨-,hrequest,-,hprepare⟩
    · exact h.fits flight' hold
    · rw [hrequest]
      intro claim task hclaim hseen
      obtain ⟨⟨task',hseen',hget⟩,-⟩ := prepare_claim hclaim hprepare
      obtain rfl : task' = task := some.inj (hseen'.symm.trans hseen)
      exact hinput claim hclaim task' hget
  | advance index stamp =>
    rcases advance_cases.2 flight' hflight' with hold | ⟨flight,hflight,hmoves⟩
    · exact h.fits flight' hold
    · obtain ⟨-,hrequest,hseen⟩ := hmoves.same
      rw [hrequest,hseen]
      exact h.fits flight hflight

theorem advance_fenced (h : server.Fitting env) (hflight : server.flights[index]? = some flight)
    (hanswer : (server.advance env index stamp).1 = some (.ok response)) :
    Fenced server.store flight.ctx flight.request := by
  have hmem := List.mem_of_getElem? hflight
  have hsprung := h.sprung.flights flight hmem
  cases hclaim : flight.request.runnerClaim with
  | none => exact fenced_of_no_claim hclaim
  | some claim =>
    obtain ⟨s₀,now,plan,hkeyed,hlater,hprepare,hplan⟩ := hsprung.planned
    obtain ⟨-,write,rfl⟩ := prepare_claim hclaim hprepare
    have hwrite : flight.plan = .write write := by
      rcases hplan with hplan | ⟨_,_,hplan,-⟩
      · exact hplan
      · exact absurd hplan (by simp)
    simp only [advance,hflight,hwrite,land,carryOut,answered,some.injEq] at hanswer
    split at hanswer
    · rename_i outcome s' hstored
      obtain ⟨task,_,hfound,hexpected,-⟩ := mutateTask_ok h.sprung.keyed hstored
      have hasked := (prepare_planned hprepare).asked rfl
      exact hasked.fenced hkeyed h.sprung.keyed hlater (h.fits flight hmem) hfound hexpected
    · exact absurd hanswer (by simp)

/-- In every run whose reports and results fit the tasks they read, each of them that succeeds is
stored while its writer is the bound runner, or assigned to the task. -/
theorem runner_writes_fenced (env : TaskEnv) (server : TaskServer) (hkeyed : server.store.Keyed)
    (hidle : server.flights = []) (inputs : List TaskInput)
    (hbound : Machine.Along (TaskServer.step env) TaskServer.ReadsBound server inputs) (k : ℕ)
    (index : ℕ) (stamp : Stamp) (hinput : inputs[k]? = some (.advance index stamp))
    (flight : Flight) (hflight : (server.after env (inputs.take k)).flights[index]? = some flight)
    (response : TaskResponse)
    (hanswer : (Machine.run (TaskServer.step env) server inputs).1[k]? =
      some (some (.ok response))) :
    Fenced (server.after env (inputs.take k)).store flight.ctx flight.request := by
  have hstart : server.Fitting env := ⟨sprung_of_idle hkeyed hidle,by simp [hidle]⟩
  have hfitting : (server.after env (inputs.take k)).Fitting env :=
    Machine.run_invariant_along (I := TaskServer.Fitting env)
      (fun _ _ hs hinput => step_fitting hs hinput) hstart (hbound.take k)
  rw [Machine.run_getElem?,hinput] at hanswer
  exact advance_fenced hfitting hflight (some.inj hanswer)

end Runs

section Samples
def dispatchCaller : RequestContext := {userId := "root", appId := "dispatch", zoneTrusted := true}

def promiseAndBind : List TaskInput :=
  [.start dispatchCaller (.createPromisedTask {
      name := "draft"
      schemaId := "raw"
      input := .null
      creator := appCaller.actorRef
      idempotencyKey := "k"}) 0,
    .advance 0 ⟨0,"t",0,0⟩,
    .start dispatchCaller (.bindAppExecutor {
      taskId := "t"
      appId := "editor"
      appInstanceId := "i1"
      expectedRevision := 1}) 1,
    .advance 0 ⟨1,"",1,0⟩]

def instanceReport (epoch revision : ℕ) : TaskRequest :=
  .reportProgress {
    taskId := "t"
    appInstanceId := some "i1"
    runnerEpoch := epoch
    expectedRevision := revision} none (some "half")

def releaseInstance (revision : ℕ) : TaskRequest :=
  .releaseAppExecutor {
    taskId := "t"
    expectedInstanceId := "i1"
    expectedRunnerEpoch := 1
    reason := {kind := .dispatch}
    expectedRevision := revision}

def reportThenRelease : List TaskInput :=
  promiseAndBind ++ [.start appCaller (instanceReport 1 2) 2,.advance 0 ⟨2,"",2,0⟩,
    .start dispatchCaller (releaseInstance 3) 3,.advance 0 ⟨3,"",3,0⟩]

/-- A report reads before the release is stored, expects the revision the release makes, and is
stored after it. -/
def releaseOvertakes : List TaskInput :=
  promiseAndBind ++ [.start appCaller (instanceReport 1 3) 2,
    .start dispatchCaller (releaseInstance 2) 2,.advance 1 ⟨2,"",2,0⟩,.advance 0 ⟨3,"",3,0⟩]

/-- The instance reports under the next epoch after it was released. -/
def reportAfterRelease : List TaskInput :=
  promiseAndBind ++ [.start dispatchCaller (releaseInstance 2) 2,.advance 0 ⟨2,"",2,0⟩,
    .start appCaller (instanceReport 2 3) 3,.advance 0 ⟨3,"",3,0⟩]

def succeedsAt (inputs : List TaskInput) (k : ℕ) : Bool :=
  match (Machine.run (TaskServer.step plainEnv) freshServer inputs).1[k]? with
  | some (some (.ok _)) => true
  | _ => false

def executorBefore (inputs : List TaskInput) (k : ℕ) (taskId : TaskId) :
    Option (TaskExecutor × ℕ) :=
  ((freshServer.after plainEnv (inputs.take k)).store.getTask taskId).map
    (fun task => (task.executor,task.runnerEpoch))

theorem not_fenced_of_released {inputs : List TaskInput} {k epoch revision : ℕ}
    (h : executorBefore inputs k "t" = some (.app none "editor" none,2)) :
    ¬ Fenced (freshServer.after plainEnv (inputs.take k)).store appCaller (instanceReport epoch revision) := by
  intro hfenced
  obtain ⟨task,hget,⟨targetId,hexecutor⟩,-⟩ := hfenced _ rfl
  rw [executorBefore,show "t" = _ from rfl,hget] at h
  have heq := congrArg Prod.fst (some.inj h)
  rw [show (task.executor,task.runnerEpoch).1 = task.executor from rfl,hexecutor] at heq
  exact absurd heq (by simp)

instance (task : Task) (instanceId : Option String) (revision : ℕ) :
    Decidable (task.Fits instanceId revision) :=
  match h : task.executor with
  | .app targetId appId none =>
    decidable_of_iff (revision ≤ task.revision ∧ task.runnerEpoch ≤ 1 ∧ instanceId = none) (by
      simp only [Task.Fits,h,TaskExecutor.app.injEq,and_true]
      exact ⟨fun ⟨hle,hrest⟩ => ⟨hle,fun _ _ _ => hrest⟩,
        fun ⟨hle,hrest⟩ => ⟨hle,hrest targetId appId ⟨rfl,rfl⟩⟩⟩)
  | .app targetId appId (some _) =>
    decidable_of_iff (revision ≤ task.revision) (by simp [Task.Fits,h])
  | .unbound | .humanSet => decidable_of_iff (revision ≤ task.revision) (by simp [Task.Fits,h])

instance (server : TaskServer) : DecidablePred server.ReadsBound
  | .start _ request _ => inferInstanceAs (Decidable (∀ claim ∈ request.runnerClaim,
      ∀ task ∈ server.store.getTask claim.1, task.Fits claim.2.1 claim.2.2))
  | .advance _ _ => inferInstanceAs (Decidable True)

theorem runner_writes_fenced_bound :
    Machine.Along (TaskServer.step plainEnv) TaskServer.ReadsBound freshServer reportThenRelease ∧
    Fenced (freshServer.after plainEnv (reportThenRelease.take 5)).store appCaller
      (instanceReport 1 2) := by
  have hbound : Machine.Along (step plainEnv) TaskServer.ReadsBound freshServer
      reportThenRelease := by decide +kernel
  refine ⟨hbound,?_⟩
  obtain ⟨flight,hflight,hctx,hrequest⟩ : ∃ flight,
      (freshServer.after plainEnv (reportThenRelease.take 5)).flights[0]? = some flight ∧
        flight.ctx = appCaller ∧ flight.request = instanceReport 1 2 := by
    refine ⟨_,rfl,?_,?_⟩ <;> decide +kernel
  obtain ⟨response,hanswer⟩ : ∃ response,
      (Machine.run (step plainEnv) freshServer reportThenRelease).1[5]? =
        some (some (.ok response)) := ⟨_,rfl⟩
  have hfenced := runner_writes_fenced plainEnv freshServer sound_freshServer.keyed rfl
    reportThenRelease hbound 5 0 ⟨2,"",2,0⟩ rfl flight hflight response hanswer
  rwa [hctx,hrequest] at hfenced

/-- A released instance still writes: with a revision it guessed, or under the epoch that the
release left. -/
theorem released_runner_writes :
    (succeedsAt releaseOvertakes 7 = true ∧
      ¬ Fenced (freshServer.after plainEnv (releaseOvertakes.take 7)).store appCaller
        (instanceReport 1 3)) ∧
    succeedsAt reportAfterRelease 7 = true ∧
      ¬ Fenced (freshServer.after plainEnv (reportAfterRelease.take 7)).store appCaller
        (instanceReport 2 3) :=
  ⟨⟨by decide +kernel,not_fenced_of_released (by decide +kernel)⟩,by decide +kernel,
    not_fenced_of_released (by decide +kernel)⟩

end Samples
end BuckyOS.TaskManager
