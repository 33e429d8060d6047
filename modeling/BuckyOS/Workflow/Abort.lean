import BuckyOS.Workflow.Traces

/-! What happens to a run after it was aborted. The status stays, and the nodes stay as they are as
long as no call reports about a pending thunk or overrules a node. -/
namespace BuckyOS.Workflow
open Fallible OrderedMap

structure Stopped (run : WorkflowRun) : Prop where
  aborted : run.status = .aborted
  still : ∀ n s, run.nodeStates.get? n = some s → s.live = false

structure Unmoved (w w' : World) : Prop where
  status : w'.run.status = w.run.status
  states : w'.run.nodeStates = w.run.nodeStates
  outputs : w'.run.nodeOutputs = w.run.nodeOutputs
  scheduled : w'.scheduled = w.scheduled
  invoked : w'.invoked = w.invoked

theorem Unmoved.refl (w : World) : Unmoved w w := ⟨rfl,rfl,rfl,rfl,rfl⟩

theorem Unmoved.trans {w₁ w₂ w₃ : World} (h : Unmoved w₁ w₂) (h' : Unmoved w₂ w₃) :
    Unmoved w₁ w₃ := ⟨h'.status.trans h.status,h'.states.trans h.states,h'.outputs.trans h.outputs,
    h'.scheduled.trans h.scheduled,h'.invoked.trans h.invoked⟩

theorem Unmoved.stopped {w w' : World} (h : Unmoved w w') (hw : Stopped w.run) : Stopped w'.run :=
  ⟨h.status.trans hw.aborted,fun n s hget => hw.still n s (h.states ▸ hget)⟩

section
variable (workflow : CompiledWorkflow)

def harmlessAction (run : WorkflowRun) (action : HumanAction) : Bool :=
  match workflow.nodes.get? action.nodeId with
  | none => true
  | some compiled =>
    match action.action with
    | .retry => decide (run.nodeStates.get? action.nodeId ≠ some .failed)
    | .skip => !compiled.skippable ||
        (decide (run.nodeStates.get? action.nodeId = some .skipped) &&
          decide (run.nodeOutputs.get? action.nodeId = some .null))
    | .rollback => (workflow.graph.downstreamFrom action.nodeId).any (isBarrier workflow run)
    | _ => true

def harmlessOutput (run : WorkflowRun) (nodeId : String) : Bool :=
  (workflow.nodes.get? nodeId).isNone || !acceptsOutput (run.stateOf nodeId)

/-- A call that leaves an aborted run alone. -/
def harmless (w : World) : Operation → Bool
  | .tick => w.run.activatedNodes.keys.all (fun n => !isActionable workflow w.run n)
  | .thunkResult result => (w.run.pendingThunks.find? result.thunkObjId).isNone ||
      decide (result.status = .waiting) || decide (result.status = .dispatched)
  | .humanAction action => harmlessAction workflow w.run action
  | .submitStepOutput nodeId _ _ => harmlessOutput workflow w.run nodeId
  | .reportStepProgress _ _ _ => true
  | .requestHuman nodeId _ _ _ => (workflow.nodes.get? nodeId).isNone
  | .taskData data =>
    match readTaskData w.run.runId data with
    | .ok (.submit nodeId _ _) => harmlessOutput workflow w.run nodeId
    | .ok (.act action) => harmlessAction workflow w.run action
    | _ => true

end

section Calls
variable (env : Env) {workflow : CompiledWorkflow}

/-- However a computation ends, it leaves everything as in `w`. -/
def Rests {α : Type} (w : World) (m : Orch α) (w' : World) : Prop :=
  wp m (fun _ => Unmoved w) (fun _ => Unmoved w) w'

variable {w w' : World}

theorem rests_sync (h : Unmoved w w') : Rests w (sync env) w' :=
  wp_external env ⟨h.status,h.states,h.outputs,h.scheduled,h.invoked⟩
    (fun _ => ⟨h.status,h.states,h.outputs,h.scheduled,h.invoked⟩)

variable {actor : String} {payload : Option Json} {action : HumanAction}

theorem rests_emitEvent {eventType : String} {nodeId : Option String} (h : Unmoved w w') :
    Unmoved w (w'.emitted eventType nodeId actor payload) :=
  ⟨h.status,h.states,h.outputs,h.scheduled,h.invoked⟩

theorem rests_syncNode (nodeId : String) (h : Unmoved w w') :
    Rests w (syncNode env workflow nodeId) w' := by
  unfold syncNode
  split_ifs
  · exact rests_sync env h
  · exact h

theorem rests_settle (hw : Stopped w.run) (h : Unmoved w w') : Rests w (settle env workflow) w' := by
  have hstatus : refreshedStatus w'.run = .aborted := by rw [refreshedStatus,if_pos (h.stopped hw).aborted]
  unfold Rests settle refreshRunStatus
  rw [wp_bind,wp_bind]
  show wp (modifyRun _ >>= _) _ _ w'
  rw [wp_bind]
  show wp (ite _ _ _) _ _ _
  rw [hstatus,if_neg (by simp),if_neg (by simp)]
  refine rests_sync env ⟨?_,h.states,h.outputs,h.scheduled,h.invoked⟩
  exact hstatus.trans hw.aborted.symm

theorem actionableNodes_none
    (h : w.run.activatedNodes.keys.all (fun n => !isActionable workflow w.run n) = true) :
    actionableNodes workflow w = (.ok [],w) := by
  have hfold : ∀ nodeIds : List String, (∀ n ∈ nodeIds, isActionable workflow w.run n = false) →
      nodeIds.foldl (markReady workflow) ([],w.run) = ([],w.run) := by
    intro nodeIds
    induction nodeIds with
    | nil => exact fun _ => rfl
    | cons nodeId nodeIds ih =>
      intro hnone
      rw [List.foldl_cons,markReady,if_neg (by simp [hnone nodeId List.mem_cons_self])]
      exact ih (fun n hn => hnone n (List.mem_cons_of_mem _ hn))
  unfold actionableNodes
  rw [hfold _ (fun n hn => by simpa using List.all_eq_true.mp h n hn)]

theorem rests_tick (hw : Stopped w.run) (h : Unmoved w w')
    (hnone : w'.run.activatedNodes.keys.all (fun n => !isActionable workflow w'.run n) = true) :
    Rests w (tick env workflow) w' := by
  unfold Rests tick beginRun
  rw [wp_bind,wp_bind]
  show wp (ite _ _ _) _ _ w'
  rw [if_neg (by rw [(h.stopped hw).aborted]; decide)]
  show wp (tickRounds env workflow (roundLimit workflow) >>= _) _ _ w'
  have hrounds : tickRounds env workflow (roundLimit workflow) w' = (.ok true,w') :=
    bind_of_ok (actionableNodes_none hnone)
  unfold wp
  rw [bind_of_ok hrounds]
  exact rests_settle env hw h

theorem rests_handleThunkResult {result : ThunkExecutionResult} (hw : Stopped w.run)
    (h : Unmoved w w') (hresult : ((w'.run.pendingThunks.find? result.thunkObjId).isNone ||
      decide (result.status = .waiting) || decide (result.status = .dispatched)) = true) :
    Rests w (handleThunkResult env workflow result) w' := by
  have hkeep : ∀ {pending : PendingThunk} {run : WorkflowRun} {eventType : String},
      run.status = w.run.status → run.nodeStates = w.run.nodeStates → run.nodeOutputs = w.run.nodeOutputs →
      Rests w (keepThunk pending result eventType >>= fun _ => settle env workflow) {w' with run := run} := by
    intro pending run eventType hstatus hstates houtputs
    refine (wp_bind _ _).mpr ?_
    exact rests_settle env hw ⟨hstatus,hstates,houtputs,h.scheduled,h.invoked⟩
  unfold Rests handleThunkResult
  rw [wp_bind,readRun,wp_read]
  cases hfind : w'.run.pendingThunks.find? result.thunkObjId with
  | none => exact h
  | some pending =>
    rw [hfind] at hresult
    dsimp only
    rw [wp_bind,modifyRun,wp_update]
    cases workflow.nodes.get? pending.nodeId with
    | none => exact ⟨h.status,h.states,h.outputs,h.scheduled,h.invoked⟩
    | some compiled =>
      unfold applyResult
      cases hstatus : result.status with
      | waiting | dispatched => exact hkeep h.status h.states h.outputs
      | success | failed | cancelled => simp [hstatus] at hresult

theorem rests_submitStepOutput {nodeId : String} {output : Json} (h : Unmoved w w')
    (hrefused : harmlessOutput workflow w'.run nodeId = true) :
    Rests w (submitStepOutput env workflow nodeId actor output) w' := by
  rw [harmlessOutput] at hrefused
  unfold Rests submitStepOutput
  cases hnode : workflow.nodes.get? nodeId with
  | none => exact h
  | some compiled =>
    rw [hnode] at hrefused
    dsimp only
    rw [wp_bind]
    show wp (ite _ _ _) _ _ w'
    rw [if_neg (by simpa using hrefused)]
    exact h

theorem rests_ensureWaitingHuman {α : Type} {f : WorkflowRun → Unit → Orch α}
    (hw' : Stopped w'.run) (nodeId : String) (h : Unmoved w w') :
    Rests w (readRun >>= fun run => lift (ensureWaitingHuman run nodeId) >>= f run) w' := by
  have hrefused : ensureWaitingHuman w'.run nodeId = .error (.nodeNotWaitingHuman nodeId) := by
    rw [ensureWaitingHuman,if_neg]
    intro hwaiting
    have := hw'.still nodeId .waitingHuman hwaiting
    simp [NodeRunState.live] at this
  show wp (lift (ensureWaitingHuman w'.run nodeId) >>= _) _ _ w'
  rw [hrefused]
  exact h

theorem mapValues_of_still {run : WorkflowRun} (h : Stopped run) :
    (abortRun run).nodeStates = run.nodeStates := by
  apply ext
  intro n
  show (run.nodeStates.mapValues _).get? n = _
  rw [get?_mapValues]
  cases hget : run.nodeStates.get? n with
  | none => rfl
  | some s => rw [Option.map_some,if_neg (by simp [h.still n s hget])]

theorem rests_applyHumanAction {compiled : CompiledNode} (hw : Stopped w.run) (h : Unmoved w w')
    (hnode : workflow.nodes.get? action.nodeId = some compiled)
    (haction : harmlessAction workflow w'.run action = true) :
    Rests w (applyHumanAction workflow compiled action) w' := by
  have hstopped := h.stopped hw
  rw [harmlessAction,hnode] at haction
  unfold applyHumanAction
  cases hkind : action.action with
  | approve | modify | reject => exact rests_ensureWaitingHuman hstopped action.nodeId h
  | retry =>
    simp only [hkind,decide_eq_true_eq] at haction
    unfold Rests retry
    rw [wp_bind]
    show wp (ite _ _ _) _ _ w'
    rw [if_neg]
    · exact h
    · rw [WorkflowRun.stateOf]
      cases hget : w'.run.nodeStates.get? action.nodeId with
      | none => simp
      | some s =>
        have hlive := hstopped.still _ s hget
        rw [hget] at haction
        rintro (hs | hs)
        · rw [Option.getD_some] at hs
          simp [hs,NodeRunState.live] at hlive
        · exact haction (congrArg some hs)
  | skip =>
    simp only [hkind,Bool.or_eq_true,Bool.not_eq_true',Bool.and_eq_true,decide_eq_true_eq] at haction
    unfold skip
    cases hskippable : compiled.skippable with
    | false => exact h
    | true =>
      obtain hno | ⟨hstate,houtput⟩ := haction
      · rw [hskippable] at hno
        simp at hno
      · exact ⟨h.status,(insert_eq_self _ hstate).trans h.states,
          (insert_eq_self _ houtput).trans h.outputs,h.scheduled,h.invoked⟩
  | abort =>
    have habort : Unmoved w {w' with run := abortRun w'.run} :=
      ⟨hw.aborted.symm,(mapValues_of_still hstopped).trans h.states,h.outputs,h.scheduled,h.invoked⟩
    exact rests_emitEvent habort
  | rollback =>
    simp only [hkind] at haction
    unfold Rests rollback
    rw [wp_bind,readRun,wp_read]
    cases hfind : (workflow.graph.downstreamFrom action.nodeId).find? (isBarrier workflow w'.run) with
    | some nodeId => exact h
    | none =>
      obtain ⟨n,hn,hbarrier⟩ := List.any_eq_true.mp haction
      exact absurd hbarrier (List.find?_eq_none.mp hfind n hn)

theorem rests_reportAction (hw : Stopped w.run) (h : Unmoved w w') : Rests w (do
      emitEvent "human.action" (some action.nodeId) action.actor payload
      let run ← readRun
      visit (syncNode env workflow) (action.nodeId :: touchedNodes workflow run action)
      settle env workflow) w' := by
  unfold Rests
  rw [wp_bind]
  show wp (readRun >>= _) _ _ _
  rw [wp_bind]
  show wp (visit _ _ >>= _) _ _ _
  rw [wp_bind]
  refine wp_mono (wp_visit_keeps (P := Unmoved w) (fun nodeId w₁ h₁ => rests_syncNode env nodeId h₁) _
    (rests_emitEvent h)) ?_ (fun _ _ h => h)
  exact fun _ w₁ h₁ => rests_settle env hw h₁

theorem rests_handleHumanAction (hw : Stopped w.run) (h : Unmoved w w')
    (haction : harmlessAction workflow w'.run action = true) :
    Rests w (handleHumanAction env workflow action) w' := by
  unfold Rests handleHumanAction
  cases hnode : workflow.nodes.get? action.nodeId with
  | none => exact h
  | some compiled =>
    dsimp only
    rw [wp_bind]
    exact wp_mono (rests_applyHumanAction hw h hnode haction)
      (fun _ _ h₁ => rests_reportAction env hw h₁) (fun _ _ h => h)

theorem step_unmoved {operation : Operation} (hw : Stopped w.run)
    (hharmless : harmless workflow w operation = true) : Unmoved w (step env workflow w operation).2 := by
  have hstart : Unmoved w {w with events := []} := ⟨rfl,rfl,rfl,rfl,rfl⟩
  have hcall : Rests w (perform env workflow operation) {w with events := []} := by
    cases operation with
    | tick => exact rests_tick env hw hstart hharmless
    | thunkResult result => exact rests_handleThunkResult env hw hstart hharmless
    | humanAction action => exact rests_handleHumanAction env hw hstart hharmless
    | submitStepOutput nodeId actor output => exact rests_submitStepOutput env hstart hharmless
    | reportStepProgress nodeId actor progress =>
      dsimp only [perform]
      unfold Rests reportStepProgress
      cases workflow.nodes.get? nodeId with
      | none => exact hstart
      | some compiled => exact rests_sync env (rests_emitEvent hstart)
    | requestHuman nodeId actor prompt subject =>
      dsimp only [perform]
      unfold Rests requestHuman
      rw [Option.isNone_iff_eq_none.mp hharmless]
      exact hstart
    | taskData data =>
      rw [harmless] at hharmless
      unfold Rests perform applyTaskData
      rw [wp_bind]
      show wp (lift (readTaskData w.run.runId data) >>= _) _ _ _
      rw [wp_bind]
      refine wp_lift ?_ (fun _ _ => hstart)
      intro request hread
      rw [hread] at hharmless
      cases request with
      | nothing => exact hstart
      | submit nodeId actor output => exact rests_submitStepOutput env hstart hharmless
      | act action => exact rests_handleHumanAction env hw hstart hharmless
  refine wp_state.mp (?_ : Rests w (answering (perform env workflow operation)) w)
  unfold Rests answering
  rw [wp_bind,wp_update,wp_bind]
  exact wp_mono hcall (fun _ _ h => h) (fun _ _ h => h)

theorem run_unmoved {operations : List Operation} (hw : Stopped w.run)
    (halong : Machine.Along (step env workflow)
      (fun w operation => harmless workflow w operation = true) w operations) :
    Unmoved w (Machine.run (step env workflow) w operations).2 :=
  Machine.run_invariant_along (I := Unmoved w)
    (fun _ _ h hharmless => h.trans (step_unmoved env (h.stopped hw) hharmless)) (.refl w) halong

theorem abort_stopped {events : List EventEnvelope} (haction : action.action = .abort)
    (h : (step env workflow w (.humanAction action)).1 = .ok events) :
    Stopped (step env workflow w (.humanAction action)).2.run := by
  refine of_wp_ok (Q := fun _ w' => Stopped w'.run) (E := fun _ _ => True) ?_ h
  show wp (answering (handleHumanAction env workflow action)) _ _ w
  unfold answering handleHumanAction
  rw [wp_bind,wp_update,wp_bind]
  cases workflow.nodes.get? action.nodeId with
  | none => trivial
  | some compiled =>
    dsimp only
    rw [applyHumanAction,haction,wp_bind]
    have hstopped : Stopped (abortRun w.run) := by
      refine ⟨rfl,?_⟩
      intro n s hget
      change (w.run.nodeStates.mapValues _).get? n = some s at hget
      rw [get?_mapValues] at hget
      obtain ⟨s',-,rfl⟩ := Option.map_eq_some_iff.mp hget
      split_ifs with hlive
      · rfl
      · simpa using hlive
    have hemitted : Stopped (World.emitted {w with run := abortRun w.run, events := []}
      "run.aborted" none action.actor none).run := ⟨hstopped.aborted,hstopped.still⟩
    show wp (emitEvent "human.action" (some action.nodeId) action.actor _ >>= _) _ _ _
    exact wp_mono (rests_reportAction env hemitted (.refl _)) (fun _ _ h₁ => h₁.stopped hemitted)
      (fun _ _ _ => trivial)

end Calls

/-- After an abort that succeeded, as long as every call is harmless, the run stays aborted, nothing
is dispatched or executed, and no node and no output changes. -/
theorem abort_final (env : Env) (workflow : CompiledWorkflow) (start : RunStart)
    (before : List Operation) {action : HumanAction} {events : List EventEnvelope}
    (haction : action.action = .abort)
    (hok : (step env workflow (reached env workflow start before) (.humanAction action)).1 =
      .ok events) {after : List Operation}
    (halong : Machine.Along (step env workflow) (fun w operation => harmless workflow w operation = true)
      (reached env workflow start (before ++ [.humanAction action])) after) :
    (reached env workflow start (before ++ .humanAction action :: after)).run.status = .aborted ∧
      Unmoved (reached env workflow start (before ++ [.humanAction action]))
        (reached env workflow start (before ++ .humanAction action :: after)) := by
  have hlast : reached env workflow start (before ++ [.humanAction action]) =
      (step env workflow (reached env workflow start before) (.humanAction action)).2 := by
    rw [reached,Machine.run_append]
    rfl
  have hrun : reached env workflow start (before ++ .humanAction action :: after) =
      (Machine.run (step env workflow)
        (reached env workflow start (before ++ [.humanAction action])) after).2 := by
    rw [hlast,reached,Machine.run_append]
    rfl
  have hstopped : Stopped (reached env workflow start (before ++ [.humanAction action])).run := by
    rw [hlast]
    exact abort_stopped env haction hok
  have hunmoved := run_unmoved env hstopped halong
  rw [hrun]
  exact ⟨hunmoved.status.trans hstopped.aborted,hunmoved⟩

def abortFirst : HumanAction where
  nodeId := "first"
  action := .abort

theorem exists_of_isOk {ε α : Type} {r : Except ε α} (h : r.isOk = true) : ∃ a, r = .ok a := by
  cases r with
  | ok a => exact ⟨a,rfl⟩
  | error e => cases h

/-- Ticks, refused outputs and refused decisions after an abort. -/
theorem abort_final_chain :
    ∃ output, compileWorkflow id 1 chainDefinition = some (.ok output) ∧
      Unmoved (worldAfter quietEnv output.workflow [.tick,.humanAction abortFirst])
        (worldAfter quietEnv output.workflow [.tick,.humanAction abortFirst,.tick,
          .submitStepOutput "first" "human" .null,
          .humanAction ⟨"first",.approve,none,"human"⟩,.humanAction abortFirst]) := by
  obtain ⟨output,hout,hok,halong⟩ := exists_compiled chainDefinition (P := fun workflow =>
    (step quietEnv workflow (worldAfter quietEnv workflow [.tick]) (.humanAction abortFirst)).1.isOk =
      true ∧
    Machine.Along (step quietEnv workflow) (fun w operation => harmless workflow w operation = true)
      (worldAfter quietEnv workflow [.tick,.humanAction abortFirst])
      [.tick,.submitStepOutput "first" "human" .null,.humanAction ⟨"first",.approve,none,"human"⟩,
        .humanAction abortFirst]) (by decide +kernel)
  obtain ⟨events,hevents⟩ := exists_of_isOk hok
  exact ⟨output,hout,(abort_final quietEnv output.workflow ⟨"run",.empty,fun _ => none⟩ [.tick] rfl
    hevents halong).2⟩

/-- A report about a thunk that was pending when the run was aborted completes the aborted node. -/
theorem report_after_abort :
    ∃ output, compileWorkflow id 1 chainDefinition = some (.ok output) ∧
      ∃ t ∈ (worldAfter quietEnv output.workflow [.tick]).run.pendingThunks.items,
        (step quietEnv output.workflow (worldAfter quietEnv output.workflow [.tick])
          (.humanAction abortFirst)).1.isOk = true ∧
        (worldAfter quietEnv output.workflow
          [.tick,.humanAction abortFirst]).run.nodeStates.get? "first" = some .aborted ∧
        (worldAfter quietEnv output.workflow
          [.tick,.humanAction abortFirst,done t (.string "x")]).run.nodeStates.get? "first" =
            some .completed :=
  exists_output (by decide +kernel)

end BuckyOS.Workflow
