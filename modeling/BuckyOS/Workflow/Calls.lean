import BuckyOS.Workflow.Ticks

/-! The moves of the other calls: reports about thunks, human actions, outputs from outside. -/
namespace BuckyOS.Workflow
open Fallible Relation

section Results
variable {workflow : CompiledWorkflow} (env : Env)

def reportedValue (store : ObjectId → Option Json) (result : ThunkExecutionResult) : Option Json :=
  match result.result with
  | some value => some value
  | none =>
    match result.resultObjId with
    | none => some .null
    | some id => store id

def ReportedInput (run : WorkflowRun) (store : ObjectId → Option Json)
    (result : ThunkExecutionResult) (node : CompiledNode) (input : Json) : Prop :=
  ∃ output, reportedValue store result = some output ∧
    resolveApplyInput (run.setOutput node.id output) node = .ok input

/-- A report about the pending thunk of a node whose results are kept, and the input that the result
is filed under. -/
structure Filing (run : WorkflowRun) (store : ObjectId → Option Json)
    (result : ThunkExecutionResult) (node : CompiledNode) (input : Json) : Prop where
  pending : ∃ t, run.pendingThunks.find? result.thunkObjId = some t ∧ t.shardIndex = none ∧
    t.nodeId = node.id
  success : result.status = .success
  kept : isIdempotent node = true
  input : ReportedInput run store result node input

def resultScope (tidy : Prop) (w : World) (result : ThunkExecutionResult) : Scope where
  shards := fun _ => True
  tidy := tidy
  files := fun id node input => id = result.thunkObjId ∧ Filing w.run w.store result node input

variable {scope : Scope} {v : View} {w : World} {result : ThunkExecutionResult}

theorem goesFrom_reportedOutput {β : Type} {f : Json → Orch β} (hw : Reach workflow scope v w.view)
    (h : ∀ output w', w'.run = w.run → w'.view = w.view → reportedValue w.store result = some output →
      GoesFrom workflow scope v (f output) w') :
    GoesFrom workflow scope v (reportedOutput env result >>= f) w := by
  unfold reportedOutput
  cases hresult : result.result with
  | some value => exact h value w rfl rfl (by rw [reportedValue,hresult])
  | none =>
    cases hid : result.resultObjId with
    | none => exact h .null w rfl rfl (by rw [reportedValue,hresult,hid])
    | some id =>
      unfold GoesFrom getJson
      rw [wp_bind,wp_bind,wp_bind]
      refine wp_external env ?_ fun _ => hw
      rw [wp_read]
      cases hstored : w.called.store id with
      | none => exact hw
      | some value =>
        refine h value w.called rfl rfl ?_
        rw [reportedValue,hresult,hid]
        exact hstored

variable {output : Json}

theorem goesFrom_resultAddress {β : Type} {f : ObjectId → Orch β} (hw : Reach workflow scope v w.view)
    (h : ∀ id w', w'.run = w.run → w'.reported = w.reported → Reach workflow scope v w'.view →
      (∀ n, CanRest workflow scope v w.view n → CanRest workflow scope v w'.view n) →
      GoesFrom workflow scope v (f id) w') :
    GoesFrom workflow scope v (resultAddress env result output >>= f) w := by
  unfold resultAddress
  cases result.resultObjId with
  | some id => exact h id w rfl rfl hw fun _ hn => hn
  | none =>
    refine goesFrom_putJson env hw (h _ _ rfl rfl
      (hw.tail (.putJson w.view "workflow_result" output (by decide))) ?_)
    intro n hn
    exact hn.tail fun s => .putJson _ "workflow_result" output (by decide)

variable {compiled : CompiledNode}

theorem handleShardCompleted_goes {forEachId : String} (index : ℕ) (output : Json)
    (hshards : scope.shards forEachId) (hresets : ¬ scope.resets forEachId)
    (happly : workflow.isApply forEachId = false) (hbegun : scope.tidy → Begun w.view forEachId) :
    Goes workflow scope (handleShardCompleted env workflow forEachId index output) w := by
  refine goesFrom_readRun ?_
  cases hmap : w.run.mapStates.get? forEachId with
  | none => exact .refl
  | some state =>
    dsimp only
    split_ifs
    · exact .refl
    · have hdone : Reach workflow scope w.view _ := adjustMap_reach w.run .refl forEachId
        (fun state => keepsShards_completeShard state index output)
      refine goesFrom_modifyRun (goesFrom_emitEvent (goesFrom_sync env hdone ?_))
      cases workflow.nodes.get? state.bodyStepId with
      | none => exact hdone
      | some bodyNode =>
        refine GoesFrom.bind ((dispatchPendingShards_goes env bodyNode hshards happly ?_ hresets).after
          hdone) ?_
        · exact fun h => Reach.begun hdone happly hresets (hbegun h)
        intro _ w' hw'
        refine goesFrom_readRun ?_
        split_ifs with hall
        · exact (completeMap_goes env (allShardsDone_mem hall)).after hw'
        · exact hw'

theorem handleShardFailed_goes (forEachId : String) (index : ℕ) (error : Json) (w : World) :
    Goes workflow scope (handleShardFailed env workflow forEachId index error) w := by
  refine goesFrom_readRun ?_
  cases hmap : w.run.mapStates.get? forEachId with
  | none => exact .refl
  | some state =>
    have hkey : forEachId ∈ w.run.mapStates.keys := (OrderedMap.mem_keys_iff _ _).mpr ⟨state,hmap⟩
    dsimp only
    split_ifs
    · exact .refl
    · have hshard : Reach workflow scope w.view _ := adjustMap_reach w.run .refl forEachId
        (fun state => keepsShards_setShard state index .failed (by decide))
      have hfail := hshard.tail (.place _ forEachId .failed trivial (Or.inr (Or.inr (adjustMap_keys _ hkey))))
      exact goesFrom_modifyRun (goesFrom_emitEvent (goesFrom_modifyRun
        (goesFrom_sync env hfail ((syncNode_goes env forEachId _).after hfail))))

theorem acceptResult_goes {pending : PendingThunk}
    (hid : compiled.id = pending.nodeId) (hnode : workflow.nodes.get? compiled.id = some compiled)
    (hshards : scope.shards pending.nodeId) (hresets : ¬ scope.resets pending.nodeId)
    (hbegun : pending.shardIndex ≠ none → workflow.isApply pending.nodeId = false ∧
      (scope.tidy → Begun w.view pending.nodeId))
    (hfiles : ∀ input, pending.shardIndex = none → isIdempotent compiled = true →
      ReportedInput w.run w.store result compiled input → scope.files result.thunkObjId compiled input)
    (hw : Reach workflow scope v w.view)
    (hrest : pending.shardIndex = none → CanRest workflow scope v w.view pending.nodeId) :
    GoesFrom workflow scope v (acceptResult env workflow compiled pending result) w := by
  refine goesFrom_reportedOutput env hw ?_
  intro output w₁ hrun₁ hview₁ hvalue
  refine goesFrom_resultAddress env (hview₁ ▸ hw) ?_
  intro outputId w₂ hrun₂ _ hw₂ hrest₂
  have hreported := hw₂.tail (.report _ result.thunkObjId output)
  show GoesFrom workflow scope v _ {w₂ with reported := w₂.reported ++ [(result.thunkObjId,output)]}
  cases hshard : pending.shardIndex with
  | some index =>
    obtain ⟨happly,hbegun⟩ := hbegun (by simp [hshard])
    refine (handleShardCompleted_goes env index output hshards hresets happly ?_).after hreported
    intro htidy
    obtain ⟨s,hget,hs⟩ := hbegun htidy
    refine ⟨s,?_,hs⟩
    show w₂.run.nodeStates.get? pending.nodeId = some s
    rw [hrun₂,hrun₁]
    exact hget
  | none =>
    dsimp only
    rw [← hid]
    refine goesFrom_modifyRun (GoesFrom.bind ?_
      (fun _ w' hw' => (completeApply_goes env compiled.id _ w').after hw'))
    have hdone := (hrest₂ compiled.id (by rw [hview₁,hid]; exact hrest hshard) .completed
      (by decide)).tail (.report _ result.thunkObjId output)
    unfold keepReported
    split_ifs with hkept
    · refine goesFrom_readRun (goesFrom_lift hdone ?_)
      intro input hinput
      unfold putJsonWithId GoesFrom
      rw [wp_bind]
      refine wp_external env (hdone.tail (.keepResult _ compiled result.thunkObjId input output
        outputId result.metrics hnode (by simp) (hfiles input hshard hkept ⟨output,hvalue,?_⟩))) fun _ => hdone
      rw [← hinput]
      exact resolveApplyInput_congr (by rw [← hrun₁,← hrun₂]; rfl) compiled
    · exact hdone

theorem rejectResult_goes (compiled : CompiledNode) {pending : PendingThunk}
    (result : ThunkExecutionResult) (hw : Reach workflow scope v w.view)
    (hrest : pending.shardIndex = none → CanRest workflow scope v w.view pending.nodeId) :
    GoesFrom workflow scope v (rejectResult env workflow compiled pending result) w := by
  unfold rejectResult
  cases hshard : pending.shardIndex with
  | some index => exact (handleShardFailed_goes env pending.nodeId index _ w).after hw
  | none =>
    exact goesFrom_readRun ((recordFailure_goes _ _ _ _ (hrest hshard)).bind
      (fun _ _ hw' => goesFrom_sync_last env hw'))

/-- A pending thunk runs a node that executes, or a shard of one that does not, and that has begun
if all is tidy. -/
structure Filed (workflow : CompiledWorkflow) (tidy : Prop) (v : View) (t : PendingThunk) :
    Prop where
  apply : t.shardIndex = none → workflow.isApply t.nodeId = true
  begun : t.shardIndex ≠ none → workflow.isApply t.nodeId = false ∧ (tidy → Begun v t.nodeId)

theorem handleThunkResult_goes {tidy : Prop} (result : ThunkExecutionResult)
    (hids : workflow.Keyed)
    (hpending : ∀ t, w.run.pendingThunks.find? result.thunkObjId = some t → Filed workflow tidy w.view t) :
    Goes workflow (resultScope tidy w result) (handleThunkResult env workflow result) w := by
  refine goesFrom_readRun ?_
  cases hfind : w.run.pendingThunks.find? result.thunkObjId with
  | none => exact .refl
  | some pending =>
    have hkey : pending.thunkObjId = result.thunkObjId := ((Registry.find?_eq_some_iff _).mp hfind).2
    have hfind' : w.view.thunks.find? pending.thunkObjId = some pending := by
      rw [hkey]
      exact hfind
    refine goesFrom_modifyRun ?_
    have hunpend : Reach workflow (resultScope tidy w result) w.view _ :=
      .single (.unpend w.view result.thunkObjId)
    cases hnode : workflow.nodes.get? pending.nodeId with
    | none => exact hunpend
    | some compiled =>
      have hid := hids _ _ hnode
      have hfiled := hpending pending hfind
      have hrest : pending.shardIndex = none → CanRest workflow (resultScope tidy w result) w.view
          {w.view with thunks := w.view.thunks.erase result.thunkObjId} pending.nodeId := by
        intro hshard s hs
        rw [← hkey]
        exact .single (.finish w.view pending s hs hfind' hshard (hfiled.apply hshard))
      have hrequeue : Reach workflow (resultScope tidy w result) w.view
          {w.view with thunks := (w.view.thunks.erase result.thunkObjId).insert pending} := by
        rw [← hkey]
        exact .single (.requeue w.view pending hfind')
      refine GoesFrom.bind ?_ fun _ w' hw' => (settle_goes env w').after hw'
      unfold applyResult
      cases hstatus : result.status with
      | waiting | dispatched => exact hrequeue
      | success =>
        refine acceptResult_goes env hid (hid ▸ hnode) trivial (fun h => h) hfiled.begun ?_ hunpend hrest
        rintro input hshard hkept ⟨output,hvalue,hinput⟩
        refine ⟨rfl,⟨pending,hfind,hshard,hid.symm⟩,hstatus,hkept,output,hvalue,?_⟩
        rw [← hinput]
        apply resolveApplyInput_congr
        rfl
      | failed | cancelled => exact rejectResult_goes env compiled result hunpend hrest

end Results

section Actions
variable {workflow : CompiledWorkflow} {scope : Scope} (env : Env)

def supersedes (workflow : CompiledWorkflow) (run : WorkflowRun) (action : HumanAction)
    (nodeId : String) : Bool :=
  match workflow.nodes.get? action.nodeId with
  | none => false
  | some compiled =>
    match action.action with
    | .retry => decide (nodeId = action.nodeId) && (decide (run.stateOf nodeId = .waitingHuman) ||
        decide (run.stateOf nodeId = .failed))
    | .skip => decide (nodeId = action.nodeId) && compiled.skippable
    | .abort => true
    | .rollback => decide (nodeId ∈ workflow.graph.downstreamFrom action.nodeId ++ [action.nodeId]) &&
        !(workflow.graph.downstreamFrom action.nodeId).any (isBarrier workflow run)
    | _ => false

/-- A human action sets aside the nodes it overrules; a retry or a rollback makes them run again. -/
def actionScope (workflow : CompiledWorkflow) (run : WorkflowRun) (action : HumanAction) : Scope where
  overrides := fun n => supersedes workflow run action n = true
  resets := fun n => supersedes workflow run action n = true ∧
    (action.action = .retry ∨ action.action = .rollback)

variable {nodeId : String} {w : World}

theorem decideNode_goes (decision : Json) (hidle : w.run.nodeStates.get? nodeId ≠ some .running) :
    Goes workflow scope (decideNode workflow nodeId decision) w :=
  goesFrom_modifyRun (.single (.place w.view nodeId .completed trivial (Or.inl hidle)))

theorem ensureWaitingHuman_idle {run : WorkflowRun} {u : Unit}
    (h : ensureWaitingHuman run nodeId = .ok u) : run.nodeStates.get? nodeId ≠ some .running := by
  unfold ensureWaitingHuman at h
  split_ifs at h with hwaiting
  simp [hwaiting]

theorem resetNodes_reach {v : View} {nodeIds : List String} {run : WorkflowRun}
    (hnodes : ∀ n ∈ nodeIds, scope.overrides n ∧ scope.resets n)
    (hrun : Reach workflow scope v (run.view w)) :
    Reach workflow scope v ((nodeIds.foldl resetNode run).view w) := by
  induction nodeIds generalizing run with
  | nil => exact hrun
  | cons nodeId nodeIds ih =>
    obtain ⟨hoverrides,hresets⟩ := hnodes nodeId List.mem_cons_self
    exact ih (fun n hn => hnodes n (List.mem_cons_of_mem _ hn))
      (hrun.tail (.override _ nodeId .pending (by decide) hoverrides fun _ => hresets))

theorem applyHumanAction_goes {compiled : CompiledNode} {action : HumanAction}
    (hnode : workflow.nodes.get? action.nodeId = some compiled) :
    Goes workflow (actionScope workflow w.run action) (applyHumanAction workflow compiled action) w := by
  unfold applyHumanAction
  cases hkind : action.action with
  | approve =>
    refine goesFrom_readRun (goesFrom_lift .refl ?_)
    intro _ hwaiting
    refine goesFrom_lift .refl ?_
    intro subject _
    exact decideNode_goes _ (ensureWaitingHuman_idle hwaiting)
  | modify =>
    refine goesFrom_readRun (goesFrom_lift .refl ?_)
    intro _ hwaiting
    cases action.payload.bind (fun payload => payload.get? "modified_subject") with
    | none => exact .refl
    | some modified => exact decideNode_goes _ (ensureWaitingHuman_idle hwaiting)
  | reject =>
    refine goesFrom_readRun (goesFrom_lift .refl ?_)
    intro _ hwaiting
    exact decideNode_goes _ (ensureWaitingHuman_idle hwaiting)
  | retry =>
    refine goesFrom_readRun ?_
    split_ifs with hstate
    · have hsupersedes : supersedes workflow w.run action action.nodeId = true := by
        rw [supersedes,hnode,hkind]
        simpa using hstate
      exact .single (.override w.view action.nodeId .pending (by decide) hsupersedes
        (fun _ => ⟨hsupersedes,by simp [hkind]⟩))
    · exact .refl
  | skip =>
    dsimp only
    unfold skip
    split_ifs with hskippable
    · have hsupersedes : supersedes workflow w.run action action.nodeId = true := by
        rw [supersedes,hnode,hkind]
        simpa using hskippable
      exact goesFrom_modifyRun (.single (.override w.view action.nodeId .skipped (by decide)
        hsupersedes fun h => absurd h (by decide)))
    · exact .refl
  | abort =>
    refine goesFrom_modifyRun (.single (.abort w.view ?_))
    intro n
    show supersedes workflow w.run action n = true
    rw [supersedes,hnode,hkind]
  | rollback =>
    refine goesFrom_readRun ?_
    cases hbarrier : (workflow.graph.downstreamFrom action.nodeId).find? (isBarrier workflow w.run) with
    | some nodeId => exact .refl
    | none =>
      refine resetNodes_reach (w := w) ?_ .refl
      intro n hn
      have hsupersedes : supersedes workflow w.run action n = true := by
        rw [supersedes,hnode,hkind]
        have hnone : (workflow.graph.downstreamFrom action.nodeId).any (isBarrier workflow w.run) =
            false := by
          rw [List.any_eq_false]
          exact List.find?_eq_none.mp hbarrier
        simp only [hn,hnone,decide_true,Bool.not_false,Bool.and_true]
      exact ⟨hsupersedes,hsupersedes,by simp [hkind]⟩

theorem handleHumanAction_goes (action : HumanAction) (w : World) :
    Goes workflow (actionScope workflow w.run action) (handleHumanAction env workflow action) w := by
  unfold handleHumanAction
  cases hnode : workflow.nodes.get? action.nodeId with
  | none => exact .refl
  | some compiled =>
    refine GoesFrom.bind (applyHumanAction_goes hnode) ?_
    intro _ w' hw'
    refine goesFrom_emitEvent (goesFrom_readRun ?_)
    exact GoesFrom.bind ((syncNodes_goes env _ _).after hw')
      (fun _ w'' hw'' => (settle_goes env w'').after hw'')

theorem goesFrom_withdrawThunks {v : View} {β : Type} {f : Unit → Orch β}
    (h : GoesFrom workflow scope v (f ()) {w with
      run := w.run.dropThunks nodeId
      cancelled := w.cancelled ++ (w.run.thunksOf nodeId).map PendingThunk.thunkObjId
      calls := w.calls + ((w.run.thunksOf nodeId).map PendingThunk.thunkObjId).length}) :
    GoesFrom workflow scope v (withdrawThunks nodeId >>= f) w := h

theorem submitStepOutput_goes (nodeId actor : String) (output : Json) (w : World) :
    Goes workflow scope (submitStepOutput env workflow nodeId actor output) w := by
  unfold submitStepOutput
  cases workflow.nodes.get? nodeId with
  | none => exact .refl
  | some compiled =>
    refine goesFrom_readRun ?_
    split_ifs
    · refine goesFrom_withdrawThunks (goesFrom_modifyRun (goesFrom_modifyRun (goesFrom_emitEvent ?_)))
      refine GoesFrom.bind ((notifyParBranchCompleted_goes env nodeId _).after ?_)
        (fun _ w' hw' => goesFrom_sync env hw' ((settle_goes env _).after hw'))
      exact .single (.withdraw w.view nodeId .completed (by decide))
    · exact .refl

theorem reportStepProgress_goes (nodeId actor : String) (progress : Json) (w : World) :
    Goes workflow scope (reportStepProgress env workflow nodeId actor progress) w := by
  unfold reportStepProgress
  cases workflow.nodes.get? nodeId with
  | none => exact .refl
  | some compiled => exact goesFrom_emitEvent (goesFrom_sync_last env .refl)

theorem requestHuman_goes (nodeId actor : String) (prompt : Option String) (subject : Option Json)
    (w : World) : Goes workflow scope (requestHuman env workflow nodeId actor prompt subject) w := by
  unfold requestHuman
  cases workflow.nodes.get? nodeId with
  | none => exact .refl
  | some compiled =>
    refine goesFrom_withdrawThunks (goesFrom_modifyRun ?_)
    refine GoesFrom.bind ((storeSubject_goes env subject _).after ?_) fun _ w' hw' =>
      goesFrom_emitEvent (goesFrom_sync env hw' ((settle_goes env _).after hw'))
    exact .single (.withdraw w.view nodeId .waitingHuman (by decide))

end Actions

section Step
variable (workflow : CompiledWorkflow) (env : Env)

def callScope (tidy : Prop) (w : World) : Operation → Scope
  | .tick => tickScope tidy
  | .thunkResult result => resultScope tidy w result
  | .humanAction action => actionScope workflow w.run action
  | .taskData data =>
    match readTaskData w.run.runId data with
    | .ok (.act action) => actionScope workflow w.run action
    | _ => {}
  | _ => {}

variable {workflow}

/-- A call is a sequence of moves in its scope, provided that no shard of a waiting node was ever
sent off and that a pending thunk is filed under the node it runs. -/
theorem step_reach {tidy : Prop} {w : World} (operation : Operation)
    (hids : workflow.Keyed)
    (hspent : tidy → ∀ u, Reach workflow (tickScope tidy) w.view u → u.Unsent)
    (hpending : ∀ t ∈ w.run.pendingThunks.items, Filed workflow tidy w.view t) :
    Reach workflow (callScope workflow tidy w operation) w.view (step env workflow w operation).2.view := by
  have hcall : Goes workflow (callScope workflow tidy w operation) (perform env workflow operation)
      {w with events := []} := by
    cases operation with
    | tick => exact tick_goes env hids hspent
    | thunkResult result =>
      refine handleThunkResult_goes env result hids ?_
      intro t ht
      exact hpending t ((Registry.find?_eq_some_iff _).mp ht).1
    | humanAction action => exact handleHumanAction_goes env action _
    | submitStepOutput nodeId actor output => exact submitStepOutput_goes env nodeId actor output _
    | reportStepProgress nodeId actor progress => exact reportStepProgress_goes env nodeId actor progress _
    | requestHuman nodeId actor prompt subject => exact requestHuman_goes env nodeId actor prompt subject _
    | taskData data =>
      refine goesFrom_readRun (goesFrom_lift .refl ?_)
      intro request hrequest
      cases request with
      | nothing => exact .refl
      | submit nodeId actor output => exact submitStepOutput_goes env nodeId actor output _
      | act action =>
        have hscope : callScope workflow tidy w (.taskData data) = actionScope workflow w.run action := by
          have hread : readTaskData w.run.runId data = .ok (.act action) := hrequest
          simp only [callScope,hread]
        rw [hscope]
        exact handleHumanAction_goes env action _
  have hanswer : Goes workflow (callScope workflow tidy w operation)
      (answering (perform env workflow operation)) w := by
    unfold Goes GoesFrom answering
    rw [wp_bind,wp_update,wp_bind]
    exact wp_mono hcall (fun _ _ h => h) fun _ _ h => h
  exact wp_state.mp hanswer

end Step
end BuckyOS.Workflow
