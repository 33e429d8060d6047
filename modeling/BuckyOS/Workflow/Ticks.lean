import BuckyOS.Workflow.Moves

/-! The moves of a tick: what starting each kind of node does, and the rounds in which the nodes
that may start are found and started one after the other. -/
namespace BuckyOS.Workflow
open Fallible Relation List OrderedMap

section Calls
variable {workflow : CompiledWorkflow} {scope : Scope} (env : Env)

theorem syncNode_goes (nodeId : String) (w : World) :
    Goes workflow scope (syncNode env workflow nodeId) w := by
  unfold syncNode
  split_ifs
  · exact goesFrom_sync_last env .refl
  · exact goesFrom_pure _ .refl

theorem syncNodes_goes (nodeIds : List String) (w : World) :
    Goes workflow scope (visit (syncNode env workflow) nodeIds) w :=
  wp_visit_keeps (fun nodeId w' hw' => (syncNode_goes env nodeId w').after hw') nodeIds .refl

theorem refreshRunStatus_goes (w : World) : Goes workflow scope (refreshRunStatus workflow) w := by
  refine goesFrom_readRun (goesFrom_modifyRun ?_)
  split_ifs
  · exact .refl
  · exact .refl
  · exact .refl

theorem settle_goes (w : World) : Goes workflow scope (settle env workflow) w :=
  (refreshRunStatus_goes w).bind fun _ _ hw => goesFrom_sync_last env hw

variable {v : View} {w : World} (nodeId : String) {parId : String} {completed : List String}

/-- Moves of the run alone, with everything around it as in `w`. -/
theorem cancelBranch_reach {acc : Cancelling}
    (hacc : Reach workflow scope v (acc.run.view w)) (branchId : String) :
    Reach workflow scope v ((Cancelling.branch completed acc branchId).run.view w) := by
  unfold Cancelling.branch
  split_ifs
  · exact hacc
  · cases hstate : acc.run.nodeStates.get? branchId with
    | none => exact hacc
    | some state =>
      dsimp only
      split_ifs with hlive hrunning
      · exact hacc.tail (.withdraw _ branchId .cancelled (by decide))
      · refine hacc.tail (.place _ branchId .cancelled trivial (.inl ?_))
        intro hget
        exact hrunning (decide_eq_true (Option.some.inj (hstate.symm.trans hget)))
      · exact hacc

theorem cancelBranches_reach (branches : List String) {acc : Cancelling}
    (hacc : Reach workflow scope v (acc.run.view w)) :
    Reach workflow scope v ((branches.foldl (Cancelling.branch completed) acc).run.view w) := by
  induction branches generalizing acc with
  | nil => exact hacc
  | cons branchId branches ih => exact ih (cancelBranch_reach hacc branchId)

theorem joinPar_parStates (state : ParState) (run : WorkflowRun) :
    (joinPar state run).run.parStates = run.parStates := by
  have hfold : ∀ (branches : List String) (acc : Cancelling),
      (branches.foldl (Cancelling.branch (state.completedBranches run)) acc).run.parStates =
        acc.run.parStates := by
    intro branches
    induction branches with
    | nil => exact fun _ => rfl
    | cons branchId branches ih =>
      intro acc
      rw [foldl_cons,ih,Cancelling.branch]
      split_ifs
      · rfl
      · cases acc.run.nodeStates.get? branchId with
        | none => rfl
        | some state =>
          dsimp only
          split_ifs <;> rfl
  exact hfold state.branches {run := run}

theorem failPar_goes (hpar : parId ∈ w.run.parStates.keys) :
    Goes workflow scope (failPar env workflow parId) w := by
  refine goesFrom_modifyRun (goesFrom_emitEvent ((syncNode_goes env parId _).after ?_))
  exact (ReflTransGen.single (.place w.view parId .failed trivial (.inr (.inl hpar)))).tail
    (.closePar _ parId)

theorem completePar_goes {state : ParState} (hpar : parId ∈ w.run.parStates.keys) :
    Goes workflow scope (completePar env workflow parId state) w := by
  refine goesFrom_readRun ?_
  refine (syncNodes_goes env _ _).after ?_ |>.bind fun _ _ hw => (syncNode_goes env parId _).after hw
  have hjoin : Reach workflow scope w.view ((joinPar state w.run).run.view w) :=
    cancelBranches_reach state.branches .refl
  have hkey : parId ∈ ((joinPar state w.run).run.view w).pars.keys := by
    show parId ∈ (joinPar state w.run).run.parStates.keys
    rw [joinPar_parStates]
    exact hpar
  exact (hjoin.tail (.place _ parId .completed trivial (.inr (.inl hkey)))).tail (.closePar _ parId)

theorem checkParCompletion_goes (parId : String) (w : World) :
    Goes workflow scope (checkParCompletion env workflow parId) w := by
  refine goesFrom_readRun ?_
  cases hget : w.run.parStates.get? parId with
  | none => exact .refl
  | some state =>
    have hkey : parId ∈ w.run.parStates.keys := (mem_keys_iff _ _).mpr ⟨state,hget⟩
    dsimp only
    split_ifs
    · exact failPar_goes env hkey
    · exact completePar_goes env hkey
    · exact .refl

theorem notifyParBranchCompleted_goes (w : World) :
    Goes workflow scope (notifyParBranchCompleted env workflow nodeId) w :=
  goesFrom_readRun (wp_visit_keeps (fun parId w' hw' =>
    (checkParCompletion_goes env parId w').after hw') _ .refl)

theorem completeApply_goes (payload : Json) (w : World) :
    Goes workflow scope (completeApply env workflow nodeId payload) w :=
  goesFrom_modifyRun (((notifyParBranchCompleted_goes env nodeId _).after .refl).bind
    (fun _ _ hw => goesFrom_emitEvent (goesFrom_sync_last env hw)))

variable {compiled : CompiledNode} {nodeId : String}

theorem recordFailure_goes (policy : RetryPolicy) (attempt : ℕ) (retry : Bool) (error : Json)
    (h : CanRest workflow scope v w.view nodeId) :
    GoesFrom workflow scope v (recordFailure nodeId policy attempt retry error) w := by
  unfold recordFailure
  split_ifs
  · exact goesFrom_modifyRun (h .pending (by decide))
  · exact goesFrom_modifyRun (h .waitingHuman (by decide))
  · exact goesFrom_modifyRun (h .failed (by decide))

variable {executor : ExecutorRef} {input : Json}

theorem completeApplyNodeDirect_goes {output : Json} (metrics : Json)
    (hexecutor : compiled.executor? = some executor)
    (hcall : ⟨executor,input,.ok output⟩ ∈ w.invoked) (hw : Reach workflow scope v w.view)
    (h : CanRest workflow scope v w.view compiled.id) :
    GoesFrom workflow scope v (completeApplyNodeDirect env workflow compiled input output metrics) w := by
  refine goesFrom_putJson env hw (goesFrom_modifyRun (GoesFrom.bind ?_
    (fun _ w' hw' => (completeApply_goes env compiled.id _ w').after hw')))
  have hdone := (h .completed (by decide)).tail (.putJson _ "workflow_result" output (by decide))
  unfold keepResult
  split_ifs
  · unfold putJsonWithId GoesFrom
    rw [wp_bind]
    exact wp_external env (hdone.tail (.keepAnswer _ compiled executor input output _ metrics hexecutor
      hcall)) fun _ => hdone
  · exact hdone

theorem storeSubject_goes (subject : Option Json) (w : World) :
    Goes workflow scope (storeSubject env subject) w := by
  cases subject with
  | none => exact .refl
  | some value =>
    exact goesFrom_putJson env .refl (.single (.putJson w.view "workflow_subject" value (by decide)))

theorem goesFrom_cachedResult {β : Type} {f : Option Json → Orch β} (hw : Reach workflow scope v w.view)
    (h : ∀ cached w', w'.view = w.view → GoesFrom workflow scope v (f cached) w') :
    GoesFrom workflow scope v (cachedResult env compiled input >>= f) w := by
  unfold GoesFrom cachedResult
  rw [wp_bind]
  split_ifs
  · unfold lookupCache
    rw [wp_bind]
    unfold getJson
    rw [wp_bind]
    exact wp_external env (h _ w.called rfl) fun _ => hw
  · exact h none w rfl

section Idle
variable (hidle : w.run.nodeStates.get? compiled.id ≠ some .running)
include hidle

theorem completeFromCache_goes (cached : Json) :
    Goes workflow scope (completeFromCache env workflow compiled cached) w :=
  goesFrom_modifyRun ((completeApply_goes env compiled.id _ _).after
    (.single (.place w.view compiled.id .completed trivial (.inl hidle))))

theorem askAboutBranch_goes (payload : Json) :
    Goes workflow scope (askAboutBranch env compiled payload) w :=
  goesFrom_modifyRun (goesFrom_emitEvent (goesFrom_sync_last env
    (.single (.place w.view compiled.id .waitingHuman trivial (.inl hidle)))))

theorem advanceMatch_goes (on : RefPath) (cases : OrderedMap String String) (maxIterations : ℕ) :
    Goes workflow scope (advanceMatch env workflow compiled on cases maxIterations) w := by
  refine goesFrom_readRun ?_
  dsimp only
  split_ifs
  · exact askAboutBranch_goes env hidle _
  · refine goesFrom_lift .refl ?_
    intro value _
    cases cases.get? (value.asStr.getD value.render) with
    | none => exact askAboutBranch_goes env hidle _
    | some target =>
      exact goesFrom_modifyRun (goesFrom_modifyRun (goesFrom_modifyRun (goesFrom_emitEvent
        (goesFrom_sync_last env (.single (.place w.view compiled.id .completed trivial (.inl hidle)))))))

theorem enterHumanWait_goes (prompt : Option String) :
    Goes workflow scope (enterHumanWait env compiled prompt) w := by
  refine goesFrom_modifyRun (goesFrom_readRun ?_)
  refine GoesFrom.bind ((storeSubject_goes env _ _).after ?_)
    (fun _ _ hw => goesFrom_emitEvent (goesFrom_sync_last env hw))
  exact .single (.place w.view compiled.id .waitingHuman trivial (.inl hidle))

variable (hnode : workflow.nodes.get? compiled.id = some compiled) (hstart : scope.starts compiled.id)
include hnode hstart

theorem scheduleApplyDirect_goes (input : Json) (attempt : ℕ)
    (hexecutor : compiled.executor? = some executor) :
    Goes workflow scope (scheduleApplyDirect env workflow compiled executor input attempt) w := by
  refine goesFrom_modifyRun (goesFrom_emitEvent ?_)
  have happly := isApply_of_executor hnode hexecutor
  have hrunning : Reach workflow scope w.view
      {w.view with states := w.view.states.insert compiled.id .running} :=
    .single (.start w.view compiled.id hstart)
  refine goesFrom_sync env hrunning ?_
  have hrest : ∀ call, CanRest workflow scope w.view
      {w.view with
        states := w.view.states.insert compiled.id .running
        invoked := w.view.invoked ++ [call]} compiled.id := by
    intro call s hs
    dsimp only
    rw [insert_insert]
    exact (ReflTransGen.single (.place w.view compiled.id s (admits_of_isApply happly hs)
      (.inl hidle))).tail (.invoke _ call)
  refine goesFrom_invoke env ?_
  generalize env.invoke _ executor input = answer
  cases answer with
  | ok output =>
    refine completeApplyNodeDirect_goes env .null hexecutor ?_
      (hrunning.tail (.invoke _ ⟨executor,input,.ok output⟩)) (hrest ⟨executor,input,.ok output⟩)
    exact mem_append_right _ (mem_singleton_self _)
  | error error =>
    refine (recordFailure_goes _ attempt true _ (hrest ⟨executor,input,.error error⟩)).bind
      (fun _ _ hw => goesFrom_sync_last env hw)

/-- The attempt is counted before the thunk is sent off. -/
theorem dispatchApply_goes (input : Json) : GoesFrom workflow scope w.view
      (dispatchApply env compiled input ((w.run.countAttempt compiled.id).attemptOf compiled.id))
      {w with run := w.run.countAttempt compiled.id} := by
  have hattempt : (w.run.countAttempt compiled.id).attemptOf compiled.id =
      w.run.attemptOf compiled.id + 1 := by
    rw [WorkflowRun.attemptOf,WorkflowRun.countAttempt,getD_upsert,if_pos rfl]
    rfl
  rw [hattempt]
  have hcount : Reach workflow scope w.view _ := .single (.count w.view compiled.id)
  refine goesFrom_readRun (goesFrom_lift hcount ?_)
  intro scheduled hbuild
  refine goesFrom_putJson env hcount ?_
  have hput : Reach workflow scope w.view _ :=
    .single (.putJson w.view "workflow_thunk" scheduled.thunk.toJson (by decide))
  refine goesFrom_scheduleThunk env
    (hput.tail (.count _ compiled.id)) (goesFrom_modifyRun (goesFrom_emitEvent ?_))
  have hdispatch := hput.tail (.dispatch _ compiled w.run.runId input scheduled hnode hstart hidle hbuild)
  exact goesFrom_sync env hdispatch (goesFrom_sync_last env hdispatch)

theorem startApply_goes (input : Json) :
    Goes workflow scope (startApply env workflow compiled input) w := by
  refine goesFrom_modifyRun (goesFrom_readRun ?_)
  have hcount : Reach workflow scope w.view _ := .single (.count w.view compiled.id)
  cases hexpr : compiled.expr with
  | apply executor =>
    dsimp only
    split_ifs
    · have hexecutor : compiled.executor? = some executor := by rw [CompiledNode.executor?,hexpr]
      exact (scheduleApplyDirect_goes env (w := {w with run := w.run.countAttempt compiled.id}) hidle
        hnode hstart input _ hexecutor).after hcount
    · exact dispatchApply_goes env hidle hnode hstart input
  | matchOn | par | map | await => exact hcount

theorem scheduleApply_goes : Goes workflow scope (scheduleApply env workflow compiled) w := by
  refine goesFrom_readRun (goesFrom_lift .refl ?_)
  intro input _
  refine goesFrom_cachedResult env .refl ?_
  intro cached w' hview
  have hidle' : w'.run.nodeStates.get? compiled.id ≠ some .running := by
    have hstates : w'.run.nodeStates = w.run.nodeStates := congrArg View.states hview
    rw [hstates]
    exact hidle
  have hsame : Reach workflow scope w.view w'.view := hview ▸ .refl
  cases cached with
  | some output => exact (completeFromCache_goes env hidle' output).after hsame
  | none => exact (startApply_goes env hidle' hnode hstart input).after hsame

end Idle

variable {run : WorkflowRun}

theorem openBranch_reach (hrun : Reach workflow scope v (run.view w)) (branchId : String) :
    Reach workflow scope v ((openBranch run branchId).view w) := by
  have hplace : ∀ hstate : run.nodeStates.get? branchId = none ∨ run.nodeStates.get? branchId = some .ready,
      Reach workflow scope v ((run.setState branchId .pending).view w) := by
    intro hstate
    refine hrun.tail (.place _ branchId .pending ?_ (.inl ?_))
    · exact hstate.imp_right .inl
    · rcases hstate with hnone | hready
      · exact fun h => by simp [show (run.view w).states.get? branchId = none from hnone] at h
      · exact fun h => by simp [show (run.view w).states.get? branchId = some .ready from hready] at h
  unfold openBranch
  dsimp only
  split
  · rename_i hget
    exact hplace (.inr hget)
  · exact hrun
  · rename_i hget
    exact hplace (.inl hget)

theorem enterPar_goes {branches : List String} {join : JoinStrategy} (w : World)
    (hnode : workflow.isApply compiled.id = false) (hstart : scope.starts compiled.id) :
    Goes workflow scope (enterPar env compiled branches join) w := by
  refine goesFrom_modifyRun (goesFrom_modifyRun (goesFrom_emitEvent (goesFrom_sync_last env ?_)))
  have hopen : ∀ (branches : List String) {run : WorkflowRun}, Reach workflow scope w.view (run.view w) →
      Reach workflow scope w.view ((branches.foldl openBranch run).view w) := by
    intro branches
    induction branches with
    | nil => exact fun h => h
    | cons branchId branches ih => exact fun h => ih (openBranch_reach h branchId)
  have hpar : Reach workflow scope w.view
      (({w.run with parStates :=
        w.run.parStates.insert compiled.id ⟨compiled.id,branches,join,0⟩} : WorkflowRun).view w) :=
    .single (.openPar w.view compiled.id _ hnode)
  exact (hopen branches hpar).tail (.start _ compiled.id hstart)

variable {forEachId : String}

theorem completeMap_goes (hmap : forEachId ∈ w.run.mapStates.keys) :
    Goes workflow scope (completeMap env workflow forEachId) w := by
  refine goesFrom_modifyRun (goesFrom_modifyRun ?_)
  refine GoesFrom.bind ((notifyParBranchCompleted_goes env forEachId _).after ?_)
    (fun _ w' hw => goesFrom_emitEvent ((syncNode_goes env forEachId _).after hw))
  exact (ReflTransGen.single (.place w.view forEachId .completed trivial
    (.inr (.inr hmap)))).tail (.closeMap _ forEachId)

theorem allShardsDone_mem (h : allShardsDone forEachId run = true) : forEachId ∈ run.mapStates.keys := by
  obtain ⟨state,hget,-⟩ := (Option.any_eq_true _ _).mp h
  exact (mem_keys_iff _ _).mpr ⟨state,hget⟩

theorem adjustMap_reach (run : WorkflowRun) (hrun : Reach workflow scope v (run.view w))
    (forEachId : String) {f : MapState → MapState} (hf : ∀ state, KeepsShards state (f state)) :
    Reach workflow scope v ((adjustMap forEachId f run).view w) := by
  unfold adjustMap
  cases hget : run.mapStates.get? forEachId with
  | none => exact hrun
  | some state => exact hrun.tail (.adjustMap _ forEachId state (f state) hget (hf state))

variable (state : MapState)

theorem keepsShards_setShard (index : ℕ) (shard : NodeRunState) (hshard : shard ≠ .pending) :
    KeepsShards state (state.setShard index shard) := by
  intro i hi
  rw [MapState.setShard,getElem?_set] at hi
  split_ifs at hi with hindex
  · exact absurd (Option.some.inj hi) hshard
  · exact hi

theorem keepsShards_completeShard (index : ℕ) (output : Json) :
    KeepsShards state (state.completeShard index output) :=
  keepsShards_setShard state index .completed (by decide)

theorem keepsShards_countAttempt (index : ℕ) : KeepsShards state (state.countAttempt index) := fun _ h => h

theorem adjustMap_keys (f : MapState → MapState) (h : forEachId ∈ run.mapStates.keys) :
    forEachId ∈ (adjustMap forEachId f run).mapStates.keys := by
  unfold adjustMap
  split
  · exact (mem_keys_insert _ _ _ _).mpr (.inl rfl)
  · exact h

theorem runShard_goes (executor : ExecutorRef) (index : ℕ) (input : Json)
    (hmap : forEachId ∈ w.run.mapStates.keys) :
    Goes workflow scope (runShard env workflow forEachId executor index input) w := by
  refine goesFrom_invoke env ?_
  generalize env.invoke _ executor input = answer
  have hinvoke : Reach workflow scope w.view
      {w.view with invoked := w.view.invoked ++ [⟨executor,input,answer⟩]} := .single (.invoke _ _)
  cases answer with
  | ok output =>
    have hadjust := adjustMap_reach (w := {w with invoked := w.invoked ++ [⟨executor,input,.ok output⟩]})
      w.run hinvoke forEachId fun state => keepsShards_completeShard state index output
    exact goesFrom_modifyRun (goesFrom_emitEvent (goesFrom_sync env hadjust hadjust))
  | error error =>
    have hadjust := adjustMap_reach (w := {w with invoked := w.invoked ++ [⟨executor,input,.error error⟩]})
      w.run hinvoke forEachId (fun state => keepsShards_setShard state index .failed (by decide))
    have hfail := hadjust.tail (.place _ forEachId .failed trivial (.inr (.inr (adjustMap_keys _ hmap))))
    refine goesFrom_modifyRun (goesFrom_emitEvent (goesFrom_sync env hfail ?_))
    exact ((syncNode_goes env forEachId _).after hfail).bind fun _ _ hw => hw

variable {bodyStepId : String} (bodyNode : CompiledNode)

section
variable (hshards : scope.shards forEachId) (happly : workflow.isApply forEachId = false)
  (hbegun : scope.tidy → Begun w.view forEachId)
include hshards happly hbegun

section
variable (index : ℕ) (state : MapState) (hmap : w.run.mapStates.get? forEachId = some state)
  (hpending : state.shardStates[index]? = some .pending)
include hmap hpending

theorem dispatchShard_goes (attempt : ℕ) (input : Json) :
    Goes workflow scope (dispatchShard env forEachId bodyStepId bodyNode index attempt input) w := by
  refine goesFrom_readRun (goesFrom_lift .refl ?_)
  intro scheduled hbuild
  refine goesFrom_putJson env .refl ?_
  have hput : Reach workflow scope w.view _ :=
    .single (.putJson w.view "workflow_thunk" scheduled.thunk.toJson (by decide))
  refine goesFrom_scheduleThunk env hput (goesFrom_modifyRun ?_)
  have hdispatch := hput.tail (.dispatchShard _ forEachId bodyStepId bodyNode w.run.runId index input
    attempt scheduled state hshards hbegun happly hmap hpending hbuild)
  have hadjust : adjustMap forEachId (fun state => state.setShard index .running)
      (w.run.addThunk ⟨forEachId,scheduled.thunkObjId,attempt,some index⟩) =
      (w.run.addThunk ⟨forEachId,scheduled.thunkObjId,attempt,some index⟩).setMapState forEachId
        (state.setShard index .running) := by
    rw [adjustMap,show (w.run.addThunk _).mapStates.get? forEachId = some state from hmap]
  have hsent : Reach workflow scope w.view ((adjustMap forEachId (fun state => state.setShard index .running)
        (w.run.addThunk ⟨forEachId,scheduled.thunkObjId,attempt,some index⟩)).view
          {w.stored (deterministicObjectId "workflow_thunk" scheduled.thunk.toJson)
            scheduled.thunk.toJson with scheduled := w.scheduled ++ [scheduled]}) := by
    rw [hadjust]
    exact hdispatch
  exact goesFrom_sync env hsent (goesFrom_sync_last env hsent)

theorem startShard_goes :
    Goes workflow scope (startShard env workflow forEachId bodyStepId bodyNode index state) w := by
  have hcount : Reach workflow scope w.view
      ((adjustMap forEachId (fun state => state.countAttempt index) w.run).view w) :=
    adjustMap_reach w.run .refl forEachId fun state => keepsShards_countAttempt state index
  have hkey : forEachId ∈ w.run.mapStates.keys := (mem_keys_iff _ _).mpr ⟨state,hmap⟩
  have hmap' : (adjustMap forEachId (fun state => state.countAttempt index) w.run).mapStates.get?
      forEachId = some (state.countAttempt index) := by
    rw [adjustMap,hmap]
    exact get?_insert_self _ _ _
  refine goesFrom_modifyRun (goesFrom_readRun (goesFrom_lift hcount ?_))
  intro input _
  cases bodyNode.expr with
  | apply executor =>
    dsimp only
    split_ifs
    · exact (runShard_goes env executor index input (adjustMap_keys _ hkey)).after hcount
    · refine ((dispatchShard_goes env bodyNode hshards happly ?_ index (state.countAttempt index) hmap'
        hpending _ input).after hcount).bind fun _ _ hw => hw
      intro htidy
      obtain ⟨s,hget,hs⟩ := hbegun htidy
      exact ⟨s,by rw [← hget,adjustMap]; split <;> rfl,hs⟩
  | matchOn | par | map | await => exact hcount

end

variable (hresets : ¬ scope.resets forEachId)
include hresets

theorem startShards_goes (maxConcurrency : ℕ) (indices : List ℕ) (runningCount : ℕ) : Goes workflow scope
      (startShards env workflow forEachId bodyStepId bodyNode maxConcurrency indices runningCount) w := by
  induction indices generalizing runningCount w with
  | nil => exact .refl
  | cons index indices ih =>
    unfold startShards
    by_cases hfull : hasAdapter env bodyNode = false ∧ maxConcurrency ≤ runningCount
    · rw [if_pos hfull]
      exact .refl
    · rw [if_neg hfull]
      refine goesFrom_readRun ?_
      cases hget : w.run.mapStates.get? forEachId with
      | none => exact ih hbegun runningCount
      | some state =>
        dsimp only
        by_cases hpending : state.shardStates[index]? = some .pending
        · rw [if_pos hpending]
          refine (startShard_goes env bodyNode hshards happly hbegun index _ hget hpending).bind ?_
          intro go w' hw'
          cases go with
          | true => exact (ih (fun h => Reach.begun hw' happly hresets (hbegun h)) _).after hw'
          | false => exact hw'
        · rw [if_neg hpending]
          exact ih hbegun runningCount

theorem dispatchPendingShards_goes :
    Goes workflow scope (dispatchPendingShards env workflow forEachId bodyNode) w := by
  refine goesFrom_readRun ?_
  cases w.run.mapStates.get? forEachId with
  | none => exact .refl
  | some state =>
    refine (startShards_goes env bodyNode hshards happly hbegun hresets _ _ _).bind ?_
    intro go w' hw'
    refine goesFrom_readRun ?_
    split_ifs with hdone
    · exact (completeMap_goes env (allShardsDone_mem hdone.2.2)).after hw'
    · exact hw'

end

theorem enterMap_goes (collection : RefPath) (steps : List String) (maxItems actualConcurrency : ℕ)
    (hnode : workflow.isApply compiled.id = false) (hstart : scope.starts compiled.id)
    (hshards : scope.shards compiled.id) (hresets : ¬ scope.resets compiled.id)
    (hfresh : scope.tidy → ∀ s ∈ w.scheduled, s.thunkObjId.forEach? ≠ some compiled.id) :
    Goes workflow scope (enterMap env workflow compiled collection steps maxItems actualConcurrency)
      w := by
  refine goesFrom_lift .refl ?_
  intro body _
  refine goesFrom_readRun (goesFrom_lift .refl ?_)
  intro items _
  refine goesFrom_modifyRun (goesFrom_emitEvent ?_)
  have hopen := (ReflTransGen.single (Move.openMap w.view compiled.id
    {forEachId := compiled.id, bodyStepId := body.1, items := items
     shardStates := replicate items.length .pending
     shardOutputs := replicate items.length .null
     shardAttempts := replicate items.length 0
     maxConcurrency := max actualConcurrency 1} hnode hfresh)).tail (.start _ compiled.id hstart)
  refine goesFrom_sync env hopen ?_
  split_ifs
  · exact (completeMap_goes env ((mem_keys_insert _ _ _ _).mpr (.inl rfl))).after hopen
  · refine (dispatchPendingShards_goes env body.2 hshards hnode ?_ hresets).after hopen
    exact fun _ => ⟨.running,get?_insert_self _ _ _,by decide⟩

theorem isApply_eq_false (hnode : workflow.nodes.get? nodeId = some compiled)
    (hexpr : compiled.executor? = none) : workflow.isApply nodeId = false := by
  rw [CompiledWorkflow.isApply,hnode]
  simp [hexpr]

theorem advanceNode_goes (hids : workflow.Keyed)
    (hstart : scope.starts nodeId) (hshards : scope.shards nodeId) (hresets : ¬ scope.resets nodeId)
    (hunstarted : Unstarted scope.tidy w.view nodeId) :
    Goes workflow scope (advanceNode env workflow nodeId) w := by
  unfold advanceNode
  cases hnode : workflow.nodes.get? nodeId with
  | none => exact .refl
  | some compiled =>
    obtain rfl := hids nodeId compiled hnode
    dsimp only
    cases hexpr : compiled.expr with
    | apply => exact scheduleApply_goes env hunstarted.1 hnode hstart
    | matchOn on cases maxIterations => exact advanceMatch_goes env hunstarted.1 on cases _
    | await => exact enterHumanWait_goes env hunstarted.1 _
    | par branches join =>
      exact enterPar_goes env w (isApply_eq_false hnode (by rw [CompiledNode.executor?,hexpr])) hstart
    | map =>
      exact enterMap_goes env _ _ _ _ (isApply_eq_false hnode (by rw [CompiledNode.executor?,hexpr]))
        hstart hshards hresets hunstarted.2

end Calls

section Tick
def tickScope (tidy : Prop) : Scope where
  starts := fun _ => True
  shards := fun _ => True
  tidy := tidy

def turnScope (tidy : Prop) (nodeId : String) : Scope where
  starts := fun n => n = nodeId
  shards := fun n => n = nodeId
  tidy := tidy

variable {workflow : CompiledWorkflow} {tidy : Prop} (env : Env) {v : View}

theorem Reach.of_turn {nodeId : String} {v' : View}
    (h : Reach workflow (turnScope tidy nodeId) v v') : Reach workflow (tickScope tidy) v v' := by
  refine Reach.widen ?_ ?_ ?_ ?_ ?_ ?_ h
  · exact fun _ _ => trivial
  · exact fun _ _ => trivial
  · exact fun _ h => h
  · exact fun _ h => h
  · exact fun _ _ _ h => h
  · exact id

/-- The nodes found so far, out of those a tick begins with. -/
structure Marked (workflow : CompiledWorkflow) (tidy : Prop) (w : World) (seen : List String)
    (acc : List String × WorkflowRun) : Prop where
  reach : Reach workflow (tickScope tidy) w.view (acc.2.view w)
  nodup : acc.1.Nodup
  seen : ∀ n ∈ acc.1, n ∈ seen
  ready : ∀ n ∈ acc.1, acc.2.nodeStates.get? n = some .ready
  waited : ∀ n ∈ acc.1, w.run.nodeStates.get? n = none ∨ w.run.nodeStates.get? n = some .pending
  same : ∀ n ∉ acc.1, acc.2.nodeStates.get? n = w.run.nodeStates.get? n

variable {w : World}

theorem Marked.markReady {seen : List String} {acc : List String × WorkflowRun}
    (h : Marked workflow tidy w seen acc) {nodeId : String} (hnew : nodeId ∉ seen) :
    Marked workflow tidy w (nodeId :: seen) (markReady workflow acc nodeId) := by
  have hseen : ∀ n ∈ acc.1, n ∈ nodeId :: seen := fun n hn => mem_cons_of_mem _ (h.seen n hn)
  unfold Workflow.markReady
  split_ifs with hactionable
  · have hfresh : nodeId ∉ acc.1 := fun hmem => hnew (h.seen nodeId hmem)
    have hstate : acc.2.nodeStates.get? nodeId = none ∨ acc.2.nodeStates.get? nodeId = some .pending := by
      rw [isActionable,Bool.and_eq_true,decide_eq_true_eq,WorkflowRun.stateOf] at hactionable
      cases hget : acc.2.nodeStates.get? nodeId with
      | none => exact .inl rfl
      | some state =>
        rw [hget] at hactionable
        exact .inr (congrArg some hactionable.1)
    have hidle : (acc.2.view w).states.get? nodeId ≠ some .running := by
      show acc.2.nodeStates.get? nodeId ≠ some .running
      rcases hstate with hstate | hstate <;> simp [hstate]
    refine ⟨h.reach.tail (.place _ nodeId .ready hstate (.inl hidle)),?_,?_,?_,?_,?_⟩
    · rw [nodup_append]
      refine ⟨h.nodup,nodup_singleton _,?_⟩
      rintro a ha b hb rfl
      exact hfresh (mem_singleton.mp hb ▸ ha)
    · intro n hn
      rcases mem_append.mp hn with hn | hn
      · exact hseen n hn
      · exact mem_singleton.mp hn ▸ mem_cons_self
    · intro n hn
      show (acc.2.nodeStates.insert nodeId .ready).get? n = some .ready
      rw [get?_insert]
      split_ifs with hne
      · rfl
      · rcases mem_append.mp hn with hn | hn
        · exact h.ready n hn
        · exact absurd (mem_singleton.mp hn) hne
    · intro n hn
      rcases mem_append.mp hn with hn | hn
      · exact h.waited n hn
      · rw [mem_singleton.mp hn,← h.same nodeId hfresh]
        exact hstate
    · intro n hn
      rw [mem_append,not_or,mem_singleton] at hn
      show (acc.2.nodeStates.insert nodeId .ready).get? n = _
      rw [get?_insert_of_ne _ _ hn.2]
      exact h.same n hn.1
  · exact ⟨h.reach,h.nodup,hseen,h.ready,h.waited,h.same⟩

theorem marked_actionable (w : World) : ∃ seen,
    Marked workflow tidy w seen (w.run.activatedNodes.keys.foldl (markReady workflow) ([],w.run)) := by
  have hfold : ∀ (nodeIds seen : List String) (acc : List String × WorkflowRun), nodeIds.Nodup →
      (∀ n ∈ nodeIds, n ∉ seen) → Marked workflow tidy w seen acc →
      ∃ seen, Marked workflow tidy w seen (nodeIds.foldl (markReady workflow) acc) := by
    intro nodeIds
    induction nodeIds with
    | nil => exact fun seen acc _ _ h => ⟨seen,h⟩
    | cons nodeId nodeIds ih =>
      intro seen acc hnodup hnew h
      rw [nodup_cons] at hnodup
      refine ih (nodeId :: seen) _ hnodup.2 ?_ (h.markReady (hnew nodeId mem_cons_self))
      intro n hn hmem
      rcases mem_cons.mp hmem with rfl | hmem
      · exact hnodup.1 hn
      · exact hnew n (mem_cons_of_mem _ hn) hmem
  refine hfold _ [] _ (keys_nodup _) (by simp) ⟨.refl,nodup_nil,?_,?_,?_,?_⟩
  · simp
  · simp
  · simp
  · exact fun _ _ => rfl

theorem goesFrom_actionableNodes {β : Type} {f : List String → Orch β}
    (h : let found := w.run.activatedNodes.keys.foldl (markReady workflow) ([],w.run)
      GoesFrom workflow (tickScope tidy) v (f found.1) {w with run := found.2}) :
    GoesFrom workflow (tickScope tidy) v (actionableNodes workflow >>= f) w := h

variable (hids : workflow.Keyed)
include hids

theorem advanceNodes_goes {nodeIds : List String} (hw : Reach workflow (tickScope tidy) v w.view)
    (hnodup : nodeIds.Nodup) (hunstarted : ∀ n ∈ nodeIds, Unstarted tidy w.view n) :
    GoesFrom workflow (tickScope tidy) v (visit (advanceNode env workflow) nodeIds) w := by
  have hvisit := wp_visit (f := advanceNode env workflow)
    (I := fun rest w' => Reach workflow (tickScope tidy) v w'.view ∧ rest.Nodup ∧
      ∀ n ∈ rest, Unstarted tidy w'.view n)
    (E := fun _ w' => Reach workflow (tickScope tidy) v w'.view) ?_ ⟨hw,hnodup,hunstarted⟩
  · exact wp_mono hvisit (fun _ _ h => h.1) fun _ _ h => h
  · rintro a rest w' ⟨hreach,hnodup,hrest⟩
    rw [nodup_cons] at hnodup
    have hgoes : Goes workflow (turnScope tidy a) (advanceNode env workflow a) w' :=
      advanceNode_goes env hids rfl rfl (fun h => h) (hrest a mem_cons_self)
    refine wp_mono hgoes ?_ fun _ _ hu => hreach.trans hu.of_turn
    intro _ w'' hu
    refine ⟨hreach.trans hu.of_turn,hnodup.2,?_⟩
    intro n hn
    have hne : n ≠ a := fun heq => hnodup.1 (heq ▸ hn)
    exact Reach.unstarted hu hne hne (hrest n (mem_cons_of_mem _ hn))

/-- No shard has been sent off for a node that waits. -/
def View.Unsent (v : View) : Prop := ∀ n, v.states.get? n = none ∨ v.states.get? n = some .pending →
  ∀ s ∈ v.scheduled, s.thunkObjId.forEach? ≠ some n

theorem tickRounds_goes (hspent : tidy → ∀ u, Reach workflow (tickScope tidy) v u → u.Unsent)
    (rounds : ℕ) (hw : Reach workflow (tickScope tidy) v w.view) :
    GoesFrom workflow (tickScope tidy) v (tickRounds env workflow rounds) w := by
  induction rounds generalizing w with
  | zero => exact hw
  | succ rounds ih =>
    obtain ⟨seen,hmarked⟩ : ∃ seen, Marked workflow tidy w seen _ := marked_actionable w
    have hmark := hw.trans hmarked.reach
    refine goesFrom_actionableNodes ?_
    dsimp only
    split_ifs with hnone
    · exact hmark
    · refine GoesFrom.bind (advanceNodes_goes env hids hmark hmarked.nodup ?_) (fun _ _ hw' => ih hw')
      intro n hn
      refine ⟨?_,fun h => hspent h _ hw n (hmarked.waited n hn)⟩
      show (WorkflowRun.nodeStates _).get? n ≠ _
      rw [hmarked.ready n hn]
      simp

theorem tick_goes (hspent : tidy → ∀ u, Reach workflow (tickScope tidy) w.view u → u.Unsent) :
    Goes workflow (tickScope tidy) (tick env workflow) w := by
  have hbegin : Goes workflow (tickScope tidy) beginRun w := by
    refine goesFrom_readRun ?_
    split_ifs
    · exact .refl
    · exact .refl
  exact hbegin.bind fun _ _ hw => (tickRounds_goes env hids hspent _ hw).bind
    (fun _ _ hw' => (settle_goes env _).after hw')

end Tick
end BuckyOS.Workflow
