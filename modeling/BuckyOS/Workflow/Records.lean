import BuckyOS.Workflow.Traces

/-! What every computation of the orchestrator keeps: the events of a call are numbered one after the
other from the number that the run had before the call, a node that is done has an output, and no node
begins to wait for its turn but one whose attempt has failed. -/
namespace BuckyOS.Workflow
open Fallible OrderedMap

/-- Every node that is done has an output. -/
def Furnished (run : WorkflowRun) : Prop :=
  ∀ n, run.isDone n = true → (run.nodeOutputs.get? n).isSome = true

structure Recorded (base : ℕ) (w : World) : Prop where
  seq : w.run.seq = base + w.events.length
  numbers : w.events.map EventEnvelope.seq = List.range' (base + 1) w.events.length
  outputs : Furnished w.run

def NodeRunState.waiting : NodeRunState → Bool
  | .pending | .ready => true
  | _ => false

/-- A change of a run that emits nothing, leaves no node done without an output, takes no attempt back,
and makes none but free nodes wait. -/
structure Tame (free : String → Prop) (run run' : WorkflowRun) : Prop where
  seq : run'.seq = run.seq
  outputs : ∀ n, run'.isDone n = true → (run'.nodeOutputs.get? n).isSome = true ∨
    run.isDone n = true ∧ run'.nodeOutputs.get? n = run.nodeOutputs.get? n
  attempts : ∀ n, run.attemptOf n ≤ run'.attemptOf n
  waits : ∀ n, ¬ free n → (run'.stateOf n).waiting = true → (run.stateOf n).waiting = true

section Tame
variable {run run' run'' : WorkflowRun} {base : ℕ} {free : String → Prop}

theorem Tame.refl (run : WorkflowRun) : Tame free run run :=
  ⟨rfl,fun _ h => .inr ⟨h,rfl⟩,fun _ => le_rfl,fun _ _ h => h⟩

theorem Tame.trans (h : Tame free run run') (h' : Tame free run' run'') : Tame free run run'' := by
  refine ⟨h'.seq.trans h.seq,?_,fun n => (h.attempts n).trans (h'.attempts n),
    fun n hn hw => h.waits n hn (h'.waits n hn hw)⟩
  intro n hn
  rcases h'.outputs n hn with hsome | ⟨hn',hsame'⟩
  · exact .inl hsome
  · rcases h.outputs n hn' with hsome | ⟨hn'',hsame⟩
    · exact .inl (hsame' ▸ hsome)
    · exact .inr ⟨hn'',hsame'.trans hsame⟩

theorem Tame.aside (h : (run'.seq,run'.nodeStates,run'.nodeOutputs,run'.nodeAttempts) =
    (run.seq,run.nodeStates,run.nodeOutputs,run.nodeAttempts)) : Tame free run run' := by
  simp only [Prod.mk.injEq] at h
  obtain ⟨hseq,hstates,houtputs,hattempts⟩ := h
  refine ⟨hseq,fun n hn => .inr ⟨?_,by rw [houtputs]⟩,fun n => ?_,fun n _ hw => ?_⟩
  · rwa [WorkflowRun.isDone,hstates] at hn
  · rw [WorkflowRun.attemptOf,WorkflowRun.attemptOf,hattempts]
  · rwa [WorkflowRun.stateOf,hstates] at hw

theorem isDone_setState (run : WorkflowRun) (nodeId : String) (s : NodeRunState) (n : String) :
    (run.setState nodeId s).isDone n = if n = nodeId then s.done else run.isDone n := by
  rw [WorkflowRun.isDone,WorkflowRun.setState,get?_insert]
  split_ifs
  · rfl
  · rfl

theorem stateOf_setState (run : WorkflowRun) (nodeId : String) (s : NodeRunState) (n : String) :
    (run.setState nodeId s).stateOf n = if n = nodeId then s else run.stateOf n := by
  rw [WorkflowRun.stateOf,WorkflowRun.setState,get?_insert]
  split_ifs
  · rfl
  · rfl

theorem attemptOf_countAttempt (run : WorkflowRun) (nodeId : String) :
    (run.countAttempt nodeId).attemptOf nodeId = run.attemptOf nodeId + 1 := by
  rw [WorkflowRun.attemptOf,WorkflowRun.countAttempt,getD_upsert,if_pos rfl,WorkflowRun.attemptOf]

variable (nodeId : String) {s : NodeRunState}

theorem waiting_setState {n : String}
    (hs : s.waiting = true → ¬ free nodeId → (run.stateOf nodeId).waiting = true) (hn : ¬ free n)
    (hw : ((run.setState nodeId s).stateOf n).waiting = true) : (run.stateOf n).waiting = true := by
  rw [stateOf_setState] at hw
  split_ifs at hw with hsame
  · subst hsame
    exact hs hw hn
  · exact hw

theorem Tame.setState (hs : s.done = false)
    (hwait : s.waiting = true → ¬ free nodeId → (run.stateOf nodeId).waiting = true) :
    Tame free run (run.setState nodeId s) := by
  refine ⟨rfl,?_,fun _ => le_rfl,fun n => waiting_setState nodeId hwait⟩
  intro n hn
  rw [isDone_setState] at hn
  split_ifs at hn with hsame
  · rw [hs] at hn
    cases hn
  · exact .inr ⟨hn,rfl⟩

theorem Tame.rest (hs : s.done = false) (hrest : s.waiting = false) :
    Tame free run (run.setState nodeId s) := .setState nodeId hs fun hw => by simp [hrest] at hw

theorem Tame.countAttempt : Tame free run (run.countAttempt nodeId) := by
  refine ⟨rfl,fun _ h => .inr ⟨h,rfl⟩,fun n => ?_,fun _ _ h => h⟩
  rw [WorkflowRun.attemptOf,WorkflowRun.attemptOf,WorkflowRun.countAttempt,getD_upsert]
  split_ifs with hsame
  · subst hsame
    exact Nat.le_succ _
  · exact le_rfl

theorem Tame.finish (hs : s.waiting = false) (output : Json) :
    Tame free run ((run.setState nodeId s).setOutput nodeId output) := by
  refine ⟨rfl,?_,fun _ => le_rfl,fun n => waiting_setState nodeId fun hw => by simp [hs] at hw⟩
  intro n hn
  have hget : ((run.setState nodeId s).setOutput nodeId output).nodeOutputs.get? n =
      if n = nodeId then some output else run.nodeOutputs.get? n := get?_insert ..
  change (run.setState nodeId s).isDone n = true at hn
  rw [isDone_setState] at hn
  rw [hget]
  split_ifs at hn ⊢ with hsame
  · exact .inl rfl
  · exact .inr ⟨hn,rfl⟩

theorem Tame.reset : Tame (fun _ => True) run (resetNode run nodeId) := by
  refine ⟨rfl,?_,fun _ => le_rfl,fun _ hn => absurd trivial hn⟩
  intro n hn
  change (run.setState nodeId .pending).isDone n = true at hn
  rw [isDone_setState] at hn
  split_ifs at hn with hsame
  · cases hn
  · exact .inr ⟨hn,get?_erase_of_ne _ hsame⟩

theorem Tame.foldl {α : Type} {f : WorkflowRun → α → WorkflowRun} (hf : ∀ run a, Tame free run (f run a))
    (as : List α) (run : WorkflowRun) : Tame free run (as.foldl f run) := by
  induction as generalizing run with
  | nil => exact .refl run
  | cons a as ih => exact (hf run a).trans (ih _)

theorem joinPar_tame (state : ParState) (run : WorkflowRun) : Tame free run (joinPar state run).run := by
  have hbranch : ∀ (completed : List String) (acc : Cancelling) (branchId : String),
      Tame free acc.run (Cancelling.branch completed acc branchId).run := by
    intro completed acc branchId
    unfold Cancelling.branch
    split_ifs
    · exact .refl _
    · split
      · rename_i state hstate
        split_ifs
        · have hdropped : Tame free acc.run (if decide (state = .running) = true then
              acc.run.dropThunks branchId else acc.run) := by
            split_ifs
            · exact .aside rfl
            · exact .refl _
          exact hdropped.trans ((Tame.rest branchId rfl rfl).trans (.aside rfl))
        · exact .refl _
      · exact .refl _
  have hfold : ∀ (completed branches : List String) (acc : Cancelling),
      Tame free acc.run (branches.foldl (Cancelling.branch completed) acc).run := by
    intro completed branches
    induction branches with
    | nil => exact fun acc => .refl _
    | cons branchId branches ih => exact fun acc => (hbranch completed acc branchId).trans (ih _)
  exact hfold _ state.branches {run := run}

theorem awaitHuman_tame (nodeId : String) (run : WorkflowRun) : Tame free run (run.awaitHuman nodeId) :=
  (Tame.rest nodeId rfl rfl).trans (.aside rfl)

theorem openBranch_tame (run : WorkflowRun) (branchId : String) :
    Tame free run (openBranch run branchId) := by
  have hactivate : Tame free run (run.activate [branchId]) := .aside rfl
  have hput : ∀ {s}, ((run.activate [branchId]).nodeStates.get? branchId).getD .pending = s →
      s.waiting = true → Tame free run ((run.activate [branchId]).setState branchId .pending) :=
    fun hstate hs => hactivate.trans (.setState branchId rfl fun _ _ => by
      rw [WorkflowRun.stateOf,hstate,hs])
  unfold openBranch
  dsimp only
  split
  · rename_i hstate
    exact hput (by rw [hstate]) rfl
  · exact hactivate
  · rename_i hstate
    exact hput (by rw [hstate]) rfl

theorem adjustMap_tame (forEachId : String) (f : MapState → MapState) (run : WorkflowRun) :
    Tame free run (adjustMap forEachId f run) := by
  unfold adjustMap
  split
  · exact .aside rfl
  · exact .refl run

theorem markReady_tame (workflow : CompiledWorkflow) (nodeIds : List String)
    (acc : List String × WorkflowRun) : Tame free acc.2 (nodeIds.foldl (markReady workflow) acc).2 := by
  induction nodeIds generalizing acc with
  | nil => exact .refl _
  | cons nodeId nodeIds ih =>
    refine Tame.trans ?_ (ih _)
    unfold markReady
    split_ifs with hactionable
    · refine .setState nodeId rfl fun _ _ => ?_
      rw [isActionable,Bool.and_eq_true,decide_eq_true_eq] at hactionable
      rw [hactionable.1]
      rfl
    · exact .refl _

theorem abortRun_tame (run : WorkflowRun) : Tame (fun _ => True) run (abortRun run) := by
  refine ⟨rfl,?_,fun _ => le_rfl,fun _ hn => absurd trivial hn⟩
  intro n hn
  refine .inr ⟨?_,rfl⟩
  rw [WorkflowRun.isDone] at hn ⊢
  change ((run.nodeStates.mapValues _).get? n).any NodeRunState.done = true at hn
  rw [get?_mapValues] at hn
  cases hget : run.nodeStates.get? n with
  | none =>
    rw [hget] at hn
    cases hn
  | some s =>
    rw [hget] at hn
    change NodeRunState.done (if s.live then .aborted else s) = true at hn
    split_ifs at hn
    · cases hn
    · exact hn

/-- What stays when a run changes tamely, when an event is emitted, and when neither the run nor its events
change. -/
class TameClosed (free : outParam (String → Prop)) (I : World → Prop) : Prop where
  update : ∀ {w run'}, I w → Tame free w.run run' → I {w with run := run'}
  emitted : ∀ {w}, I w → ∀ eventType nodeId actor payload, I (w.emitted eventType nodeId actor payload)
  aside : ∀ {w w'}, I w → w'.run = w.run → w'.events = w.events → I w'

instance tameClosed_recorded (base : ℕ) : TameClosed (fun _ => True) (Recorded base) where
  update {w run'} h ht := by
    refine ⟨ht.seq.trans h.seq,h.numbers,?_⟩
    intro n hn
    rcases ht.outputs n hn with hsome | ⟨hn',hsame⟩
    · exact hsome
    · exact (congrArg Option.isSome hsame).trans (h.outputs n hn')
  emitted {w} h eventType nodeId actor payload := by
    refine ⟨?_,?_,h.outputs⟩
    · show w.run.seq + 1 = base + (w.events ++ [_]).length
      rw [h.seq,List.length_append]
      rfl
    · show (w.events ++ [_]).map EventEnvelope.seq = List.range' (base + 1) (w.events ++ [_]).length
      rw [List.map_append,h.numbers,List.length_append,List.length_singleton,List.range'_concat]
      show _ ++ [w.run.seq + 1] = _
      rw [h.seq]
      congr 2
      omega
  aside {w w'} h hrun hevents := by
    refine ⟨?_,?_,?_⟩
    · rw [hrun,hevents]
      exact h.seq
    · rw [hevents]
      exact h.numbers
    · rw [hrun]
      exact h.outputs

end Tame

section Calls
variable {base : ℕ} {α β : Type} {I : World → Prop} {free : String → Prop}

theorem records_readRun {f : WorkflowRun → Orch β} (h : ∀ run, Keeps I (f run)) :
    Keeps I (readRun >>= f) := (keeps_read _).bind h

theorem records_lift {r : WorkflowResult α} {f : α → Orch β} (h : ∀ a, Keeps I (f a)) :
    Keeps I (lift r >>= f) := (keeps_lift r).bind h

variable [hI : TameClosed free I]
include hI

theorem modifyRun_records {f : WorkflowRun → WorkflowRun} (hf : ∀ run, Tame free run (f run)) :
    Keeps I (modifyRun f) := keeps_update (fun _ h => hI.update h (hf _))

variable {eventType actor : String} {nodeId : Option String} {payload : Option Json}
  {f : Unit → Orch β}

theorem emitEvent_records : Keeps I (emitEvent eventType nodeId actor payload) :=
  keeps_update (fun _ h => hI.emitted h eventType nodeId actor payload)

theorem records_modifyRun {g : WorkflowRun → WorkflowRun} (hg : ∀ run, Tame free run (g run))
    (h : Keeps I (f ())) : Keeps I (modifyRun g >>= f) := (modifyRun_records hg).bind (fun _ => h)

theorem records_emitEvent (h : Keeps I (f ())) :
    Keeps I (emitEvent eventType nodeId actor payload >>= f) := emitEvent_records.bind (fun _ => h)

variable {env : Env}

theorem external_records : Keeps I (external env) := by
  intro w h
  unfold external
  cases env.outage w.calls with
  | none | some e => exact hI.aside h rfl rfl

theorem sync_records : Keeps I (sync env) := external_records

theorem records_sync {f : Unit → Orch β} (h : Keeps I (f ())) : Keeps I (sync env >>= f) :=
  sync_records.bind fun _ => h

variable {id : ObjectId} {value : Json}

theorem putJsonWithId_records : Keeps I (putJsonWithId env id value) :=
  external_records.bind fun _ => keeps_update fun _ h => hI.aside h rfl rfl

theorem putJson_records {objectType : String} : Keeps I (putJson env objectType value) :=
  putJsonWithId_records.bind fun _ => keeps_pure _

theorem getJson_records : Keeps I (getJson env id) := external_records.bind fun _ => keeps_read _

theorem scheduleThunk_records {scheduled : ScheduledThunk} : Keeps I (scheduleThunk env scheduled) :=
  external_records.bind fun _ => keeps_update fun _ h => hI.aside h rfl rfl

theorem cancelThunks_records {thunks : List ObjectId} : Keeps I (cancelThunks thunks) :=
  keeps_update fun _ h => hI.aside h rfl rfl

theorem invoke_records {executor : ExecutorRef} {input : Json} :
    Keeps I (invoke env executor input) := fun _ h => hI.aside h rfl rfl

variable {workflow : CompiledWorkflow} {nodeId : String}

theorem syncNode_records : Keeps I (syncNode env workflow nodeId) :=
  keeps_ite sync_records (keeps_pure _)

theorem records_activateSuccessors {nodeId : String} {f : Unit → Orch β} (h : Keeps I (f ())) :
    Keeps I (activateSuccessors workflow nodeId >>= f) :=
  records_modifyRun (fun _ => .aside rfl) h

theorem settle_records : Keeps I (settle env workflow) := by
  refine Keeps.bind ?_ fun _ => sync_records
  refine records_readRun fun run => records_modifyRun (fun _ => .aside rfl) ?_
  exact keeps_ite emitEvent_records (keeps_ite emitEvent_records (keeps_pure _))

variable {parId : String}

theorem failPar_records : Keeps I (failPar env workflow parId) := by
  refine records_modifyRun (fun run => ?_) (records_emitEvent syncNode_records)
  exact (Tame.rest parId rfl rfl).trans (.aside rfl)

variable {state : ParState} {run : WorkflowRun} {compiled : CompiledNode} {payload : Json}

theorem completePar_records : Keeps I (completePar env workflow parId state) := by
  intro w h
  have hjoin : Tame free w.run {((joinPar state w.run).run.setOutput parId (parOutput state w.run)).setState
      parId .completed with parStates := (joinPar state w.run).run.parStates.erase parId} := by
    refine (joinPar_tame state w.run).trans ((Tame.finish parId (s := .completed) rfl (parOutput state w.run)).trans ?_)
    exact .aside rfl
  have hrest : Keeps I (do
      activateSuccessors workflow parId
      emitEvent "step.completed" (some parId) "engine" (some (Json.ofFields [
        ("completed_branches",.array ((state.completedBranches w.run).map Json.string)),
        ("cancelled_branches",.array ((joinPar state w.run).branches.map Json.string))]))
      visit (syncNode env workflow) (joinPar state w.run).branches
      syncNode env workflow parId) :=
    records_activateSuccessors (records_emitEvent
      ((keeps_visit (fun _ => syncNode_records) _).bind fun _ => syncNode_records))
  exact hrest _ (hI.update (cancelThunks_records w h) hjoin)

theorem checkParCompletion_records : Keeps I (checkParCompletion env workflow parId) := by
  refine records_readRun fun run => ?_
  cases run.parStates.get? parId with
  | none => exact keeps_fail _
  | some state => exact keeps_ite failPar_records (keeps_ite completePar_records (keeps_pure _))

theorem notifyParBranchCompleted_records : Keeps I (notifyParBranchCompleted env workflow nodeId) :=
  records_readRun fun _ => keeps_visit (fun _ => checkParCompletion_records) _

theorem completeApply_records : Keeps I (completeApply env workflow nodeId payload) :=
  records_activateSuccessors (notifyParBranchCompleted_records.bind
    (fun _ => records_emitEvent sync_records))

theorem completeFromCache_records {cached : Json} :
    Keeps I (completeFromCache env workflow compiled cached) :=
  records_modifyRun (fun _ => .finish compiled.id rfl cached) completeApply_records

variable {attempt : ℕ} {resolvedInput : Json}

theorem recordFailure_records (hfree : free nodeId) {policy : RetryPolicy} {retry : Bool} {error : Json} :
    Keeps I (recordFailure nodeId policy attempt retry error) :=
  keeps_ite (records_modifyRun (fun _ => .setState nodeId rfl fun _ h => absurd hfree h) emitEvent_records)
    (keeps_ite (records_modifyRun (awaitHuman_tame nodeId) emitEvent_records)
      (records_modifyRun (fun _ => .rest nodeId rfl rfl) emitEvent_records))

theorem completeApplyNodeDirect_records {output metrics : Json} :
    Keeps I (completeApplyNodeDirect env workflow compiled resolvedInput output metrics) := by
  refine putJson_records.bind fun outputId => records_modifyRun (fun run => ?_) ?_
  · exact (Tame.finish compiled.id rfl output).trans (.aside rfl)
  · exact (keeps_ite putJsonWithId_records (keeps_pure _)).bind fun _ => completeApply_records

theorem scheduleApplyDirect_records (hfree : free compiled.id) {executor : ExecutorRef} :
    Keeps I (scheduleApplyDirect env workflow compiled executor resolvedInput attempt) := by
  refine records_modifyRun (fun _ => .rest compiled.id rfl rfl) (records_emitEvent (records_sync ?_))
  refine invoke_records.bind fun answer => ?_
  cases answer with
  | ok output => exact completeApplyNodeDirect_records
  | error error => exact (recordFailure_records hfree).bind fun _ => sync_records

theorem dispatchApply_records : Keeps I (dispatchApply env compiled resolvedInput attempt) := by
  refine records_readRun fun run => records_lift fun scheduled => ?_
  refine putJson_records.bind fun _ => scheduleThunk_records.bind fun _ => ?_
  refine records_modifyRun (fun run => ?_) (records_emitEvent (records_sync sync_records))
  exact (Tame.aside rfl : Tame free run (run.addThunk _)).trans (.rest compiled.id rfl rfl)

theorem scheduleApply_records (hfree : free compiled.id) : Keeps I (scheduleApply env workflow compiled) := by
  refine records_readRun fun run => records_lift fun input => ?_
  have hcached : Keeps I (cachedResult env compiled input) :=
    keeps_ite (getJson_records.bind fun _ => keeps_pure _) (keeps_pure _)
  refine hcached.bind fun cached => ?_
  cases cached with
  | some output => exact completeFromCache_records
  | none =>
    refine records_modifyRun (fun _ => .countAttempt compiled.id) (records_readRun fun run => ?_)
    cases compiled.expr with
    | apply executor => exact keeps_ite (scheduleApplyDirect_records hfree) dispatchApply_records
    | matchOn | par | map | await => exact keeps_fail _

theorem askAboutBranch_records : Keeps I (askAboutBranch env compiled payload) :=
  records_modifyRun (awaitHuman_tame compiled.id) (records_emitEvent sync_records)

theorem advanceMatch_records {on : RefPath} {cases : OrderedMap String String} {maxIterations : ℕ} :
    Keeps I (advanceMatch env workflow compiled on cases maxIterations) := by
  refine records_readRun fun run => keeps_ite askAboutBranch_records (records_lift fun value => ?_)
  dsimp only
  cases cases.get? (value.asStr.getD value.render) with
  | none => exact askAboutBranch_records
  | some target =>
    refine records_modifyRun (fun _ => .aside rfl) (records_modifyRun (fun run => ?_)
      (records_activateSuccessors (records_emitEvent sync_records)))
    exact (Tame.finish compiled.id rfl _).trans (.aside rfl)

theorem storeSubject_records {subject : Option Json} : Keeps I (storeSubject env subject) := by
  cases subject with
  | some value => exact putJson_records.bind fun _ => keeps_pure _
  | none => exact keeps_pure _

theorem enterHumanWait_records {prompt : Option String} :
    Keeps I (enterHumanWait env compiled prompt) :=
  records_modifyRun (awaitHuman_tame compiled.id) (records_readRun fun _ =>
    storeSubject_records.bind fun _ => records_emitEvent sync_records)

theorem enterPar_records {branches : List String} {join : JoinStrategy} :
    Keeps I (enterPar env compiled branches join) := by
  refine records_modifyRun (fun _ => .aside rfl) (records_modifyRun (fun run => ?_)
    (records_emitEvent sync_records))
  exact (Tame.foldl openBranch_tame branches run).trans (.rest compiled.id rfl rfl)

variable {forEachId : String}

theorem completeMap_records : Keeps I (completeMap env workflow forEachId) := by
  refine records_modifyRun (fun run => ?_) (records_activateSuccessors
    (notifyParBranchCompleted_records.bind fun _ => records_emitEvent syncNode_records))
  exact (Tame.finish forEachId rfl _).trans (.aside rfl)

theorem runShard_records {executor : ExecutorRef} {index : ℕ} {input : Json} :
    Keeps I (runShard env workflow forEachId executor index input) := by
  refine invoke_records.bind fun answer => ?_
  cases answer with
  | ok output =>
    exact records_modifyRun (adjustMap_tame forEachId _) (records_emitEvent (records_sync (keeps_pure _)))
  | error error =>
    refine records_modifyRun (fun run => ?_) (records_emitEvent (records_sync
      (syncNode_records.bind fun _ => keeps_pure _)))
    exact (adjustMap_tame forEachId _ run).trans (.rest forEachId rfl rfl)

variable {actor : String} {result : ThunkExecutionResult} {bodyStepId : String}
    {bodyNode : CompiledNode} {index : ℕ} {output : Json} {compiled : CompiledNode}
    {action : HumanAction} {pending : PendingThunk}

theorem dispatchShard_records {index attempt : ℕ} {input : Json} :
    Keeps I (dispatchShard env forEachId bodyStepId bodyNode index attempt input) := by
  refine records_readRun fun run => records_lift fun scheduled => ?_
  refine putJson_records.bind fun _ => scheduleThunk_records.bind fun _ => ?_
  refine records_modifyRun (fun run => ?_) (records_sync sync_records)
  exact (Tame.aside rfl : Tame free run (run.addThunk _)).trans (adjustMap_tame forEachId _ _)

theorem startShard_records {state : MapState} :
    Keeps I (startShard env workflow forEachId bodyStepId bodyNode index state) := by
  refine records_modifyRun (adjustMap_tame forEachId _) (records_readRun fun run =>
    records_lift fun input => ?_)
  cases bodyNode.expr with
  | apply executor => exact keeps_ite runShard_records (dispatchShard_records.bind fun _ => keeps_pure _)
  | matchOn | par | map | await => exact keeps_fail _

theorem startShards_records {maxConcurrency : ℕ} {indices : List ℕ} {runningCount : ℕ} :
    Keeps I (startShards env workflow forEachId bodyStepId bodyNode maxConcurrency indices
      runningCount) := by
  induction indices generalizing runningCount with
  | nil => exact keeps_pure _
  | cons index indices ih =>
    refine keeps_ite (keeps_pure _) (records_readRun fun run => ?_)
    cases run.mapStates.get? forEachId with
    | none => exact ih
    | some state =>
      refine keeps_ite (startShard_records.bind fun go => ?_) ih
      exact keeps_ite ih (keeps_pure _)

theorem dispatchPendingShards_records :
    Keeps I (dispatchPendingShards env workflow forEachId bodyNode) := by
  refine records_readRun fun run => ?_
  cases run.mapStates.get? forEachId with
  | none => exact keeps_fail _
  | some state =>
    refine startShards_records.bind fun go => ?_
    exact records_readRun fun _ => keeps_ite completeMap_records (keeps_pure _)

theorem enterMap_records {collection : RefPath} {steps : List String} {maxItems actualConcurrency : ℕ} :
    Keeps I (enterMap env workflow compiled collection steps maxItems actualConcurrency) := by
  refine records_lift fun body => records_readRun fun run => records_lift fun items => ?_
  refine records_modifyRun (fun run => ?_) (records_emitEvent (records_sync
    (keeps_ite completeMap_records dispatchPendingShards_records)))
  exact (Tame.aside rfl : Tame free run (run.setMapState compiled.id _)).trans
    (.rest compiled.id rfl rfl)

theorem actionableNodes_records : Keeps I (actionableNodes workflow) :=
  fun w h => hI.update h (markReady_tame workflow w.run.activatedNodes.keys ([],w.run))

theorem advanceNode_records
    (hfree : ∀ compiled, workflow.nodes.get? nodeId = some compiled → free compiled.id) :
    Keeps I (advanceNode env workflow nodeId) := by
  unfold advanceNode
  cases hnode : workflow.nodes.get? nodeId with
  | none => exact keeps_fail _
  | some compiled =>
    dsimp only
    cases compiled.expr with
    | apply => exact scheduleApply_records (hfree compiled hnode)
    | matchOn on cases maxIterations => exact advanceMatch_records
    | await => exact enterHumanWait_records
    | par branches join => exact enterPar_records
    | map => exact enterMap_records

omit hI

abbrev Records (base : ℕ) (m : Orch α) : Prop := Keeps (Recorded base) m

theorem tickRounds_records {rounds : ℕ} : Records base (tickRounds env workflow rounds) := by
  induction rounds with
  | zero => exact keeps_pure _
  | succ rounds ih =>
    refine actionableNodes_records.bind fun actionable => keeps_ite (keeps_pure _) ?_
    exact (keeps_visit (fun _ => advanceNode_records fun _ _ => trivial) _).bind fun _ => ih

theorem beginRun_records : Records base beginRun :=
  records_readRun fun _ => keeps_ite (records_modifyRun (fun _ => .aside rfl)
    emitEvent_records) (keeps_pure _)

theorem tick_records : Records base (tick env workflow) :=
  beginRun_records.bind fun _ => tickRounds_records.bind fun _ => settle_records

theorem handleShardCompleted_records :
    Records base (handleShardCompleted env workflow forEachId index output) := by
  refine records_readRun fun run => ?_
  cases run.mapStates.get? forEachId with
  | none => exact keeps_fail _
  | some state =>
    refine keeps_ite (keeps_fail _) (records_modifyRun (adjustMap_tame forEachId _)
      (records_emitEvent (records_sync ?_)))
    cases workflow.nodes.get? state.bodyStepId with
    | none => exact keeps_fail _
    | some bodyNode =>
      exact dispatchPendingShards_records.bind fun _ =>
        records_readRun fun _ => keeps_ite completeMap_records (keeps_pure _)

theorem handleShardFailed_records {error : Json} :
    Records base (handleShardFailed env workflow forEachId index error) := by
  refine records_readRun fun run => ?_
  cases run.mapStates.get? forEachId with
  | none => exact keeps_fail _
  | some state =>
    exact keeps_ite (keeps_fail _) (records_modifyRun (adjustMap_tame forEachId _)
      (records_emitEvent (records_modifyRun (fun _ => .rest forEachId rfl rfl)
        (records_sync syncNode_records))))

theorem reportedOutput_records : Records base (reportedOutput env result) := by
  unfold reportedOutput
  cases result.result with
  | some value => exact keeps_pure _
  | none =>
    cases result.resultObjId with
    | none => exact keeps_pure _
    | some id =>
      refine getJson_records.bind fun stored => ?_
      cases stored with
      | some value => exact keeps_pure _
      | none => exact keeps_fail _

theorem acceptResult_records {result : ThunkExecutionResult} :
    Records base (acceptResult env workflow compiled pending result) := by
  refine reportedOutput_records.bind fun output => ?_
  have haddress : Records base (resultAddress env result output) := by
    unfold resultAddress
    cases result.resultObjId with
    | some id => exact keeps_pure _
    | none => exact putJson_records
  refine haddress.bind fun outputId => Keeps.bind (keeps_update fun _ h => ?_) fun _ => ?_
  · exact (tameClosed_recorded base).aside h rfl rfl
  cases pending.shardIndex with
  | some index => exact handleShardCompleted_records
  | none =>
    refine records_modifyRun (fun run => ?_) (Keeps.bind ?_ fun _ => completeApply_records)
    · exact (Tame.finish pending.nodeId rfl output).trans (.aside rfl)
    · exact keeps_ite (records_readRun fun _ => records_lift fun _ => putJsonWithId_records) (keeps_pure _)

theorem rejectResult_records {result : ThunkExecutionResult} :
    Records base (rejectResult env workflow compiled pending result) := by
  unfold rejectResult
  cases pending.shardIndex with
  | some index => exact handleShardFailed_records
  | none => exact records_readRun fun _ => (recordFailure_records trivial).bind fun _ => sync_records

theorem handleThunkResult_records : Records base (handleThunkResult env workflow result) := by
  have hkeep : ∀ (pending : PendingThunk) (eventType : String),
      Records base (keepThunk pending result eventType) :=
    fun _ _ => records_modifyRun (fun _ => .aside rfl) emitEvent_records
  refine records_readRun fun run => ?_
  cases run.pendingThunks.find? result.thunkObjId with
  | none => exact keeps_fail _
  | some pending =>
    refine records_modifyRun (fun _ => .aside rfl) ?_
    cases workflow.nodes.get? pending.nodeId with
    | none => exact keeps_fail _
    | some compiled =>
      refine Keeps.bind ?_ fun _ => settle_records
      unfold applyResult
      cases result.status with
      | waiting | dispatched => exact hkeep pending _
      | success => exact acceptResult_records
      | failed | cancelled => exact rejectResult_records

theorem decideNode_records {decision : Json} : Records base (decideNode workflow nodeId decision) := by
  refine records_modifyRun (fun run => ?_) (modifyRun_records fun _ => .aside rfl)
  exact (Tame.finish nodeId rfl decision).trans (.aside rfl)

theorem applyHumanAction_records : Records base (applyHumanAction workflow compiled action) := by
  unfold applyHumanAction
  cases action.action with
  | approve => exact records_readRun fun _ => records_lift fun _ => records_lift fun _ => decideNode_records
  | modify =>
    refine records_readRun fun _ => records_lift fun _ => ?_
    cases action.payload.bind (fun payload => payload.get? "modified_subject") with
    | none => exact keeps_fail _
    | some modified => exact decideNode_records
  | reject => exact records_readRun fun _ => records_lift fun _ => decideNode_records
  | retry =>
    exact records_readRun fun _ => keeps_ite (modifyRun_records fun _ => .reset action.nodeId) (keeps_fail _)
  | skip =>
    refine keeps_ite (records_modifyRun (fun run => ?_) (records_activateSuccessors
      emitEvent_records)) (keeps_fail _)
    exact (Tame.finish action.nodeId rfl .null).trans (.aside rfl)
  | abort => exact records_modifyRun abortRun_tame emitEvent_records
  | rollback =>
    refine records_readRun fun run => ?_
    cases (workflow.graph.downstreamFrom action.nodeId).find? (isBarrier workflow run) with
    | some nodeId => exact keeps_fail _
    | none =>
      refine modifyRun_records fun run => ?_
      exact (Tame.foldl (fun _ nodeId => .reset nodeId) _ run).trans (.aside rfl)

theorem handleHumanAction_records : Records base (handleHumanAction env workflow action) := by
  unfold handleHumanAction
  cases workflow.nodes.get? action.nodeId with
  | none => exact keeps_fail _
  | some compiled =>
    exact applyHumanAction_records.bind fun _ => records_emitEvent
      (records_readRun fun _ => (keeps_visit (fun _ => syncNode_records) _).bind (fun _ => settle_records))

theorem withdrawThunks_records : Records base (withdrawThunks nodeId) :=
  records_readRun fun _ => cancelThunks_records.bind
    (fun _ => modifyRun_records fun _ => .aside rfl)

theorem submitStepOutput_records : Records base (submitStepOutput env workflow nodeId actor output) := by
  unfold submitStepOutput
  cases workflow.nodes.get? nodeId with
  | none => exact keeps_fail _
  | some compiled =>
    refine records_readRun fun run => keeps_ite ?_ (keeps_fail _)
    refine withdrawThunks_records.bind fun _ => records_modifyRun (fun run => ?_) ?_
    · exact (Tame.finish nodeId rfl output).trans (.aside rfl)
    · exact records_activateSuccessors (records_emitEvent (notifyParBranchCompleted_records.bind
          (fun _ => records_sync settle_records)))

theorem requestHuman_records {prompt : Option String} {subject : Option Json} :
    Records base (requestHuman env workflow nodeId actor prompt subject) := by
  unfold requestHuman
  cases workflow.nodes.get? nodeId with
  | none => exact keeps_fail _
  | some compiled =>
    exact withdrawThunks_records.bind fun _ => records_modifyRun (awaitHuman_tame nodeId)
      (storeSubject_records.bind fun _ => records_emitEvent (records_sync settle_records))

theorem perform_records {operation : Operation} : Records base (perform env workflow operation) := by
  cases operation with
  | tick => exact tick_records
  | thunkResult result => exact handleThunkResult_records
  | humanAction action => exact handleHumanAction_records
  | submitStepOutput nodeId actor output => exact submitStepOutput_records
  | reportStepProgress nodeId actor progress =>
    show Records base (reportStepProgress env workflow nodeId actor progress)
    unfold reportStepProgress
    cases workflow.nodes.get? nodeId with
    | none => exact keeps_fail _
    | some compiled => exact records_emitEvent sync_records
  | requestHuman nodeId actor prompt subject => exact requestHuman_records
  | taskData data =>
    refine records_readRun fun run => records_lift fun request => ?_
    cases request with
    | nothing => exact keeps_pure _
    | submit nodeId actor output => exact submitStepOutput_records
    | act action => exact handleHumanAction_records

theorem answering_records {call : Orch Unit} (hcall : Records base call) {w : World}
    (h : Recorded base {w with events := []}) : Recorded base (answering call w).2 ∧
      ∀ events, (answering call w).1 = .ok events → events = (answering call w).2.events := by
  have hnext := hcall _ h
  cases hrun : call {w with events := []} with
  | mk r w' =>
    rw [hrun] at hnext
    cases r with
    | ok _ =>
      have hanswer : answering call w = (.ok w'.events,w') := (bind_of_ok rfl).trans (bind_of_ok hrun)
      rw [hanswer]
      exact ⟨hnext,fun _ hevents => (Except.ok.inj hevents).symm⟩
    | error e =>
      have hanswer : answering call w = (.error e,w') := (bind_of_ok rfl).trans (bind_of_error hrun)
      rw [hanswer]
      exact ⟨hnext,fun _ hevents => by cases hevents⟩

/-- The events of a call are numbered from the number that the run had before it, and the call
answers with all of them or fails. -/
theorem step_records {w : World} (h : Furnished w.run) (operation : Operation) :
    Recorded w.run.seq (step env workflow w operation).2 ∧
      ∀ events, (step env workflow w operation).1 = .ok events →
        events = (step env workflow w operation).2.events := answering_records perform_records ⟨rfl,rfl,h⟩

theorem createRun_records {w : World} (runId : String) (metrics : OrderedMap String Json) :
    Recorded 0 (createRun env workflow runId metrics w).2 ∧
      ∀ events, (createRun env workflow runId metrics w).1 = .ok events →
        events = (createRun env workflow runId metrics w).2.events := by
  have hstart : Recorded 0 {w with run := newRun workflow runId metrics, events := []} := by
    refine ⟨rfl,rfl,?_⟩
    intro n hn
    change ((workflow.nodes.mapValues fun _ _ => NodeRunState.pending).get? n).any _ = true at hn
    rw [get?_mapValues] at hn
    cases hget : workflow.nodes.get? n with
    | none | some node =>
      rw [hget] at hn
      cases hn
  have hcall : Records 0 (do
      emitEvent "run.created" none "engine" none
      sync env) := records_emitEvent sync_records
  exact answering_records hcall (w := {w with run := newRun workflow runId metrics}) hstart

end Calls
end BuckyOS.Workflow
