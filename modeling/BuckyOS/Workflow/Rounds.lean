import BuckyOS.Workflow.Records

/-! A tick comes to an end: whatever a round starts has fewer turns left afterwards, so the rounds run out
of nodes to start before they reach their limit. -/
namespace BuckyOS.Workflow
open Fallible OrderedMap

section Turns
variable {node : CompiledNode} {run run' : WorkflowRun} {free : String → Prop}

/-- The turns a node may still take: the attempts it has left and one that makes none. -/
def turnsLeft (node : CompiledNode) (run : WorkflowRun) : ℕ :=
  if (run.stateOf node.id).waiting then (retryPolicy node).maxAttempts - run.attemptOf node.id + 1 else 0

theorem turnsLeft_le : turnsLeft node run ≤ (retryPolicy node).maxAttempts + 1 := by
  unfold turnsLeft
  split_ifs <;> omega

theorem turnsLeft_of_waiting (h : (run.stateOf node.id).waiting = true) :
    turnsLeft node run = (retryPolicy node).maxAttempts - run.attemptOf node.id + 1 := if_pos h

theorem turnsLeft_of_rest {s : NodeRunState} (h : run.nodeStates.get? node.id = some s)
    (hs : s.waiting = false) : turnsLeft node run = 0 := by
  rw [turnsLeft,WorkflowRun.stateOf,h,Option.getD_some,hs,if_neg (by decide)]

theorem Tame.turnsLeft_le (h : Tame free run run') (hnode : ¬ free node.id) :
    turnsLeft node run' ≤ turnsLeft node run := by
  have hattempts := h.attempts node.id
  unfold turnsLeft
  split_ifs with hafter hbefore
  · omega
  · exact absurd (h.waits node.id hnode hafter) hbefore
  · exact Nat.zero_le _
  · exact le_rfl

def Bounded (node : CompiledNode) (turns : ℕ) (w : World) : Prop := turnsLeft node w.run ≤ turns

instance tameClosed_bounded (node : CompiledNode) (turns : ℕ) :
    TameClosed (fun n => n ≠ node.id) (Bounded node turns) where
  update h ht := (ht.turnsLeft_le (fun hne => hne rfl)).trans h
  emitted h _ _ _ _ := h
  aside h hrun _ := by rwa [Bounded,hrun]

def Attempted (nodeId : String) (attempts : ℕ) (w : World) : Prop := attempts ≤ w.run.attemptOf nodeId

instance tameClosed_attempted (nodeId : String) (attempts : ℕ) :
    TameClosed (fun _ => True) (Attempted nodeId attempts) where
  update h ht := h.trans (ht.attempts nodeId)
  emitted h _ _ _ _ := h
  aside h hrun _ := by rwa [Attempted,hrun]

end Turns

section Starts
variable {α β : Type} {env : Env} {workflow : CompiledWorkflow} {node : CompiledNode} {turns : ℕ}
variable {m m' : Orch α} {f : α → Orch β} {w : World}

/-- A computation after which, if it succeeds, a node has no more than some turns left. -/
def Leaves (node : CompiledNode) (turns : ℕ) (m : Orch α) (w : World) : Prop :=
  wp m (fun _ => Bounded node turns) (fun _ _ => True) w

theorem Leaves.mono {turns' : ℕ} (h : Leaves node turns m w) (hle : turns ≤ turns') :
    Leaves node turns' m w := wp_mono h (fun _ _ hw => hw.trans hle) fun _ _ => id

theorem leaves_of_keeps (hm : Keeps (Bounded node turns) m) (h : Bounded node turns w) :
    Leaves node turns m w :=
  wp_mono (wp_state.mpr (hm w h)) (fun _ _ h => h) (fun _ _ _ => trivial)

theorem leaves_bind {I : World → Prop} (hm : Keeps I m) (hw : I w)
    (hf : ∀ a w', I w' → Leaves node turns (f a) w') : Leaves node turns (m >>= f) w :=
  (wp_bind _ _).mpr (wp_mono (wp_state.mpr (hm w hw)) hf fun _ _ _ => trivial)

def Serves (node : CompiledNode) (m : Orch α) : Prop := ∀ w, Leaves node 0 m w

theorem serves_after (h : ∀ a, Serves node (f a)) : Serves node (m >>= f) :=
  fun _ => leaves_bind (I := fun _ => True) (fun _ => id) trivial fun a w' _ => h a w'

theorem serves_modifyRun (s : NodeRunState) {g : WorkflowRun → WorkflowRun} {f : Unit → Orch β}
    (hg : ∀ run, (g run).nodeStates.get? node.id = some s) (hs : s.waiting = false)
    (hf : Keeps (Bounded node 0) (f ())) : Serves node (modifyRun g >>= f) :=
  fun w => show Leaves node 0 (f ()) {w with run := g w.run} from
    leaves_of_keeps hf (turnsLeft_of_rest (hg w.run) hs).le

theorem serves_ite {p : Prop} [Decidable p] (hm : Serves node m) (hm' : Serves node m') :
    Serves node (if p then m else m') := by
  split_ifs
  · exact hm
  · exact hm'

theorem completeFromCache_serves {cached : Json} : Serves node (completeFromCache env workflow node cached) :=
  serves_modifyRun .completed (fun _ => get?_insert_self ..) rfl completeApply_records

theorem completeApplyNodeDirect_serves {input output metrics : Json} :
    Serves node (completeApplyNodeDirect env workflow node input output metrics) :=
  serves_after fun _ => serves_modifyRun .completed (fun _ => get?_insert_self ..) rfl
    ((keeps_ite putJsonWithId_records (keeps_pure _)).bind fun _ => completeApply_records)

theorem dispatchApply_serves {input : Json} {attempt : ℕ} :
    Serves node (dispatchApply env node input attempt) :=
  serves_after fun _ => serves_after fun _ => serves_after fun _ => serves_after fun _ =>
    serves_modifyRun .running (fun _ => get?_insert_self ..) rfl
      (records_emitEvent (records_sync sync_records))

theorem askAboutBranch_serves {payload : Json} : Serves node (askAboutBranch env node payload) :=
  serves_modifyRun .waitingHuman (fun _ => get?_insert_self ..) rfl (records_emitEvent sync_records)

theorem advanceMatch_serves {on : RefPath} {cases : OrderedMap String String} {maxIterations : ℕ} :
    Serves node (advanceMatch env workflow node on cases maxIterations) := by
  refine serves_after fun run => serves_ite askAboutBranch_serves (serves_after fun value => ?_)
  dsimp only
  cases cases.get? (value.asStr.getD value.render) with
  | none => exact askAboutBranch_serves
  | some target =>
    exact serves_after fun _ => serves_modifyRun .completed (fun _ => get?_insert_self ..) rfl
      (records_activateSuccessors (records_emitEvent sync_records))

theorem enterHumanWait_serves {prompt : Option String} : Serves node (enterHumanWait env node prompt) :=
  serves_modifyRun .waitingHuman (fun _ => get?_insert_self ..) rfl
    (records_readRun fun _ => storeSubject_records.bind fun _ => records_emitEvent sync_records)

theorem enterPar_serves {branches : List String} {join : JoinStrategy} :
    Serves node (enterPar env node branches join) :=
  serves_after fun _ => serves_modifyRun .running (fun _ => get?_insert_self ..) rfl
    (records_emitEvent sync_records)

theorem enterMap_serves {collection : RefPath} {steps : List String} {maxItems concurrency : ℕ} :
    Serves node (enterMap env workflow node collection steps maxItems concurrency) :=
  serves_after fun _ => serves_after fun _ => serves_after fun _ =>
    serves_modifyRun .running (fun _ => get?_insert_self ..) rfl
      (records_emitEvent (records_sync (keeps_ite completeMap_records dispatchPendingShards_records)))

/-- An attempt leaves a node that waits one turn less. -/
def Spends (node : CompiledNode) (attempts : ℕ) (m : Orch α) : Prop :=
  ∀ w, Attempted node.id attempts w → Leaves node ((retryPolicy node).maxAttempts - attempts) m w

variable {attempts : ℕ}

theorem Serves.spends (h : Serves node m) : Spends node attempts m := fun w _ => (h w).mono (Nat.zero_le _)

theorem spends_bind (hm : Keeps (Attempted node.id attempts) m) (hf : ∀ a, Spends node attempts (f a)) :
    Spends node attempts (m >>= f) := fun _ hw => leaves_bind hm hw hf

theorem failApplyNodeDirect_turns {error : String} (hw : Attempted node.id (attempts + 1) w) :
    Leaves node ((retryPolicy node).maxAttempts - attempts)
      (failApplyNodeDirect env node (attempts + 1) error) w := by
  have hrest : ∀ run : WorkflowRun, ∀ s, s.waiting = false → turnsLeft node (run.setState node.id s) ≤
      (retryPolicy node).maxAttempts - attempts :=
    fun run s hs => (turnsLeft_of_rest (get?_insert_self ..) hs).le.trans (Nat.zero_le _)
  unfold Leaves failApplyNodeDirect recordFailure
  rw [wp_bind]
  split_ifs with hretry
  · refine leaves_of_keeps sync_records ?_
    show turnsLeft node (w.run.setState node.id .pending) ≤ _
    have hattempts : attempts + 1 ≤ (w.run.setState node.id .pending).attemptOf node.id := hw
    rw [turnsLeft_of_waiting (by rw [stateOf_setState,if_pos rfl]; rfl)]
    omega
  · exact leaves_of_keeps sync_records (hrest w.run .waitingHuman rfl)
  · exact leaves_of_keeps sync_records (hrest w.run .failed rfl)

theorem scheduleApplyDirect_turns {executor : ExecutorRef} {input : Json}
    (hw : Attempted node.id (attempts + 1) w) : Leaves node ((retryPolicy node).maxAttempts - attempts)
      (scheduleApplyDirect env workflow node executor input (attempts + 1)) w := by
  unfold scheduleApplyDirect
  show Leaves _ _ (sync env >>= _) (World.emitted {w with run := w.run.setState node.id .running} _ _ _ _)
  refine leaves_bind (I := Attempted node.id (attempts + 1)) sync_records hw fun _ w₁ hw₁ => ?_
  refine leaves_bind invoke_records hw₁ fun answer w₂ hw₂ => ?_
  cases answer with
  | ok output => exact completeApplyNodeDirect_serves.spends _ ((Nat.le_succ _).trans hw₂)
  | error error => exact failApplyNodeDirect_turns hw₂

theorem startApply_spends {input : Json} : Spends node attempts (startApply env workflow node input) := by
  intro w hw
  have hattempt := attemptOf_countAttempt w.run node.id
  have hcounted : Attempted node.id (w.run.attemptOf node.id + 1)
      {w with run := w.run.countAttempt node.id} := hattempt.ge
  unfold startApply
  cases hexpr : node.expr with
  | apply executor =>
    show wp (ite _ _ _) _ _ {w with run := w.run.countAttempt node.id}
    rw [hattempt]
    split_ifs
    · exact (scheduleApplyDirect_turns hcounted).mono (Nat.sub_le_sub_left hw _)
    · exact dispatchApply_serves.spends _ (hw.trans ((Nat.le_succ _).trans hcounted))
  | _ => trivial

theorem scheduleApply_spends : Spends node attempts (scheduleApply env workflow node) := by
  refine spends_bind (keeps_read _) fun run => spends_bind (keeps_lift _) fun input => ?_
  have hcached : Keeps (Attempted node.id attempts) (cachedResult env node input) :=
    keeps_ite (getJson_records.bind fun _ => keeps_pure _) (keeps_pure _)
  refine spends_bind hcached fun cached => ?_
  cases cached with
  | some output => exact completeFromCache_serves.spends
  | none => exact startApply_spends

variable {nodeId : String}

theorem advanceNode_turns (hids : workflow.Keyed)
    (w : World) : wp (advanceNode env workflow nodeId) (fun _ w' => ∃ node,
      workflow.nodes.get? nodeId = some node ∧
        Bounded node ((retryPolicy node).maxAttempts - w.run.attemptOf nodeId) w') (fun _ _ => True) w := by
  unfold advanceNode
  cases hnode : workflow.nodes.get? nodeId with
  | none => trivial
  | some node =>
    obtain rfl := hids nodeId node hnode
    have hspent : ∀ {m : Orch Unit}, Spends node (w.run.attemptOf node.id) m →
        wp m (fun _ w' => ∃ node', some node = some node' ∧
          Bounded node' ((retryPolicy node').maxAttempts - w.run.attemptOf node.id) w') (fun _ _ => True) w :=
      fun hm => wp_mono (hm w le_rfl) (fun _ _ h => ⟨node,rfl,h⟩) fun _ _ => id
    dsimp only
    cases node.expr with
    | apply => exact hspent scheduleApply_spends
    | matchOn => exact hspent advanceMatch_serves.spends
    | await => exact hspent enterHumanWait_serves.spends
    | par => exact hspent enterPar_serves.spends
    | map => exact hspent enterMap_serves.spends

end Starts

section Rounds
variable {env : Env} {workflow : CompiledWorkflow} {w : World}

def totalTurns (workflow : CompiledWorkflow) (run : WorkflowRun) : ℕ :=
  (workflow.nodes.values.map (turnsLeft · run)).sum

theorem totalTurns_lt_roundLimit (run : WorkflowRun) : totalTurns workflow run < roundLimit workflow :=
  Nat.lt_succ_of_le (List.sum_le_sum fun _ _ => turnsLeft_le)

theorem waiting_of_markReady {nodeIds : List String} {acc : List String × WorkflowRun}
    (h : ∀ n ∈ acc.1, (acc.2.stateOf n).waiting = true) :
    ∀ n ∈ (nodeIds.foldl (markReady workflow) acc).1,
      ((nodeIds.foldl (markReady workflow) acc).2.stateOf n).waiting = true := by
  induction nodeIds generalizing acc with
  | nil => exact h
  | cons nodeId nodeIds ih =>
    refine ih ?_
    unfold markReady
    split_ifs
    · intro n hn
      rw [stateOf_setState]
      split_ifs with hsame
      · rfl
      · exact h n ((List.mem_append.mp hn).resolve_right fun hn => hsame (List.mem_singleton.mp hn))
    · exact h

/-- How far a round has come: no node has more turns left than at its start, and those that have had
their turn have fewer. -/
structure Underway (workflow : CompiledWorkflow) (start : WorkflowRun) (actionable rest : List String)
    (w : World) : Prop where
  attempts : ∀ n, start.attemptOf n ≤ w.run.attemptOf n
  turns : ∀ node ∈ workflow.nodes.values, turnsLeft node w.run ≤ turnsLeft node start
  taken : ∀ n ∈ actionable, n ∉ rest → ∃ node, workflow.nodes.get? n = some node ∧
    turnsLeft node w.run < turnsLeft node start

variable (hids : workflow.Keyed)
include hids

theorem Underway.advanceNode {start : WorkflowRun} {actionable rest : List String} {nodeId : String}
    (hwaiting : ∀ n ∈ actionable, (start.stateOf n).waiting = true) (hnode : nodeId ∈ actionable)
    (h : Underway workflow start actionable (nodeId :: rest) w) :
    wp (advanceNode env workflow nodeId) (fun _ => Underway workflow start actionable rest)
      (fun _ _ => True) w := by
  have hturns : wp (Workflow.advanceNode env workflow nodeId) _ _ w := advanceNode_turns hids w
  have hothers : ∀ node, node.id ≠ nodeId →
      turnsLeft node (Workflow.advanceNode env workflow nodeId w).2.run ≤ turnsLeft node w.run :=
    fun node hne => advanceNode_records (I := Bounded node (turnsLeft node w.run))
      (fun compiled hcompiled => by rw [hids _ _ hcompiled]; exact Ne.symm hne) w le_rfl
  have hattempts : ∀ n, w.run.attemptOf n ≤
      (Workflow.advanceNode env workflow nodeId w).2.run.attemptOf n :=
    fun n => advanceNode_records (I := Attempted n (w.run.attemptOf n)) (fun _ _ => trivial) w le_rfl
  revert hturns hothers hattempts
  unfold wp
  rcases Workflow.advanceNode env workflow nodeId w with ⟨e | _,w'⟩
  · exact fun _ _ _ => trivial
  · rintro ⟨node,hget,hbound⟩ hothers hattempts
    have hid := hids _ _ hget
    have hself : turnsLeft node w'.run < turnsLeft node start := by
      have hstart := h.attempts nodeId
      rw [turnsLeft_of_waiting (hid ▸ hwaiting nodeId hnode : (start.stateOf node.id).waiting = true),hid]
      unfold Bounded at hbound
      omega
    refine ⟨fun n => (h.attempts n).trans (hattempts n),fun other hother => ?_,fun n hn hrest => ?_⟩
    · by_cases hsame : other.id = nodeId
      · obtain ⟨key,hkey⟩ := (mem_values_iff _ _).mp hother
        rw [← hids _ _ hkey,hsame,hget] at hkey
        rw [← Option.some.inj hkey]
        exact hself.le
      · exact (hothers other hsame).trans (h.turns other hother)
    · by_cases hsame : n = nodeId
      · subst hsame
        exact ⟨node,hget,hself⟩
      · obtain ⟨other,hother,hlt⟩ := h.taken n hn (by simp [hsame,hrest])
        exact ⟨other,hother,(hothers other (hids _ _ hother ▸ hsame)).trans_lt hlt⟩

theorem round_turns {actionable : List String}
    (hwaiting : ∀ n ∈ actionable, (w.run.stateOf n).waiting = true) (hsome : actionable ≠ []) :
    wp (visit (advanceNode env workflow) actionable)
      (fun _ w' => totalTurns workflow w'.run < totalTurns workflow w.run) (fun _ _ => True) w := by
  have hvisit := wp_visit (f := advanceNode env workflow)
    (I := fun rest w' => (∀ n ∈ rest, n ∈ actionable) ∧ Underway workflow w.run actionable rest w')
    (E := fun _ _ => True) ?_ ⟨fun _ h => h,fun _ => le_rfl,fun _ _ => le_rfl,
      fun n hn hrest => absurd hn hrest⟩
  · refine wp_mono hvisit (fun _ w' hw' => ?_) fun _ _ => id
    obtain ⟨nodeId,hnode⟩ := List.exists_mem_of_ne_nil _ hsome
    obtain ⟨node,hget,hlt⟩ := hw'.2.taken nodeId hnode List.not_mem_nil
    exact List.sum_lt_sum _ _ hw'.2.turns ⟨node,(mem_values_iff _ _).mpr ⟨nodeId,hget⟩,hlt⟩
  · rintro nodeId rest w' ⟨hrest,hunderway⟩
    refine wp_mono (hunderway.advanceNode hids hwaiting (hrest _ List.mem_cons_self)) ?_ fun _ _ => id
    exact fun _ _ h => ⟨fun n hn => hrest n (List.mem_cons_of_mem _ hn),h⟩

theorem tickRounds_turns {rounds : ℕ} (h : totalTurns workflow w.run < rounds) :
    wp (tickRounds env workflow rounds) (fun ended _ => ended = true) (fun _ _ => True) w := by
  induction rounds generalizing w with
  | zero => omega
  | succ rounds ih =>
    have hmarked : totalTurns workflow (w.run.activatedNodes.keys.foldl (markReady workflow)
        ([],w.run)).2 ≤ totalTurns workflow w.run :=
      List.sum_le_sum fun node _ =>
        (markReady_tame workflow _ ([],w.run) : Tame (fun _ => False) _ _).turnsLeft_le id
    show wp (ite _ _ _) _ _
      {w with run := (w.run.activatedNodes.keys.foldl (markReady workflow) ([],w.run)).2}
    split_ifs with hnone
    · rfl
    · refine (wp_bind _ _).mpr (wp_mono (round_turns hids (waiting_of_markReady ?_) hnone) ?_ ?_)
      · exact fun n hn => absurd hn List.not_mem_nil
      · exact fun _ w' hlt => ih (by dsimp only at hlt; omega)
      · exact fun _ _ => id

end Rounds

/-- A tick of a compiled workflow goes on until there is nothing left to start, whatever it finds and
whatever the services answer. -/
theorem tickRounds_end {hashExecutor : String → String} {fuel : ℕ}
    {definition : WorkflowDefinition} {output : CompileOutput}
    (h : compileWorkflow hashExecutor fuel definition = some (.ok output)) (env : Env) (w : World) :
    wp (tickRounds env output.workflow (roundLimit output.workflow)) (fun ended _ => ended = true)
      (fun _ _ => True) w :=
  tickRounds_turns (compiled_of_compileWorkflow h).1.keyed (totalTurns_lt_roundLimit w.run)

end BuckyOS.Workflow
