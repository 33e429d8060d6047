import BuckyOS.Workflow.Orchestrator

/-! What a call of the orchestrator can do to the states of the nodes, the pending thunks, the
joins and maps under way, the object store and the record of executions. Every call, however it
ends, is a sequence of a few moves; what all moves keep, all calls keep. -/
namespace BuckyOS.Workflow
open Fallible Relation

/-- The part of a world that the moves are about. -/
structure View where
  states : OrderedMap String NodeRunState
  attempts : OrderedMap String ℕ
  thunks : Registry PendingThunk.thunkObjId
  pars : OrderedMap String ParState
  maps : OrderedMap String MapState
  store : ObjectId → Option Json
  scheduled : List ScheduledThunk
  invoked : List Invocation
  reported : List (ObjectId × Json)

def WorkflowRun.view (run : WorkflowRun) (w : World) : View :=
  ⟨run.nodeStates,run.nodeAttempts,run.pendingThunks,run.parStates,run.mapStates,w.store,
    w.scheduled,w.invoked,w.reported⟩

def World.view (w : World) : View := w.run.view w

def CompiledNode.executor? (node : CompiledNode) : Option ExecutorRef :=
  match node.expr with
  | .apply executor _ _ _ _ _ _ => some executor
  | _ => none

def CompiledWorkflow.isApply (workflow : CompiledWorkflow) (nodeId : String) : Bool :=
  (workflow.nodes.get? nodeId).any (fun node => node.executor?.isSome)

/-- What a call may do beyond what every call may do: start nodes, send off shards, set nodes
aside whatever runs for them, make them run again, and file the result of a thunk under an input. -/
structure Scope where
  starts : String → Prop := fun _ => False
  shards : String → Prop := fun _ => False
  overrides : String → Prop := fun _ => False
  resets : String → Prop := fun _ => False
  files : ObjectId → CompiledNode → Json → Prop := fun _ _ _ => False
  tidy : Prop := True

section
variable (workflow : CompiledWorkflow) (scope : Scope)

/-- The states a node may be put in when no thunk of its own is pending. -/
def Admits (v : View) (n : String) : NodeRunState → Prop
  | .running => False
  | .pending => v.states.get? n = none ∨ v.states.get? n = some .ready ∨ workflow.isApply n = true
  | .ready => v.states.get? n = none ∨ v.states.get? n = some .pending
  | _ => True

/-- A node that does not wait to be started. -/
def Begun (v : View) (n : String) : Prop :=
  ∃ s, v.states.get? n = some s ∧ s ≠ .pending ∧ s ≠ .ready

/-- No shard gets to be pending again. -/
def KeepsShards (state state' : MapState) : Prop :=
  ∀ i : ℕ, state'.shardStates[i]? = some NodeRunState.pending →
    state.shardStates[i]? = some NodeRunState.pending

inductive Move : View → View → Prop
  /-- A node starts without a thunk. -/
  | start (v : View) (n : String) (hn : scope.starts n) :
    Move v {v with states := v.states.insert n .running}
  /-- A node that no thunk of its own can be pending for changes its state. -/
  | place (v : View) (n : String) (s : NodeRunState) (hs : Admits workflow v n s)
      (hn : v.states.get? n ≠ some .running ∨ n ∈ v.pars.keys ∨ n ∈ v.maps.keys) :
    Move v {v with states := v.states.insert n s}
  /-- A human sets a node aside. -/
  | override (v : View) (n : String) (s : NodeRunState) (hs : s ≠ .running ∧ s ≠ .ready)
      (hn : scope.overrides n) (hreset : s = .pending → scope.resets n) :
    Move v {v with states := v.states.insert n s}
  | abort (v : View) (hn : ∀ n, scope.overrides n) :
    Move v {v with states := v.states.mapValues (fun _ s => if s.live then .aborted else s)}
  | count (v : View) (n : String) : Move v {v with attempts := v.attempts.upsert n 0 (· + 1)}
  /-- A node starts with a thunk for its next attempt. -/
  | dispatch (v : View) (node : CompiledNode) (runId : String) (input : Json)
      (scheduled : ScheduledThunk) (hnode : workflow.nodes.get? node.id = some node)
      (hstart : scope.starts node.id) (hidle : v.states.get? node.id ≠ some .running)
      (hbuild : buildThunk runId node input ((v.attempts.get? node.id).getD 0 + 1) =
        .ok scheduled) :
    Move v {v with
      states := v.states.insert node.id .running
      attempts := v.attempts.upsert node.id 0 (· + 1)
      thunks := v.thunks.insert
        ⟨node.id,scheduled.thunkObjId,(v.attempts.get? node.id).getD 0 + 1,none⟩
      scheduled := v.scheduled ++ [scheduled]}
  | dispatchShard (v : View) (n bodyStepId : String) (body : CompiledNode) (runId : String)
      (index : ℕ) (input : Json) (attempt : ℕ) (scheduled : ScheduledThunk) (state : MapState)
      (hn : scope.shards n) (hbegun : scope.tidy → Begun v n) (happly : workflow.isApply n = false)
      (hmap : v.maps.get? n = some state)
      (hpending : state.shardStates[index]? = some .pending)
      (hbuild : buildShardThunk runId body n bodyStepId index input attempt = .ok scheduled) :
    Move v {v with
      thunks := v.thunks.insert ⟨n,scheduled.thunkObjId,attempt,some index⟩
      scheduled := v.scheduled ++ [scheduled]
      maps := v.maps.insert n (state.setShard index .running)}
  | unpend (v : View) (id : ObjectId) : Move v {v with thunks := v.thunks.erase id}
  /-- The thunk of a node is answered. -/
  | finish (v : View) (t : PendingThunk) (s : NodeRunState) (hs : s ≠ .running ∧ s ≠ .ready)
      (ht : v.thunks.find? t.thunkObjId = some t) (hshard : t.shardIndex = none)
      (happly : workflow.isApply t.nodeId = true) :
    Move v {v with
      states := v.states.insert t.nodeId s
      thunks := v.thunks.erase t.thunkObjId}
  /-- A thunk is reported to be under way. -/
  | requeue (v : View) (t : PendingThunk) (ht : v.thunks.find? t.thunkObjId = some t) :
    Move v {v with thunks := (v.thunks.erase t.thunkObjId).insert t}
  /-- The thunks of a node are taken back. -/
  | withdraw (v : View) (n : String) (s : NodeRunState)
      (hs : s ≠ .running ∧ s ≠ .ready ∧ s ≠ .pending) :
    Move v {v with
      states := v.states.insert n s
      thunks := v.thunks.filter (fun t => !t.runs n)}
  | openPar (v : View) (n : String) (state : ParState) (hn : workflow.isApply n = false) :
    Move v {v with pars := v.pars.insert n state}
  | closePar (v : View) (n : String) : Move v {v with pars := v.pars.erase n}
  /-- A `for_each` begins, none of its shards ever sent off. -/
  | openMap (v : View) (n : String) (state : MapState) (hn : workflow.isApply n = false)
      (hfresh : scope.tidy → ∀ s ∈ v.scheduled, s.thunkObjId.forEach? ≠ some n) :
    Move v {v with maps := v.maps.insert n state}
  | adjustMap (v : View) (n : String) (state state' : MapState)
      (hmap : v.maps.get? n = some state) (hkeeps : KeepsShards state state') :
    Move v {v with maps := v.maps.insert n state'}
  | closeMap (v : View) (n : String) : Move v {v with maps := v.maps.erase n}
  | put (v : View) (id : ObjectId) (value : Json) (hid : id.objectType ≠ "workflow_cache") :
    Move v {v with store := Function.update v.store id (some value)}
  | invoke (v : View) (call : Invocation) : Move v {v with invoked := v.invoked ++ [call]}
  | report (v : View) (id : ObjectId) (output : Json) :
    Move v {v with reported := v.reported ++ [(id,output)]}
  /-- The answer of a direct execution is cached. -/
  | keepAnswer (v : View) (node : CompiledNode) (executor : ExecutorRef) (input output : Json)
      (outputId : ObjectId) (metrics : Json) (happly : node.executor? = some executor)
      (hcall : ⟨executor,input,.ok output⟩ ∈ v.invoked) :
    Move v {v with
      store := Function.update v.store (cacheKey node input)
        (some (cacheEntry outputId output metrics))}
  /-- The result of a thunk is cached. -/
  | keepResult (v : View) (node : CompiledNode) (id : ObjectId) (input output : Json)
      (outputId : ObjectId) (metrics : Json) (hnode : workflow.nodes.get? node.id = some node)
      (hreport : (id,output) ∈ v.reported) (hfiles : scope.files id node input) :
    Move v {v with
      store := Function.update v.store (cacheKey node input)
        (some (cacheEntry outputId output metrics))}

abbrev Reach : View → View → Prop := ReflTransGen (Move workflow scope)

/-- However a computation ends, what it leaves is a sequence of moves away from `v`. -/
def GoesFrom {α : Type} (v : View) (m : Orch α) (w : World) : Prop :=
  wp m (fun _ w' => Reach workflow scope v w'.view) (fun _ w' => Reach workflow scope v w'.view) w

abbrev Goes {α : Type} (m : Orch α) (w : World) : Prop := GoesFrom workflow scope w.view m w

end

section Rules
variable {workflow : CompiledWorkflow} {scope : Scope} {v : View} {w : World} {α β : Type}

theorem Goes.after {m : Orch α} (h : Goes workflow scope m w) (hw : Reach workflow scope v w.view) :
    GoesFrom workflow scope v m w :=
  wp_mono h (fun _ _ hmoves => hw.trans hmoves) (fun _ _ hmoves => hw.trans hmoves)

theorem Move.putJson (v : View) (objectType : String) (value : Json)
    (h : objectType ≠ "workflow_cache") : Move workflow scope v
      {v with store := Function.update v.store (deterministicObjectId objectType value) (some value)} :=
  .put v _ value h

theorem GoesFrom.bind {m : Orch α} {f : α → Orch β} (hm : GoesFrom workflow scope v m w)
    (hf : ∀ a w', Reach workflow scope v w'.view → GoesFrom workflow scope v (f a) w') :
    GoesFrom workflow scope v (m >>= f) w := (wp_bind m f).mpr (wp_mono hm hf (fun _ _ h => h))

theorem goesFrom_pure (a : α) (hw : Reach workflow scope v w.view) :
    GoesFrom workflow scope v (pure a) w := hw

theorem goesFrom_readRun {f : WorkflowRun → Orch β}
    (h : GoesFrom workflow scope v (f w.run) w) : GoesFrom workflow scope v (readRun >>= f) w := h

variable {f : Unit → Orch β}

theorem goesFrom_modifyRun {g : WorkflowRun → WorkflowRun}
    (h : GoesFrom workflow scope v (f ()) {w with run := g w.run}) :
    GoesFrom workflow scope v (modifyRun g >>= f) w := h

theorem goesFrom_emitEvent {eventType : String} {nodeId : Option String} {actor : String}
    {payload : Option Json}
    (h : GoesFrom workflow scope v (f ()) (w.emitted eventType nodeId actor payload)) :
    GoesFrom workflow scope v (emitEvent eventType nodeId actor payload >>= f) w := h

theorem goesFrom_lift {r : WorkflowResult α} {f : α → Orch β} (hw : Reach workflow scope v w.view)
    (h : ∀ a, r = .ok a → GoesFrom workflow scope v (f a) w) :
    GoesFrom workflow scope v (lift r >>= f) w := (wp_bind _ _).mpr (wp_lift h (fun _ _ => hw))

variable (env : Env)

theorem wp_external {Q : Unit → World → Prop} {E : WorkflowError → World → Prop}
    (hok : Q () w.called) (herror : ∀ e, E e w.called) : wp (external env) Q E w := by
  unfold wp external
  cases env.outage w.calls with
  | none => exact hok
  | some e => exact herror e

section
variable (hw : Reach workflow scope v w.view)
include hw

theorem goesFrom_sync (h : GoesFrom workflow scope v (f ()) w.called) :
    GoesFrom workflow scope v (sync env >>= f) w:= (wp_bind _ _).mpr (wp_external env h (fun _ => hw))

theorem goesFrom_sync_last : GoesFrom workflow scope v (sync env) w:= wp_external env hw (fun _ => hw)

theorem goesFrom_putJson {objectType : String} {value : Json} {f : ObjectId → Orch β}
    (h : GoesFrom workflow scope v (f (deterministicObjectId objectType value))
      (w.called.stored (deterministicObjectId objectType value) value)) :
    GoesFrom workflow scope v (putJson env objectType value >>= f) w := by
  unfold GoesFrom putJson putJsonWithId
  rw [wp_bind,wp_bind,wp_bind]
  exact wp_external env h (fun _ => hw)

theorem goesFrom_scheduleThunk {scheduled : ScheduledThunk}
    (h : GoesFrom workflow scope v (f ()) {w.called with scheduled := w.scheduled ++ [scheduled]}) :
    GoesFrom workflow scope v (scheduleThunk env scheduled >>= f) w := by
  unfold GoesFrom scheduleThunk
  rw [wp_bind,wp_bind]
  exact wp_external env h (fun _ => hw)

end

theorem goesFrom_invoke {executor : ExecutorRef} {input : Json} {f : Except String Json → Orch β}
    (h : GoesFrom workflow scope v (f (env.invoke w.calls executor input))
      {w.called with
        invoked := w.invoked ++ [⟨executor,input,env.invoke w.calls executor input⟩]}) :
    GoesFrom workflow scope v (invoke env executor input >>= f) w := h

end Rules

section Resting
variable {workflow : CompiledWorkflow} {scope : Scope}

def CanRest (workflow : CompiledWorkflow) (scope : Scope) (v u : View) (nodeId : String) : Prop :=
  ∀ s, s ≠ .running ∧ s ≠ .ready →
    Reach workflow scope v {u with states := u.states.insert nodeId s}

theorem admits_of_isApply {v : View} {n : String} {s : NodeRunState}
    (hn : workflow.isApply n = true) (hs : s ≠ .running ∧ s ≠ .ready) : Admits workflow v n s := by
  cases s with
  | running => exact hs.1 rfl
  | ready => exact absurd rfl hs.2
  | pending => exact Or.inr (Or.inr hn)
  | completed | failed | retrying | waitingHuman | skipped | aborted | cancelled => trivial

theorem isApply_of_executor {node : CompiledNode} {executor : ExecutorRef}
    (hnode : workflow.nodes.get? node.id = some node) (hexecutor : node.executor? = some executor) :
    workflow.isApply node.id = true := by
  rw [CompiledWorkflow.isApply,hnode]
  simp [hexecutor]

theorem CanRest.tail {v u u' : View} {n : String} (h : CanRest workflow scope v u n)
    (hmove : ∀ s, Move workflow scope {u with states := u.states.insert n s}
      {u' with states := u'.states.insert n s}) : CanRest workflow scope v u' n :=
  fun s hs => (h s hs).tail (hmove s)

end Resting

/-- A node that is not running and, if all is tidy, none of whose shards was ever sent off. -/
def Unstarted (tidy : Prop) (v : View) (n : String) : Prop :=
  v.states.get? n ≠ some .running ∧
    (tidy → ∀ s ∈ v.scheduled, s.thunkObjId.forEach? ≠ some n)

variable {workflow : CompiledWorkflow} {scope : Scope} {v v' : View} {n : String}

theorem Reach.widen {wide : Scope} (hstarts : ∀ n, scope.starts n → wide.starts n)
    (hshards : ∀ n, scope.shards n → wide.shards n) (hoverrides : ∀ n, scope.overrides n → wide.overrides n)
    (hresets : ∀ n, scope.resets n → wide.resets n)
    (hfiles : ∀ id node input, scope.files id node input → wide.files id node input)
    (htidy : wide.tidy → scope.tidy) (h : Reach workflow scope v v') :
    Reach workflow wide v v' := by
  refine ReflTransGen.mono (fun u u' hmove => ?_) v v' h
  cases hmove with
  | start n hn => exact .start u n (hstarts n hn)
  | place n s hs hn => exact .place u n s hs hn
  | override n s hs hn hreset => exact .override u n s hs (hoverrides n hn) (fun h => hresets n (hreset h))
  | abort hn => exact .abort u (fun n => hoverrides n (hn n))
  | count n => exact .count u n
  | dispatch node runId input scheduled hnode hstart hidle hbuild =>
    exact .dispatch u node runId input scheduled hnode (hstarts _ hstart) hidle hbuild
  | dispatchShard n bodyStepId body runId index input attempt scheduled state hn hbegun happly hmap
      hpending hbuild =>
    exact .dispatchShard u n bodyStepId body runId index input attempt scheduled state
      (hshards n hn) (fun h => hbegun (htidy h)) happly hmap hpending hbuild
  | unpend id => exact .unpend u id
  | finish t s hs ht hshard happly => exact .finish u t s hs ht hshard happly
  | requeue t ht => exact .requeue u t ht
  | withdraw n s hs => exact .withdraw u n s hs
  | openPar n state hn => exact .openPar u n state hn
  | closePar n => exact .closePar u n
  | openMap n state hn hfresh => exact .openMap u n state hn (fun h => hfresh (htidy h))
  | adjustMap n state state' hmap hkeeps => exact .adjustMap u n state state' hmap hkeeps
  | closeMap n => exact .closeMap u n
  | put id value hid => exact .put u id value hid
  | invoke call => exact .invoke u call
  | report id output => exact .report u id output
  | keepAnswer node executor input output outputId metrics happly hcall =>
    exact .keepAnswer u node executor input output outputId metrics happly hcall
  | keepResult node id input output outputId metrics hnode hreport h =>
    exact .keepResult u node id input output outputId metrics hnode hreport (hfiles _ _ _ h)

/-- A node that has begun and does not execute itself begins anew only when it is reset. -/
theorem Reach.begun (h : Reach workflow scope v v') (happly : workflow.isApply n = false)
    (hresets : ¬ scope.resets n) (hn : Begun v n) :
    Begun v' n := by
  have hinsert : ∀ (u : View) (m : String) (s : NodeRunState), Begun u n →
      (m = n → s ≠ .pending ∧ s ≠ .ready) →
      ∃ s', (u.states.insert m s).get? n = some s' ∧ s' ≠ .pending ∧ s' ≠ .ready := by
    intro u m s hu hs
    rw [OrderedMap.get?_insert]
    split_ifs with hmn
    · exact ⟨s,rfl,hs hmn.symm⟩
    · exact hu
  induction h with
  | refl => exact hn
  | @tail u u' _ hmove ih =>
    cases hmove with
    | start m => exact hinsert u m _ ih (fun _ => by decide)
    | place m s hs =>
      refine hinsert u m s ih ?_
      rintro rfl
      obtain ⟨s',hget,hpending,hready⟩ := ih
      constructor
      · rintro rfl
        rcases hs with h | h | h
        · simp [hget] at h
        · exact hready (Option.some.inj (hget.symm.trans h))
        · simp [happly] at h
      · rintro rfl
        rcases hs with h | h
        · simp [hget] at h
        · exact hpending (Option.some.inj (hget.symm.trans h))
    | override m s hs _ hreset =>
      refine hinsert u m s ih ?_
      rintro rfl
      exact ⟨fun h => hresets (hreset h),hs.2⟩
    | abort =>
      obtain ⟨s,hget,hpending,hready⟩ := ih
      refine ⟨if s.live then .aborted else s,?_,?_⟩
      · show (u.states.mapValues _).get? n = _
        rw [OrderedMap.get?_mapValues,hget]
        rfl
      · split_ifs
        · decide
        · exact ⟨hpending,hready⟩
    | dispatch => exact hinsert u _ _ ih (fun _ => by decide)
    | finish t s hs _ _ htapply =>
      refine hinsert u _ s ih ?_
      intro hid
      rw [hid,happly] at htapply
      simp at htapply
    | withdraw m s hs => exact hinsert u m s ih (fun _ => ⟨hs.2.2,hs.2.1⟩)
    | count | dispatchShard | unpend | requeue | openPar | closePar | openMap | adjustMap
    | closeMap | put | invoke | report | keepAnswer | keepResult => exact ih

theorem Reach.unstarted (h : Reach workflow scope v v') (hstarts : ¬ scope.starts n)
    (hshards : ¬ scope.shards n) {tidy : Prop} (hn : Unstarted tidy v n) : Unstarted tidy v' n := by
  have hinsert : ∀ (u : View) (m : String) (s : NodeRunState), Unstarted tidy u n →
      (s = .running → m ≠ n) → (u.states.insert m s).get? n ≠ some .running := by
    intro u m s hu hs
    rw [OrderedMap.get?_insert]
    split_ifs with hmn
    · intro hget
      exact hs (Option.some.inj hget) hmn.symm
    · exact hu.1
  induction h with
  | refl => exact hn
  | @tail u u' _ hmove ih =>
    cases hmove with
    | start m hm => exact ⟨hinsert u m _ ih (fun _ hmn => hstarts (hmn ▸ hm)),ih.2⟩
    | place m s hs =>
      refine ⟨hinsert u m s ih ?_,ih.2⟩
      rintro rfl
      exact False.elim hs
    | override m s hs | withdraw m s hs => exact ⟨hinsert u m s ih (fun h => absurd h hs.1),ih.2⟩
    | abort =>
      refine ⟨?_,ih.2⟩
      show (u.states.mapValues _).get? n ≠ _
      rw [OrderedMap.get?_mapValues]
      intro hget
      obtain ⟨s,hs,hlive⟩ := Option.map_eq_some_iff.mp hget
      split_ifs at hlive with h
      rw [hlive] at hs
      exact ih.1 hs
    | dispatch node runId input scheduled _ hstart _ hbuild =>
      have hne : node.id ≠ n := fun hid => hstarts (hid ▸ hstart)
      refine ⟨hinsert u _ _ ih (fun _ => hne),?_⟩
      intro htidy s hs
      rcases List.mem_append.mp hs with hs | hs
      · exact ih.2 htidy s hs
      · obtain ⟨funId,hscheduled,-⟩ := buildThunk_ok hbuild
        rw [List.mem_singleton.mp hs,hscheduled]
        simp
    | dispatchShard m bodyStepId body runId index input attempt scheduled state hm _ _ _ _ hbuild =>
      have hne : m ≠ n := fun hid => hshards (hid ▸ hm)
      refine ⟨ih.1,?_⟩
      intro htidy s hs
      rcases List.mem_append.mp hs with hs | hs
      · exact ih.2 htidy s hs
      · obtain ⟨funId,hscheduled⟩ := buildShardThunk_ok hbuild
        rw [List.mem_singleton.mp hs,hscheduled,forEach?_shard]
        exact fun h => hne (Option.some.inj h)
    | finish t s hs => exact ⟨hinsert u _ s ih (fun h => absurd h hs.1),ih.2⟩
    | count | unpend | requeue | openPar | closePar | openMap | adjustMap | closeMap | put
    | invoke | report | keepAnswer | keepResult => exact ih

end BuckyOS.Workflow
