import BuckyOS.Workflow.Calls
import BuckyOS.Workflow.Closure

/-! Runs of a workflow from their creation, and where their thunks come from: every pending thunk
was sent off, and was built for the node it is pending for. -/
namespace BuckyOS.Workflow
open Fallible Relation Registry

/-- What a thunk is built from: a node of the workflow, or a shard of one that does not execute
itself. -/
inductive Source (workflow : CompiledWorkflow) (s : ScheduledThunk) : Prop
  | node (node : CompiledNode) (runId : String) (input : Json) (attempt : ℕ)
    (hnode : workflow.nodes.get? node.id = some node)
    (hbuild : buildThunk runId node input attempt = .ok s)
  | shard (n bodyStepId : String) (body : CompiledNode) (runId : String) (index : ℕ) (input : Json)
    (attempt : ℕ) (hbuild : buildShardThunk runId body n bodyStepId index input attempt = .ok s)
    (hn : workflow.isApply n = false)

structure Traced (workflow : CompiledWorkflow) (v : View) : Prop where
  source : ∀ s ∈ v.scheduled, Source workflow s
  sent : ∀ t ∈ v.thunks.items, t.thunkObjId ∈ v.scheduled.map ScheduledThunk.thunkObjId
  owner : ∀ t ∈ v.thunks.items, t.thunkObjId.owner? = some t.nodeId ∧
    t.thunkObjId.forEach? = t.shardIndex.map (fun _ => t.nodeId)

section
variable {workflow : CompiledWorkflow} {v v' : View} {s : ScheduledThunk} {n : String} {scope : Scope}

theorem Source.of_forEach (h : Source workflow s) (hs : s.thunkObjId.forEach? = some n) :
    workflow.isApply n = false := by
  cases h with
  | node node runId input attempt hnode hbuild =>
    obtain ⟨funId,hscheduled,-⟩ := buildThunk_ok hbuild
    rw [hscheduled,forEach?_node] at hs
    simp at hs
  | shard m bodyStepId body runId index input attempt hbuild hm =>
    obtain ⟨funId,hscheduled⟩ := buildShardThunk_ok hbuild
    rw [hscheduled,forEach?_shard,Option.some.injEq] at hs
    exact hs ▸ hm

theorem Source.of_owner (h : Source workflow s) (hs : s.thunkObjId.forEach? = none)
    (howner : s.thunkObjId.owner? = some n) :
    ∃ node runId input attempt, workflow.nodes.get? n = some node ∧
      buildThunk runId node input attempt = .ok s := by
  cases h with
  | node node runId input attempt hnode hbuild =>
    obtain ⟨funId,hscheduled,-⟩ := buildThunk_ok hbuild
    rw [hscheduled,owner?_node,Option.some.injEq] at howner
    exact ⟨node,runId,input,attempt,howner ▸ hnode,hbuild⟩
  | shard m bodyStepId body runId index input attempt hbuild hm =>
    obtain ⟨funId,hscheduled⟩ := buildShardThunk_ok hbuild
    rw [hscheduled,forEach?_shard] at hs
    simp at hs

namespace Traced
variable {t : PendingThunk}

theorem apply (h : Traced workflow v)
    (hids : workflow.Keyed)
    (ht : t ∈ v.thunks.items) (hshard : t.shardIndex = none) : workflow.isApply t.nodeId = true := by
  obtain ⟨s,hs,hid⟩ := List.mem_map.mp (h.sent t ht)
  obtain ⟨howner,hforEach⟩ := h.owner t ht
  rw [← hid,hshard] at hforEach
  rw [← hid] at howner
  obtain ⟨node,runId,input,attempt,hnode,hbuild⟩ := (h.source s hs).of_owner hforEach howner
  obtain ⟨funId,-,executor,params,mode,idempotent,stepType,guards,hexpr⟩ := buildThunk_ok hbuild
  have hid := hids _ _ hnode
  exact hid ▸ isApply_of_executor (hid ▸ hnode) (by rw [CompiledNode.executor?,hexpr])

theorem shard (h : Traced workflow v) (ht : t ∈ v.thunks.items) (hshard : t.shardIndex ≠ none) :
    t.thunkObjId.forEach? = some t.nodeId ∧ workflow.isApply t.nodeId = false := by
  obtain ⟨s,hs,hid⟩ := List.mem_map.mp (h.sent t ht)
  obtain ⟨index,hindex⟩ := Option.ne_none_iff_exists'.mp hshard
  have hforEach : t.thunkObjId.forEach? = some t.nodeId := by
    rw [(h.owner t ht).2,hindex]
    rfl
  exact ⟨hforEach,(h.source s hs).of_forEach (hid ▸ hforEach)⟩

theorem filed (h : Traced workflow v)
    (hids : workflow.Keyed) {tidy : Prop}
    (ht : t ∈ v.thunks.items) (hbegun : tidy → t.shardIndex ≠ none → Begun v t.nodeId) :
    Filed workflow tidy v t :=
  ⟨h.apply hids ht,fun hshard => ⟨(h.shard ht hshard).2,fun h => hbegun h hshard⟩⟩

theorem of_sub (h : Traced workflow v) (hthunks : ∀ t ∈ v'.thunks.items, t ∈ v.thunks.items)
    (hscheduled : v'.scheduled = v.scheduled) : Traced workflow v' where
  source := hscheduled ▸ h.source
  sent t ht := hscheduled ▸ h.sent t (hthunks t ht)
  owner t ht := h.owner t (hthunks t ht)

theorem addThunk (h : Traced workflow v) {scheduled : ScheduledThunk}
    (hthunks : v'.thunks = v.thunks.insert t) (hscheduled : v'.scheduled = v.scheduled ++ [scheduled])
    (hid : t.thunkObjId = scheduled.thunkObjId)
    (howner : t.thunkObjId.owner? = some t.nodeId ∧ t.thunkObjId.forEach? = t.shardIndex.map (fun _
      => t.nodeId)) (hsource : Source workflow scheduled) : Traced workflow v' := by
  have hmem : ∀ {t'}, t' ∈ v'.thunks.items → t' = t ∨ t' ∈ v.thunks.items := by
    intro t' ht'
    rw [hthunks] at ht'
    exact ((mem_insert _).mp ht').imp_right And.left
  refine ⟨?_,?_,?_⟩
  · intro s hs
    rw [hscheduled] at hs
    rcases List.mem_append.mp hs with hs | hs
    · exact h.source s hs
    · exact List.mem_singleton.mp hs ▸ hsource
  · intro t' ht'
    rw [hscheduled,List.map_append,List.mem_append]
    rcases hmem ht' with rfl | ht'
    · exact Or.inr (by simp [hid])
    · exact Or.inl (h.sent t' ht')
  · intro t' ht'
    rcases hmem ht' with rfl | ht'
    · exact howner
    · exact h.owner t' ht'

end Traced

theorem Move.traced (hmove : Move workflow scope v v') (h : Traced workflow v) :
    Traced workflow v' := by
  cases hmove with
  | dispatch node runId input scheduled hnode hstart hidle hbuild =>
    obtain ⟨funId,hscheduled,-⟩ := buildThunk_ok hbuild
    refine h.addThunk rfl rfl rfl ?_ (.node node runId input _ hnode hbuild)
    rw [hscheduled]
    exact ⟨owner?_node ..,forEach?_node ..⟩
  | dispatchShard n bodyStepId body runId index input attempt scheduled state hn hbegun happly hmap
      hpending hbuild =>
    obtain ⟨funId,hscheduled⟩ := buildShardThunk_ok hbuild
    refine h.addThunk rfl rfl rfl ?_ (.shard n bodyStepId body runId index input attempt hbuild happly)
    rw [hscheduled]
    exact ⟨owner?_shard ..,forEach?_shard ..⟩
  | unpend | finish => exact h.of_sub (fun t ht => ((mem_erase _).mp ht).1) rfl
  | requeue t ht =>
    refine h.of_sub ?_ rfl
    intro t' ht'
    rcases (mem_insert _).mp ht' with rfl | ⟨ht',-⟩
    · exact ((find?_eq_some_iff _).mp ht).1
    · exact ((mem_erase _).mp ht').1
  | withdraw n s hs => exact h.of_sub (fun t ht => (List.mem_filter.mp ht).1) rfl
  | _ => exact h.of_sub (fun _ ht => ht) rfl

theorem Reach.traced (hreach : Reach workflow scope v v') (h : Traced workflow v) :
    Traced workflow v' := by
  induction hreach with
  | refl => exact h
  | tail _ hmove ih => exact hmove.traced ih

end

section Runs
variable (env : Env) (workflow : CompiledWorkflow)

structure RunStart where
  runId : String
  metrics : OrderedMap String Json := .empty
  store : ObjectId → Option Json := fun _ => none

variable (start : RunStart)

def createdWorld : World :=
  (createRun env workflow start.runId start.metrics
    {run := newRun workflow start.runId start.metrics, store := start.store}).2

def reached (operations : List Operation) : World :=
  (Machine.run (step env workflow) (createdWorld env workflow start) operations).2

theorem createdWorld_view : (createdWorld env workflow start).view =
    World.view {run := newRun workflow start.runId start.metrics, store := start.store} := by
  refine (wp_state (P := fun w : World => w.view =
    World.view {run := newRun workflow start.runId start.metrics, store := start.store})).mp ?_
  unfold createRun answering
  rw [wp_bind,wp_update,wp_bind]
  exact wp_external env rfl fun _ => rfl

theorem traced_created : Traced workflow (createdWorld env workflow start).view := by
  rw [createdWorld_view]
  have hthunks : ∀ t, t ∉ (empty : Registry PendingThunk.thunkObjId).items :=
    fun t ht => by simp [empty] at ht
  exact ⟨fun s hs => absurd hs List.not_mem_nil,fun t ht => absurd ht (hthunks t),
    fun t ht => absurd ht (hthunks t)⟩

variable {workflow} (hids : workflow.Keyed)

include hids

theorem step_moves {w : World} (h : Traced workflow w.view) (operation : Operation) :
    Reach workflow (callScope workflow False w operation) w.view (step env workflow w operation).2.view :=
  step_reach env operation hids False.elim fun _ ht => h.filed hids ht False.elim

theorem step_traced {w : World} (h : Traced workflow w.view) (operation : Operation) :
    Traced workflow (step env workflow w operation).2.view :=
  Reach.traced (step_moves env hids h operation) h

theorem reached_traced (start : RunStart) (operations : List Operation) :
    Traced workflow (reached env workflow start operations).view :=
  Machine.run_invariant (I := fun w : World => Traced workflow w.view)
    (fun _ operation h => step_traced env hids h operation) (traced_created env workflow start) operations

end Runs

def functionStep (id : String) (input : Option Json) : StepDefinition :=
  {serviceStep id with
    executor := some "func::f"
    input := input}

/-- Two functions, the second on the output of the first. -/
def chainDefinition : WorkflowDefinition where
  schemaVersion := "0.1"
  id := "wf-chain"
  name := "chain"
  steps := [functionStep "first" none,
    functionStep "second" (some (Json.ofFields [("value",.string "$\x7bfirst.output\x7d")]))]
  edges := [⟨"first",some "second"⟩,⟨"second",none⟩]

/-- Nothing fails and nothing is executed directly. -/
def quietEnv : Env where
  invoke := fun _ _ _ => .ok .null

def worldAfter (env : Env) (workflow : CompiledWorkflow) (operations : List Operation) : World :=
  reached env workflow ⟨"run",.empty,fun _ => none⟩ operations

def done (t : PendingThunk) (output : Json) : Operation :=
  .thunkResult {thunkObjId := t.thunkObjId, status := .success, result := some output}

def skipFirst : HumanAction where
  nodeId := "first"
  action := .skip

end BuckyOS.Workflow
