import BuckyOS.Workflow.Accepted

/-! Whether the orchestrator can meet an unknown node id. It follows edges, the cases of a match,
the branches of a parallel node and the steps of a `for_each`; all but the cases are checked. -/
namespace BuckyOS.Workflow
open WorkflowGraph

def Expr.targets : Expr → List String
  | .matchOn _ cases _ => cases.values
  | .par branches _ => branches
  | .map _ steps _ _ _ => steps
  | _ => []

/-- The node ids a run can get to from a compiled workflow. -/
def followedIds (workflow : CompiledWorkflow) : List String :=
  workflow.graph.startNodes ++ workflow.graph.explicitSuccessors.values.flatten ++
    workflow.nodes.values.flatMap (fun node => node.expr.targets)

def Closed (workflow : CompiledWorkflow) : Prop :=
  ∀ nodeId ∈ followedIds workflow, nodeId ∈ workflow.nodes.keys

instance (workflow : CompiledWorkflow) : Decidable (Closed workflow) :=
  inferInstanceAs (Decidable (∀ nodeId ∈ followedIds workflow, nodeId ∈ workflow.nodes.keys))

/-- Every branch path leads to a step or a control node. -/
def PathsDefined (definition : WorkflowDefinition) : Prop :=
  ∀ branch, .branch branch ∈ definition.nodes →
    ∀ target ∈ branch.paths.values, target ∈ definedIds definition

variable {hashExecutor : String → String} {workflow : CompiledWorkflow}

namespace Compiled
section
variable (h : Compiled hashExecutor workflow)
include h

theorem explicit_defined {nodeId : String}
    (hnode : nodeId ∈ workflow.graph.explicitSuccessors.values.flatten) :
    nodeId ∈ definedIds workflow.definition := by
  obtain ⟨targets,htargets,hmem⟩ := List.mem_flatten.mp hnode
  obtain ⟨source,hsource⟩ := (OrderedMap.mem_values_iff _ _).mp htargets
  have hedge : nodeId ∈ workflow.graph.explicitSuccessorsOf source := by
    rw [explicitSuccessorsOf,hsource]
    exact hmem
  rw [h.graph,workflowGraph,(built_fromDefinition _ _).explicit,mem_edgeArcs] at hedge
  exact h.accepted.edge_defined hedge

theorem targets_cases {key nodeId : String} {node : CompiledNode}
    (hnode : workflow.nodes.get? key = some node) (htarget : nodeId ∈ node.expr.targets) :
    nodeId ∈ definedIds workflow.definition ∨
      ∃ branch, .branch branch ∈ workflow.definition.nodes ∧ nodeId ∈ branch.paths.values := by
  obtain ⟨-,⟨step,-,hstep⟩ | ⟨control,hcontrol,hcompiled⟩⟩ := h.nodes_get?.mp hnode
  · obtain ⟨expr,hexpr,rfl⟩ := compileStepNode_ok hstep
    obtain ⟨executor,params,-,-,rfl⟩ | ⟨kind,rfl⟩ := compileStep_ok hexpr
    · simp [Expr.targets] at htarget
    · simp [Expr.targets] at htarget
  · obtain ⟨expr,schema,hexpr,rfl⟩ := compileControlNode_ok hcompiled
    cases control with
    | branch branch =>
      rw [compileControlExpr] at hexpr
      split at hexpr
      · obtain ⟨rfl,-⟩ := Prod.mk.inj (Except.ok.inj hexpr)
        exact .inr ⟨branch,hcontrol,htarget⟩
      · simp at hexpr
    | parallel parallel =>
      obtain ⟨rfl,-⟩ := Prod.mk.inj (Except.ok.inj hexpr)
      exact .inl (mem_definedIds_of_step? (h.accepted.parallel_branch_defined hcontrol htarget))
    | forEach forEach =>
      rw [compileControlExpr] at hexpr
      split at hexpr
      · obtain ⟨rfl,-⟩ := Prod.mk.inj (Except.ok.inj hexpr)
        exact .inl (mem_definedIds_of_step? ((h.accepted.forEach_sound hcontrol).2.2 nodeId htarget))
      · simp at hexpr

theorem branch_followed {branch : BranchNodeDefinition}
    (hbranch : .branch branch ∈ workflow.definition.nodes) {target : String}
    (htarget : target ∈ branch.paths.values) : target ∈ followedIds workflow := by
  obtain ⟨nodes,hnodes,-⟩ := h.nodes
  obtain ⟨steps,controls,-,-,hcontrols⟩ := compileNodes_ok hnodes
  obtain ⟨node,hnode⟩ := exists_of_mapM hcontrols hbranch
  obtain ⟨expr,schema,hexpr,rfl⟩ := compileControlNode_ok hnode
  have hget := h.nodes_get?.mpr ⟨rfl,.inr ⟨_,hbranch,hnode⟩⟩
  rw [compileControlExpr] at hexpr
  split at hexpr
  · obtain ⟨rfl,-⟩ := Prod.mk.inj (Except.ok.inj hexpr)
    rw [followedIds,List.mem_append,List.mem_flatMap]
    exact .inr ⟨_,(OrderedMap.mem_values_iff _ _).mpr ⟨_,hget⟩,htarget⟩
  · simp at hexpr

theorem closed_iff : Closed workflow ↔ PathsDefined workflow.definition := by
  constructor
  · intro hclosed branch hbranch target htarget
    exact h.mem_nodes_keys.mp (hclosed target (h.branch_followed hbranch htarget))
  · intro hpaths nodeId hnode
    rw [h.mem_nodes_keys]
    rw [followedIds,List.mem_append,List.mem_append,List.mem_flatMap] at hnode
    rcases hnode with (hstart | hedge) | ⟨node,hnode,htarget⟩
    · rw [h.graph,workflowGraph,mem_startNodes,mem_nodeMap_keys] at hstart
      exact hstart.1
    · exact h.explicit_defined hedge
    · obtain ⟨key,hkey⟩ := (OrderedMap.mem_values_iff _ _).mp hnode
      rcases h.targets_cases hkey htarget with hdefined | ⟨branch,hbranch,hpath⟩
      · exact hdefined
      · exact hpaths branch hbranch nodeId hpath

end

end Compiled

/-- A compiled workflow is closed exactly if every branch path of its definition leads to a step
or a control node; all other ids a run can get to are checked by the analysis. -/
theorem compileWorkflow_closed_iff {fuel : ℕ} {definition : WorkflowDefinition}
    {output : CompileOutput} (h : compileWorkflow hashExecutor fuel definition = some (.ok output)) :
    Closed output.workflow ↔ PathsDefined definition := by
  obtain ⟨hcompiled,rfl⟩ := compiled_of_compileWorkflow h
  exact hcompiled.closed_iff

def serviceStep (id : String) : StepDefinition where
  id := id
  name := id
  executor := some "service::app.run"
  stepType := .autonomous
  outputSchema := Json.ofFields [("type",.string "object"),
    ("properties",Json.ofFields [("choice",Json.ofFields [("type",.string "string")])])]

/-- Ask, then go on with the work or to where a second path leads. -/
def askDefinition (otherwise : String) : WorkflowDefinition where
  schemaVersion := "0.1"
  id := "wf-ask"
  name := "ask"
  steps := [serviceStep "ask",serviceStep "work",serviceStep "rest"]
  nodes := [.branch {
    id := "route"
    on := "$\x7bask.output.choice\x7d"
    paths := OrderedMap.ofList [("yes","work"),("no",otherwise)]
    maxIterations := 1}]
  edges := [⟨"ask",some "route"⟩,⟨"ask",some "rest"⟩,⟨"work",none⟩,⟨"rest",none⟩]

def compiled? (definition : WorkflowDefinition) : Option CompiledWorkflow :=
  match compileWorkflow id 1 definition with
  | some (.ok output) => some output.workflow
  | _ => none

/-- What the compiled workflow of a definition is computed to satisfy. -/
theorem exists_compiled (definition : WorkflowDefinition) {P : CompiledWorkflow → Prop}
    [DecidablePred P] (h : (compiled? definition).any (fun workflow => decide (P workflow)) = true) :
    ∃ output, compileWorkflow id 1 definition = some (.ok output) ∧ P output.workflow := by
  obtain ⟨workflow,hworkflow,hP⟩ := (Option.any_eq_true _ _).mp h
  rw [compiled?] at hworkflow
  split at hworkflow
  · rename_i output hout
    obtain rfl := Option.some.inj hworkflow
    exact ⟨output,hout,of_decide_eq_true hP⟩
  · simp at hworkflow

theorem exists_output {definition : WorkflowDefinition} {P : CompileOutput → Prop} [DecidablePred P]
    (h : ((compileWorkflow id 1 definition).bind Except.toOption).any
      (fun output => decide (P output)) = true) :
    ∃ output, compileWorkflow id 1 definition = some (.ok output) ∧ P output := by
  cases hout : compileWorkflow id 1 definition with
  | none => simp [hout] at h
  | some result =>
    cases result with
    | error error => simp [hout,Except.toOption] at h
    | ok output => exact ⟨output,rfl,by simpa [hout,Except.toOption] using h⟩

theorem compileWorkflow_closed_ask :
    ∃ output, compileWorkflow id 1 (askDefinition "rest") = some (.ok output) ∧
      Closed output.workflow := by
  obtain ⟨output,hout,-⟩ := exists_compiled (askDefinition "rest") (P := fun _ => True)
    (by decide +kernel)
  refine ⟨output,hout,(compileWorkflow_closed_iff hout).mpr ?_⟩
  intro branch hbranch
  obtain rfl := ControlNodeDefinition.branch.inj (List.mem_singleton.mp hbranch)
  decide

/-- The analysis accepts a branch with a path to a node that does not exist. -/
theorem compileWorkflow_not_closed :
    ∃ output, compileWorkflow id 1 (askDefinition "ghost") = some (.ok output) ∧
      "ghost" ∈ followedIds output.workflow ∧ "ghost" ∉ output.workflow.nodes.keys :=
  exists_output (by decide +kernel)

end BuckyOS.Workflow
