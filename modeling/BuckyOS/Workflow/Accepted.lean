import BuckyOS.Lib.Effects
import BuckyOS.Workflow.Compile

/-! What is known of a definition the compiler accepts: its ids are distinct, every id that an
edge, a parallel node or a `for_each` node names is the id of a node, and the compiled nodes are
those of its steps and control nodes. Branch paths are not looked at: a definition is closed
exactly if they name nodes as well. -/
namespace BuckyOS.Workflow
open List OrderedMap Except

variable (issues : List AnalysisIssue)

theorem errors_ofIssues : (AnalysisReport.ofIssues issues).errors =
      issues.filter (fun issue => issue.severity = .error) := by
  have hfold : ∀ (issues : List AnalysisIssue) (report : AnalysisReport),
      (issues.foldl AnalysisReport.push report).errors =
        report.errors ++ issues.filter (fun issue => issue.severity = .error) := by
    intro issues
    induction issues with
    | nil => simp
    | cons issue issues ih =>
      intro report
      rw [foldl_cons,ih,AnalysisReport.push]
      cases hseverity : issue.severity <;> simp [hseverity]
  exact hfold issues {}

def NoErrors : Prop :=
  ∀ issue ∈ issues, issue.severity ≠ .error

theorem hasErrors_ofIssues :
    (AnalysisReport.ofIssues issues).hasErrors = false ↔ NoErrors issues := by
  simp [AnalysisReport.hasErrors,errors_ofIssues,NoErrors]

@[simp] theorem noErrors_append {as bs : List AnalysisIssue} :
    NoErrors (as ++ bs) ↔ NoErrors as ∧ NoErrors bs := by
  simp [NoErrors,or_imp,forall_and]

@[simp] theorem noErrors_flatMap {α : Type} {items : List α} {f : α → List AnalysisIssue} :
    NoErrors (items.flatMap f) ↔ ∀ item ∈ items, NoErrors (f item) := by
  simp only [NoErrors,mem_flatMap]
  constructor
  · exact fun h item hitem issue hissue => h issue ⟨item,hitem,hissue⟩
  · rintro h issue ⟨item,hitem,hissue⟩
    exact h item hitem issue hissue

@[simp] theorem noErrors_require_error {test : Bool} {code message : String} {nodeId : Option String} :
    NoErrors (require test (issueError code message nodeId)) ↔ test = true := by
  cases test <;> simp [NoErrors,require,issueError]

/-- The passes of an analysis that decide about the structure of a definition. -/
structure Accepted (workflow : WorkflowDefinition) : Prop where
  nodes : NoErrors (registerNodes workflow).2
  parallels : NoErrors (validateParallelBranches workflow)
  references : NoErrors (collectReferences workflow).2
  edges : NoErrors (validateEdges workflow)
  cycles : NoErrors (validateCycles workflow (workflowGraph workflow))
  forEachs : NoErrors (validateForEach workflow)

variable {workflow : WorkflowDefinition}

theorem accepted_of_analyzeWorkflow {fuel : ℕ} {report : AnalysisReport}
    (h : analyzeWorkflow fuel workflow = some report) (herrors : report.hasErrors = false) :
    Accepted workflow := by
  obtain ⟨issues,hissues,rfl⟩ := Option.map_eq_some_iff.mp h
  rw [hasErrors_ofIssues] at herrors
  simp only [analysisIssues,Option.bind_eq_bind,Option.bind_eq_some_iff] at hissues
  obtain ⟨references,-,subjects,-,skips,-,hall⟩ := hissues
  obtain rfl := Option.some.inj hall
  simp only [noErrors_append] at herrors
  obtain ⟨⟨⟨⟨⟨⟨⟨⟨⟨⟨⟨⟨⟨⟨⟨-,hnodes⟩,-⟩,hparallels⟩,hreferences⟩,hedges⟩,-⟩,-⟩,-⟩,hcycles⟩,-⟩,
    -⟩,-⟩,-⟩,-⟩,hforEachs⟩ := herrors
  exact ⟨hnodes,hparallels,hreferences,hedges,hcycles,hforEachs⟩

def definedIds (workflow : WorkflowDefinition) : List String :=
  workflow.steps.map (fun step => step.id) ++ workflow.nodes.map (fun node => node.id)

theorem definedIds_eq (workflow : WorkflowDefinition) :
    definedIds workflow = (nodeEntries workflow).map Prod.fst := by
  simp [definedIds,nodeEntries,Function.comp_def]

theorem registerNodes_fold (entries : List (String × NodeEntry)) (acc : NodeMap × List AnalysisIssue) :
    ((entries.foldl registerNode acc).1 = entries.foldl (fun m e => m.insert e.1 e.2) acc.1) ∧
      (NoErrors (entries.foldl registerNode acc).2 →
        (entries.map Prod.fst).Nodup ∧ ∀ e ∈ entries, e.1 ∉ acc.1.keys) := by
  induction entries generalizing acc with
  | nil => exact ⟨rfl,fun _ => ⟨nodup_nil,by simp⟩⟩
  | cons entry entries ih =>
    obtain ⟨hmap,hnodup⟩ := ih (registerNode acc entry)
    refine ⟨hmap,?_⟩
    intro herrors
    obtain ⟨hrest,hfresh⟩ := hnodup herrors
    have hsub : ∀ (entries : List (String × NodeEntry)) (acc : NodeMap × List AnalysisIssue),
        NoErrors (entries.foldl registerNode acc).2 → NoErrors acc.2 := by
      intro entries
      induction entries with
      | nil => exact fun _ h => h
      | cons e es ih =>
        intro acc h
        have hnext := ih _ h
        rw [registerNode,noErrors_append] at hnext
        exact hnext.1
    have hentry := hsub entries _ herrors
    rw [registerNode,noErrors_append,noErrors_require_error,decide_eq_true_eq] at hentry
    have hkeys : ∀ k, k ∉ (registerNode acc entry).1.keys → k ≠ entry.1 ∧ k ∉ acc.1.keys := by
      intro k hk
      rw [registerNode,mem_keys_insert,not_or] at hk
      exact hk
    refine ⟨?_,?_⟩
    · rw [map_cons,nodup_cons]
      refine ⟨?_,hrest⟩
      intro hmem
      obtain ⟨e,he,hid⟩ := mem_map.mp hmem
      exact (hkeys e.1 (hfresh e he)).1 hid
    · intro e he
      rcases mem_cons.mp he with rfl | he
      · exact hentry.2
      · exact (hkeys e.1 (hfresh e he)).2

theorem nodeMap_eq (workflow : WorkflowDefinition) :
    nodeMap workflow = OrderedMap.ofList (nodeEntries workflow) :=
  (registerNodes_fold (nodeEntries workflow) (.empty,[])).1

variable {nodeId : String}

@[simp] theorem mem_nodeMap_keys : nodeId ∈ (nodeMap workflow).keys ↔ nodeId ∈ definedIds workflow := by
  rw [nodeMap_eq,mem_keys_ofList,definedIds_eq]

theorem mem_definedIds_of_step? (h : ((nodeMap workflow).step? nodeId).isSome) :
    nodeId ∈ definedIds workflow := by
  rw [← mem_nodeMap_keys,mem_keys_iff]
  rw [NodeMap.step?] at h
  cases hget : (nodeMap workflow).get? nodeId with
  | none => simp [hget] at h
  | some entry => exact ⟨entry,rfl⟩

namespace Accepted
variable {workflow : WorkflowDefinition}

theorem nodup (h : Accepted workflow) : (definedIds workflow).Nodup :=
  definedIds_eq workflow ▸ ((registerNodes_fold (nodeEntries workflow) (.empty,[])).2 h.nodes).1

theorem edge_defined (h : Accepted workflow) {source target : String}
    (hedge : ⟨source,some target⟩ ∈ workflow.edges) : target ∈ definedIds workflow := by
  have hissues := h.edges
  rw [validateEdges,noErrors_flatMap] at hissues
  have hto := (noErrors_append.mp (hissues _ hedge)).2
  rwa [noErrors_require_error,decide_eq_true_eq,mem_nodeMap_keys] at hto

theorem parallel_branch_defined (h : Accepted workflow) {parallel : ParallelNodeDefinition}
    (hnode : .parallel parallel ∈ workflow.nodes) {branchId : String}
    (hbranch : branchId ∈ parallel.branches) : ((nodeMap workflow).step? branchId).isSome := by
  have hissues := h.parallels
  rw [validateParallelBranches,noErrors_flatMap] at hissues
  have hbranches := hissues _ hnode
  rw [noErrors_flatMap] at hbranches
  exact noErrors_require_error.mp (hbranches branchId hbranch)

/-- An accepted `for_each` has a readable source, at least one step, and only steps. -/
theorem forEach_sound (h : Accepted workflow) {forEach : ForEachNodeDefinition}
    (hnode : .forEach forEach ∈ workflow.nodes) :
    (RefPath.parse forEach.items).isSome ∧ forEach.steps ≠ [] ∧
      ∀ stepId ∈ forEach.steps, ((nodeMap workflow).step? stepId).isSome := by
  have hreadable : (RefPath.parse forEach.items).isSome := by
    have hissues := h.references
    rw [collectReferences,noErrors_flatMap] at hissues
    have hrefs := hissues ((ControlNodeDefinition.forEach forEach).id,
      controlReferences (.forEach forEach)) (mem_append_right _ (mem_map.mpr ⟨_,hnode,rfl⟩))
    cases hparse : RefPath.parse forEach.items with
    | some reference => rfl
    | none => simp [controlReferences,readRef,hparse,NoErrors,issueError] at hrefs
  obtain ⟨reference,hreference⟩ := Option.isSome_iff_exists.mp hreadable
  have hissues := h.forEachs
  rw [validateForEach,noErrors_flatMap] at hissues
  have hforEach := hissues _ hnode
  simp only [hreference,noErrors_append,noErrors_require_error,noErrors_flatMap] at hforEach
  refine ⟨hreadable,?_,hforEach.2⟩
  simpa using hforEach.1.2

end Accepted

section Compiled
variable {hashExecutor : String → String} {workflow : WorkflowDefinition}
  {nodes : List CompiledNode} {step : StepDefinition}

theorem compileStepNode_ok {node : CompiledNode} (h : compileStepNode hashExecutor step = .ok node) :
    ∃ expr, compileStep hashExecutor step = .ok expr ∧
      node = ⟨step.id,step.name,expr,some step.outputSchema,step.skippable,step.idempotent⟩ := by
  obtain ⟨expr,hexpr,hnode⟩ := bind_eq_ok_iff.mp h
  exact ⟨expr,hexpr,(ok.inj hnode).symm⟩

theorem compileControlNode_ok {control : ControlNodeDefinition} {node : CompiledNode}
    (h : compileControlNode workflow control = .ok node) :
    ∃ expr schema, compileControlExpr workflow control = .ok (expr,schema) ∧
      node = ⟨control.id,control.id,expr,some schema,false,true⟩ := by
  obtain ⟨⟨expr,schema⟩,hexpr,hnode⟩ := bind_eq_ok_iff.mp h
  exact ⟨expr,schema,hexpr,(ok.inj hnode).symm⟩

theorem compileStep_ok {expr : Expr} (h : compileStep hashExecutor step = .ok expr) :
    (∃ executor params, stepExecutor step = .ok executor ∧ compileParams step.input = .ok params ∧
      expr = .apply executor (functionId hashExecutor executor) params step.outputMode
        step.idempotent step.stepType (step.guards.getD {})) ∨
    ∃ kind, expr = .await kind (step.subjectRef.bind RefPath.parse) step.prompt step.outputSchema := by
  rw [compileStep] at h
  split at h
  · obtain ⟨executor,hexecutor,h⟩ := bind_eq_ok_iff.mp h
    obtain ⟨params,hparams,h⟩ := bind_eq_ok_iff.mp h
    exact .inl ⟨executor,params,hexecutor,hparams,(ok.inj h).symm⟩
  · exact .inr ⟨_,(ok.inj h).symm⟩
  · exact .inr ⟨_,(ok.inj h).symm⟩

theorem compileNodes_ok (h : compileNodes hashExecutor workflow = .ok nodes) :
    ∃ steps controls, nodes = steps ++ controls ∧
      workflow.steps.mapM (compileStepNode hashExecutor) = .ok steps ∧
      workflow.nodes.mapM (compileControlNode workflow) = .ok controls := by
  obtain ⟨steps,hsteps,hrest⟩ := bind_eq_ok_iff.mp h
  obtain ⟨controls,hcontrols,hnodes⟩ := bind_eq_ok_iff.mp hrest
  exact ⟨steps,controls,(ok.inj hnodes).symm,hsteps,hcontrols⟩

theorem compileNodes_ids (h : compileNodes hashExecutor workflow = .ok nodes) :
    nodes.map (fun node => node.id) = definedIds workflow := by
  obtain ⟨steps,controls,rfl,hsteps,hcontrols⟩ := compileNodes_ok h
  rw [map_append,definedIds]
  congr 1
  · apply map_of_mapM hsteps
    intro step node hnode
    obtain ⟨expr,-,rfl⟩ := compileStepNode_ok hnode
    rfl
  · apply map_of_mapM hcontrols
    intro control node hnode
    obtain ⟨expr,schema,-,rfl⟩ := compileControlNode_ok hnode
    rfl

end Compiled

/-- A workflow the compiler has accepted, with the definition it comes from. -/
structure Compiled (hashExecutor : String → String) (workflow : CompiledWorkflow) : Prop where
  accepted : Accepted workflow.definition
  graph : workflow.graph = workflowGraph workflow.definition
  nodes : ∃ nodes, compileNodes hashExecutor workflow.definition = .ok nodes ∧
    workflow.nodes = OrderedMap.ofList (nodes.map (fun node => (node.id,node)))

theorem compiled_of_compileWorkflow {hashExecutor : String → String} {fuel : ℕ}
    {definition : WorkflowDefinition} {output : CompileOutput}
    (h : compileWorkflow hashExecutor fuel definition = some (.ok output)) :
    Compiled hashExecutor output.workflow ∧ output.workflow.definition = definition := by
  obtain ⟨report,hreport,hresult⟩ := Option.map_eq_some_iff.mp h
  split at hresult
  · simp at hresult
  · rename_i herrors
    obtain ⟨nodes,hnodes,hout⟩ := bind_eq_ok_iff.mp hresult
    obtain rfl := ok.inj hout
    exact ⟨⟨accepted_of_analyzeWorkflow hreport (by simpa using herrors),rfl,nodes,hnodes,rfl⟩,rfl⟩

namespace Compiled
variable {hashExecutor : String → String} {workflow : CompiledWorkflow}

theorem mem_nodes_keys (h : Compiled hashExecutor workflow) :
    nodeId ∈ workflow.nodes.keys ↔ nodeId ∈ definedIds workflow.definition := by
  obtain ⟨nodes,hnodes,heq⟩ := h.nodes
  rw [heq,mem_keys_ofList,map_map,← compileNodes_ids hnodes]
  rfl

theorem nodes_get? (h : Compiled hashExecutor workflow) {node : CompiledNode} :
    workflow.nodes.get? nodeId = some node ↔ node.id = nodeId ∧
      ((∃ step ∈ workflow.definition.steps, compileStepNode hashExecutor step = .ok node) ∨
        ∃ control ∈ workflow.definition.nodes, compileControlNode workflow.definition control = .ok node) := by
  obtain ⟨nodes,hnodes,heq⟩ := h.nodes
  have hkeys : ((nodes.map (fun node => (node.id,node))).map Prod.fst).Nodup := by
    rw [map_map]
    exact compileNodes_ids hnodes ▸ h.accepted.nodup
  rw [heq,get?_ofList hkeys,mem_map]
  obtain ⟨steps,controls,rfl,hsteps,hcontrols⟩ := compileNodes_ok hnodes
  constructor
  · rintro ⟨node',hnode',hpair⟩
    obtain ⟨rfl,rfl⟩ := Prod.mk.inj hpair
    rw [mem_append,mem_of_mapM hsteps,mem_of_mapM hcontrols] at hnode'
    exact ⟨rfl,hnode'⟩
  · rintro ⟨rfl,hnode⟩
    rw [← mem_of_mapM hsteps,← mem_of_mapM hcontrols,← mem_append] at hnode
    exact ⟨node,hnode,rfl⟩

theorem keyed (h : Compiled hashExecutor workflow) : workflow.Keyed :=
  fun _ _ hnode => (h.nodes_get?.mp hnode).1

end Compiled
end BuckyOS.Workflow
