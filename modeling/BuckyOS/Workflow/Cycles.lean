import BuckyOS.Workflow.Closure

/-! Which cycles of an accepted definition are bounded. The analysis asks each component of the
graph for one bounded branch, so a component with several cycles may have a cycle without one. -/
namespace BuckyOS.Workflow
open List

open WorkflowGraph (edgeArcs controlArcs arcs)

variable (definition : WorkflowDefinition)

def flowArcs : List (String × String) :=
  edgeArcs definition ++ definition.nodes.flatMap (fun
    | .branch branch => controlArcs (.branch branch)
    | _ => [])

def FlowCycle (start : String) (path : List String) : Prop :=
  List.IsChain (fun u v => (u,v) ∈ flowArcs definition) (start :: (path ++ [start]))

/-- Every cycle passes through a branch with a positive `max_iterations`. -/
def CyclesBounded : Prop :=
  ∀ start path, FlowCycle definition start path →
    ∃ nodeId ∈ start :: path, isBoundedBranch (nodeMap definition) nodeId = true

/-- The arcs that are left when the bounded branches are taken out. -/
def unboundedSuccessors (nodeId : String) : List String :=
  ((flowArcs definition).filter (fun arc => arc.1 = nodeId ∧
    isBoundedBranch (nodeMap definition) arc.1 = false ∧
    isBoundedBranch (nodeMap definition) arc.2 = false)).map Prod.snd

def unboundedComponents : List (List String) :=
  Components.components (unboundedSuccessors definition) ((flowArcs definition).map Prod.snd)

/-- What is left without the bounded branches falls apart into single nodes. -/
def UnboundedAcyclic : Prop :=
  ∀ component ∈ unboundedComponents definition,
    component.length ≤ 1 ∧ ∀ nodeId ∈ component, nodeId ∉ unboundedSuccessors definition nodeId

instance (definition : WorkflowDefinition) : Decidable (UnboundedAcyclic definition) :=
  inferInstanceAs (Decidable (∀ component ∈ unboundedComponents definition,
    component.length ≤ 1 ∧ ∀ nodeId ∈ component, nodeId ∉ unboundedSuccessors definition nodeId))

variable {definition : WorkflowDefinition}

theorem mem_arcs_of_mem_flowArcs {arc : String × String} (h : arc ∈ flowArcs definition) :
    arc ∈ arcs definition := by
  rw [flowArcs,mem_append,mem_flatMap] at h
  rw [arcs,mem_append,mem_flatMap]
  rcases h with hedge | ⟨node,hnode,hmem⟩
  · exact .inl hedge
  · cases node with
    | branch branch => exact .inr ⟨_,hnode,hmem⟩
    | parallel | forEach => simp at hmem

theorem mem_unboundedSuccessors {u v : String} :
    v ∈ unboundedSuccessors definition u ↔ (u,v) ∈ flowArcs definition ∧
      isBoundedBranch (nodeMap definition) u = false ∧ isBoundedBranch (nodeMap definition) v = false := by
  simp only [unboundedSuccessors,mem_map,mem_filter,decide_eq_true_eq]
  constructor
  · rintro ⟨⟨u',v'⟩,⟨harc,rfl,hu,hv⟩,rfl⟩
    exact ⟨harc,hu,hv⟩
  · rintro ⟨harc,hu,hv⟩
    exact ⟨(u,v),⟨harc,rfl,hu,hv⟩,rfl⟩

/-- The cycles are bounded exactly if nothing can go round without a bounded branch. -/
theorem cyclesBounded_iff_acyclic : CyclesBounded definition ↔
    ∀ u, ¬ Relation.TransGen (fun u v => v ∈ unboundedSuccessors definition u) u u := by
  constructor
  · intro hbounded u hcycle
    obtain ⟨path,hpath⟩ := Components.exists_walk hcycle
    obtain ⟨nodeId,hmem,hbranch⟩ := hbounded u path
      (hpath.imp (fun u v harc => (mem_unboundedSuccessors.mp harc).1))
    have hleaves : ∃ v, Relation.TransGen (fun u v => v ∈ unboundedSuccessors definition u) nodeId v := by
      rcases mem_cons.mp hmem with rfl | hmem
      · exact ⟨_,hcycle⟩
      · exact ⟨_,(Components.walk_reaches hpath nodeId hmem).2⟩
    obtain ⟨v,hv⟩ := hleaves
    obtain ⟨w,harc,-⟩ := Relation.TransGen.head'_iff.mp hv
    rw [(mem_unboundedSuccessors.mp harc).2.1] at hbranch
    exact Bool.false_ne_true hbranch
  · intro hacyclic start path hcycle
    by_contra hnone
    push Not at hnone
    have hall : ∀ nodeId ∈ start :: (path ++ [start]),
        isBoundedBranch (nodeMap definition) nodeId = false := by
      intro nodeId hmem
      refine Bool.eq_false_iff.mpr (hnone nodeId ?_)
      simp only [mem_cons,mem_append,not_mem_nil,or_false] at hmem ⊢
      tauto
    refine hacyclic start (Components.transGen_of_walk (hcycle.imp_of_mem_imp fun u v hu hv harc => ?_))
    exact mem_unboundedSuccessors.mpr ⟨harc,hall u hu,hall v hv⟩

theorem cyclesBounded_iff : CyclesBounded definition ↔ UnboundedAcyclic definition := by
  rw [cyclesBounded_iff_acyclic]
  refine Components.acyclic_iff ?_
  intro u v harc
  exact mem_map.mpr ⟨(u,v),(mem_unboundedSuccessors.mp harc).1,rfl⟩

open Components in
/-- The component search lists the classes of a graph whose successors are nodes of it, also in
any other order of the nodes, and a depth of one call a node is enough for it. -/
theorem stronglyConnectedComponents_classes {graph : WorkflowGraph}
    (hclosed : ∀ a ∈ graph.incoming.keys, ∀ b ∈ graph.successors a, b ∈ graph.incoming.keys)
    {order : List String} (horder : order.Perm graph.incoming.keys) :
    Classes graph.successors graph.incoming.keys graph.stronglyConnectedComponents ∧
      Classes graph.successors graph.incoming.keys (components graph.successors order) ∧
      ∀ fuel, order.length ≤ fuel → (search graph.successors fuel order State.init).result =
        components graph.successors order := by
  have hnodes : ∀ a ∈ order, ∀ b ∈ graph.successors a, b ∈ order :=
    fun a ha b hb => horder.mem_iff.mpr (hclosed a (horder.mem_iff.mp ha) b hb)
  obtain ⟨hclasses,hdepth⟩ := components_classes hnodes
  refine ⟨(components_classes hclosed).1,{hclasses with cover := ?_},hdepth⟩
  exact fun a => (hclasses.cover a).trans horder.mem_iff

theorem FlowCycle.same_component {start : String} {path : List String}
    (h : FlowCycle definition start path) :
    ∃ component ∈ (workflowGraph definition).stronglyConnectedComponents,
      (∀ nodeId ∈ start :: path, nodeId ∈ component) ∧
        isCycle (workflowGraph definition) component = true := by
  have hbuilt := WorkflowGraph.built_fromDefinition definition (nodeMap definition).keys
  have hclosed : ∀ a ∈ (workflowGraph definition).incoming.keys,
      ∀ b ∈ (workflowGraph definition).successors a, b ∈ (workflowGraph definition).incoming.keys :=
    fun a _ b hb => (hbuilt.keys b).mpr (.inr ⟨a,(hbuilt.successors a b).mp hb⟩)
  have hwalk : List.IsChain (fun u v => v ∈ (workflowGraph definition).successors u)
      (start :: (path ++ [start])) := List.IsChain.imp (fun u v harc =>
      (hbuilt.successors u v).mpr (mem_arcs_of_mem_flowArcs harc)) h
  have hround := Components.transGen_of_walk hwalk
  obtain ⟨last,-,hlast⟩ := Relation.TransGen.tail'_iff.mp hround
  have hstart : start ∈ (workflowGraph definition).incoming.keys :=
    (hbuilt.keys start).mpr (.inr ⟨last,(hbuilt.successors last start).mp hlast⟩)
  obtain ⟨component,hcomponent,hmem⟩ := Components.mem_same_component hclosed hstart
  have hall : ∀ nodeId ∈ start :: path, nodeId ∈ component := by
    intro nodeId hnode
    rcases mem_cons.mp hnode with rfl | hnode
    · exact hmem _ .refl .refl
    · obtain ⟨hto,hback⟩ := Components.walk_reaches hwalk nodeId hnode
      exact hmem nodeId hto.to_reflTransGen hback.to_reflTransGen
  refine ⟨component,hcomponent,hall,?_⟩
  rw [isCycle,Bool.or_eq_true,decide_eq_true_eq,any_eq_true]
  by_cases hlong : 1 < component.length
  · exact .inl hlong
  · refine .inr ⟨start,hall start (by simp),?_⟩
    have hsingle : ∀ nodeId ∈ component, nodeId = start := by
      have hs := hall start (by simp)
      match component,hlong,hs with
      | [x],_,hs => exact fun nodeId hn => (mem_singleton.mp hn).trans (mem_singleton.mp hs).symm
      | x :: y :: rest,hlong,_ => simp at hlong
    rw [decide_eq_true_eq]
    cases path with
    | nil => exact isChain_pair.mp hwalk
    | cons next path =>
      have hnext := hsingle next (hall next (by simp))
      rw [cons_append,isChain_cons_cons,hnext] at hwalk
      exact hwalk.1

/-- Every cycle of an accepted definition shares its component with a bounded branch. It passes
through a bounded branch, in all cases, exactly if the graph without them has no cycle. -/
theorem analyzeWorkflow_cycles {fuel : ℕ} {report : AnalysisReport}
    (h : analyzeWorkflow fuel definition = some report) (herrors : report.hasErrors = false) :
    (∀ start path, FlowCycle definition start path →
      ∃ component ∈ (workflowGraph definition).stronglyConnectedComponents,
        (∀ nodeId ∈ start :: path, nodeId ∈ component) ∧
          ∃ nodeId ∈ component, isBoundedBranch (nodeMap definition) nodeId = true) ∧
      (CyclesBounded definition ↔ UnboundedAcyclic definition) := by
  have hcycles := (accepted_of_analyzeWorkflow h herrors).cycles
  rw [validateCycles,noErrors_append,noErrors_flatMap] at hcycles
  refine ⟨?_,cyclesBounded_iff⟩
  intro start path hcycle
  obtain ⟨component,hcomponent,hmem,hround⟩ := hcycle.same_component
  have hrequired := noErrors_require_error.mp (hcycles.1 component hcomponent)
  rw [hround] at hrequired
  exact ⟨component,hcomponent,hmem,any_eq_true.mp hrequired⟩

/-- Draft and review until a branch says to stop, with further edges. -/
def reviewDefinition (edges : List EdgeDefinition) : WorkflowDefinition where
  schemaVersion := "0.1"
  id := "wf-review"
  name := "review"
  steps := [serviceStep "begin",serviceStep "draft",serviceStep "review",serviceStep "done"]
  nodes := [.branch {
    id := "again"
    on := "$\x7breview.output.choice\x7d"
    paths := OrderedMap.ofList [("yes","draft"),("no","done")]
    maxIterations := 3}]
  edges := [⟨"begin",some "draft"⟩,⟨"draft",some "review"⟩,⟨"review",some "again"⟩,
    ⟨"done",none⟩] ++ edges

open Components in
theorem stronglyConnectedComponents_classes_review :
    Classes (workflowGraph (reviewDefinition [])).successors
      (workflowGraph (reviewDefinition [])).incoming.keys
      [["done"],["review","draft","again"],["begin"]] := by
  have hfound : (workflowGraph (reviewDefinition [])).stronglyConnectedComponents =
      [["done"],["review","draft","again"],["begin"]] := by decide +kernel
  rw [← hfound]
  exact (stronglyConnectedComponents_classes (by decide +kernel) (Perm.refl _)).1

def accepts (definition : WorkflowDefinition) : Bool :=
  (analyzeWorkflow 1 definition).any (fun report => !report.hasErrors)

theorem analyzeWorkflow_cycles_review :
    accepts (reviewDefinition []) = true ∧ CyclesBounded (reviewDefinition []) := by
  have haccepts : accepts (reviewDefinition []) = true := by decide +kernel
  obtain ⟨report,hreport,hok⟩ := (Option.any_eq_true _ _).mp haccepts
  exact ⟨haccepts,(analyzeWorkflow_cycles hreport ((Bool.not_eq_true' _).mp hok)).2.mpr
    (by decide +kernel)⟩

/-- An edge from the review straight back to the draft is accepted: the branch behind the review
is in the same component. -/
theorem analyzeWorkflow_unbounded_cycle :
    accepts (reviewDefinition [⟨"review",some "draft"⟩]) = true ∧
      FlowCycle (reviewDefinition [⟨"review",some "draft"⟩]) "draft" ["review"] ∧
      ∀ nodeId ∈ ["draft","review"],
        isBoundedBranch (nodeMap (reviewDefinition [⟨"review",some "draft"⟩])) nodeId = false := by
  refine ⟨by decide +kernel,?_,by decide +kernel⟩
  simp only [FlowCycle,cons_append,nil_append,isChain_cons_cons,isChain_singleton]
  decide +kernel

end BuckyOS.Workflow
