import BuckyOS.Lib.Components
import BuckyOS.Workflow.Definition

/-! The graph of a workflow: its arcs come from edges, branch paths, parallel branches and the
chains of `for_each` steps. -/
namespace BuckyOS.Workflow
open List OrderedMap

structure WorkflowGraph where
  startNodes : List String := []
  terminalFrom : OrderedSet String := .empty
  incoming : OrderedMap String (OrderedSet String) := .empty
  explicitSuccessors : OrderedMap String (List String) := .empty
  allSuccessors : OrderedMap String (List String) := .empty
  branchTargets : OrderedMap String (OrderedMap String String) := .empty
  parallelBranches : OrderedMap String (List String) := .empty
  forEachSteps : OrderedMap String (List String) := .empty
deriving DecidableEq

namespace WorkflowGraph
variable (workflow : WorkflowDefinition) (graph : WorkflowGraph) (nodeId : String)

def addNode : WorkflowGraph :=
  {graph with
    incoming := graph.incoming.upsert nodeId .empty id
    explicitSuccessors := graph.explicitSuccessors.upsert nodeId [] id
    allSuccessors := graph.allSuccessors.upsert nodeId [] id}

def addArc (source target : String) : WorkflowGraph :=
  {graph with
    incoming := graph.incoming.upsert target .empty (fun deps => deps.add source)
    allSuccessors := graph.allSuccessors.upsert source [] (fun targets => targets ++ [target])}

def addEdge (edge : EdgeDefinition) : WorkflowGraph :=
  match edge.target with
  | some target =>
    {graph.addArc edge.source target with
      explicitSuccessors :=
        graph.explicitSuccessors.upsert edge.source [] (fun targets => targets ++ [target])}
  | none => {graph with terminalFrom := graph.terminalFrom.add edge.source}

def controlArcs : ControlNodeDefinition → List (String × String)
  | .branch branch => branch.paths.values.map (fun target => (branch.id,target))
  | .parallel parallel => parallel.branches.map (fun target => (parallel.id,target))
  | .forEach forEach =>
    forEach.steps.head?.toList.map (fun first => (forEach.id,first)) ++
      forEach.steps.zip forEach.steps.tail

def addControlNode (node : ControlNodeDefinition) : WorkflowGraph :=
  let recorded := match node with
    | .branch branch => {graph with
        branchTargets := graph.branchTargets.insert branch.id branch.paths}
    | .parallel parallel => {graph with
        parallelBranches := graph.parallelBranches.insert parallel.id parallel.branches}
    | .forEach forEach => {graph with
        forEachSteps := graph.forEachSteps.insert forEach.id forEach.steps}
  (controlArcs node).foldl (fun graph arc => graph.addArc arc.1 arc.2) recorded

def fromDefinition (nodeIds : List String) : WorkflowGraph :=
  let graph := nodeIds.foldl addNode {}
  let graph := workflow.edges.foldl addEdge graph
  let graph := workflow.nodes.foldl addControlNode graph
  {graph with
    startNodes := nodeIds.filter (fun nodeId =>
      ((graph.incoming.get? nodeId).map (fun deps => deps.keys.isEmpty)).getD true)}

def successors : List String :=
  (graph.allSuccessors.get? nodeId).getD []

def explicitSuccessorsOf : List String :=
  (graph.explicitSuccessors.get? nodeId).getD []

def dependencies : List String :=
  ((graph.incoming.get? nodeId).getD .empty).keys

/-- Follow arcs from a stack of nodes, each node once; the nodes in the order they are met. -/
def explore (next : String → List String) : ℕ → List String → List String → List String
  | 0, _, visited | _ + 1, [], visited => visited
  | fuel + 1, current :: stack, visited =>
    if current ∈ visited then explore next fuel stack visited
    else explore next fuel ((next current).reverse ++ stack) (visited ++ [current])

/-- A search takes each arc and each node of its first stack off the stack at most once. -/
def exploreFrom (next : String → List String) (stack : List String) :
    List String :=
  let arcs := ((graph.incoming.keys ++ graph.allSuccessors.keys).map
    (fun nodeId => (next nodeId).length)).sum
  explore next (stack.length + arcs + 1) stack.reverse []

def scopeSuccessors : List String :=
  let follow (scopes : OrderedMap String (List String)) : List String :=
    (scopes.entries.filter (fun scope => nodeId ∈ scope.2)).flatMap
      (fun scope => graph.explicitSuccessorsOf scope.1)
  follow graph.parallelBranches ++ follow graph.forEachSteps

/-- The search of the source ends at the first arc into the target. -/
def isUpstream (source target : String) : Bool :=
  let next (nodeId : String) := graph.successors nodeId ++ graph.scopeSuccessors nodeId
  if source = target then false
  else (graph.exploreFrom next [source]).any (fun nodeId => target ∈ next nodeId)

def reachableFromStarts : List String :=
  graph.exploreFrom graph.successors graph.startNodes

def reachesTerminal (graph : WorkflowGraph) : ℕ → String → List String → Bool
  | 0, _, _ => false
  | fuel + 1, current, visiting =>
    if current ∈ graph.terminalFrom.keys then true
    else if current ∈ visiting then false
    else (graph.successors current).any
      (fun next => graph.reachesTerminal fuel next (current :: visiting))

/-- A path without repetition has no more nodes than the graph. -/
def hasTerminalPath : Bool :=
  let depth := (graph.incoming.keys ++ graph.allSuccessors.keys).length + 1
  graph.startNodes.any (fun start => graph.reachesTerminal depth start [])

def stronglyConnectedComponents : List (List String) :=
  Components.components graph.successors graph.incoming.keys

def downstreamFrom (root : String) : List String :=
  graph.exploreFrom graph.successors (graph.successors root)

def edgeArcs : List (String × String) :=
  workflow.edges.filterMap (fun edge => edge.target.map (fun target => (edge.source,target)))

def arcs : List (String × String) :=
  edgeArcs workflow ++ workflow.nodes.flatMap controlArcs

structure Built (graph : WorkflowGraph) (nodeIds : List String) (arcs edges : List (String × String)) :
    Prop where
  successors : ∀ u v, v ∈ graph.successors u ↔ (u,v) ∈ arcs
  dependencies : ∀ u v, u ∈ graph.dependencies v ↔ (u,v) ∈ arcs
  explicit : ∀ u v, v ∈ graph.explicitSuccessorsOf u ↔ (u,v) ∈ edges
  keys : ∀ v, v ∈ graph.incoming.keys ↔ v ∈ nodeIds ∨ ∃ u, (u,v) ∈ arcs

theorem built_empty : Built {} [] [] [] where
  successors _ _ := by simp [WorkflowGraph.successors]
  dependencies _ _ := by simp [WorkflowGraph.dependencies]
  explicit _ _ := by simp [explicitSuccessorsOf]
  keys _ := by simp

variable {graph : WorkflowGraph} {nodeIds : List String} {as es : List (String × String)}

section
variable (h : Built graph nodeIds as es)
include h

theorem Built.addNode (nodeId : String) : Built (graph.addNode nodeId) (nodeId :: nodeIds) as es where
  successors u v := by
    rw [← h.successors,WorkflowGraph.successors,WorkflowGraph.addNode,getD_upsert]
    split_ifs with hu
    · rw [hu]
      rfl
    · rfl
  dependencies u v := by
    rw [← h.dependencies,WorkflowGraph.dependencies,WorkflowGraph.addNode,getD_upsert]
    split_ifs with hv
    · rw [hv]
      rfl
    · rfl
  explicit u v := by
    rw [← h.explicit,explicitSuccessorsOf,WorkflowGraph.addNode,getD_upsert]
    split_ifs with hu
    · rw [hu]
      rfl
    · rfl
  keys v := by rw [WorkflowGraph.addNode,mem_keys_upsert,h.keys,mem_cons,or_assoc]

theorem Built.addArc (source target : String) :
    Built (graph.addArc source target) nodeIds (as ++ [(source,target)]) es where
  successors u v := by
    rw [WorkflowGraph.successors,WorkflowGraph.addArc,getD_upsert,mem_append,
      ← h.successors,WorkflowGraph.successors]
    split_ifs with hu
    · simp [hu]
    · simp [hu]
  dependencies u v := by
    rw [WorkflowGraph.dependencies,WorkflowGraph.addArc,getD_upsert,mem_append,
      ← h.dependencies,WorkflowGraph.dependencies]
    split_ifs with hv
    · simp [hv,or_comm]
    · simp [hv]
  explicit := h.explicit
  keys v := by
    rw [WorkflowGraph.addArc,mem_keys_upsert,h.keys]
    simp only [mem_append,mem_singleton,Prod.mk.injEq]
    constructor
    · rintro (rfl | hv | ⟨u,hu⟩)
      · exact .inr ⟨source,.inr ⟨rfl,rfl⟩⟩
      · exact .inl hv
      · exact .inr ⟨u,.inl hu⟩
    · rintro (hv | ⟨u,hu | ⟨-,rfl⟩⟩)
      · exact .inr (.inl hv)
      · exact .inr (.inr ⟨u,hu⟩)
      · exact .inl rfl

theorem Built.congr {other : WorkflowGraph} (hincoming : other.incoming = graph.incoming)
    (hexplicit : other.explicitSuccessors = graph.explicitSuccessors)
    (hall : other.allSuccessors = graph.allSuccessors) : Built other nodeIds as es where
  successors := by simpa only [WorkflowGraph.successors,hall] using h.successors
  dependencies := by simpa only [WorkflowGraph.dependencies,hincoming] using h.dependencies
  explicit := by simpa only [explicitSuccessorsOf,hexplicit] using h.explicit
  keys := by simpa only [hincoming] using h.keys

theorem Built.addEdge (edge : EdgeDefinition) : Built (graph.addEdge edge) nodeIds
      (as ++ (edge.target.map (fun target => (edge.source,target))).toList)
      (es ++ (edge.target.map (fun target => (edge.source,target))).toList) := by
  rcases edge with ⟨source,_ | target⟩
  · rw [Option.map_none,Option.toList_none,append_nil,append_nil]
    exact h.congr rfl rfl rfl
  · have harc := h.addArc source target
    refine ⟨harc.successors,harc.dependencies,?_,harc.keys⟩
    intro u v
    rw [explicitSuccessorsOf,WorkflowGraph.addEdge,getD_upsert,mem_append,← h.explicit,explicitSuccessorsOf]
    split_ifs with hu
    · simp [hu]
    · simp [hu]

theorem Built.addArcs (new : List (String × String)) :
    Built (new.foldl (fun graph arc => graph.addArc arc.1 arc.2) graph) nodeIds (as ++ new) es := by
  induction new generalizing graph as with
  | nil => simpa using h
  | cons arc new ih =>
    rw [append_cons]
    exact ih (h.addArc arc.1 arc.2)

theorem Built.addControlNode (node : ControlNodeDefinition) :
    Built (graph.addControlNode node) nodeIds (as ++ controlArcs node) es := by
  apply Built.addArcs
  cases node with
  | branch | parallel | forEach => exact h.congr rfl rfl rfl

end

variable {workflow : WorkflowDefinition} {v : String}

theorem mem_edgeArcs {u : String} : (u,v) ∈ edgeArcs workflow ↔ ⟨u,some v⟩ ∈ workflow.edges := by
  rw [edgeArcs,mem_filterMap]
  constructor
  · rintro ⟨⟨source,_ | target⟩,hedge,harc⟩
    · simp at harc
    · simp only [Option.map_some,Option.some.injEq,Prod.mk.injEq] at harc
      obtain ⟨rfl,rfl⟩ := harc
      exact hedge
  · intro hedge
    exact ⟨_,hedge,rfl⟩

theorem built_nodes (ids : List String) :
    ∃ ids', (∀ v, v ∈ ids' ↔ v ∈ ids) ∧ Built (ids.foldl WorkflowGraph.addNode {}) ids' [] [] := by
  have hfold : ∀ (ids : List String) {graph : WorkflowGraph} {seen : List String},
      Built graph seen [] [] → Built (ids.foldl WorkflowGraph.addNode graph) (ids.reverse ++ seen) [] [] := by
    intro ids
    induction ids with
    | nil => exact fun h => h
    | cons nodeId ids ih =>
      intro graph seen h
      rw [reverse_cons,append_assoc]
      exact ih (h.addNode nodeId)
  refine ⟨ids.reverse ++ [],?_,hfold ids built_empty⟩
  simp

theorem built_fromDefinition (workflow : WorkflowDefinition) (ids : List String) :
    Built (fromDefinition workflow ids) ids (arcs workflow) (edgeArcs workflow) := by
  obtain ⟨ids',hids,hnodes⟩ := built_nodes ids
  have hedges : ∀ (edges : List EdgeDefinition) {graph : WorkflowGraph}
      {as es : List (String × String)}, Built graph ids' as es →
      Built (edges.foldl WorkflowGraph.addEdge graph) ids'
        (as ++ edges.filterMap (fun edge => edge.target.map (fun target => (edge.source,target))))
        (es ++ edges.filterMap (fun edge => edge.target.map (fun target => (edge.source,target)))) := by
    intro edges
    induction edges with
    | nil => simp
    | cons edge edges ih =>
      intro graph as es h
      have hnext := ih (h.addEdge edge)
      rw [append_assoc,append_assoc] at hnext
      cases htarget : edge.target with
      | none | some target => simpa [htarget] using hnext
  have hcontrols : ∀ (nodes : List ControlNodeDefinition) {graph : WorkflowGraph}
      {as es : List (String × String)}, Built graph ids' as es →
      Built (nodes.foldl WorkflowGraph.addControlNode graph) ids' (as ++ nodes.flatMap controlArcs) es := by
    intro nodes
    induction nodes with
    | nil => simp
    | cons node nodes ih =>
      intro graph as es h
      rw [flatMap_cons,← append_assoc]
      exact ih (h.addControlNode node)
  have hall := hcontrols workflow.nodes (hedges workflow.edges hnodes)
  rw [nil_append] at hall
  refine ⟨hall.successors,hall.dependencies,hall.explicit,?_⟩
  intro v
  rw [← hids v]
  exact hall.keys v

theorem mem_startNodes {ids : List String} :
    v ∈ (fromDefinition workflow ids).startNodes ↔ v ∈ ids ∧ ∀ u, (u,v) ∉ arcs workflow := by
  have hbuilt := built_fromDefinition workflow ids
  have hstart : v ∈ (fromDefinition workflow ids).startNodes ↔
      v ∈ ids ∧ (fromDefinition workflow ids).dependencies v = [] := by
    rw [WorkflowGraph.dependencies]
    cases hget : (fromDefinition workflow ids).incoming.get? v with
    | none | some deps => simp_all [fromDefinition]
  rw [hstart,eq_nil_iff_forall_not_mem]
  exact and_congr_right (fun _ => forall_congr' (fun u => not_congr (hbuilt.dependencies u v)))

end WorkflowGraph
end BuckyOS.Workflow
