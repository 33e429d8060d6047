import BuckyOS.Workflow.Graph
import BuckyOS.Workflow.Schema

/-! The static analysis of a workflow definition: every pass lists the issues it finds, in the
order the analyser runs them. -/
namespace BuckyOS.Workflow
inductive AnalysisSeverity where
  | error
  | warning
deriving DecidableEq

structure AnalysisIssue where
  severity : AnalysisSeverity
  code : String
  message : String
  nodeId : Option String
deriving DecidableEq

structure AnalysisReport where
  errors : List AnalysisIssue := []
  warnings : List AnalysisIssue := []
deriving DecidableEq

variable (code message : String) (report : AnalysisReport)

def AnalysisReport.push (issue : AnalysisIssue) : AnalysisReport :=
  match issue.severity with
  | .error => {report with errors := report.errors ++ [issue]}
  | .warning => {report with warnings := report.warnings ++ [issue]}

def AnalysisReport.ofIssues (issues : List AnalysisIssue) : AnalysisReport :=
  issues.foldl AnalysisReport.push {}

def AnalysisReport.hasErrors : Bool := !report.errors.isEmpty

def issueError (nodeId : Option String) : AnalysisIssue :=
  ⟨.error,code,message,nodeId⟩

def issueWarning (nodeId : Option String) : AnalysisIssue :=
  ⟨.warning,code,message,nodeId⟩

def require (test : Bool) (issue : AnalysisIssue) : List AnalysisIssue :=
  if test then [] else [issue]

def quoted (text : String) : String := "`" ++ text ++ "`"

def debugList (texts : List String) : String :=
  "[" ++ ", ".intercalate (texts.map Text.debugText) ++ "]"

structure ParsedReference where
  ownerNodeId : String
  jsonPath : List String
  reference : RefPath
deriving DecidableEq

inductive NodeEntry where
  | step (step : StepDefinition)
  | control (node : ControlNodeDefinition)
deriving DecidableEq

variable (fuel : ℕ) (workflow : WorkflowDefinition) (graph : WorkflowGraph)

/-- The identified parts of a definition in the order the analyser registers them. -/
def nodeEntries : List (String × NodeEntry) :=
  workflow.steps.map (fun step => (step.id,.step step)) ++
    workflow.nodes.map (fun node => (node.id,.control node))

abbrev NodeMap := OrderedMap String NodeEntry

def registerNode (acc : NodeMap × List AnalysisIssue) (entry : String × NodeEntry) :
    NodeMap × List AnalysisIssue :=
  (acc.1.insert entry.1 entry.2,
    acc.2 ++ require (decide (entry.1 ∉ acc.1.keys))
      (issueError "duplicate_node_id" ("duplicate node id " ++ quoted entry.1) (some entry.1)))

def registerNodes : NodeMap × List AnalysisIssue :=
  (nodeEntries workflow).foldl registerNode (.empty,[])

def nodeMap : NodeMap := (registerNodes workflow).1

def validateSchemaVersion : List AnalysisIssue :=
  require (decide (Text.trim workflow.schemaVersion ≠ ""))
    (issueError "schema_version" "schema_version is required" none)

def validateStartNodes : List AnalysisIssue :=
  require (!graph.startNodes.isEmpty)
    (issueError "missing_start_node" "workflow does not contain a start node" none)

def validateEdges : List AnalysisIssue :=
  workflow.edges.flatMap (fun edge =>
    require (decide (edge.source ∈ (nodeMap workflow).keys))
      (issueError "edge_unknown_from" ("edge.from " ++ quoted edge.source ++ " does not exist")
        (some edge.source)) ++
    match edge.target with
    | some target =>
      require (decide (target ∈ (nodeMap workflow).keys))
        (issueError "edge_unknown_to" ("edge.to " ++ quoted target ++ " does not exist")
          (some edge.source))
    | none => [])

def branchSchema (branch : BranchNodeDefinition) : Json :=
  Json.ofFields [("type",.string "object"),
    ("properties",Json.ofFields [("branch",Json.ofFields [("type",.string "string"),
      ("enum",.array (branch.paths.keys.map Json.string))])]),
    ("required",.array [.string "branch"])]

variable (nodes : NodeMap) (nodeId : String)

def NodeMap.step? : Option StepDefinition :=
  match nodes.get? nodeId with
  | some (.step step) => some step
  | _ => none

def parallelSchema (parallel : ParallelNodeDefinition) : Json :=
  Json.ofFields [("type",.string "object"),
    ("properties",Json.ofFields (parallel.branches.filterMap (fun branchId =>
      (nodes.step? branchId).map (fun step => (branchId,step.outputSchema)))))]

def arraySchema (items : Json) : Json := Json.ofFields [("type",.string "array"),("items",items)]

def controlSchema (schemas : OrderedMap String Json) :
    ControlNodeDefinition → Json
  | .branch branch => branchSchema branch
  | .parallel parallel => parallelSchema nodes parallel
  | .forEach forEach =>
    arraySchema ((forEach.steps.getLast?.bind schemas.get?).getD (Json.ofFields []))

def buildOutputSchemas : OrderedMap String Json :=
  workflow.nodes.foldl
    (fun schemas node => schemas.insert node.id (controlSchema (nodeMap workflow) schemas node))
    (OrderedMap.ofList (workflow.steps.map (fun step => (step.id,step.outputSchema))))

def validateParallelBranches : List AnalysisIssue :=
  workflow.nodes.flatMap (fun node =>
    match node with
    | .parallel parallel => parallel.branches.flatMap (fun branchId =>
      require ((nodeMap workflow).step? branchId).isSome
        (issueError "parallel_branch_unknown"
          ("parallel branch " ++ quoted branchId ++ " must reference a step") (some parallel.id)))
    | _ => [])

/-- A list of references and the issues met while they were read. -/
abbrev Refs := List ParsedReference × List AnalysisIssue

def readRef (owner : String) (path : List String) (raw : String) (issue : AnalysisIssue) : Refs :=
  match RefPath.parse raw with
  | some reference => ([⟨owner,path,reference⟩],[])
  | none => ([],[issue])

mutual

def collectRefsFromValue (owner : String) (path : List String) : Json → Refs
  | .string text =>
    if RefPath.opens text then
      readRef owner path text
        (issueError "invalid_reference" ("invalid reference " ++ quoted text) (some owner))
    else ([],[])
  | .array items => collectRefsFromItems owner path 0 items
  | .object fields => collectRefsFromFields owner path fields
  | _ => ([],[])

def collectRefsFromItems (owner : String) (path : List String) : ℕ → List Json → Refs
  | _, [] => ([],[])
  | index, item :: items =>
    let first := collectRefsFromValue owner (path ++ [toString index]) item
    let rest := collectRefsFromItems owner path (index + 1) items
    (first.1 ++ rest.1,first.2 ++ rest.2)

def collectRefsFromFields (owner : String) (path : List String) : List (String × Json) → Refs
  | [] => ([],[])
  | (key,item) :: fields =>
    let first := collectRefsFromValue owner (path ++ [key]) item
    let rest := collectRefsFromFields owner path fields
    (first.1 ++ rest.1,first.2 ++ rest.2)

end

def stepReferences (step : StepDefinition) : Refs :=
  let input := (step.input.map (collectRefsFromValue step.id [])).getD ([],[])
  let subject := (step.subjectRef.map (fun raw =>
    readRef step.id ["subject_ref"] raw
      (issueError "invalid_subject_ref" ("invalid subject_ref " ++ quoted raw)
        (some step.id)))).getD ([],[])
  (input.1 ++ subject.1,input.2 ++ subject.2)

def controlReferences : ControlNodeDefinition → Refs
  | .branch branch => readRef branch.id ["on"] branch.on
      (issueError "invalid_branch_ref" ("invalid branch.on " ++ quoted branch.on)
        (some branch.id))
  | .forEach forEach => readRef forEach.id ["items"] forEach.items
      (issueError "invalid_for_each_ref" ("invalid for_each.items " ++ quoted forEach.items)
        (some forEach.id))
  | .parallel _ => ([],[])

def collectReferences :
    OrderedMap String (List ParsedReference) × List AnalysisIssue :=
  let found := workflow.steps.map (fun step => (step.id,stepReferences step)) ++
    workflow.nodes.map (fun node => (node.id,controlReferences node))
  (OrderedMap.ofList (found.map (fun entry => (entry.1,entry.2.1))),
    found.flatMap (fun entry => entry.2.2))

def referencedSchema (reference : RefPath) : Option Json :=
  ((buildOutputSchemas workflow).get? reference.nodeId).bind
    (fun schema => schemaAtPath workflow.defs schema reference.fieldPath)

def validateReference (ownerId : String)
    (reference : RefPath) : List AnalysisIssue :=
  if reference.nodeId ∉ (nodeMap workflow).keys then
    [issueError "reference_unknown_node"
      ("reference points to unknown node " ++ quoted reference.nodeId) (some ownerId)]
  else
    require (graph.isUpstream reference.nodeId ownerId || decide (reference.nodeId = ownerId))
      (issueError "reference_not_upstream"
        ("reference " ++ quoted reference.asString ++ " is not upstream of " ++ quoted ownerId)
        (some ownerId)) ++
    require (((buildOutputSchemas workflow).get? reference.nodeId).isNone ||
        (referencedSchema workflow reference).isSome)
      (issueError "reference_unknown_field"
        ("reference path " ++ quoted (".".intercalate reference.fieldPath) ++
          " does not exist in " ++ quoted reference.nodeId ++ " output_schema") (some ownerId))

/-- The issues of the elements of a list, if there is an answer for each of them. -/
def issuesOf {α : Type} (check : α → Option (List AnalysisIssue)) (items : List α) :
    Option (List AnalysisIssue) := (items.mapM check).map List.flatten

def validateInputSchemas :
    Option (List AnalysisIssue) :=
  issuesOf (fun step =>
    match step.inputSchema with
    | none => some []
    | some inputSchema =>
      let refs := ((collectReferences workflow).1.get? step.id).getD []
      issuesOf (fun parsed =>
        match referencedSchema workflow parsed.reference,
            schemaAtPath workflow.defs inputSchema parsed.jsonPath with
        | some sourceSchema, some expectedSchema =>
          (schemasCompatible workflow.defs fuel sourceSchema expectedSchema).map
            (fun compatible => require compatible (issueError "input_schema_mismatch"
              ("reference " ++ quoted parsed.reference.asString ++
                " is incompatible with input_schema path " ++
                quoted (".".intercalate parsed.jsonPath)) (some step.id)))
        | _, _ => some [])
        (refs.filter (fun parsed => parsed.jsonPath.head? ≠ some "subject_ref")))
    workflow.steps

def validateReferences :
    Option (List AnalysisIssue) := do
  let unknown := (collectReferences workflow).1.entries.flatMap (fun entry =>
    entry.2.flatMap (fun parsed => validateReference workflow graph entry.1 parsed.reference))
  let mismatches ← validateInputSchemas fuel workflow
  return unknown ++ mismatches

def validateReachability :
    List AnalysisIssue :=
  (nodeMap workflow).keys.flatMap (fun nodeId =>
    require (decide (nodeId ∈ graph.reachableFromStarts))
      (issueError "unreachable_node"
        ("node " ++ quoted nodeId ++ " is not reachable from any start node") (some nodeId)))

def validateTermination : List AnalysisIssue :=
  require graph.hasTerminalPath (issueError "missing_terminal_path"
    "workflow does not contain a path to any terminal edge" none)

def isBoundedBranch : Bool :=
  match nodes.get? nodeId with
  | some (.control (.branch branch)) => decide (0 < branch.maxIterations)
  | _ => false

def isCycle (component : List String) : Bool :=
  decide (1 < component.length) ||
    component.any (fun nodeId => nodeId ∈ graph.successors nodeId)

def validateCycles : List AnalysisIssue :=
  graph.stronglyConnectedComponents.flatMap (fun component =>
    require (!isCycle graph component || component.any (isBoundedBranch (nodeMap workflow)))
      (issueError "unbounded_cycle"
        ("cycle " ++ debugList component ++ " does not include a branch with max_iterations")
        component.head?)) ++
  require (!workflow.steps.isEmpty)
    (issueError "missing_steps" "workflow must contain at least one step" none)

def validateSubjectRefs :
    Option (List AnalysisIssue) :=
  issuesOf (fun step =>
    if step.stepType ≠ .humanConfirm then some []
    else
      match step.subjectRef with
      | none => some [issueError "subject_ref_required" "human_confirm step requires subject_ref"
          (some step.id)]
      | some subjectRef =>
        match (RefPath.parse subjectRef).bind (referencedSchema workflow) with
        | none => some []
        | some subjectSchema =>
          match schemaAtPath workflow.defs step.outputSchema ["final_subject"] with
          | none => some [issueError "missing_final_subject"
              "human_confirm output_schema must contain final_subject" (some step.id)]
          | some finalSubjectSchema =>
            (schemasEqual workflow.defs fuel subjectSchema finalSubjectSchema).map
              (fun equal => require equal (issueError "subject_schema_mismatch"
                "subject_ref schema does not match output.final_subject schema" (some step.id))))
    workflow.steps

def validateBranchExhaustiveness : List AnalysisIssue :=
  workflow.nodes.flatMap (fun node =>
    match node with
    | .branch branch =>
      match ((RefPath.parse branch.on).bind (referencedSchema workflow)).bind
          (schemaEnumValues workflow.defs) with
      | some enumValues =>
        let missing := enumValues.filter (fun value => value ∉ branch.paths.keys)
        require missing.isEmpty (issueError "branch_not_exhaustive"
          ("branch is missing paths for " ++ debugList missing) (some branch.id))
      | none => []
    | _ => [])

def validateSkipCompatibility :
    Option (List AnalysisIssue) :=
  let skippable := (workflow.steps.filter (fun step => step.skippable)).map (fun step => step.id)
  issuesOf (fun step =>
    issuesOf (fun parsed =>
      if parsed.reference.nodeId ∉ skippable then some []
      else
        match step.inputSchema with
        | none => some [issueWarning "skip_compatibility_unknown"
            ("step " ++ quoted step.id ++ " references skippable node " ++
              quoted parsed.reference.nodeId ++ " but does not declare input_schema")
            (some step.id)]
        | some inputSchema =>
          match schemaAtPath workflow.defs inputSchema parsed.jsonPath with
          | none => some []
          | some expectedSchema =>
            (schemaAcceptsNull workflow.defs fuel expectedSchema).map
              (fun accepts => require accepts (issueError "skip_incompatible"
                ("step " ++ quoted step.id ++ " references skippable node " ++
                  quoted parsed.reference.nodeId ++ " but input path " ++
                  quoted (".".intercalate parsed.jsonPath) ++ " does not accept null")
                (some step.id))))
      (((collectReferences workflow).1.get? step.id).getD []))
    workflow.steps

def stepBudget (step : StepDefinition) : Option ℚ :=
  (step.guards.bind (fun guards => guards.maxCostUsdb)).or
    (step.guards.bind (fun guards => guards.budget.bind (fun budget => budget.maxCostUsdb)))

def validateBudget : List AnalysisIssue :=
  match workflow.guards.bind (fun guards => guards.budget.bind (fun budget => budget.maxCostUsdb)) with
  | none => []
  | some globalBudget =>
    let totalStepBudget := (workflow.steps.filterMap stepBudget).sum
    require (decide (totalStepBudget ≤ globalBudget)) (issueWarning "budget_overcommit"
      ("sum of step budgets (" ++ toString totalStepBudget ++ ") exceeds global budget (" ++
        toString globalBudget ++ ")") none)

def validateOutputModes : List AnalysisIssue :=
  workflow.steps.flatMap (fun step =>
    require (decide (step.outputMode = .single) ||
        (schemaAtPath workflow.defs step.outputSchema ["element_schema"]).isSome)
      (issueError "output_mode_schema"
        "finite output_mode requires output_schema.properties.element_schema" (some step.id)))

def outputModeOf (stepId : String) : OutputMode :=
  (((OrderedMap.ofList (workflow.steps.map (fun step => (step.id,step.outputMode)))).get?
    stepId).getD .single)

def validateForEach : List AnalysisIssue :=
  workflow.nodes.flatMap (fun node =>
    match node with
    | .forEach forEach =>
      match RefPath.parse forEach.items with
      | none => []
      | some reference =>
        let mode := outputModeOf workflow reference.nodeId
        require (decide (mode ≠ .single)) (issueError "for_each_single_input"
          "for_each.items cannot reference a single output" (some forEach.id)) ++
        require (decide (¬ (mode = .finiteSequential ∧ 1 < forEach.concurrency)))
          (issueWarning "for_each_serialized"
            ("for_each " ++ quoted forEach.id ++ " requested concurrency " ++
              toString forEach.concurrency ++
              " but upstream is finite_sequential; actual concurrency will be 1")
            (some forEach.id)) ++
        require (!forEach.steps.isEmpty) (issueError "for_each_missing_steps"
          "for_each requires at least one internal step" (some forEach.id)) ++
        forEach.steps.flatMap (fun stepId =>
          require ((nodeMap workflow).step? stepId).isSome (issueError "for_each_step_unknown"
            ("for_each internal step " ++ quoted stepId ++ " does not exist") (some forEach.id)))
    | _ => [])

def workflowGraph : WorkflowGraph :=
  .fromDefinition workflow (nodeMap workflow).keys

/-- All issues in the order they are pushed; no answer if a schema check does not end within the
given unfoldings. -/
def analysisIssues : Option (List AnalysisIssue) := do
  let graph := workflowGraph workflow
  let references ← validateReferences fuel workflow graph
  let subjects ← validateSubjectRefs fuel workflow
  let skips ← validateSkipCompatibility fuel workflow
  return validateSchemaVersion workflow ++ (registerNodes workflow).2 ++
    validateStartNodes graph ++ validateParallelBranches workflow ++
    (collectReferences workflow).2 ++ validateEdges workflow ++ references ++
    validateReachability workflow graph ++ validateTermination graph ++
    validateCycles workflow graph ++ subjects ++ validateBranchExhaustiveness workflow ++
    skips ++ validateBudget workflow ++ validateOutputModes workflow ++ validateForEach workflow

def analyzeWorkflow : Option AnalysisReport :=
  (analysisIssues fuel workflow).map AnalysisReport.ofIssues

end BuckyOS.Workflow
