import BuckyOS.Workflow.Records

/-! Whether the references of a node can be read when a tick starts it. The analysis looks for the
referenced node upstream and for the field path among the properties of its schema; a tick looks at
the direct dependencies only, and a property may be missing. -/
namespace BuckyOS.Workflow
open Fallible List OrderedMap Except

section Schemas
variable (defs : OrderedMap String Json)

def hasType (name : String) : Json → Bool
  | .null => decide (name = "null")
  | .bool _ => decide (name = "boolean")
  | .number text => decide (name = "number") ||
      decide (name = "integer") && text.toList.all (fun c => c.isDigit || c == '-')
  | .string _ => decide (name = "string")
  | .array _ => decide (name = "array")
  | .object _ => decide (name = "object")

def requiredFields (schema : Json) : List String :=
  (((schema.get? "required").bind Json.asArray).getD []).filterMap Json.asStr

/-- The keywords the schema checks know, with the meaning they have for a value. -/
structure Keywords (meets : Json → Json → Prop) (schema value : Json) : Prop where
  types : schemaTypeNames schema = [] ∨ ∃ name ∈ schemaTypeNames schema, hasType name value = true
  enum : ∀ values, schema.get? "enum" = some (.array values) → value ∈ values
  required : ∀ fields, value = .object fields →
    ∀ name ∈ requiredFields schema, (value.get? name).isSome = true
  properties : ∀ name property field,
    (schema.get? "properties").bind (·.get? name) = some property →
    value.get? name = some field → meets property field
  items : ∀ element values, schema.get? "items" = some element → value = .array values →
    ∀ item ∈ values, meets element item
  anyOf : ∀ schemas, schema.get? "anyOf" = some (.array schemas) →
    ∃ alternative ∈ schemas, meets alternative value
  oneOf : ∀ schemas, schema.get? "oneOf" = some (.array schemas) →
    ∃ alternative ∈ schemas, meets alternative value

/-- Whether a value meets a schema as far as a number of unfoldings shows. -/
def MeetsTo : ℕ → Json → Json → Prop
  | 0, _, _ => True
  | depth + 1, schema, value =>
    if ((schema.get? "$ref").bind Json.asStr).isSome then
      ∃ target, resolveSchema defs schema = some target ∧ MeetsTo depth target value
    else Keywords (MeetsTo depth) schema value

def Conforms (schema value : Json) : Prop := ∀ depth, MeetsTo defs depth schema value

/-- Whether every conforming value has a field path: each schema on the way is that of an object
that requires the next field. -/
def requiresFrom : Json → List String → Bool
  | _, [] => true
  | schema, segment :: path =>
    (resolveSchema defs schema).any (fun resolved =>
      ((resolved.get? "$ref").bind Json.asStr).isNone &&
        decide (schemaTypeNames resolved = ["object"]) &&
        decide (segment ∈ requiredFields resolved)) &&
    (schemaProperty defs schema segment).all (fun property => requiresFrom property path)

def requiresPath (schema : Json) (path : List String) : Bool :=
  (resolveSchema defs schema).any (fun current => requiresFrom defs current path)

variable {defs} {schema value : Json}

theorem Conforms.resolve {resolved : Json} (h : Conforms defs schema value)
    (hresolved : resolveSchema defs schema = some resolved) : Conforms defs resolved value := by
  intro depth
  have hmeets := h (depth + 1)
  rw [MeetsTo] at hmeets
  split_ifs at hmeets with href
  · obtain ⟨target,htarget,hmeets⟩ := hmeets
    obtain rfl := Option.some.inj (hresolved.symm.trans htarget)
    exact hmeets
  · rw [resolveSchema,Option.not_isSome_iff_eq_none.mp href] at hresolved
    exact Option.some.inj hresolved ▸ h depth

theorem Conforms.keywords (h : Conforms defs schema value)
    (href : ((schema.get? "$ref").bind Json.asStr).isNone = true) (depth : ℕ) :
    Keywords (MeetsTo defs depth) schema value := by
  have hmeets := h (depth + 1)
  rwa [MeetsTo,if_neg (by simpa using href)] at hmeets

theorem isObject_of_hasType (h : hasType "object" value = true) : ∃ fields, value = .object fields := by
  cases value with
  | object fields => exact ⟨fields,rfl⟩
  | _ => simp [hasType] at h

theorem Conforms.required {segment : String} (h : Conforms defs schema value)
    (href : ((schema.get? "$ref").bind Json.asStr).isNone = true)
    (htypes : schemaTypeNames schema = ["object"]) (hrequired : segment ∈ requiredFields schema) :
    ∃ field, value.get? segment = some field := by
  have hkeywords := h.keywords href 0
  rcases hkeywords.types with hnone | ⟨name,hname,htype⟩
  · simp [htypes] at hnone
  · rw [htypes,mem_singleton] at hname
    obtain ⟨fields,hfields⟩ := isObject_of_hasType (hname ▸ htype)
    exact Option.isSome_iff_exists.mp (hkeywords.required fields hfields segment hrequired)

theorem followPath_of_requiresFrom {path : List String} :
    ∀ {schema last value : Json}, path.foldlM (schemaProperty defs) schema = some last →
      requiresFrom defs schema path = true → Conforms defs schema value →
      ∃ found, followPath value path = some found := by
  induction path with
  | nil => exact fun _ _ _ => ⟨_,rfl⟩
  | cons segment path ih =>
    intro schema last value hpath hrequires hconforms
    rw [foldlM_cons,Option.bind_eq_bind,Option.bind_eq_some_iff] at hpath
    obtain ⟨property,hproperty,hpath⟩ := hpath
    rw [requiresFrom,hproperty,Option.all_some,Bool.and_eq_true,Option.any_eq_true] at hrequires
    obtain ⟨⟨resolved,hresolved,hkeywords⟩,hrest⟩ := hrequires
    rw [Bool.and_eq_true,Bool.and_eq_true,decide_eq_true_eq,decide_eq_true_eq] at hkeywords
    obtain ⟨⟨href,htypes⟩,hrequired⟩ := hkeywords
    have hresolve := hconforms.resolve hresolved
    obtain ⟨field,hfield⟩ := hresolve.required href htypes hrequired
    have hmember : (resolved.get? "properties").bind (·.get? segment) = some property := by
      rw [schemaProperty,hresolved] at hproperty
      exact hproperty
    have hnext : Conforms defs property field :=
      fun depth => (hresolve.keywords href depth).properties segment property field hmember hfield
    obtain ⟨found,hfound⟩ := ih hpath hrest hnext
    exact ⟨found,by rw [followPath,hfield]; exact hfound⟩

/-- A path of a schema that is required is there in every value that conforms to the schema. -/
theorem followPath_of_requiresPath {path : List String}
    (hpath : (schemaAtPath defs schema path).isSome = true)
    (hrequires : requiresPath defs schema path = true) (hconforms : Conforms defs schema value) :
    ∃ found, followPath value path = some found := by
  obtain ⟨current,hcurrent,hrequires⟩ := (Option.any_eq_true _ _).mp hrequires
  obtain ⟨found,hfound⟩ := Option.isSome_iff_exists.mp hpath
  rw [schemaAtPath,hcurrent,Option.bind_eq_bind,Option.bind_some,Option.bind_eq_some_iff] at hfound
  obtain ⟨last,hlast,-⟩ := hfound
  exact followPath_of_requiresFrom hlast hrequires (hconforms.resolve hcurrent)

end Schemas

section References
mutual

def templateReferences : ValueTemplate → List RefPath
  | .literal _ => []
  | .reference reference => [reference]
  | .array items => itemReferences items
  | .object fields => fieldReferences fields

def itemReferences : List ValueTemplate → List RefPath
  | [] => []
  | item :: items => templateReferences item ++ itemReferences items

def fieldReferences : List (String × ValueTemplate) → List RefPath
  | [] => []
  | (_,value) :: fields => templateReferences value ++ fieldReferences fields

end

def Expr.references : Expr → List RefPath
  | .apply _ _ params _ _ _ _ => fieldReferences params
  | .matchOn on _ _ => [on]
  | .par _ _ => []
  | .map collection _ _ _ _ => [collection]
  | .await _ subject _ _ => subject.toList

mutual

theorem templateReferences_collected (owner : String) : ∀ (value : Json) (path : List String)
    {template : ValueTemplate}, compileValueTemplate value = .ok template →
    ∀ reference ∈ templateReferences template,
      ∃ parsed ∈ (collectRefsFromValue owner path value).1, parsed.reference = reference
  | .string text, path, template, h, reference, href => by
    rw [compileValueTemplate] at h
    rw [collectRefsFromValue]
    split_ifs at h ⊢ with hopens
    · rw [readRef]
      cases hparse : RefPath.parse text with
      | none =>
        rw [hparse] at h
        cases h
      | some parsed =>
        rw [hparse] at h
        obtain rfl := ok.inj h
        rw [templateReferences,mem_singleton] at href
        exact ⟨_,mem_singleton_self _,href.symm⟩
    · obtain rfl := ok.inj h
      simp [templateReferences] at href
  | .array items, path, template, h, reference, href => by
    rw [compileValueTemplate] at h
    obtain ⟨items',hitems,h⟩ := bind_eq_ok_iff.mp h
    obtain rfl := ok.inj h
    exact itemReferences_collected owner items path 0 hitems reference href
  | .object fields, path, template, h, reference, href => by
    rw [compileValueTemplate] at h
    obtain ⟨fields',hfields,h⟩ := bind_eq_ok_iff.mp h
    obtain rfl := ok.inj h
    exact fieldReferences_collected owner fields path hfields reference href
  | .null, _, template, h, reference, href
  | .bool _, _, template, h, reference, href
  | .number _, _, template, h, reference, href => by
    rw [compileValueTemplate] at h
    · obtain rfl := ok.inj h
      simp [templateReferences] at href
    all_goals simp

theorem itemReferences_collected (owner : String) : ∀ (items : List Json) (path : List String)
    (index : ℕ) {templates : List ValueTemplate}, compileItems items = .ok templates →
    ∀ reference ∈ itemReferences templates,
      ∃ parsed ∈ (collectRefsFromItems owner path index items).1, parsed.reference = reference
  | [], path, index, templates, h, reference, href => by
    rw [compileItems] at h
    obtain rfl := ok.inj h
    simp [itemReferences] at href
  | item :: items, path, index, templates, h, reference, href => by
    rw [compileItems] at h
    obtain ⟨first,hfirst,h⟩ := bind_eq_ok_iff.mp h
    obtain ⟨rest,hrest,h⟩ := bind_eq_ok_iff.mp h
    obtain rfl := ok.inj h
    rw [itemReferences,mem_append] at href
    rw [collectRefsFromItems]
    rcases href with href | href
    · obtain ⟨parsed,hparsed,heq⟩ :=
        templateReferences_collected owner item (path ++ [toString index]) hfirst reference href
      exact ⟨parsed,mem_append_left _ hparsed,heq⟩
    · obtain ⟨parsed,hparsed,heq⟩ := itemReferences_collected owner items path (index + 1) hrest reference href
      exact ⟨parsed,mem_append_right _ hparsed,heq⟩

theorem fieldReferences_collected (owner : String) : ∀ (fields : List (String × Json))
    (path : List String) {templates : List (String × ValueTemplate)},
    compileFields fields = .ok templates → ∀ reference ∈ fieldReferences templates,
      ∃ parsed ∈ (collectRefsFromFields owner path fields).1, parsed.reference = reference
  | [], path, templates, h, reference, href => by
    rw [compileFields] at h
    obtain rfl := ok.inj h
    simp [fieldReferences] at href
  | (key,value) :: fields, path, templates, h, reference, href => by
    rw [compileFields] at h
    obtain ⟨first,hfirst,h⟩ := bind_eq_ok_iff.mp h
    obtain ⟨rest,hrest,h⟩ := bind_eq_ok_iff.mp h
    obtain rfl := ok.inj h
    rw [fieldReferences,mem_append] at href
    rw [collectRefsFromFields]
    rcases href with href | href
    · obtain ⟨parsed,hparsed,heq⟩ :=
        templateReferences_collected owner value (path ++ [key]) hfirst reference href
      exact ⟨parsed,mem_append_left _ hparsed,heq⟩
    · obtain ⟨parsed,hparsed,heq⟩ := fieldReferences_collected owner fields path hrest reference href
      exact ⟨parsed,mem_append_right _ hparsed,heq⟩

end

variable {reference : RefPath}

theorem readRef_parsed {owner raw : String} {path : List String} {issue : AnalysisIssue}
    (h : RefPath.parse raw = some reference) :
    ∃ parsed ∈ (readRef owner path raw issue).1, parsed.reference = reference := by
  rw [readRef,h]
  exact ⟨_,mem_singleton_self _,rfl⟩

variable {hashExecutor : String → String}

theorem stepReferences_collected {step : StepDefinition} {expr : Expr}
    (h : compileStep hashExecutor step = .ok expr) (href : reference ∈ expr.references) :
    ∃ parsed ∈ (stepReferences step).1, parsed.reference = reference := by
  rw [stepReferences]
  obtain ⟨executor,params,-,hparams,rfl⟩ | ⟨kind,rfl⟩ := compileStep_ok h
  · rw [Expr.references] at href
    have hinput : ∃ parsed ∈ ((step.input.map (collectRefsFromValue step.id [])).getD ([],[])).1,
        parsed.reference = reference := by
      unfold compileParams at hparams
      split at hparams
      · rename_i fields hfields
        rw [hfields,Option.map_some,Option.getD_some,collectRefsFromValue]
        exact fieldReferences_collected step.id fields [] hparams reference href
      · rename_i other _ hother
        obtain ⟨template,htemplate,hparams⟩ := bind_eq_ok_iff.mp hparams
        obtain rfl := ok.inj hparams
        rw [fieldReferences,fieldReferences,append_nil] at href
        rw [hother]
        exact templateReferences_collected step.id other [] htemplate reference href
      · obtain rfl := ok.inj hparams
        simp [fieldReferences] at href
    obtain ⟨parsed,hparsed,heq⟩ := hinput
    exact ⟨parsed,mem_append_left _ hparsed,heq⟩
  · rw [Expr.references,Option.mem_toList,Option.bind_eq_some_iff] at href
    obtain ⟨raw,hraw,hparse⟩ := href
    rw [hraw]
    obtain ⟨parsed,hparsed,heq⟩ := readRef_parsed hparse
    exact ⟨parsed,mem_append_right _ hparsed,heq⟩

variable {definition : WorkflowDefinition}
variable {schema : Json} {nodeId : String} {node : CompiledNode} {fuel : ℕ} {output : CompileOutput}

theorem controlReferences_collected {control : ControlNodeDefinition} {expr : Expr}
    (h : compileControlExpr definition control = .ok (expr,schema)) (href : reference ∈ expr.references) :
    ∃ parsed ∈ (controlReferences control).1, parsed.reference = reference := by
  cases control with
  | branch branch =>
    rw [compileControlExpr] at h
    split at h
    · rename_i on hon
      obtain ⟨rfl,-⟩ := Prod.mk.inj (ok.inj h)
      rw [Expr.references,mem_singleton] at href
      exact readRef_parsed (href ▸ hon)
    · cases h
  | parallel parallel =>
    obtain ⟨rfl,-⟩ := Prod.mk.inj (ok.inj h)
    simp [Expr.references] at href
  | forEach forEach =>
    rw [compileControlExpr] at h
    split at h
    · rename_i collection hcollection
      obtain ⟨rfl,-⟩ := Prod.mk.inj (ok.inj h)
      rw [Expr.references,mem_singleton] at href
      exact readRef_parsed (href ▸ hcollection)
    · cases h

theorem Compiled.reference_collected {workflow : CompiledWorkflow}
    (h : Compiled hashExecutor workflow) (hnode : workflow.nodes.get? nodeId = some node)
    (href : reference ∈ node.expr.references) :
    ∃ refs, (collectReferences workflow.definition).1.get? nodeId = some refs ∧
      ∃ parsed ∈ refs, parsed.reference = reference := by
  have hfound : ∀ (id : String) (refs : Refs),
      (id,refs) ∈ workflow.definition.steps.map (fun step => (step.id,stepReferences step)) ++
        workflow.definition.nodes.map (fun node => (node.id,controlReferences node)) →
      (collectReferences workflow.definition).1.get? id = some refs.1 := by
    intro id refs hmem
    rw [collectReferences]
    refine (get?_ofList ?_ _ _).mpr (mem_map.mpr ⟨_,hmem,rfl⟩)
    simpa [definedIds,Function.comp_def] using h.accepted.nodup
  obtain ⟨rfl,⟨step,hstep,hcompiled⟩ | ⟨control,hcontrol,hcompiled⟩⟩ := h.nodes_get?.mp hnode
  · obtain ⟨expr,hexpr,rfl⟩ := compileStepNode_ok hcompiled
    exact ⟨_,hfound step.id _ (mem_append_left _ (mem_map.mpr ⟨step,hstep,rfl⟩)),
      stepReferences_collected hexpr href⟩
  · obtain ⟨expr,schema,hexpr,rfl⟩ := compileControlNode_ok hcompiled
    exact ⟨_,hfound control.id _ (mem_append_right _ (mem_map.mpr ⟨control,hcontrol,rfl⟩)),
      controlReferences_collected hexpr href⟩

theorem references_validated (h : compileWorkflow hashExecutor fuel definition = some (.ok output))
    {owner : String} {refs : List ParsedReference}
    (hrefs : (collectReferences definition).1.get? owner = some refs) {parsed : ParsedReference}
    (hparsed : parsed ∈ refs) :
    NoErrors (validateReference definition (workflowGraph definition) owner parsed.reference) := by
  obtain ⟨report,hreport,hresult⟩ := Option.map_eq_some_iff.mp h
  split at hresult
  · cases hresult
  · rename_i herrors
    obtain ⟨issues,hissues,rfl⟩ := Option.map_eq_some_iff.mp hreport
    have hno := (hasErrors_ofIssues issues).mp (by simpa using herrors)
    simp only [analysisIssues,Option.bind_eq_bind,Option.bind_eq_some_iff] at hissues
    obtain ⟨references,hreferences,subjects,-,skips,-,hall⟩ := hissues
    obtain rfl := Option.some.inj hall
    simp only [noErrors_append] at hno
    simp only [validateReferences,Option.bind_eq_bind,Option.bind_eq_some_iff] at hreferences
    obtain ⟨mismatches,-,hreferences⟩ := hreferences
    obtain rfl := Option.some.inj hreferences
    have hvalid := hno.1.1.1.1.1.1.1.1.1.2
    rw [noErrors_append,noErrors_flatMap] at hvalid
    have hentry := hvalid.1 (owner,refs) ((mem_entries_iff _ _ _).mpr hrefs)
    rw [noErrors_flatMap] at hentry
    exact hentry parsed hparsed

end References

section Selection
variable (env : Env) (workflow : CompiledWorkflow)

def selected (run : WorkflowRun) : List String :=
  (run.activatedNodes.keys.foldl (markReady workflow) ([],run)).1

def rounds : ℕ → Orch Unit
  | 0 => pure ()
  | count + 1 => do
    let actionable ← actionableNodes workflow
    visit (advanceNode env workflow) actionable
    rounds count

/-- A world in which a tick picks the nodes to start next. -/
def Picks (w w' : World) : Prop :=
  ∃ count, (do beginRun; rounds env workflow count : Orch Unit) {w with events := []} = (.ok (),w')

theorem dependencySatisfied_iff (run : WorkflowRun) (nodeId dependency : String) :
    dependencySatisfied workflow run nodeId dependency = true ↔ run.isDone dependency = true ∨
      run.nodeStates.get? dependency = some .running ∧ encloses workflow dependency nodeId = true := by
  rw [dependencySatisfied,Bool.or_eq_true,Bool.and_eq_true,decide_eq_true_iff]

/-- The nodes picked so far have their dependencies in the run a tick began with. -/
structure Picked (run : WorkflowRun) (acc : List String × WorkflowRun) : Prop where
  done : ∀ n, acc.2.isDone n = run.isDone n
  running : ∀ n, acc.2.nodeStates.get? n = some .running ↔ run.nodeStates.get? n = some .running
  satisfied : ∀ n ∈ acc.1, ∀ dependency ∈ workflow.graph.dependencies n,
    dependencySatisfied workflow run n dependency = true

variable {workflow}

theorem Picked.markReady {run : WorkflowRun} {acc : List String × WorkflowRun}
    (h : Picked workflow run acc) (nodeId : String) :
    Picked workflow run (markReady workflow acc nodeId) := by
  unfold Workflow.markReady
  split_ifs with hactionable
  · rw [isActionable,Bool.and_eq_true,decide_eq_true_eq,all_eq_true] at hactionable
    obtain ⟨hpending,hdependencies⟩ := hactionable
    have hwaits : acc.2.nodeStates.get? nodeId = none ∨ acc.2.nodeStates.get? nodeId = some .pending := by
      rw [WorkflowRun.stateOf] at hpending
      cases hget : acc.2.nodeStates.get? nodeId with
      | none => exact .inl rfl
      | some state => exact .inr (congrArg some (by rwa [hget] at hpending))
    refine ⟨?_,?_,?_⟩
    · intro n
      rw [← h.done n,isDone_setState]
      split_ifs with hn
      · rw [hn,WorkflowRun.isDone]
        rcases hwaits with hget | hget <;> rw [hget] <;> rfl
      · rfl
    · intro n
      rw [← h.running n]
      show (acc.2.nodeStates.insert nodeId .ready).get? n = _ ↔ _
      rw [get?_insert]
      split_ifs with hn
      · rw [hn]
        rcases hwaits with hget | hget <;> simp [hget]
      · rfl
    · intro n hn dependency hdependency
      rcases mem_append.mp hn with hn | hn
      · exact h.satisfied n hn dependency hdependency
      · obtain rfl := mem_singleton.mp hn
        have hsat := hdependencies dependency hdependency
        rw [dependencySatisfied_iff,h.done,h.running] at hsat
        exact (dependencySatisfied_iff ..).mpr hsat
  · exact h

theorem selected_satisfied {run : WorkflowRun} {n : String} (hn : n ∈ selected workflow run)
    {dependency : String} (hdependency : dependency ∈ workflow.graph.dependencies n) :
    dependencySatisfied workflow run n dependency = true := by
  have hfold : ∀ (nodeIds : List String) (acc : List String × WorkflowRun),
      Picked workflow run acc → Picked workflow run (nodeIds.foldl (Workflow.markReady workflow) acc) := by
    intro nodeIds
    induction nodeIds with
    | nil => exact fun _ h => h
    | cons nodeId nodeIds ih => exact fun acc h => ih _ (h.markReady nodeId)
  exact (hfold run.activatedNodes.keys ([],run)
    ⟨fun _ => rfl,fun _ => Iff.rfl,fun _ h => absurd h not_mem_nil⟩).satisfied n hn dependency hdependency

variable (workflow)

theorem rounds_records {base : ℕ} (count : ℕ) : Records base (rounds env workflow count) := by
  induction count with
  | zero => exact keeps_pure _
  | succ count ih =>
    exact actionableNodes_records.bind fun actionable =>
      (keeps_visit (fun _ => advanceNode_records fun _ _ => trivial) actionable).bind fun _ => ih

theorem reached_furnished (start : RunStart) (operations : List Operation) :
    Furnished (reached env workflow start operations).run :=
  Machine.run_invariant (I := fun w : World => Furnished w.run)
    (fun _ operation h => (step_records h operation).1.outputs) (createRun_records _ _).1.outputs operations

theorem Picks.furnished {w w' : World} (hpicks : Picks env workflow w w') (h : Furnished w.run) :
    Furnished w'.run := by
  obtain ⟨count,hcount⟩ := hpicks
  have hkept : Records w.run.seq (do beginRun; rounds env workflow count : Orch Unit) :=
    beginRun_records.bind fun _ => rounds_records env workflow count
  have hnext := hkept {w with events := []} ⟨rfl,rfl,h⟩
  rw [hcount] at hnext
  exact hnext.outputs

theorem picks_begin (w : World) : Picks env workflow w (beginRun {w with events := []}).2 := by
  refine ⟨0,?_⟩
  have hbegin : beginRun {w with events := []} = (.ok (),(beginRun {w with events := []}).2) := by
    have hif : beginRun {w with events := []} = (if w.run.status = .created then do
        modifyRun fun run => {run with status := .running}
        emitEvent "run.started" none "engine" none
      else pure () : Orch Unit) {w with events := []} := rfl
    rw [hif]
    split_ifs <;> rfl
  exact bind_of_ok hbegin

end Selection

/-- Whatever is called, a pending thunk was sent off, it runs a shard just when its node is not one
that executes itself, and every node that is done has an output. -/
theorem pending_owned {hashExecutor : String → String} {fuel : ℕ} {definition : WorkflowDefinition}
    {output : CompileOutput} (h : compileWorkflow hashExecutor fuel definition = some (.ok output))
    (env : Env) (start : RunStart) (operations : List Operation) :
    let w := reached env output.workflow start operations
    (∀ t ∈ w.run.pendingThunks.items, t.thunkObjId ∈ w.scheduled.map ScheduledThunk.thunkObjId ∧
      (t.shardIndex = none ↔ output.workflow.isApply t.nodeId = true)) ∧ Furnished w.run := by
  have hids := (compiled_of_compileWorkflow h).1.keyed
  have htraced := reached_traced env hids start operations
  refine ⟨fun t ht => ⟨htraced.sent t ht,htraced.apply hids ht,fun happly => ?_⟩,
    reached_furnished env _ start operations⟩
  by_contra hshard
  simp [(htraced.shard ht hshard).2] at happly

/-- The first step has been reported and the second one sent off. -/
theorem pending_owned_chain : ∃ output, compileWorkflow id 1 chainDefinition = some (.ok output) ∧
    ∃ t ∈ (worldAfter quietEnv output.workflow [.tick]).run.pendingThunks.items,
      let w := worldAfter quietEnv output.workflow [.tick,done t .null,.tick]
      w.run.isDone "first" = true ∧ w.run.pendingThunks.items.map PendingThunk.nodeId = ["second"] ∧
      (∀ t ∈ w.run.pendingThunks.items, t.thunkObjId ∈ w.scheduled.map ScheduledThunk.thunkObjId ∧
        (t.shardIndex = none ↔ output.workflow.isApply t.nodeId = true)) ∧ Furnished w.run := by
  obtain ⟨output,hout,t,ht,hdone,hpending⟩ := exists_compiled chainDefinition (P := fun workflow =>
    ∃ t ∈ (worldAfter quietEnv workflow [.tick]).run.pendingThunks.items,
      (worldAfter quietEnv workflow [.tick,done t .null,.tick]).run.isDone "first" = true ∧
      (worldAfter quietEnv workflow [.tick,done t .null,.tick]).run.pendingThunks.items.map
        PendingThunk.nodeId = ["second"]) (by decide +kernel)
  exact ⟨output,hout,t,ht,hdone,hpending,pending_owned hout quietEnv ⟨"run",.empty,fun _ => none⟩ _⟩

def OutputsConform (definition : WorkflowDefinition) (run : WorkflowRun) : Prop :=
  ∀ n schema output, (buildOutputSchemas definition).get? n = some schema →
    run.nodeStates.get? n = some .completed → run.nodeOutputs.get? n = some output →
    Conforms definition.defs schema output

/-- What makes a reference safe: the node it names is a direct dependency that the node does not
run within, or is done; and a field it asks for is required, of a node that is not skipped. -/
structure Secured (workflow : CompiledWorkflow) (run : WorkflowRun) (nodeId : String)
    (reference : RefPath) : Prop where
  node : reference.nodeId ∈ workflow.graph.dependencies nodeId ∧
    encloses workflow reference.nodeId nodeId = false ∨ run.isDone reference.nodeId = true
  field : reference.fieldPath ≠ [] → run.nodeStates.get? reference.nodeId ≠ some .skipped ∧
    ∃ schema, (buildOutputSchemas workflow.definition).get? reference.nodeId = some schema ∧
      requiresPath workflow.definition.defs schema reference.fieldPath = true

theorem completed_of_isDone {run : WorkflowRun} {n : String} (h : run.isDone n = true)
    (hskipped : run.nodeStates.get? n ≠ some .skipped) : run.nodeStates.get? n = some .completed := by
  rw [WorkflowRun.isDone,Option.any_eq_true] at h
  obtain ⟨state,hstate,hdone⟩ := h
  rw [hstate] at hskipped ⊢
  cases state with
  | completed => rfl
  | skipped => exact absurd rfl hskipped
  | _ => cases hdone

theorem Secured.isDone {workflow : CompiledWorkflow} {run : WorkflowRun} {nodeId : String}
    {reference : RefPath} (h : Secured workflow run nodeId reference)
    (hselected : nodeId ∈ selected workflow run) : run.isDone reference.nodeId = true := by
  rcases h.node with ⟨hdependency,hencloses⟩ | hdone
  · rcases (dependencySatisfied_iff ..).mp (selected_satisfied hselected hdependency) with
      hdone | ⟨-,hwithin⟩
    · exact hdone
    · rw [hencloses] at hwithin
      cases hwithin
  · exact hdone

/-- In every run whose outputs conform to their schemas, the secured references of a node that a
tick picks can be read. -/
theorem picked_references_resolve (env : Env) {hashExecutor : String → String} {fuel : ℕ}
    {definition : WorkflowDefinition} {output : CompileOutput}
    (hcompile : compileWorkflow hashExecutor fuel definition = some (.ok output))
    (start : RunStart) (operations : List Operation) {w : World}
    (hpicks : Picks env output.workflow (reached env output.workflow start operations) w)
    (hconform : OutputsConform definition w.run) {nodeId : String}
    (hselected : nodeId ∈ selected output.workflow w.run) {node : CompiledNode}
    (hnode : output.workflow.nodes.get? nodeId = some node) {reference : RefPath}
    (href : reference ∈ node.expr.references)
    (hsecured : Secured output.workflow w.run nodeId reference) :
    ∃ value, resolveReferenceValue w.run reference = .ok value := by
  have hdone := hsecured.isDone hselected
  have hfurnished := hpicks.furnished env output.workflow
    (reached_furnished env output.workflow start operations)
  obtain ⟨value,hvalue⟩ := Option.isSome_iff_exists.mp (hfurnished _ hdone)
  have hfollow : ∃ found, followPath value reference.fieldPath = some found := by
    by_cases hpath : reference.fieldPath = []
    · exact ⟨value,by rw [hpath]; rfl⟩
    · obtain ⟨hskipped,schema,hschema,hrequires⟩ := hsecured.field hpath
      obtain ⟨hcompiled,rfl⟩ := compiled_of_compileWorkflow hcompile
      have hpresent : (schemaAtPath output.workflow.definition.defs schema
          reference.fieldPath).isSome = true := by
        obtain ⟨refs,hrefs,parsed,hparsed,rfl⟩ := hcompiled.reference_collected hnode href
        have hvalid := references_validated hcompile hrefs hparsed
        rw [validateReference] at hvalid
        by_cases hknown : parsed.reference.nodeId ∈ (nodeMap output.workflow.definition).keys
        · rw [if_neg (not_not.mpr hknown),noErrors_append,noErrors_require_error,
            noErrors_require_error,hschema,referencedSchema,hschema] at hvalid
          simpa using hvalid.2
        · rw [if_pos hknown] at hvalid
          simp [NoErrors,issueError] at hvalid
      exact followPath_of_requiresPath hpresent hrequires
        (hconform _ _ _ hschema (completed_of_isDone hdone hskipped) hvalue)
  obtain ⟨found,hfound⟩ := hfollow
  exact ⟨found,by rw [resolveReferenceValue,hvalue]; simp [hfound]⟩

def choiceSchema : Json :=
  .object [("properties",.object [("choice",.object [("type",.string "string")])]),
    ("required",.array [.string "choice"]),("type",.string "object")]

def choiceOutput (text : String) : Json := .object [("choice",.string text)]

attribute [local simp] Json.get? choiceSchema

theorem choiceOutput_conforms (defs : OrderedMap String Json) (text : String) :
    Conforms defs choiceSchema (choiceOutput text) := by
  have hfield : ∀ {value : Json} {name : String} {found : Json},
      (Json.object [("choice",value)]).get? name = some found → name = "choice" ∧ found = value := by
    intro value name found h
    by_cases hname : "choice" = name
    · simp [hname] at h
      exact ⟨hname.symm,h.symm⟩
    · simp [hname] at h
  have htext : ∀ depth, MeetsTo defs depth (.object [("type",.string "string")]) (.string text) := by
    intro depth
    cases depth with
    | zero => trivial
    | succ depth =>
      rw [MeetsTo,if_neg (by decide)]
      refine ⟨.inr ⟨"string",by decide,by simp [hasType]⟩,?_,?_,?_,?_,?_,?_⟩
      all_goals simp
  intro depth
  cases depth with
  | zero => trivial
  | succ depth =>
    rw [MeetsTo,if_neg (by decide)]
    refine ⟨.inr ⟨"object",by decide,by simp [hasType,choiceOutput]⟩,?_,?_,?_,?_,?_,?_⟩
    · simp
    · rintro fields - name hname
      have hchoice : name = "choice" := by
        rw [show requiredFields choiceSchema = ["choice"] by decide] at hname
        exact mem_singleton.mp hname
      rw [hchoice]
      rfl
    · intro name property field hproperty hget
      obtain ⟨-,rfl⟩ := hfield hget
      obtain ⟨-,rfl⟩ := hfield hproperty
      exact htext depth
    · simp
    · simp
    · simp

def requiredDefinition : WorkflowDefinition :=
  {chainDefinition with
    steps := [{functionStep "first" none with outputSchema := choiceSchema},
      functionStep "second" (some (Json.ofFields [("value",.string "$\x7bfirst.output.choice\x7d")]))]}

def pickedAfterOutput (workflow : CompiledWorkflow) : WorkflowRun :=
  (beginRun {worldAfter quietEnv workflow
    [.submitStepOutput "first" "user" (choiceOutput "yes")] with events := []}).2.run

theorem picked_references_resolve_required :
    ∃ output, compileWorkflow id 1 requiredDefinition = some (.ok output) ∧
      "second" ∈ selected output.workflow (pickedAfterOutput output.workflow) ∧
      ∃ value, resolveReferenceValue (pickedAfterOutput output.workflow) ⟨"first",["choice"]⟩ =
        .ok value := by
  obtain ⟨output,hout,hstates,hvalue,hschema,hselected,hnode,hdepends,hskipped,hrequires⟩ :=
    exists_compiled requiredDefinition (P := fun workflow =>
      (∀ entry ∈ (pickedAfterOutput workflow).nodeStates.entries, entry.2 = .completed →
        entry.1 = "first") ∧
      (pickedAfterOutput workflow).nodeOutputs.get? "first" = some (choiceOutput "yes") ∧
      (buildOutputSchemas requiredDefinition).get? "first" = some choiceSchema ∧
      "second" ∈ selected workflow (pickedAfterOutput workflow) ∧
      (workflow.nodes.get? "second").any (fun node =>
        decide (⟨"first",["choice"]⟩ ∈ node.expr.references)) = true ∧
      ("first" ∈ workflow.graph.dependencies "second" ∧
        encloses workflow "first" "second" = false) ∧
      (pickedAfterOutput workflow).nodeStates.get? "first" ≠ some .skipped ∧
      requiresPath requiredDefinition.defs choiceSchema ["choice"] = true)
    (by decide +kernel)
  obtain ⟨node,hget,href⟩ := (Option.any_eq_true _ _).mp hnode
  have hdefinition := (compiled_of_compileWorkflow hout).2
  refine ⟨output,hout,hselected,picked_references_resolve quietEnv hout
    ⟨"run",.empty,fun _ => none⟩ [.submitStepOutput "first" "user" (choiceOutput "yes")]
    (picks_begin quietEnv output.workflow _) ?_ hselected hget (of_decide_eq_true href) ⟨?_,?_⟩⟩
  · intro n schema value hn hcompleted houtput
    obtain rfl : n = "first" := hstates (n,.completed) ((mem_entries_iff
      (pickedAfterOutput output.workflow).nodeStates n .completed).mpr hcompleted) rfl
    obtain rfl := Option.some.inj (hschema.symm.trans hn)
    obtain rfl := Option.some.inj (hvalue.symm.trans houtput)
    exact choiceOutput_conforms _ "yes"
  · exact .inl hdepends
  · intro _
    rw [hdefinition]
    exact ⟨hskipped,choiceSchema,hschema,hrequires⟩

def optionalDefinition : WorkflowDefinition :=
  {chainDefinition with
    steps := [{functionStep "first" none with skippable := true},
      {functionStep "second" (some (Json.ofFields [("value",.string "$\x7bfirst.output.choice\x7d")])) with
        inputSchema := some (Json.ofFields [("type",.string "object"),
          ("properties",Json.ofFields [("value",Json.ofFields
            [("type",.array [.string "string",.string "null"])])])])}]}

def pickedAfterSkip (workflow : CompiledWorkflow) : WorkflowRun :=
  (beginRun {worldAfter quietEnv workflow [.humanAction skipFirst] with events := []}).2.run

/-- A step that may do without the output of a skipped step cannot be started after the skip. -/
theorem skipped_reference_unresolved :
    ∃ output, compileWorkflow id 1 optionalDefinition = some (.ok output) ∧
      output.workflow.warnings.length = 0 ∧ ∃ w node reference,
        Picks quietEnv output.workflow
          (worldAfter quietEnv output.workflow [.humanAction skipFirst]) w ∧
        OutputsConform optionalDefinition w.run ∧ "second" ∈ selected output.workflow w.run ∧
        output.workflow.nodes.get? "second" = some node ∧ reference ∈ node.expr.references ∧
        (resolveReferenceValue w.run reference).isOk = false := by
  obtain ⟨output,hout,hwarnings,hstates,hselected,hnode⟩ := exists_compiled optionalDefinition
    (P := fun workflow => workflow.warnings.length = 0 ∧
      (∀ entry ∈ (pickedAfterSkip workflow).nodeStates.entries, entry.2 ≠ .completed) ∧
      "second" ∈ selected workflow (pickedAfterSkip workflow) ∧
      (workflow.nodes.get? "second").any (fun node => node.expr.references.any fun reference =>
        !(resolveReferenceValue (pickedAfterSkip workflow) reference).isOk) = true)
    (by decide +kernel)
  obtain ⟨node,hget,hreference⟩ := (Option.any_eq_true _ _).mp hnode
  obtain ⟨reference,href,hfails⟩ := any_eq_true.mp hreference
  refine ⟨output,hout,hwarnings,_,node,reference,picks_begin quietEnv output.workflow _,?_,hselected,
    hget,href,(Bool.not_eq_true' _).mp hfails⟩
  intro n schema value _ hcompleted
  exact absurd rfl (hstates _ ((mem_entries_iff
    (pickedAfterSkip output.workflow).nodeStates n .completed).mpr hcompleted))

end BuckyOS.Workflow
