import BuckyOS.Workflow.Traces

/-! The result cache. An entry is filed under the executor and the input that its output was computed
from, as long as the input of a node does not change while a thunk computes with it. -/
namespace BuckyOS.Workflow
open Fallible Relation

/-- Where the output filed under a key comes from: the answer of a direct execution, or a report
about a thunk that was built for a node of the workflow. -/
inductive Produced (workflow : CompiledWorkflow) (v : View) (key : ObjectId) (output : Json) : Prop
  | answer (node : CompiledNode) (executor : ExecutorRef) (input : Json)
    (hkey : key = cacheKey node input) (hexecutor : node.executor? = some executor)
    (hcall : ⟨executor,input,.ok output⟩ ∈ v.invoked)
  | report (node : CompiledNode) (runId : String) (input : Json) (attempt : ℕ) (s : ScheduledThunk)
    (hkey : key = cacheKey node input) (hnode : workflow.nodes.get? node.id = some node)
    (hs : s ∈ v.scheduled) (hbuild : buildThunk runId node input attempt = .ok s)
    (hreported : (s.thunkObjId,output) ∈ v.reported)

/-- Every cache entry is one of the initial ones or was produced for its key. -/
def Cached (workflow : CompiledWorkflow) (initial : ObjectId → Option Json) (v : View) : Prop :=
  ∀ key, key.objectType = "workflow_cache" → ∀ entry, v.store key = some entry →
    initial key = some entry ∨
      ∃ output, entry.get? "result" = some output ∧ Produced workflow v key output

structure Grows (v v' : View) : Prop where
  invoked : v.invoked ⊆ v'.invoked
  scheduled : v.scheduled ⊆ v'.scheduled
  reported : v.reported ⊆ v'.reported

section
variable {workflow : CompiledWorkflow} {scope : Scope} {v v' : View}

theorem Produced.mono {key : ObjectId} {output : Json} (h : Produced workflow v key output)
    (hgrows : Grows v v') : Produced workflow v' key output := by
  cases h with
  | answer node executor input hkey hexecutor hcall =>
    exact .answer node executor input hkey hexecutor (hgrows.invoked hcall)
  | report node runId input attempt s hkey hnode hs hbuild hreported =>
    exact .report node runId input attempt s hkey hnode (hgrows.scheduled hs) hbuild
      (hgrows.reported hreported)

theorem Move.grows (hmove : Move workflow scope v v') : Grows v v' := by
  cases hmove with
  | dispatch | dispatchShard => exact ⟨fun _ h => h,List.subset_append_left _ _,fun _ h => h⟩
  | invoke => exact ⟨List.subset_append_left _ _,fun _ h => h,fun _ h => h⟩
  | report => exact ⟨fun _ h => h,fun _ h => h,List.subset_append_left _ _⟩
  | _ => exact ⟨fun _ h => h,fun _ h => h,fun _ h => h⟩

variable {initial : ObjectId → Option Json}

theorem Cached.mono (h : Cached workflow initial v) (hgrows : Grows v v')
    (hstore : ∀ key, key.objectType = "workflow_cache" → v'.store key = v.store key) :
    Cached workflow initial v' := by
  intro key hkey entry hentry
  rw [hstore key hkey] at hentry
  rcases h key hkey entry hentry with hold | ⟨output,hresult,hproduced⟩
  · exact .inl hold
  · exact .inr ⟨output,hresult,hproduced.mono hgrows⟩

theorem Cached.keep (h : Cached workflow initial v) {key outputId : ObjectId}
    {output metrics : Json} (hproduced : Produced workflow v key output) :
    Cached workflow initial {v with
      store := Function.update v.store key (some (cacheEntry outputId output metrics))} := by
  have hgrows : Grows v {v with
      store := Function.update v.store key (some (cacheEntry outputId output metrics))} :=
    ⟨fun _ h => h,fun _ h => h,fun _ h => h⟩
  intro key' hkey' entry hentry
  change Function.update v.store key _ key' = some entry at hentry
  by_cases hsame : key' = key
  · subst hsame
    rw [Function.update_self,Option.some.injEq] at hentry
    subst hentry
    exact .inr ⟨output,by simp [cacheEntry,Json.get?],hproduced.mono hgrows⟩
  · rw [Function.update_of_ne hsame] at hentry
    rcases h key' hkey' entry hentry with hold | ⟨output',hresult,hproduced'⟩
    · exact .inl hold
    · exact .inr ⟨output',hresult,hproduced'.mono hgrows⟩

/-- The thunks whose results may be filed run the node, on the input that the result is filed
under. -/
def FilesOwn (workflow : CompiledWorkflow) (scope : Scope) (v : View) : Prop :=
  ∀ id node input, scope.files id node input → workflow.nodes.get? node.id = some node →
    ∃ runId attempt, ∃ s ∈ v.scheduled, s.thunkObjId = id ∧
      buildThunk runId node input attempt = .ok s

theorem Move.cached (hmove : Move workflow scope v v') (hfiles : FilesOwn workflow scope v)
    (h : Cached workflow initial v) : Cached workflow initial v' := by
  have hgrows := hmove.grows
  cases hmove with
  | put id value hid =>
    refine h.mono hgrows ?_
    intro key hkey
    have hne : key ≠ id := fun hsame => hid (hsame ▸ hkey)
    exact Function.update_of_ne hne _ _
  | keepAnswer node executor input output outputId metrics hexecutor hcall =>
    exact h.keep (.answer node executor input rfl hexecutor hcall)
  | keepResult node id input output outputId metrics hnode hreport hfile =>
    obtain ⟨runId,attempt,s,hs,rfl,hbuild⟩ := hfiles id node input hfile hnode
    exact h.keep (.report node runId input attempt s rfl hnode hs hbuild hreport)
  | _ => exact h.mono hgrows fun _ _ => rfl

theorem Reach.cached (hreach : Reach workflow scope v v') (hfiles : FilesOwn workflow scope v)
    (h : Cached workflow initial v) : Cached workflow initial v' := by
  suffices FilesOwn workflow scope v' ∧ Cached workflow initial v' from this.2
  induction hreach with
  | refl => exact ⟨hfiles,h⟩
  | tail _ hmove ih =>
    refine ⟨?_,hmove.cached ih.1 ih.2⟩
    intro id node input hfile hnode
    obtain ⟨runId,attempt,s,hs,hid,hbuild⟩ := ih.1 id node input hfile hnode
    exact ⟨runId,attempt,s,hmove.grows.scheduled hs,hid,hbuild⟩

end

section Runs
variable (workflow : CompiledWorkflow)

/-- A report whose result will be kept finds the node with the input that the thunk was sent off
with. -/
def InputKept (w : World) : Operation → Prop
  | .thunkResult result => ∀ node input, workflow.nodes.get? node.id = some node →
      Filing w.run w.store result node input → result.thunkObjId.content.get? "params" = some input
  | _ => True

variable {workflow} {w : World} {executor : ExecutorRef} {funId : Option String} {input : Json}

theorem InputKept.filesOwn {operation : Operation} (h : InputKept workflow w operation)
    (htraced : Traced workflow w.view) :
    FilesOwn workflow (callScope workflow False w operation) w.view := by
  cases operation with
  | thunkResult result =>
    rintro id node input ⟨rfl,hfiling⟩ hnode
    obtain ⟨t,hfind,hshard,hid⟩ := hfiling.pending
    obtain ⟨ht,hkey⟩ := (Registry.find?_eq_some_iff _).mp hfind
    obtain ⟨s,hs,hsid⟩ := List.mem_map.mp (htraced.sent t ht)
    obtain ⟨howner,hforEach⟩ := htraced.owner t ht
    rw [← hsid,hshard] at hforEach
    rw [← hsid,hid] at howner
    obtain ⟨node',runId,input',attempt,hnode',hbuild⟩ := (htraced.source s hs).of_owner hforEach howner
    obtain rfl : node = node' := Option.some.inj (hnode.symm.trans hnode')
    have hparams := h node input hnode hfiling
    obtain ⟨funId,hs',-⟩ := buildThunk_ok hbuild
    have hsame : input = input' := by
      rw [← hkey,← hsid,hs'] at hparams
      simpa [ScheduledThunk.ofParts,deterministicObjectId,Json.get?] using hparams.symm
    exact ⟨runId,attempt,s,hs,hsid.trans hkey,hsame ▸ hbuild⟩
  | taskData data =>
    intro id node input hfile
    rw [callScope] at hfile
    split at hfile
    · exact False.elim hfile
    · exact False.elim hfile
  | _ => exact fun _ _ _ hfile => False.elim hfile

theorem cacheAddress_eq {node : CompiledNode} {executor' : ExecutorRef} {input' : Json}
    (h : cacheAddress executor funId input = cacheKey node input')
    (hexecutor : node.executor? = some executor') : executor'.asStr = executor.asStr ∧ input' = input := by
  rw [CompiledNode.executor?] at hexecutor
  rw [cacheKey] at h
  split at hexecutor
  · rename_i executor₀ funId₀ params mode idempotent stepType guards hexpr
    obtain rfl := Option.some.inj hexecutor
    rw [hexpr] at h
    simp only [cacheAddress,deterministicObjectId,ObjectId.mk.injEq,Json.object.injEq,List.cons.injEq,
      Prod.mk.injEq,Json.string.injEq,true_and,and_true] at h
    exact ⟨h.1.symm,h.2.2.symm⟩
  · simp at hexecutor

/-- An execution of an executor on an input that gave an output: directly, or through a thunk built
for a node with that executor. -/
def Executed (workflow : CompiledWorkflow) (w : World) (executor : ExecutorRef) (input output : Json) :
    Prop :=
  (∃ call ∈ w.invoked, call.executor.asStr = executor.asStr ∧ call.input = input ∧
    call.answer = .ok output) ∨
  ∃ s ∈ w.scheduled, (s.thunkObjId,output) ∈ w.reported ∧ s.thunk.params = input ∧
    ∃ node, workflow.nodes.get? node.id = some node ∧
      node.executor?.map ExecutorRef.asStr = some executor.asStr ∧
        ∃ runId attempt, buildThunk runId node input attempt = .ok s

theorem Cached.executed {initial : ObjectId → Option Json} (h : Cached workflow initial w.view)
    {entry : Json} (hentry : w.store (cacheAddress executor funId input) = some entry) :
    initial (cacheAddress executor funId input) = some entry ∨
      ∃ output, entry.get? "result" = some output ∧ Executed workflow w executor input output := by
  rcases h _ rfl entry hentry with hold | ⟨output,hresult,hproduced⟩
  · exact .inl hold
  · refine .inr ⟨output,hresult,?_⟩
    cases hproduced with
    | answer node executor' input' hkey hexecutor hcall =>
      obtain ⟨hsame,rfl⟩ := cacheAddress_eq hkey hexecutor
      exact .inl ⟨_,hcall,hsame,rfl,rfl⟩
    | report node runId input' attempt s hkey hnode hs hbuild hreported =>
      obtain ⟨funId',hs',executor',params,mode,idempotent,stepType,guards,hexpr⟩ := buildThunk_ok hbuild
      have hexecutor : node.executor? = some executor' := by rw [CompiledNode.executor?,hexpr]
      obtain ⟨hsame,rfl⟩ := cacheAddress_eq hkey hexecutor
      refine .inr ⟨s,hs,hreported,by rw [hs']; rfl,node,hnode,?_,runId,attempt,hbuild⟩
      rw [hexecutor,← hsame]
      rfl

end Runs

/-- In every run whose kept reports find the input of their node unchanged, every entry of the cache
under the key of an executor and an input was there before the run or is the result of executing it
on that input. -/
theorem run_cacheSound {hashExecutor : String → String} {fuel : ℕ} {definition : WorkflowDefinition}
    {output : CompileOutput} (h : compileWorkflow hashExecutor fuel definition = some (.ok output))
    (env : Env) (start : RunStart) {operations : List Operation}
    (halong : Machine.Along (step env output.workflow) (InputKept output.workflow)
      (createdWorld env output.workflow start) operations) (executor : ExecutorRef)
    (funId : Option String) (input entry : Json)
    (hentry : (reached env output.workflow start operations).store
      (cacheAddress executor funId input) = some entry) :
    start.store (cacheAddress executor funId input) = some entry ∨
      ∃ result, entry.get? "result" = some result ∧
        Executed output.workflow (reached env output.workflow start operations) executor input
          result := by
  have hids := (compiled_of_compileWorkflow h).1.keyed
  have hcached : Cached output.workflow start.store
      (reached env output.workflow start operations).view := by
    refine (Machine.run_invariant_along (I := fun w : World => Traced output.workflow w.view ∧
      Cached output.workflow start.store w.view) ?_ ⟨traced_created env _ start,?_⟩ halong).2
    · rintro w operation ⟨htraced,hcached⟩ hkept
      exact ⟨step_traced env hids htraced operation,
        Reach.cached (step_moves env hids htraced operation) (hkept.filesOwn htraced) hcached⟩
    · rw [createdWorld_view]
      exact fun _ _ _ hentry => .inl hentry
  exact hcached.executed hentry

def inputKept (workflow : CompiledWorkflow) (w : World) : Operation → Bool
  | .thunkResult result =>
    match w.run.pendingThunks.find? result.thunkObjId, reportedValue w.store result with
    | some t, some output =>
      match workflow.nodes.get? t.nodeId with
      | some node =>
        match resolveApplyInput (w.run.setOutput t.nodeId output) node with
        | .ok input => decide (result.thunkObjId.content.get? "params" = some input)
        | .error _ => true
      | none => true
    | _, _ => true
  | _ => true

theorem inputKept_sound {workflow : CompiledWorkflow} {w : World} {operation : Operation}
    (h : inputKept workflow w operation = true) : InputKept workflow w operation := by
  cases operation with
  | thunkResult result =>
    rintro node input hnode ⟨⟨t,hfind,-,hid⟩,-,-,output,hvalue,hinput⟩
    rw [← hid] at hnode hinput
    simp only [inputKept,hfind,hvalue,hnode,hinput] at h
    exact of_decide_eq_true h
  | _ => trivial

def functionInput (value : Json) : Json := Json.ofFields [("value",value)]

def functionExecutor : ExecutorRef := .actual "func::f"

theorem run_cacheSound_chain :
    ∃ output, compileWorkflow id 1 chainDefinition = some (.ok output) ∧
      ∃ t ∈ (worldAfter quietEnv output.workflow [.tick]).run.pendingThunks.items,
        ∃ result, Executed output.workflow
          (worldAfter quietEnv output.workflow [.tick,done t (.string "x")]) functionExecutor (.object [])
            result := by
  obtain ⟨output,hout,t,ht,halong,hentry⟩ :=
    exists_compiled chainDefinition (P := fun workflow =>
      ∃ t ∈ (worldAfter quietEnv workflow [.tick]).run.pendingThunks.items,
        Machine.Along (step quietEnv workflow) (fun w operation => inputKept workflow w operation = true)
          (worldAfter quietEnv workflow []) [.tick,done t (.string "x")] ∧
        ((worldAfter quietEnv workflow [.tick,done t (.string "x")]).store
          (cacheAddress functionExecutor (some "func::f") (.object []))).isSome = true)
      (by decide +kernel)
  obtain ⟨entry,hentry⟩ := Option.isSome_iff_exists.mp hentry
  rcases run_cacheSound hout quietEnv ⟨"run",.empty,fun _ => none⟩
    (halong.mono fun _ _ => inputKept_sound) functionExecutor (some "func::f") (.object []) entry
    hentry with hold | ⟨result,-,hexecuted⟩
  · simp at hold
  · exact ⟨output,hout,t,ht,result,hexecuted⟩

/-- The first function is skipped while the second one runs on its output: the result of the second
is filed under an input that nothing was executed on. -/
theorem skip_misfiles_result :
    ∃ output, compileWorkflow id 1 chainDefinition = some (.ok output) ∧
      ∃ operations, ((worldAfter quietEnv output.workflow operations).store
        (cacheAddress functionExecutor (some "func::f") (functionInput .null))).isSome = true ∧
      ∀ result, ¬ Executed output.workflow (worldAfter quietEnv output.workflow operations)
        functionExecutor (functionInput .null) result := by
  obtain ⟨output,hout,t,-,t',-,hentry,hinvoked,hparams⟩ :=
    exists_compiled chainDefinition (P := fun workflow =>
      ∃ t ∈ (worldAfter quietEnv workflow [.tick]).run.pendingThunks.items,
        ∃ t' ∈ (worldAfter quietEnv workflow
            [.tick,done t (.string "x"),.tick]).run.pendingThunks.items,
          ((worldAfter quietEnv workflow [.tick,done t (.string "x"),.tick,.humanAction skipFirst,
            done t' (.string "y")]).store
              (cacheAddress functionExecutor (some "func::f") (functionInput .null))).isSome = true ∧
          (worldAfter quietEnv workflow [.tick,done t (.string "x"),.tick,.humanAction skipFirst,
            done t' (.string "y")]).invoked.length = 0 ∧
          ∀ s ∈ (worldAfter quietEnv workflow [.tick,done t (.string "x"),.tick,
              .humanAction skipFirst,done t' (.string "y")]).scheduled,
            s.thunk.params ≠ functionInput .null)
      (by decide +kernel)
  refine ⟨output,hout,_,hentry,?_⟩
  rintro result (⟨call,hcall,-⟩ | ⟨s,hs,-,hinput,-⟩)
  · rw [List.length_eq_zero_iff.mp hinvoked] at hcall
    simp at hcall
  · exact hparams s hs hinput

end BuckyOS.Workflow
