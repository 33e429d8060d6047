import BuckyOS.TaskManager.Fencing
import BuckyOS.TaskManager.Permissions

/-! Every task stands in a tree: its parents lead to the root it names, and who created it reads it
as long as the walk along them goes that far. -/
namespace BuckyOS.TaskManager
open TaskStore List OrderedMap Machine TaskServer TaskPermission

section Rooted
variable {env : TaskEnv} {s s' : TaskStore} {stamp : Stamp} {args : CreateTaskArgs} {rootId : TaskId}

/-- Every task has a chain of parents that ends at the root it names. -/
def TaskStore.Rooted (s : TaskStore) : Prop :=
  ∀ {id row}, s.tasks.get? id = some row →
    ∃ ids, s.Chain id ids ∧ ids.getLast? = some row.rootId

theorem TaskStore.Rooted.later (hs : s.Rooted) (hlater : Later s s')
    (hrows : ∀ id row', s'.tasks.get? id = some row' → ∃ row, s.tasks.get? id = some row) : s'.Rooted := by
  intro id row' hrow'
  obtain ⟨row,hrow⟩ := hrows id row' hrow'
  obtain ⟨ids,hchain,hlast⟩ := hs hrow
  obtain ⟨row'',hrow'',hfixed,-⟩ := hlater hrow
  obtain rfl := Option.some.inj (hrow''.symm.trans hrow')
  exact ⟨ids,hchain.mono hlater,by rw [hlast,Task.rootId_of_fixed hfixed]⟩

theorem TaskStore.Rewrite.rooted {old new : Task} {event : TaskEvent}
    (h : Rewrite s s' old new event) (hs : s.Rooted) : s'.Rooted := by
  refine hs.later h.later ?_
  intro id row' hrow'
  rw [h.get?] at hrow'
  split at hrow'
  · rename_i hid
    exact ⟨old,by rw [hid,h.found]⟩
  · exact ⟨row',hrow'⟩

theorem TaskStore.Creation.rooted (h : Creation env stamp args s s' rootId) (hs : s.Rooted) :
    s'.Rooted := by
  intro id row hrow
  rw [h.get?] at hrow
  split at hrow
  · rename_i hid
    subst hid
    obtain rfl := Option.some.inj hrow
    have hstored : s'.tasks.get? stamp.newId = some (newTask env stamp rootId args) := by
      rw [h.get?,if_pos rfl]
    have hroot := h.root
    cases hparent : args.parentId with
    | none =>
      rw [hparent] at hroot
      obtain rfl := Except.ok.inj hroot
      exact ⟨[stamp.newId],.root hstored hparent,rfl⟩
    | some parentId =>
      rw [hparent,rootFor] at hroot
      split at hroot
      · rename_i parent hfound
        obtain ⟨parentRow,hparentRow,rfl⟩ := getTask_eq_some.mp hfound
        obtain ⟨ids,hchain,hlast⟩ := hs hparentRow
        refine ⟨stamp.newId :: ids,.child hstored hparent (hchain.mono h.later),?_⟩
        have hsame : (s.attachAssignees parentRow).rootId = parentRow.rootId := by
          rw [attachAssignees]
          split <;> rfl
        rw [getLast?_cons_of_ne_nil hchain.ne_nil,hlast,← hsame,Except.ok.inj hroot]
        rfl
      · exact absurd hroot (by simp)
  · obtain ⟨ids,hchain,hlast⟩ := hs hrow
    exact ⟨ids,hchain.mono h.later,hlast⟩

theorem Written.rooted {flight : Flight} (h : Written env flight stamp s s') (hs : s.Rooted) :
    s'.Rooted := by
  cases h with
  | change _ _ _ _ rewrite | touch _ _ rewrite => exact rewrite.rooted hs
  | create _ creation => exact creation.rooted hs
  | aside tasks assignees _ =>
    refine hs.later (Later.of_rows tasks assignees) ?_
    intro id row hrow
    exact ⟨row,by rw [← tasks,hrow]⟩

end Rooted

section Reading
variable {env : TaskEnv} {s : TaskStore} {ctx : RequestContext}

theorem visible_of_createdBy {task : Task} {reach : List TaskId × Bool}
    (h : createdBy ctx.principal task = true) :
    (granted env s ctx.principal task reach).visible = true := by
  obtain ⟨hungranted,-⟩ := granted_le_iff.mp (le_refl (granted env s ctx.principal task reach))
  refine allows_of_le hungranted ?_
  rw [ungranted]
  refine allows_of_le (le_addIf _ _ _ _) ?_
  refine allows_of_le (le_addIf _ _ _ _) ?_
  rw [expandCollaborativeTreePreset]
  refine allows_of_le (le_addIf _ _ _ _) ?_
  refine allows_of_le (le_addIf _ _ _ _) ?_
  simp [relationsTo,h,addIf,allows,add]

theorem getTask_of_creator (hkeyed : s.Keyed) {id : TaskId} {row : Task}
    (hrow : s.tasks.get? id = some row) {ids : List TaskId} (hchain : s.Chain id ids)
    (hcreator : createdBy ctx.principal row = true) (stamps : ℕ → Stamp) :
    (∃ task, (handle env ctx s stamps (.getTask id)).1 = .ok (.task task)) ↔ ids.length ≤ 129 := by
  have hfound : s.getTask id = some (s.attachAssignees row) := getTask_eq_some.mpr ⟨row,hrow,rfl⟩
  have hid : (s.attachAssignees row).taskId = id := (hkeyed.row hfound).2
  have hcreator' : createdBy ctx.principal (s.attachAssignees row) = true := by
    have hsame : (s.attachAssignees row).creator = row.creator := by
      rw [attachAssignees]
      split <;> rfl
    rwa [createdBy,hsame]
  rw [handle,prepare,handleGetTask,loadVisible,loadTask,hfound]
  simp only [bind,Except.bind,computePermission_eq,hid,hchain.getTaskChain_eq]
  by_cases hlength : ids.length ≤ 129
  · simp only [hlength,if_true,Except.map,visible_of_createdBy hcreator',pure,Except.pure,carryOut,iff_true]
    exact ⟨_,rfl⟩
  · simp [hlength,Except.map]

end Reading

section Runs
variable {env : TaskEnv} {server : TaskServer}

theorem step_rooted (h : server.Sprung env) (hrooted : server.store.Rooted) (input : TaskInput) :
    (server.step env input).2.store.Rooted := by
  rcases step_written h input with hsame | ⟨_,_,_,_,_,_,hwritten⟩
  · rw [hsame]
    exact hrooted
  · exact hwritten.rooted hrooted

/-- In every run each task stands at the end of a chain without repetition that begins at its root,
and who created it reads it when that chain has no more tasks than the walk may meet. -/
theorem created_tasks_rooted_and_readable (env : TaskEnv) (server : TaskServer)
    (hkeyed : server.store.Keyed) (hrooted : server.store.Rooted) (hidle : server.flights = [])
    (inputs : List TaskInput) (id : TaskId) (row : Task)
    (hrow : (server.after env inputs).store.tasks.get? id = some row) :
    ∃ ids, (server.after env inputs).store.Chain id ids ∧ ids.Nodup ∧
      ids.getLast? = some row.rootId ∧
      ∀ ctx, createdBy ctx.principal row = true → ∀ stamps,
        ((∃ task, (handle env ctx (server.after env inputs).store stamps (.getTask id)).1 =
            .ok (.task task)) ↔ ids.length ≤ 129) := by
  obtain ⟨hsprung,hends⟩ : (server.after env inputs).Sprung env ∧
      (server.after env inputs).store.Rooted :=
    run_invariant (I := fun server : TaskServer => server.Sprung env ∧ server.store.Rooted)
      (fun _ input hs => ⟨step_sprung hs.1 input,step_rooted hs.1 hs.2 input⟩)
      ⟨sprung_of_idle hkeyed hidle,hrooted⟩ _
  obtain ⟨ids,hchain,hlast⟩ := hends hrow
  exact ⟨ids,hchain,hchain.nodup,hlast,
    fun ctx hcreator stamps => getTask_of_creator hsprung.keyed hrow hchain hcreator stamps⟩

end Runs

section Lines
/-- The request for the next task of a line, a child of the one before, for a user of its own. -/
def nextOfLine (k : ℕ) : CreateDelegatedTaskReq where
  name := "draft"
  schemaId := "raw"
  input := .null
  creator := {userId := level (k + 1), appId := "editor"}
  parentId := if k = 0 then none else some (level k)
  idempotencyKey := "k"

def createNext (k : ℕ) : List TaskInput :=
  [.start dispatchCaller (.createDelegatedTask (nextOfLine k)) 0,
    .advance 0 ⟨k,level (k + 1),k,0⟩]

def createLine : ℕ → List TaskInput
  | 0 => []
  | k + 1 => createLine k ++ createNext k

/-- A server that has a line of tasks and nothing else. -/
structure Line (n : ℕ) (server : TaskServer) : Prop where
  idle : server.flights = []
  schemas : server.store.schemas = [rawSchema]
  rows : ∀ {id row}, server.store.tasks.get? id = some row →
    ∃ k < n, id = level (k + 1) ∧ row.creator = (nextOfLine k).creator
  events : ∀ event ∈ server.store.events, ∃ k < n, event.draw = ⟨k,k,0⟩ ∧
    event.taskId = level (k + 1)
  chain : ∀ k < n, ∃ ids, server.store.Chain (level (k + 1)) ids ∧ ids.length = k + 1

theorem trim_level (k : ℕ) : Text.trim (level k) = level k := by
  simp [Text.trim,Text.trimChars,level,rdropWhile,
    show Text.isWhiteSpace 'a' = false by decide]

theorem level_succ_ne (k : ℕ) : level (k + 1) ≠ "" := by
  intro h
  exact absurd (@level_injective (k + 1) 0 h) (by simp)

variable {server : TaskServer} {n : ℕ}

def lineArgs (n : ℕ) : CreateTaskArgs := (nextOfLine n).args dispatchCaller rawSchema

theorem prepare_createNext (h : Line n server) :
    prepare plainEnv server.store dispatchCaller 0 (.createDelegatedTask (nextOfLine n)) =
      .ok {plan := .create (lineArgs n)} := by
  have hschema : server.store.getSchema "raw" none = .ok rawSchema := by
    rw [getSchema,h.schemas]
    rfl
  have hchecked : checkDelegated (nextOfLine n).name (nextOfLine n).idempotencyKey
      (nextOfLine n).creator = .ok () := by
    have huser : Text.trim (nextOfLine n).creator.userId ≠ "" := by
      rw [nextOfLine,trim_level]
      exact level_succ_ne n
    rw [checkDelegated,if_neg (by simp [nextOfLine]; decide),if_neg (by
      rw [not_or]
      exact ⟨huser,show ¬ Text.trim "editor" = "" by decide⟩)]
  rw [prepare,handleCreateDelegatedTask,hchecked,resolveSchema]
  simp only [nextOfLine,hschema]
  rfl

theorem creation_createNext (h : Line n server) (hn : n < 10 ^ 13) :
    ∃ s' rootId, Creation plainEnv ⟨n,level (n + 1),n,0⟩ (lineArgs n) server.store s'
      rootId := by
  have hroot : ∃ rootId, server.store.rootFor ⟨n,level (n + 1),n,0⟩
      (lineArgs n).parentId = .ok rootId := by
    cases n with
    | zero => exact ⟨_,rfl⟩
    | succ n =>
      obtain ⟨ids,hchain,-⟩ := h.chain n (Nat.lt_succ_self n)
      obtain ⟨row,hrow⟩ := hchain.row
      refine ⟨(server.store.attachAssignees row).rootId,?_⟩
      have hfound : server.store.getTask (level (n + 1)) = some (server.store.attachAssignees row) :=
        getTask_eq_some.mpr ⟨row,hrow,rfl⟩
      simp only [lineArgs,CreateDelegatedTaskReq.args,nextOfLine,Nat.succ_ne_zero,if_false,rootFor,hfound]
  have hother : ∀ k < n, level (k + 1) ≠ level (n + 1) := by
    intro k hk hsame
    have := level_injective hsame
    omega
  obtain ⟨rootId,hroot⟩ := hroot
  refine ⟨_,rootId,hroot,?_,rfl,?_,nodup_nil,rfl,?_⟩
  · rw [findByIdempotency,Option.map_eq_none_iff,find?_eq_none]
    intro task htask hsame
    obtain ⟨id,hrow⟩ := (mem_values_iff _ _).mp htask
    obtain ⟨k,hk,-,hcreator⟩ := h.rows hrow
    rw [decide_eq_true_eq,hcreator] at hsame
    exact hother k hk hsame.1
  · intro hmem
    obtain ⟨row,hrow⟩ := (mem_keys_iff _ _).mp hmem
    obtain ⟨k,hk,hid,-⟩ := h.rows hrow
    exact hother k hk hid.symm
  · intro event hevent
    obtain ⟨k,hk,hid,htask⟩ := h.events event hevent
    have hlt : newEventId event.draw < newEventId ⟨n,n,0⟩ := by
      rw [hid]
      exact newEventId_lt ⟨hn,hk.le,fun hsame => absurd hsame hk.ne⟩
    refine ⟨hlt.ne,?_⟩
    rintro ⟨hsame,-⟩
    exact hother k hk (htask.symm.trans hsame)

theorem after_createNext (h : Line n server) {s' : TaskStore} {rootId : TaskId}
    (hcreation : Creation plainEnv ⟨n,level (n + 1),n,0⟩ (lineArgs n) server.store s'
      rootId) : server.after plainEnv (createNext n) = {store := s'} := by
  have hstart : server.step plainEnv (.start dispatchCaller (.createDelegatedTask (nextOfLine n)) 0) =
      (none,{server with flights := [{
        ctx := dispatchCaller
        request := .createDelegatedTask (nextOfLine n)
        seen := none
        plan := .create (lineArgs n)}]}) := by
    rw [TaskServer.step,start,prepare_createNext h,h.idle]
    rfl
  rw [TaskServer.after,createNext,run_cons,run_cons,run_nil,hstart]
  simp only [TaskServer.step,TaskServer.advance,getElem?_cons_zero,carryOut,
    hcreation.createTask,answered,land,eraseIdx_cons_zero]

theorem line_createNext (h : Line n server) (hn : n < 10 ^ 13) :
    Line (n + 1) (server.after plainEnv (createNext n)) := by
  obtain ⟨s',rootId,hcreation⟩ := creation_createNext h hn
  rw [after_createNext h hcreation]
  refine ⟨rfl,?_,?_,?_,?_⟩
  · rw [hcreation.eq]
    exact h.schemas
  · intro id row hrow
    rw [hcreation.get?] at hrow
    split at hrow
    · rename_i hid
      rw [← Option.some.inj hrow]
      exact ⟨n,Nat.lt_succ_self n,hid,rfl⟩
    · obtain ⟨k,hk,hrest⟩ := h.rows hrow
      exact ⟨k,by omega,hrest⟩
  · intro event hevent
    rw [hcreation.eq] at hevent
    rcases mem_append.mp hevent with hevent | hevent
    · obtain ⟨k,hk,hrest⟩ := h.events event hevent
      exact ⟨k,by omega,hrest⟩
    · rw [mem_singleton.mp hevent]
      exact ⟨n,Nat.lt_succ_self n,rfl,rfl⟩
  · intro k hk
    by_cases hlast : k = n
    · subst hlast
      have hstored := (hcreation.get? (level (k + 1))).trans (if_pos rfl)
      cases k with
      | zero => exact ⟨[level 1],.root hstored rfl,rfl⟩
      | succ k =>
        obtain ⟨ids,hchain,hlength⟩ := h.chain k (Nat.lt_succ_self k)
        exact ⟨_,.child hstored rfl (hchain.mono hcreation.later),by rw [length_cons,hlength]⟩
    · obtain ⟨ids,hchain,hlength⟩ := h.chain k (by omega)
      exact ⟨ids,hchain.mono hcreation.later,hlength⟩

theorem after_append (env : TaskEnv) (server : TaskServer) (xs ys : List TaskInput) :
    server.after env (xs ++ ys) = (server.after env xs).after env ys := by
  rw [TaskServer.after,run_append]
  rfl

theorem line_createLine {n : ℕ} (hn : n ≤ 10 ^ 13) : Line n (freshServer.after plainEnv (createLine n)) := by
  induction n with
  | zero =>
    refine ⟨rfl,rfl,?_,?_,?_⟩
    · intro id row hrow
      exact absurd hrow (by simp [createLine,TaskServer.after,freshServer,get?,empty])
    · intro event hevent
      exact absurd hevent (by simp [createLine,TaskServer.after,freshServer])
    · intro k hk
      omega
  | succ n ih =>
    rw [createLine,after_append]
    exact line_createNext (ih (by omega)) (by omega)

theorem rooted_freshServer : freshServer.store.Rooted :=
  fun h => absurd h (by simp [freshServer,get?,empty])

theorem last_of_line {n : ℕ} (hn : n < 10 ^ 13) : ∃ row ids,
    (freshServer.after plainEnv (createLine (n + 1))).store.tasks.get? (level (n + 1)) = some row ∧
    row.creator = (nextOfLine n).creator ∧
    (freshServer.after plainEnv (createLine (n + 1))).store.Chain (level (n + 1)) ids ∧
    ids.length = n + 1 := by
  have hline := line_createLine (n := n + 1) hn
  obtain ⟨ids,hchain,hlength⟩ := hline.chain n (Nat.lt_succ_self n)
  obtain ⟨row,hrow⟩ := hchain.row
  obtain ⟨k,-,hid,hcreator⟩ := hline.rows hrow
  obtain rfl : n = k := Nat.succ.inj (level_injective hid)
  exact ⟨row,ids,hrow,hcreator,hchain,hlength⟩

def userOfLine (n : ℕ) : RequestContext := {userId := level (n + 1), appId := "editor"}

theorem createdBy_userOfLine {row : Task} (h : row.creator = (nextOfLine n).creator) :
    createdBy (userOfLine n).principal row = true := by
  rw [createdBy,h]
  exact decide_eq_true ⟨rfl,rfl⟩

def Reads (s : TaskStore) (ctx : RequestContext) (taskId : TaskId) : Prop :=
  ∃ task, (handle plainEnv ctx s (fun _ => ⟨0,"",0,0⟩) (.getTask taskId)).1 = .ok (.task task)

theorem created_tasks_rooted_and_readable_line :
    ∃ row ids, (freshServer.after plainEnv (createLine 2)).store.tasks.get? (level 2) = some row ∧
      (freshServer.after plainEnv (createLine 2)).store.Chain (level 2) ids ∧
      ids.getLast? = some row.rootId ∧
      Reads (freshServer.after plainEnv (createLine 2)).store (userOfLine 1) (level 2) := by
  obtain ⟨row,ids,hrow,hcreator,hchain,hlength⟩ := last_of_line (n := 1) (by decide)
  obtain ⟨ids',hchain',-,hlast,hreads⟩ := created_tasks_rooted_and_readable plainEnv freshServer
    sound_freshServer.keyed rooted_freshServer rfl (createLine 2) (level 2) row hrow
  obtain rfl := hchain.unique hchain'
  exact ⟨row,ids,hrow,hchain,hlast,(hreads _ (createdBy_userOfLine hcreator) _).mpr (by omega)⟩

/-- The last task of a line of a hundred and thirty is there, and who created it cannot read it. -/
theorem deep_task_unreadable :
    ∃ row, (freshServer.after plainEnv (createLine (129 + 1))).store.tasks.get? (level (129 + 1)) =
        some row ∧
      createdBy (userOfLine 129).principal row = true ∧
      ¬ Reads (freshServer.after plainEnv (createLine (129 + 1))).store (userOfLine 129)
        (level (129 + 1)) := by
  obtain ⟨n,hn⟩ : ∃ n, n = 129 := ⟨129,rfl⟩
  rw [← hn]
  obtain ⟨row,ids,hrow,hcreator,hchain,hlength⟩ := last_of_line (n := n) (by omega)
  have hstart : freshServer.Sprung plainEnv := ⟨sound_freshServer.keyed,fun _ h => by cases h⟩
  have hsprung : (freshServer.after plainEnv (createLine (n + 1))).Sprung plainEnv :=
    run_invariant (I := TaskServer.Sprung plainEnv)
      (fun _ input hs => step_sprung hs input) hstart _
  have hcreated := createdBy_userOfLine hcreator
  refine ⟨row,hrow,hcreated,fun hreads => ?_⟩
  have hshort := (getTask_of_creator hsprung.keyed hrow hchain hcreated _).mp hreads
  omega

end Lines
end BuckyOS.TaskManager
