import BuckyOS.TaskManager.Store

/-! The versions of a task: every write stores the next revision of one row and appends one event,
so what a call has read is the row as it stands, or an older revision of it. -/
namespace BuckyOS.TaskManager
open Option Except

section Draws
/-- The clock has not gone back, and at one reading the counter, which has not wrapped, or else the suffix
has gone up. -/
def EventDraw.Before (a b : EventDraw) : Prop :=
  b.now < 10 ^ 13 ∧ a.now ≤ b.now ∧ (a.now = b.now → a.seq % 1000000 ≤ b.seq % 1000000 ∧
    (a.seq % 1000000 = b.seq % 1000000 → a.suffix < b.suffix))

instance (a b : EventDraw) : Decidable (a.Before b) := inferInstanceAs (Decidable (_ ∧ _))

theorem newEventId_lt {a b : EventDraw} (h : a.Before b) : newEventId a < newEventId b := by
  obtain ⟨hclock,hnow,hsame⟩ := h
  have hclocks : (Text.padded 10 13 a.now).length = (Text.padded 10 13 b.now).length := by
    rw [Text.length_padded (by decide) (hnow.trans_lt hclock),Text.length_padded (by decide) hclock]
  have hseq : ∀ n : ℕ, n % 1000000 < 10 ^ 6 := fun n => Nat.mod_lt n (by decide)
  rw [String.lt_iff_toList_lt,newEventId,newEventId,String.toList_ofList,String.toList_ofList]
  simp only [List.cons_append,List.append_assoc]
  refine List.cons_lt_cons_iff.mpr (.inr ⟨rfl,?_⟩)
  rcases hnow.lt_or_eq with hlt | heq
  · exact Text.append_lt_of_length hclocks (Text.padded_lt (by decide) (by decide) hlt hclock)
  · obtain ⟨hle,hsuffix⟩ := hsame heq
    rw [heq]
    refine List.append_left_lt (List.cons_lt_cons_iff.mpr (.inr ⟨rfl,?_⟩))
    rcases hle.lt_or_eq with hlt | heq
    · refine Text.append_lt_of_length ?_ (Text.padded_lt (by decide) (by decide) hlt (hseq b.seq))
      rw [Text.length_padded (by decide) (hseq a.seq),Text.length_padded (by decide) (hseq b.seq)]
    · rw [heq]
      refine List.append_left_lt (List.cons_lt_cons_iff.mpr (.inr ⟨rfl,?_⟩))
      exact Text.padded_lt (by decide) (by decide) (hsuffix heq) b.suffix.toNat_lt

end Draws

section Fields
/-- A task as its row holds it. -/
def Task.bare (task : Task) : Task := {task with assignees := none}

/-- A task with every column blanked that a write may change. -/
def Task.fixed (task : Task) : Task :=
  {task with
    executor := .unbound
    runnerEpoch := 0
    assignees := none
    phase := .promised
    waitReason := none
    pendingControl := none
    controlProfile := .baseline 0
    progress := none
    message := none
    outcome := none
    result := none
    error := none
    completedBy := none
    revision := 0
    dataScope := none
    updatedAt := 0
    completedAt := none
    archivedAt := none}

theorem Task.taskId_of_fixed {task task' : Task} (h : task'.fixed = task.fixed) :
    task'.taskId = task.taskId := by
  have hid : task'.fixed.taskId = task.fixed.taskId := by rw [h]
  exact hid

theorem Task.rootId_of_fixed {task task' : Task} (h : task'.fixed = task.fixed) :
    task'.rootId = task.rootId := by
  have hroot : task'.fixed.rootId = task.fixed.rootId := by rw [h]
  exact hroot

def Task.next (task : Task) (now : ℕ) : Task :=
  {task with revision := task.revision + 1, updatedAt := now}

end Fields

namespace TaskChange
variable {now : ℕ} {task changed : Task}

theorem unlessTerminal_eq_ok {next : Except RpcError Task} :
    unlessTerminal task next = .ok changed ↔ task.phase ≠ .terminal ∧ next = .ok changed := ite_error_eq_ok

theorem bindAppExecutor_ok {targetId : Option String} {appId instanceId : String}
    (h : (bindAppExecutor targetId appId instanceId).apply now task = .ok changed) :
    task.phase ≠ .terminal ∧ (task.executor = .unbound ∨ ∃ bound, task.executor = .app targetId bound none) ∧
      changed = {task with
        executor := .app targetId appId (some instanceId)
        runnerEpoch := task.runnerEpoch + 1
        phase := .accepted
        waitReason := none} := by
  simp only [apply] at h
  split at h
  · rename_i hexecutor
    obtain ⟨_,h⟩ := ite_error_eq_ok.mp h
    obtain ⟨hphase,h⟩ := unlessTerminal_eq_ok.mp h
    exact ⟨hphase,.inl hexecutor,(ok.inj h).symm⟩
  · rename_i boundTarget boundApp boundInstance hexecutor
    obtain ⟨hnone,h⟩ := ite_error_eq_ok.mp h
    obtain ⟨htarget,h⟩ := ite_error_eq_ok.mp h
    obtain ⟨hphase,h⟩ := unlessTerminal_eq_ok.mp h
    rw [not_not] at htarget
    rw [Bool.not_eq_true,isSome_eq_false_iff,isNone_iff_eq_none] at hnone
    rw [htarget,hnone] at hexecutor
    exact ⟨hphase,.inr ⟨boundApp,hexecutor⟩,(ok.inj h).symm⟩
  · exact absurd h (by simp)

theorem releaseAppExecutor_ok {instanceId : String} {epoch : ℕ} {reason : TaskWaitReason}
    (h : (releaseAppExecutor instanceId epoch reason).apply now task = .ok changed) :
    ∃ targetId appId, task.phase ≠ .terminal ∧
      task.executor = .app targetId appId (some instanceId) ∧ task.runnerEpoch = epoch ∧
      changed = {task with
        executor := .app targetId appId none
        runnerEpoch := task.runnerEpoch + 1
        phase := .waiting
        waitReason := some reason} := by
  simp only [apply] at h
  split at h
  · rename_i targetId appId bound hexecutor
    obtain ⟨hphase,h⟩ := unlessTerminal_eq_ok.mp h
    obtain ⟨hbound,h⟩ := ite_error_eq_ok.mp h
    obtain ⟨hepoch,h⟩ := ite_error_eq_ok.mp h
    rw [not_not] at hbound hepoch
    rw [hbound] at hexecutor
    exact ⟨targetId,appId,hphase,hexecutor,hepoch,(ok.inj h).symm⟩
  · exact absurd h (by simp)

theorem apply_fixed {change : TaskChange} (h : change.apply now task = .ok changed) :
    changed.fixed = task.fixed ∧ changed.revision = task.revision ∧ changed.assignees = task.assignees := by
  cases change with
  | bindAppExecutor targetId appId instanceId =>
    obtain ⟨_,_,rfl⟩ := bindAppExecutor_ok h
    exact ⟨rfl,rfl,rfl⟩
  | releaseAppExecutor instanceId epoch reason =>
    obtain ⟨_,_,_,_,_,rfl⟩ := releaseAppExecutor_ok h
    exact ⟨rfl,rfl,rfl⟩
  | ackControl applied action completedBy =>
    cases applied <;> cases action <;>
      simp only [apply,if_true,ite_error_eq_ok,ok.injEq,Bool.false_eq_true,if_false] at h
    case true.cancel =>
      obtain ⟨_,rfl⟩ := h
      exact ⟨rfl,rfl,rfl⟩
    all_goals
      subst h
      exact ⟨rfl,rfl,rfl⟩
  | archive =>
    simp only [apply,ok.injEq] at h
    subst h
    split <;> exact ⟨rfl,rfl,rfl⟩
  | cancelDirect _ | finishPromiseFailure _ _ | cancelPromisedTask _ =>
    simp only [apply,unlessTerminal_eq_ok,ite_error_eq_ok,ok.injEq] at h
    obtain ⟨_,_,rfl⟩ := h
    exact ⟨rfl,rfl,rfl⟩
  | requestControl _ | commitResult _ _ | failTask _ _ | setPromiseWait _ =>
    simp only [apply,unlessTerminal_eq_ok,ite_error_eq_ok,ok.injEq] at h
    obtain ⟨_,rfl⟩ := h
    exact ⟨rfl,rfl,rfl⟩
  | run | reportProgress _ _ | reportWaiting _ | updateControlProfile _ =>
    simp only [apply,ok.injEq] at h
    subst h
    exact ⟨rfl,rfl,rfl⟩

end TaskChange
namespace TaskStore
variable {s s' : TaskStore} {stamp : Stamp}

section Rows
/-- Every row stands under the id of its task, without assignees. -/
structure Keyed (s : TaskStore) : Prop where
  taskId : ∀ {id row}, s.tasks.get? id = some row → row.taskId = id
  assignees : ∀ {id row}, s.tasks.get? id = some row → row.assignees = none

theorem attachAssignees_bare (s : TaskStore) (task : Task) : (s.attachAssignees task).bare = task.bare := by
  rw [attachAssignees]
  split <;> rfl

theorem getTask_eq_some {id : TaskId} {task : Task} :
    s.getTask id = some task ↔ ∃ row, s.tasks.get? id = some row ∧ s.attachAssignees row = task :=
  map_eq_some_iff

theorem bare_of_assignees {task : Task} (h : task.assignees = none) : task.bare = task := by
  rw [Task.bare,← h]

theorem Keyed.row (h : s.Keyed) {id : TaskId} {task : Task} (hget : s.getTask id = some task) :
    s.tasks.get? id = some task.bare ∧ task.taskId = id := by
  obtain ⟨row,hrow,rfl⟩ := getTask_eq_some.mp hget
  have hbare : (s.attachAssignees row).bare = row := by
    rw [attachAssignees_bare,bare_of_assignees (h.assignees hrow)]
  refine ⟨by rw [hbare,hrow],?_⟩
  calc (s.attachAssignees row).taskId = (s.attachAssignees row).bare.taskId := rfl
    _ = id := by rw [hbare,h.taskId hrow]

end Rows

section Later
/-- Every row of a store is there in a later one with the same fixed columns, and unchanged, its
assignees included, unless its revision has grown. -/
def Later (s s' : TaskStore) : Prop :=
  ∀ ⦃id row⦄, s.tasks.get? id = some row → ∃ row', s'.tasks.get? id = some row' ∧
    row'.fixed = row.fixed ∧ row.revision ≤ row'.revision ∧
    (row'.revision = row.revision → row' = row ∧ s'.activeAssignees id = s.activeAssignees id)

theorem Later.refl (s : TaskStore) : Later s s := fun _ row hrow => ⟨row,hrow,rfl,le_rfl,fun _ => ⟨rfl,rfl⟩⟩

theorem Later.trans {s'' : TaskStore} (h : Later s s') (h' : Later s' s'') : Later s s'' := by
  intro id row hrow
  obtain ⟨row',hrow',hfixed,hle,hsame⟩ := h hrow
  obtain ⟨row'',hrow'',hfixed',hle',hsame'⟩ := h' hrow'
  refine ⟨row'',hrow'',hfixed'.trans hfixed,hle.trans hle',?_⟩
  intro heq
  have hmid : row'.revision = row.revision := by omega
  obtain ⟨rfl,hassignees⟩ := hsame hmid
  obtain ⟨rfl,hassignees'⟩ := hsame' heq
  exact ⟨rfl,hassignees'.trans hassignees⟩

theorem Later.of_rows (htasks : s'.tasks = s.tasks) (hassignees : s'.assignees = s.assignees) :
    Later s s' := by
  intro id row hrow
  refine ⟨row,by rw [htasks,hrow],rfl,le_rfl,fun _ => ⟨rfl,?_⟩⟩
  rw [activeAssignees,hassignees,activeAssignees]

theorem Later.unchanged (h : Later s s') (hs : s.Keyed) {id : TaskId}
    {seen task : Task} (hseen : s.getTask id = some seen) (htask : s'.getTask id = some task)
    (hle : task.revision ≤ seen.revision) : task = seen := by
  obtain ⟨row,hrow,rfl⟩ := getTask_eq_some.mp hseen
  obtain ⟨row',hrow',rfl⟩ := getTask_eq_some.mp htask
  have hrevision : ∀ (s : TaskStore) (row : Task), (s.attachAssignees row).revision = row.revision := by
    intro s row
    rw [attachAssignees]
    split <;> rfl
  rw [hrevision,hrevision] at hle
  obtain ⟨row'',hrow'',-,hge,hsame⟩ := h hrow
  obtain rfl : row'' = row' := some.inj (hrow''.symm.trans hrow')
  obtain ⟨rfl,hassignees⟩ := hsame (le_antisymm hle hge)
  rw [← hs.taskId hrow] at hassignees
  rw [attachAssignees,attachAssignees,hassignees]

end Later

section Rewrites
/-- One row gets its next version with the event of it; all others stay, and their assignees. -/
structure Rewrite (s s' : TaskStore) (old new : Task) (event : TaskEvent) : Prop where
  found : s.tasks.get? old.taskId = some old
  tasks : s'.tasks = s.tasks.insert old.taskId new
  others : ∀ id, id ≠ old.taskId → s'.activeAssignees id = s.activeAssignees id
  fixed : new.fixed = old.fixed
  bare : new.assignees = none
  revision : new.revision = old.revision + 1
  events : s'.events = s.events ++ [event]
  taskId : event.taskId = old.taskId
  taskRevision : event.taskRevision = old.revision + 1

variable {old new : Task} {event : TaskEvent}

theorem Rewrite.get? (h : Rewrite s s' old new event) (id : TaskId) :
    s'.tasks.get? id = if id = old.taskId then some new else s.tasks.get? id := by
  rw [h.tasks,OrderedMap.get?_insert]

theorem Rewrite.stored (h : Rewrite s s' old new event) : s'.tasks.get? old.taskId = some new := by
  rw [h.get?,if_pos rfl]

theorem Rewrite.later (h : Rewrite s s' old new event) : Later s s' := by
  intro id row hrow
  by_cases hid : id = old.taskId
  · subst hid
    obtain rfl : row = old := some.inj (hrow.symm.trans h.found)
    refine ⟨new,h.stored,h.fixed,by rw [h.revision]; omega,?_⟩
    intro heq
    have hgrown := h.revision
    omega
  · exact ⟨row,by rw [h.get?,if_neg hid,hrow],rfl,le_rfl,fun _ => ⟨rfl,h.others id hid⟩⟩

theorem Rewrite.keyed (h : Rewrite s s' old new event) (hs : s.Keyed) : s'.Keyed where
  taskId {id row} hrow := by
    rw [h.get?] at hrow
    split at hrow
    · rename_i hid
      rw [← some.inj hrow,hid,Task.taskId_of_fixed h.fixed]
    · exact hs.taskId hrow
  assignees {id row} hrow := by
    rw [h.get?] at hrow
    split at hrow
    · rw [← some.inj hrow,h.bare]
    · exact hs.assignees hrow

end Rewrites

section Writes
theorem appendEvent_eq_ok {event : TaskEvent} : s.appendEvent event = .ok s' ↔
    s' = {s with events := s.events ++ [event]} ∧ ∀ earlier ∈ s.events, earlier.eventId ≠ event.eventId ∧
      ¬ (earlier.taskId = event.taskId ∧ earlier.taskRevision = event.taskRevision) := by
  rw [appendEvent,ite_error_eq_ok,and_comm,ok.injEq,eq_comm,List.any_eq_true]
  push Not
  simp [not_or]

variable {actor : ActorRef} {outcome : MutationOutcome}

theorem commitRow_ok {task : Task} {eventType : TaskEventType} {payload : Json}
    (h : s.commitRow stamp task eventType actor payload = .ok (outcome,s')) :
    outcome = ⟨task.next stamp.now,rowEvent stamp task eventType actor payload⟩ ∧
    s' = {s with
      tasks := s.tasks.insert task.taskId (task.next stamp.now).bare
      events := s.events ++ [rowEvent stamp task eventType actor payload]} := by
  obtain ⟨s₁,happend,hpure⟩ := bind_eq_ok_iff.mp h
  obtain ⟨rfl,-⟩ := appendEvent_eq_ok.mp happend
  obtain ⟨rfl,rfl⟩ := Prod.mk.inj (ok.inj hpure)
  exact ⟨rfl,rfl⟩

theorem rewrite_of_commit {base : TaskStore} {task old : Task} {eventType : TaskEventType}
    {actor : ActorRef} {payload : Json} {outcome : MutationOutcome}
    (h : base.commitRow stamp task eventType actor payload = .ok (outcome,s'))
    (htasks : base.tasks = s.tasks) (hevents : base.events = s.events)
    (hassignees : ∀ id, id ≠ old.taskId → base.activeAssignees id = s.activeAssignees id)
    (hfound : s.tasks.get? old.taskId = some old) (hfixed : task.fixed = old.fixed)
    (hrevision : task.revision = old.revision) :
    Rewrite s s' old (task.next stamp.now).bare (rowEvent stamp task eventType actor payload) := by
  obtain ⟨-,rfl⟩ := commitRow_ok h
  have hid := Task.taskId_of_fixed hfixed
  exact {
    found := hfound
    tasks := by rw [htasks,hid]
    others := hassignees
    fixed := hfixed
    bare := rfl
    revision := congrArg (· + 1) hrevision
    events := by rw [hevents]
    taskId := hid
    taskRevision := congrArg (· + 1) hrevision}

theorem mutateTask_ok (hs : s.Keyed) {write : TaskWrite} (h : s.mutateTask stamp write = .ok (outcome,s')) :
    ∃ task changed, s.getTask write.taskId = some task ∧
      (∀ expected ∈ write.expectedRevision, task.revision = expected) ∧
      write.change.apply stamp.now task = .ok changed ∧ outcome = ⟨changed.next stamp.now,
        rowEvent stamp changed write.eventType write.actor write.payload⟩ ∧
      s' = {s with
        tasks := s.tasks.insert write.taskId (changed.next stamp.now).bare
        events := s.events ++ [rowEvent stamp changed write.eventType write.actor write.payload]} ∧
      Rewrite s s' task.bare (changed.next stamp.now).bare
        (rowEvent stamp changed write.eventType write.actor write.payload) := by
  rw [mutateTask] at h
  split at h
  · exact absurd h (by simp)
  · rename_i task htask
    obtain ⟨hrevision,h⟩ := ite_error_eq_ok.mp h
    obtain ⟨changed,hchanged,hcommit⟩ := bind_eq_ok_iff.mp h
    obtain ⟨hfixed,hsame,-⟩ := TaskChange.apply_fixed hchanged
    obtain ⟨hrow,hid⟩ := hs.row htask
    obtain ⟨houtcome,hs'⟩ := commitRow_ok hcommit
    have hwritten : changed.taskId = write.taskId := (Task.taskId_of_fixed hfixed).trans hid
    rw [hwritten] at hs'
    refine ⟨task,changed,htask,?_,hchanged,houtcome,hs',?_⟩
    · push Not at hrevision
      exact hrevision
    · refine rewrite_of_commit hcommit rfl rfl (fun _ _ => rfl) ?_ hfixed hsame
      exact (congrArg s.tasks.get? hid).trans hrow

theorem next_bare {task : Task} (h : task.assignees = none) (now : ℕ) :
    (task.next now).bare = task.next now := bare_of_assignees h

theorem activeAssignees_insert_of_ne {id id' : TaskId} (h : id ≠ id') (users : OrderedMap String Bool) :
    {s with assignees := s.assignees.insert id' users}.activeAssignees id = s.activeAssignees id := by
  simp only [activeAssignees,OrderedMap.get?_insert_of_ne _ _ h]

variable {taskId : TaskId} {expected : ℕ}

theorem updateAssignees_ok (hs : s.Keyed) {add remove : List String}
    (h : s.updateAssignees stamp taskId actor add remove expected = .ok (outcome,s')) :
    ∃ task, outcome.event.eventType = .assigneesChanged ∧
      Rewrite s s' task (task.next stamp.now) outcome.event := by
  rw [updateAssignees] at h
  split at h
  · exact absurd h (by simp)
  · rename_i task htask
    obtain ⟨-,h⟩ := ite_error_eq_ok.mp h
    obtain ⟨-,h⟩ := ite_error_eq_ok.mp h
    obtain ⟨-,h⟩ := ite_error_eq_ok.mp h
    obtain ⟨-,h⟩ := ite_error_eq_ok.mp h
    have hid := hs.taskId htask
    refine ⟨task,?_,?_⟩
    · rw [(commitRow_ok h).1]
      rfl
    · have hrewrite := @rewrite_of_commit s s' stamp _ _ task _ _ _ _ h rfl rfl
        (fun id hne => activeAssignees_insert_of_ne (by rwa [← hid]) _) (by rw [hid,htask]) rfl rfl
      rw [(commitRow_ok h).1]
      rwa [← next_bare (hs.assignees htask)]

/-- Whatever grants a store has, the same rows have the same assignees. -/
theorem grant_commit (hs : s.Keyed) {task : Task} (htask : s.tasks.get? taskId = some task)
    {base : TaskStore} (htasks : base.tasks = s.tasks) (hassignees : base.assignees = s.assignees)
    (hevents : base.events = s.events) {eventType : TaskEventType} {payload : Json}
    (h : base.commitRow stamp (s.attachAssignees task) eventType actor payload = .ok (outcome,s')) :
    outcome.event.eventType = eventType ∧ Rewrite s s' task (task.next stamp.now) outcome.event := by
  have hid := hs.taskId htask
  have hbare : ((s.attachAssignees task).next stamp.now).bare = task.next stamp.now := by
    rw [← next_bare (hs.assignees htask)]
    exact congrArg (fun task : Task => task.next stamp.now) (attachAssignees_bare s task)
  have hsame : (s.attachAssignees task).bare = task := by
    rw [attachAssignees_bare,bare_of_assignees (hs.assignees htask)]
  have hfixed : (s.attachAssignees task).fixed = task.fixed := by
    conv_rhs => rw [← hsame]
    rfl
  have hrevision : (s.attachAssignees task).revision = task.revision := by
    conv_rhs => rw [← hsame]
    rfl
  have hrewrite := @rewrite_of_commit s s' stamp _ _ task _ _ _ _ h htasks hevents
    (fun id _ => by simp only [activeAssignees,hassignees]) (by rw [hid,htask]) hfixed hrevision
  rw [(commitRow_ok h).1]
  rw [hbare] at hrewrite
  exact ⟨rfl,hrewrite⟩

theorem insertGrant_ok (hs : s.Keyed) {spec : TaskAclGrantSpec}
    (h : s.insertGrant stamp taskId actor spec expected = .ok (outcome,s')) :
    ∃ task, outcome.event.eventType = .accessGranted ∧
      Rewrite s s' task (task.next stamp.now) outcome.event := by
  rw [insertGrant] at h
  split at h
  · exact absurd h (by simp)
  · rename_i task htask
    obtain ⟨-,h⟩ := ite_error_eq_ok.mp h
    obtain ⟨-,h⟩ := ite_error_eq_ok.mp h
    refine ⟨task,?_⟩
    refine grant_commit hs htask ?_ ?_ ?_ h <;> rfl

theorem revokeGrant_ok (hs : s.Keyed) {grantId : String}
    (h : s.revokeGrant stamp taskId actor grantId expected = .ok (outcome,s')) :
    ∃ task, outcome.event.eventType = .accessRevoked ∧
      Rewrite s s' task (task.next stamp.now) outcome.event := by
  rw [revokeGrant] at h
  split at h
  · exact absurd h (by simp)
  · rename_i task htask
    obtain ⟨-,h⟩ := ite_error_eq_ok.mp h
    by_cases hactive : s.grants.any (isActiveGrant taskId grantId)
    · rw [if_pos hactive] at h
      refine ⟨task,?_⟩
      refine grant_commit hs htask ?_ ?_ ?_ h <;> rfl
    · rw [if_neg hactive] at h
      exact absurd h (by simp)

end Writes

section Creation
variable {env : TaskEnv} {args : CreateTaskArgs}

/-- A new row with its assignees and the event of its creation; all other rows stay. -/
structure Creation (env : TaskEnv) (stamp : Stamp) (args : CreateTaskArgs) (s s' : TaskStore)
    (rootId : TaskId) : Prop where
  root : s.rootFor stamp args.parentId = .ok rootId
  newKey : s.findByIdempotency args.creator.userId args.creator.appId args.idempotencyKey = none
  newOrigin : args.originRef.bind s.findByOrigin = none
  newId : stamp.newId ∉ s.tasks.keys
  distinct : args.assignees.Nodup
  eq : s' = {s with
    tasks := s.tasks.insert stamp.newId (newTask env stamp rootId args)
    assignees :=
      if args.assignees = [] then s.assignees
      else s.assignees.insert stamp.newId
        (args.assignees.foldl (fun users user => users.insert user true) .empty)
    events := s.events ++ [creationEvent stamp rootId args]}
  fresh : ∀ earlier ∈ s.events, earlier.eventId ≠ newEventId stamp.draw ∧
    ¬ (earlier.taskId = stamp.newId ∧ earlier.taskRevision = 1)

theorem createTask_ok {task : Task} (h : s.createTask stamp env args = .ok (task,s')) :
    (s' = s ∧ ∃ existing, replayCreated env existing args = .ok task ∧
      (s.findByIdempotency args.creator.userId args.creator.appId args.idempotencyKey =
          some existing ∨ args.originRef.bind s.findByOrigin = some existing)) ∨
    ∃ rootId, Creation env stamp args s s' rootId ∧
      task = s'.attachAssignees (newTask env stamp rootId args) := by
  rw [createTask] at h
  split at h
  · rename_i existing hexisting
    obtain ⟨replayed,hreplay,hpure⟩ := bind_eq_ok_iff.mp h
    obtain ⟨rfl,rfl⟩ := Prod.mk.inj (ok.inj hpure)
    exact .inl ⟨rfl,existing,hreplay,.inl hexisting⟩
  · rename_i hnew
    obtain ⟨rootId,hroot,h⟩ := bind_eq_ok_iff.mp h
    split at h
    · rename_i existing hexisting
      obtain ⟨replayed,hreplay,hpure⟩ := bind_eq_ok_iff.mp h
      obtain ⟨rfl,rfl⟩ := Prod.mk.inj (ok.inj hpure)
      exact .inl ⟨rfl,existing,hreplay,.inr hexisting⟩
    · rename_i horigin
      obtain ⟨hunique,h⟩ := ite_error_eq_ok.mp h
      obtain ⟨s₁,happend,hpure⟩ := bind_eq_ok_iff.mp h
      obtain ⟨rfl,hfresh⟩ := appendEvent_eq_ok.mp happend
      obtain ⟨rfl,rfl⟩ := Prod.mk.inj (ok.inj hpure)
      rw [not_or,not_not] at hunique
      exact .inr ⟨rootId,⟨hroot,hnew,horigin,hunique.1,hunique.2,rfl,hfresh⟩,rfl⟩

variable {rootId : TaskId}

section
variable (h : Creation env stamp args s s' rootId)
include h

theorem Creation.createTask :
    s.createTask stamp env args = .ok (s'.attachAssignees (newTask env stamp rootId args),s') := by
  have hunique : ¬ (stamp.newId ∈ s.tasks.keys ∨ ¬ args.assignees.Nodup) := by
    rw [not_or,not_not]
    exact ⟨h.newId,h.distinct⟩
  rw [TaskStore.createTask,h.newKey]
  simp only [h.newOrigin]
  refine bind_eq_ok_iff.mpr ⟨rootId,h.root,?_⟩
  rw [if_neg hunique]
  exact bind_eq_ok_iff.mpr ⟨s',appendEvent_eq_ok.mpr ⟨h.eq,h.fresh⟩,rfl⟩

theorem Creation.get? (id : TaskId) : s'.tasks.get? id =
      if id = stamp.newId then some (newTask env stamp rootId args) else s.tasks.get? id := by
  rw [h.eq,OrderedMap.get?_insert]

theorem Creation.get?_of_some {id : TaskId} {row : Task} (hrow : s.tasks.get? id = some row) :
    id ≠ stamp.newId ∧ s'.tasks.get? id = some row := by
  have hne : id ≠ stamp.newId := by
    rintro rfl
    exact h.newId ((OrderedMap.mem_keys_iff _ _).mpr ⟨row,hrow⟩)
  exact ⟨hne,by rw [h.get?,if_neg hne,hrow]⟩

theorem Creation.activeAssignees {id : TaskId} (hid : id ≠ stamp.newId) :
    s'.activeAssignees id = s.activeAssignees id := by
  rw [h.eq]
  by_cases hnone : args.assignees = []
  · simp only [hnone,if_true]
    rfl
  · simp only [hnone,if_false]
    exact activeAssignees_insert_of_ne hid _

theorem Creation.later : Later s s' := by
  intro id row hrow
  obtain ⟨hne,hrow'⟩ := h.get?_of_some hrow
  exact ⟨row,hrow',rfl,le_rfl,fun _ => ⟨rfl,h.activeAssignees hne⟩⟩

theorem Creation.keyed (hs : s.Keyed) : s'.Keyed where
  taskId {id row} hrow := by
    rw [h.get?] at hrow
    split at hrow
    · rename_i hid
      rw [← some.inj hrow,hid]
      rfl
    · exact hs.taskId hrow
  assignees {id row} hrow := by
    rw [h.get?] at hrow
    split at hrow
    · rw [← some.inj hrow]
      rfl
    · exact hs.assignees hrow

end

end Creation
end TaskStore
end BuckyOS.TaskManager
