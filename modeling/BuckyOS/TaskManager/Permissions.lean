import BuckyOS.TaskManager.Chains
import BuckyOS.TaskManager.Finished

/-! What a permission depends on: the grants only ever add to it, in whatever order they come, and
nothing above a boundary counts. -/
namespace BuckyOS.TaskManager
open List

namespace TaskDataScope
theorem rank_injective : Function.Injective rank := by
  intro a b h
  cases a <;> cases b <;> first | rfl | exact absurd h (by decide)

theorem rank_max (a b : TaskDataScope) : (a.max b).rank = Max.max a.rank b.rank := by
  rw [max]
  split <;> omega

end TaskDataScope

namespace TaskPermission
/-- How far a scope reaches; no scope at all reaches least. -/
def scopeRank : Option TaskDataScope → ℕ
  | none => 0
  | some scope => scope.rank + 1

theorem scopeRank_injective : Function.Injective scopeRank := by
  intro a b h
  cases a <;> cases b <;> simp only [scopeRank] at h
  · rfl
  · omega
  · omega
  · rw [TaskDataScope.rank_injective (Nat.succ.inj h)]

/-- A permission is below another that has its actions and at least its scope. -/
instance : PartialOrder TaskPermission where
  le p q := p.actions ⊆ q.actions ∧ scopeRank p.dataScope ≤ scopeRank q.dataScope
  le_refl p := ⟨fun _ h => h,le_rfl⟩
  le_trans _ _ _ h h' := ⟨h.1.trans h'.1,h.2.trans h'.2⟩
  le_antisymm p q h h' := by
    obtain ⟨actions,scope⟩ := p
    obtain ⟨actions',scope'⟩ := q
    obtain rfl : actions = actions' := h.1.antisymm h'.1
    obtain rfl : scope = scope' := scopeRank_injective (le_antisymm h.2 h'.2)
    rfl

theorem le_iff {p q : TaskPermission} :
    p ≤ q ↔ p.actions ⊆ q.actions ∧ scopeRank p.dataScope ≤ scopeRank q.dataScope := Iff.rfl

def ofRow (actions : List TaskAction) (scope : TaskDataScope) : TaskPermission where
  actions := actions.toFinset
  dataScope := some scope

variable {p q : TaskPermission} {actions : List TaskAction} {scope : TaskDataScope}

/-- A row added to a permission gives the least one above both. -/
theorem add_le_iff : p.add actions scope ≤ q ↔ p ≤ q ∧ ofRow actions scope ≤ q := by
  have hscope : scopeRank (p.add actions scope).dataScope =
      Max.max (scopeRank p.dataScope) (scope.rank + 1) := by
    cases hp : p.dataScope with
    | none => simp [add,hp,scopeRank]
    | some old =>
      simp only [add,hp,scopeRank,TaskDataScope.rank_max]
      omega
  rw [le_iff,le_iff,le_iff,hscope,add,ofRow,Finset.union_subset_iff,max_le_iff]
  exact ⟨fun ⟨⟨h,h'⟩,hr,hr'⟩ => ⟨⟨h,hr⟩,h',hr'⟩,fun ⟨⟨h,hr⟩,h',hr'⟩ => ⟨⟨h,h'⟩,hr,hr'⟩⟩

theorem addIf_le_iff {condition : Bool} :
    p.addIf condition actions scope ≤ q ↔ p ≤ q ∧ (condition = true → ofRow actions scope ≤ q) := by
  cases condition with
  | false => simp [addIf]
  | true => simp [addIf,add_le_iff]

theorem le_addIf (p : TaskPermission) (condition : Bool) (actions : List TaskAction)
    (scope : TaskDataScope) : p ≤ p.addIf condition actions scope := (addIf_le_iff.mp le_rfl).1

theorem allows_of_le (h : p ≤ q) {action : TaskAction} (hp : p.allows action = true) :
    q.allows action = true := by
  rw [allows,decide_eq_true_eq] at hp ⊢
  exact h.1 hp

end TaskPermission

section Grants
variable {env env' : TaskEnv} {s s' : TaskStore} {principal : Principal} {task : Task}
  {relations : Relations}

variable {q : TaskPermission} {reach : List TaskId × Bool}

theorem foldl_addGrant_le_iff {grants : List TaskAclGrant} {p : TaskPermission} :
    grants.foldl (addGrant principal task relations) p ≤ q ↔ p ≤ q ∧
      ∀ grant ∈ grants, grant.applies principal task relations = true →
        TaskPermission.ofRow grant.actions grant.dataScope ≤ q := by
  induction grants generalizing p with
  | nil => simp
  | cons grant grants ih =>
    rw [foldl_cons,ih,addGrant,TaskPermission.addIf_le_iff]
    simp only [mem_cons,forall_eq_or_imp,and_assoc]

theorem mem_activeGrantsFor {ids : List TaskId} {grant : TaskAclGrant} : grant ∈ s.activeGrantsFor ids ↔
      grant ∈ s.grants ∧ grant.taskId ∈ ids ∧ grant.revokedAt = none := by
  simp only [TaskStore.activeGrantsFor,mem_flatMap,mem_filter,decide_eq_true_eq]
  constructor
  · rintro ⟨_,hid,hgrant,rfl,hactive⟩
    exact ⟨hgrant,hid,hactive⟩
  · rintro ⟨hgrant,hid,hactive⟩
    exact ⟨_,hid,hgrant,rfl,hactive⟩

theorem computePermission_eq (env : TaskEnv) (s : TaskStore) (principal : Principal) (task : Task) :
    computePermission env s principal task =
      (s.getTaskChain task.taskId).map (fun chain => granted env s principal task (inheritable chain)) := by
  rw [computePermission]
  cases s.getTaskChain task.taskId <;> rfl

theorem granted_le_iff :
    granted env s principal task reach ≤ q ↔ ungranted env s principal task reach.2 ≤ q ∧
      ∀ grant ∈ s.grants, grant.taskId ∈ reach.1 → grant.revokedAt = none →
        grant.applies principal task (relationsTo s principal task reach.2) = true →
          TaskPermission.ofRow grant.actions grant.dataScope ≤ q := by
  rw [granted,foldl_addGrant_le_iff]
  simp only [mem_activeGrantsFor,and_imp]

theorem granted_mono
    (hungranted : ungranted env' s' principal task reach.2 = ungranted env s principal task reach.2)
    (hrelations : relationsTo s' principal task reach.2 = relationsTo s principal task reach.2)
    (hgrants : ∀ grant ∈ s.grants, grant.taskId ∈ reach.1 → grant ∈ s'.grants) :
    granted env s principal task reach ≤ granted env' s' principal task reach := by
  obtain ⟨hbase,hrows⟩ := granted_le_iff.mp (le_refl (granted env' s' principal task reach))
  rw [hungranted] at hbase
  rw [hrelations] at hrows
  exact granted_le_iff.mpr ⟨hbase,fun grant hgrant hid => hrows grant (hgrants grant hgrant hid) hid⟩

end Grants

section Boundaries
variable {env env' : TaskEnv} {s s' : TaskStore} {principal : Principal} {task : Task}

/-- The tasks from one up to the first boundary of its chain, which is not the root. -/
inductive TaskStore.Bounded (s : TaskStore) : TaskId → List TaskId → Prop
  | boundary {id parent : TaskId} {row : Task} : s.tasks.get? id = some row →
      row.parentId = some parent → row.permissionBoundary = true → Bounded s id [id]
  | inner {id parent : TaskId} {row : Task} {path : List TaskId} : s.tasks.get? id = some row →
      row.parentId = some parent → row.permissionBoundary = false → Bounded s parent path →
      Bounded s id (id :: path)

variable {path : List TaskId} (height : ℕ) {id : TaskId} {grants : List TaskAclGrant}

theorem TaskStore.Bounded.congr (h : s.Bounded id path)
    (hrows : ∀ other ∈ path, s'.tasks.get? other = s.tasks.get? other) : s'.Bounded id path := by
  induction h with
  | boundary hrow hparent hboundary =>
    exact .boundary ((hrows _ (mem_singleton.mpr rfl)).trans hrow) hparent hboundary
  | inner hrow hparent hboundary _ ih =>
    exact .inner ((hrows _ mem_cons_self).trans hrow) hparent hboundary
      (ih (fun other hother => hrows other (mem_cons_of_mem _ hother)))

theorem TaskStore.Bounded.inheritable_links {ids : List TaskId}
    (h : s.Bounded id path) (hchain : s.Chain id ids) :
    inheritable (TaskStore.Chain.links s ids) = (path,false) := by
  induction h generalizing ids with
  | boundary hrow hparent hboundary =>
    obtain ⟨rest,rfl,-⟩ := hchain.of_parent hrow hparent
    simp [TaskStore.Chain.links,hrow,hparent,hboundary,inheritable]
  | inner hrow hparent hboundary _ ih =>
    obtain ⟨rest,rfl,hrest⟩ := hchain.of_parent hrow hparent
    have hreach := ih hrest
    rw [TaskStore.Chain.links] at hreach
    simp [TaskStore.Chain.links,hrow,hparent,hboundary,inheritable,hreach]

/-- Two stores agree for a principal on a task, on the tasks of a path and on the grants on them. -/
structure AgreesAlong (env env' : TaskEnv) (s s' : TaskStore) (principal : Principal) (task : Task)
    (path : List TaskId) : Prop where
  rows : ∀ id ∈ path, s'.tasks.get? id = s.tasks.get? id
  grants : ∀ grant, grant.taskId ∈ path → (grant ∈ s'.grants ↔ grant ∈ s.grants)
  assignees : s'.activeAssignees task.taskId = s.activeAssignees task.taskId
  view : env'.mayView principal.userId principal.appId principal.sudoMode task.creator.userId =
    env.mayView principal.userId principal.appId principal.sudoMode task.creator.userId

section
variable (h : AgreesAlong env env' s s' principal task path)
include h

theorem AgreesAlong.symm : AgreesAlong env' env s' s principal task path where
  rows id hid := (h.rows id hid).symm
  grants grant hid := (h.grants grant hid).symm
  assignees := h.assignees.symm
  view := h.view.symm

theorem AgreesAlong.relations_eq :
    relationsTo s' principal task false = relationsTo s principal task false := by
  have hassignees : assigneesOf s' task = assigneesOf s task := by simp only [assigneesOf,h.assignees]
  simp only [relationsTo,hassignees,isRootCreatorOf,Bool.false_and]

theorem AgreesAlong.granted_le :
    granted env s principal task (path,false) ≤ granted env' s' principal task (path,false) := by
  refine granted_mono ?_ h.relations_eq (fun grant hgrant hid => (h.grants grant hid).mpr hgrant)
  simp only [ungranted,h.relations_eq,h.view,Bool.false_and]

theorem AgreesAlong.granted_eq :
    granted env' s' principal task (path,false) = granted env s principal task (path,false) :=
  le_antisymm h.symm.granted_le h.granted_le

end

theorem TaskStore.Bounded.computePermission {ids : List TaskId} (h : s.Bounded task.taskId path)
    (hchain : s.Chain task.taskId ids) : computePermission env s principal task = if ids.length ≤ 129 then
        .ok (granted env s principal task (path,false))
      else .error (.reason "task parent chain too deep or cyclic") := by
  rw [computePermission_eq,hchain.getTaskChain_eq]
  split
  · rw [Except.map,h.inheritable_links hchain]
  · rfl

theorem getTaskChain_grants (s : TaskStore) (grants : List TaskAclGrant) (id : TaskId) :
    {s with grants := grants}.getTaskChain id = s.getTaskChain id :=
  @TaskStore.chainFrom_congr s {s with grants := grants} (fun _ => rfl) _ _

theorem granted_grants_le (hgrants : s.grants ⊆ grants) (reach : List TaskId × Bool) :
    granted env s principal task reach ≤ granted env {s with grants := grants} principal task reach :=
  granted_mono rfl rfl (fun _ hgrant _ => hgrants hgrant)

theorem computePermission_grants_le (hgrants : s.grants ⊆ grants)
    {permission : TaskPermission} (h : computePermission env s principal task = .ok permission) :
    ∃ permission', computePermission env {s with grants := grants} principal task = .ok permission' ∧
      permission ≤ permission' := by
  rw [computePermission_eq] at h ⊢
  rw [getTaskChain_grants]
  cases hchain : s.getTaskChain task.taskId with
  | error _ =>
    rw [hchain] at h
    exact absurd h (by simp [Except.map])
  | ok chain =>
    rw [hchain] at h
    obtain rfl := Except.ok.inj h
    exact ⟨_,rfl,granted_grants_le hgrants _⟩

theorem computePermission_grants_perm (hperm : s.grants.Perm grants) :
    computePermission env {s with grants := grants} principal task =
      computePermission env s principal task := by
  have hgranted : ∀ reach, granted env {s with grants := grants} principal task reach =
      granted env s principal task reach := by
    intro reach
    refine le_antisymm ?_ (granted_grants_le hperm.subset reach)
    exact @granted_grants_le env {s with grants := grants} principal task s.grants hperm.symm.subset reach
  rw [computePermission_eq,computePermission_eq,getTaskChain_grants]
  simp only [hgranted]

/-- Below a boundary the permission is the same in two stores that agree up to it, as long as the
walk reaches the root in both or in neither; and grants only add to a permission, in whatever
order. -/
theorem permission_isolated_and_additive (env env' : TaskEnv) (s s' : TaskStore)
    (principal : Principal) (task : Task) :
    (∀ path ids ids', s.Bounded task.taskId path → s.Chain task.taskId ids →
      s'.Chain task.taskId ids' → AgreesAlong env env' s s' principal task path →
        (computePermission env' s' principal task = computePermission env s principal task ↔
          (ids'.length ≤ 129 ↔ ids.length ≤ 129))) ∧
    (∀ grants, s.grants ⊆ grants → ∀ permission,
      computePermission env s principal task = .ok permission →
        ∃ permission', computePermission env {s with grants := grants} principal task =
          .ok permission' ∧ permission ≤ permission') ∧
    ∀ grants, s.grants.Perm grants →
      computePermission env {s with grants := grants} principal task =
        computePermission env s principal task := by
  refine ⟨?_,?_,?_⟩
  · intro path ids ids' hbounded hchain hchain' hagrees
    rw [hbounded.computePermission hchain,(hbounded.congr hagrees.rows).computePermission hchain',
      hagrees.granted_eq]
    by_cases hlength : ids.length ≤ 129 <;> by_cases hlength' : ids'.length ≤ 129 <;>
      simp [hlength,hlength']
  · intro grants hgrants permission hpermission
    exact computePermission_grants_le hgrants hpermission
  · intro grants hperm
    exact computePermission_grants_perm hperm

def sampleRow (taskId : TaskId) (parentId : Option TaskId) (rootId : TaskId) : Task where
  taskId := taskId
  name := "draft"
  parentId := parentId
  rootId := rootId
  schemaId := "raw"
  schemaVersion := 1
  input := .null
  inputDigest := ""
  creator := appCaller.actorRef
  idempotencyKey := taskId
  executor := .app none "editor" none
  runnerEpoch := 1
  phase := .accepted
  controlProfile := .baseline 0
  policyPreset := policyPresetCollaborativeTreeV1
  revision := 1
  createdAt := 0
  updatedAt := 0

def boundaryTask : Task := {sampleRow "t" (some "") "r" with permissionBoundary := true}

def level (k : ℕ) : TaskId := String.ofList (List.replicate k 'a')

theorem level_injective : Function.Injective level := by
  intro j k h
  have hlength := congrArg (fun text => text.toList.length) h
  simpa [level] using hlength

theorem level_ne (k : ℕ) {name : TaskId} {c : Char} (hname : name.toList = [c]) (hc : c ≠ 'a') :
    level k ≠ name := by
  rintro rfl
  have hmem : c ∈ replicate k 'a' := by
    rw [level,String.toList_ofList] at hname
    simp [hname]
  exact hc (eq_of_mem_replicate hmem)

def tower (height : ℕ) : List (TaskId × Task) :=
  ("r",sampleRow "r" none "r") :: (List.range height).map (fun k => (level k,sampleRow (level k)
    (some (if k + 1 = height then "r" else level (k + 1))) "r"))

/-- The boundary t below a tower. -/
def towerStore (height : ℕ) : TaskStore where
  tasks := (OrderedMap.ofList (tower height)).insert "t" boundaryTask

theorem tower_nodup : ((tower height).map Prod.fst).Nodup := by
  rw [tower,map_cons,map_map,nodup_cons]
  refine ⟨?_,?_⟩
  · simp only [mem_map,Function.comp_apply,not_exists,not_and]
    exact fun k _ => level_ne k (c := 'r') (by decide) (by decide)
  · exact List.Nodup.map level_injective nodup_range

theorem towerStore_boundary :
    (towerStore height).tasks.get? "t" = some boundaryTask := OrderedMap.get?_insert_self _ _ _

variable {height : ℕ}

theorem towerStore_get? {id : TaskId} {row : Task} (h : (id,row) ∈ tower height) (hid : id ≠ "t") :
    (towerStore height).tasks.get? id = some row := by
  rw [towerStore,OrderedMap.get?_insert_of_ne _ _ hid]
  exact (OrderedMap.get?_ofList (tower_nodup height) id row).mpr h

theorem towerStore_chain {k : ℕ} (hk : k < height) :
    ∃ ids, (towerStore height).Chain (level k) ids ∧ ids.length = height - k + 1 := by
  induction hd : height - k generalizing k with
  | zero => omega
  | succ d ih =>
    have hrow : (towerStore height).tasks.get? (level k) = _ :=
      towerStore_get? (mem_cons_of_mem _ (mem_map.mpr ⟨k,mem_range.mpr hk,rfl⟩))
        (level_ne k (c := 't') (by decide) (by decide))
    by_cases htop : k + 1 = height
    · refine ⟨[level k,"r"],.child hrow (by simp [sampleRow,htop])
        (.root (towerStore_get? mem_cons_self (by decide)) rfl),?_⟩
      simp only [length_cons,length_nil]
      omega
    · obtain ⟨ids,hids,hlength⟩ := @ih (k + 1) (by omega) (by omega)
      refine ⟨_,.child hrow (by simp [sampleRow,htop]) hids,?_⟩
      rw [length_cons,hlength]

theorem towerStore_boundary_chain (hpos : 0 < height) :
    ∃ ids, (towerStore height).Chain boundaryTask.taskId ids ∧ ids.length = height + 2 := by
  obtain ⟨ids,hids,hlength⟩ := towerStore_chain hpos
  exact ⟨_,.child (towerStore_boundary height) rfl hids,by rw [length_cons,hlength]; omega⟩

theorem bounded_towerStore (height : ℕ) :
    (towerStore height).Bounded boundaryTask.taskId [boundaryTask.taskId] :=
  .boundary (towerStore_boundary height) rfl rfl

theorem agreesAlong_towerStore (height height' : ℕ) :
    AgreesAlong plainEnv plainEnv (towerStore height) (towerStore height') appCaller.principal
      boundaryTask [boundaryTask.taskId] where
  rows id hid := by
    rw [mem_singleton.mp hid]
    exact (towerStore_boundary height').trans (towerStore_boundary height).symm
  grants _ _ := Iff.rfl
  assignees := rfl
  view := rfl

theorem permission_isolated_and_additive_tower :
    computePermission plainEnv (towerStore 2) appCaller.principal boundaryTask =
      computePermission plainEnv (towerStore 1) appCaller.principal boundaryTask := by
  obtain ⟨ids,hchain,hlength⟩ := towerStore_boundary_chain (show 0 < 1 by decide)
  obtain ⟨ids',hchain',hlength'⟩ := towerStore_boundary_chain (show 0 < 2 by decide)
  refine ((permission_isolated_and_additive plainEnv plainEnv (towerStore 1) (towerStore 2)
    appCaller.principal boundaryTask).1 _ ids ids' (bounded_towerStore 1) hchain hchain'
      (agreesAlong_towerStore 1 2)).mpr ?_
  rw [hlength,hlength']
  decide

/-- Below a tower that is too high, the creator of a boundary has no permission on it. -/
theorem tower_hides_boundary_task :
    (towerStore 1).Bounded boundaryTask.taskId [boundaryTask.taskId] ∧
    (∃ ids, (towerStore 1).Chain boundaryTask.taskId ids) ∧
    (∃ ids, (towerStore 128).Chain boundaryTask.taskId ids) ∧
    AgreesAlong plainEnv plainEnv (towerStore 1) (towerStore 128) appCaller.principal boundaryTask
      [boundaryTask.taskId] ∧
    computePermission plainEnv (towerStore 128) appCaller.principal boundaryTask ≠
      computePermission plainEnv (towerStore 1) appCaller.principal boundaryTask := by
  obtain ⟨ids,hchain,hlength⟩ := towerStore_boundary_chain (show 0 < 1 by decide)
  obtain ⟨ids',hchain',hlength'⟩ := towerStore_boundary_chain (show 0 < 128 by decide)
  refine ⟨bounded_towerStore 1,⟨ids,hchain⟩,⟨ids',hchain'⟩,agreesAlong_towerStore 1 128,?_⟩
  rw [(bounded_towerStore 1).computePermission hchain,
    (bounded_towerStore 128).computePermission hchain',hlength,hlength']
  simp

end Boundaries
end BuckyOS.TaskManager
