import BuckyOS.Lib.Lists
import BuckyOS.TaskManager.Permissions
import BuckyOS.TaskManager.Subtree

/-! The pages of the lists of tasks, one after the other. -/
namespace BuckyOS.TaskManager
open List
open TaskStore (pageFrom)

/-- The pages of a query, from a cursor on to the page that names no other. -/
inductive Pages (query : Option String → Except RpcError (List Task × Option String)) :
    Option String → List (List Task) → Prop
  | last {cursor : Option String} {tasks : List Task} (h : query cursor = .ok (tasks,none)) :
    Pages query cursor [tasks]
  | more {cursor : Option String} {tasks : List Task} {next : String} {pages : List (List Task)}
    (h : query cursor = .ok (tasks,some next)) (rest : Pages query (some next) pages) :
    Pages query cursor (tasks :: pages)

/-- The pages of a query have every row that passes once and in order, and all but the last are
full. -/
def TaskStore.Paginates (s : TaskStore) (passes : Task → Bool) (limit : ℕ)
    (query : Option String → Except RpcError (List Task × Option String)) : Prop :=
  ∃ pages, Pages query none pages ∧
    (∀ task, task ∈ pages.flatten ↔ task ∈ s.tasks.values ∧ passes task = true) ∧
    pages.flatten.Pairwise (fun a b => a.key < b.key) ∧
    ∀ tasks ∈ pages.dropLast, tasks.length = limit

section Walk
def Task.cursor (task : Task) : String := makeCursor task.createdAt task.taskId

theorem parseCursor_cursor {task : Task} (h : task.createdAt < 2 ^ 63) :
    parseCursor task.cursor = .ok ((task.createdAt : ℤ),task.taskId) := by
  have htext : task.cursor.toList = Nat.toDigits 10 task.createdAt ++ ':' :: task.taskId.toList := by
    simp [Task.cursor,makeCursor]
  have hread := Text.inRange_of_parseSigned (Text.parseSigned_toDigits task.createdAt) (by omega) (by omega)
  rw [parseCursor,htext,Text.splitOnce_append (Text.not_mem_toDigits (by decide) _)]
  simp only [hread,String.ofList_toList]

theorem afterCursor_eq (task : Task) :
    afterCursor ((task.createdAt : ℤ),task.taskId) = fun t => decide (task.key < t.key) := by
  funext t
  rw [afterCursor,decide_eq_decide,Task.key,Task.key,Prod.Lex.toLex_lt_toLex,Nat.cast_lt,
    Nat.cast_inj,@eq_comm _ t.createdAt]

variable {limit : ℕ} {rows front rest : List Task}
  (hrows : rows.Pairwise (fun a b => a.key < b.key))
  (htime : ∀ task ∈ rows, task.createdAt < 2 ^ 63) (hsplit : front ++ rest = rows)
include hrows htime hsplit

theorem pageFrom_cursor : pageFrom limit (front.getLast?.map Task.cursor) rows = .ok (page limit rest) := by
  subst hsplit
  have hafter := filter_after_last hrows
  cases hlast : front.getLast? with
  | none =>
    rw [getLast?_eq_none_iff.mp hlast]
    rfl
  | some last =>
    have hmem := mem_append_left rest (mem_of_getLast? hlast)
    simp only [hlast,Option.map_some,Option.mem_def,Option.some.injEq,forall_eq'] at hafter
    rw [Option.map_some,pageFrom,parseCursor_cursor (htime last hmem)]
    show Except.ok (page limit (filter _ _)) = _
    rw [afterCursor_eq,hafter]

theorem exists_pages (hlimit : 0 < limit) :
    ∃ pages, Pages (fun cursor => pageFrom limit cursor rows) (front.getLast?.map Task.cursor) pages ∧
      pages.flatten = rest ∧ ∀ tasks ∈ pages.dropLast, tasks.length = limit := by
  induction hn : rest.length using Nat.strong_induction_on generalizing front rest with | _ n ih =>
  have hpage := @pageFrom_cursor limit rows front rest hrows htime hsplit
  rw [page,length_take] at hpage
  by_cases hmore : limit < rest.length
  · obtain ⟨pages,hpages,hflatten,hfull⟩ := @ih (rest.length - limit) (by omega)
      (front ++ rest.take limit) (rest.drop limit) (by simp [hsplit]) length_drop
    have hlength : (rest.take limit).length = limit := length_take_of_le hmore.le
    obtain ⟨last,hlast⟩ : ∃ last, (rest.take limit).getLast? = some last := by
      rw [← Option.isSome_iff_exists,getLast?_isSome,← length_pos_iff,hlength]
      exact hlimit
    rw [getLast?_append,hlast] at hpages
    rw [if_pos (by omega),take_take,min_eq_left (Nat.le_succ limit)] at hpage
    simp only [hlast] at hpage
    refine ⟨_,.more hpage hpages,by simp [hflatten],?_⟩
    cases pages with
    | nil => simp
    | cons tasks pages => exact forall_mem_cons.mpr ⟨hlength,hfull⟩
  · rw [if_neg (by omega),take_of_length_le (by omega)] at hpage
    exact ⟨_,.last hpage,by simp,by simp⟩

end Walk

namespace TaskStore
variable {s : TaskStore}

theorem Keyed.rows_increasing (hs : s.Keyed) : s.rows.Pairwise (fun a b => a.key < b.key) := by
  have hids : s.rows.Pairwise (fun a b => a.taskId ≠ b.taskId) := by
    refine (perm_insertionSort _ _).symm.pairwise ?_ fun h => h.symm
    refine pairwise_map.mpr (s.tasks.sorted.imp_of_mem fun ha hb hlt => ?_)
    rw [hs.taskId ((s.tasks.mem_entries_iff _ _).mp ha),hs.taskId ((s.tasks.mem_entries_iff _ _).mp hb)]
    exact hlt.ne
  have hsorted : s.rows.Pairwise (fun a b => a.key ≤ b.key) := pairwise_insertionSort _ _
  refine hsorted.imp₂ (fun a b hle hne => ?_) hids
  exact lt_of_le_of_ne hle fun heq => hne (congrArg (fun k => (ofLex k).2) heq)

section
variable (hs : s.Keyed) (htime : ∀ task ∈ s.tasks.values, task.createdAt < 2 ^ 63)
include hs htime

theorem paginates (passes : Task → Bool) (limit : ℕ) : s.Paginates passes (clampLimit limit) fun cursor =>
      pageFrom (clampLimit limit) cursor (s.rows.filter passes) := by
  have hrows := hs.rows_increasing.filter passes
  obtain ⟨pages,hpages,hflatten,hfull⟩ := exists_pages hrows
    (fun task htask => htime task (mem_rows.mp (mem_of_mem_filter htask))) (nil_append _) (le_max_left 1 _)
  refine ⟨pages,hpages,fun task => ?_,hflatten ▸ hrows,hfull⟩
  rw [hflatten,mem_filter,mem_rows]

/-- Following the cursors of a list of tasks, of a tree or of the children of a task gives every task
asked for once and in order, page after full page. -/
theorem pagination_complete :
    (∀ req : ListTasksReq, s.Paginates req.admits (clampLimit (req.limit.getD 100))
      fun cursor => s.listTasks {req with cursor := cursor}) ∧
    (∀ rootId limit, s.Paginates (fun task => task.rootId = rootId) (clampLimit limit)
      fun cursor => s.listTree rootId cursor limit) ∧
    ∀ parentId limit, s.Paginates (fun task => task.parentId = some parentId) (clampLimit limit)
      fun cursor => s.listChildren parentId cursor limit := by
  refine ⟨fun req => paginates hs htime req.admits _,fun rootId limit => ?_,
    fun parentId limit => paginates hs htime _ limit⟩
  have hadmits : ({rootId := some rootId, includeArchived := true} : ListTasksReq).admits =
      fun task => decide (task.rootId = rootId) := by
    funext task
    simp [ListTasksReq.admits,admits]
  rw [← hadmits]
  exact paginates hs htime _ limit

end

def pair : TaskStore where
  tasks := (OrderedMap.empty.insert "r" (sampleRow "r" none "r")).insert "t"
    (sampleRow "t" (some "r") "r")

theorem pagination_complete_pair : pair.Paginates (fun task => task.rootId = "r") 1
    fun cursor => pair.listTree "r" cursor 1 := by
  have hrow {id row} (h : pair.tasks.get? id = some row) :
      row.taskId = id ∧ row.assignees = none ∧ row.createdAt < 2 ^ 63 := by
    simp only [pair,OrderedMap.get?_insert] at h
    grind [sampleRow,OrderedMap.get?_empty]
  refine (pagination_complete ⟨fun h => (hrow h).1,fun h => (hrow h).2.1⟩ fun task h => ?_).2.1 "r" 1
  obtain ⟨id,hget⟩ := (OrderedMap.mem_values_iff _ _).mp h
  exact (hrow hget).2.2

end TaskStore
end BuckyOS.TaskManager
