import BuckyOS.TaskManager.Versions

/-! The subtree of a task as it is collected from one page of its tree. -/
namespace BuckyOS.TaskManager
open List
namespace TaskStore
variable {s : TaskStore}

section Rows
theorem mem_rows {task : Task} : task ∈ s.rows ↔ task ∈ s.tasks.values := by rw [rows,mem_insertionSort]

theorem mem_of_mem_page {limit : ℕ} {rows : List Task} {task : Task}
    (h : task ∈ (page limit rows).1) : task ∈ rows := by
  rw [page] at h
  split at h
  · exact mem_of_mem_take (mem_of_mem_take h)
  · exact mem_of_mem_take h

end Rows

section Collect
theorem mem_collectChildren {maxNodes : ℕ} {current : TaskId} {tree result : List Task}
    {frontier : List TaskId} {task : Task}
    (h : task ∈ (collectChildren maxNodes current tree result frontier).2.1) :
    task ∈ result ∨ task ∈ tree := by
  induction tree generalizing result frontier with
  | nil => exact .inl h
  | cons node rest ih =>
    rw [collectChildren] at h
    have hadd : task ∈ result ++ [node] → task ∈ result ∨ task ∈ node :: rest := by
      intro hmem
      rcases mem_append.mp hmem with hmem | hmem
      · exact .inl hmem
      · exact .inr (by simp [mem_singleton.mp hmem])
    split at h
    · split at h
      · exact hadd h
      · rcases ih h with h | h
        · exact hadd h
        · exact .inr (mem_cons_of_mem _ h)
    · exact (ih h).imp_right (mem_cons_of_mem _)

theorem mem_collectLoop {tree : List Task} {maxNodes fuel : ℕ} {result : List Task}
    {frontier : List TaskId} {task : Task}
    (h : task ∈ collectLoop tree maxNodes fuel result frontier) : task ∈ result ∨ task ∈ tree := by
  induction fuel generalizing result frontier with
  | zero => exact .inl h
  | succ fuel ih =>
    cases frontier with
    | nil => exact .inl h
    | cons current frontier =>
      rw [collectLoop] at h
      split at h
      · rename_i result' _ hchildren
        refine @mem_collectChildren maxNodes current tree result frontier task ?_
        rw [hchildren]
        exact h
      · rename_i result' _ hchildren
        rcases ih h with h | h
        · refine @mem_collectChildren maxNodes current tree result frontier task ?_
          rw [hchildren]
          exact h
        · exact .inr h

theorem Keyed.get?_of_collected (hs : s.Keyed) {task node : Task} {maxNodes : ℕ}
    {subtree : List Task} (hcollected : s.collectSubtree task maxNodes = .ok subtree)
    (hnode : node ∈ subtree) : node = task ∨ s.tasks.get? node.taskId = some node := by
  rw [collectSubtree] at hcollected
  obtain rfl := Except.ok.inj hcollected
  rcases mem_collectLoop hnode with h | h
  · exact .inl (mem_singleton.mp h)
  · have hrow := mem_rows.mp (mem_of_mem_filter (mem_of_mem_page h))
    obtain ⟨id,hid⟩ := (OrderedMap.mem_values_iff _ _).mp hrow
    exact .inr (by rwa [hs.taskId hid])

end Collect
end TaskStore
end BuckyOS.TaskManager
