import BuckyOS.TaskManager.Acl
import BuckyOS.TaskManager.Versions

/-! The parents of a task up to its root, and the walk along them. -/
namespace BuckyOS.TaskManager
open List Option
namespace TaskStore
variable {s s' : TaskStore}

/-- The ids from a task up to the root of its tree. -/
inductive Chain (s : TaskStore) : TaskId → List TaskId → Prop
  | root {id : TaskId} {row : Task} : s.tasks.get? id = some row → row.parentId = none →
      Chain s id [id]
  | child {id parent : TaskId} {row : Task} {ids : List TaskId} : s.tasks.get? id = some row →
      row.parentId = some parent → Chain s parent ids → Chain s id (id :: ids)

namespace Chain
variable {id : TaskId} {ids : List TaskId}

section
variable (h : Chain s id ids)
include h

theorem ne_nil : ids ≠ [] := by cases h <;> simp

theorem row : ∃ row, s.tasks.get? id = some row := by
  cases h with
  | root hrow _ | child hrow _ _ => exact ⟨_,hrow⟩

theorem of_parent {row : Task} {parent : TaskId} (hrow : s.tasks.get? id = some row)
    (hparent : row.parentId = some parent) : ∃ rest, ids = id :: rest ∧ Chain s parent rest := by
  cases h with
  | root hrow' hnone =>
    obtain rfl := some.inj (hrow.symm.trans hrow')
    exact absurd (hnone.symm.trans hparent) (by simp)
  | child hrow' hparent' hrest =>
    obtain rfl := some.inj (hrow.symm.trans hrow')
    obtain rfl := some.inj (hparent.symm.trans hparent')
    exact ⟨_,rfl,hrest⟩

theorem unique {ids' : List TaskId} (h' : Chain s id ids') : ids = ids' := by
  induction h generalizing ids' with
  | root hrow hnone =>
    cases h' with
    | root _ _ => rfl
    | child hrow' hparent _ =>
      obtain rfl := some.inj (hrow.symm.trans hrow')
      exact absurd (hnone.symm.trans hparent) (by simp)
  | child hrow hparent _ ih =>
    obtain ⟨rest,rfl,hrest⟩ := h'.of_parent hrow hparent
    rw [ih hrest]

theorem suffix {other : TaskId} (hmem : other ∈ ids) : ∃ rest, Chain s other rest ∧ rest <:+ ids := by
  induction h with
  | root hrow hnone =>
    obtain rfl := mem_singleton.mp hmem
    exact ⟨_,root hrow hnone,suffix_refl _⟩
  | child hrow hparent hrest ih =>
    rcases mem_cons.mp hmem with rfl | hmem
    · exact ⟨_,child hrow hparent hrest,suffix_refl _⟩
    · obtain ⟨rest,hchain,hsuffix⟩ := ih hmem
      exact ⟨rest,hchain,hsuffix.trans (suffix_cons _ _)⟩

theorem nodup : ids.Nodup := by
  induction h with
  | root _ _ => exact nodup_singleton _
  | @child id parent row ids hrow hparent hrest ih =>
    refine nodup_cons.mpr ⟨?_,ih⟩
    intro hmem
    obtain ⟨rest,hchain,hsuffix⟩ := hrest.suffix hmem
    have hlength := hsuffix.length_le
    rw [hchain.unique (child hrow hparent hrest),length_cons] at hlength
    omega

theorem congr (hparents : ∀ {other row}, other ∈ ids → s.tasks.get? other = some row →
      ∃ row', s'.tasks.get? other = some row' ∧ row'.parentId = row.parentId) : Chain s' id ids := by
  induction h with
  | root hrow hnone =>
    obtain ⟨row',hrow',hparent'⟩ := hparents (mem_singleton.mpr rfl) hrow
    exact root hrow' (hparent'.trans hnone)
  | child hrow hparent _ ih =>
    obtain ⟨row',hrow',hparent'⟩ := hparents mem_cons_self hrow
    exact child hrow' (hparent'.trans hparent)
      (ih (fun hother hrow => hparents (mem_cons_of_mem _ hother) hrow))

theorem mono (hlater : Later s s') : Chain s' id ids := by
  refine h.congr ?_
  intro other row _ hrow
  obtain ⟨row',hrow',hfixed,-⟩ := hlater hrow
  refine ⟨row',hrow',?_⟩
  have hparent : row'.fixed.parentId = row.fixed.parentId := by rw [hfixed]
  exact hparent

end

def links (s : TaskStore) (ids : List TaskId) : List (TaskId × Option TaskId × Bool) :=
  ids.filterMap (fun id =>
    (s.tasks.get? id).map (fun row => (id,row.parentId,row.permissionBoundary)))

/-- The walk reaches the root of a chain that is within its bound, and gives up on others. -/
theorem chainFrom_eq (h : Chain s id ids) (fuel : ℕ) :
    s.chainFrom fuel (some id) = if ids.length ≤ fuel then .ok (links s ids)
      else .error (.reason "task parent chain too deep or cyclic") := by
  induction h generalizing fuel with
  | root hrow hnone =>
    cases fuel with
    | zero => rfl
    | succ fuel =>
      rw [chainFrom,hrow]
      simp [hnone,chainFrom,links,hrow,bind,Except.bind,pure,Except.pure]
  | @child id parent row ids hrow hparent hrest ih =>
    cases fuel with
    | zero => rfl
    | succ fuel =>
      rw [chainFrom,hrow]
      simp only [hparent,ih fuel,length_cons,Nat.add_le_add_iff_right]
      split
      · simp [links,hrow,hparent,bind,Except.bind,pure,Except.pure]
      · rfl

theorem getTaskChain_eq (h : Chain s id ids) :
    s.getTaskChain id = if ids.length ≤ 129 then .ok (links s ids)
      else .error (.reason "task parent chain too deep or cyclic") := h.chainFrom_eq 129

end Chain

theorem chainFrom_congr
    (h : ∀ id, (s'.tasks.get? id).map (fun row => (row.parentId,row.permissionBoundary)) =
      (s.tasks.get? id).map (fun row => (row.parentId,row.permissionBoundary)))
    (fuel : ℕ) (current : Option TaskId) : s'.chainFrom fuel current = s.chainFrom fuel current := by
  induction fuel generalizing current with
  | zero => cases current <;> rfl
  | succ fuel ih =>
    cases current with
    | none => rfl
    | some current =>
      have hrow := h current
      rw [chainFrom,chainFrom]
      cases hget : s.tasks.get? current with
      | none =>
        rw [hget,map_none,map_eq_none_iff] at hrow
        rw [hrow]
      | some row =>
        rw [hget,map_some,map_eq_some_iff] at hrow
        obtain ⟨row',hget',hsame⟩ := hrow
        obtain ⟨hparent,hboundary⟩ := Prod.mk.inj hsame
        simp only [hget',hparent,hboundary,ih]

end TaskStore
end BuckyOS.TaskManager
