import Mathlib.Tactic

/-! Loops over an iterator that skip, take or stop at each item and end once enough is
taken, and when such a loop finds exactly the items that would be taken. -/
namespace BuckyOS
open List

/-- What the body of the loop does with one item. -/
inductive Visit (ε β : Type)
  | stop
  | skip
  | take (b : β)
  | fail (e : ε)

namespace Visit
variable {ε α β : Type}

def taken : Visit ε β → Option β
  | .take b => some b
  | _ => none

def scanAll (visit : α → Visit ε β) : List α → Except ε (List β)
  | [] => .ok []
  | a :: items =>
    match visit a with
    | .stop => .ok []
    | .skip => scanAll visit items
    | .fail e => .error e
    | .take b => (scanAll visit items).map (b :: ·)

variable {visit : α → Visit ε β} {items : List α}

theorem scanAll_eq (hfail : ∀ a ∈ items, ∀ e, visit a ≠ .fail e)
    (hstop : items.Pairwise (fun a b => visit a = .stop → (visit b).taken = none)) :
    scanAll visit items = .ok (items.filterMap (fun a => (visit a).taken)) := by
  induction items with
  | nil => rfl
  | cons a items ih =>
    obtain ⟨hafter,hstop⟩ := pairwise_cons.mp hstop
    have hrest := ih (fun b hb => hfail b (mem_cons_of_mem a hb)) hstop
    rw [scanAll]
    cases hv : visit a with
    | stop =>
      have hnone : items.filterMap (fun a => (visit a).taken) = [] :=
        filterMap_eq_nil_iff.mpr (fun b hb => hafter b hb hv)
      rw [filterMap_cons_none (by rw [hv]; rfl),hnone]
    | skip => rw [filterMap_cons_none (by rw [hv]; rfl),hrest]
    | fail e => exact absurd hv (hfail a (by simp) e)
    | take b =>
      rw [filterMap_cons_some (by rw [hv]; rfl),hrest]
      rfl

theorem scanAll_map {γ : Type} (visit : α → Visit ε β) (f : γ → α) (items : List γ) :
    scanAll visit (items.map f) = scanAll (fun a => visit (f a)) items := by
  induction items with
  | nil => rfl
  | cons a items ih => simp only [map_cons,scanAll,ih]

/-- A loop over sorted items that takes those inside an interval and may stop past it takes
exactly those. -/
theorem scanAll_eq_filter {inside : α → Bool} {out : α → β}
    (htake : ∀ a ∈ items, inside a = true → visit a = .take (out a))
    (hleave : ∀ a ∈ items, inside a = false → visit a = .skip ∨ visit a = .stop)
    (hstop : items.Pairwise (fun a b => visit a = .stop → inside b = false)) :
    scanAll visit items = .ok ((items.filter inside).map out) := by
  have hfail : ∀ a ∈ items, ∀ e, visit a ≠ .fail e := by
    intro a ha e he
    cases hin : inside a with
    | true => simp [htake a ha hin] at he
    | false => rcases hleave a ha hin with h | h <;> simp [h] at he
  have htaken : ∀ a ∈ items, (visit a).taken = if inside a then some (out a) else none := by
    intro a ha
    cases hin : inside a with
    | true => rw [htake a ha hin]; rfl
    | false => rcases hleave a ha hin with h | h <;> rw [h] <;> rfl
  rw [scanAll_eq hfail,filterMap_congr htaken,← filterMap_eq_map,filterMap_filter]
  · rfl
  · refine hstop.imp_of_mem ?_
    intro a b _ hb hab hv
    rw [htaken b hb,hab hv]
    rfl

end Visit
end BuckyOS
