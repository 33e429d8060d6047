import BuckyOS.Lib.Bytes
import BuckyOS.Lib.OrderedMap

/-! Ranges and prefix scans of ordered maps, and the strings that lie between two strings with a
common front. -/
namespace BuckyOS
namespace OrderedMap
variable {κ ν : Type} [LinearOrder κ]

def range (m : OrderedMap κ ν) (low high : κ) : List (κ × ν) :=
  m.entries.filter (fun e => low ≤ e.1 ∧ e.1 ≤ high)

def rangeTo (m : OrderedMap κ ν) (low high : κ) : List (κ × ν) :=
  m.entries.filter (fun e => low ≤ e.1 ∧ e.1 < high)

variable {m n : OrderedMap κ ν} {low high : κ} {e : κ × ν}

theorem mem_range : e ∈ m.range low high ↔ m.get? e.1 = some e.2 ∧ low ≤ e.1 ∧ e.1 ≤ high := by
  rw [range,List.mem_filter,mem_entries_iff m e.1 e.2]
  simp

theorem mem_rangeTo : e ∈ m.rangeTo low high ↔ m.get? e.1 = some e.2 ∧ low ≤ e.1 ∧ e.1 < high := by
  rw [rangeTo,List.mem_filter,mem_entries_iff m e.1 e.2]
  simp

theorem range_sorted (m : OrderedMap κ ν) (low high : κ) :
    (m.range low high).Pairwise (fun a b => a.1 < b.1) := m.sorted.filter _

theorem rangeTo_sorted (m : OrderedMap κ ν) (low high : κ) :
    (m.rangeTo low high).Pairwise (fun a b => a.1 < b.1) := m.sorted.filter _

theorem range_congr (h : ∀ k, low ≤ k → k ≤ high → n.get? k = m.get? k) :
    n.range low high = m.range low high := by
  refine eq_of_sorted (range_sorted n low high) (range_sorted m low high) fun e => ?_
  rw [mem_range,mem_range]
  exact and_congr_left fun hbounds => by rw [h e.1 hbounds.1 hbounds.2]

theorem rangeTo_congr (h : ∀ k, low ≤ k → k < high → n.get? k = m.get? k) :
    n.rangeTo low high = m.rangeTo low high := by
  refine eq_of_sorted (rangeTo_sorted n low high) (rangeTo_sorted m low high) fun e => ?_
  rw [mem_rangeTo,mem_rangeTo]
  exact and_congr_left fun hbounds => by rw [h e.1 hbounds.1 hbounds.2]

def eraseAll (m : OrderedMap κ ν) (ks : List κ) : OrderedMap κ ν := ks.foldl erase m

theorem get?_eraseAll (m : OrderedMap κ ν) (ks : List κ) (k : κ) :
    (m.eraseAll ks).get? k = if k ∈ ks then none else m.get? k := by
  induction ks generalizing m with
  | nil => simp [eraseAll]
  | cons key ks ih =>
    rw [eraseAll,List.foldl_cons,← eraseAll,ih,get?_erase]
    by_cases hk : k = key
    · simp [hk]
    · simp [hk]

def withFront {α : Type} [LinearOrder α] (m : OrderedMap (List α) ν) (front : List α) :
    List (List α × ν) :=
  m.entries.filter (fun e => front.isPrefixOf e.1)

theorem mem_withFront {α : Type} [LinearOrder α] {m : OrderedMap (List α) ν} {front : List α}
    {e : List α × ν} : e ∈ m.withFront front ↔ m.get? e.1 = some e.2 ∧ front <+: e.1 := by
  rw [withFront,List.mem_filter,mem_entries_iff m e.1 e.2,List.isPrefixOf_iff_prefix]

end OrderedMap

namespace Bytes
variable {α : Type} [LinearOrder α]

/-- What lies between two strings with a common front has it. -/
theorem isPrefix_of_between {front low high k : List α} (hlow : front <+: low)
    (hhigh : front <+: high) (hle : low ≤ k) (hge : k ≤ high) : front <+: k := by
  by_contra hk
  exact absurd (lt_of_not_isPrefix hhigh ((prefix_le hlow).trans hle) hk) (not_lt.mpr hge)

end Bytes
end BuckyOS
