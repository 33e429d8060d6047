import BuckyOS.KLog.Replicas

/-! The appends of a sequence of requests: which of them are stored, and what the log then
holds under each id. -/
namespace BuckyOS.KLog
def DifferInId (p q : EntryPayload) : Prop := ∀ a b,
  p = .normal (.appendLog a) → q = .normal (.appendLog b) → a.id ≠ b.id

def DistinctIds (ps : List EntryPayload) : Prop := ps.Pairwise DifferInId

def appendedItem : EntryPayload → Option KLogEntry
  | .normal (.appendLog item) => some item
  | _ => none

def storedItem (x : EntryPayload × Bool) : Option KLogEntry :=
  if x.2 then none else appendedItem x.1

variable {p : EntryPayload} {item : KLogEntry}

theorem appendedItem_eq_some : appendedItem p = some item ↔ p = .normal (.appendLog item) := by
  rcases p with _ | (_ | _ | _) | _ <;> simp [appendedItem]

theorem mem_appendedItems {ps : List EntryPayload} :
    item ∈ ps.filterMap appendedItem ↔ .normal (.appendLog item) ∈ ps := by
  simp [List.mem_filterMap,appendedItem_eq_some]

namespace Ledger
variable {l : Ledger}

theorem step_logs {p : EntryPayload} {repetition : Bool} (hrep : repetition = true → p.dedupKey.isSome) :
    (l.step p repetition).2.logs = (storedItem (p,repetition)).elim l.logs l.logs.store := by
  rcases p with _ | (item | ⟨item,expected⟩ | key) | _
  · cases repetition <;> rfl
  · cases repetition with
    | false => cases hkey : item.dedupKey <;> simp [step,request,hkey,storedItem,appendedItem,store]
    | true =>
      obtain ⟨r,hr⟩ := Option.isSome_iff_exists.mp (hrep rfl)
      have hkey : item.dedupKey = some r := hr
      simp [step,request,hkey,storedItem]
  · simp only [step,request]
    split_ifs <;> cases repetition <;> rfl
  · cases repetition <;> rfl
  · cases repetition <;> rfl

end Ledger
end BuckyOS.KLog
