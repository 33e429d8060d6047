import Mathlib.Tactic

/-! Lists of parties that move one at a time: one of them takes a step, or another one joins them. -/
namespace BuckyOS.Pool
open List

variable {α : Type} {R : α → α → Prop} {l : List α} {k : ℕ} {a b : α}

theorem getElem?_set_of_some (h : l[k]? = some a) (b : α) (i : ℕ) :
    (l.set k b)[i]? = if i = k then some b else l[i]? := by
  have hk : k < l.length := (List.getElem?_eq_some_iff.mp h).1
  rw [List.getElem?_set]
  by_cases hi : k = i
  · simp [hi ▸ hk,hi]
  · simp [hi,Ne.symm hi]

theorem forall_mem_set {P : α → Prop} (h : ∀ x ∈ l, P x) (hb : P b) : ∀ x ∈ l.set k b, P x := by
  intro x hx
  rcases mem_or_eq_of_mem_set hx with hx | rfl
  · exact h x hx
  · exact hb

theorem forall_mem_modify {P : α → Prop} {f : α → α} (h : ∀ x ∈ l, P x)
    (hf : ∀ x, l[k]? = some x → P (f x)) : ∀ x ∈ l.modify k f, P x := by
  intro x hx
  obtain ⟨i,hi⟩ := mem_iff_getElem?.mp hx
  rw [getElem?_modify] at hi
  obtain ⟨y,hy,rfl⟩ := Option.map_eq_some_iff.mp hi
  split_ifs with hik
  · exact hf y (hik ▸ hy)
  · exact h y (mem_of_getElem? hy)

theorem forall_mem_concat {P : α → Prop} (h : ∀ x ∈ l, P x) (hb : P b) : ∀ x ∈ l ++ [b], P x := by
  intro x hx
  rcases mem_append.mp hx with hx | hx
  · exact h x hx
  · exact mem_singleton.mp hx ▸ hb

/-- Any two of them at different places are related. -/
def Spread (R : α → α → Prop) (l : List α) : Prop :=
  ∀ (i j : ℕ) (x y : α), i ≠ j → l[i]? = some x → l[j]? = some y → R x y

theorem Spread.set (hsymm : ∀ x y, R x y → R y x) (h : Spread R l) (hk : l[k]? = some a)
    (hb : ∀ (i : ℕ) (x : α), i ≠ k → l[i]? = some x → R b x) : Spread R (l.set k b) := by
  intro i j x y hij hx hy
  rw [getElem?_set_of_some hk] at hx hy
  split_ifs at hx hy with hi hj hj
  · exact absurd (hi.trans hj.symm) hij
  · exact Option.some.inj hx ▸ hb j y hj hy
  · exact Option.some.inj hy ▸ hsymm _ _ (hb i x hi hx)
  · exact h i j x y hij hx hy

theorem Spread.concat (hsymm : ∀ x y, R x y → R y x) (h : Spread R l) (hb : ∀ x ∈ l, R b x) :
    Spread R (l ++ [b]) := by
  have hlast : ∀ (i : ℕ) (x : α), (l ++ [b])[i]? = some x → l[i]? = some x ∨ (i = l.length ∧ x = b) := by
    intro i x hx
    rcases Nat.lt_trichotomy i l.length with hi | hi | hi
    · exact Or.inl (by rwa [getElem?_append_left hi] at hx)
    · subst hi
      exact Or.inr ⟨rfl,by simpa using hx.symm⟩
    · rw [getElem?_eq_none (by simpa using hi)] at hx
      cases hx
  intro i j x y hij hx hy
  rcases hlast i x hx with hx' | ⟨hi,hxb⟩ <;> rcases hlast j y hy with hy' | ⟨hj,hyb⟩
  · exact h i j x y hij hx' hy'
  · exact hyb ▸ hsymm _ _ (hb x (mem_of_getElem? hx'))
  · exact hxb ▸ hb y (mem_of_getElem? hy')
  · exact absurd (hi.trans hj.symm) hij

theorem of_all_others {p : α → Bool} (h : (l.eraseIdx k).all p = true) {i : ℕ} {x : α} (hi : i ≠ k)
    (hx : l[i]? = some x) : p x = true := all_eq_true.mp h x (mem_eraseIdx_iff_getElem?.mpr ⟨i,hi,hx⟩)

end BuckyOS.Pool
