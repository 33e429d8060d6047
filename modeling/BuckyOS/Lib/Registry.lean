import Mathlib.Tactic

/-! Hash maps whose values carry their own key, as the list of values in the order an iterator
visits them. What a map holds does not depend on that order. -/
namespace BuckyOS
open List

/-- Values with distinct keys, in some order. -/
@[ext] structure Registry {α κ : Type} (key : α → κ) where
  items : List α
  nodup : (items.map key).Nodup

namespace Registry
variable {α κ : Type} {key : α → κ} [DecidableEq κ]

instance [DecidableEq α] : DecidableEq (Registry key) := fun a b =>
  decidable_of_iff (a.items = b.items) Registry.ext_iff.symm

def empty : Registry key := ⟨[],List.nodup_nil⟩

def find? (r : Registry key) (k : κ) : Option α := r.items.find? (fun a => key a = k)

def adjust (r : Registry key) (f : α → α) (hf : ∀ a, key (f a) = key a) : Registry key :=
  ⟨r.items.map f,by
    have hkeys : (r.items.map f).map key = r.items.map key := by
      rw [List.map_map]
      exact List.map_congr_left (fun a _ => hf a)
    rw [hkeys]
    exact r.nodup⟩

def filter (r : Registry key) (p : α → Bool) : Registry key :=
  ⟨r.items.filter p,r.nodup.sublist (List.filter_sublist.map key)⟩

def erase (r : Registry key) (k : κ) : Registry key := r.filter (fun a => key a ≠ k)

/-- Put a value in the place of the one with its key, or at the end. -/
def insert (r : Registry key) (a : α) : Registry key :=
  if hin : key a ∈ r.items.map key then
    ⟨r.items.map (fun b => if key b = key a then a else b),by
      have hkeys : (r.items.map (fun b => if key b = key a then a else b)).map key =
          r.items.map key := by
        rw [List.map_map]
        apply List.map_congr_left
        intro b _
        simp only [Function.comp_apply]
        split_ifs with h
        · exact h.symm
        · rfl
      rw [hkeys]
      exact r.nodup⟩
  else
    ⟨r.items ++ [a],by
      rw [List.map_append,List.nodup_append]
      refine ⟨r.nodup,by simp,?_⟩
      intro k hk k' hk' heq
      rw [List.map_singleton,List.mem_singleton] at hk'
      rw [heq,hk'] at hk
      exact hin hk⟩

variable (r : Registry key) {a b : α} {k : κ}

omit [DecidableEq κ] in
theorem eq_of_key_eq (ha : a ∈ r.items) (hb : b ∈ r.items) (h : key a = key b) :
    a = b := inj_on_of_nodup_map r.nodup ha hb h

theorem find?_eq_some_iff : r.find? k = some a ↔ a ∈ r.items ∧ key a = k := by
  constructor
  · intro h
    exact ⟨mem_of_find?_eq_some h,by simpa using find?_some h⟩
  · rintro ⟨ha,rfl⟩
    cases h : r.find? (key a) with
    | none =>
      have hne := find?_eq_none.mp h a ha
      simp at hne
    | some b =>
      have hb := mem_of_find?_eq_some h
      have hkey : key b = key a := by simpa using find?_some h
      rw [r.eq_of_key_eq hb ha hkey]

theorem find?_eq_none_iff : r.find? k = none ↔ ∀ a ∈ r.items, key a ≠ k := by simp [find?]

theorem mem_insert : b ∈ (r.insert a).items ↔ b = a ∨ b ∈ r.items ∧ key b ≠ key a := by
  rw [insert]
  split_ifs with h
  · simp only [mem_map]
    constructor
    · rintro ⟨c,hc,rfl⟩
      split_ifs with hk
      · exact .inl rfl
      · exact .inr ⟨hc,hk⟩
    · rintro (rfl | ⟨hb,hk⟩)
      · obtain ⟨c,hc,hck⟩ := mem_map.mp h
        exact ⟨c,hc,if_pos hck⟩
      · exact ⟨b,hb,if_neg hk⟩
  · rw [mem_append,mem_singleton]
    constructor
    · rintro (hb | rfl)
      · exact .inr ⟨hb,fun hk => h (hk ▸ mem_map_of_mem hb)⟩
      · exact .inl rfl
    · rintro (rfl | ⟨hb,_⟩)
      · exact .inr rfl
      · exact .inl hb

theorem find?_insert (a : α) (k : κ) : (r.insert a).find? k = if k = key a then some a else r.find? k := by
  split_ifs with hk
  · exact (find?_eq_some_iff _).mpr ⟨(mem_insert r).mpr (.inl rfl),hk.symm⟩
  · ext b
    rw [find?_eq_some_iff,find?_eq_some_iff,mem_insert]
    constructor
    · rintro ⟨rfl | ⟨hb,-⟩,hkey⟩
      · exact absurd hkey.symm hk
      · exact ⟨hb,hkey⟩
    · rintro ⟨hb,rfl⟩
      exact ⟨.inr ⟨hb,hk⟩,rfl⟩

theorem map_replace_perm (a : α) {l : List α} (hnodup : (l.map key).Nodup) (hin : key a ∈ l.map key) :
    (l.map (fun b => if key b = key a then a else b)).Perm (a :: l.filter (fun b => key b ≠ key a)) := by
  induction l with
  | nil => simp at hin
  | cons b bs ih =>
    rw [map_cons,nodup_cons] at hnodup
    by_cases hb : key b = key a
    · have hbs : ∀ c ∈ bs, key c ≠ key a := fun c hc hk => hnodup.1 (hb ▸ hk ▸ mem_map_of_mem hc)
      have hmap : bs.map (fun c => if key c = key a then a else c) = bs := by
        conv_rhs => rw [← map_id bs]
        exact map_congr_left (fun c hc => if_neg (hbs c hc))
      have hfilter : bs.filter (fun c => key c ≠ key a) = bs :=
        filter_eq_self.mpr (fun c hc => by simpa using hbs c hc)
      rw [map_cons,if_pos hb,hmap,filter_cons_of_neg (by simpa using hb),hfilter]
    · have hrest : key a ∈ bs.map key := by
        rcases mem_cons.mp (map_cons ▸ hin) with h | h
        · exact absurd h.symm hb
        · exact h
      rw [map_cons,if_neg hb,filter_cons_of_pos (by simpa using hb)]
      exact ((ih hnodup.2 hrest).cons b).trans (List.Perm.swap a b _)

theorem insert_perm (a : α) : (r.insert a).items.Perm (a :: r.items.filter (fun b => key b ≠ key a)) := by
  rw [insert]
  split_ifs with hin
  · exact map_replace_perm a r.nodup hin
  · have hfilter : r.items.filter (fun b => key b ≠ key a) = r.items := filter_eq_self.mpr (fun b hb => by
        simpa using fun hk : key b = key a => hin (hk ▸ mem_map_of_mem hb))
    rw [hfilter]
    exact perm_append_singleton a r.items

theorem filter_insert_perm {p : α → Bool} (hold : ∀ b ∈ r.items, key b = key a → p b = false) :
    ((r.insert a).items.filter p).Perm ([a].filter p ++ r.items.filter p) := by
  have hrest : (r.items.filter (fun b => key b ≠ key a)).filter p = r.items.filter p := by
    rw [filter_filter]
    apply filter_congr
    intro b hb
    by_cases hk : key b = key a
    · simp [hold b hb hk]
    · simp [hk]
  refine ((r.insert_perm a).filter p).trans ?_
  rw [← singleton_append,filter_append,hrest]

omit [DecidableEq κ] in
@[simp] theorem items_filter (p : α → Bool) : (r.filter p).items = r.items.filter p := rfl

omit [DecidableEq κ] in
@[simp] theorem items_adjust (f : α → α) (hf : ∀ a, key (f a) = key a) :
    (r.adjust f hf).items = r.items.map f := rfl

theorem mem_erase : a ∈ (r.erase k).items ↔ a ∈ r.items ∧ key a ≠ k := by simp [erase]

end Registry
end BuckyOS
