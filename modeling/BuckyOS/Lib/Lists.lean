import Mathlib.Tactic

/-! Lists with distinct or ordered keys. -/
namespace BuckyOS
open List

variable {α κ : Type}

theorem append_cons_inj {x : α} {as bs ms ns : List α} (hm : x ∉ ms) (hn : x ∉ ns)
    (h : as ++ x :: ms = bs ++ x :: ns) : as = bs ∧ ms = ns := by
  induction as generalizing bs with
  | nil =>
    cases bs with
    | nil => exact ⟨rfl,(cons.inj h).2⟩
    | cons b bs =>
      refine absurd ?_ hm
      rw [(cons.inj h).2]
      simp
  | cons a as ih =>
    cases bs with
    | nil =>
      refine absurd ?_ hn
      rw [← (cons.inj h).2]
      simp
    | cons b bs =>
      obtain ⟨rfl,hrest⟩ := cons.inj h
      obtain ⟨rfl,rfl⟩ := ih hrest
      exact ⟨rfl,rfl⟩

theorem take_min_length (n : ℕ) (l : List α) : l.take (min n l.length) = l.take n := by
  rw [← take_take,take_length]

/-- Of a list with increasing keys, what is above the last of a beginning is the rest. -/
theorem filter_after_last [LinearOrder κ] {key : α → κ} {front rest : List α}
    (h : (front ++ rest).Pairwise (fun a b => key a < key b)) :
    (front ++ rest).filter (fun x => ∀ after ∈ front.getLast?.map key, after < key x) = rest := by
  obtain ⟨hfront,-,hacross⟩ := pairwise_append.mp h
  rcases eq_nil_or_concat' front with rfl | ⟨first,last,rfl⟩
  · simp
  · rw [filter_append,filter_eq_nil_iff.mpr,filter_eq_self.mpr,nil_append]
    · intro x hx
      simpa using hacross last (by simp) x hx
    · intro x hx
      simp only [getLast?_concat,Option.map_some,Option.mem_def,Option.some.injEq,forall_eq',
        decide_eq_true_eq,not_lt]
      rcases mem_append.mp hx with hx | hx
      · exact ((pairwise_append.mp hfront).2.2 x hx last (by simp)).le
      · rw [mem_singleton.mp hx]

section Keys
variable {κ ν : Type} [DecidableEq κ] [DecidableEq ν]

/-- Bindings agree up to order if they agree up to order under every key. -/
theorem perm_iff_filter_key {es fs : List (κ × ν)} :
    es.Perm fs ↔ ∀ k, (es.filter (fun e => e.1 = k)).Perm (fs.filter (fun e => e.1 = k)) := by
  refine ⟨fun h k => h.filter _,fun h => perm_iff_count.mpr fun e => ?_⟩
  have hcount : ∀ l : List (κ × ν), (l.filter (fun e' => e'.1 = e.1)).count e = l.count e :=
    fun l => count_filter (by simp)
  rw [← hcount es,← hcount fs]
  exact perm_iff_count.mp (h e.1) e

end Keys

/-- Texts can be put together in any order exactly when any two of them can. -/
theorem flatMap_perm_iff {β : Type} {f : α → List β} {l : List α} :
    (∀ l', l.Perm l' → l'.flatMap f = l.flatMap f) ↔ ∀ a ∈ l, ∀ b ∈ l, f a ++ f b = f b ++ f a := by
  constructor
  · intro h a ha b hb
    by_cases hab : a = b
    · rw [hab]
    · obtain ⟨s,t,rfl⟩ := append_of_mem ha
      have hrest : b ∈ s ++ t := by simpa [Ne.symm hab] using hb
      obtain ⟨s',t',hst⟩ := append_of_mem hrest
      have hperm : (s ++ a :: t).Perm (a :: b :: (s' ++ t')) := by
        refine perm_middle.trans (.cons a ?_)
        rw [hst]
        exact perm_middle
      have hswap := (h _ (hperm.trans (.swap b a _))).trans (h _ hperm).symm
      simp only [flatMap_cons,← append_assoc] at hswap
      exact (append_cancel_right hswap).symm
  · intro h l' hperm
    induction hperm with
    | nil => rfl
    | cons a _ ih => rw [flatMap_cons,flatMap_cons,ih fun b hb c hc => h b (by simp [hb]) c (by simp [hc])]
    | swap a b l =>
      simp only [flatMap_cons,← append_assoc]
      rw [h a (by simp) b (by simp)]
    | trans hleft _ ihleft ihright =>
      rw [ihright fun a ha b hb => h a (hleft.mem_iff.mpr ha) b (hleft.mem_iff.mpr hb),ihleft h]

theorem eq_of_perm_of_length_le_one {l l' : List α} (hlength : l.length ≤ 1) (h : l.Perm l') : l = l' := by
  rcases l with _ | ⟨a,_ | ⟨b,l⟩⟩
  · exact h.nil_eq
  · exact singleton_perm.mp h
  · simp at hlength

theorem filter_key_length_le_one [DecidableEq κ] {key : α → κ} {l : List α}
    (hnodup : (l.map key).Nodup) (k : κ) : (l.filter (fun a => key a = k)).length ≤ 1 := by
  rcases hfilter : l.filter (fun a => key a = k) with _ | ⟨a,_ | ⟨b,rest⟩⟩
  · simp
  · simp
  · have hsub : ((a :: b :: rest).map key).Nodup := by
      rw [← hfilter]
      exact hnodup.sublist (filter_sublist.map key)
    have hkey : ∀ c ∈ a :: b :: rest, key c = k := fun c hc => by
      rw [← hfilter] at hc
      simpa using (mem_filter.mp hc).2
    simp [hkey a (by simp),hkey b (by simp)] at hsub

theorem find?_of_nodup_key [DecidableEq κ] {key : α → κ} {l : List α} (hnodup : (l.map key).Nodup)
    {a : α} (ha : a ∈ l) : l.find? (fun b => key b = key a) = some a := by
  cases hfound : l.find? (fun b => key b = key a) with
  | none =>
    have hnot := find?_eq_none.mp hfound a ha
    simp at hnot
  | some b =>
    have hmem := mem_of_find?_eq_some hfound
    have hkey : key b = key a := by simpa using find?_some hfound
    rw [inj_on_of_nodup_map hnodup hmem ha hkey]

end BuckyOS
