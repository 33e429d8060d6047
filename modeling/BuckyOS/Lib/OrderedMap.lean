import Mathlib.Tactic

/-! Finite maps kept as a strictly increasing association list. The list is the
order in which an iterator visits the map; equality of maps is equality of
lookups. -/
namespace BuckyOS
open List

/-- A finite map whose bindings are listed in strictly increasing key order. -/
structure OrderedMap (κ ν : Type) [LinearOrder κ] where
  entries : List (κ × ν)
  sorted : entries.Pairwise (fun a b => a.1 < b.1)

namespace OrderedMap
variable {κ ν : Type} [LinearOrder κ]

instance [DecidableEq ν] : DecidableEq (OrderedMap κ ν) := fun a b =>
  decidable_of_iff (a.entries = b.entries)
    ⟨fun h => by cases a; cases b; simp_all,fun h => by rw [h]⟩

def empty : OrderedMap κ ν := ⟨[],List.Pairwise.nil⟩

def get? (m : OrderedMap κ ν) (k : κ) : Option ν :=
  (m.entries.find? (fun e => e.1 = k)).map Prod.snd

def keys (m : OrderedMap κ ν) : List κ := m.entries.map Prod.fst

def values (m : OrderedMap κ ν) : List ν := m.entries.map Prod.snd

def insertList (k : κ) (v : ν) : List (κ × ν) → List (κ × ν)
  | [] => [(k,v)]
  | e :: es =>
    if k < e.1 then (k,v) :: e :: es
    else if k = e.1 then (k,v) :: es
    else e :: insertList k v es

variable {k : κ} {es : List (κ × ν)} {e : κ × ν}

theorem mem_insertList {v : ν} (h : e ∈ insertList k v es) : e = (k,v) ∨ e ∈ es := by
  induction es with
  | nil => simpa [insertList] using h
  | cons f fs ih =>
    simp only [insertList] at h
    split_ifs at h
    · simpa using h
    · rcases mem_cons.mp h with h | h
      · exact Or.inl h
      · exact Or.inr (mem_cons_of_mem _ h)
    · rcases mem_cons.mp h with h | h
      · exact Or.inr (by simp [h])
      · exact (ih h).imp id (mem_cons_of_mem _)

theorem insertList_sorted (k : κ) (v : ν) (h : es.Pairwise (fun a b => a.1 < b.1)) :
    (insertList k v es).Pairwise (fun a b => a.1 < b.1) := by
  induction es with
  | nil => simp [insertList]
  | cons e es ih =>
    have he := pairwise_cons.mp h
    simp only [insertList]
    split_ifs with hlt heq
    · refine pairwise_cons.mpr ⟨?_,h⟩
      intro f hf
      rcases mem_cons.mp hf with rfl | hf
      · exact hlt
      · exact hlt.trans (he.1 f hf)
    · subst heq
      exact pairwise_cons.mpr ⟨he.1,he.2⟩
    · refine pairwise_cons.mpr ⟨?_,ih he.2⟩
      intro f hf
      rcases mem_insertList hf with rfl | hf
      · exact lt_of_le_of_ne (not_lt.mp hlt) (Ne.symm heq)
      · exact he.1 f hf

def insert (m : OrderedMap κ ν) (k : κ) (v : ν) : OrderedMap κ ν :=
  ⟨insertList k v m.entries,insertList_sorted k v m.sorted⟩

def filter (m : OrderedMap κ ν) (p : κ × ν → Bool) : OrderedMap κ ν :=
  ⟨m.entries.filter p,m.sorted.filter p⟩

def erase (m : OrderedMap κ ν) (k : κ) : OrderedMap κ ν := m.filter (fun e => e.1 ≠ k)

/-- Bindings visited by an iterator placed at `k` and moving forward. -/
def entriesFrom (m : OrderedMap κ ν) (k : κ) : List (κ × ν) :=
  m.entries.filter (fun e => k ≤ e.1)

variable (m : OrderedMap κ ν)

theorem mem_entries_iff (k : κ) (v : ν) : (k,v) ∈ m.entries ↔ m.get? k = some v := by
  rcases m with ⟨es,hs⟩
  simp only [get?]
  induction es with
  | nil => simp
  | cons e es ih =>
    have he := pairwise_cons.mp hs
    rw [find?_cons]
    by_cases hk : e.1 = k
    · have hnot : (k,v) ∉ es := fun hm => absurd (he.1 _ hm) (by simp [hk])
      simp only [hk,decide_true,Option.map_some,Option.some.injEq,mem_cons,hnot,or_false]
      constructor
      · intro h; rw [← h]
      · intro h; exact Prod.ext hk.symm h.symm
    · have hne : (k,v) ≠ e := fun h => hk (by rw [← h])
      simp only [hk,decide_false,mem_cons,hne,false_or]
      exact ih he.2

theorem eq_of_sorted {as bs : List (κ × ν)} (has : as.Pairwise (fun a b => a.1 < b.1))
    (hbs : bs.Pairwise (fun a b => a.1 < b.1)) (h : ∀ e, e ∈ as ↔ e ∈ bs) : as = bs := by
  have : Std.Irrefl (fun a b : κ × ν => a.1 < b.1) := ⟨fun a => lt_irrefl a.1⟩
  have : Std.Antisymm (fun a b : κ × ν => a.1 < b.1) :=
    ⟨fun a b hab hba => absurd (hab.trans hba) (lt_irrefl _)⟩
  exact has.eq_of_mem_iff hbs h

theorem ext {m n : OrderedMap κ ν} (h : ∀ k, m.get? k = n.get? k) : m = n := by
  have hmem : ∀ e, e ∈ m.entries ↔ e ∈ n.entries := by
    rintro ⟨k,v⟩
    rw [mem_entries_iff,mem_entries_iff,h]
  have he := eq_of_sorted m.sorted n.sorted hmem
  cases m; cases n; simp_all

theorem get?_eq_none_iff (k : κ) : m.get? k = none ↔ ∀ v, (k,v) ∉ m.entries := by
  constructor
  · intro h v hv
    rw [mem_entries_iff,h] at hv
    exact absurd hv (by simp)
  · intro h
    cases hg : m.get? k with
    | none => rfl
    | some v => exact absurd ((mem_entries_iff m k v).mpr hg) (h v)

@[simp] theorem get?_empty (k : κ) : (empty : OrderedMap κ ν).get? k = none := rfl

@[simp] theorem entries_empty : (empty : OrderedMap κ ν).entries = [] := rfl

theorem mem_insertList_self (k : κ) (v : ν) (es : List (κ × ν)) : (k,v) ∈ insertList k v es := by
  induction es with
  | nil => simp [insertList]
  | cons e es ih =>
    simp only [insertList]
    split_ifs <;> simp [ih]

variable {v : ν} {k' : κ} {e' : κ × ν}

theorem mem_insertList_of_ne (hm : e ∈ es) (hne : e.1 ≠ k) : e ∈ insertList k v es := by
  induction es with
  | nil => simp at hm
  | cons f fs ih =>
    simp only [insertList]
    rcases mem_cons.mp hm with rfl | hm
    · split_ifs with h₁ h₂
      · simp
      · exact absurd h₂.symm hne
      · simp
    · split_ifs with h₁ h₂
      · simp [hm]
      · simp [hm]
      · exact mem_cons_of_mem _ (ih hm)

theorem get?_insert (k k' : κ) (v : ν) : (m.insert k v).get? k' = if k' = k then some v else m.get? k' := by
  split_ifs with h
  · subst h
    exact (mem_entries_iff _ _ _).mp (mem_insertList_self k' v m.entries)
  · cases hg : m.get? k' with
    | some w =>
      have hm := (mem_entries_iff m k' w).mpr hg
      exact (mem_entries_iff _ _ _).mp (mem_insertList_of_ne hm h)
    | none =>
      refine (get?_eq_none_iff _ _).mpr fun w hw => ?_
      rcases mem_insertList hw with hw | hw
      · exact h (congrArg Prod.fst hw)
      · exact (get?_eq_none_iff m k').mp hg w hw

@[simp] theorem get?_insert_self (k : κ) (v : ν) : (m.insert k v).get? k = some v := by simp [get?_insert]

theorem get?_insert_of_ne (v : ν) (h : k' ≠ k) :
    (m.insert k v).get? k' = m.get? k' := by simp [get?_insert,h]

theorem get?_filter_eq_some (p : κ × ν → Bool) (k : κ) (v : ν) :
    (m.filter p).get? k = some v ↔ m.get? k = some v ∧ p (k,v) = true := by
  rw [← mem_entries_iff,← mem_entries_iff]
  exact mem_filter

theorem get?_filter (p : κ × ν → Bool) (k : κ) :
    (m.filter p).get? k = (m.get? k).filter (fun v => p (k,v)) := by
  apply Option.ext
  intro v
  rw [get?_filter_eq_some,Option.filter_eq_some_iff]

theorem get?_filter_key (p : κ → Bool) (k : κ) :
    (m.filter (fun e => p e.1)).get? k = if p k then m.get? k else none := by
  rw [get?_filter]
  cases m.get? k <;> simp [Option.filter]

theorem filter_filter_comm (p q : κ × ν → Bool) : (m.filter p).filter q = (m.filter q).filter p := by
  apply ext
  intro k
  simp only [get?_filter,Option.filter_filter,Bool.and_comm]

theorem get?_erase (k k' : κ) : (m.erase k).get? k' = if k' = k then none else m.get? k' := by
  have h := get?_filter_key m (fun x => decide (x ≠ k)) k'
  by_cases hk : k' = k <;> simpa [erase,hk] using h

@[simp] theorem get?_erase_self (k : κ) : (m.erase k).get? k = none := by simp [get?_erase]

theorem get?_erase_of_ne (h : k' ≠ k) : (m.erase k).get? k' = m.get? k' := by simp [get?_erase,h]

theorem insert_erase (v : ν) (h : k ≠ k') : (m.erase k).insert k' v = (m.insert k' v).erase k := by
  apply ext
  intro j
  rw [get?_insert,get?_erase,get?_erase,get?_insert]
  split_ifs with hj hj'
  · exact absurd (hj'.symm.trans hj) h
  all_goals rfl

theorem erase_eq_self (h : m.get? k = none) : m.erase k = m := by
  apply ext
  intro k'
  rw [get?_erase]
  split_ifs with hk
  · rw [hk,h]
  · rfl

theorem insert_eq_self (h : m.get? k = some v) : m.insert k v = m := by
  apply ext
  intro k'
  rw [get?_insert]
  split_ifs with hk
  · rw [hk,h]
  · rfl

theorem insert_insert (k : κ) (v v' : ν) : (m.insert k v').insert k v = m.insert k v := by
  apply ext
  intro k'
  rw [get?_insert,get?_insert,get?_insert]
  split_ifs
  · rfl
  · rfl

theorem mem_keys_iff (k : κ) : k ∈ m.keys ↔ ∃ v, m.get? k = some v := by
  rw [keys,mem_map]
  constructor
  · rintro ⟨⟨k',v⟩,hmem,rfl⟩
    exact ⟨v,(mem_entries_iff m k' v).mp hmem⟩
  · rintro ⟨v,hv⟩
    exact ⟨(k,v),(mem_entries_iff m k v).mpr hv,rfl⟩

theorem mem_values_iff (v : ν) : v ∈ m.values ↔ ∃ k, m.get? k = some v := by
  rw [values,mem_map]
  constructor
  · rintro ⟨⟨k,v'⟩,hmem,rfl⟩
    exact ⟨k,(mem_entries_iff m k v').mp hmem⟩
  · rintro ⟨k,hv⟩
    exact ⟨(k,v),(mem_entries_iff m k v).mpr hv,rfl⟩

@[simp] theorem keys_empty : (empty : OrderedMap κ ν).keys = [] := rfl

@[simp] theorem mem_keys_insert (k k' : κ) (v : ν) : k' ∈ (m.insert k v).keys ↔ k' = k ∨ k' ∈ m.keys := by
  rw [mem_keys_iff,mem_keys_iff,get?_insert]
  split_ifs with h <;> simp [h]

@[simp] theorem mem_keys_erase (k k' : κ) : k' ∈ (m.erase k).keys ↔ k' ≠ k ∧ k' ∈ m.keys := by
  rw [mem_keys_iff,mem_keys_iff,get?_erase]
  split_ifs with h <;> simp [h]

theorem keys_nodup : m.keys.Nodup := by
  rw [keys,nodup_iff_pairwise_ne,pairwise_map]
  exact m.sorted.imp (fun h => h.ne)

def upsert (m : OrderedMap κ ν) (k : κ) (d : ν) (f : ν → ν) : OrderedMap κ ν :=
  m.insert k (f ((m.get? k).getD d))

theorem getD_upsert (k k' : κ) (d : ν) (f : ν → ν) : ((m.upsert k d f).get? k').getD d =
      if k' = k then f ((m.get? k).getD d) else (m.get? k').getD d := by
  rw [upsert,get?_insert]
  split_ifs <;> rfl

@[simp] theorem mem_keys_upsert (k k' : κ) (d : ν) (f : ν → ν) :
    k' ∈ (m.upsert k d f).keys ↔ k' = k ∨ k' ∈ m.keys := mem_keys_insert m k k' _

theorem head?_le (h : m.entries.head? = some e) (h' : e' ∈ m.entries) : e.1 ≤ e'.1 := by
  obtain ⟨es,hes⟩ := head?_eq_some_iff.mp h
  have hsorted := hes ▸ m.sorted
  rcases mem_cons.mp (hes ▸ h') with rfl | htail
  · exact le_rfl
  · exact ((pairwise_cons.mp hsorted).1 e' htail).le

theorem le_getLast? (h : m.entries.getLast? = some e) (h' : e' ∈ m.entries) : e'.1 ≤ e.1 := by
  obtain ⟨es,hes⟩ := getLast?_eq_some_iff.mp h
  have hsorted := pairwise_append.mp (hes ▸ m.sorted)
  rcases mem_append.mp (hes ▸ h') with hinit | hlast
  · exact (hsorted.2.2 e' hinit e (by simp)).le
  · rw [mem_singleton.mp hlast]

section Rekey
variable {κ' ν' : Type} [LinearOrder κ'] {f : κ → κ'}

/-- The map with its keys moved along a strictly increasing function and its values
changed by another. -/
def rekey (hf : StrictMono f) (g : ν → ν') (m : OrderedMap κ ν) : OrderedMap κ' ν' :=
  ⟨m.entries.map (Prod.map f g),
    List.pairwise_map.mpr (m.sorted.imp (fun hab => hf hab))⟩

variable (hf : StrictMono f)

@[simp] theorem entries_rekey (g : ν → ν') (m : OrderedMap κ ν) :
    (m.rekey hf g).entries = m.entries.map (Prod.map f g) := rfl

theorem insertList_map (hf : StrictMono f) (g : ν → ν') (k : κ) (v : ν) (es : List (κ × ν)) :
    insertList (f k) (g v) (es.map (Prod.map f g)) = (insertList k v es).map (Prod.map f g) := by
  induction es with
  | nil => rfl
  | cons e es ih =>
    simp only [map_cons,insertList,Prod.map_fst,hf.lt_iff_lt,hf.injective.eq_iff,ih]
    split_ifs <;> rfl

theorem rekey_insert (g : ν → ν') (m : OrderedMap κ ν) (k : κ) (v : ν) :
    (m.insert k v).rekey hf g = (m.rekey hf g).insert (f k) (g v) := by
  simp only [rekey,insert,insertList_map hf]

theorem rekey_filter (g : ν → ν') (m : OrderedMap κ ν) {p : κ → Bool} {q : κ' → Bool}
    (h : ∀ k, q (f k) = p k) :
    (m.filter (fun e => p e.1)).rekey hf g = (m.rekey hf g).filter (fun e => q e.1) := by
  simp only [rekey,filter,filter_map,Function.comp_def,Prod.map_fst,h]

end Rekey

def mapValues {ν' : Type} (g : κ → ν → ν') (m : OrderedMap κ ν) : OrderedMap κ ν' :=
  ⟨m.entries.map (fun e => (e.1,g e.1 e.2)),List.pairwise_map.mpr m.sorted⟩

theorem get?_mapValues {ν' : Type} (g : κ → ν → ν') (m : OrderedMap κ ν) (k : κ) :
    (m.mapValues g).get? k = (m.get? k).map (g k) := by
  apply Option.ext
  intro v
  rw [← mem_entries_iff,Option.map_eq_some_iff,mapValues,mem_map]
  constructor
  · rintro ⟨⟨k',u⟩,hmem,heq⟩
    obtain ⟨rfl,rfl⟩ := Prod.mk.inj heq
    exact ⟨u,(mem_entries_iff m _ u).mp hmem,rfl⟩
  · rintro ⟨u,hget,rfl⟩
    exact ⟨(k,u),(mem_entries_iff m k u).mpr hget,rfl⟩

/-- The map of a list of bindings, later ones over earlier ones. -/
def ofList (es : List (κ × ν)) : OrderedMap κ ν := es.foldl (fun m e => m.insert e.1 e.2) empty

theorem insertList_perm (v : ν) (h : k ∉ es.map Prod.fst) : (insertList k v es).Perm ((k,v) :: es) := by
  induction es with
  | nil => exact .refl _
  | cons e es ih =>
    rw [map_cons,mem_cons,not_or] at h
    rw [insertList]
    split_ifs with hlt heq
    · exact .refl _
    · exact absurd heq h.1
    · exact ((ih h.2).cons e).trans (.swap (k,v) e es)

theorem entries_ofList_perm (h : (es.map Prod.fst).Nodup) : (ofList es).entries.Perm es := by
  have hfold : ∀ (es : List (κ × ν)) (m : OrderedMap κ ν), ((m.entries ++ es).map Prod.fst).Nodup →
      (es.foldl (fun m e => m.insert e.1 e.2) m).entries.Perm (m.entries ++ es) := by
    intro es
    induction es with
    | nil =>
      intro m _
      rw [append_nil]
      exact .refl _
    | cons e es ih =>
      intro m hm
      have hmid : (m.entries ++ e :: es).Perm (e :: (m.entries ++ es)) := perm_middle
      have hnodup := (hmid.map Prod.fst).nodup_iff.mp hm
      rw [map_cons,nodup_cons] at hnodup
      have hnew : e.1 ∉ m.entries.map Prod.fst := by
        intro hin
        rw [map_append] at hnodup
        exact hnodup.1 (mem_append_left _ hin)
      have hinsert : ((m.insert e.1 e.2).entries ++ es).Perm (m.entries ++ e :: es) :=
        ((insertList_perm e.2 hnew).append_right es).trans hmid.symm
      exact (ih _ ((hinsert.map Prod.fst).nodup_iff.mpr hm)).trans hinsert
  exact hfold es empty h

@[simp] theorem mem_keys_ofList (es : List (κ × ν)) (k : κ) :
    k ∈ (ofList es).keys ↔ k ∈ es.map Prod.fst := by
  have hfold : ∀ (es : List (κ × ν)) (m : OrderedMap κ ν),
      k ∈ (es.foldl (fun m e => m.insert e.1 e.2) m).keys ↔ k ∈ es.map Prod.fst ∨ k ∈ m.keys := by
    intro es
    induction es with
    | nil => simp
    | cons e es ih =>
      intro m
      rw [foldl_cons,ih,mem_keys_insert,map_cons,mem_cons]
      tauto
  rw [ofList,hfold,keys_empty]
  simp

theorem get?_ofList (h : (es.map Prod.fst).Nodup) (k : κ) (v : ν) :
    (ofList es).get? k = some v ↔ (k,v) ∈ es := by
  rw [← mem_entries_iff]
  exact (entries_ofList_perm h).mem_iff

end OrderedMap

abbrev OrderedSet (κ : Type) [LinearOrder κ] := OrderedMap κ Unit

namespace OrderedSet
variable {κ : Type} [LinearOrder κ]

def add (s : OrderedSet κ) (k : κ) : OrderedSet κ := s.insert k ()

def addAll (s : OrderedSet κ) (ks : List κ) : OrderedSet κ := ks.foldl add s

@[simp] theorem mem_add (s : OrderedSet κ) (k k' : κ) :
    k' ∈ (s.add k).keys ↔ k' = k ∨ k' ∈ s.keys := OrderedMap.mem_keys_insert s k k' ()

end OrderedSet
end BuckyOS
