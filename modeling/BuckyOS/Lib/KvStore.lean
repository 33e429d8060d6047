import BuckyOS.Lib.OrderedMap
import BuckyOS.Lib.Bytes

/-! An ordered key/value store with column families and atomic write batches. A
batch acts on each key of each family through its last operation on it. -/
namespace BuckyOS
open List

structure KvDb (C K V : Type) [LinearOrder K] where
  cf : C → OrderedMap K V

inductive BatchOp (C K V : Type)
  | put (cf : C) (key : K) (value : V)
  | delete (cf : C) (key : K)

namespace KvDb
variable {C K V : Type} [DecidableEq C] [LinearOrder K]

def empty : KvDb C K V := ⟨fun _ => OrderedMap.empty⟩

def get? (db : KvDb C K V) (c : C) (k : K) : Option V := (db.cf c).get? k

variable (db : KvDb C K V)

def put (c : C) (k : K) (v : V) : KvDb C K V :=
  ⟨Function.update db.cf c ((db.cf c).insert k v)⟩

def delete (c : C) (k : K) : KvDb C K V :=
  ⟨Function.update db.cf c ((db.cf c).erase k)⟩

def applyOp : BatchOp C K V → KvDb C K V
  | .put c k v => db.put c k v
  | .delete c k => db.delete c k

/-- Commit a batch; no prefix of it is ever visible. -/
def write (batch : List (BatchOp C K V)) : KvDb C K V :=
  batch.foldl applyOp db

omit [DecidableEq C] in
theorem ext {a b : KvDb C K V} (h : ∀ c k, a.get? c k = b.get? c k) : a = b := by
  rcases a with ⟨f⟩
  rcases b with ⟨g⟩
  congr 1
  funext c
  exact OrderedMap.ext (h c)

variable (db : KvDb C K V) (c : C) (k : K)

theorem get?_put (c c' : C) (k k' : K) (v : V) :
    (db.put c k v).get? c' k' = if c' = c ∧ k' = k then some v else db.get? c' k' := by
  by_cases hc : c' = c
  · subst hc
    simp [get?,put,OrderedMap.get?_insert]
  · simp [get?,put,hc]

theorem get?_delete (c c' : C) (k k' : K) :
    (db.delete c k).get? c' k' = if c' = c ∧ k' = k then none else db.get? c' k' := by
  by_cases hc : c' = c
  · subst hc
    simp [get?,delete,OrderedMap.get?_erase]
  · simp [get?,delete,hc]

@[simp] theorem put_cf_of_ne {c c' : C} (k : K) (v : V) (h : c' ≠ c) :
    (db.put c k v).cf c' = db.cf c' := by simp [put,h]

@[simp] theorem put_cf_self (v : V) : (db.put c k v).cf c = (db.cf c).insert k v := by simp [put]

@[simp] theorem delete_cf_of_ne {c c' : C} (k : K) (h : c' ≠ c) :
    (db.delete c k).cf c' = db.cf c' := by simp [delete,h]

@[simp] theorem write_nil : db.write [] = db := rfl

@[simp] theorem write_cons (op : BatchOp C K V) (b : List (BatchOp C K V)) :
    db.write (op :: b) = (db.applyOp op).write b := rfl

theorem write_append (a b : List (BatchOp C K V)) : db.write (a ++ b) = (db.write a).write b := foldl_append

end KvDb

namespace BatchOp
variable {C K V : Type} [DecidableEq C] [LinearOrder K]

def effectAt (c : C) (k : K) : BatchOp C K V → Option (Option V)
  | .put c' k' v => if c = c' ∧ k = k' then some (some v) else none
  | .delete c' k' => if c = c' ∧ k = k' then some none else none

def batchEffect (c : C) (k : K) : List (BatchOp C K V) → Option (Option V)
  | [] => none
  | op :: b => (batchEffect c k b).or (effectAt c k op)

variable (db : KvDb C K V) (b : List (BatchOp C K V)) (c : C)

theorem get?_applyOp (op : BatchOp C K V) (c : C) (k : K) :
    (db.applyOp op).get? c k = (effectAt c k op).getD (db.get? c k) := by
  cases op with
  | put c' k' v =>
    rw [KvDb.applyOp,KvDb.get?_put,effectAt]
    split_ifs <;> rfl
  | delete c' k' =>
    rw [KvDb.applyOp,KvDb.get?_delete,effectAt]
    split_ifs <;> rfl

/-- Reading after a batch is decided by the last operation on the key. -/
theorem get?_write (k : K) : (db.write b).get? c k = (batchEffect c k b).getD (db.get? c k) := by
  induction b generalizing db with
  | nil => rfl
  | cons op b ih =>
    rw [KvDb.write_cons,ih,get?_applyOp,batchEffect]
    cases batchEffect c k b <;> rfl

theorem batchEffect_eq_none {c : C} {k : K} {b : List (BatchOp C K V)}
    (h : ∀ op ∈ b, effectAt c k op = none) : batchEffect c k b = none := by
  induction b with
  | nil => rfl
  | cons op b ih =>
    rw [batchEffect,ih (fun o ho => h o (mem_cons_of_mem _ ho)),h op (by simp)]
    rfl

theorem batchEffect_eq_some {c : C} {k : K} {b : List (BatchOp C K V)} {e : Option V}
    (hall : ∀ op ∈ b, effectAt c k op = none ∨ effectAt c k op = some e)
    (hex : ∃ op ∈ b, effectAt c k op = some e) : batchEffect c k b = some e := by
  induction b with
  | nil => simp at hex
  | cons op b ih =>
    have hall' := fun o ho => hall o (mem_cons_of_mem _ ho)
    by_cases hb : ∃ op ∈ b, effectAt c k op = some e
    · rw [batchEffect,ih hall' hb]
      rfl
    · have hnone : batchEffect c k b = none := by
        apply batchEffect_eq_none
        intro o ho
        rcases hall' o ho with h | h
        · exact h
        · exact absurd ⟨o,ho,h⟩ hb
      obtain ⟨o,ho,he⟩ := hex
      rcases mem_cons.mp ho with rfl | ho
      · rw [batchEffect,hnone,he]
        rfl
      · exact absurd ⟨o,ho,he⟩ hb

def commitAll (db : KvDb C K V) (batches : List (List (BatchOp C K V))) : KvDb C K V :=
  batches.foldl KvDb.write db

@[simp] theorem commitAll_nil : commitAll db [] = db := rfl

@[simp] theorem commitAll_cons
    (bs : List (List (BatchOp C K V))) : commitAll db (b :: bs) = commitAll (db.write b) bs := rfl

theorem commitAll_append (as bs : List (List (BatchOp C K V))) :
    commitAll db (as ++ bs) = commitAll (commitAll db as) bs := foldl_append

def deleteKeys (c : C) (es : List (K × V)) : List (BatchOp C K V) :=
  es.map (fun e => .delete c e.1)

theorem batchEffect_deleteKeys_of_ne {c c' : C} (h : c ≠ c') (k : K) (es : List (K × V)) :
    batchEffect c k (deleteKeys c' es) = none := by
  apply batchEffect_eq_none
  intro op hop
  obtain ⟨e,_,rfl⟩ := mem_map.mp hop
  simp [effectAt,h]

theorem batchEffect_deleteKeys (k : K) (es : List (K × V)) :
    batchEffect c k (deleteKeys c es) = if k ∈ es.map Prod.fst then some none else none := by
  split_ifs with h
  · apply batchEffect_eq_some
    · intro op hop
      obtain ⟨e,_,rfl⟩ := mem_map.mp hop
      by_cases hk : k = e.1 <;> simp [effectAt,hk]
    · obtain ⟨e,he,rfl⟩ := mem_map.mp h
      exact ⟨.delete c e.1,mem_map.mpr ⟨e,he,rfl⟩,by simp [effectAt]⟩
  · apply batchEffect_eq_none
    intro op hop
    obtain ⟨e,he,rfl⟩ := mem_map.mp hop
    have hk : k ≠ e.1 := fun hk => h (hk ▸ mem_map_of_mem he)
    simp [effectAt,hk]

theorem cf_write_deleteKeys (p : K → Bool) :
    (db.write (deleteKeys c ((db.cf c).entries.filter (fun e => p e.1)))).cf c =
      (db.cf c).filter (fun e => !p e.1) := by
  apply OrderedMap.ext
  intro k
  have hread : (db.write (deleteKeys c ((db.cf c).entries.filter (fun e => p e.1)))).get? c k =
      ((if k ∈ ((db.cf c).entries.filter (fun e => p e.1)).map Prod.fst then some none else none :
        Option (Option V))).getD (db.get? c k) := by
    rw [get?_write,batchEffect_deleteKeys]
  have hkept := (db.cf c).get?_filter_key (fun k => !p k) k
  have hmem : k ∈ ((db.cf c).entries.filter (fun e => p e.1)).map Prod.fst ↔
      p k = true ∧ db.get? c k ≠ none := by
    constructor
    · intro hk
      obtain ⟨⟨k',v⟩,he,rfl⟩ := mem_map.mp hk
      obtain ⟨hin,hp⟩ := mem_filter.mp he
      have hget := ((db.cf c).mem_entries_iff k' v).mp hin
      exact ⟨hp,by simp [KvDb.get?,hget]⟩
    · rintro ⟨hp,hne⟩
      obtain ⟨v,hv⟩ := Option.ne_none_iff_exists'.mp hne
      exact mem_map.mpr ⟨(k,v),mem_filter.mpr ⟨((db.cf c).mem_entries_iff k v).mpr hv,hp⟩,rfl⟩
  refine hread.trans (Eq.trans ?_ hkept.symm)
  cases hp : p k with
  | false => simp [hmem,hp,KvDb.get?]
  | true =>
    by_cases hnone : db.get? c k = none
    · simp [hmem,hp,hnone]
    · simp [hmem,hp,hnone]

end BatchOp

namespace OrderedMap
variable {V : Type}

def scanPrefix (m : OrderedMap Bytes V) (p : Bytes) : List (Bytes × V) :=
  (m.entriesFrom p).takeWhile (fun e => p.isPrefixOf e.1)

end OrderedMap
end BuckyOS
