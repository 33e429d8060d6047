import BuckyOS.SysConfig.Store
import BuckyOS.Lib.Effects
import BuckyOS.Lib.Lists
import BuckyOS.Lib.Machine

/-! Histories of the config store: every operation that goes through moves the revisions of the keys
it names forward, so a revision stands for one value and a transaction that names it goes through
at most once. -/
namespace BuckyOS.SysConfig
open List OrderedMap
open Except (ok.inj)

section Keys
@[simp] theorem parseU64_toString {n : ℕ} (h : n ≤ maxRevision) : parseU64 (toString n) = .ok n := by
  have hlist := Text.toList_toString n
  have hne : toString n ≠ "" := by
    intro h
    have hnil := congrArg String.toList h
    rw [hlist] at hnil
    exact Nat.toDigits_ne_nil hnil
  rw [parseU64,if_neg hne,hlist,if_neg (Text.head?_toDigits_ne (by decide) n),Text.digitsValue_toDigits]
  exact if_pos h

theorem revisionKey_injective : Function.Injective revisionKey := by
  intro a b h
  have hlist := congrArg String.toList h
  simp only [revisionKey,String.toList_append] at hlist
  exact String.toList_inj.mp (append_cancel_left hlist)

theorem isInternalKey_revisionKey (key : String) : isInternalKey (revisionKey key) = true := by
  rw [isInternalKey,startsWith, isPrefixOf_iff_prefix,revisionKey,String.toList_append]
  exact List.IsPrefix.trans (by decide) (prefix_append _ _)

theorem ne_revisionKey {key : String} (h : isInternalKey key = false) (other : String) :
    key ≠ revisionKey other := by
  rintro rfl
  rw [isInternalKey_revisionKey] at h
  cases h

end Keys

section Effects
variable {tree : Tree} {key other : String} {revision : ℕ}

theorem currentRevision_writeRevision (h : revision ≤ maxRevision) :
    currentRevision (writeRevision tree key revision) other =
      if other = key then .ok revision else currentRevision tree other := by
  unfold currentRevision writeRevision
  by_cases heq : other = key
  · subst heq
    rw [if_pos rfl,get?_insert_self]
    simp only [parseU64_toString h]
  · rw [if_neg heq,get?_insert_of_ne _ _ (fun hkey => heq (revisionKey_injective hkey))]

theorem get?_writeRevision (h : isInternalKey other = false) :
    (writeRevision tree key revision).get? other = tree.get? other :=
  get?_insert_of_ne _ _ (ne_revisionKey h key)

theorem currentRevision_insert (h : isInternalKey key = false) (value : String) :
    currentRevision (tree.insert key value) other = currentRevision tree other := by
  unfold currentRevision
  rw [get?_insert_of_ne _ _ (ne_revisionKey h other).symm]

theorem currentRevision_erase (h : isInternalKey key = false) :
    currentRevision (tree.erase key) other = currentRevision tree other := by
  unfold currentRevision
  rw [get?_erase_of_ne _ (ne_revisionKey h other).symm]

theorem checkedNext_ok {next : ℕ} (h : checkedNext key revision = .ok next) :
    next = revision + 1 ∧ next ≤ maxRevision := by
  unfold checkedNext at h
  split at h
  next hlt =>
    obtain rfl := ok.inj h
    exact ⟨rfl,hlt⟩
  next => cases h

theorem nextRevision_ok {next : ℕ} (h : nextRevision tree key = .ok next) :
    ∃ revision, currentRevision tree key = .ok revision ∧ next = revision + 1 ∧ next ≤ maxRevision := by
  obtain ⟨revision,hcurrent,hnext⟩ := bind_eq_ok_iff.mp h
  exact ⟨revision,hcurrent,checkedNext_ok hnext⟩

end Effects

section Changes
/-- Between two states every one of some keys moved to its next revision, and no other key
changed. -/
structure Change (tree tree' : Tree) (keys : List String) : Prop where
  moved : ∀ key ∈ keys, ∃ revision, currentRevision tree key = .ok revision ∧
    currentRevision tree' key = .ok (revision + 1)
  others : ∀ key, isInternalKey key = false → key ∉ keys →
    tree'.get? key = tree.get? key ∧ currentRevision tree' key = currentRevision tree key

variable {json : JsonTools} {tree tree' : Tree} {key : String}

theorem change_of_nextRevision {next : ℕ} (hnext : nextRevision tree key = .ok next)
    {written : Tree} (hrevisions : ∀ other, currentRevision written other = currentRevision tree other)
    (hvalues : ∀ other, other ≠ key → written.get? other = tree.get? other) :
    Change tree (writeRevision written key next) [key] := by
  obtain ⟨revision,hcurrent,rfl,hle⟩ := nextRevision_ok hnext
  constructor
  · intro other hother
    obtain rfl := mem_singleton.mp hother
    exact ⟨revision,hcurrent,by rw [currentRevision_writeRevision hle,if_pos rfl]⟩
  · intro other hexternal hother
    have hne : other ≠ key := fun h => hother (mem_singleton.mpr h)
    refine ⟨?_,?_⟩
    · rw [get?_writeRevision hexternal,hvalues other hne]
    · rw [currentRevision_writeRevision hle,if_neg hne,hrevisions other]

section
variable (hexternal : isInternalKey key = false)
include hexternal

theorem set_change {value : String} (h : set tree key value = .ok tree') : Change tree tree' [key] := by
  obtain ⟨next,hnext,hdone⟩ := bind_eq_ok_iff.mp h
  obtain rfl := ok.inj hdone
  exact change_of_nextRevision hnext (fun _ => currentRevision_insert hexternal value)
    (fun _ hne => get?_insert_of_ne _ _ hne)

theorem create_change {value : String} (h : create tree key value = .ok tree') :
    Change tree tree' [key] := by
  unfold create at h
  split at h
  next => cases h
  next => exact set_change hexternal h

theorem setByPath_change {path : String} {value : Json}
    (h : setByPath json tree key path value = .ok tree') : Change tree tree' [key] := by
  unfold setByPath at h
  split at h
  next => cases h
  next =>
    obtain ⟨current,_,h⟩ := bind_eq_ok_iff.mp h
    exact set_change hexternal h

theorem delete_change (h : delete tree key = .ok tree') : Change tree tree' [key] := by
  unfold delete at h
  split at h
  next => cases h
  next =>
    obtain ⟨next,hnext,hdone⟩ := bind_eq_ok_iff.mp h
    obtain rfl := ok.inj hdone
    exact change_of_nextRevision hnext (fun _ => currentRevision_erase hexternal)
      (fun _ hne => get?_erase_of_ne _ hne)

end

end Changes

section Batches
variable {json : JsonTools} {tree : Tree} {keys : List String}

/-- What is staged over a tree for some keys: their next revisions, each once, and values of
external keys among them. -/
structure Staged.For (staged : Staged) (tree : Tree) (keys : List String) : Prop where
  revisions : ∀ key revision, (key,revision) ∈ staged.revisionUpdates →
    nextRevision tree key = .ok revision
  distinct : (staged.revisionUpdates.map Prod.fst).Nodup
  named : ∀ key, key ∈ staged.revisionUpdates.map Prod.fst ↔ key ∈ keys
  batched : ∀ entry ∈ staged.batch, entry.1 ∈ keys

variable {staged : Staged}

theorem stageMainKey_for {mainKey : Option (String × ℕ)} (h : stageMainKey tree mainKey = .ok staged) :
    staged.For tree (mainKey.map Prod.fst).toList := by
  cases mainKey with
  | none =>
    obtain rfl := ok.inj h
    exact ⟨by simp,by simp,by simp,by simp⟩
  | some main =>
    obtain ⟨key,expected⟩ := main
    obtain ⟨actual,hactual,h⟩ := bind_eq_ok_iff.mp h
    obtain ⟨-,h⟩ := ite_error_eq_ok.mp h
    obtain ⟨next,hnext,hdone⟩ := bind_eq_ok_iff.mp h
    obtain rfl := ok.inj hdone
    have hrevision : nextRevision tree key = .ok next := bind_eq_ok_iff.mpr ⟨actual,hactual,hnext⟩
    refine ⟨?_,by simp,by simp,by simp⟩
    intro other revision hmem
    obtain ⟨rfl,rfl⟩ := Prod.mk.inj (mem_singleton.mp hmem)
    exact hrevision

theorem Staged.For.stageAction {staged' : Staged} (hstaged : staged.For tree keys)
    {entry : String × KVAction} (h : stageAction json tree staged entry = .ok staged') :
    staged'.For tree (keys ++ [entry.1]) := by
  obtain ⟨value,_,h⟩ := bind_eq_ok_iff.mp h
  have hbatch : ∀ e ∈ staged.batch ++ [(entry.1,value)], e.1 ∈ keys ++ [entry.1] := by
    intro e he
    rcases mem_append.mp he with he | he
    · exact mem_append_left _ (hstaged.batched e he)
    · rw [mem_singleton.mp he]
      simp
  dsimp only at h
  split at h
  next hany =>
    obtain rfl := ok.inj h
    have hknown : entry.1 ∈ keys := by
      rw [← hstaged.named]
      obtain ⟨update,hupdate,hkey⟩ := any_eq_true.mp hany
      exact mem_map.mpr ⟨update,hupdate,by simpa using hkey⟩
    refine ⟨hstaged.revisions,hstaged.distinct,?_,hbatch⟩
    intro key
    rw [hstaged.named]
    simp only [mem_append,mem_singleton]
    exact ⟨Or.inl,fun hkey => hkey.elim id (fun hkey => hkey ▸ hknown)⟩
  next hany =>
    obtain ⟨next,hnext,hdone⟩ := bind_eq_ok_iff.mp h
    obtain rfl := ok.inj hdone
    have hnew : entry.1 ∉ staged.revisionUpdates.map Prod.fst := by
      intro hmem
      obtain ⟨update,hupdate,hkey⟩ := mem_map.mp hmem
      exact hany (any_eq_true.mpr ⟨update,hupdate,by simpa using hkey⟩)
    refine ⟨?_,?_,?_,hbatch⟩
    · intro key revision hmem
      rcases mem_append.mp hmem with hmem | hmem
      · exact hstaged.revisions key revision hmem
      · obtain ⟨rfl,rfl⟩ := Prod.mk.inj (mem_singleton.mp hmem)
        exact hnext
    · rw [map_append,nodup_append]
      refine ⟨hstaged.distinct,by simp,?_⟩
      intro key hkey other hother heq
      obtain rfl : other = entry.1 := by simpa using hother
      exact hnew (heq ▸ hkey)
    · intro key
      simp only [map_append,mem_append,hstaged.named]
      simp

variable {tx : List (String × KVAction)}

theorem Staged.For.stageActions {staged' : Staged} (hstaged : staged.For tree keys)
    (h : tx.foldlM (SysConfig.stageAction json tree) staged = .ok staged') :
    staged'.For tree (keys ++ tx.map Prod.fst) := by
  induction tx generalizing staged keys with
  | nil =>
    obtain rfl := ok.inj h
    simpa using hstaged
  | cons entry tx ih =>
    rw [foldlM_cons] at h
    obtain ⟨middle,hfirst,hrest⟩ := bind_eq_ok_iff.mp h
    have := ih (hstaged.stageAction hfirst) hrest
    rwa [append_assoc] at this

variable {key : String}

theorem get?_applyEntry_of_ne {entry : String × Option String} (h : key ≠ entry.1) :
    (applyEntry tree entry).get? key = tree.get? key := by
  unfold applyEntry
  split
  · exact get?_insert_of_ne _ _ h
  · exact get?_erase_of_ne _ h

variable {tree' : Tree} {updates : List (String × ℕ)} {batch : List (String × Option String)}

theorem currentRevision_applyBatch
    (hexternal : ∀ entry ∈ batch, isInternalKey entry.1 = false) (key : String) :
    currentRevision (batch.foldl applyEntry tree) key = currentRevision tree key := by
  induction batch generalizing tree with
  | nil => rfl
  | cons entry batch ih =>
    rw [foldl_cons,ih (fun e he => hexternal e (mem_cons_of_mem _ he))]
    have hentry := hexternal entry (by simp)
    unfold applyEntry
    split
    · exact currentRevision_insert hentry _
    · exact currentRevision_erase hentry

theorem get?_applyBatch (h : ∀ entry ∈ batch, entry.1 ≠ key) :
    (batch.foldl applyEntry tree).get? key = tree.get? key := by
  induction batch generalizing tree with
  | nil => rfl
  | cons entry batch ih =>
    rw [foldl_cons,ih (fun e he => h e (mem_cons_of_mem _ he)),get?_applyEntry_of_ne (h entry (by simp)).symm]

theorem get?_writeRevisions (h : isInternalKey key = false) :
    (updates.foldl (fun tree update => writeRevision tree update.1 update.2) tree).get? key =
      tree.get? key := by
  induction updates generalizing tree with
  | nil => rfl
  | cons update updates ih => rw [foldl_cons,ih,get?_writeRevision h]

theorem currentRevision_writeRevisions (hle : ∀ update ∈ updates, update.2 ≤ maxRevision)
    (hdistinct : (updates.map Prod.fst).Nodup) (key : String) :
    currentRevision (updates.foldl (fun tree update => writeRevision tree update.1 update.2) tree) key =
      match updates.find? (fun update => update.1 = key) with
      | some update => .ok update.2
      | none => currentRevision tree key := by
  induction updates generalizing tree with
  | nil => rfl
  | cons update updates ih =>
    obtain ⟨hnew,hrest⟩ := nodup_cons.mp hdistinct
    rw [foldl_cons,ih (fun u hu => hle u (mem_cons_of_mem _ hu)) hrest,find?_cons,
      currentRevision_writeRevision (hle update (by simp))]
    by_cases hkey : update.1 = key
    · have hnone : updates.find? (fun u => u.1 = key) = none := by
        rw [find?_eq_none]
        intro u hu heq
        refine hnew (hkey ▸ ?_)
        exact mem_map.mpr ⟨u,hu,by simpa using heq⟩
      simp [hkey,hnone]
    · simp [hkey,Ne.symm hkey]

theorem Staged.For.revision_le (hstaged : staged.For tree keys) :
    ∀ update ∈ staged.revisionUpdates, update.2 ≤ maxRevision := by
  intro update hupdate
  obtain ⟨_,_,_,hle⟩ := nextRevision_ok (hstaged.revisions _ _ hupdate)
  exact hle

/-- Revisions are written last, so every key named moves to its next one. -/
theorem Staged.For.moved (hstaged : staged.For tree keys) (hkey : key ∈ keys) :
    ∃ revision, currentRevision tree key = .ok revision ∧
      currentRevision (staged.apply tree) key = .ok (revision + 1) := by
  obtain ⟨update,hupdate,rfl⟩ := mem_map.mp ((hstaged.named key).mpr hkey)
  obtain ⟨revision,hcurrent,hnext,_⟩ := nextRevision_ok (hstaged.revisions _ _ hupdate)
  refine ⟨revision,hcurrent,?_⟩
  rw [Staged.apply,currentRevision_writeRevisions hstaged.revision_le hstaged.distinct,← hnext,
    find?_of_nodup_key hstaged.distinct hupdate]

theorem Staged.For.change {staged : Staged} (hstaged : staged.For tree keys)
    (hexternal : ∀ key ∈ keys, isInternalKey key = false) : Change tree (staged.apply tree) keys := by
  have hbatch := fun entry hentry => hexternal _ (hstaged.batched entry hentry)
  refine ⟨fun key hkey => hstaged.moved hkey,?_⟩
  intro key hkeyExternal hkey
  have hnone : staged.revisionUpdates.find? (fun u => u.1 = key) = none := by
    rw [find?_eq_none]
    intro update hupdate heq
    refine hkey ((hstaged.named key).mp (mem_map.mpr ⟨update,hupdate,?_⟩))
    simpa using heq
  refine ⟨?_,?_⟩
  · rw [Staged.apply,get?_writeRevisions hkeyExternal,get?_applyBatch]
    intro entry hentry heq
    exact hkey (heq ▸ hstaged.batched entry hentry)
  · rw [Staged.apply,currentRevision_writeRevisions hstaged.revision_le hstaged.distinct,hnone,
      currentRevision_applyBatch hbatch]

/-- The keys of a transaction: its main key and those its actions name. -/
def txKeys (tx : List (String × KVAction)) (mainKey : Option (String × ℕ)) : List String :=
  (mainKey.map Prod.fst).toList ++ tx.map Prod.fst

theorem execTx_staged {mainKey : Option (String × ℕ)} (h : execTx json tree tx mainKey = .ok tree') :
    ∃ staged : Staged, staged.For tree (txKeys tx mainKey) ∧ tree' = staged.apply tree := by
  obtain ⟨first,hfirst,h⟩ := bind_eq_ok_iff.mp h
  obtain ⟨staged,hstaged,hdone⟩ := bind_eq_ok_iff.mp h
  exact ⟨staged,(stageMainKey_for hfirst).stageActions hstaged,(ok.inj hdone).symm⟩

theorem execTx_mainKey {expected : ℕ} (h : execTx json tree tx (some (key,expected)) = .ok tree') :
    currentRevision tree key = .ok expected := by
  obtain ⟨first,hfirst,_⟩ := bind_eq_ok_iff.mp h
  obtain ⟨actual,hactual,h⟩ := bind_eq_ok_iff.mp hfirst
  obtain ⟨hsame,_⟩ := ite_error_eq_ok.mp h
  rw [hactual,not_not.mp hsame]

end Batches

section Histories
inductive StoreOp where
  | set (key value : String)
  | create (key value : String)
  | delete (key : String)
  | setByPath (key path : String) (value : Json)
  | execTx (tx : List (String × KVAction)) (mainKey : Option (String × ℕ))

def StoreOp.keys : StoreOp → List String
  | .set key _ | .create key _ | .delete key | .setByPath key _ _ => [key]
  | .execTx tx mainKey => txKeys tx mainKey

variable (json : JsonTools)

def StoreOp.transaction (tree : Tree) : StoreOp → Except KVStoreError Tree
  | .set key value => SysConfig.set tree key value
  | .create key value => SysConfig.create tree key value
  | .delete key => SysConfig.delete tree key
  | .setByPath key path value => SysConfig.setByPath json tree key path value
  | .execTx tx mainKey => SysConfig.execTx json tree tx mainKey

variable (tree : Tree) (history : List (StoreOp × Option String))

/-- A committed transaction is flushed. When that fails, the operation fails with the transaction
done. -/
def commit (transaction : Except KVStoreError Tree) (flushError : Option String) :
    Except KVStoreError Unit × Tree :=
  match transaction with
  | .error error => (.error error,tree)
  | .ok tree' =>
    match flushError with
    | none => (.ok (),tree')
    | some reason => (.error (.internalError reason),tree')

def step (op : StoreOp × Option String) : Except KVStoreError Unit × Tree :=
  commit tree (op.1.transaction json tree) op.2

def stateAt (i : ℕ) : Tree :=
  (Machine.run (step json) tree (history.take i)).2

def answerAt (i : ℕ) :
    Option (Except KVStoreError Unit) :=
  (Machine.run (step json) tree history).1[i]?

variable {json} {tree tree' : Tree} {op : StoreOp}

theorem transaction_change (hexternal : ∀ key ∈ op.keys, isInternalKey key = false)
    (h : op.transaction json tree = .ok tree') : Change tree tree' op.keys := by
  cases op with
  | set key value => exact set_change (hexternal key (by simp [StoreOp.keys])) h
  | create key value => exact create_change (hexternal key (by simp [StoreOp.keys])) h
  | delete key => exact delete_change (hexternal key (by simp [StoreOp.keys])) h
  | setByPath key path value => exact setByPath_change (hexternal key (by simp [StoreOp.keys])) h
  | execTx tx mainKey =>
    obtain ⟨staged,hfor,rfl⟩ := execTx_staged h
    exact hfor.change hexternal

/-- A later state has the same value and revision of a key, or a higher revision. -/
def Ahead (key : String) (tree tree' : Tree) : Prop :=
  (tree'.get? key = tree.get? key ∧ currentRevision tree' key = currentRevision tree key) ∨
    ∃ old new, currentRevision tree key = .ok old ∧ currentRevision tree' key = .ok new ∧ old < new

theorem Ahead.refl (key : String) (tree : Tree) : Ahead key tree tree := .inl ⟨rfl,rfl⟩

variable {key : String}

theorem Ahead.trans {tree'' : Tree} (h : Ahead key tree tree') (h' : Ahead key tree' tree'') :
    Ahead key tree tree'' := by
  rcases h with ⟨hvalue,hrevision⟩ | ⟨old,middle,hold,hmiddle,hlt⟩
  · rcases h' with ⟨hvalue',hrevision'⟩ | ⟨old,new,hold,hnew,hlt⟩
    · exact .inl ⟨hvalue'.trans hvalue,hrevision'.trans hrevision⟩
    · exact .inr ⟨old,new,hrevision ▸ hold,hnew,hlt⟩
  · rcases h' with ⟨-,hrevision'⟩ | ⟨middle',new,hmiddle',hnew,hlt'⟩
    · exact .inr ⟨old,middle,hold,hrevision'.trans hmiddle,hlt⟩
    · rw [hmiddle] at hmiddle'
      obtain rfl := ok.inj hmiddle'
      exact .inr ⟨old,new,hold,hnew,hlt.trans hlt'⟩

variable {flushError : Option String}

theorem step_ahead (hexternal : ∀ key ∈ op.keys, isInternalKey key = false)
    (hkey : isInternalKey key = false) : Ahead key tree (step json tree (op,flushError)).2 := by
  cases htransaction : op.transaction json tree with
  | error error =>
    simp only [step,commit,htransaction]
    exact .refl key tree
  | ok tree' =>
    have hchange := transaction_change hexternal htransaction
    have hahead : Ahead key tree tree' := by
      by_cases hmem : key ∈ op.keys
      · obtain ⟨revision,hold,hnew⟩ := hchange.moved key hmem
        exact .inr ⟨revision,revision + 1,hold,hnew,Nat.lt_succ_self _⟩
      · exact .inl (hchange.others key hkey hmem)
    simp only [step,commit,htransaction]
    split <;> exact hahead

theorem step_others (hexternal : ∀ key ∈ op.keys, isInternalKey key = false)
    (hkey : isInternalKey key = false) (hmem : key ∉ op.keys) :
    (step json tree (op,flushError)).2.get? key = tree.get? key ∧
      currentRevision (step json tree (op,flushError)).2 key = currentRevision tree key := by
  cases htransaction : op.transaction json tree with
  | error error => simp only [step,commit,htransaction,and_self]
  | ok tree' =>
    have hothers := (transaction_change hexternal htransaction).others key hkey hmem
    simp only [step,commit,htransaction]
    split <;> exact hothers

theorem transaction_of_ok (h : (step json tree (op,flushError)).1 = .ok ()) :
    ∃ tree', op.transaction json tree = .ok tree' ∧ (step json tree (op,flushError)).2 = tree' := by
  unfold step commit at h ⊢
  dsimp only at h ⊢
  split at h
  next => cases h
  next tree' hdone =>
    split at h
    next => exact ⟨tree',hdone,rfl⟩
    next => cases h

variable {history : List (StoreOp × Option String)}

theorem ahead_of_le (hexternal : ∀ x ∈ history, ∀ key ∈ x.1.keys, isInternalKey key = false)
    {key : String} (hkey : isInternalKey key = false) {i j : ℕ} (hle : i ≤ j) :
    Ahead key (stateAt json tree history i) (stateAt json tree history j) := by
  induction j, hle using Nat.le_induction with
  | base => exact .refl _ _
  | succ j _ ih =>
    refine ih.trans ?_
    cases hop : history[j]? with
    | none =>
      rw [stateAt,stateAt,take_of_length_le (getElem?_eq_none_iff.mp hop),
        take_of_length_le (Nat.le_succ_of_le (getElem?_eq_none_iff.mp hop))]
      exact .refl _ _
    | some x =>
      rw [stateAt,stateAt,Machine.run_take_succ _ _ hop]
      exact step_ahead (hexternal x (mem_of_getElem? hop)) hkey

variable {i : ℕ} {x : StoreOp × Option String} {value : String} {revision j : ℕ}

theorem stateAt_succ (hop : history[i]? = some x) :
    stateAt json tree history (i + 1) = (step json (stateAt json tree history i) x).2 :=
  Machine.run_take_succ _ _ hop

theorem answerAt_eq (hop : history[i]? = some x) :
    answerAt json tree history i = some (step json (stateAt json tree history i) x).1 := by
  rw [answerAt,Machine.run_getElem?,hop]
  rfl

theorem moved_of_ok (hexternal : ∀ x ∈ history, ∀ key ∈ x.1.keys, isInternalKey key = false)
    (hop : history[i]? = some (op,flushError)) (hok : answerAt json tree history i = some (.ok ()))
    (hkey : key ∈ op.keys) : ∃ revision, currentRevision (stateAt json tree history i) key = .ok revision ∧
      currentRevision (stateAt json tree history (i + 1)) key = .ok (revision + 1) := by
  rw [answerAt_eq hop] at hok
  obtain ⟨tree',hdone,hnext⟩ := transaction_of_ok (Option.some.inj hok)
  rw [stateAt_succ hop,hnext]
  exact (transaction_change (hexternal _ (mem_of_getElem? hop)) hdone).moved key hkey

theorem getWithRevision_ok (h : getWithRevision tree key = .ok (some (value,revision))) :
    tree.get? key = some value ∧ currentRevision tree key = .ok revision := by
  unfold getWithRevision at h
  split at h
  next => cases h
  next found hfound =>
    obtain ⟨current,hcurrent,hdone⟩ := bind_eq_ok_iff.mp h
    obtain ⟨rfl,rfl⟩ := Prod.mk.inj (Option.some.inj (ok.inj hdone))
    exact ⟨hfound,hcurrent⟩

theorem value_of_revision (hexternal : ∀ x ∈ history, ∀ key ∈ x.1.keys, isInternalKey key = false)
    (hle : i ≤ j) {value' : String} (hkey : isInternalKey key = false)
    (hi : getWithRevision (stateAt json tree history i) key = .ok (some (value,revision)))
    (hj : getWithRevision (stateAt json tree history j) key = .ok (some (value',revision))) :
    value = value' := by
  obtain ⟨hvalue,hrevision⟩ := getWithRevision_ok hi
  obtain ⟨hvalue',hrevision'⟩ := getWithRevision_ok hj
  rcases ahead_of_le hexternal hkey hle with ⟨hsame,-⟩ | ⟨old,new,hold,hnew,hlt⟩
  · rw [hvalue,hvalue'] at hsame
    exact (Option.some.inj hsame).symm
  · rw [hrevision] at hold
    rw [hrevision'] at hnew
    obtain rfl := ok.inj hold
    obtain rfl := ok.inj hnew
    exact absurd hlt (lt_irrefl _)

/-- After a transaction has gone through under a revision of its main key, none goes through under
it again. -/
theorem no_second_tx (hexternal : ∀ x ∈ history, ∀ key ∈ x.1.keys, isInternalKey key = false)
    (hlt : i < j) {tx tx' : List (String × KVAction)} {expected : ℕ} {flushError' : Option String}
    (hi : history[i]? = some (.execTx tx (some (key,expected)),flushError))
    (hj : history[j]? = some (.execTx tx' (some (key,expected)),flushError'))
    (hok : answerAt json tree history i = some (.ok ()))
    (hok' : answerAt json tree history j = some (.ok ())) : False := by
  have hmem : key ∈ (StoreOp.execTx tx (some (key,expected))).keys := by simp [StoreOp.keys,txKeys]
  have hkey := hexternal _ (mem_of_getElem? hi) key hmem
  obtain ⟨revision,hold,hnew⟩ := moved_of_ok hexternal hi hok hmem
  rw [answerAt_eq hi] at hok
  obtain ⟨_,hdone,_⟩ := transaction_of_ok (Option.some.inj hok)
  rw [execTx_mainKey hdone] at hold
  obtain rfl := ok.inj hold
  rw [answerAt_eq hj] at hok'
  obtain ⟨_,hdone',_⟩ := transaction_of_ok (Option.some.inj hok')
  have hlater := execTx_mainKey hdone'
  rcases @ahead_of_le json tree history hexternal key hkey (i + 1) j hlt with
    ⟨-,hsame⟩ | ⟨old,new,hold,hlast,hless⟩
  · rw [hnew,hlater] at hsame
    have := ok.inj hsame
    omega
  · rw [hnew] at hold
    rw [hlater] at hlast
    have hold := ok.inj hold
    have hlast := ok.inj hlast
    omega

/-- In every history on keys outside the metadata: an operation that succeeds moves every key it
names to a higher revision, a key has one value under a revision, at most one transaction goes
through under a revision of its main key, an operation that fails leaves the store as it was
unless its transaction was committed and only the flush failed, and the keys an operation does not
name keep their values and revisions. -/
theorem revisions_order_history (tree : Tree) (history : List (StoreOp × Option String))
    (hexternal : ∀ x ∈ history, ∀ key ∈ x.1.keys, isInternalKey key = false) :
    (∀ i op flushError, history[i]? = some (op,flushError) →
      answerAt json tree history i = some (.ok ()) → ∀ key ∈ op.keys,
        ∃ old new, currentRevision (stateAt json tree history i) key = .ok old ∧
          currentRevision (stateAt json tree history (i + 1)) key = .ok new ∧ old < new) ∧
    (∀ i j key value value' revision, isInternalKey key = false →
      getWithRevision (stateAt json tree history i) key = .ok (some (value,revision)) →
      getWithRevision (stateAt json tree history j) key = .ok (some (value',revision)) →
        value = value') ∧
    (∀ i j tx tx' key expected flushError flushError',
      history[i]? = some (.execTx tx (some (key,expected)),flushError) →
      history[j]? = some (.execTx tx' (some (key,expected)),flushError') →
      answerAt json tree history i = some (.ok ()) →
      answerAt json tree history j = some (.ok ()) → i = j) ∧
    (∀ i op flushError error, history[i]? = some (op,flushError) →
      answerAt json tree history i = some (.error error) →
        stateAt json tree history (i + 1) = stateAt json tree history i ∨
          flushError.isSome ∧ op.transaction json (stateAt json tree history i) =
            .ok (stateAt json tree history (i + 1))) ∧
    (∀ i op flushError, history[i]? = some (op,flushError) → ∀ key, isInternalKey key = false →
      key ∉ op.keys →
        (stateAt json tree history (i + 1)).get? key = (stateAt json tree history i).get? key ∧
          currentRevision (stateAt json tree history (i + 1)) key =
            currentRevision (stateAt json tree history i) key) := by
  refine ⟨?_,?_,?_,?_,?_⟩
  · intro i op flushError hop hok key hkey
    obtain ⟨revision,hold,hnew⟩ := moved_of_ok hexternal hop hok hkey
    exact ⟨revision,revision + 1,hold,hnew,Nat.lt_succ_self _⟩
  · intro i j key value value' revision hkey hi hj
    rcases Nat.le_total i j with hle | hle
    · exact value_of_revision hexternal hle hkey hi hj
    · exact (value_of_revision hexternal hle hkey hj hi).symm
  · intro i j tx tx' key expected flushError flushError' hi hj hok hok'
    rcases Nat.lt_trichotomy i j with hlt | rfl | hlt
    · exact (no_second_tx hexternal hlt hi hj hok hok').elim
    · rfl
    · exact (no_second_tx hexternal hlt hj hi hok' hok).elim
  · intro i op flushError error hop hfailed
    rw [stateAt_succ hop]
    rw [answerAt_eq hop] at hfailed
    have hfailed := Option.some.inj hfailed
    unfold step commit at hfailed ⊢
    dsimp only at hfailed ⊢
    cases htransaction : op.transaction json (stateAt json tree history i) with
    | error _ => exact .inl rfl
    | ok tree' =>
      cases flushError with
      | none => simp [htransaction] at hfailed
      | some reason => exact .inr ⟨rfl,rfl⟩
  · intro i op flushError hop key hkey hmem
    rw [stateAt_succ hop]
    exact step_others (hexternal _ (mem_of_getElem? hop)) hkey hmem

def noJson : JsonTools where
  fromStr _ := .error "expected value"
  toText := Json.render
  setJsonByPath value _ _ := value

def writeTwice : List (StoreOp × Option String) :=
  [(.set "node/state" "on",none),
    (.execTx [("node/state",.update "off")] (some ("node/state",1)),none)]

theorem revisions_order_two_writes :
    ∃ old new, currentRevision (stateAt noJson .empty writeTwice 1) "node/state" = .ok old ∧
      currentRevision (stateAt noJson .empty writeTwice 2) "node/state" = .ok new ∧ old < new :=
  (@revisions_order_history noJson .empty writeTwice (by decide +kernel)).1 1 _ _ rfl
    (by decide +kernel) "node/state" (by decide)

/-- An operation fails with its write done when the flush after it fails. -/
theorem flush_failure_keeps_write :
    answerAt noJson .empty [(.set "node/state" "on",some "disk full")] 0 =
      some (.error (.internalError "disk full")) ∧
    (stateAt noJson .empty [(.set "node/state" "on",some "disk full")] 0).get? "node/state" =
      none ∧
    (stateAt noJson .empty [(.set "node/state" "on",some "disk full")] 1).get? "node/state" =
      some "on" := by
  decide +kernel

end Histories
end BuckyOS.SysConfig
