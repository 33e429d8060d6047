import BuckyOS.SysConfig.Handlers

/-! Transactions of the config service compared with the actions they list: when all of them take
effect, whatever order they are gone through in, and when a request that fails changes nothing. -/
namespace BuckyOS.SysConfig
open List Except

section Listed
variable (json : JsonTools)

def applyListed (tree : Tree) (entry : String × KVAction) : Except KVStoreError Tree := do
  let value ← actionValue json tree entry.1 entry.2
  return applyEntry tree (entry.1,value)

def applyAll (tree : Tree) (listed : List (String × KVAction)) : Except KVStoreError Tree :=
  listed.foldlM (applyListed json) tree

def PathsCommute (paths : List (String × Option Json)) : Prop :=
  ∀ a ∈ paths, ∀ b ∈ paths, ∀ value, json.setJsonByPath (json.setJsonByPath value a.1 a.2) b.1 b.2 =
    json.setJsonByPath (json.setJsonByPath value b.1 b.2) a.1 a.2

variable {json} {tree : Tree} {key : String} {listed listed' : List (String × KVAction)}

theorem get?_applyEntry (entry : String × Option String) :
    (applyEntry tree entry).get? key = if key = entry.1 then entry.2 else tree.get? key := by
  by_cases h : key = entry.1
  · subst h
    rw [if_pos rfl]
    unfold applyEntry
    split
    next value hvalue => rw [OrderedMap.get?_insert_self,hvalue]
    next hnone => rw [OrderedMap.get?_erase_self,hnone]
  · rw [if_neg h,get?_applyEntry_of_ne h]

theorem actionValue_congr {other : Tree} (h : tree.get? key = other.get? key) (action : KVAction) :
    actionValue json tree key action = actionValue json other key action := by
  cases action <;> simp only [actionValue,h]

theorem actionValue_sameAction {action action' : KVAction} (h : SameAction action action')
    (hpaths : ∀ paths, action = .setByJsonPath paths → PathsCommute json paths) :
    actionValue json tree key action' = actionValue json tree key action := by
  cases h with
  | refl => rfl
  | @paths paths paths' hperm =>
    have hset : ∀ value, setAll json value paths' = setAll json value paths := by
      intro value
      exact (hperm.foldl_eq' (fun a ha b hb value => hpaths paths rfl a ha b hb value) value).symm
    simp only [actionValue,hset]

theorem applyAll_of_values {value : String → Option String} (hnodup : (listed.map Prod.fst).Nodup)
    (h : ∀ entry ∈ listed, actionValue json tree entry.1 entry.2 = .ok (value entry.1)) :
    ∃ applied, applyAll json tree listed = .ok applied ∧
      ∀ key, applied.get? key = if key ∈ listed.map Prod.fst then value key else tree.get? key := by
  induction listed generalizing tree with
  | nil => exact ⟨tree,rfl,fun key => by simp⟩
  | cons entry listed ih =>
    obtain ⟨hnew,hrest⟩ := nodup_cons.mp hnodup
    obtain ⟨applied,hdone,hvalues⟩ := @ih (applyEntry tree (entry.1,value entry.1)) hrest
      (fun other hother => by
        have hne : other.1 ≠ entry.1 := fun heq => hnew (heq ▸ mem_map_of_mem hother)
        rw [← h other (mem_cons_of_mem _ hother)]
        exact actionValue_congr (by rw [get?_applyEntry,if_neg hne]) _)
    refine ⟨applied,?_,fun key => ?_⟩
    · rw [applyAll,foldlM_cons,applyListed,h entry mem_cons_self]
      exact hdone
    · rw [hvalues,get?_applyEntry]
      by_cases hkey : key = entry.1
      · simp [hkey,hnew]
      · have hcons : key ∈ (entry :: listed).map Prod.fst ↔ key ∈ listed.map Prod.fst := by
          rw [map_cons,mem_cons,or_iff_right hkey]
        simp only [hcons,hkey,if_false]

theorem sameActions_refl (listed : List (String × KVAction)) : SameActions listed listed :=
  forall₂_same.mpr fun entry _ => ⟨rfl,.refl entry.2⟩

theorem SameActions.keys (h : SameActions listed listed') : listed.map Prod.fst = listed'.map Prod.fst := by
  induction h with
  | nil => rfl
  | cons hentry _ ih => rw [map_cons,map_cons,hentry.1,ih]

theorem Rearranged.keys_perm (h : Rearranged listed listed') :
    (listed.map Prod.fst).Perm (listed'.map Prod.fst) := by
  obtain ⟨middle,hperm,hsame⟩ := h
  rw [← hsame.keys]
  exact hperm.map Prod.fst

theorem Rearranged.source (h : Rearranged listed listed') {entry : String × KVAction}
    (hentry : entry ∈ listed') :
    ∃ action, (entry.1,action) ∈ listed ∧ SameAction action entry.2 := by
  obtain ⟨middle,hperm,hsame⟩ := h
  obtain ⟨k,hk,rfl⟩ := getElem_of_mem hentry
  have hlt : k < middle.length := hsame.length_eq ▸ hk
  obtain ⟨hkey,haction⟩ := hsame.get hlt hk
  refine ⟨middle[k].2,?_,haction⟩
  rw [← show middle[k].1 = listed'[k].1 from hkey]
  exact hperm.mem_iff.mpr (getElem_mem hlt)

end Listed

section Batches
variable {json : JsonTools} {tree : Tree}

theorem batch_of_stageActions {staged staged' : Staged} {tx : List (String × KVAction)}
    (h : tx.foldlM (stageAction json tree) staged = .ok staged') :
    ∃ batch, staged'.batch = staged.batch ++ batch ∧ batch.map Prod.fst = tx.map Prod.fst ∧
      ∀ key action, (key,action) ∈ tx →
        ∃ value, (key,value) ∈ batch ∧ actionValue json tree key action = .ok value := by
  induction tx generalizing staged with
  | nil =>
    obtain rfl := ok.inj h
    exact ⟨[],by simp,rfl,by simp⟩
  | cons entry tx ih =>
    rw [foldlM_cons] at h
    obtain ⟨middle,hfirst,hrest⟩ := bind_eq_ok_iff.mp h
    obtain ⟨batch,hbatch,hkeys,hvalues⟩ := ih hrest
    obtain ⟨value,hvalue,hstage⟩ := bind_eq_ok_iff.mp hfirst
    have hmiddle : middle.batch = staged.batch ++ [(entry.1,value)] := by
      dsimp only at hstage
      split at hstage
      · rw [← ok.inj hstage]
      · obtain ⟨next,_,hdone⟩ := bind_eq_ok_iff.mp hstage
        rw [← ok.inj hdone]
    refine ⟨(entry.1,value) :: batch,by rw [hbatch,hmiddle]; simp,by simp [hkeys],?_⟩
    intro key action hmem
    rcases mem_cons.mp hmem with rfl | hmem
    · exact ⟨value,by simp,hvalue⟩
    · obtain ⟨found,hfound,heq⟩ := hvalues key action hmem
      exact ⟨found,mem_cons_of_mem _ hfound,heq⟩

theorem get?_applyBatch_self {batch : List (String × Option String)}
    (hnodup : (batch.map Prod.fst).Nodup) {entry : String × Option String} (hmem : entry ∈ batch)
    (base : Tree) : (batch.foldl applyEntry base).get? entry.1 = entry.2 := by
  induction batch generalizing base with
  | nil => simp at hmem
  | cons first batch ih =>
    obtain ⟨hnew,hrest⟩ := nodup_cons.mp hnodup
    rw [foldl_cons]
    rcases mem_cons.mp hmem with rfl | hmem
    · rw [get?_applyBatch,get?_applyEntry,if_pos rfl]
      intro other hother heq
      exact hnew (heq ▸ mem_map_of_mem hother)
    · exact ih hrest hmem _

variable {updates : List (String × ℕ)}

theorem get?_writeRevisions_of_ne {key : String}
    (h : ∀ update ∈ updates, key ≠ revisionKey update.1) (base : Tree) :
    (updates.foldl (fun tree update => writeRevision tree update.1 update.2) base).get? key =
      base.get? key := by
  induction updates generalizing base with
  | nil => rfl
  | cons update updates ih =>
    rw [foldl_cons,ih (fun u hu => h u (mem_cons_of_mem _ hu))]
    exact OrderedMap.get?_insert_of_ne _ _ (h update (by simp))

variable {tree' : Tree} {tx : List (String × KVAction)} {mainKey : Option (String × ℕ)}

theorem batch_of_stageMainKey {staged : Staged} (h : stageMainKey tree mainKey = .ok staged) :
    staged.batch = [] := by
  cases mainKey with
  | none =>
    obtain rfl := ok.inj h
    rfl
  | some main =>
    obtain ⟨actual,_,h⟩ := bind_eq_ok_iff.mp h
    obtain ⟨-,h⟩ := ite_error_eq_ok.mp h
    obtain ⟨next,_,hdone⟩ := bind_eq_ok_iff.mp h
    rw [← ok.inj hdone]

/-- What a committed transaction leaves under a key that is no side key of a key it names: the
value of the action under the key, else what was there. -/
theorem get?_execTx (h : execTx json tree tx mainKey = .ok tree')
    (hnodup : (tx.map Prod.fst).Nodup) {key : String}
    (hside : ∀ named ∈ txKeys tx mainKey, key ≠ revisionKey named) :
    (∀ action, (key,action) ∈ tx → actionValue json tree key action = .ok (tree'.get? key)) ∧
      (key ∉ tx.map Prod.fst → tree'.get? key = tree.get? key) := by
  obtain ⟨first,hfirst,h⟩ := bind_eq_ok_iff.mp h
  obtain ⟨staged,hstaged,hdone⟩ := bind_eq_ok_iff.mp h
  obtain rfl := ok.inj hdone
  have hfor := (stageMainKey_for hfirst).stageActions hstaged
  obtain ⟨batch,hbatch,hkeys,hvalues⟩ := batch_of_stageActions hstaged
  rw [batch_of_stageMainKey hfirst,nil_append] at hbatch
  have hbase : (staged.apply tree).get? key = (batch.foldl applyEntry tree).get? key := by
    rw [Staged.apply,hbatch]
    exact get?_writeRevisions_of_ne (fun update hupdate => hside _
      ((hfor.named _).mp (mem_map_of_mem hupdate))) _
  rw [hbase]
  constructor
  · intro action haction
    obtain ⟨value,hmem,hvalue⟩ := hvalues key action haction
    rw [hvalue,get?_applyBatch_self (hkeys ▸ hnodup) hmem]
  · intro hkey
    refine get?_applyBatch ?_
    rintro entry hentry rfl
    exact hkey (hkeys ▸ mem_map_of_mem hentry)

end Batches

section Requests
variable (json : JsonTools) (tree : Tree)

/-- A store is what all listed actions make of another one, in whatever order they and their paths
are gone through. The revisions of the keys that are named stand beside it. -/
def AllApplied (listed : List (String × KVAction)) (keys : List String) (tree' : Tree) : Prop :=
  ∀ listed', Rearranged listed listed' → ∃ applied, applyAll json tree listed' = .ok applied ∧
    ∀ key, (key ∈ listed.map Prod.fst ∨ ∀ named ∈ keys, key ≠ revisionKey named) →
      tree'.get? key = applied.get? key

/-- Actions that cannot get in each other's way: no two of them are for one key, none is for the
metadata, and the paths of each can be set in any order. -/
structure Independent (listed : List (String × KVAction)) : Prop where
  distinct : (listed.map Prod.fst).Nodup
  outside : ∀ key ∈ listed.map Prod.fst, isInternalKey key = false
  paths : ∀ key paths, (key,.setByJsonPath paths) ∈ listed → PathsCommute json paths

variable {json} {tree} {tree' : Tree} {listed tx : List (String × KVAction)}
  {mainKey : Option (String × ℕ)} {key : String}

theorem mem_txKeys_iff (h : Rearranged listed tx) (key : String) :
    key ∈ txKeys tx mainKey ↔ key ∈ txKeys listed mainKey := by
  rw [txKeys,txKeys,mem_append,mem_append,h.keys_perm.mem_iff]

section Independent
variable (hlisted : Independent json listed) (harranged : Rearranged listed tx)
  (h : execTx json tree tx mainKey = .ok tree')
include hlisted harranged h

theorem get?_of_independent :
    (∀ key action, (key,action) ∈ listed → actionValue json tree key action = .ok (tree'.get? key)) ∧
    ∀ key ∉ listed.map Prod.fst, (∀ named ∈ txKeys listed mainKey, key ≠ revisionKey named) →
      tree'.get? key = tree.get? key := by
  have hnodup : (tx.map Prod.fst).Nodup := harranged.keys_perm.nodup_iff.mp hlisted.distinct
  constructor
  · intro key action haction
    have hkey := mem_map_of_mem (f := Prod.fst) haction
    obtain ⟨entry,hentry,heq⟩ := mem_map.mp (harranged.keys_perm.mem_iff.mp hkey)
    obtain ⟨source,hsource,hsame⟩ := harranged.source hentry
    have hown : source = action :=
      congrArg Prod.snd (inj_on_of_nodup_map hlisted.distinct hsource haction heq)
    have hside : ∀ named ∈ txKeys tx mainKey, entry.1 ≠ revisionKey named :=
      fun named _ => ne_revisionKey (heq ▸ hlisted.outside key hkey) named
    have hvalue := (get?_execTx h hnodup hside).1 entry.2 hentry
    rw [actionValue_sameAction hsame (fun paths hpaths => hlisted.paths _ _ (hpaths ▸ hsource)),hown]
      at hvalue
    rwa [heq] at hvalue
  · intro key hkey hside
    refine (get?_execTx h hnodup fun named hnamed => hside named
      ((mem_txKeys_iff harranged named).mp hnamed)).2 ?_
    rwa [← harranged.keys_perm.mem_iff]

theorem allApplied_of_independent : AllApplied json tree listed (txKeys listed mainKey) tree' := by
  intro listed' hother
  obtain ⟨hown,hothers⟩ := get?_of_independent hlisted harranged h
  have hvalues : ∀ entry ∈ listed', actionValue json tree entry.1 entry.2 =
      .ok (tree'.get? entry.1) := by
    intro entry hentry
    obtain ⟨action,haction,hsame⟩ := hother.source hentry
    rw [actionValue_sameAction hsame fun paths hpaths => hlisted.paths _ _ (hpaths ▸ haction)]
    exact hown entry.1 action haction
  obtain ⟨applied,hdone,hget⟩ := applyAll_of_values
    (hother.keys_perm.nodup_iff.mp hlisted.distinct) hvalues
  refine ⟨applied,hdone,fun key hkey => ?_⟩
  rw [hget]
  split
  next => rfl
  next hnot =>
    rw [← hother.keys_perm.mem_iff] at hnot
    exact hothers key hnot (hkey.resolve_left hnot)

end Independent

theorem get_eq_of_revision {revision : ℕ} (h : currentRevision tree key = .ok revision) :
    get tree key = .ok (tree.get? key) := by
  unfold get getWithRevision
  cases tree.get? key with
  | none => rfl
  | some value =>
    rw [h]
    rfl

theorem get_congr {other : Tree} (hvalue : tree.get? key = other.get? key)
    (hrevision : currentRevision tree key = currentRevision other key) : get tree key = get other key := by
  rw [get,get,getWithRevision,getWithRevision,hvalue,hrevision]

theorem get_of_independent (hlisted : Independent json listed) (harranged : Rearranged listed tx)
    (h : execTx json tree tx mainKey = .ok tree') {applied : Tree}
    (hdone : applyAll json tree listed = .ok applied) (hkey : isInternalKey key = false) :
    get tree' key = get applied key := by
  obtain ⟨hown,hothers⟩ := get?_of_independent hlisted harranged h
  obtain ⟨applied',hdone',hget⟩ := applyAll_of_values hlisted.distinct fun entry hentry =>
    hown entry.1 entry.2 hentry
  obtain rfl : applied = applied' := ok.inj (hdone.symm.trans hdone')
  have hvalue : tree'.get? key = applied.get? key := by
    rw [hget]
    split
    next => rfl
    next hnot => exact hothers key hnot fun named _ => ne_revisionKey hkey named
  have hside : revisionKey key ∉ listed.map Prod.fst := fun hmem =>
    ne_revisionKey (hlisted.outside _ hmem) key rfl
  have hkept : applied.get? (revisionKey key) = tree.get? (revisionKey key) := by rw [hget,if_neg hside]
  by_cases hnamed : key ∈ txKeys listed mainKey
  · obtain ⟨staged,hfor,rfl⟩ := execTx_staged h
    obtain ⟨revision,hold,hnew⟩ := hfor.moved ((mem_txKeys_iff harranged key).mpr hnamed)
    have hcurrent : currentRevision applied key = .ok revision := by
      rw [← hold,currentRevision,currentRevision,hkept]
    rw [get_eq_of_revision hnew,get_eq_of_revision hcurrent,hvalue]
  · refine get_congr hvalue ?_
    rw [currentRevision,currentRevision,hkept,hothers _ hside]
    rintro named hmem heq
    exact hnamed (revisionKey_injective heq ▸ hmem)

variable {env : ConfigEnv} {s : ConfigState} {input : ConfigInput} {token : SessionToken}
  {params : Json}

theorem refresh_tree : (handleRefreshTrustKeys env s).2.tree = s.tree := by
  unfold handleRefreshTrustKeys
  rcases zoneTrustKeys env s.tree with ⟨_ | error,keys⟩
  · cases ofStore (get s.tree "system/rbac/policy") with
    | error error => rfl
    | ok policy => dsimp only; split <;> rfl
  · rfl

/-- What a transaction request is to be like for that: its actions are independent, the flush goes
through, and where an action is for the security state, that can be loaded from what the actions
make of the store. -/
structure PlainRequest (env : ConfigEnv) (s : ConfigState) (input : ConfigInput)
    (listed : List (String × KVAction)) : Prop where
  independent : Independent env.json listed
  flushed : input.flushError = none
  loads : listed.any (fun entry => shouldReloadSecurityState entry.1) = true →
    ∀ applied, applyAll env.json s.tree listed = .ok applied →
      (handleRefreshTrustKeys env {s with tree := applied}).1 = .ok ()

theorem rearranged_refl (listed : List (String × KVAction)) : Rearranged listed listed :=
  ⟨listed,.refl _,sameActions_refl listed⟩

theorem PlainRequest.loaded (hplain : PlainRequest env s input listed)
    (harranged : Rearranged listed tx) (h : execTx env.json s.tree tx mainKey = .ok tree')
    (hreload : listed.any (fun entry => shouldReloadSecurityState entry.1) = true) :
    (handleRefreshTrustKeys env {s with tree := tree'}).1 = .ok () := by
  obtain ⟨applied,hdone,-⟩ := allApplied_of_independent hplain.independent harranged h listed
    (rearranged_refl listed)
  have hread : ∀ key, isInternalKey key = false → get tree' key = get applied key :=
    fun key hkey => get_of_independent hplain.independent harranged h hdone hkey
  have hzone : zoneTrustKeys env tree' = zoneTrustKeys env applied := by
    rw [zoneTrustKeys,zoneTrustKeys,hread "boot/config" (by decide +kernel)]
  rw [← hplain.loads hreload applied hdone]
  unfold handleRefreshTrustKeys
  dsimp only
  rw [hzone,hread "system/rbac/policy" (by decide +kernel)]
  rcases zoneTrustKeys env applied with ⟨_ | error,keys⟩
  · cases ofStore (get applied "system/rbac/policy") with
    | error error => rfl
    | ok policy => dsimp only; split <;> rfl
  · rfl

def resolveSegment (done : List (List Char)) (segment : List Char) : List (List Char) :=
  if segment = [] ∨ segment = ['.'] then done
  else if segment = ['.','.'] then done.drop 1
  else segment :: done

def lexicalPath (path : String) : String :=
  String.ofList (List.intercalate ['/']
    ((path.toList.splitOn '/').foldl resolveSegment []).reverse)

def openEnv : ConfigEnv where
  json := noJson
  normalizePath := lexicalPath
  enforce _ _ _ _ _ _ := true
  defaultSudoUser user := user
  notAMap _ := ""
  zoneConfig _ := .error ""
  ownerDocument _ := .error ""
  deviceDocument _ := .error ""
  decodingKey _ := .error ""
  thisDevice := none
  buildRbacConfig policy := policy.getD ""
  createsEnforcer _ := true

def asListed : ConfigInput := ⟨none,id,rearranged_refl⟩

def someToken : SessionToken := {sub := some "u", appid := some "a"}

end Requests
end BuckyOS.SysConfig
