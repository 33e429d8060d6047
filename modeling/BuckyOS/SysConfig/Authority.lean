import BuckyOS.SysConfig.Listing
import BuckyOS.SysConfig.Transactions

/-! What a caller of the config service can change and see: the keys it may write to, with their
revisions, and nothing of the metadata. -/
namespace BuckyOS.SysConfig
open List Except StoreOp

section Frame
variable {json : JsonTools} {tree tree' : Tree} {op : StoreOp}

def Written (tree : Tree) (key : String) (tree' : Tree) : Prop :=
  ∃ next base, nextRevision tree key = .ok next ∧ tree' = writeRevision base key next ∧
    ∀ other, other ≠ key → base.get? other = tree.get? other

theorem written_insert {key value : String}
    (h : (do return writeRevision (tree.insert key value) key (← nextRevision tree key)) =
      Except.ok tree') : Written tree key tree' := by
  obtain ⟨next,hnext,hdone⟩ := bind_eq_ok_iff.mp h
  exact ⟨next,_,hnext,(ok.inj hdone).symm,fun other hother => OrderedMap.get?_insert_of_ne _ _ hother⟩

theorem transaction_written (h : op.transaction json tree = .ok tree') :
    (∃ tx mainKey, op = .execTx tx mainKey) ∨ ∃ key, op.keys = [key] ∧ Written tree key tree' := by
  cases op with
  | set key value => exact .inr ⟨key,rfl,written_insert h⟩
  | create key value =>
    simp only [transaction,create] at h
    split at h
    next => cases h
    next => exact .inr ⟨key,rfl,written_insert h⟩
  | delete key =>
    simp only [transaction,delete] at h
    split at h
    next => cases h
    next =>
      obtain ⟨next,hnext,hdone⟩ := bind_eq_ok_iff.mp h
      exact .inr ⟨key,rfl,next,_,hnext,(ok.inj hdone).symm,
        fun other hother => OrderedMap.get?_erase_of_ne _ hother⟩
  | setByPath key path value =>
    simp only [transaction,setByPath] at h
    split at h
    next => cases h
    next =>
      obtain ⟨current,_,h⟩ := bind_eq_ok_iff.mp h
      exact .inr ⟨key,rfl,written_insert h⟩
  | execTx tx mainKey => exact .inl ⟨tx,mainKey,rfl⟩

theorem transaction_frame (h : op.transaction json tree = .ok tree') {key : String}
    (hkey : key ∉ op.keys) (hside : ∀ named ∈ op.keys, key ≠ revisionKey named) :
    tree'.get? key = tree.get? key := by
  rcases transaction_written h with ⟨tx,mainKey,rfl⟩ | ⟨name,hkeys,next,base,-,rfl,hbase⟩
  · obtain ⟨staged,hfor,rfl⟩ := execTx_staged h
    rw [Staged.apply,get?_writeRevisions_of_ne (fun update hupdate => hside _
      ((hfor.named _).mp (mem_map_of_mem hupdate)))]
    refine get?_applyBatch ?_
    rintro entry hentry rfl
    exact hkey (hfor.batched entry hentry)
  · rw [hkeys] at hkey hside
    rw [writeRevision,OrderedMap.get?_insert_of_ne _ _ (hside name (by simp))]
    exact hbase key (by simpa using hkey)

end Frame

section Authority
variable (env : ConfigEnv) (s : ConfigState) (input : ConfigInput) (token : SessionToken)

def MayWrite (key : String) : Prop :=
  ∃ identity, requireSessionIdentity token = .ok identity ∧
    allowed env s.policy token identity "write" key = true

/-- A store that differs from the present one within the authority of a caller: only keys the caller
may write to have another value or revision, and of the metadata only the revisions of such keys
differ. -/
structure ChangedWithin (tree' : Tree) : Prop where
  values : ∀ key, isInternalKey key = false →
    (tree'.get? key ≠ s.tree.get? key ∨ currentRevision tree' key ≠ currentRevision s.tree key) →
      MayWrite env s token key
  metadata : ∀ key, isInternalKey key = true → tree'.get? key ≠ s.tree.get? key →
    ∃ named, key = revisionKey named ∧ isInternalKey named = false ∧ MayWrite env s token named

/-- What a request does stays within the authority of its caller, and its answer shows nothing of
the metadata. -/
structure Contained (method : String) (params : Json) : Prop where
  changes : ChangedWithin env s token (handle env s input token method params).2.tree
  read : ∀ key answer, plan env s.policy token params method = .ok (.get key) →
    (handle env s input token method params).1 = .ok answer → answer ≠ .null →
      isInternalKey key = false
  listed : ∀ key names, plan env s.policy token params method = .ok (.list key) →
    (handle env s input token method params).1 = .ok (.array names) → ∀ name ∈ names,
      ∃ entry ∈ s.tree.entries, isInternalKey entry.1 = false ∧
        (childOf (listedPrefix key) entry.1).map Json.string = some name
  dumped : ∀ answer, plan env s.policy token params method = .ok .dump →
    (handle env s input token method params).1 = .ok answer →
      ∃ entries : List (String × String),
        answer = .ofFields (entries.map (fun entry => (entry.1,.string entry.2))) ∧
        ∀ entry ∈ entries, entry ∈ s.tree.entries ∧ isInternalKey entry.1 = false

/-- What a checked call needs for that: a key outside the metadata where something is stored under
it, and keys the caller may write to where the call is a write that can be committed. -/
def CallContained : StoreCall → Prop
  | .get key => ∀ found, getWithRevision s.tree key = .ok (some found) → isInternalKey key = false
  | .write op _ => (∃ tree', (op.arranged input).transaction env.json s.tree = .ok tree') →
      ∀ key ∈ op.keys, isInternalKey key = false ∧ MayWrite env s token key
  | .append _ key _ => (∃ old next, s.tree.get? key = some old ∧ nextRevision s.tree key = .ok next) →
      isInternalKey key = false ∧ MayWrite env s token key
  | .list _ | .dump | .refresh => True

variable {env s input token} {op : StoreOp} {tree' : Tree}

theorem changedWithin_refl : ChangedWithin env s token s.tree :=
  ⟨fun _ _ h => by simp at h,fun _ _ h => absurd rfl h⟩

theorem changedWithin_iff (h : op.transaction env.json s.tree = .ok tree') :
    ChangedWithin env s token tree' ↔
      ∀ key ∈ op.keys, isInternalKey key = false ∧ MayWrite env s token key := by
  constructor
  · intro hwithin key hkey
    obtain ⟨revision,hold,hnew⟩ : ∃ revision, currentRevision s.tree key = .ok revision ∧
        currentRevision tree' key = .ok (revision + 1) := by
      rcases transaction_written h with ⟨tx,mainKey,rfl⟩ | ⟨name,hkeys,next,base,hnext,rfl,-⟩
      · obtain ⟨staged,hfor,rfl⟩ := execTx_staged h
        exact hfor.moved hkey
      · obtain rfl := mem_singleton.mp (hkeys ▸ hkey)
        obtain ⟨revision,hcurrent,rfl,hle⟩ := nextRevision_ok hnext
        exact ⟨revision,hcurrent,by rw [currentRevision_writeRevision hle,if_pos rfl]⟩
    have hmoved : tree'.get? (revisionKey key) ≠ s.tree.get? (revisionKey key) := by
      intro hsame
      rw [currentRevision,hsame,← currentRevision,hold] at hnew
      have := ok.inj hnew
      omega
    obtain ⟨named,heq,hnamed⟩ := hwithin.metadata (revisionKey key) (isInternalKey_revisionKey key) hmoved
    rwa [revisionKey_injective heq]
  · intro hkeys
    have hchange := transaction_change (fun key hkey => (hkeys key hkey).1) h
    constructor
    · intro key hexternal hdiffers
      by_cases hkey : key ∈ op.keys
      · exact (hkeys key hkey).2
      · obtain ⟨hvalue,hrevision⟩ := hchange.others key hexternal hkey
        exact (hdiffers.elim (· hvalue) (· hrevision)).elim
    · intro key hinternal hdiffers
      by_contra hnone
      push Not at hnone
      refine hdiffers (transaction_frame h ?_ ?_)
      · intro hkey
        rw [(hkeys key hkey).1] at hinternal
        cases hinternal
      · intro named hnamed heq
        exact hnone named heq (hkeys named hnamed).1 (hkeys named hnamed).2

theorem arranged_keys (key : String) : key ∈ (op.arranged input).keys ↔ key ∈ op.keys := by
  cases op with
  | execTx tx mainKey =>
    simp only [arranged,StoreOp.keys,txKeys,mem_append]
    rw [(input.rearranged tx).keys_perm.mem_iff]
  | _ => rfl

variable {reload : Bool} {json : JsonTools} {tree : Tree} {flushError : Option String}
  {key name : String}

theorem performWrite_tree : (performWrite env s input op reload).2.tree =
    (step env.json s.tree (op.arranged input,input.flushError)).2 := by
  unfold performWrite
  rcases step env.json s.tree (op.arranged input,input.flushError) with ⟨error | _,tree⟩
  · rfl
  · dsimp only
    split
    · exact refresh_tree
    · rfl

theorem step_tree_of_ok (h : op.transaction json tree = .ok tree') :
    (step json tree (op,flushError)).2 = tree' := by
  simp only [step,h,commit]
  cases flushError <;> rfl

theorem step_tree_of_error {error : KVStoreError} (h : op.transaction json tree = .error error) :
    (step json tree (op,flushError)).2 = tree := by
  simp only [step,h,commit]

/-- A write stays within the authority of its caller exactly when its keys do, if it is committed. -/
theorem changedWithin_performWrite : ChangedWithin env s token (performWrite env s input op reload).2.tree ↔
      ((∃ tree', (op.arranged input).transaction env.json s.tree = .ok tree') →
        ∀ key ∈ op.keys, isInternalKey key = false ∧ MayWrite env s token key) := by
  rw [performWrite_tree]
  cases h : (op.arranged input).transaction env.json s.tree with
  | error error =>
    rw [step_tree_of_error h]
    exact ⟨fun _ ⟨tree',htree'⟩ => (by cases htree'),fun _ => changedWithin_refl⟩
  | ok tree' =>
    rw [step_tree_of_ok h,changedWithin_iff h]
    simp only [arranged_keys]
    exact ⟨fun hkeys _ => hkeys,fun hkeys => hkeys ⟨tree',rfl⟩⟩

theorem get_eq_ok_some {old : String} (h : get tree key = .ok (some old)) : tree.get? key = some old := by
  obtain ⟨found,hfound,hdone⟩ := bind_eq_ok_iff.mp h
  obtain ⟨entry,rfl,rfl⟩ := Option.map_eq_some_iff.mp (ok.inj hdone)
  exact (getWithRevision_ok hfound).1

theorem changedWithin_performAppend {spelled value : String} :
    ChangedWithin env s token (performAppend env s input spelled key value).2.tree ↔
      CallContained env s input token (.append spelled key value) := by
  have hwrite : ∀ old, ChangedWithin env s token
      (performWrite env s input (.set key (old ++ value)) false).2.tree ↔
        ((∃ next, nextRevision s.tree key = .ok next) →
          isInternalKey key = false ∧ MayWrite env s token key) := by
    intro old
    rw [changedWithin_performWrite]
    simp only [StoreOp.keys,mem_singleton,forall_eq]
    refine imp_congr_left ⟨?_,?_⟩
    · rintro ⟨tree',h⟩
      obtain ⟨next,hnext,-⟩ := bind_eq_ok_iff.mp h
      exact ⟨next,hnext⟩
    · rintro ⟨next,hnext⟩
      exact ⟨_,bind_eq_ok_iff.mpr ⟨next,hnext,rfl⟩⟩
  have hread : ∀ next, nextRevision s.tree key = .ok next → get s.tree key = .ok (s.tree.get? key) := by
    intro next hnext
    obtain ⟨revision,hcurrent,-⟩ := nextRevision_ok hnext
    exact get_eq_of_revision hcurrent
  unfold performAppend
  cases hget : get s.tree key with
  | error error =>
    refine ⟨fun _ hcall => ?_,fun _ => changedWithin_refl⟩
    obtain ⟨old,next,_,hnext⟩ := hcall
    rw [hread next hnext] at hget
    cases hget
  | ok found =>
    cases found with
    | none =>
      refine ⟨fun _ hcall => ?_,fun _ => changedWithin_refl⟩
      obtain ⟨old,next,hold,hnext⟩ := hcall
      rw [hread next hnext,hold] at hget
      cases ok.inj hget
    | some old =>
      simp only [ofStore,hwrite]
      refine imp_congr_left ⟨?_,?_⟩
      · rintro ⟨next,hnext⟩
        exact ⟨old,next,get_eq_ok_some hget,hnext⟩
      · rintro ⟨_,next,_,hnext⟩
        exact ⟨next,hnext⟩

theorem mem_of_foldlM_addChild {α : Type} {child : α → Option String} {l : List α}
    {result result' : List String}
    (h : l.foldlM (fun result a => (child a).map (addChild result)) result = some result')
    (hname : name ∈ result') : name ∈ result ∨ ∃ a ∈ l, child a = some name := by
  induction l generalizing result with
  | nil =>
    obtain rfl := Option.some.inj h
    exact .inl hname
  | cons a l ih =>
    rw [foldlM_cons] at h
    obtain ⟨middle,hfirst,hrest⟩ := Option.bind_eq_some_iff.mp h
    obtain ⟨found,hfound,rfl⟩ := Option.map_eq_some_iff.mp hfirst
    rcases ih hrest with hmem | ⟨b,hb,hchild⟩
    · dsimp only [addChild] at hmem
      split at hmem
      · exact .inl hmem
      · rcases mem_append.mp hmem with hmem | hmem
        · exact .inl hmem
        · exact .inr ⟨a,by simp,by rw [hfound,mem_singleton.mp hmem]⟩
    · exact .inr ⟨b,mem_cons_of_mem _ hb,hchild⟩

theorem listed_external {names : List String} (h : listDirectChildren tree key = some names)
    (hname : name ∈ names) : ∃ entry ∈ tree.entries, isInternalKey entry.1 = false ∧
      childOf (listedPrefix key) entry.1 = some name := by
  rcases mem_of_foldlM_addChild h hname with hmem | ⟨entry,hentry,hchild⟩
  · cases hmem
  · obtain ⟨hmem,hexternal,-⟩ := mem_listData.mp hentry
    exact ⟨entry,hmem,hexternal,hchild⟩

theorem perform_get_read {answer : Json} (h : (perform env s input (.get key)).1 = .ok answer)
    (hne : answer ≠ .null) : ∃ found, getWithRevision s.tree key = .ok (some found) := by
  cases hget : getWithRevision s.tree key with
  | error error => simp [perform,hget,ofStore] at h
  | ok found =>
    cases found with
    | none =>
      simp only [perform,hget,ofStore] at h
      exact absurd (ok.inj h).symm hne
    | some found => exact ⟨found,rfl⟩

variable {method : String} {params : Json}

theorem perform_read_tree {key : String} : (perform env s input (.get key)).2.tree = s.tree ∧
      (perform env s input (.list key)).2.tree = s.tree := by
  constructor
  · simp only [perform]
    split <;> rfl
  · simp only [perform]
    split <;> rfl

theorem contained_of_plan {call : StoreCall} (hplan : plan env s.policy token params method = .ok call) :
    Contained env s input token method params ↔ CallContained env s input token call := by
  have hhandle : handle env s input token method params = perform env s input call := by rw [handle,hplan]
  have hchanges : (∀ key, call ≠ .get key) → (∀ key, call ≠ .list key) → call ≠ .dump →
      (Contained env s input token method params ↔
        ChangedWithin env s token (perform env s input call).2.tree) := by
    intro hget hlist hdump
    refine ⟨fun h => hhandle ▸ h.changes,fun h => ⟨by rwa [hhandle],?_,?_,?_⟩⟩
    · exact fun key _ heq => absurd (ok.inj (hplan.symm.trans heq)) (hget key)
    · exact fun key _ heq => absurd (ok.inj (hplan.symm.trans heq)) (hlist key)
    · exact fun _ heq => absurd (ok.inj (hplan.symm.trans heq)) hdump
  cases call with
  | write op reload =>
    rw [hchanges (by simp) (by simp) (by simp)]
    exact changedWithin_performWrite
  | append spelled key value =>
    rw [hchanges (by simp) (by simp) (by simp)]
    exact changedWithin_performAppend
  | refresh =>
    rw [hchanges (by simp) (by simp) (by simp)]
    have htree : (perform env s input .refresh).2.tree = s.tree := refresh_tree
    rw [htree]
    exact ⟨fun _ => trivial,fun _ => changedWithin_refl⟩
  | get key =>
    constructor
    · intro h found hfound
      refine h.read key (.ofFields [("value",.string found.1),("version",.ofNat found.2)]) hplan
        ?_ (by simp [Json.ofFields])
      rw [hhandle]
      simp only [perform,hfound,ofStore]
    · intro h
      refine ⟨?_,?_,?_,?_⟩
      · rw [hhandle,perform_read_tree.1]
        exact changedWithin_refl
      · intro key' answer hkey hanswer hne
        obtain rfl : key = key' := by simpa [hplan] using hkey
        rw [hhandle] at hanswer
        obtain ⟨found,hfound⟩ := perform_get_read hanswer hne
        exact h found hfound
      · simp [hplan]
      · simp [hplan]
  | list key =>
    refine ⟨fun _ => trivial,fun _ => ⟨?_,by simp [hplan],?_,by simp [hplan]⟩⟩
    · rw [hhandle,perform_read_tree.2]
      exact changedWithin_refl
    · intro key' names hkey hanswer name hname
      obtain rfl : key = key' := by simpa [hplan] using hkey
      rw [hhandle] at hanswer
      simp only [perform] at hanswer
      split at hanswer
      next => cases hanswer
      next children hchildren =>
        obtain rfl := Json.array.inj (ok.inj hanswer)
        obtain ⟨child,hchild,rfl⟩ := mem_map.mp hname
        obtain ⟨entry,hmem,hexternal,hentry⟩ := listed_external hchildren hchild
        exact ⟨entry,hmem,hexternal,by rw [hentry]; rfl⟩
  | dump =>
    refine ⟨fun _ => trivial,fun _ => ⟨?_,by simp [hplan],by simp [hplan],?_⟩⟩
    · rw [hhandle]
      exact changedWithin_refl
    · intro answer _ hanswer
      rw [hhandle] at hanswer
      refine ⟨_,(ok.inj hanswer).symm,?_⟩
      intro entry hentry
      obtain ⟨directory,-,hmem⟩ := mem_flatMap.mp hentry
      obtain ⟨hstored,hexternal,-⟩ := mem_listData.mp hmem
      exact ⟨hstored,hexternal⟩

/-- A request stays within the authority of its caller exactly when the keys it names once they are
normalised are outside the metadata and the caller may write to all it moves on, the main key of a
transaction included. -/
theorem contained_iff (env : ConfigEnv) (s : ConfigState) (input : ConfigInput)
    (token : SessionToken) (method : String) (params : Json) :
    Contained env s input token method params ↔
      ∀ call, plan env s.policy token params method = .ok call →
        CallContained env s input token call := by
  cases hplan : plan env s.policy token params method with
  | error error =>
    refine ⟨fun _ call h => (by cases h),fun _ => ?_⟩
    have hstate : (handle env s input token method params).2.tree = s.tree := by rw [handle,hplan]
    refine ⟨hstate ▸ changedWithin_refl,?_,?_,?_⟩ <;> simp [hplan]
  | ok call =>
    rw [contained_of_plan hplan]
    refine ⟨fun h call' hcall => ?_,fun h => h call rfl⟩
    rwa [← ok.inj hcall]

def writesOnly (key : String) : ConfigEnv :=
  {openEnv with enforce := fun _ _ _ resource _ _ => resource = fullResPath key}

def spelledAround : Json :=
  .object [("key",.string "x/../__meta/revision/k"),("value",.string "7")]

def foreignMainKey : Json :=
  .object [("actions",.object []),
    ("main_key",.object [("key",.string "other"),("revision",.number "0")])]

/-- A path that is normalised after the check of the reserved keys reaches a revision, and the main
key of a transaction is moved on by a caller who may not write to it. -/
theorem authority_exceeded :
    (handle openEnv {} asListed someToken "sys_config_set" spelledAround).2.tree.get?
      "__meta/revision/k" = some "7" ∧
    ¬Contained openEnv {} asListed someToken "sys_config_set" spelledAround ∧
    currentRevision (handle (writesOnly "mine") {} asListed someToken "sys_config_exec_tx"
      foreignMainKey).2.tree "other" = .ok 1 ∧
    ¬Contained (writesOnly "mine") {} asListed someToken "sys_config_exec_tx" foreignMainKey := by
  have hset : plan openEnv "" someToken spelledAround "sys_config_set" =
      .ok (.write (.set "__meta/revision/k" "7") false) := by rfl
  have htx : plan (writesOnly "mine") "" someToken foreignMainKey "sys_config_exec_tx" =
      .ok (.write (.execTx [] (some ("other",0))) false) := by rfl
  refine ⟨by decide +kernel,?_,by decide +kernel,?_⟩
  · intro h
    have hkeys := (contained_of_plan hset).mp h ⟨_,rfl⟩ "__meta/revision/k" (by simp [StoreOp.keys])
    exact absurd hkeys.1 (by decide +kernel)
  · intro h
    have hkeys := (contained_of_plan htx).mp h ⟨_,rfl⟩ "other" (by simp [StoreOp.keys,txKeys])
    obtain ⟨identity,-,hallowed⟩ := hkeys.2
    have hdenied : allowed (writesOnly "mine") "" someToken identity "write" "other" = false := by
      rfl
    exact absurd (hdenied.symm.trans hallowed) (by decide)

end Authority
end BuckyOS.SysConfig
