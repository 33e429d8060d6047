import BuckyOS.KLog.RocksDbStore

/-! What a RocksDB state store holds: the entry under each id, the metadata under each
key, the record of each request id and the id cursor. Each operation is described by
what it does to these. -/
namespace BuckyOS.KLog
namespace RocksDb
open ColumnFamily

/-- The bindings the store writes. In the default family only keys it does not use remain. -/
inductive Binding : ColumnFamily → Bytes → DbValue → Prop
  | entry (e : KLogEntry) : Binding cfLogs (entryKey e.id) (.entry e)
  | nextLogId (n : UInt64) : Binding cfMeta keyNextLogIdMeta (encodeU64Be n)
  | stateMachineMeta (m : KLogStateMachineMeta) :
    Binding cfMeta keyStateMachineMeta (.stateMachineMeta m)
  | requestDedup (r : String) (d : RequestDedupMeta) :
    Binding cfMeta (requestDedupMetaKey r) (.requestDedup d)
  | dataMeta (m : KLogMetaEntry) : Binding cfMeta (dataMetaKey m.key) (.dataMeta m)
  | legacyDataMeta (m : LegacyKLogMetaEntryV0) :
    Binding cfMeta (dataMetaKey m.key) (.legacyDataMeta m)
  | levelIndex (level : KLogLevel) (id : UInt64) :
    Binding cfIndexLevel (levelIndexKey level id) (.bytes [])
  | sourceIndex (source : String) (id : UInt64) :
    Binding cfIndexSource (sourceIndexKey source id) (.bytes [])
  | foreign (k : Bytes) (v : DbValue) (hentry : decodeEntryKey k = none)
    (hnext : k ≠ keyNextLogIdMeta) (hmeta : k ≠ keyStateMachineMeta) : Binding cfDefault k v

/-- Every binding is one the store writes. -/
def WellTyped (db : KLogDb) : Prop := ∀ c k v, db.get? c k = some v → Binding c k v

/-- Every entry of the log has its level key and, when it has a source, its source key. -/
def Indexed (db : KLogDb) : Prop := ∀ e, db.get? cfLogs (entryKey e.id) = some (.entry e) →
  db.get? cfIndexLevel (levelIndexKey e.level e.id) = some (.bytes []) ∧
  ∀ source, normalizeSource e.source = some source →
    db.get? cfIndexSource (sourceIndexKey source e.id) = some (.bytes [])

structure WellFormed (db : KLogDb) : Prop where
  typed : WellTyped db
  indexed : Indexed db

def OpTyped : DbOp → Prop
  | .put c k v => Binding c k v
  | .delete _ _ => True

variable {db : KLogDb}

theorem WellTyped.applyOp (h : WellTyped db) {op : DbOp} (hop : OpTyped op) :
    WellTyped (db.applyOp op) := by
  intro c k v hget
  cases op with
  | put c' k' v' =>
    rw [KvDb.applyOp,KvDb.get?_put] at hget
    split_ifs at hget with heq
    · obtain ⟨rfl,rfl⟩ := heq
      obtain rfl := Option.some.inj hget
      exact hop
    · exact h c k v hget
  | delete c' k' =>
    rw [KvDb.applyOp,KvDb.get?_delete] at hget
    split_ifs at hget with heq
    exact h c k v hget

theorem WellTyped.write (h : WellTyped db) {batch : List DbOp} (hops : ∀ op ∈ batch, OpTyped op) :
    WellTyped (db.write batch) := by
  induction batch generalizing db with
  | nil => exact h
  | cons op batch ih =>
    exact ih (h.applyOp (hops op (by simp))) (fun o ho => hops o (List.mem_cons_of_mem _ ho))

variable {v : DbValue}

theorem WellTyped.put (h : WellTyped db) {c : ColumnFamily} {k : Bytes} (hb : Binding c k v) :
    WellTyped (db.put c k v) := (h.applyOp (show OpTyped (.put c k v) from hb) :)

theorem WellTyped.delete (h : WellTyped db) (c : ColumnFamily) (k : Bytes) :
    WellTyped (db.delete c k) := (h.applyOp (show OpTyped (.delete c k) from trivial) :)

theorem wellFormed_empty : WellFormed KvDb.empty := ⟨(fun _ _ _ h => by cases h),fun _ h => by cases h⟩

theorem Indexed.of_cfMeta {db' : KLogDb} (h : Indexed db)
    (hsame : ∀ c k, c ≠ cfMeta → db'.get? c k = db.get? c k) : Indexed db' := by
  intro e he
  rw [hsame _ _ (by simp)] at he
  refine ⟨by rw [hsame _ _ (by simp)]; exact (h e he).1,?_⟩
  intro source hsource
  rw [hsame _ _ (by simp)]
  exact (h e he).2 source hsource

theorem WellFormed.putMetaKey (h : WellFormed db) {k : Bytes} (hb : Binding cfMeta k v) :
    WellFormed (db.put cfMeta k v) :=
  ⟨h.typed.put hb,h.indexed.of_cfMeta (fun c k' hc => by rw [KvDb.get?_put,if_neg (by simp [hc])])⟩

theorem WellFormed.deleteMetaKey (h : WellFormed db) (k : Bytes) : WellFormed (db.delete cfMeta k) :=
  ⟨h.typed.delete cfMeta k,
    h.indexed.of_cfMeta (fun c k' hc => by rw [KvDb.get?_delete,if_neg (by simp [hc])])⟩

section Typed
variable {db : KLogDb} (h : WellTyped db)
include h

theorem WellTyped.dataMeta_of_get? {key : String} (hget : db.get? cfMeta (dataMetaKey key) = some v) :
    ∃ m : KLogMetaEntry, decodeMetaEntryWithLegacy v = .ok m ∧ m.key = key := by
  have hb := h _ _ _ hget
  generalize hk : dataMetaKey key = k at hb
  cases hb with
  | nextLogId | stateMachineMeta | requestDedup => simp at hk
  | dataMeta m => exact ⟨m,rfl,(dataMetaKey_inj.mp hk).symm⟩
  | legacyDataMeta m => exact ⟨⟨m.key,m.value,m.updatedAt,m.updatedBy,1⟩,rfl,(dataMetaKey_inj.mp hk).symm⟩

theorem WellTyped.requestDedup_of_get? {r : String}
    (hget : db.get? cfMeta (requestDedupMetaKey r) = some v) :
    ∃ d : RequestDedupMeta, v = .requestDedup d := by
  have hb := h _ _ _ hget
  generalize hk : requestDedupMetaKey r = k at hb
  cases hb with
  | requestDedup r d => exact ⟨d,rfl⟩
  | _ => simp at hk

theorem WellTyped.nextLogId_of_get? (hget : db.get? cfMeta keyNextLogIdMeta = some v) :
    ∃ n, v = encodeU64Be n := by
  have hb := h _ _ _ hget
  generalize hk : keyNextLogIdMeta = k at hb
  cases hb with
  | nextLogId n => exact ⟨n,rfl⟩
  | _ => simp at hk

end Typed

@[simp] theorem decodeU64Be_encodeU64Be (n : UInt64) : decodeU64Be (encodeU64Be n) = .ok n := by
  simp [decodeU64Be,encodeU64Be]

def entryAt (db : KLogDb) (id : UInt64) : Option KLogEntry :=
  match db.get? cfLogs (entryKey id) with
  | some (.entry e) => some e
  | _ => none

def metaAt (db : KLogDb) (key : String) : Option KLogMetaEntry :=
  (db.get? cfMeta (dataMetaKey key)).bind (fun v => (decodeMetaEntryWithLegacy v).toOption)

def dedupAt (db : KLogDb) (requestId : String) : Option RequestDedupMeta :=
  (db.get? cfMeta (requestDedupMetaKey requestId)).bind (fun v => (decodeRequestDedup v).toOption)

def persistedNext (db : KLogDb) : UInt64 :=
  ((db.get? cfMeta keyNextLogIdMeta).bind (fun v => (decodeU64Be v).toOption)).getD 1

theorem WellTyped.metaAt_key (h : WellTyped db) {key : String} {m : KLogMetaEntry}
    (hm : metaAt db key = some m) : m.key = key := by
  obtain ⟨v,hv,hdec⟩ := Option.bind_eq_some_iff.mp hm
  obtain ⟨m',hdec',hkey⟩ := h.dataMeta_of_get? hv
  rw [hdec'] at hdec
  obtain rfl : m' = m := Option.some.inj hdec
  exact hkey

attribute [local simp] KvDb.get?_put Except.toOption metaAt dedupAt KvDb.applyOp

section Append
def storeEntry (db : KLogDb) (e : KLogEntry) : KLogDb := db.write (putEntryOps e)

variable (db : KLogDb) (e : KLogEntry) (nowMs : UInt64)

theorem get?_storeEntry_cfLogs (k : Bytes) : (storeEntry db e).get? cfLogs k =
    if k = entryKey e.id then some (.entry e) else db.get? cfLogs k := by
  cases hs : normalizeSource e.source <;> simp [storeEntry,putEntryOps,indexOps,hs]

theorem get?_storeEntry_cfIndexLevel (k : Bytes) : (storeEntry db e).get? cfIndexLevel k =
    if k = levelIndexKey e.level e.id then some (.bytes []) else db.get? cfIndexLevel k := by
  cases hs : normalizeSource e.source <;> simp [storeEntry,putEntryOps,indexOps,hs]

theorem get?_storeEntry_cfIndexSource (k : Bytes) : (storeEntry db e).get? cfIndexSource k =
    if (normalizeSource e.source).any (fun source => k = sourceIndexKey source e.id) then
      some (.bytes [])
    else db.get? cfIndexSource k := by
  cases hs : normalizeSource e.source <;> simp [storeEntry,putEntryOps,indexOps,hs]

@[simp] theorem get?_storeEntry_cfMeta (k : Bytes) :
    (storeEntry db e).get? cfMeta k = db.get? cfMeta k := by
  cases hs : normalizeSource e.source <;> simp [storeEntry,putEntryOps,indexOps,hs]

theorem entryAt_storeEntry : entryAt (storeEntry db e) = Function.update (entryAt db) e.id (some e) := by
  funext id
  rw [entryAt,get?_storeEntry_cfLogs,Function.update_apply]
  by_cases hid : id = e.id <;> simp [hid,entryAt]

theorem putEntryOps_typed : ∀ op ∈ putEntryOps e, OpTyped op := by
  intro op hop
  simp only [putEntryOps,indexOps,List.mem_cons,List.mem_map,Option.mem_toList] at hop
  rcases hop with rfl | rfl | ⟨source,_,rfl⟩
  · exact Binding.entry e
  · exact Binding.levelIndex e.level e.id
  · exact Binding.sourceIndex source e.id

variable {db}

theorem Indexed.storeEntry (h : Indexed db) : Indexed (storeEntry db e) := by
  intro f hf
  rw [get?_storeEntry_cfLogs] at hf
  rw [get?_storeEntry_cfIndexLevel]
  by_cases hid : f.id = e.id
  · rw [if_pos (by rw [hid])] at hf
    obtain rfl : e = f := DbValue.entry.inj (Option.some.inj hf)
    refine ⟨by simp,?_⟩
    intro source hsource
    rw [get?_storeEntry_cfIndexSource,hsource]
    simp
  · rw [if_neg (by simpa using hid)] at hf
    obtain ⟨hlevel,hsource⟩ := h f hf
    refine ⟨?_,?_⟩
    · split_ifs
      · rfl
      · exact hlevel
    · intro source hs
      rw [get?_storeEntry_cfIndexSource]
      split_ifs
      · rfl
      · exact hsource source hs

theorem WellFormed.storeEntry (h : WellFormed db) : WellFormed (storeEntry db e) :=
  ⟨h.typed.write (putEntryOps_typed e),h.indexed.storeEntry e⟩

variable (db)

theorem append_singleton : append db [e] nowMs = match e.dedupKey with
    | none => storeEntry db e
    | some r => (storeEntry db e).put cfMeta (requestDedupMetaKey r) (.requestDedup ⟨e.id,nowMs⟩) := by
  cases hr : normalizeRequestId e.requestId <;>
    simp [append,storeEntry,dedupOps,KLogEntry.dedupKey,hr,KvDb.write_append]

theorem entryAt_append : entryAt (append db [e] nowMs) = Function.update (entryAt db) e.id (some e) := by
  rw [append_singleton,← entryAt_storeEntry]
  cases e.dedupKey with
  | none => rfl
  | some r =>
    funext id
    simp [entryAt]

@[simp] theorem metaAt_append (key : String) : metaAt (append db [e] nowMs) key = metaAt db key := by
  rw [append_singleton]
  cases e.dedupKey <;> simp

theorem dedupAt_append (r : String) : dedupAt (append db [e] nowMs) r =
    if e.dedupKey = some r then some ⟨e.id,nowMs⟩ else dedupAt db r := by
  rw [append_singleton]
  cases e.dedupKey with
  | none => simp
  | some q =>
    by_cases hq : q = r
    · simp [hq,decodeRequestDedup]
    · have hq' : ¬ r = q := fun h => hq h.symm
      simp [hq,hq']

variable {db}

theorem WellFormed.appendOne (h : WellFormed db) : WellFormed (append db [e] nowMs) := by
  rw [append_singleton]
  cases e.dedupKey with
  | none => exact h.storeEntry e
  | some r => exact (h.storeEntry e).putMetaKey (.requestDedup r ⟨e.id,nowMs⟩)

end Append

section Meta
variable {db : KLogDb}

theorem putMeta_eq (h : WellTyped db) (item : KLogMetaEntry) : putMeta db item =
    .ok ({ item with revision := nextRevision (metaAt db item.key) },db.put cfMeta (dataMetaKey item.key)
        (.dataMeta { item with revision := nextRevision (metaAt db item.key) })) := by
  rw [putMeta]
  cases hget : db.get? cfMeta (dataMetaKey item.key) with
  | none => simp [hget,nextRevision]
  | some v =>
    obtain ⟨m,hdec,_⟩ := h.dataMeta_of_get? hget
    simp [hget,hdec,nextRevision,Except.map]

theorem getMeta_eq (h : WellTyped db) (key : String) :
    getMeta db key = .ok ((Text.trimmed (some key)).bind (metaAt db)) := by
  rw [getMeta]
  cases Text.trimmed (some key) with
  | none => rfl
  | some k =>
    simp only [Option.bind_some]
    cases hget : db.get? cfMeta (dataMetaKey k) with
    | none => simp [hget]
    | some v =>
      obtain ⟨m,hdec,_⟩ := h.dataMeta_of_get? hget
      simp [hget,hdec,Except.map]

theorem delete_of_metaAt_none (h : WellTyped db) {key : String} (hkey : metaAt db key = none) :
    db.delete cfMeta (dataMetaKey key) = db := by
  apply KvDb.ext
  intro c k
  rw [KvDb.get?_delete]
  split_ifs with heq
  · obtain ⟨rfl,rfl⟩ := heq
    cases hget : db.get? cfMeta (dataMetaKey key) with
    | none => rfl
    | some v =>
      obtain ⟨m,hdec,_⟩ := h.dataMeta_of_get? hget
      simp [hget,hdec] at hkey
  · rfl

theorem deleteMeta_eq (h : WellTyped db) (key : String) : deleteMeta db key =
    .ok (match Text.trimmed (some key) with
      | none => (none,db)
      | some k => (metaAt db k,db.delete cfMeta (dataMetaKey k))) := by
  rw [deleteMeta]
  cases Text.trimmed (some key) with
  | none => rfl
  | some k =>
    cases hget : db.get? cfMeta (dataMetaKey k) with
    | none =>
      have hnone : metaAt db k = none := by simp [hget]
      simp [hget,delete_of_metaAt_none h hnone]
    | some v =>
      obtain ⟨m,hdec,_⟩ := h.dataMeta_of_get? hget
      simp [hget,hdec,Except.map]

theorem metaAt_putDataMeta (item : KLogMetaEntry) (key : String) :
    metaAt (db.put cfMeta (dataMetaKey item.key) (.dataMeta item)) key =
      if key = item.key then some item else metaAt db key := by
  rw [metaAt,KvDb.get?_put]
  by_cases hkey : key = item.key <;> simp [hkey,decodeMetaEntryWithLegacy]

theorem metaAt_deleteDataMeta (key k : String) :
    metaAt (db.delete cfMeta (dataMetaKey key)) k = if k = key then none else metaAt db k := by
  rw [metaAt,KvDb.get?_delete]
  by_cases hkey : k = key <;> simp [hkey]

end Meta

section Frame
variable (db : KLogDb) (m : KLogStateMachineMeta) (n : UInt64) (item : KLogMetaEntry)
  (key r : String) (id : UInt64)

@[simp] theorem entryAt_putMetaKey (k : Bytes) (v : DbValue) :
    entryAt (db.put cfMeta k v) id = entryAt db id := by
  simp [entryAt]

@[simp] theorem entryAt_deleteMetaKey (k : Bytes) : entryAt (db.delete cfMeta k) id = entryAt db id := by
  simp [entryAt,KvDb.get?_delete]

@[simp] theorem dedupAt_putDataMeta :
    dedupAt (db.put cfMeta (dataMetaKey key) (.dataMeta item)) r = dedupAt db r := by
  simp

@[simp] theorem dedupAt_deleteDataMeta : dedupAt (db.delete cfMeta (dataMetaKey key)) r = dedupAt db r := by
  simp [KvDb.get?_delete]

@[simp] theorem metaAt_deleteDedup :
    metaAt (db.delete cfMeta (requestDedupMetaKey r)) key = metaAt db key := by
  simp [KvDb.get?_delete]

theorem dedupAt_deleteDedup (q : String) :
    dedupAt (db.delete cfMeta (requestDedupMetaKey r)) q = if q = r then none else dedupAt db q := by
  rw [dedupAt,KvDb.get?_delete]
  by_cases hq : q = r <;> simp [hq]

@[simp] theorem entryAt_saveStateMachineMeta :
    entryAt (saveStateMachineMeta db m) id = entryAt db id := by simp [saveStateMachineMeta]

@[simp] theorem metaAt_saveStateMachineMeta : metaAt (saveStateMachineMeta db m) key = metaAt db key := by
  simp [saveStateMachineMeta]

@[simp] theorem dedupAt_saveStateMachineMeta : dedupAt (saveStateMachineMeta db m) r = dedupAt db r := by
  simp [saveStateMachineMeta]

@[simp] theorem entryAt_persistNextLogId : entryAt (persistNextLogId db n) id = entryAt db id := by
  simp [persistNextLogId]

@[simp] theorem metaAt_persistNextLogId : metaAt (persistNextLogId db n) key = metaAt db key := by
  simp [persistNextLogId]

@[simp] theorem dedupAt_persistNextLogId : dedupAt (persistNextLogId db n) r = dedupAt db r := by
  simp [persistNextLogId]

end Frame

section Cursor
variable {db : KLogDb}

theorem readPersistedNextLogId_eq (h : WellTyped db) :
    ∃ p, readPersistedNextLogId db = .ok p ∧ p.getD 1 = persistedNext db := by
  rw [readPersistedNextLogId]
  cases hget : db.get? cfMeta keyNextLogIdMeta with
  | none => exact ⟨none,rfl,by simp [persistedNext,hget]⟩
  | some v =>
    obtain ⟨n,rfl⟩ := h.nextLogId_of_get? hget
    exact ⟨some n,by simp [Except.map],by simp [persistedNext,hget]⟩

theorem saveNextLogId_eq (h : WellTyped db) (n : UInt64) : saveNextLogId db n =
    .ok (if max (max n (persistedNext db)) 1 ≠ persistedNext db then
      persistNextLogId db (max (max n (persistedNext db)) 1) else db) := by
  obtain ⟨p,hp,hget⟩ := readPersistedNextLogId_eq h
  simp only [saveNextLogId,hp,hget]

end Cursor

theorem lookupRecentRequestId_eq (h : WellTyped db) {r : String}
    (hr : normalizeRequestId (some r) = some r) (nowMs : UInt64) :
    lookupRecentRequestId db r nowMs = .ok (match dedupAt db r with
      | none => (none,db)
      | some d =>
        if windowExpired nowMs d.seenAtMs then (none,db.delete cfMeta (requestDedupMetaKey r))
        else (some d.logId,db)) := by
  rw [lookupRecentRequestId,hr]
  simp only
  cases hget : db.get? cfMeta (requestDedupMetaKey r) with
  | none => simp [hget]
  | some v =>
    obtain ⟨d,rfl⟩ := h.requestDedup_of_get? hget
    simp [hget,decodeRequestDedup,Except.map]

end RocksDb
end BuckyOS.KLog
