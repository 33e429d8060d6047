import BuckyOS.KLog.Replicas

/-! The committed writes of a request and of a batch over RocksDB, one write batch after
the other, and what the database holds when the process stops between two of them. -/
namespace BuckyOS.KLog
open ColumnFamily BatchOp

namespace RocksDb
def lookupWrites (db : KLogDb) (r : String) (nowMs : UInt64) : List (List DbOp) :=
  match dedupAt db r with
  | some d =>
    if windowExpired nowMs d.seenAtMs then [[.delete cfMeta (requestDedupMetaKey r)]] else []
  | none => []

def appendWrites (item : KLogEntry) (nowMs : UInt64) : List (List DbOp) :=
  [putEntryOps item ++ dedupOps item nowMs]

def saveNextLogIdWrites (db : KLogDb) (n : UInt64) : List (List DbOp) :=
  if max (max n (persistedNext db)) 1 ≠ persistedNext db then
    [[.put cfMeta keyNextLogIdMeta (encodeU64Be (max (max n (persistedNext db)) 1))]]
  else []

def putMetaWrites (db : KLogDb) (item : KLogMetaEntry) : List (List DbOp) :=
  [[.put cfMeta (dataMetaKey item.key)
    (.dataMeta { item with revision := nextRevision (metaAt db item.key) })]]

def deleteMetaWrites (db : KLogDb) (key : String) : List (List DbOp) :=
  match Text.trimmed (some key) with
  | some k => if (metaAt db k).isSome then [[.delete cfMeta (dataMetaKey k)]] else []
  | none => []

variable {db : KLogDb} {l : Ledger}

theorem commitAll_appendWrites (db : KLogDb) (item : KLogEntry) (nowMs : UInt64) :
    commitAll db (appendWrites item nowMs) = RocksDb.append db [item] nowMs := by
  simp [appendWrites,RocksDb.append]

theorem commitAll_saveNextLogIdWrites (h : WellTyped db) (n : UInt64) :
    saveNextLogId db n = .ok (commitAll db (saveNextLogIdWrites db n)) := by
  rw [saveNextLogId_eq h,saveNextLogIdWrites]
  split_ifs <;> rfl

theorem commitAll_lookupWrites (h : WellTyped db) {r : String}
    (hr : normalizeRequestId (some r) = some r) (nowMs : UInt64) :
    ∃ found, lookupRecentRequestId db r nowMs = .ok (found,commitAll db (lookupWrites db r nowMs)) := by
  rw [lookupRecentRequestId_eq h hr,lookupWrites]
  cases dedupAt db r with
  | none => exact ⟨none,rfl⟩
  | some d =>
    simp only
    split_ifs
    · exact ⟨none,rfl⟩
    · exact ⟨some d.logId,rfl⟩

theorem commitAll_deleteMetaWrites (h : WellTyped db) (key : String) :
    ∃ prev, deleteMeta db key = .ok (prev,commitAll db (deleteMetaWrites db key)) := by
  rw [deleteMeta_eq h,deleteMetaWrites]
  cases Text.trimmed (some key) with
  | none => exact ⟨none,rfl⟩
  | some k =>
    simp only
    cases hk : metaAt db k with
    | none => exact ⟨none,by simp [delete_of_metaAt_none h hk]⟩
    | some m => exact ⟨some m,rfl⟩

end RocksDb
namespace KLogStateStoreManager
def db (m : KLogStateStoreManager) : KLogDb :=
  match m.stateStore with
  | .rocksDb s => s.db
  | .memory _ => KvDb.empty

variable (m : KLogStateStoreManager)

def OverRocksDb : Prop := ∃ s, m.stateStore = .rocksDb s

def findWrites (r : String) (nowMs : UInt64) : List (List DbOp) :=
  if (m.requestDedup.lookup r nowMs).1.isSome then [] else RocksDb.lookupWrites m.db r nowMs

def advanceWrites (db : KLogDb) (candidateNext : UInt64) :
    List (List DbOp) :=
  if candidateNext ≠ 0 ∧ m.nextLogId < candidateNext then
    RocksDb.saveNextLogIdWrites db candidateNext
  else []

def freshWrites (item : KLogEntry) (clock : Readings) :
    List (List DbOp) :=
  RocksDb.appendWrites item clock.storeAt ++
    m.advanceWrites (RocksDb.append m.db [item] clock.storeAt) ((nextAfter [item]).getD 0)

def requestWrites (req : KLogRequest) (clock : Readings) :
    List (List DbOp) :=
  match req with
  | .appendLog item =>
    match item.dedupKey with
    | none => m.freshWrites item clock
    | some r =>
      let found := m.findRecentRequestId r clock.lookupAt
      m.findWrites r clock.lookupAt ++
        if found.1.isSome then [] else found.2.freshWrites item clock
  | .putMeta item expectedRevision =>
    match (m.putMetaEntryWithExpectedRevision item expectedRevision).1 with
    | .ok (.stored _) => RocksDb.putMetaWrites m.db item
    | _ => []
  | .deleteMeta key => RocksDb.deleteMetaWrites m.db key

theorem Refines.overRocksDb {m : KLogStateStoreManager} {l : Ledger} (h : m.Refines l)
    (hr : m.OverRocksDb) : ∃ s, m.stateStore = .rocksDb s ∧ m.db = s.db ∧ RocksDb.WellFormed s.db := by
  obtain ⟨s,hs⟩ := hr
  have hwf := h.wellFormed
  rw [hs] at hwf
  exact ⟨s,hs,by simp [db,hs],hwf⟩

section
variable {m : KLogStateStoreManager} {l : Ledger} (h : m.Refines l) (hr : m.OverRocksDb)
include h hr

theorem findRecentRequestId_writes {r : String} (hnorm : normalizeRequestId (some r) = some r)
    (nowMs : UInt64) : (m.findRecentRequestId r nowMs).2.OverRocksDb ∧
      (m.findRecentRequestId r nowMs).2.db = commitAll m.db (m.findWrites r nowMs) := by
  obtain ⟨s,hs,hdb,hwf⟩ := h.overRocksDb hr
  obtain ⟨found,hlookup⟩ := RocksDb.commitAll_lookupWrites hwf.typed hnorm nowMs
  have hstore : m.stateStore.lookupRecentRequestId r nowMs =
      .ok (found,.rocksDb { s with db := commitAll s.db (RocksDb.lookupWrites s.db r nowMs) }) := by
    simp [hs,KLogStateStore.lookupRecentRequestId,hlookup,Except.map]
  simp only [findRecentRequestId,hnorm,findWrites,hstore]
  cases (m.requestDedup.lookup r nowMs).1 with
  | some id => exact ⟨⟨s,hs⟩,rfl⟩
  | none =>
    cases found with
    | none | some id => exact ⟨⟨_,rfl⟩,by simp [db,hs]⟩

theorem appendFresh_writes (item : KLogEntry) (clock : Readings) :
    (m.appendFresh item clock).2.OverRocksDb ∧
      (m.appendFresh item clock).2.db = commitAll m.db (m.freshWrites item clock) := by
  obtain ⟨s,hs,hdb,hwf⟩ := h.overRocksDb hr
  have happended := hwf.appendOne item clock.storeAt
  have hsave := RocksDb.commitAll_saveNextLogIdWrites happended.typed ((nextAfter [item]).getD 0)
  simp only [appendFresh,append,advanceNextLogId,freshWrites,advanceWrites,commitAll_append,
    RocksDb.commitAll_appendWrites,hs,hdb,KLogStateStore.append,KLogStateStore.saveNextLogId,hsave]
  by_cases hzero : (nextAfter [item]).getD 0 = 0
  · simp only [hzero,if_true,ne_eq,not_true_eq_false,false_and,if_false,commitAll_nil]
    exact ⟨⟨_,rfl⟩,rfl⟩
  · by_cases hlt : m.nextLogId < (nextAfter [item]).getD 0
    · simp only [hzero,hlt,if_true,if_false,ne_eq,not_false_eq_true,true_and]
      exact ⟨⟨_,rfl⟩,rfl⟩
    · simp only [hzero,hlt,if_false,and_false,commitAll_nil]
      exact ⟨⟨_,rfl⟩,rfl⟩

/-- A request leaves the database as its write batches do, one after the other. -/
theorem processRequest_writes (req : KLogRequest) (clock : Readings) :
    (processRequest m req clock).2.OverRocksDb ∧
      (processRequest m req clock).2.db = commitAll m.db (m.requestWrites req clock) := by
  cases req with
  | appendLog item =>
    rw [(appendPreparedEntry_refines h item clock).1]
    simp only [appendPreparedEntry,requestWrites]
    cases hkey : item.dedupKey with
    | none =>
      have hnone : normalizeRequestId item.requestId = none := hkey
      simp only [hnone]
      have hfresh := appendFresh_writes h hr item clock
      exact hfresh
    | some r =>
      have hsome : normalizeRequestId item.requestId = some r := hkey
      have hnorm := normalizeRequestId_normalized hsome
      obtain ⟨hover,hdb⟩ := findRecentRequestId_writes h hr hnorm clock.lookupAt
      have hfind := (findRecentRequestId_refines h hnorm clock.lookupAt).1
      simp only [hsome,commitAll_append,← hdb]
      rcases hm : m.findRecentRequestId r clock.lookupAt with ⟨_ | id,m'⟩
      · rw [hm] at hover hfind
        exact appendFresh_writes hfind hover item clock
      · rw [hm] at hover
        exact ⟨hover,rfl⟩
  | putMeta item expectedRevision =>
    obtain ⟨s,hs,hdb,hwf⟩ := h.overRocksDb hr
    have hput := RocksDb.putMeta_eq hwf.typed item
    simp only [processRequest,requestWrites,putMetaEntryWithExpectedRevision,hs,
      KLogStateStore.putMeta,hput,Except.map,KLogStateStore.getMeta,RocksDb.getMeta_eq hwf.typed item.key,hdb]
    cases expectedRevision with
    | none => exact ⟨⟨_,rfl⟩,rfl⟩
    | some expected =>
      simp only
      generalize (if expected = 0 then _ else _ : Bool) = matched
      cases matched with
      | true => exact ⟨⟨_,rfl⟩,rfl⟩
      | false => exact ⟨⟨s,hs⟩,hdb⟩
  | deleteMeta key =>
    obtain ⟨s,hs,hdb,hwf⟩ := h.overRocksDb hr
    obtain ⟨prev,hdel⟩ := RocksDb.commitAll_deleteMetaWrites hwf.typed key
    simp only [processRequest,requestWrites,deleteMetaKey,hs,KLogStateStore.deleteMeta,hdel,Except.map,hdb]
    exact ⟨⟨_,rfl⟩,rfl⟩

end

end KLogStateStoreManager

namespace KLogStateMachine
def db (sm : KLogStateMachine) : KLogDb := sm.stateStore.db

def OverRocksDb (sm : KLogStateMachine) : Prop := sm.stateStore.OverRocksDb

def entryWrites (sm : KLogStateMachine) (x : TimedEntry) : List (List DbOp) :=
  match x.entry.payload with
  | .normal req => sm.stateStore.requestWrites req x.clock
  | _ => []

section
variable {sm : KLogStateMachine} {l : Ledger} (h : sm.Refines l) (hr : sm.OverRocksDb)
include h hr

theorem applyEntry_writes (x : TimedEntry) : (sm.applyEntry x).2.OverRocksDb ∧
    (sm.applyEntry x).2.db = commitAll sm.db (sm.entryWrites x) := by
  simp only [applyEntry,entryWrites]
  rcases x.entry.payload with _ | req | mem
  · exact ⟨hr,rfl⟩
  · exact KLogStateStoreManager.processRequest_writes h hr req x.clock
  · exact ⟨hr,rfl⟩

end
end KLogStateMachine
end BuckyOS.KLog
