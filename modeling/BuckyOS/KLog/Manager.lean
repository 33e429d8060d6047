import BuckyOS.KLog.MemoryStore
import BuckyOS.KLog.RocksDbStore

/-! The state store behind its trait, and the manager that allocates ids, answers
repeated requests from memory and forwards the rest. -/
namespace BuckyOS.KLog
inductive KLogStateStore
  | memory (s : MemoryStateStore)
  | rocksDb (s : RocksDbStateStore)

namespace KLogStateStore
def append : KLogStateStore → List KLogEntry → UInt64 → KLogStateStore
  | .memory s, entries, nowMs => .memory (s.append entries nowMs)
  | .rocksDb s, entries, nowMs => .rocksDb { s with db := RocksDb.append s.db entries nowMs }

def putMeta : KLogStateStore → KLogMetaEntry → KResult (KLogMetaEntry × KLogStateStore)
  | .memory s, item => .ok ((s.putMeta item).1,.memory (s.putMeta item).2)
  | .rocksDb s, item =>
    (RocksDb.putMeta s.db item).map (fun r => (r.1,.rocksDb { s with db := r.2 }))

def getMeta : KLogStateStore → String → KResult (Option KLogMetaEntry)
  | .memory s, key => .ok (s.getMeta key)
  | .rocksDb s, key => RocksDb.getMeta s.db key

def deleteMeta : KLogStateStore → String → KResult (Option KLogMetaEntry × KLogStateStore)
  | .memory s, key => .ok ((s.deleteMeta key).1,.memory (s.deleteMeta key).2)
  | .rocksDb s, key =>
    (RocksDb.deleteMeta s.db key).map (fun r => (r.1,.rocksDb { s with db := r.2 }))

def buildSnapshot : KLogStateStore → KResult KLogStateSnapshot
  | .memory s => .ok s.buildSnapshot
  | .rocksDb s => s.buildSnapshot

def installSnapshot : KLogStateStore → KLogStateSnapshot → KResult KLogStateStore
  | .memory s, snapshot => (s.installSnapshot snapshot).map .memory
  | .rocksDb s, snapshot => (s.installSnapshot snapshot).map .rocksDb

def loadNextLogId : KLogStateStore → KResult (Option UInt64 × KLogStateStore)
  | .memory s => .ok (some s.nextLogId,.memory s)
  | .rocksDb s =>
    (RocksDb.resolveNextLogId s.db).map (fun r => (some r.1,.rocksDb { s with db := r.2 }))

def saveNextLogId : KLogStateStore → UInt64 → KResult KLogStateStore
  | .memory s, nextLogId => .ok (.memory { s with nextLogId := nextLogId })
  | .rocksDb s, nextLogId =>
    (RocksDb.saveNextLogId s.db nextLogId).map (fun db => .rocksDb { s with db := db })

def saveStateMachineMeta : KLogStateStore → KLogStateMachineMeta → KLogStateStore
  | .memory s, m => .memory { s with stateMachineMeta := some m }
  | .rocksDb s, m => .rocksDb { s with db := RocksDb.saveStateMachineMeta s.db m }

def lookupRecentRequestId :
    KLogStateStore → String → UInt64 → KResult (Option UInt64 × KLogStateStore)
  | .memory s, requestId, nowMs =>
    let r := s.lookupRecentRequestId requestId nowMs
    .ok (r.1,.memory r.2)
  | .rocksDb s, requestId, nowMs =>
    (RocksDb.lookupRecentRequestId s.db requestId nowMs).map
      (fun r => (r.1,.rocksDb { s with db := r.2 }))

end KLogStateStore

/-- The readings of the local clock that one append takes: when it looks up the request
id, when the store writes, and when the manager remembers the id. -/
structure Readings where
  lookupAt : UInt64
  storeAt : UInt64
  rememberAt : UInt64
  deriving DecidableEq

structure KLogStateStoreManager where
  stateStore : KLogStateStore
  nextLogId : UInt64
  requestDedup : RequestDedupCache

namespace KLogStateStoreManager
variable (m : KLogStateStoreManager) (item : KLogEntry) (clock : Readings)

def advanceNextLogId (candidateNext : UInt64) :
    KResult Unit × KLogStateStoreManager :=
  if candidateNext = 0 then (.ok (),m)
  else if m.nextLogId < candidateNext then
    let m := { m with nextLogId := candidateNext }
    match m.stateStore.saveNextLogId candidateNext with
    | .error e => (.error e,m)
    | .ok store => (.ok (),{ m with stateStore := store })
  else (.ok (),m)

def rememberRequestIds (pairs : List (String × UInt64))
    (nowMs : UInt64) : KLogStateStoreManager :=
  { m with requestDedup := m.requestDedup.rememberAll pairs nowMs }

def append (m : KLogStateStoreManager) (entries : List KLogEntry) (clock : Readings) :
    KResult Unit × KLogStateStoreManager :=
  let m := { m with stateStore := m.stateStore.append entries clock.storeAt }
  match m.advanceNextLogId ((nextAfter entries).getD 0) with
  | (.error e,m) => (.error e,m)
  | (.ok _,m) => (.ok (),m.rememberRequestIds (requestIdPairs entries) clock.rememberAt)

/-- The counter wraps, as the atomic addition does. -/
def allocLogId : UInt64 × KLogStateStoreManager :=
  (m.nextLogId,{ m with nextLogId := m.nextLogId + 1 })

def prepareAppendEntry :
    KLogEntry × KLogStateStoreManager :=
  if item.id = 0 then ({ item with id := m.allocLogId.1 },m.allocLogId.2) else (item,m)

def findRecentRequestId (requestId : String) (nowMs : UInt64) :
    Option UInt64 × KLogStateStoreManager :=
  match normalizeRequestId (some requestId) with
  | none => (none,m)
  | some requestId =>
    let cached := m.requestDedup.lookup requestId nowMs
    let m := { m with requestDedup := cached.2 }
    match cached.1 with
    | some existingId => (some existingId,m)
    | none =>
      match m.stateStore.lookupRecentRequestId requestId nowMs with
      | .ok (some existingId,store) =>
        (some existingId,{ m with
          stateStore := store
          requestDedup := m.requestDedup.remember requestId existingId nowMs })
      | .ok (none,store) => (none,{ m with stateStore := store })
      | .error _ => (none,m)

def appendFresh :
    KResult UInt64 × KLogStateStoreManager :=
  match m.append [item] clock with
  | (.error e,m) => (.error e,m)
  | (.ok _,m) => (.ok item.id,m)

def appendPreparedEntry :
    KResult UInt64 × KLogStateStoreManager :=
  match normalizeRequestId item.requestId with
  | none => m.appendFresh item clock
  | some requestId =>
    match m.findRecentRequestId requestId clock.lookupAt with
    | (some existingId,m) => (.ok existingId,m)
    | (none,m) => m.appendFresh item clock

def putMetaEntryWithExpectedRevision (item : KLogMetaEntry)
    (expectedRevision : Option UInt64) : KResult KLogMetaPutResult × KLogStateStoreManager :=
  let put : KResult KLogMetaPutResult × KLogStateStoreManager :=
    match m.stateStore.putMeta item with
    | .error e => (.error e,m)
    | .ok (stored,store) => (.ok (.stored stored),{ m with stateStore := store })
  match expectedRevision with
  | none => put
  | some expected =>
    match m.stateStore.getMeta item.key with
    | .error e => (.error e,m)
    | .ok current =>
      let currentRevision := current.map (·.revision)
      let matched := if expected = 0 then current.isNone else currentRevision == some expected
      if matched then put else (.ok (.versionConflict expected currentRevision),m)

def deleteMetaKey (key : String) :
    KResult (Option KLogMetaEntry) × KLogStateStoreManager :=
  match m.stateStore.deleteMeta key with
  | .error e => (.error e,m)
  | .ok (prevMeta,store) => (.ok prevMeta,{ m with stateStore := store })

def buildSnapshot (m : KLogStateStoreManager) : KResult KLogStateSnapshot :=
  m.stateStore.buildSnapshot

def installSnapshot (m : KLogStateStoreManager) (snapshot : KLogStateSnapshot) :
    KResult Unit × KLogStateStoreManager :=
  match m.stateStore.installSnapshot snapshot with
  | .error e => (.error e,m)
  | .ok store =>
    match store.loadNextLogId with
    | .error e => (.error e,{ m with stateStore := store })
    | .ok (next,store) => (.ok (),⟨store,next.getD 1,RequestDedupCache.empty⟩)

end KLogStateStoreManager
end BuckyOS.KLog
