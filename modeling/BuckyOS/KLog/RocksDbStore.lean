import BuckyOS.KLog.Layout

/-! The RocksDB state store, operation by operation. An operation that fails has
written nothing. -/
namespace BuckyOS.KLog
def collect {ε α β : Type} (f : α → Except ε (Option β)) : List α → Except ε (List β)
  | [] => .ok []
  | a :: l =>
    match f a with
    | .error e => .error e
    | .ok b =>
      match collect f l with
      | .error e => .error e
      | .ok bs => .ok (b.toList ++ bs)

inductive RocksDbSnapshotMode
  | enumerate | checkpoint | backupEngine
  deriving DecidableEq

def RocksDbSnapshotMode.debug : RocksDbSnapshotMode → String
  | .enumerate => "Enumerate"
  | .checkpoint => "Checkpoint"
  | .backupEngine => "BackupEngine"

structure RocksDbStateStore where
  db : KLogDb
  snapshotMode : RocksDbSnapshotMode

namespace RocksDb
open ColumnFamily

variable (kvs : List (Bytes × DbValue)) (e : KLogEntry) (db : KLogDb)

def indexOps : List DbOp :=
  .put cfIndexLevel (levelIndexKey e.level e.id) (.bytes []) ::
    (normalizeSource e.source).toList.map
      (fun source => .put cfIndexSource (sourceIndexKey source e.id) (.bytes []))

def migrateOps (kv : Bytes × DbValue) : List DbOp :=
  if (decodeEntryKey kv.1).isSome then
    [.put cfLogs kv.1 kv.2,.delete cfDefault kv.1]
  else if kv.1 = keyNextLogIdMeta ∨ kv.1 = keyStateMachineMeta then
    [.put cfMeta kv.1 kv.2,.delete cfDefault kv.1]
  else
    []

def migrateLegacyDefaultCfData : KLogDb :=
  db.write ((db.cf cfDefault).entries.flatMap migrateOps)

def clearIndexesOps : List DbOp :=
  BatchOp.deleteKeys cfIndexLevel (db.cf cfIndexLevel).entries ++
    BatchOp.deleteKeys cfIndexSource (db.cf cfIndexSource).entries

def readPersistedNextLogId : KResult (Option UInt64) :=
  match db.get? cfMeta keyNextLogIdMeta with
  | none => .ok none
  | some raw => (decodeU64Be raw).map some

def maxEntryId : UInt64 :=
  kvs.foldl (fun maxId kv =>
    match decodeEntryKey kv.1 with
    | some id => if maxId < id then id else maxId
    | none => maxId) 0

def scanNextLogIdFromEntries : UInt64 :=
  max (U64.saturatingAdd (maxEntryId (db.cf cfLogs).entries) 1) 1

def persistNextLogId (nextLogId : UInt64) : KLogDb :=
  db.put cfMeta keyNextLogIdMeta (encodeU64Be nextLogId)

def resolveNextLogId : KResult (UInt64 × KLogDb) :=
  let fromEntries := scanNextLogIdFromEntries db
  match readPersistedNextLogId db with
  | .error e => .error e
  | .ok persisted =>
    let fromMeta := persisted.getD 1
    let resolved := max (max fromEntries fromMeta) 1
    .ok (resolved,if resolved ≠ fromMeta then persistNextLogId db resolved else db)

def readAllEntries : KResult (List KLogEntry) :=
  collect (fun kv : Bytes × DbValue =>
    if (decodeEntryKey kv.1).isNone then .ok none
    else (decodeEntry "Failed to deserialize state entry from rocksdb" kv.2).map some)
    (db.cf cfLogs).entries

def readAllMetaEntries : KResult (List KLogMetaEntry) :=
  (collect (fun kv : Bytes × DbValue =>
    if (decodeDataMetaKey kv.1).isNone then .ok none
    else (decodeMetaEntryWithLegacy kv.2).map some)
    ((db.cf cfMeta).scanPrefix keyDataMetaPrefix)).map
      (fun out => out.insertionSort (fun a b => a.key ≤ b.key))

def clearEntriesOps : List DbOp :=
  BatchOp.deleteKeys cfLogs
    ((db.cf cfLogs).entries.filter (fun kv => (decodeEntryKey kv.1).isSome))

def clearRequestDedupOps : List DbOp :=
  BatchOp.deleteKeys cfMeta ((db.cf cfMeta).scanPrefix keyRequestDedupPrefix)

def clearDataMetaOps : List DbOp :=
  BatchOp.deleteKeys cfMeta ((db.cf cfMeta).scanPrefix keyDataMetaPrefix)

def clearOps : List DbOp :=
  clearEntriesOps db ++ clearRequestDedupOps db ++ clearDataMetaOps db ++ clearIndexesOps db

def putEntryOps : List DbOp :=
  .put cfLogs (entryKey e.id) (.entry e) :: indexOps e

def replaceWithEntries (entries : List KLogEntry)
    (metaEntries : List KLogMetaEntry) : KLogDb :=
  let maxId := entries.foldl (fun maxId e => if maxId < e.id then e.id else maxId) 0
  let nextLogId := max (U64.saturatingAdd maxId 1) 1
  db.write (clearOps db ++ entries.flatMap putEntryOps ++
    [.put cfMeta keyNextLogIdMeta (encodeU64Be nextLogId)] ++
    metaEntries.map (fun item => .put cfMeta (dataMetaKey item.key) (.dataMeta item)))

def copyOps : List DbOp :=
  kvs.map (fun kv => .put cfMeta kv.1 kv.2)

def replaceWithDb (db sourceDb : KLogDb) : KResult KLogDb :=
  let sourceLogs := (sourceDb.cf cfLogs).entries
  match collect (fun kv : Bytes × DbValue =>
      if (decodeEntryKey kv.1).isNone then .ok none
      else (decodeEntry "Failed to decode source entry for index rebuild" kv.2).map
        (fun entry => some (.put cfLogs kv.1 kv.2 :: indexOps entry))) sourceLogs with
  | .error e => .error e
  | .ok copied =>
    let nextLogId := max (U64.saturatingAdd (maxEntryId sourceLogs) 1) 1
    .ok (db.write (clearOps db ++ copied.flatten ++
      [.put cfMeta keyNextLogIdMeta (encodeU64Be nextLogId)] ++
      copyOps ((sourceDb.cf cfMeta).scanPrefix keyRequestDedupPrefix) ++
      copyOps ((sourceDb.cf cfMeta).scanPrefix keyDataMetaPrefix)))

def dedupOps (nowMs : UInt64) : List DbOp :=
  (normalizeRequestId e.requestId).toList.map
    (fun requestId => .put cfMeta (requestDedupMetaKey requestId) (.requestDedup ⟨e.id,nowMs⟩))

/-- All records of an append are committed in one batch. -/
def append (entries : List KLogEntry) (nowMs : UInt64) : KLogDb :=
  db.write (entries.flatMap (fun e => putEntryOps e ++ dedupOps e nowMs))

def putMeta (item : KLogMetaEntry) : KResult (KLogMetaEntry × KLogDb) :=
  let metaKey := dataMetaKey item.key
  let write := fun nextRevision =>
    let stored := { item with revision := nextRevision }
    (stored,db.put cfMeta metaKey (.dataMeta stored))
  match db.get? cfMeta metaKey with
  | none => .ok (write 1)
  | some raw =>
    (decodeMetaEntryWithLegacy raw).map (fun prev => write (U64.saturatingAdd prev.revision 1))

def getMeta (key : String) : KResult (Option KLogMetaEntry) :=
  match Text.trimmed (some key) with
  | none => .ok none
  | some key =>
    match db.get? cfMeta (dataMetaKey key) with
    | none => .ok none
    | some raw => (decodeMetaEntryWithLegacy raw).map some

def deleteMeta (key : String) : KResult (Option KLogMetaEntry × KLogDb) :=
  match Text.trimmed (some key) with
  | none => .ok (none,db)
  | some key =>
    let metaKey := dataMetaKey key
    match db.get? cfMeta metaKey with
    | none => .ok (none,db)
    | some raw =>
      (decodeMetaEntryWithLegacy raw).map (fun prevMeta => (some prevMeta,db.delete cfMeta metaKey))

def saveNextLogId (nextLogId : UInt64) : KResult KLogDb :=
  match readPersistedNextLogId db with
  | .error e => .error e
  | .ok persisted =>
    let current := persisted.getD 1
    let target := max (max nextLogId current) 1
    .ok (if target ≠ current then persistNextLogId db target else db)

def saveStateMachineMeta (m : KLogStateMachineMeta) : KLogDb :=
  db.put cfMeta keyStateMachineMeta (.stateMachineMeta m)

/-- An expired record is deleted when it is looked up. -/
def lookupRecentRequestId (requestId : String) (nowMs : UInt64) :
    KResult (Option UInt64 × KLogDb) :=
  match normalizeRequestId (some requestId) with
  | none => .ok (none,db)
  | some requestId =>
    let key := requestDedupMetaKey requestId
    match db.get? cfMeta key with
    | none => .ok (none,db)
    | some raw =>
      (decodeRequestDedup raw).map (fun record =>
        if windowExpired nowMs record.seenAtMs then (none,db.delete cfMeta key)
        else (some record.logId,db))

end RocksDb

namespace RocksDbStateStore
open RocksDb

/-- The strategies an install tries: the store's own mode first, then the others. -/
def snapshotInstallers (mode : RocksDbSnapshotMode) : List RocksDbSnapshotMode :=
  mode :: [.enumerate,.checkpoint,.backupEngine].filter (fun m => m ≠ mode)

def buildSnapshot (s : RocksDbStateStore) : KResult KLogStateSnapshot :=
  match s.snapshotMode with
  | .enumerate =>
    match readAllEntries s.db with
    | .error e => .error e
    | .ok entries => (readAllMetaEntries s.db).map (fun metas => .data ⟨entries,metas⟩)
  | .checkpoint => .ok (.checkpoint s.db)
  | .backupEngine => .ok (.backupEngine s.db)

/-- `none` when the strategy does not recognise the payload. -/
def tryInstallSnapshot (s : RocksDbStateStore) :
    RocksDbSnapshotMode → KLogStateSnapshot → KResult (Option KLogDb)
  | .enumerate, .data d => .ok (some (replaceWithEntries s.db d.entries d.metaEntries))
  | .enumerate, .legacyEntries entries => .ok (some (replaceWithEntries s.db entries []))
  | .checkpoint, .checkpoint archive =>
    (replaceWithDb s.db (migrateLegacyDefaultCfData archive)).map some
  | .backupEngine, .backupEngine archive =>
    (replaceWithDb s.db (migrateLegacyDefaultCfData archive)).map some
  | _, _ => .ok none

def payloadBytes : KLogStateSnapshot → ℕ
  | .other n => n
  | _ => 0

def installWith (s : RocksDbStateStore) (snapshot : KLogStateSnapshot) :
    List RocksDbSnapshotMode → KResult RocksDbStateStore
  | [] => .error (.invalidFormat ("Unsupported rocksdb snapshot payload for mode " ++
      s.snapshotMode.debug ++ ", payload_bytes=" ++ toString (payloadBytes snapshot)))
  | installer :: installers =>
    match s.tryInstallSnapshot installer snapshot with
    | .error e => .error e
    | .ok (some db) => .ok { s with db := db }
    | .ok none => s.installWith snapshot installers

def installSnapshot (s : RocksDbStateStore) (snapshot : KLogStateSnapshot) :
    KResult RocksDbStateStore :=
  s.installWith snapshot (snapshotInstallers s.snapshotMode)

end RocksDbStateStore
end BuckyOS.KLog
