import BuckyOS.Lib.KvStore
import BuckyOS.KLog.Dedup

/-! The key layout of the RocksDB state store: its column families, the kinds of
record it keeps in them, and the keys of each kind. Record encoding is taken as
exact: a record decodes to what was encoded, and no kind decodes as another. -/
namespace BuckyOS.KLog
inductive ColumnFamily
  | cfDefault | cfLogs | cfMeta | cfIndexLevel | cfIndexSource
  deriving DecidableEq

abbrev RequestDedupMeta := RequestDedupRecord

structure LegacyKLogMetaEntryV0 where
  key : String
  value : String
  updatedAt : UInt64
  updatedBy : UInt64
  deriving DecidableEq

/-- A stored value: raw bytes, or the encoding of a record. -/
inductive DbValue
  | bytes (raw : Bytes)
  | entry (e : KLogEntry)
  | dataMeta (m : KLogMetaEntry)
  | legacyDataMeta (m : LegacyKLogMetaEntryV0)
  | requestDedup (r : RequestDedupMeta)
  | stateMachineMeta (m : KLogStateMachineMeta)
  deriving DecidableEq

abbrev KLogDb := KvDb ColumnFamily Bytes DbValue

abbrev DbOp := BatchOp ColumnFamily Bytes DbValue

/-- What a snapshot payload holds: the enumerated records, the entries alone (as older
builds wrote them), a copied database, or bytes that decode as none of these. -/
inductive KLogStateSnapshot
  | data (d : KLogStateSnapshotData)
  | legacyEntries (entries : List KLogEntry)
  | checkpoint (db : KLogDb)
  | backupEngine (db : KLogDb)
  | other (payloadBytes : ℕ)

def klogErrWithContext (context : String) (err : String) : KLogError :=
  .invalidFormat (context ++ ": " ++ err)

/-- What the record decoder reports for bytes that hold another kind of record. -/
def decodeErrorText : String := "unexpected record"

def decodeEntry (context : String) : DbValue → KResult KLogEntry
  | .entry e => .ok e
  | _ => .error (klogErrWithContext context decodeErrorText)

def decodeU64Be : DbValue → KResult UInt64
  | .bytes raw =>
    if raw.length = 8 then .ok (U64.ofBytesBE raw)
    else .error (.invalidFormat ("Invalid u64 bytes length: " ++ toString raw.length))
  | _ => .error (.invalidFormat "Invalid u64 bytes length")

def encodeU64Be (n : UInt64) : DbValue := .bytes (U64.toBytesBE n)

def decodeMetaEntryWithLegacy : DbValue → KResult KLogMetaEntry
  | .dataMeta m => .ok m
  | .legacyDataMeta m => .ok ⟨m.key,m.value,m.updatedAt,m.updatedBy,1⟩
  | _ => .error (klogErrWithContext "Failed to decode rocksdb data meta entry" decodeErrorText)

def decodeRequestDedup : DbValue → KResult RequestDedupMeta
  | .requestDedup r => .ok r
  | _ => .error (klogErrWithContext "Failed to decode request dedup index" decodeErrorText)

def keyPrefixEntry : UInt8 := 101

def keyNextLogIdMeta : Bytes := Text.utf8 "m:next_log_id"

def keyStateMachineMeta : Bytes := Text.utf8 "m:state_machine_meta"

def keyRequestDedupPrefix : Bytes := Text.utf8 "m:req:"

def keyDataMetaPrefix : Bytes := Text.utf8 "d:"

def entryKey (id : UInt64) : Bytes := keyPrefixEntry :: U64.toBytesBE id

def decodeEntryKey (key : Bytes) : Option UInt64 :=
  if key.length ≠ 9 ∨ key.head? ≠ some keyPrefixEntry then none
  else some (U64.ofBytesBE key.tail)

def requestDedupMetaKey (requestId : String) : Bytes :=
  keyRequestDedupPrefix ++ Text.utf8 requestId

def dataMetaKey (key : String) : Bytes := keyDataMetaPrefix ++ Text.utf8 key

def decodeDataMetaKey (raw : Bytes) : Option String :=
  if keyDataMetaPrefix.isPrefixOf raw then Text.fromUtf8 (raw.drop keyDataMetaPrefix.length)
  else none

def levelIndexCode : KLogLevel → UInt8
  | .trace => 1
  | .debug => 2
  | .info => 3
  | .warn => 4
  | .error => 5
  | .fatal => 6

def levelIndexKey (level : KLogLevel) (id : UInt64) : Bytes :=
  levelIndexCode level :: U64.toBytesBE id

/-- The length is taken modulo `2^32`, as the cast to `u32` does. -/
def sourceIndexPrefix (source : String) : Bytes :=
  Bytes.ofNatBE 4 ((Text.utf8 source).length % 2^32) ++ Text.utf8 source

def sourceIndexKey (source : String) (id : UInt64) : Bytes :=
  sourceIndexPrefix source ++ U64.toBytesBE id

section Keys
@[simp] theorem entryKey_inj {a b : UInt64} : entryKey a = entryKey b ↔ a = b := by
  constructor
  · intro h
    exact U64.toBytesBE_injective (List.cons.inj h).2
  · rintro rfl
    rfl

@[simp] theorem dataMetaKey_inj {a b : String} : dataMetaKey a = dataMetaKey b ↔ a = b := by
  constructor
  · intro h
    exact Text.utf8_injective (List.append_cancel_left h)
  · rintro rfl
    rfl

@[simp] theorem requestDedupMetaKey_inj {a b : String} :
    requestDedupMetaKey a = requestDedupMetaKey b ↔ a = b := by
  constructor
  · intro h
    exact Text.utf8_injective (List.append_cancel_left h)
  · rintro rfl
    rfl

theorem keyNextLogIdMeta_eq : keyNextLogIdMeta =
    [109,58,110,101,120,116,95,108,111,103,95,105,100] := by decide

theorem keyStateMachineMeta_eq : keyStateMachineMeta =
    [109,58,115,116,97,116,101,95,109,97,99,104,105,110,101,95,109,101,116,97] := by decide

theorem keyRequestDedupPrefix_eq : keyRequestDedupPrefix = [109,58,114,101,113,58] := by decide

theorem keyDataMetaPrefix_eq : keyDataMetaPrefix = [100,58] := by decide

section MetaKeys
variable (key requestId : String)

attribute [local simp] dataMetaKey requestDedupMetaKey keyDataMetaPrefix_eq keyRequestDedupPrefix_eq

@[simp] theorem dataMetaKey_ne_requestDedupMetaKey : dataMetaKey key ≠ requestDedupMetaKey requestId := by
  simp

@[simp] theorem dataMetaKey_ne_keyNextLogIdMeta : dataMetaKey key ≠ keyNextLogIdMeta := by
  simp [keyNextLogIdMeta_eq]

@[simp] theorem dataMetaKey_ne_keyStateMachineMeta : dataMetaKey key ≠ keyStateMachineMeta := by
  simp [keyStateMachineMeta_eq]

@[simp] theorem requestDedupMetaKey_ne_keyNextLogIdMeta :
    requestDedupMetaKey requestId ≠ keyNextLogIdMeta := by
  simp [keyNextLogIdMeta_eq]

@[simp] theorem requestDedupMetaKey_ne_keyStateMachineMeta :
    requestDedupMetaKey requestId ≠ keyStateMachineMeta := by
  simp [keyStateMachineMeta_eq]

@[simp] theorem keyNextLogIdMeta_ne_keyStateMachineMeta :
    keyNextLogIdMeta ≠ keyStateMachineMeta := by decide

@[simp] theorem requestDedupMetaKey_ne_dataMetaKey : requestDedupMetaKey requestId ≠ dataMetaKey key :=
  (dataMetaKey_ne_requestDedupMetaKey key requestId).symm

@[simp] theorem keyNextLogIdMeta_ne_dataMetaKey : keyNextLogIdMeta ≠ dataMetaKey key :=
  (dataMetaKey_ne_keyNextLogIdMeta key).symm

@[simp] theorem keyNextLogIdMeta_ne_requestDedupMetaKey :
    keyNextLogIdMeta ≠ requestDedupMetaKey requestId :=
  (requestDedupMetaKey_ne_keyNextLogIdMeta requestId).symm

end MetaKeys
end Keys
end BuckyOS.KLog
