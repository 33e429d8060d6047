import Mathlib.Data.String.Basic
import BuckyOS.Lib.OrderedMap
import BuckyOS.Lib.Text

/-! Log entries, metadata entries, requests and replies of the kernel log, and the
raft entries that carry them. -/
namespace BuckyOS.KLog
inductive KLogError
  | invalidFormat (msg : String)
  deriving DecidableEq

def KLogError.toString : KLogError → String
  | .invalidFormat msg => "Invalid format: " ++ msg

abbrev KResult (α : Type) := Except KLogError α

inductive KLogLevel
  | trace | debug | info | warn | error | fatal
  deriving DecidableEq

structure KLogEntry where
  id : UInt64
  timestamp : UInt64
  nodeId : UInt64
  requestId : Option String
  level : KLogLevel
  source : Option String
  attrs : OrderedMap String String
  message : String
  deriving DecidableEq

structure KLogMetaEntry where
  key : String
  value : String
  updatedAt : UInt64
  updatedBy : UInt64
  revision : UInt64
  deriving DecidableEq

inductive KLogRequest
  | appendLog (item : KLogEntry)
  | putMeta (item : KLogMetaEntry) (expectedRevision : Option UInt64)
  | deleteMeta (key : String)
  deriving DecidableEq

inductive KLogResponse
  | ok
  | empty
  | appendOk (id : UInt64)
  | metaPutOk (key : String) (revision : UInt64)
  | metaPutConflict (key : String) (expectedRevision : UInt64) (currentRevision : Option UInt64)
  | metaDeleteOk (key : String) (existed : Bool) (prevMeta : Option KLogMetaEntry)
  | err (msg : String)
  deriving DecidableEq

inductive KLogMetaPutResult
  | stored (item : KLogMetaEntry)
  | versionConflict (expectedRevision : UInt64) (currentRevision : Option UInt64)
  deriving DecidableEq

structure KLogId where
  term : UInt64
  nodeId : UInt64
  index : UInt64
  deriving DecidableEq

structure KNode where
  id : UInt64
  addr : String
  port : UInt16
  interPort : UInt16
  adminPort : UInt16
  rpcPort : UInt16
  deriving DecidableEq

structure Membership where
  configs : List (List UInt64)
  nodes : List (UInt64 × KNode)
  deriving DecidableEq

structure StoredMembership where
  logId : Option KLogId
  membership : Membership
  deriving DecidableEq

instance : Inhabited StoredMembership := ⟨⟨none,⟨[],[]⟩⟩⟩

structure KLogStateMachineMeta where
  lastAppliedLogId : Option KLogId
  lastMembership : StoredMembership
  deriving DecidableEq

inductive EntryPayload
  | blank
  | normal (req : KLogRequest)
  | membership (mem : Membership)
  deriving DecidableEq

structure KEntry where
  logId : KLogId
  payload : EntryPayload
  deriving DecidableEq

structure KLogStateSnapshotData where
  entries : List KLogEntry
  metaEntries : List KLogMetaEntry
  deriving DecidableEq

def normalizeRequestId (requestId : Option String) : Option String := Text.trimmed requestId

def normalizeSource (source : Option String) : Option String := Text.trimmed source

namespace KLogEntry
/-- The idempotency key under which an append of the entry is remembered. -/
def dedupKey (e : KLogEntry) : Option String := normalizeRequestId e.requestId

end KLogEntry

def EntryPayload.dedupKey : EntryPayload → Option String
  | .normal (.appendLog item) => item.dedupKey
  | _ => none

theorem normalizeRequestId_normalized {r : Option String} {s : String}
    (h : normalizeRequestId r = some s) : normalizeRequestId (some s) = some s := Text.trimmed_trimmed h

/-- The cursor just past the ids of some entries: the largest `id + 1`, saturating. -/
def nextAfter (entries : List KLogEntry) : Option UInt64 :=
  (entries.map (fun e => U64.saturatingAdd e.id 1)).max?

def nextRevision : Option KLogMetaEntry → UInt64
  | some prev => U64.saturatingAdd prev.revision 1
  | none => 1

end BuckyOS.KLog
