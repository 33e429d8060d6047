import BuckyOS.KLog.Layout

/-! The in-memory state store. -/
namespace BuckyOS.KLog
abbrev RequestDedupIndex := RequestDedupCache

structure MemoryStateStore where
  logs : List KLogEntry
  metas : OrderedMap String KLogMetaEntry
  nextLogId : UInt64
  stateMachineMeta : Option KLogStateMachineMeta
  requestDedup : RequestDedupIndex
  deriving DecidableEq

def requestIdPairs (entries : List KLogEntry) : List (String × UInt64) :=
  entries.filterMap (fun e => (normalizeRequestId e.requestId).map (fun r => (r,e.id)))

theorem requestIdPairs_singleton (e : KLogEntry) :
    requestIdPairs [e] = e.dedupKey.toList.map (fun r => (r,e.id)) := by
  cases h : normalizeRequestId e.requestId <;> simp [requestIdPairs,KLogEntry.dedupKey,h]

theorem RequestDedupCache.recordedId_rememberPairs {c : RequestDedupCache} {e : KLogEntry}
    {nowMs id : UInt64} {r : String}
    (h : (c.rememberAll (requestIdPairs [e]) nowMs).recordedId r = some id) :
    if e.dedupKey = some r then id = e.id else c.recordedId r = some id := by
  rw [requestIdPairs_singleton] at h
  cases hkey : e.dedupKey with
  | none => simpa [hkey,rememberAll] using h
  | some q =>
    rw [hkey] at h
    have hrem := RequestDedupCache.recordedId_remember h
    by_cases hq : q = r
    · simpa [hq] using hrem
    · have hq' : ¬ r = q := fun hc => hq hc.symm
      simpa [hq,hq'] using hrem

namespace MemoryStateStore
variable (s : MemoryStateStore) (key : String)

def append (entries : List KLogEntry) (nowMs : UInt64) :
    MemoryStateStore :=
  let candidateNext := (nextAfter entries).getD 0
  { s with
    logs := s.logs ++ entries
    nextLogId := if s.nextLogId < candidateNext then candidateNext else s.nextLogId
    requestDedup := s.requestDedup.rememberAll (requestIdPairs entries) nowMs }

def putMeta (item : KLogMetaEntry) : KLogMetaEntry × MemoryStateStore :=
  let nextRevision := match s.metas.get? item.key with
    | some v => U64.saturatingAdd v.revision 1
    | none => 1
  let stored := { item with revision := nextRevision }
  (stored,{ s with metas := s.metas.insert item.key stored })

def getMeta : Option KLogMetaEntry := s.metas.get? key

def deleteMeta : Option KLogMetaEntry × MemoryStateStore :=
  (s.metas.get? key,{ s with metas := s.metas.erase key })

def buildSnapshot : KLogStateSnapshot :=
  .data ⟨s.logs,s.metas.values.insertionSort (fun a b => a.key ≤ b.key)⟩

def decodeSnapshotData : KLogStateSnapshot → KResult KLogStateSnapshotData
  | .data d => .ok d
  | .legacyEntries entries => .ok ⟨entries,[]⟩
  | _ => .error (.invalidFormat ("Failed to decode state snapshot: " ++ decodeErrorText))

def installSnapshot (snapshot : KLogStateSnapshot) :
    KResult MemoryStateStore :=
  (decodeSnapshotData snapshot).map (fun d =>
    { s with
      logs := d.entries
      metas := d.metaEntries.foldl (fun metas item => metas.insert item.key item) OrderedMap.empty
      nextLogId := (nextAfter d.entries).getD 1
      requestDedup := RequestDedupCache.empty })

def lookupRecentRequestId (requestId : String) (nowMs : UInt64) :
    Option UInt64 × MemoryStateStore :=
  match normalizeRequestId (some requestId) with
  | none => (none,s)
  | some requestId =>
    let found := s.requestDedup.lookup requestId nowMs
    (found.1,{ s with requestDedup := found.2 })

end MemoryStateStore
end BuckyOS.KLog
