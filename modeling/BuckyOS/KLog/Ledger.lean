import BuckyOS.KLog.Types

/-! The ledger: what the kernel log is for, apart from clocks, caches and column
families. A request is applied once; a repetition of it that is recognised is answered
with the id of the first application and changes nothing. -/
namespace BuckyOS.KLog
/-- The log as a store keeps it: in order of arrival, or one entry under each id. -/
inductive LogContents
  | sequence (entries : List KLogEntry)
  | keyed (entryAt : UInt64 → Option KLogEntry)

namespace LogContents
def store : LogContents → KLogEntry → LogContents
  | .sequence entries, e => .sequence (entries ++ [e])
  | .keyed entryAt, e => .keyed (Function.update entryAt e.id (some e))

/-- The key under which a metadata key is read and deleted: a keyed store trims it. -/
def readKey : LogContents → String → Option String
  | .sequence _, key => some key
  | .keyed _, key => Text.trimmed (some key)

end LogContents

structure Ledger where
  logs : LogContents
  metas : String → Option KLogMetaEntry
  known : String → Option UInt64

def revisionMatches (expectedRevision : Option UInt64) (current : Option KLogMetaEntry) : Bool :=
  expectedRevision.all (fun expected =>
    if expected = 0 then current.isNone else current.map (·.revision) == some expected)

def revisionOf (v : Option KLogMetaEntry) : ℕ := v.elim 0 (fun m => m.revision.toNat)

theorem revisionOf_nextRevision (m : KLogMetaEntry) (v : Option KLogMetaEntry) :
    revisionOf (some { m with revision := nextRevision v }) = min (revisionOf v + 1) (2^64 - 1) := by
  cases v with
  | none => simp [revisionOf,nextRevision]
  | some v => simp [revisionOf,nextRevision,U64.toNat_saturatingAdd]

theorem revisionOf_lt (v : Option KLogMetaEntry) : revisionOf v ≤ 2^64 - 1 := by
  cases v with
  | none => simp [revisionOf]
  | some m =>
    have := m.revision.toNat_lt
    simp only [revisionOf,Option.elim_some]
    omega

namespace Ledger
variable (l : Ledger) (key : String)

def current : Option KLogMetaEntry :=
  (l.logs.readKey key).bind l.metas

def store (l : Ledger) (item : KLogEntry) : Ledger where
  logs := l.logs.store item
  metas := l.metas
  known := match item.dedupKey with
    | some r => Function.update l.known r (some item.id)
    | none => l.known

def putMeta (item : KLogMetaEntry) : Ledger :=
  let stored := { item with revision := nextRevision (l.metas item.key) }
  { l with metas := Function.update l.metas item.key (some stored) }

def deleteMeta : Ledger where
  logs := l.logs
  metas := match l.logs.readKey key with
    | none => l.metas
    | some k => Function.update l.metas k none
  known := l.known

def request (req : KLogRequest) (repetition : Bool) : KLogResponse × Ledger :=
  match req with
  | .appendLog item =>
    match item.dedupKey, repetition with
    | some r, true => (.appendOk ((l.known r).getD item.id),l)
    | _, _ => (.appendOk item.id,l.store item)
  | .putMeta item expectedRevision =>
    if revisionMatches expectedRevision (l.current item.key) then
      (.metaPutOk item.key (nextRevision (l.metas item.key)),l.putMeta item)
    else
      (.metaPutConflict item.key (expectedRevision.getD 0)
        ((l.current item.key).map (·.revision)),l)
  | .deleteMeta key =>
    (.metaDeleteOk key (l.current key).isSome (l.current key),l.deleteMeta key)

def step (payload : EntryPayload) (repetition : Bool) : KLogResponse × Ledger :=
  match payload with
  | .normal req => l.request req repetition
  | .blank | .membership _ => (.empty,l)

theorem known_store (item : KLogEntry) (r : String) :
    (l.store item).known r = if item.dedupKey = some r then some item.id else l.known r := by
  cases hkey : item.dedupKey with
  | none => simp [store,hkey]
  | some q =>
    by_cases hq : q = r
    · simp [store,hkey,hq]
    · have hq' : ¬ r = q := fun hc => hq hc.symm
      simp [store,hkey,hq,hq']

end Ledger
end BuckyOS.KLog
