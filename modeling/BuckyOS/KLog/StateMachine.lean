import BuckyOS.Lib.Machine
import BuckyOS.KLog.Manager

/-! The replicated state machine: requests in, replies out, a cursor persisted once per
batch, and snapshots taken and installed. -/
namespace BuckyOS.KLog
structure StateMachineData where
  lastAppliedLogId : Option KLogId
  lastMembership : StoredMembership
  deriving DecidableEq

structure KLogStateMachine where
  data : StateMachineData
  stateStore : KLogStateStoreManager

/-- A committed entry with the clock readings of the replica that applies it. -/
structure TimedEntry where
  entry : KEntry
  clock : Readings
  deriving DecidableEq

structure SnapshotMeta where
  lastLogId : Option KLogId
  lastMembership : StoredMembership
  deriving DecidableEq

structure KSnapshot where
  snapshotMeta : SnapshotMeta
  klogData : KLogStateSnapshot

def processRequest (m : KLogStateStoreManager) (req : KLogRequest) (clock : Readings) :
    KLogResponse × KLogStateStoreManager :=
  match req with
  | .appendLog item =>
    match m.appendPreparedEntry item clock with
    | (.ok id,m) => (.appendOk id,m)
    | (.error e,m) => (.err e.toString,m)
  | .putMeta item expectedRevision =>
    match m.putMetaEntryWithExpectedRevision item expectedRevision with
    | (.ok (.stored stored),m) => (.metaPutOk item.key stored.revision,m)
    | (.ok (.versionConflict expected current),m) =>
      (.metaPutConflict item.key expected current,m)
    | (.error e,m) => (.err e.toString,m)
  | .deleteMeta key =>
    match m.deleteMetaKey key with
    | (.ok prevMeta,m) => (.metaDeleteOk key prevMeta.isSome prevMeta,m)
    | (.error e,m) => (.err e.toString,m)

namespace KLogStateMachine
variable (sm : KLogStateMachine)

def persistStateMachineMeta (lastAppliedLogId : Option KLogId)
    (lastMembership : StoredMembership) : KLogStateMachine :=
  { sm with stateStore := { sm.stateStore with
      stateStore := sm.stateStore.stateStore.saveStateMachineMeta
        ⟨lastAppliedLogId,lastMembership⟩ } }

def applyEntry (x : TimedEntry) : KLogResponse × KLogStateMachine :=
  let data := { sm.data with lastAppliedLogId := some x.entry.logId }
  match x.entry.payload with
  | .blank => (.empty,{ sm with data := data })
  | .normal req =>
    let r := processRequest sm.stateStore req x.clock
    (r.1,⟨data,r.2⟩)
  | .membership mem =>
    (.empty,{ sm with data := { data with lastMembership := ⟨some x.entry.logId,mem⟩ } })

def apply (batch : List TimedEntry) :
    List KLogResponse × KLogStateMachine :=
  let r := Machine.run applyEntry sm batch
  (r.1,r.2.persistStateMachineMeta r.2.data.lastAppliedLogId r.2.data.lastMembership)

def applyBatches (sm : KLogStateMachine) : List (List TimedEntry) →
    List KLogResponse × KLogStateMachine
  | [] => ([],sm)
  | batch :: batches =>
    let r := sm.apply batch
    let rest := r.2.applyBatches batches
    (r.1 ++ rest.1,rest.2)

/-- The first step of a snapshot, under the read lock. -/
def snapshotMetaOf : SnapshotMeta :=
  ⟨sm.data.lastAppliedLogId,sm.data.lastMembership⟩

def installSnapshot (sm : KLogStateMachine) (snapshot : KSnapshot) :
    KResult Unit × KLogStateMachine :=
  match sm.stateStore.installSnapshot snapshot.klogData with
  | (.error e,m) => (.error e,{ sm with stateStore := m })
  | (.ok _,m) =>
    let lastLogId := snapshot.snapshotMeta.lastLogId
    let lastMembership := snapshot.snapshotMeta.lastMembership
    let sm := persistStateMachineMeta { sm with stateStore := m } lastLogId lastMembership
    (.ok (),{ sm with data := ⟨lastLogId,lastMembership⟩ })

end KLogStateMachine
end BuckyOS.KLog
