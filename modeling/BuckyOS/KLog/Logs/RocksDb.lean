import BuckyOS.Lib.KvStore
import BuckyOS.Lib.Scan
import BuckyOS.KLog.Logs.Types

/-! The raft log in RocksDB: entries under the big-endian bytes of their index, each call as
the batches it writes, and that it keeps the raft log. -/
namespace BuckyOS.KLog
open List OrderedMap Prod RaftLog

inductive LogColumnFamily
  | raftLogs | raftMeta
  deriving DecidableEq

abbrev LogBatch := List (BatchOp LogColumnFamily Bytes PersistPayload)

structure RocksDbLogStorage where
  db : KvDb LogColumnFamily Bytes PersistPayload

namespace RocksDbLogStorage
def metaVote : Bytes := Text.utf8 "vote"

def metaLastPurged : Bytes := Text.utf8 "last_purged"

def metaCommitted : Bytes := Text.utf8 "committed"

def create : RocksDbLogStorage := ⟨KvDb.empty⟩

def entryKey (index : UInt64) : Bytes := U64.toBytesBE index

variable (s : RocksDbLogStorage) (key : Bytes) (logId : KLogId)

def decodeEntryKey : StorageResult UInt64 :=
  if key.length ≠ 8 then
    .error (.readError ("Invalid raft log key length: " ++ toString key.length))
  else .ok (U64.ofBytesBE key)

def readMetaValue : Option PersistPayload :=
  s.db.get? .raftMeta key

def visitEntry (range : LogRange) (item : Bytes × PersistPayload) : Visit StorageFault KEntry :=
  match decodeEntryKey item.1 with
  | .error e => .fail e
  | .ok idx =>
    if !range.inStartBound idx then .skip
    else if !range.inEndBound idx then .stop
    else
      match deserialize .rocksDbLogEntry PersistValue.asLogEntry "raft log entry" item.2 with
      | .ok entry => .take entry
      | .error e => .fail e

def tryGetLogEntries (range : LogRange) : StorageResult (List KEntry) :=
  let items :=
    match range.startBound with
    | .included v | .excluded v => (s.db.cf .raftLogs).entriesFrom (entryKey v)
    | .unbounded => (s.db.cf .raftLogs).entries
  Visit.scanAll (visitEntry range) items

def getLogState : StorageResult LogState := do
  let last ← deserializeOption .rocksDbLogEntry PersistValue.asLogEntry "last raft log entry"
    ((s.db.cf .raftLogs).entries.getLast?.map Prod.snd)
  let lastPurgedLogId ← deserializeOption .rocksDbLastPurgedLogId PersistValue.asLogId
    "last purged log id" (s.readMetaValue metaLastPurged)
  match last.map KEntry.logId with
  | some id => return ⟨lastPurgedLogId,some id⟩
  | none => return ⟨lastPurgedLogId,lastPurgedLogId⟩

def readVote : StorageResult (Option Vote) :=
  deserializeOption .rocksDbVote PersistValue.asVote "vote" (s.readMetaValue metaVote)

def readCommitted : StorageResult (Option KLogId) :=
  deserializeOption .rocksDbCommittedLogId PersistValue.asLogId "committed log id"
    (s.readMetaValue metaCommitted)

def saveVote (vote : Vote) : StorageResult (List LogBatch) :=
  .ok [[.put .raftMeta metaVote (encodeWithHeader .rocksDbVote (.vote vote))]]

def saveCommitted (committed : Option KLogId) :
    StorageResult (List LogBatch) := do
  let current ← s.readCommitted
  return RaftLog.committedWrites
    (fun id => [.put .raftMeta metaCommitted (encodeWithHeader .rocksDbCommittedLogId (.logId id))])
    [.delete .raftMeta metaCommitted] current committed

def append (entries : List KEntry) : StorageResult (List LogBatch) :=
  .ok [entries.map fun e =>
    .put .raftLogs (entryKey e.logId.index) (encodeWithHeader .rocksDbLogEntry (.logEntry e))]

def truncate : StorageResult (List LogBatch) :=
  .ok [BatchOp.deleteKeys .raftLogs ((s.db.cf .raftLogs).entriesFrom (entryKey logId.index))]

def visitPurged (item : Bytes × PersistPayload) :
    Visit StorageFault (BatchOp LogColumnFamily Bytes PersistPayload) :=
  match decodeEntryKey item.1 with
  | .error e => .fail e
  | .ok idx => if logId.index < idx then .stop else .take (.delete .raftLogs item.1)

/-- The entries are deleted and the marker is written in one batch. -/
def purge : StorageResult (List LogBatch) := do
  let deletes ← Visit.scanAll (visitPurged logId) (s.db.cf .raftLogs).entries
  return [deletes ++
    [.put .raftMeta metaLastPurged (encodeWithHeader .rocksDbLastPurgedLogId (.logId logId))]]

def batches : LogCall → StorageResult (List LogBatch)
  | .append entries => append entries
  | .truncate logId => s.truncate logId
  | .purge logId => s.purge logId
  | .saveVote vote => saveVote vote
  | .saveCommitted committed => s.saveCommitted committed

def commit (batches : List LogBatch) : RocksDbLogStorage :=
  ⟨BatchOp.commitAll s.db batches⟩

def callUpTo (k : ℕ) (c : LogCall) : RocksDbLogStorage :=
  match s.batches c with
  | .ok bs => s.commit (bs.take k)
  | .error _ => s

def call (c : LogCall) : StorageResult Unit × RocksDbLogStorage :=
  match s.batches c with
  | .ok bs => (.ok (),s.commit bs)
  | .error e => (.error e,s)

theorem entryKey_strictMono : StrictMono entryKey := fun a b h => (U64.toBytesBE_lt_iff a b).mpr h

@[simp] theorem decodeEntryKey_entryKey (i : UInt64) : decodeEntryKey (entryKey i) = .ok i := by
  simp [decodeEntryKey,entryKey]

def entryValue (e : KEntry) : PersistPayload := encodeWithHeader .rocksDbLogEntry (.logEntry e)

structure Represents (s : RocksDbLogStorage) (l : RaftLog) : Prop where
  logs : s.db.cf .raftLogs = l.logs.rekey entryKey_strictMono entryValue
  lastPurged : s.readMetaValue metaLastPurged =
    l.lastPurged.map (fun id => encodeWithHeader .rocksDbLastPurgedLogId (.logId id))
  lastCommitted : s.readMetaValue metaCommitted =
    l.lastCommitted.map (fun id => encodeWithHeader .rocksDbCommittedLogId (.logId id))
  vote : s.readMetaValue metaVote =
    l.vote.map (fun v => encodeWithHeader .rocksDbVote (.vote v))

theorem create_represents : create.Represents RaftLog.empty := ⟨rfl,rfl,rfl,rfl⟩

variable {s : RocksDbLogStorage} {l : RaftLog}

theorem readCommitted_eq (h : s.Represents l) : s.readCommitted = .ok l.lastCommitted := by
  rw [readCommitted,h.lastCommitted]
  exact deserializeOption_encode PersistValue.asLogId_logId _ _

theorem readVote_eq (h : s.Represents l) : s.readVote = .ok l.vote := by
  rw [readVote,h.vote]
  exact deserializeOption_encode PersistValue.asVote_vote _ _

theorem getLogState_eq (h : s.Represents l) : s.getLogState = .ok l.logState := by
  have hlast : (s.db.cf .raftLogs).entries.getLast?.map snd = l.lastEntry.map entryValue := by
    rw [h.logs,entries_rekey,getLast?_map,lastEntry]
    cases l.logs.entries.getLast? <;> rfl
  have hentry : deserializeOption .rocksDbLogEntry PersistValue.asLogEntry "last raft log entry"
      (l.lastEntry.map entryValue) = .ok l.lastEntry :=
    deserializeOption_encode PersistValue.asLogEntry_logEntry _ _
  rw [getLogState,h.lastPurged,hlast,hentry,deserializeOption_encode PersistValue.asLogId_logId,logState]
  cases l.lastEntry <;> rfl

theorem represents_puts (h : s.Represents l) (entries : List KEntry) :
    Represents ⟨s.db.write (entries.map (fun e =>
      .put .raftLogs (entryKey e.logId.index) (entryValue e)))⟩ (l.call (.append entries)) := by
  induction entries generalizing s l with
  | nil => exact h
  | cons e es ih =>
    have hone : Represents ⟨s.db.put .raftLogs (entryKey e.logId.index) (entryValue e)⟩
        {l with logs := l.logs.insert e.logId.index e} := by
      refine ⟨?_,h.lastPurged,h.lastCommitted,h.vote⟩
      rw [KvDb.put_cf_self,h.logs,rekey_insert]
    exact ih hone

theorem readMetaValue_deletes (s : RocksDbLogStorage) (es : List (Bytes × PersistPayload)) (key : Bytes) :
    readMetaValue ⟨s.db.write (BatchOp.deleteKeys .raftLogs es)⟩ key = s.readMetaValue key := by
  rw [readMetaValue,BatchOp.get?_write,BatchOp.batchEffect_deleteKeys_of_ne (by decide)]
  rfl

theorem represents_deletes (h : s.Represents l) (p : UInt64 → Bool) (q : Bytes → Bool)
    (hkeys : ∀ k, (!q (entryKey k)) = p k) : Represents ⟨s.db.write (BatchOp.deleteKeys .raftLogs
      ((s.db.cf .raftLogs).entries.filter (fun e => q e.1)))⟩
        {l with logs := l.logs.filter (fun e => p e.1)} := by
  refine ⟨?_,?_,?_,?_⟩
  · rw [BatchOp.cf_write_deleteKeys s.db .raftLogs q,h.logs,
      rekey_filter entryKey_strictMono entryValue l.logs (q := fun k => !q k) hkeys]
  · exact (readMetaValue_deletes s _ _).trans h.lastPurged
  · exact (readMetaValue_deletes s _ _).trans h.lastCommitted
  · exact (readMetaValue_deletes s _ _).trans h.vote

theorem readMetaValue_put (s : RocksDbLogStorage) (key key' : Bytes) (value : PersistPayload) :
    readMetaValue ⟨s.db.put .raftMeta key value⟩ key' =
      if key' = key then some value else s.readMetaValue key' := by
  rw [readMetaValue,KvDb.get?_put]
  simp [readMetaValue]

theorem readMetaValue_delete (s : RocksDbLogStorage) (key key' : Bytes) :
    readMetaValue ⟨s.db.delete .raftMeta key⟩ key' =
      if key' = key then none else s.readMetaValue key' := by
  rw [readMetaValue,KvDb.get?_delete]
  simp [readMetaValue]

theorem represents_put_lastPurged (h : s.Represents l) (id : KLogId) :
    Represents ⟨s.db.put .raftMeta metaLastPurged
      (encodeWithHeader .rocksDbLastPurgedLogId (.logId id))⟩ {l with lastPurged := some id} := by
  refine ⟨(KvDb.put_cf_of_ne _ _ _ (by decide)).trans h.logs,?_,?_,?_⟩ <;> rw [readMetaValue_put]
  · exact if_pos rfl
  · exact (if_neg (by decide)).trans h.lastCommitted
  · exact (if_neg (by decide)).trans h.vote

theorem represents_put_committed (h : s.Represents l) (id : KLogId) :
    Represents ⟨s.db.put .raftMeta metaCommitted
      (encodeWithHeader .rocksDbCommittedLogId (.logId id))⟩ {l with lastCommitted := some id} := by
  refine ⟨(KvDb.put_cf_of_ne _ _ _ (by decide)).trans h.logs,?_,?_,?_⟩ <;> rw [readMetaValue_put]
  · exact (if_neg (by decide)).trans h.lastPurged
  · exact if_pos rfl
  · exact (if_neg (by decide)).trans h.vote

theorem visitPurged_entry (logId : KLogId) (i : UInt64) (v : PersistPayload) :
    visitPurged logId (entryKey i,v) =
      if logId.index < i then .stop else .take (.delete .raftLogs (entryKey i)) := by
  simp [visitPurged]

theorem scanAll_purged (h : s.Represents l) (logId : KLogId) :
    Visit.scanAll (visitPurged logId) (s.db.cf .raftLogs).entries = .ok (BatchOp.deleteKeys .raftLogs
        ((s.db.cf .raftLogs).entries.filter (fun e => e.1 ≤ entryKey logId.index))) := by
  refine Visit.scanAll_eq_filter ?_ ?_ ?_
  · intro item hitem hin
    rw [h.logs] at hitem
    obtain ⟨⟨i,e⟩,_,rfl⟩ := mem_map.mp hitem
    have hle := entryKey_strictMono.le_iff_le.mp (of_decide_eq_true hin)
    rw [map_apply,visitPurged_entry,if_neg (not_lt.mpr hle)]
  · intro item hitem hin
    rw [h.logs] at hitem
    obtain ⟨⟨i,e⟩,_,rfl⟩ := mem_map.mp hitem
    have hlt := entryKey_strictMono.lt_iff_lt.mp (not_le.mp (of_decide_eq_false hin))
    rw [map_apply,visitPurged_entry,if_pos hlt]
    exact Or.inr rfl
  · refine (s.db.cf .raftLogs).sorted.imp_of_mem ?_
    intro a b ha hb hab hstop
    rw [h.logs] at ha
    obtain ⟨⟨i,e⟩,_,rfl⟩ := mem_map.mp ha
    rw [map_apply,visitPurged_entry] at hstop
    split_ifs at hstop with hlt
    exact decide_eq_false (not_le.mpr ((entryKey_strictMono hlt).trans hab))

theorem represents_commit_single {l' : RaftLog} {b : LogBatch} (h : s.Represents l)
    (h' : Represents ⟨s.db.write b⟩ l') (k : ℕ) :
    (s.commit ([b].take k)).Represents (if k = 0 then l else l') := by
  cases k with
  | zero => exact h
  | succ k => simpa [commit] using h'

theorem saveCommitted_eq (h : s.Represents l) (committed : Option KLogId) :
    ∃ bs, s.saveCommitted committed = .ok bs ∧ bs.length ≤ 1 ∧ ∀ k, (s.commit (bs.take k)).Represents
        (if k = 0 then l else l.call (.saveCommitted committed)) := by
  rw [saveCommitted,readCommitted_eq h]
  refine ⟨_,rfl,committedWrites_take (R := fun bs l => (s.commit bs).Represents l) h ?_ ?_ committed⟩
  · exact represents_put_committed h
  · refine ⟨(KvDb.delete_cf_of_ne _ _ (by decide)).trans h.logs,?_,?_,?_⟩ <;>
      refine (readMetaValue_delete ..).trans ?_
    · exact (if_neg (by decide)).trans h.lastPurged
    · exact if_pos rfl
    · exact (if_neg (by decide)).trans h.vote

/-- Every call writes at most one batch, so it happens as a whole or not at all. -/
theorem batches_eq (h : s.Represents l) (c : LogCall) : ∃ bs, s.batches c = .ok bs ∧ bs.length ≤ 1 ∧
      ∀ k, (s.commit (bs.take k)).Represents (if k = 0 then l else l.call c) := by
  cases c with
  | append entries => exact ⟨_,rfl,le_rfl,represents_commit_single h (represents_puts h entries)⟩
  | truncate logId =>
    refine ⟨_,rfl,le_rfl,represents_commit_single h (represents_deletes h (· < logId.index)
      (entryKey logId.index ≤ ·) fun k => ?_)⟩
    rw [← decide_not]
    exact decide_eq_decide.mpr (not_le.trans entryKey_strictMono.lt_iff_lt)
  | purge logId =>
    refine ⟨_,by rw [batches,purge,scanAll_purged h]; rfl,le_rfl,represents_commit_single h ?_⟩
    rw [KvDb.write_append]
    refine represents_put_lastPurged (represents_deletes h (logId.index < ·)
      (· ≤ entryKey logId.index) fun k => ?_) logId
    rw [← decide_not]
    exact decide_eq_decide.mpr (not_le.trans entryKey_strictMono.lt_iff_lt)
  | saveVote vote =>
    refine ⟨_,rfl,le_rfl,represents_commit_single h
      ⟨(KvDb.put_cf_of_ne _ _ _ (by decide)).trans h.logs,?_,?_,?_⟩⟩ <;>
      refine (readMetaValue_put ..).trans ?_
    · exact (if_neg (by decide)).trans h.lastPurged
    · exact (if_neg (by decide)).trans h.lastCommitted
    · exact if_pos rfl
  | saveCommitted committed => exact saveCommitted_eq h committed

theorem call_represents (h : s.Represents l) (c : LogCall) :
    (s.call c).1 = .ok () ∧ (s.call c).2.Represents (l.call c) := by
  obtain ⟨bs,hbs,hlen,hk⟩ := batches_eq h c
  have hall := hk 1
  rw [take_of_length_le hlen] at hall
  rw [call,hbs]
  exact ⟨rfl,hall⟩

theorem visitEntry_entry (range : LogRange) (i : UInt64) (e : KEntry) :
    visitEntry range (entryKey i,entryValue e) =
      if !range.inStartBound i then .skip else if !range.inEndBound i then .stop else .take e := by
  have hdecode : deserialize .rocksDbLogEntry PersistValue.asLogEntry "raft log entry"
      (entryValue e) = .ok e := deserialize_encode (PersistValue.asLogEntry_logEntry e) _
  simp only [visitEntry,decodeEntryKey_entryKey,hdecode]

theorem scanAll_entries {range : LogRange} {seeked : UInt64 × KEntry → Bool}
    (hfrom : ∀ e, range.contains e.1 = true → seeked e = true) : Visit.scanAll (visitEntry range)
      ((l.logs.entries.filter seeked).map (Prod.map entryKey entryValue)) = .ok (l.entriesIn range) := by
  have hsame : (l.logs.entries.filter seeked).filter (fun e => range.contains e.1) =
      l.logs.entries.filter (fun e => range.contains e.1) := by
    rw [filter_filter]
    apply filter_congr
    intro e _
    cases hin : range.contains e.1 with
    | false => rfl
    | true => rw [hfrom e hin,Bool.and_self]
  rw [Visit.scanAll_map,entriesIn,← hsame]
  refine Visit.scanAll_eq_filter ?_ ?_ ?_
  · rintro ⟨i,e⟩ _ hin
    obtain ⟨hstart,hend⟩ := Bool.and_eq_true_iff.mp hin
    rw [map_apply,visitEntry_entry]
    simp [hstart,hend]
  · rintro ⟨i,e⟩ _ hout
    rw [map_apply,visitEntry_entry]
    cases hstart : range.inStartBound i with
    | false => exact Or.inl rfl
    | true =>
      have hend : range.inEndBound i = false := by simpa [LogRange.contains,hstart] using hout
      exact Or.inr (by simp [hend])
  · refine (l.logs.sorted.filter seeked).imp ?_
    rintro ⟨i,e⟩ ⟨j,e'⟩ hij hstop
    rw [map_apply,visitEntry_entry] at hstop
    have hend : range.inEndBound i = false := by
      split_ifs at hstop with hs he
      simpa using he
    have hpast : range.inEndBound j = false := range.inEndBound_mono hij.le hend
    simp [LogRange.contains,hpast]

theorem tryGetLogEntries_eq (h : s.Represents l) (range : LogRange) :
    s.tryGetLogEntries range = .ok (l.entriesIn range) := by
  have hseek (v : UInt64) : (s.db.cf .raftLogs).entriesFrom (entryKey v) =
      (l.logs.entries.filter (fun e => v ≤ e.1)).map (map entryKey entryValue) := by
    rw [entriesFrom,h.logs,entries_rekey,filter_map]
    congr 1
    apply filter_congr
    intro e _
    exact decide_eq_decide.mpr entryKey_strictMono.le_iff_le
  rcases range with ⟨start,stop⟩
  rw [tryGetLogEntries]
  cases start with
  | included v =>
    simp only [hseek]
    apply scanAll_entries
    intro e hin
    exact (Bool.and_eq_true_iff.mp hin).1
  | excluded v =>
    simp only [hseek]
    apply scanAll_entries
    intro e hin
    have hlt := of_decide_eq_true (Bool.and_eq_true_iff.mp hin).1
    exact decide_eq_true (le_of_lt hlt)
  | unbounded =>
    have hall : (s.db.cf .raftLogs).entries =
        (l.logs.entries.filter (fun _ => true)).map (map entryKey entryValue) := by
      rw [h.logs,entries_rekey,filter_true]
    simp only [hall]
    exact scanAll_entries (fun _ _ => rfl)

end RocksDbLogStorage
end BuckyOS.KLog
