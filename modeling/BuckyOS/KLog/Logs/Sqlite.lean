import BuckyOS.KLog.Logs.Types

/-! The raft log in SQLite: each call as the transactions it commits, in order, the range
queries it builds, and that it keeps the raft log for indexes SQLite can hold. -/
namespace BuckyOS.KLog
open List OrderedMap RaftLog

def metaVote : String := "vote"

def metaLastPurged : String := "last_purged"

def metaCommitted : String := "committed"

def sqliteLogIndexMaxU64 : UInt64 := 9223372036854775807

inductive SqlStatement
  | upsertLog (logIndex : ℤ) (entry : PersistPayload)
  | deleteLogsFrom (logIndex : ℤ)
  | deleteLogsUpTo (logIndex : ℤ)
  | upsertMeta (key : String) (value : PersistPayload)
  | deleteMeta (key : String)
  deriving DecidableEq

abbrev SqlTransaction := List SqlStatement

/-- One condition of a `WHERE` clause, with its parameter. -/
inductive SqlCondition
  | ge (param : ℤ)
  | gt (param : ℤ)
  | le (param : ℤ)
  | lt (param : ℤ)
  deriving DecidableEq

def SqlCondition.holds (logIndex : ℤ) : SqlCondition → Bool
  | .ge p => p ≤ logIndex
  | .gt p => p < logIndex
  | .le p => logIndex ≤ p
  | .lt p => logIndex < p

structure SqliteLogStorage where
  raftLogs : OrderedMap ℤ PersistPayload
  raftMeta : OrderedMap String PersistPayload

namespace SqliteLogStorage
def create : SqliteLogStorage := ⟨OrderedMap.empty,OrderedMap.empty⟩

variable (logId : KLogId) (s : SqliteLogStorage) (range : LogRange)

def execute : SqlStatement → SqliteLogStorage
  | .upsertLog i entry => {s with raftLogs := s.raftLogs.insert i entry}
  | .deleteLogsFrom i => {s with raftLogs := s.raftLogs.filter (fun r => ¬ i ≤ r.1)}
  | .deleteLogsUpTo i => {s with raftLogs := s.raftLogs.filter (fun r => ¬ r.1 ≤ i)}
  | .upsertMeta key value => {s with raftMeta := s.raftMeta.insert key value}
  | .deleteMeta key => {s with raftMeta := s.raftMeta.erase key}

def commit (transactions : List SqlTransaction) : SqliteLogStorage :=
  transactions.foldl (fun s t => t.foldl execute s) s

def u64ToI64 (v : UInt64) : StorageResult ℤ :=
  if v ≤ sqliteLogIndexMaxU64 then .ok v.toNat
  else .error (.writeError ("value " ++ toString v ++ " exceeds sqlite INTEGER range"))

def startConditions : Bound → StorageResult (Option (List SqlCondition))
  | .included v =>
    if sqliteLogIndexMaxU64 < v then .ok none
    else (u64ToI64 v).map (fun p => some [.ge p])
  | .excluded v =>
    if sqliteLogIndexMaxU64 ≤ v then .ok none
    else (u64ToI64 v).map (fun p => some [.gt p])
  | .unbounded => .ok (some [])

def endConditions : Bound → StorageResult (Option (List SqlCondition))
  | .included v =>
    if v ≤ sqliteLogIndexMaxU64 then (u64ToI64 v).map (fun p => some [.le p])
    else .ok (some [])
  | .excluded v =>
    if v = 0 then .ok none
    else if v ≤ sqliteLogIndexMaxU64 then (u64ToI64 v).map (fun p => some [.lt p])
    else .ok (some [])
  | .unbounded => .ok (some [])

/-- The conditions of the query for a range; none when no index can satisfy them. -/
def buildRangeQuery : StorageResult (Option (List SqlCondition)) := do
  match ← startConditions range.startBound with
  | none => return none
  | some start =>
    match ← endConditions range.endBound with
    | none => return none
    | some stop => return some (start ++ stop)

def selectEntries (conditions : List SqlCondition) : List PersistPayload :=
  (s.raftLogs.entries.filter (fun r => conditions.all (·.holds r.1))).map Prod.snd

def tryGetLogEntries : StorageResult (List KEntry) := do
  match ← buildRangeQuery range with
  | none => return []
  | some conditions =>
    if 2 < conditions.length then
      throw (.readError ("Unexpected sqlite range parameter count: " ++ toString conditions.length))
    (s.selectEntries conditions).mapM
      (deserialize .sqliteLogEntry PersistValue.asLogEntry "raft log entry")

def readMetaValue (key : String) : Option PersistPayload :=
  s.raftMeta.get? key

def getLogState : StorageResult LogState := do
  let last ← deserializeOption .sqliteLogEntry PersistValue.asLogEntry "last raft log entry"
    (s.raftLogs.entries.getLast?.map Prod.snd)
  let lastPurgedLogId ← deserializeOption .sqliteLastPurgedLogId PersistValue.asLogId
    "last purged log id" (s.readMetaValue metaLastPurged)
  match last.map KEntry.logId with
  | some id => return ⟨lastPurgedLogId,some id⟩
  | none => return ⟨lastPurgedLogId,lastPurgedLogId⟩

def readVote : StorageResult (Option Vote) :=
  deserializeOption .sqliteVote PersistValue.asVote "vote" (s.readMetaValue metaVote)

def readCommitted : StorageResult (Option KLogId) :=
  deserializeOption .sqliteCommittedLogId PersistValue.asLogId "committed log id"
    (s.readMetaValue metaCommitted)

def saveVote (vote : Vote) : StorageResult (List SqlTransaction) :=
  .ok [[.upsertMeta metaVote (encodeWithHeader .sqliteVote (.vote vote))]]

def saveCommitted (committed : Option KLogId) :
    StorageResult (List SqlTransaction) := do
  let current ← s.readCommitted
  return RaftLog.committedWrites
    (fun id => [.upsertMeta metaCommitted (encodeWithHeader .sqliteCommittedLogId (.logId id))])
    [.deleteMeta metaCommitted] current committed

def upsertEntry (e : KEntry) : StorageResult SqlStatement := do
  let idx ← u64ToI64 e.logId.index
  return .upsertLog idx (encodeWithHeader .sqliteLogEntry (.logEntry e))

/-- All rows are written in one transaction; an index out of range rolls it back. -/
def append (entries : List KEntry) : StorageResult (List SqlTransaction) := do
  let statements ← entries.mapM upsertEntry
  return [statements]

def truncate : StorageResult (List SqlTransaction) := do
  let idx ← u64ToI64 logId.index
  return [[.deleteLogsFrom idx]]

/-- The rows are deleted and the marker is written in two separate transactions. -/
def purge : StorageResult (List SqlTransaction) := do
  let idx ← u64ToI64 logId.index
  return [[.deleteLogsUpTo idx],
    [.upsertMeta metaLastPurged (encodeWithHeader .sqliteLastPurgedLogId (.logId logId))]]

def transactions : LogCall → StorageResult (List SqlTransaction)
  | .append entries => append entries
  | .truncate logId => truncate logId
  | .purge logId => purge logId
  | .saveVote vote => saveVote vote
  | .saveCommitted committed => s.saveCommitted committed

def callUpTo (k : ℕ) (c : LogCall) : SqliteLogStorage :=
  match s.transactions c with
  | .ok ts => s.commit (ts.take k)
  | .error _ => s

def call (c : LogCall) : StorageResult Unit × SqliteLogStorage :=
  match s.transactions c with
  | .ok ts => (.ok (),s.commit ts)
  | .error e => (.error e,s)

def rowOf (i : UInt64) : ℤ := i.toNat

theorem rowOf_strictMono : StrictMono rowOf := by
  intro a b h
  exact Int.ofNat_lt.mpr (UInt64.lt_iff_toNat_lt.mp h)

def entryRow (e : KEntry) : PersistPayload := encodeWithHeader .sqliteLogEntry (.logEntry e)

structure Represents (s : SqliteLogStorage) (l : RaftLog) : Prop where
  logs : s.raftLogs = l.logs.rekey rowOf_strictMono entryRow
  inRange : ∀ i e, l.logs.get? i = some e → i ≤ sqliteLogIndexMaxU64
  lastPurged : s.raftMeta.get? metaLastPurged =
    l.lastPurged.map (fun id => encodeWithHeader .sqliteLastPurgedLogId (.logId id))
  lastCommitted : s.raftMeta.get? metaCommitted =
    l.lastCommitted.map (fun id => encodeWithHeader .sqliteCommittedLogId (.logId id))
  vote : s.raftMeta.get? metaVote =
    l.vote.map (fun v => encodeWithHeader .sqliteVote (.vote v))

theorem create_represents : create.Represents RaftLog.empty :=
  ⟨rfl,fun _ _ h => by simp [RaftLog.empty] at h,rfl,rfl,rfl⟩

theorem u64ToI64_of_le {v : UInt64} (h : v ≤ sqliteLogIndexMaxU64) : u64ToI64 v = .ok (rowOf v) := if_pos h

variable {s : SqliteLogStorage} {l : RaftLog}

section
variable (h : s.Represents l)
include h

theorem readCommitted_eq : s.readCommitted = .ok l.lastCommitted := by
  rw [readCommitted,readMetaValue,h.lastCommitted]
  exact deserializeOption_encode PersistValue.asLogId_logId _ _

theorem readVote_eq : s.readVote = .ok l.vote := by
  rw [readVote,readMetaValue,h.vote]
  exact deserializeOption_encode PersistValue.asVote_vote _ _

theorem getLogState_eq : s.getLogState = .ok l.logState := by
  have hlast : s.raftLogs.entries.getLast?.map Prod.snd = l.lastEntry.map entryRow := by
    rw [h.logs,entries_rekey,getLast?_map,lastEntry]
    cases l.logs.entries.getLast? <;> rfl
  have hentry : deserializeOption .sqliteLogEntry PersistValue.asLogEntry "last raft log entry"
      (l.lastEntry.map entryRow) = .ok l.lastEntry :=
    deserializeOption_encode PersistValue.asLogEntry_logEntry _ _
  rw [getLogState,readMetaValue,h.lastPurged,hlast,hentry,
    deserializeOption_encode PersistValue.asLogId_logId,logState]
  cases l.lastEntry <;> rfl

theorem represents_deleteLogs {p : UInt64 → Bool} {q : ℤ → Bool} (hpq : ∀ k, q (rowOf k) = p k) :
    Represents {s with raftLogs := s.raftLogs.filter (fun r => q r.1)}
      {l with logs := l.logs.filter (fun e => p e.1)} := by
  refine ⟨?_,?_,h.lastPurged,h.lastCommitted,h.vote⟩
  · rw [h.logs,rekey_filter rowOf_strictMono entryRow l.logs hpq]
  · intro k e hk
    exact h.inRange k e ((get?_filter_eq_some _ _ _ _).mp hk).1

theorem represents_upserts {entries : List KEntry}
    (hin : ∀ e ∈ entries, e.logId.index ≤ sqliteLogIndexMaxU64) :
    ((entries.map (fun e => SqlStatement.upsertLog (rowOf e.logId.index) (entryRow e))).foldl
      execute s).Represents (l.call (.append entries)) := by
  induction entries generalizing s l with
  | nil => exact h
  | cons e es ih =>
    have hone : (s.execute (.upsertLog (rowOf e.logId.index) (entryRow e))).Represents
        {l with logs := l.logs.insert e.logId.index e} := by
      refine ⟨?_,?_,h.lastPurged,h.lastCommitted,h.vote⟩
      · rw [execute,h.logs,rekey_insert]
      · intro i e' hi
        rw [get?_insert] at hi
        split_ifs at hi with heq
        · exact heq ▸ hin e (by simp)
        · exact h.inRange i e' hi
    exact ih hone (fun e' he' => hin e' (mem_cons_of_mem e he'))

end

theorem mapM_upserts {entries : List KEntry}
    (hin : ∀ e ∈ entries, e.logId.index ≤ sqliteLogIndexMaxU64) : entries.mapM upsertEntry =
      .ok (entries.map (fun e => SqlStatement.upsertLog (rowOf e.logId.index) (entryRow e))) := by
  induction entries with
  | nil => rfl
  | cons e es ih =>
    rw [mapM_cons,upsertEntry,u64ToI64_of_le (hin e (by simp)),ih (fun e' he' => hin e' (mem_cons_of_mem e he'))]
    rfl

attribute [local simp] SqlCondition.holds LogCall.indexes

section
variable (h : s.Represents l)
include h

theorem represents_upsertMeta_lastPurged (id : KLogId) : (s.execute (.upsertMeta metaLastPurged
      (encodeWithHeader .sqliteLastPurgedLogId (.logId id)))).Represents {l with lastPurged := some id} := by
  refine ⟨h.logs,h.inRange,get?_insert_self _ _ _,?_,?_⟩
  · exact (get?_insert_of_ne _ _ (by decide)).trans h.lastCommitted
  · exact (get?_insert_of_ne _ _ (by decide)).trans h.vote

theorem represents_commit_single {l' : RaftLog} {t : SqlTransaction}
    (h' : (t.foldl execute s).Represents l') (k : ℕ) :
    (s.commit ([t].take k)).Represents (if k = 0 then l else l') := by
  cases k with
  | zero => exact h
  | succ k => simpa [commit] using h'

theorem saveCommitted_eq (committed : Option KLogId) :
    ∃ ts, s.saveCommitted committed = .ok ts ∧ ts.length ≤ 1 ∧ ∀ k, (s.commit (ts.take k)).Represents
        (if k = 0 then l else l.call (.saveCommitted committed)) := by
  rw [saveCommitted,readCommitted_eq h]
  refine ⟨_,rfl,committedWrites_take (R := fun ts l => (s.commit ts).Represents l) h ?_ ?_ committed⟩
  · intro id
    refine ⟨h.logs,h.inRange,?_,get?_insert_self _ _ _,?_⟩
    · exact (get?_insert_of_ne _ _ (by decide)).trans h.lastPurged
    · exact (get?_insert_of_ne _ _ (by decide)).trans h.vote
  · refine ⟨h.logs,h.inRange,?_,get?_erase_self _ _,?_⟩
    · exact (get?_erase_of_ne _ (by decide)).trans h.lastPurged
    · exact (get?_erase_of_ne _ (by decide)).trans h.vote

theorem transactions_eq {c : LogCall} (hc : ∀ i ∈ c.indexes, i ≤ sqliteLogIndexMaxU64) :
    ∃ ts, s.transactions c = .ok ts ∧ ts.length ≤ 2 ∧
      ∀ k, (s.commit (ts.take k)).Represents (l.callUpTo c k) := by
  cases c with
  | append entries =>
    have hin : ∀ e ∈ entries, e.logId.index ≤ sqliteLogIndexMaxU64 := fun e he => hc _ (mem_map_of_mem he)
    refine ⟨[entries.map (fun e => .upsertLog (rowOf e.logId.index) (entryRow e))],?_,by simp,?_⟩
    · rw [transactions,append,mapM_upserts hin]
      rfl
    · intro k
      rw [callUpTo_eq rfl]
      exact represents_commit_single h (represents_upserts h hin) k
  | truncate logId =>
    refine ⟨[[.deleteLogsFrom (rowOf logId.index)]],?_,by simp,?_⟩
    · rw [transactions,truncate,u64ToI64_of_le (hc _ (by simp))]
      rfl
    · intro k
      rw [callUpTo_eq rfl]
      refine represents_commit_single h ?_ k
      exact represents_deleteLogs h (p := (· < logId.index)) (q := fun r => ¬ rowOf logId.index ≤ r)
        fun k => decide_eq_decide.mpr (not_le.trans rowOf_strictMono.lt_iff_lt)
  | purge logId =>
    have hdropped : (s.execute (.deleteLogsUpTo (rowOf logId.index))).Represents (l.dropUpTo logId.index) :=
      represents_deleteLogs h (p := (logId.index < ·)) (q := fun r => ¬ r ≤ rowOf logId.index)
        fun k => decide_eq_decide.mpr (not_le.trans rowOf_strictMono.lt_iff_lt)
    have hmarked := represents_upsertMeta_lastPurged hdropped logId
    refine ⟨[[.deleteLogsUpTo (rowOf logId.index)],[.upsertMeta metaLastPurged
      (encodeWithHeader .sqliteLastPurgedLogId (.logId logId))]],?_,by simp,?_⟩
    · rw [transactions,purge,u64ToI64_of_le (hc _ (by simp))]
      rfl
    · intro k
      rcases k with _ | _ | k
      · exact h
      · exact hdropped
      · simpa [commit,RaftLog.callUpTo,RaftLog.call] using hmarked
  | saveVote vote =>
    refine ⟨_,rfl,by simp,?_⟩
    intro k
    rw [callUpTo_eq rfl]
    refine represents_commit_single h ?_ k
    refine ⟨h.logs,h.inRange,?_,?_,get?_insert_self _ _ _⟩
    · exact (get?_insert_of_ne _ _ (by decide)).trans h.lastPurged
    · exact (get?_insert_of_ne _ _ (by decide)).trans h.lastCommitted
  | saveCommitted committed =>
    obtain ⟨ts,hts,hlen,hk⟩ := saveCommitted_eq h committed
    refine ⟨ts,hts,hlen.trans one_le_two,?_⟩
    intro k
    rw [callUpTo_eq rfl]
    exact hk k

end

theorem mapM_error {α β : Type} {f : α → StorageResult β} {l : List α} {a : α} (ha : a ∈ l)
    (hf : ∃ e, f a = .error e) : ∃ e, l.mapM f = .error e := by
  induction l with
  | nil => simp at ha
  | cons b l ih =>
    rw [mapM_cons]
    cases hb : f b with
    | error e => exact ⟨e,rfl⟩
    | ok v =>
      rcases mem_cons.mp ha with rfl | ha
      · obtain ⟨e,he⟩ := hf
        rw [hb] at he
        simp at he
      · obtain ⟨e,he⟩ := ih ha
        exact ⟨e,by rw [he]; rfl⟩

theorem u64ToI64_error {v : UInt64} (h : ¬ v ≤ sqliteLogIndexMaxU64) : u64ToI64 v =
      .error (.writeError ("value " ++ toString v ++ " exceeds sqlite INTEGER range")) := if_neg h

theorem transactions_error (s : SqliteLogStorage) {c : LogCall}
    (hc : ¬ ∀ i ∈ c.indexes, i ≤ sqliteLogIndexMaxU64) : ∃ e, s.transactions c = .error e := by
  push Not at hc
  obtain ⟨i,hi,hbig⟩ := hc
  cases c with
  | append entries =>
    obtain ⟨entry,hentry,rfl⟩ := mem_map.mp hi
    obtain ⟨e,he⟩ := mapM_error hentry (f := upsertEntry)
      ⟨_,by rw [upsertEntry,u64ToI64_error (not_le.mpr hbig)]; rfl⟩
    exact ⟨e,by rw [transactions,append,he]; rfl⟩
  | truncate logId =>
    obtain rfl := mem_singleton.mp hi
    exact ⟨_,by rw [transactions,truncate,u64ToI64_error (not_le.mpr hbig)]; rfl⟩
  | purge logId =>
    obtain rfl := mem_singleton.mp hi
    exact ⟨_,by rw [transactions,purge,u64ToI64_error (not_le.mpr hbig)]; rfl⟩
  | saveVote vote | saveCommitted committed => simp at hi

theorem call_represents (h : s.Represents l) {c : LogCall}
    (hc : ∀ i ∈ c.indexes, i ≤ sqliteLogIndexMaxU64) :
    (s.call c).1 = .ok () ∧ (s.call c).2.Represents (l.call c) := by
  obtain ⟨ts,hts,hlen,hk⟩ := transactions_eq h hc
  have hall := hk 2
  rw [take_of_length_le hlen] at hall
  rw [call,hts]
  exact ⟨rfl,hall⟩

/-- Conditions that say of every index SQLite can hold whether a test accepts it; none if
it accepts no such index. -/
def Selects (accepts : UInt64 → Bool) : Option (List SqlCondition) → Prop
  | none => ∀ i ≤ sqliteLogIndexMaxU64, accepts i = false
  | some conditions =>
    ∀ i ≤ sqliteLogIndexMaxU64, conditions.all (·.holds (rowOf i)) = accepts i

variable (a b : UInt64) (range : LogRange)

theorem rowOf_le_iff : rowOf a ≤ rowOf b ↔ a ≤ b := rowOf_strictMono.le_iff_le

theorem rowOf_lt_iff : rowOf a < rowOf b ↔ a < b := rowOf_strictMono.lt_iff_lt

theorem startConditions_eq : ∃ start, startConditions range.startBound = .ok start ∧
      (∀ conditions, start = some conditions → conditions.length ≤ 1) ∧ Selects range.inStartBound start := by
  rcases range with ⟨bound,stop⟩
  cases bound with
  | included v =>
    by_cases hv : sqliteLogIndexMaxU64 < v
    · refine ⟨none,if_pos hv,by simp,?_⟩
      intro i hi
      exact decide_eq_false (not_le.mpr (hi.trans_lt hv))
    · refine ⟨some [.ge (rowOf v)],?_,by simp,?_⟩
      · rw [startConditions,if_neg hv,u64ToI64_of_le (not_lt.mp hv)]
        rfl
      · intro i _
        simp [rowOf_le_iff,LogRange.inStartBound]
  | excluded v =>
    by_cases hv : sqliteLogIndexMaxU64 ≤ v
    · refine ⟨none,if_pos hv,by simp,?_⟩
      intro i hi
      exact decide_eq_false (not_lt.mpr (hi.trans hv))
    · refine ⟨some [.gt (rowOf v)],?_,by simp,?_⟩
      · rw [startConditions,if_neg hv,u64ToI64_of_le (not_le.mp hv).le]
        rfl
      · intro i _
        simp [rowOf_lt_iff,LogRange.inStartBound]
  | unbounded => exact ⟨some [],rfl,by simp,fun _ _ => rfl⟩

theorem endConditions_eq : ∃ stop, endConditions range.endBound = .ok stop ∧
      (∀ conditions, stop = some conditions → conditions.length ≤ 1) ∧ Selects range.inEndBound stop := by
  rcases range with ⟨start,bound⟩
  cases bound with
  | included v =>
    by_cases hv : v ≤ sqliteLogIndexMaxU64
    · refine ⟨some [.le (rowOf v)],?_,by simp,?_⟩
      · rw [endConditions,if_pos hv,u64ToI64_of_le hv]
        rfl
      · intro i _
        simp [rowOf_le_iff,LogRange.inEndBound]
    · refine ⟨some [],if_neg hv,by simp,?_⟩
      intro i hi
      exact (decide_eq_true (hi.trans (not_le.mp hv).le)).symm
  | excluded v =>
    by_cases hzero : v = 0
    · refine ⟨none,if_pos hzero,by simp,?_⟩
      intro i _
      exact decide_eq_false (by rw [hzero]; exact UInt64.not_lt_zero)
    · by_cases hv : v ≤ sqliteLogIndexMaxU64
      · refine ⟨some [.lt (rowOf v)],?_,by simp,?_⟩
        · rw [endConditions,if_neg hzero,if_pos hv,u64ToI64_of_le hv]
          rfl
        · intro i _
          simp [rowOf_lt_iff,LogRange.inEndBound]
      · refine ⟨some [],(if_neg hzero).trans (if_neg hv),by simp,?_⟩
        intro i hi
        exact (decide_eq_true (hi.trans_lt (not_le.mp hv))).symm
  | unbounded => exact ⟨some [],rfl,by simp,fun _ _ => rfl⟩

theorem buildRangeQuery_eq : ∃ query, buildRangeQuery range = .ok query ∧
      (∀ conditions, query = some conditions → conditions.length ≤ 2) ∧ Selects range.contains query := by
  obtain ⟨start,hstart,hone,hin⟩ := startConditions_eq range
  obtain ⟨stop,hstop,hone',hin'⟩ := endConditions_eq range
  rw [buildRangeQuery,hstart]
  cases start with
  | none =>
    refine ⟨none,rfl,by simp,?_⟩
    intro i hi
    rw [LogRange.contains,hin i hi,Bool.false_and]
  | some cs =>
    cases stop with
    | none =>
      refine ⟨none,by rw [hstop]; rfl,by simp,?_⟩
      intro i hi
      rw [LogRange.contains,hin' i hi,Bool.and_false]
    | some cs' =>
      refine ⟨some (cs ++ cs'),by rw [hstop]; rfl,?_,?_⟩
      · intro conditions hconditions
        have hlen := hone cs rfl
        have hlen' := hone' cs' rfl
        rw [← Option.some.inj hconditions,length_append]
        omega
      · intro i hi
        rw [all_append,hin i hi,hin' i hi,LogRange.contains]

theorem selectEntries_eq (h : s.Represents l) {range : LogRange} {conditions : List SqlCondition}
    (hselects : Selects range.contains (some conditions)) :
    s.selectEntries conditions = (l.entriesIn range).map entryRow := by
  have hrows : (l.logs.entries.filter (fun e => conditions.all (·.holds (rowOf e.1)))) =
      l.logs.entries.filter (fun e => range.contains e.1) := by
    apply filter_congr
    rintro ⟨i,e⟩ he
    exact hselects i (h.inRange i e ((l.logs.mem_entries_iff i e).mp he))
  rw [selectEntries,h.logs,entries_rekey,filter_map,map_map,entriesIn,← hrows,map_map]
  rfl

theorem tryGetLogEntries_eq (h : s.Represents l) (range : LogRange) :
    s.tryGetLogEntries range = .ok (l.entriesIn range) := by
  obtain ⟨query,hquery,hlen,hselects⟩ := buildRangeQuery_eq range
  rw [tryGetLogEntries,hquery]
  cases query with
  | none =>
    have hnone : l.entriesIn range = [] := by
      rw [entriesIn,map_eq_nil_iff,filter_eq_nil_iff]
      rintro ⟨i,e⟩ he
      simp [hselects i (h.inRange i e ((l.logs.mem_entries_iff i e).mp he))]
    rw [hnone]
    rfl
  | some conditions =>
    have hdecode := mapM_deserialize (t := .sqliteLogEntry) PersistValue.asLogEntry_logEntry
      "raft log entry" (l.entriesIn range)
    simp only [bind,Except.bind,if_neg (not_lt.mpr (hlen conditions rfl)),selectEntries_eq h hselects]
    exact hdecode

end SqliteLogStorage
end BuckyOS.KLog
