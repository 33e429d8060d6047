import BuckyOS.KLog.Logs.Sqlite
import BuckyOS.KLog.Logs.RocksDb

/-! The raft logs that outlive the process, and what an interrupted call leaves of them. -/
namespace BuckyOS.KLog
open SqliteLogStorage RocksDbLogStorage

inductive DurableLog
  | sqlite (s : SqliteLogStorage)
  | rocksdb (s : RocksDbLogStorage)

namespace DurableLog
def tryGetLogEntries : DurableLog → LogRange → StorageResult (List KEntry)
  | .sqlite s, range | .rocksdb s, range => s.tryGetLogEntries range

def getLogState : DurableLog → StorageResult LogState
  | .sqlite s | .rocksdb s => s.getLogState

def call : DurableLog → LogCall → DurableLog
  | .sqlite s, c => .sqlite (s.call c).2
  | .rocksdb s, c => .rocksdb (s.call c).2

/-- Serve a call until the process stops after `k` writes, and reopen the storage. -/
def callUpTo (k : ℕ) : DurableLog → LogCall → DurableLog
  | .sqlite s, c => .sqlite (s.callUpTo k c)
  | .rocksdb s, c => .rocksdb (s.callUpTo k c)

def isSqlite : DurableLog → Bool
  | .sqlite _ => true
  | .rocksdb _ => false

def entries (d : DurableLog) : List KEntry :=
  match d.tryGetLogEntries .full with
  | .ok es => es
  | .error _ => []

def logState (d : DurableLog) : LogState :=
  match d.getLogState with
  | .ok st => st
  | .error _ => ⟨none,none⟩

def Represents : DurableLog → RaftLog → Prop
  | .sqlite s, l | .rocksdb s, l => s.Represents l

variable {d : DurableLog} {l : RaftLog}

section
variable (h : d.Represents l)
include h

theorem Represents.tryGetLogEntries (range : LogRange) :
    d.tryGetLogEntries range = .ok (l.entriesIn range) := by
  cases d with
  | sqlite s | rocksdb s => exact tryGetLogEntries_eq h range

theorem Represents.getLogState : d.getLogState = .ok l.logState := by
  cases d with
  | sqlite s | rocksdb s => exact getLogState_eq h

theorem Represents.entries : d.entries = l.logs.values := by
  rw [DurableLog.entries,h.tryGetLogEntries,RaftLog.entriesIn_full]

theorem Represents.logState : d.logState = l.logState := by rw [DurableLog.logState,h.getLogState]

theorem Represents.call (c : LogCall) : (d.call c).Represents l ∨ (d.call c).Represents (l.call c) := by
  cases d with
  | sqlite s =>
    by_cases hc : ∀ i ∈ c.indexes, i ≤ sqliteLogIndexMaxU64
    · exact .inr (SqliteLogStorage.call_represents h hc).2
    · obtain ⟨e,he⟩ := s.transactions_error hc
      left
      simp only [DurableLog.call,SqliteLogStorage.call,he]
      exact h
  | rocksdb s => exact .inr (RocksDbLogStorage.call_represents h c).2

/-- An interrupted call has no effect or its whole effect, but for a purge of SQLite that
stops between its two writes. -/
theorem Represents.callUpTo (k : ℕ) (c : LogCall) :
    (d.callUpTo k c).Represents l ∨ (d.callUpTo k c).Represents (l.call c) ∨
      ∃ logId, c = .purge logId ∧ k = 1 ∧ d.isSqlite = true ∧ logId.index ≤ sqliteLogIndexMaxU64 ∧
        (d.callUpTo k c).Represents (l.dropUpTo logId.index) := by
  cases d with
  | sqlite s =>
    by_cases hc : ∀ i ∈ c.indexes, i ≤ sqliteLogIndexMaxU64
    · obtain ⟨ts,hts,_,hk⟩ := transactions_eq h hc
      have hat : (DurableLog.callUpTo k (.sqlite s) c).Represents (l.callUpTo c k) := by
        simp only [DurableLog.callUpTo,SqliteLogStorage.callUpTo,hts]
        exact hk k
      rcases k with _ | _ | k
      · exact .inl hat
      · cases c with
        | purge logId =>
          exact .inr (.inr ⟨logId,rfl,rfl,rfl,hc logId.index (by simp [LogCall.indexes]),hat⟩)
        | _ => exact .inr (.inl hat)
      · exact .inr (.inl hat)
    · obtain ⟨e,he⟩ := s.transactions_error hc
      left
      simp only [DurableLog.callUpTo,SqliteLogStorage.callUpTo,he]
      exact h
  | rocksdb s =>
    obtain ⟨bs,hbs,_,hk⟩ := batches_eq h c
    have hat : (DurableLog.callUpTo k (.rocksdb s) c).Represents (if k = 0 then l else l.call c) := by
      simp only [DurableLog.callUpTo,RocksDbLogStorage.callUpTo,hbs]
      exact hk k
    cases k with
    | zero => exact .inl hat
    | succ k => exact .inr (.inl hat)

theorem Represents.callUpTo_torn (hsqlite : d.isSqlite = true) {logId : KLogId}
    (hid : logId.index ≤ sqliteLogIndexMaxU64) :
    (d.callUpTo 1 (.purge logId)).Represents (l.dropUpTo logId.index) := by
  cases d with
  | sqlite s =>
    have hc : ∀ i ∈ (LogCall.purge logId).indexes, i ≤ sqliteLogIndexMaxU64 := by
      intro i hi
      rwa [List.mem_singleton.mp hi]
    obtain ⟨ts,hts,_,hk⟩ := transactions_eq h hc
    simp only [DurableLog.callUpTo,SqliteLogStorage.callUpTo,hts]
    exact hk 1
  | rocksdb s => simp [isSqlite] at hsqlite

end

end DurableLog
end BuckyOS.KLog
