import BuckyOS.Lib.Machine
import BuckyOS.KLog.Logs.Memory
import BuckyOS.KLog.Logs.Sqlite
import BuckyOS.KLog.Logs.RocksDb

/-! The three raft log storages side by side: after any history of calls they answer every
read alike, but for one kind of range that the memory storage does not accept. -/
namespace BuckyOS.KLog
open Machine SqliteLogStorage RocksDbLogStorage
open Machine (run)

structure LogReport where
  logState : StorageResult LogState
  vote : StorageResult (Option Vote)
  committed : StorageResult (Option KLogId)

def MemoryLogStorage.report (m : MemoryLogStorage) : LogReport :=
  ⟨m.getLogState,m.readVote,m.readCommitted⟩

def SqliteLogStorage.report (s : SqliteLogStorage) : LogReport :=
  ⟨s.getLogState,s.readVote,s.readCommitted⟩

def RocksDbLogStorage.report (s : RocksDbLogStorage) : LogReport :=
  ⟨s.getLogState,s.readVote,s.readCommitted⟩

def RaftLog.report (l : RaftLog) : LogReport := ⟨.ok l.logState,.ok l.vote,.ok l.lastCommitted⟩

/-- The call names only indexes that fit an SQLite row number. -/
def LogCall.Fits (c : LogCall) : Prop := ∀ i ∈ c.indexes, i ≤ sqliteLogIndexMaxU64

instance (c : LogCall) : Decidable c.Fits := List.decidableBAll _ _

def RaftLog.serve (l : RaftLog) (c : LogCall) : StorageResult Unit × RaftLog := (.ok (),l.call c)

theorem MemoryLogStorage.report_eq {m : MemoryLogStorage} {l : RaftLog} (h : m.Represents l) :
    m.report = l.report := by
  rw [report,RaftLog.report,getLogState_eq h,readVote,readCommitted,h.vote,h.lastCommitted]

theorem SqliteLogStorage.report_eq {s : SqliteLogStorage} {l : RaftLog} (h : s.Represents l) :
    s.report = l.report := by
  rw [report,RaftLog.report,getLogState_eq h,readVote_eq h,readCommitted_eq h]

theorem RocksDbLogStorage.report_eq {s : RocksDbLogStorage} {l : RaftLog} (h : s.Represents l) :
    s.report = l.report := by
  rw [report,RaftLog.report,getLogState_eq h,readVote_eq h,readCommitted_eq h]

theorem LogCall.Fits.lt_maxValue {c : LogCall} (h : c.Fits) : ∀ i ∈ c.indexes, i < U64.maxValue :=
  fun i hi => (h i hi).trans_lt (by decide)

section History
variable {calls : List LogCall}

theorem memory_simulates (hcalls : ∀ c ∈ calls, c.Fits) : (run MemoryLogStorage.call .new calls).1 =
        (run RaftLog.serve .empty calls).1 ∧ (run MemoryLogStorage.call .new calls).2.Represents
        (run RaftLog.serve .empty calls).2 :=
  run_simulates (R := MemoryLogStorage.Represents) (P := LogCall.Fits)
    (fun _ _ c h hc => MemoryLogStorage.call_represents h c hc.lt_maxValue)
    MemoryLogStorage.new_represents hcalls

theorem sqlite_simulates (hcalls : ∀ c ∈ calls, c.Fits) : (run SqliteLogStorage.call .create calls).1 =
        (run RaftLog.serve .empty calls).1 ∧ (run SqliteLogStorage.call .create calls).2.Represents
        (run RaftLog.serve .empty calls).2 :=
  run_simulates (R := SqliteLogStorage.Represents) (P := LogCall.Fits)
    (fun _ _ _ h hc => call_represents h hc) create_represents hcalls

theorem rocksdb_simulates (calls : List LogCall) : (run RocksDbLogStorage.call .create calls).1 =
        (run RaftLog.serve .empty calls).1 ∧ (run RocksDbLogStorage.call .create calls).2.Represents
        (run RaftLog.serve .empty calls).2 :=
  run_simulates (R := RocksDbLogStorage.Represents) (P := fun _ => True)
    (fun _ _ c h _ => call_represents h c) create_represents (fun _ _ => trivial)

theorem RaftLog.call_lastCommitted {l : RaftLog} {c : LogCall} (hc : c ≠ .saveCommitted none)
    {cur : KLogId} (hcur : l.lastCommitted = some cur) :
    ∃ next, (l.call c).lastCommitted = some next ∧ cur ≤ next := by
  cases c with
  | saveCommitted committed =>
    cases committed with
    | none => exact absurd rfl hc
    | some new =>
      show ∃ next, nextCommitted l.lastCommitted (some new) = some next ∧ cur ≤ next
      rw [hcur]
      by_cases h : new < cur
      · exact ⟨cur,by simp [nextCommitted,h],le_rfl⟩
      · exact ⟨new,by simp [nextCommitted,h],not_lt.mp h⟩
  | _ => exact ⟨cur,hcur,le_rfl⟩

/-- After any history of calls the storages have answered alike and report alike, the
committed position moves backward by being cleared only, and a range read is answered alike
unless its bounds exclude one and the same index and the memory storage's map has a root. -/
theorem storages_agree_iff (hcalls : ∀ c ∈ calls, c.Fits) {range : LogRange}
    (hrange : range.inverted = false) :
    let memory := run MemoryLogStorage.call .new calls
    let sqlite := run SqliteLogStorage.call .create calls
    let rocksdb := run RocksDbLogStorage.call .create calls
    (memory.1 = sqlite.1 ∧ memory.1 = rocksdb.1) ∧
    (memory.2.report = sqlite.2.report ∧ memory.2.report = rocksdb.2.report) ∧
    (∀ c : LogCall, c.Fits → c ≠ .saveCommitted none →
      ∀ cur, memory.2.readCommitted = .ok (some cur) →
        ∃ next, (memory.2.call c).2.readCommitted = .ok (some next) ∧ cur ≤ next) ∧
    ((memory.2.tryGetLogEntries range = sqlite.2.tryGetLogEntries range ∧
        memory.2.tryGetLogEntries range = rocksdb.2.tryGetLogEntries range) ↔
      ¬ (memory.2.logs.rooted = true ∧ range.excludesOneIndex = true)) := by
  intro memory sqlite rocksdb
  obtain ⟨hm,hmrep⟩ := memory_simulates hcalls
  obtain ⟨hs,hsrep⟩ := sqlite_simulates hcalls
  obtain ⟨hr,hrrep⟩ := rocksdb_simulates calls
  refine ⟨⟨hm.trans hs.symm,hm.trans hr.symm⟩,⟨?_,?_⟩,?_,?_⟩
  · exact (MemoryLogStorage.report_eq hmrep).trans (SqliteLogStorage.report_eq hsrep).symm
  · exact (MemoryLogStorage.report_eq hmrep).trans (RocksDbLogStorage.report_eq hrrep).symm
  · intro c hfits hc cur hcur
    have hnow := (hmrep.lastCommitted).symm.trans (Except.ok.inj hcur)
    obtain ⟨next,hnext,hle⟩ := RaftLog.call_lastCommitted hc hnow
    have hcall := (MemoryLogStorage.call_represents hmrep c hfits.lt_maxValue).2
    exact ⟨next,congrArg Except.ok (hcall.lastCommitted.trans hnext),hle⟩
  · have hmread := MemoryLogStorage.tryGetLogEntries_eq hmrep hrange
    have hsread := SqliteLogStorage.tryGetLogEntries_eq hsrep range
    have hrread := RocksDbLogStorage.tryGetLogEntries_eq hrrep range
    rw [hmread,hsread,hrread,← Bool.and_eq_true]
    split_ifs with hpanics
    · constructor
      · rintro ⟨hcon,_⟩
        simp at hcon
      · intro hcon
        exact absurd hpanics hcon
    · exact ⟨fun _ => hpanics,fun _ => ⟨rfl,rfl⟩⟩

end History

def purgedHistory : List LogCall :=
  [.append [⟨⟨1,1,0⟩,.blank⟩,⟨⟨1,1,1⟩,.blank⟩],.saveCommitted (some ⟨1,1,0⟩),.purge ⟨1,1,0⟩]

theorem storages_agree_after_purge :
    (Machine.run MemoryLogStorage.call .new purgedHistory).2.tryGetLogEntries
        ⟨.excluded 0,.included 1⟩ =
      (Machine.run RocksDbLogStorage.call .create purgedHistory).2.tryGetLogEntries
        ⟨.excluded 0,.included 1⟩ :=
  ((@storages_agree_iff purgedHistory (by decide +kernel) ⟨.excluded 0,.included 1⟩ rfl).2.2.2.mpr
    (by decide)).2

/-- Bounds that both exclude index 0 panic in memory and select nothing elsewhere. -/
theorem memory_panics_on_excluded_index :
    (∀ c ∈ purgedHistory, c.Fits) ∧
    LogRange.inverted ⟨.excluded 0,.excluded 0⟩ = false ∧
    (Machine.run MemoryLogStorage.call .new purgedHistory).2.tryGetLogEntries
        ⟨.excluded 0,.excluded 0⟩ =
      .error (.panicked "range start and end are equal and excluded in BTreeMap") ∧
    (Machine.run SqliteLogStorage.call .create purgedHistory).2.tryGetLogEntries
        ⟨.excluded 0,.excluded 0⟩ = .ok [] ∧
    (Machine.run RocksDbLogStorage.call .create purgedHistory).2.tryGetLogEntries
        ⟨.excluded 0,.excluded 0⟩ = .ok [] :=
  ⟨by decide +kernel,rfl,rfl,rfl,rfl⟩

end BuckyOS.KLog
