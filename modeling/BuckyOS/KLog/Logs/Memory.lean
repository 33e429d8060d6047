import BuckyOS.KLog.Logs.Types

/-! The raft log in memory, over the standard library's ordered map, and that it keeps the
raft log. -/
namespace BuckyOS.KLog
/-- The standard library's `BTreeMap` of entries: its bindings, and whether it has a root
node. A map without one answers every range read with nothing, unchecked. -/
structure BTreeMap where
  bindings : OrderedMap UInt64 KEntry
  rooted : Bool

namespace BTreeMap
def new : BTreeMap := ⟨OrderedMap.empty,false⟩

def insert (m : BTreeMap) (k : UInt64) (e : KEntry) : BTreeMap := ⟨m.bindings.insert k e,true⟩

def splitOff (m : BTreeMap) (key : UInt64) : BTreeMap × BTreeMap :=
  if m.bindings.entries.isEmpty then (m,new)
  else (⟨m.bindings.filter (fun e => e.1 < key),true⟩,⟨m.bindings.filter (fun e => key ≤ e.1),true⟩)

def range (m : BTreeMap) (r : LogRange) : StorageResult (List (UInt64 × KEntry)) :=
  if m.rooted then
    if r.excludesOneIndex then
      .error (.panicked "range start and end are equal and excluded in BTreeMap")
    else if r.inverted then
      .error (.panicked "range start is greater than range end in BTreeMap")
    else .ok (m.bindings.entries.filter (fun e => r.contains e.1))
  else .ok []

end BTreeMap

structure MemoryLogState where
  lastPurged : Option KLogId
  lastApplied : Option KLogId
  lastCommitted : Option KLogId
  vote : Option Vote

def MemoryLogState.new : MemoryLogState := ⟨none,none,none,none⟩

structure MemoryLogStorage where
  state : MemoryLogState
  logs : BTreeMap

namespace MemoryLogStorage
def new : MemoryLogStorage := ⟨MemoryLogState.new,BTreeMap.new⟩

variable (m : MemoryLogStorage) (logId : KLogId)

def tryGetLogEntries (range : LogRange) : StorageResult (List KEntry) :=
  (m.logs.range range).map (List.map Prod.snd)

def getLogState : StorageResult LogState :=
  let lastLogId := m.logs.bindings.entries.getLast?.map (fun e => e.2.logId)
  let lastPurgedLogId := m.state.lastPurged
  let lastLogId :=
    match lastLogId with
    | some id => some id
    | none => lastPurgedLogId
  .ok ⟨lastPurgedLogId,lastLogId⟩

def saveVote (vote : Vote) : MemoryLogStorage :=
  {m with state := {m.state with vote := some vote}}

def readVote : StorageResult (Option Vote) := .ok m.state.vote

def saveCommitted (committed : Option KLogId) : MemoryLogStorage :=
  let store : MemoryLogStorage := {m with state := {m.state with lastCommitted := committed}}
  match m.state.lastCommitted, committed with
  | some cur, some new => if new < cur then m else store
  | _, _ => store

def readCommitted : StorageResult (Option KLogId) :=
  .ok m.state.lastCommitted

def append (entries : List KEntry) : MemoryLogStorage :=
  {m with logs := entries.foldl (fun logs e => logs.insert e.logId.index e) m.logs}

def truncate : MemoryLogStorage :=
  {m with logs := (m.logs.splitOff logId.index).1}

def purge : MemoryLogStorage where
  logs := (m.logs.splitOff (logId.index + 1)).2
  state := {m.state with lastPurged := some logId}

def call : LogCall → StorageResult Unit × MemoryLogStorage
  | .append entries => (.ok (),m.append entries)
  | .truncate logId => (.ok (),m.truncate logId)
  | .purge logId => (.ok (),m.purge logId)
  | .saveVote vote => (.ok (),m.saveVote vote)
  | .saveCommitted committed => (.ok (),m.saveCommitted committed)

structure Represents (m : MemoryLogStorage) (l : RaftLog) : Prop where
  logs : m.logs.bindings = l.logs
  unrooted : m.logs.rooted = false → l.logs = OrderedMap.empty
  lastPurged : m.state.lastPurged = l.lastPurged
  lastCommitted : m.state.lastCommitted = l.lastCommitted
  vote : m.state.vote = l.vote

theorem new_represents : new.Represents RaftLog.empty := ⟨rfl,fun _ => rfl,rfl,rfl,rfl⟩

variable {m : MemoryLogStorage} {l : RaftLog} (logs : BTreeMap) (key : UInt64)
    (entries : List KEntry)

theorem foldl_insert_bindings : (entries.foldl (fun logs e => logs.insert e.logId.index e) logs).bindings =
      RaftLog.insertAll logs.bindings entries := by
  induction entries generalizing logs with
  | nil => rfl
  | cons e es ih => exact ih _

theorem foldl_insert_rooted :
    (entries.foldl (fun logs e => logs.insert e.logId.index e) logs).rooted = false →
      logs.rooted = false ∧ entries = [] := by
  induction entries generalizing logs with
  | nil => exact fun h => ⟨h,rfl⟩
  | cons e es ih =>
    intro h
    exact absurd (ih _ h).1 (by simp [BTreeMap.insert])

theorem filter_eq_empty {logs : OrderedMap UInt64 KEntry} (h : logs.entries.isEmpty = true)
    (p : UInt64 × KEntry → Bool) : logs.filter p = OrderedMap.empty := by
  have hnil := List.isEmpty_iff.mp h
  simp only [OrderedMap.filter,hnil]
  rfl

theorem splitOff_fst_bindings :
    (logs.splitOff key).1.bindings = logs.bindings.filter (fun e => e.1 < key) := by
  rw [BTreeMap.splitOff]
  split_ifs with h
  · rw [filter_eq_empty h]
    exact OrderedMap.ext (fun k => by simp [OrderedMap.get?,List.isEmpty_iff.mp h])
  · rfl

theorem splitOff_snd_bindings :
    (logs.splitOff key).2.bindings = logs.bindings.filter (fun e => key ≤ e.1) := by
  rw [BTreeMap.splitOff]
  split_ifs with h
  · exact (filter_eq_empty h _).symm
  · rfl

theorem splitOff_rooted {logs : BTreeMap} {key : UInt64}
    (h : (logs.splitOff key).1.rooted = false ∨ (logs.splitOff key).2.rooted = false) :
    logs.bindings.entries.isEmpty = true := by
  by_contra hne
  simp [BTreeMap.splitOff,hne] at h

theorem succ_le_iff {i k : UInt64} (hi : i < U64.maxValue) : i + 1 ≤ k ↔ i < k := by
  have hmax := UInt64.lt_iff_toNat_lt.mp hi
  rw [U64.toNat_maxValue] at hmax
  rw [UInt64.le_iff_toNat_le,UInt64.lt_iff_toNat_lt,UInt64.toNat_add]
  simp only [UInt64.reduceToNat]
  omega

theorem saveCommitted_eq (m : MemoryLogStorage) (committed : Option KLogId) : m.saveCommitted committed =
      {m with state :=
        {m.state with lastCommitted := RaftLog.nextCommitted m.state.lastCommitted committed}} := by
  rcases m with ⟨⟨purged,applied,current,vote⟩,logs⟩
  cases current with
  | none => rfl
  | some cur =>
    cases committed with
    | none => rfl
    | some new =>
      simp only [saveCommitted,RaftLog.nextCommitted]
      split_ifs <;> rfl

theorem call_represents (h : m.Represents l) (c : LogCall) (hc : ∀ i ∈ c.indexes, i < U64.maxValue) :
    (m.call c).1 = .ok () ∧ (m.call c).2.Represents (l.call c) := by
  refine ⟨by cases c <;> rfl,?_⟩
  cases c with
  | append entries =>
    refine ⟨?_,?_,h.lastPurged,h.lastCommitted,h.vote⟩
    · rw [RaftLog.call,← h.logs]
      exact foldl_insert_bindings m.logs entries
    · intro hroot
      obtain ⟨hroot,rfl⟩ := foldl_insert_rooted m.logs entries hroot
      exact h.unrooted hroot
  | truncate logId =>
    refine ⟨?_,?_,h.lastPurged,h.lastCommitted,h.vote⟩
    · rw [RaftLog.call,RaftLog.dropFrom,← h.logs]
      exact splitOff_fst_bindings m.logs logId.index
    · intro hroot
      have hempty := splitOff_rooted (Or.inl hroot)
      rw [h.logs] at hempty
      exact filter_eq_empty hempty _
  | purge logId =>
    refine ⟨?_,?_,rfl,h.lastCommitted,h.vote⟩
    · have hindex := hc logId.index (by simp [LogCall.indexes])
      rw [RaftLog.call,RaftLog.dropUpTo,← h.logs]
      simp only [← succ_le_iff hindex]
      exact splitOff_snd_bindings m.logs (logId.index + 1)
    · intro hroot
      have hempty := splitOff_rooted (Or.inr hroot)
      rw [h.logs] at hempty
      exact filter_eq_empty hempty _
  | saveVote vote => exact ⟨h.logs,h.unrooted,h.lastPurged,h.lastCommitted,rfl⟩
  | saveCommitted committed =>
    rw [call,saveCommitted_eq,h.lastCommitted]
    exact ⟨h.logs,h.unrooted,h.lastPurged,rfl,h.vote⟩

theorem getLogState_eq (h : m.Represents l) : m.getLogState = .ok l.logState := by
  rw [getLogState,RaftLog.logState,RaftLog.lastEntry,h.logs,h.lastPurged]
  cases l.logs.entries.getLast? <;> rfl

/-- A read returns the entries of the range, unless the map has a root and the bounds exclude
one index or are inverted. -/
theorem tryGetLogEntries_eq (h : m.Represents l) {range : LogRange} (hrange : range.inverted = false) :
    m.tryGetLogEntries range =
      if m.logs.rooted && range.excludesOneIndex then
        .error (.panicked "range start and end are equal and excluded in BTreeMap")
      else .ok (l.entriesIn range) := by
  rw [tryGetLogEntries,BTreeMap.range,RaftLog.entriesIn,h.logs]
  cases hroot : m.logs.rooted with
  | false =>
    rw [h.unrooted hroot]
    rfl
  | true =>
    cases range.excludesOneIndex with
    | true => rfl
    | false => simp [hrange,Except.map]

end MemoryLogStorage
end BuckyOS.KLog
