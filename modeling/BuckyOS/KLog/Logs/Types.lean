import BuckyOS.KLog.Types

/-! What the raft log storages share: votes, ranges of indexes, the calls raft makes, the
tagged payloads that are persisted, and the raft log they are all meant to keep. -/
namespace BuckyOS.KLog
namespace KLogId
def rank (id : KLogId) : UInt64 ×ₗ UInt64 ×ₗ UInt64 := toLex (id.term,toLex (id.nodeId,id.index))

theorem rank_injective : Function.Injective rank := by
  rintro ⟨t,n,i⟩ ⟨t',n',i'⟩ h
  obtain ⟨rfl,h'⟩ := Prod.ext_iff.mp (toLex.injective h)
  obtain ⟨rfl,rfl⟩ := Prod.ext_iff.mp (toLex.injective h')
  rfl

instance : LinearOrder KLogId := LinearOrder.lift' rank rank_injective

end KLogId

structure Vote where
  term : UInt64
  nodeId : UInt64
  committed : Bool
  deriving DecidableEq

inductive StorageFault
  | readError (msg : String)
  | writeError (msg : String)
  | panicked (msg : String)
  deriving DecidableEq

abbrev StorageResult (α : Type) := Except StorageFault α

inductive PersistPayloadType
  | sqliteLogEntry | sqliteVote | sqliteCommittedLogId | sqliteLastPurgedLogId
  | rocksDbLogEntry | rocksDbVote | rocksDbCommittedLogId | rocksDbLastPurgedLogId
  deriving DecidableEq

def PersistPayloadType.name : PersistPayloadType → String
  | .sqliteLogEntry => "sqlite_log_entry"
  | .sqliteVote => "sqlite_vote"
  | .sqliteCommittedLogId => "sqlite_committed_log_id"
  | .sqliteLastPurgedLogId => "sqlite_last_purged_log_id"
  | .rocksDbLogEntry => "rocksdb_log_entry"
  | .rocksDbVote => "rocksdb_vote"
  | .rocksDbCommittedLogId => "rocksdb_committed_log_id"
  | .rocksDbLastPurgedLogId => "rocksdb_last_purged_log_id"

/-- The values that are persisted; their encoding is taken as exact. -/
inductive PersistValue
  | logEntry (e : KEntry)
  | vote (v : Vote)
  | logId (id : KLogId)
  deriving DecidableEq

namespace PersistValue
def asLogEntry : PersistValue → Option KEntry
  | .logEntry e => some e
  | _ => none

def asVote : PersistValue → Option Vote
  | .vote v => some v
  | _ => none

def asLogId : PersistValue → Option KLogId
  | .logId id => some id
  | _ => none

theorem asLogEntry_logEntry (e : KEntry) : asLogEntry (.logEntry e) = some e := rfl

theorem asVote_vote (v : Vote) : asVote (.vote v) = some v := rfl

theorem asLogId_logId (id : KLogId) : asLogId (.logId id) = some id := rfl

end PersistValue

structure PersistPayload where
  payloadType : PersistPayloadType
  value : PersistValue
  deriving DecidableEq

def encodeWithHeader (payloadType : PersistPayloadType) (value : PersistValue) : PersistPayload :=
  ⟨payloadType,value⟩

def decodeWithHeader {α : Type} (expectedType : PersistPayloadType)
    (read : PersistValue → Option α) (data : PersistPayload) : Except String α :=
  if data.payloadType ≠ expectedType then
    .error ("Unexpected payload type: expected=" ++ expectedType.name ++ ", actual=" ++
      data.payloadType.name)
  else
    match read data.value with
    | some v => .ok v
    | none => .error ("Failed to decode payload " ++ expectedType.name ++ ": unexpected value")

def deserialize {α : Type} (expectedType : PersistPayloadType) (read : PersistValue → Option α)
    (what : String) (data : PersistPayload) : StorageResult α :=
  match decodeWithHeader expectedType read data with
  | .ok v => .ok v
  | .error e => .error (.readError ("Failed to deserialize " ++ what ++ ": " ++ e))

variable {α : Type} {t : PersistPayloadType}

variable {read : PersistValue → Option α} {make : α → PersistValue}

@[simp] theorem deserialize_encode {value : PersistValue} {v : α}
    (h : read value = some v) (what : String) :
    deserialize t read what (encodeWithHeader t value) = .ok v := by
  simp [deserialize,decodeWithHeader,encodeWithHeader,h]

def deserializeOption {α : Type} (expectedType : PersistPayloadType)
    (read : PersistValue → Option α) (what : String) :
    Option PersistPayload → StorageResult (Option α)
  | some data => (deserialize expectedType read what data).map some
  | none => .ok none

@[simp] theorem deserializeOption_encode
    (h : ∀ v, read (make v) = some v) (what : String) (v : Option α) :
    deserializeOption t read what (v.map (fun v => encodeWithHeader t (make v))) = .ok v := by
  cases v with
  | none => rfl
  | some v =>
    simp only [Option.map_some,deserializeOption,deserialize_encode (h v)]
    rfl

theorem mapM_deserialize (h : ∀ v, read (make v) = some v) (what : String) (vs : List α) :
    (vs.map (fun v => encodeWithHeader t (make v))).mapM (deserialize t read what) = .ok vs := by
  induction vs with
  | nil => rfl
  | cons v vs ih =>
    simp only [List.map_cons,List.mapM_cons,deserialize_encode (h v),ih]
    rfl

inductive Bound
  | included (v : UInt64)
  | excluded (v : UInt64)
  | unbounded
  deriving DecidableEq

structure LogRange where
  startBound : Bound
  endBound : Bound
  deriving DecidableEq

namespace LogRange
def full : LogRange := ⟨.unbounded,.unbounded⟩

variable (range : LogRange) (idx : UInt64)

def inStartBound : Bool :=
  match range.startBound with
  | .included v => v ≤ idx
  | .excluded v => v < idx
  | .unbounded => true

def inEndBound : Bool :=
  match range.endBound with
  | .included v => idx ≤ v
  | .excluded v => idx < v
  | .unbounded => true

def contains : Bool :=
  range.inStartBound idx && range.inEndBound idx

theorem inEndBound_mono {i j : UInt64} (hij : i ≤ j)
    (h : range.inEndBound i = false) : range.inEndBound j = false := by
  rcases range with ⟨start,stop⟩
  cases stop with
  | included v => exact decide_eq_false (fun hj => of_decide_eq_false h (hij.trans hj))
  | excluded v => exact decide_eq_false (fun hj => of_decide_eq_false h (hij.trans_lt hj))
  | unbounded => simp [inEndBound] at h

def inverted : Bool :=
  match range.startBound, range.endBound with
  | .included s, .included e | .included s, .excluded e
  | .excluded s, .included e | .excluded s, .excluded e => e < s
  | _, _ => false

def excludesOneIndex : Bool :=
  match range.startBound, range.endBound with
  | .excluded s, .excluded e => s = e
  | _, _ => false

end LogRange

structure LogState where
  lastPurgedLogId : Option KLogId
  lastLogId : Option KLogId
  deriving DecidableEq

inductive LogCall
  | append (entries : List KEntry)
  | truncate (logId : KLogId)
  | purge (logId : KLogId)
  | saveVote (vote : Vote)
  | saveCommitted (committed : Option KLogId)
  deriving DecidableEq

def LogCall.indexes : LogCall → List UInt64
  | .append entries => entries.map (fun e => e.logId.index)
  | .truncate logId | .purge logId => [logId.index]
  | .saveVote _ | .saveCommitted _ => []

/-- The raft log: what every storage is meant to keep. -/
structure RaftLog where
  logs : OrderedMap UInt64 KEntry
  lastPurged : Option KLogId
  lastCommitted : Option KLogId
  vote : Option Vote
  deriving DecidableEq

namespace RaftLog
def empty : RaftLog := ⟨OrderedMap.empty,none,none,none⟩

def insertAll (logs : OrderedMap UInt64 KEntry) (entries : List KEntry) : OrderedMap UInt64 KEntry :=
  entries.foldl (fun logs e => logs.insert e.logId.index e) logs

variable (l : RaftLog) (i : UInt64)

def dropFrom : RaftLog :=
  {l with logs := l.logs.filter (fun e => e.1 < i)}

def dropUpTo : RaftLog :=
  {l with logs := l.logs.filter (fun e => i < e.1)}

def nextCommitted (current committed : Option KLogId) : Option KLogId :=
  match current, committed with
  | some cur, some new => if new < cur then some cur else some new
  | _, _ => committed

def committedWrites {ω : Type} (put : KLogId → ω) (clear : ω) (current committed : Option KLogId) :
    List ω :=
  if current = committed then []
  else
    match current, committed with
    | some cur, some new => if new < cur then [] else [put new]
    | none, some new => [put new]
    | _, none => [clear]

theorem committedWrites_take {ω : Type} {put : KLogId → ω} {clear : ω} {l : RaftLog}
    {R : List ω → RaftLog → Prop} (h : R [] l) (hput : ∀ id, R [put id] {l with lastCommitted := some id})
    (hclear : R [clear] {l with lastCommitted := none}) (committed : Option KLogId) :
    (committedWrites put clear l.lastCommitted committed).length ≤ 1 ∧
      ∀ k, R ((committedWrites put clear l.lastCommitted committed).take k) (if k = 0 then l
        else {l with lastCommitted := nextCommitted l.lastCommitted committed}) := by
  have hone : ∀ w l', R [w] l' → [w].length ≤ 1 ∧ ∀ k, R ([w].take k) (if k = 0 then l else l') := by
    intro w l' hw
    refine ⟨le_rfl,fun k => ?_⟩
    cases k with
    | zero => exact h
    | succ k => simpa using hw
  obtain ⟨logs,lastPurged,current,vote⟩ := l
  unfold committedWrites
  cases current with
  | none =>
    cases committed with
    | none => exact ⟨Nat.zero_le 1,fun k => by simpa [nextCommitted] using h⟩
    | some new => exact hone _ _ (hput new)
  | some cur =>
    cases committed with
    | none => exact hone _ _ hclear
    | some new =>
      by_cases hsame : cur = new
      · exact ⟨by simp [hsame],fun k => by simpa [nextCommitted,hsame] using h⟩
      · by_cases hlt : new < cur
        · exact ⟨by simp [hlt],fun k => by simpa [nextCommitted,hlt] using h⟩
        · simpa [nextCommitted,hsame,hlt] using hone _ _ (hput new)

def call (l : RaftLog) : LogCall → RaftLog
  | .append entries => {l with logs := insertAll l.logs entries}
  | .truncate logId => l.dropFrom logId.index
  | .purge logId => {l.dropUpTo logId.index with lastPurged := some logId}
  | .saveVote vote => {l with vote := some vote}
  | .saveCommitted committed =>
    {l with lastCommitted := nextCommitted l.lastCommitted committed}

/-- The log when a call stops after at most `k` writes, where a purge writes twice: it drops
the entries first and moves the purge marker after that. -/
def callUpTo (c : LogCall) : ℕ → RaftLog
  | 0 => l
  | 1 =>
    match c with
    | .purge logId => l.dropUpTo logId.index
    | _ => l.call c
  | _ + 2 => l.call c

def entriesIn (range : LogRange) : List KEntry :=
  (l.logs.entries.filter (fun e => range.contains e.1)).map Prod.snd

def lastEntry : Option KEntry := l.logs.entries.getLast?.map Prod.snd

def logState : LogState where
  lastPurgedLogId := l.lastPurged
  lastLogId := (l.lastEntry.map KEntry.logId).or l.lastPurged

def Keyed : Prop := ∀ i e, l.logs.get? i = some e → e.logId.index = i

theorem callUpTo_eq {l : RaftLog} {c : LogCall} (hone : l.callUpTo c 1 = l.call c) (k : ℕ) :
    l.callUpTo c k = if k = 0 then l else l.call c := by
  rcases k with _ | _ | k
  · rfl
  · exact hone
  · rfl

theorem get?_dropFrom (i k : UInt64) :
    (l.dropFrom i).logs.get? k = if k < i then l.logs.get? k else none := by
  simpa [dropFrom] using l.logs.get?_filter_key (fun k => decide (k < i)) k

theorem get?_dropUpTo (i k : UInt64) :
    (l.dropUpTo i).logs.get? k = if i < k then l.logs.get? k else none := by
  simpa [dropUpTo] using l.logs.get?_filter_key (fun k => decide (i < k)) k

@[simp] theorem entriesIn_full : l.entriesIn .full = l.logs.values := by
  have hall : ∀ e ∈ l.logs.entries, LogRange.full.contains e.1 = true := fun _ _ => rfl
  rw [entriesIn,List.filter_eq_self.mpr hall]
  rfl

end RaftLog
end BuckyOS.KLog
