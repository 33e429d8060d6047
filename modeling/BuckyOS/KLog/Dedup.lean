import BuckyOS.KLog.Types

/-! The request-id table: a map bounded in age and in size, with the queue that orders
its eviction. The manager keeps one in memory, and so does the memory store. -/
namespace BuckyOS.KLog
def requestDedupWindowMs : UInt64 := 5 * 60 * 1000

def requestDedupMaxItems : ℕ := 10000

def windowExpired (nowMs seenAtMs : UInt64) : Bool :=
  decide (requestDedupWindowMs < U64.saturatingSub nowMs seenAtMs)

structure RequestDedupRecord where
  logId : UInt64
  seenAtMs : UInt64
  deriving DecidableEq

structure RequestDedupCache where
  records : OrderedMap String RequestDedupRecord
  order : List (UInt64 × String)
  deriving DecidableEq

namespace RequestDedupCache
abbrev Records := OrderedMap String RequestDedupRecord

def empty : RequestDedupCache := ⟨OrderedMap.empty,[]⟩

def len (records : Records) : ℕ := records.entries.length

def evict (records : Records) (seenAtMs : UInt64) (requestId : String) : Records :=
  if (records.get? requestId).any (fun v => v.seenAtMs == seenAtMs) then
    records.erase requestId
  else
    records

def cleanupLoop (nowMs : UInt64) : List (UInt64 × String) → Records → RequestDedupCache
  | [], records => ⟨records,[]⟩
  | (seenAtMs,requestId) :: order, records =>
    if windowExpired nowMs seenAtMs || decide (requestDedupMaxItems < len records) then
      cleanupLoop nowMs order (evict records seenAtMs requestId)
    else
      ⟨records,(seenAtMs,requestId) :: order⟩

variable (c : RequestDedupCache) (requestId : String) (nowMs : UInt64)

def cleanup : RequestDedupCache :=
  cleanupLoop nowMs c.order c.records

def lookup :
    Option UInt64 × RequestDedupCache :=
  let c := c.cleanup nowMs
  ((c.records.get? requestId).map (·.logId),c)

def insertRecord (logId nowMs : UInt64) :
    RequestDedupCache :=
  ⟨c.records.insert requestId ⟨logId,nowMs⟩,c.order ++ [(nowMs,requestId)]⟩

def remember (logId nowMs : UInt64) :
    RequestDedupCache :=
  ((c.cleanup nowMs).insertRecord requestId logId nowMs).cleanup nowMs

def rememberAll (pairs : List (String × UInt64)) (nowMs : UInt64) :
    RequestDedupCache :=
  pairs.foldl (fun c p => c.remember p.1 p.2 nowMs) c

def recordedId : Option UInt64 :=
  (c.records.get? requestId).map (·.logId)

variable {requestId r : String} {v : RequestDedupRecord}

theorem get?_evict {records : Records} {seenAtMs : UInt64}
    (h : (evict records seenAtMs requestId).get? r = some v) : records.get? r = some v := by
  rw [evict] at h
  split_ifs at h with hrenewed
  · rw [OrderedMap.get?_erase] at h
    split_ifs at h
    exact h
  · exact h

variable {nowMs : UInt64}

theorem get?_cleanupLoop {order : List (UInt64 × String)} {records : Records}
    (h : (cleanupLoop nowMs order records).records.get? r = some v) : records.get? r = some v := by
  induction order generalizing records with
  | nil => exact h
  | cons item order ih =>
    rcases item with ⟨seenAtMs,requestId⟩
    rw [cleanupLoop] at h
    split_ifs at h with hpop
    · exact get?_evict (ih h)
    · exact h

variable {c : RequestDedupCache}

theorem get?_cleanup (h : (c.cleanup nowMs).records.get? r = some v) :
    c.records.get? r = some v := get?_cleanupLoop h

variable {id : UInt64}

theorem recordedId_cleanup (h : (c.cleanup nowMs).recordedId r = some id) : c.recordedId r = some id := by
  obtain ⟨v,hv,rfl⟩ := Option.map_eq_some_iff.mp h
  exact Option.map_eq_some_iff.mpr ⟨v,get?_cleanup hv,rfl⟩

theorem recordedId_remember {logId : UInt64}
    (h : (c.remember requestId logId nowMs).recordedId r = some id) :
    if r = requestId then id = logId else c.recordedId r = some id := by
  obtain ⟨v,hv,rfl⟩ := Option.map_eq_some_iff.mp h
  have hins := get?_cleanup hv
  rw [insertRecord,OrderedMap.get?_insert] at hins
  split_ifs at hins ⊢ with hr
  · rw [← Option.some.inj hins]
  · exact Option.map_eq_some_iff.mpr ⟨v,get?_cleanup hins,rfl⟩

theorem lookup_fst (h : (c.lookup r nowMs).1 = some id) : c.recordedId r = some id := recordedId_cleanup h

theorem recordedId_lookup (q : String) (h : (c.lookup q nowMs).2.recordedId r = some id) :
    c.recordedId r = some id := recordedId_cleanup h

end RequestDedupCache
end BuckyOS.KLog
