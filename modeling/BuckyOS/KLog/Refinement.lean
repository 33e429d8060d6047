import BuckyOS.KLog.Ledger
import BuckyOS.KLog.RocksDbView
import BuckyOS.KLog.StateMachine

/-! Both state stores, and the manager and the state machine over either of them,
refine the ledger. The only freedom the code has is which repetitions it recognises:
its request tables may forget, but what they remember is true. -/
namespace BuckyOS.KLog
open Option

namespace KLogStateStore
def contents : KLogStateStore → LogContents
  | .memory s => .sequence s.logs
  | .rocksDb s => .keyed (RocksDb.entryAt s.db)

def metaAt : KLogStateStore → String → Option KLogMetaEntry
  | .memory s => s.metas.get?
  | .rocksDb s => RocksDb.metaAt s.db

def recordedId : KLogStateStore → String → Option UInt64
  | .memory s, r => s.requestDedup.recordedId r
  | .rocksDb s, r => (RocksDb.dedupAt s.db r).map (·.logId)

def WellFormed : KLogStateStore → Prop
  | .memory s => ∀ key m, s.metas.get? key = some m → m.key = key
  | .rocksDb s => RocksDb.WellFormed s.db

/-- `b` holds the data of `a` and remembers no request that `a` does not. -/
structure Keeps (a b : KLogStateStore) : Prop where
  contents : b.contents = a.contents
  metaAt : b.metaAt = a.metaAt
  recordedId : ∀ r id, b.recordedId r = some id → a.recordedId r = some id
  wellFormed : b.WellFormed

variable {a : KLogStateStore} (h : a.WellFormed)
include h

theorem Keeps.refl : Keeps a a := ⟨rfl,rfl,fun _ _ hr => hr,h⟩

attribute [local simp] funext_iff contents

theorem saveNextLogId_keeps (n : UInt64) : ∃ b, a.saveNextLogId n = .ok b ∧ Keeps a b := by
  cases a with
  | memory s => exact ⟨_,rfl,⟨rfl,rfl,fun _ _ hr => hr,h⟩⟩
  | rocksDb s =>
    rw [saveNextLogId,RocksDb.saveNextLogId_eq h.typed]
    refine ⟨_,rfl,?_⟩
    split_ifs
    · exact ⟨by simp,funext (RocksDb.metaAt_persistNextLogId _ _),
        fun _ _ hr => by simpa [recordedId] using hr,h.putMetaKey (.nextLogId _)⟩
    · exact Keeps.refl h

theorem saveStateMachineMeta_keeps (m : KLogStateMachineMeta) : Keeps a (a.saveStateMachineMeta m) := by
  cases a with
  | memory s => exact ⟨rfl,rfl,fun _ _ hr => hr,h⟩
  | rocksDb s =>
    exact ⟨by simp [saveStateMachineMeta],funext (RocksDb.metaAt_saveStateMachineMeta _ _),
      fun _ _ hr => by simpa [recordedId,saveStateMachineMeta] using hr,h.putMetaKey (.stateMachineMeta _)⟩

theorem lookupRecentRequestId_keeps {r : String} (hr : normalizeRequestId (some r) = some r)
    (nowMs : UInt64) : ∃ found b, a.lookupRecentRequestId r nowMs = .ok (found,b) ∧ Keeps a b ∧
      ∀ id, found = some id → a.recordedId r = some id := by
  cases a with
  | memory s =>
    refine ⟨_,_,rfl,?_⟩
    simp only [MemoryStateStore.lookupRecentRequestId,hr]
    exact ⟨⟨rfl,rfl,fun _ _ => RequestDedupCache.recordedId_lookup r,h⟩,fun _ => RequestDedupCache.lookup_fst⟩
  | rocksDb s =>
    rw [lookupRecentRequestId,RocksDb.lookupRecentRequestId_eq h.typed hr]
    refine ⟨_,_,rfl,?_⟩
    cases hd : RocksDb.dedupAt s.db r with
    | none => exact ⟨Keeps.refl h,by simp⟩
    | some d =>
      simp only
      split_ifs
      · refine ⟨⟨by simp,funext (fun _ => by simp [metaAt]),?_,h.deleteMetaKey _⟩,by simp⟩
        intro q id hq
        simp only [recordedId,RocksDb.dedupAt_deleteDedup] at hq ⊢
        split_ifs at hq
        · simp at hq
        · exact hq
      · exact ⟨Keeps.refl h,by simp [recordedId,hd]⟩

theorem append_spec (item : KLogEntry) (nowMs : UInt64) :
    (a.append [item] nowMs).contents = a.contents.store item ∧ (a.append [item] nowMs).metaAt = a.metaAt ∧
    (∀ r id, (a.append [item] nowMs).recordedId r = some id →
      if item.dedupKey = some r then id = item.id else a.recordedId r = some id) ∧
    (a.append [item] nowMs).WellFormed := by
  cases a with
  | memory s =>
    refine ⟨rfl,rfl,?_,h⟩
    intro r id hr
    exact RequestDedupCache.recordedId_rememberPairs hr
  | rocksDb s =>
    refine ⟨?_,funext (RocksDb.metaAt_append _ _ _),?_,h.appendOne item nowMs⟩
    · simp only [contents,append,LogContents.store,LogContents.keyed.injEq]
      exact RocksDb.entryAt_append _ _ _
    · intro r id hr
      simp only [recordedId,append,RocksDb.dedupAt_append] at hr ⊢
      split_ifs at hr ⊢ with hkey
      · exact (some.inj hr).symm
      · exact hr

theorem putMeta_spec (item : KLogMetaEntry) : ∃ b,
    a.putMeta item = .ok ({ item with revision := nextRevision (a.metaAt item.key) },b) ∧
    b.contents = a.contents ∧ b.metaAt = Function.update a.metaAt item.key
      (some { item with revision := nextRevision (a.metaAt item.key) }) ∧
    (∀ r, b.recordedId r = a.recordedId r) ∧ b.WellFormed := by
  cases a with
  | memory s =>
    refine ⟨_,rfl,rfl,?_,fun _ => rfl,?_⟩
    · funext key
      simp only [metaAt,MemoryStateStore.putMeta,OrderedMap.get?_insert,Function.update_apply]
      rfl
    · intro key m hm
      simp only [MemoryStateStore.putMeta,OrderedMap.get?_insert] at hm
      split_ifs at hm with hkey
      · rw [← some.inj hm,hkey]
      · exact h key m hm
  | rocksDb s =>
    rw [putMeta,RocksDb.putMeta_eq h.typed]
    refine ⟨_,rfl,by simp,?_,fun r => by simp [recordedId],h.putMetaKey
        (.dataMeta { item with revision := nextRevision (RocksDb.metaAt s.db item.key) })⟩
    funext key
    rw [Function.update_apply]
    exact RocksDb.metaAt_putDataMeta { item with revision := nextRevision (RocksDb.metaAt s.db item.key) } key

theorem getMeta_spec (key : String) : a.getMeta key = .ok ((a.contents.readKey key).bind a.metaAt) := by
  cases a with
  | memory s => rfl
  | rocksDb s => exact RocksDb.getMeta_eq h.typed key

theorem deleteMeta_spec (key : String) : ∃ b,
    a.deleteMeta key = .ok ((a.contents.readKey key).bind a.metaAt,b) ∧ b.contents = a.contents ∧
    b.metaAt = (match a.contents.readKey key with
      | none => a.metaAt
      | some k => Function.update a.metaAt k none) ∧
    (∀ r, b.recordedId r = a.recordedId r) ∧ b.WellFormed := by
  cases a with
  | memory s =>
    refine ⟨_,rfl,rfl,?_,fun _ => rfl,?_⟩
    · funext k
      simp only [metaAt,MemoryStateStore.deleteMeta,OrderedMap.get?_erase,contents,
        LogContents.readKey,Function.update_apply]
    · intro k m hm
      simp only [MemoryStateStore.deleteMeta,OrderedMap.get?_erase] at hm
      split_ifs at hm
      exact h k m hm
  | rocksDb s =>
    rw [deleteMeta,RocksDb.deleteMeta_eq h.typed]
    simp only [contents,LogContents.readKey]
    cases hkey : Text.trimmed (some key) with
    | none => exact ⟨_,rfl,rfl,rfl,fun _ => rfl,h⟩
    | some k =>
      refine ⟨_,rfl,by simp,?_,fun r => by simp [recordedId],h.deleteMetaKey _⟩
      funext k'
      simp only [metaAt,Function.update_apply]
      exact RocksDb.metaAt_deleteDataMeta k k'

end KLogStateStore

namespace KLogStateStoreManager
/-- The manager holds the ledger's data, and every request its tables remember is known to
the ledger under the same id. -/
structure Refines (m : KLogStateStoreManager) (l : Ledger) : Prop where
  logs : m.stateStore.contents = l.logs
  metas : m.stateStore.metaAt = l.metas
  cached : ∀ r id, m.requestDedup.recordedId r = some id → l.known r = some id
  recorded : ∀ r id, m.stateStore.recordedId r = some id → l.known r = some id
  wellFormed : m.stateStore.WellFormed

variable (m : KLogStateStoreManager)

/-- Whether a request id is still remembered at a reading of the clock, by the cache or by
the store's table. -/
def remembers (requestId : String) (nowMs : UInt64) : Bool :=
  (m.requestDedup.lookup requestId nowMs).1.isSome ||
    match m.stateStore.lookupRecentRequestId requestId nowMs with
    | .ok (some _,_) => true
    | _ => false

def recognises (payload : EntryPayload) (clock : Readings) : Bool :=
  payload.dedupKey.any (fun r => m.remembers r clock.lookupAt)

theorem findRecentRequestId_isSome {r : String}
    (hr : normalizeRequestId (some r) = some r) (nowMs : UInt64) :
    (m.findRecentRequestId r nowMs).1.isSome = m.remembers r nowMs := by
  simp only [findRecentRequestId,hr,remembers]
  cases (m.requestDedup.lookup r nowMs).1 with
  | some id => rfl
  | none => rcases m.stateStore.lookupRecentRequestId r nowMs with _ | ⟨_ | _,_⟩ <;> rfl

section Refines
variable {m : KLogStateStoreManager} {l : Ledger} (h : m.Refines l)
include h

theorem Refines.of_keeps {b : KLogStateStore} (hb : m.stateStore.Keeps b) (n : UInt64) :
    Refines ⟨b,n,m.requestDedup⟩ l := ⟨hb.contents.trans h.logs,hb.metaAt.trans h.metas,h.cached,
    fun r id hr => h.recorded r id (hb.recordedId r id hr),hb.wellFormed⟩

theorem findRecentRequestId_refines {r : String} (hr : normalizeRequestId (some r) = some r)
    (nowMs : UInt64) : (m.findRecentRequestId r nowMs).2.Refines l ∧
      ∀ id, (m.findRecentRequestId r nowMs).1 = some id → l.known r = some id := by
  have hcleaned : Refines { m with requestDedup := (m.requestDedup.lookup r nowMs).2 } l :=
    ⟨h.logs,h.metas,fun q id hq => h.cached q id (RequestDedupCache.recordedId_lookup r hq),
      h.recorded,h.wellFormed⟩
  simp only [findRecentRequestId,hr]
  cases hcache : (m.requestDedup.lookup r nowMs).1 with
  | some id =>
    refine ⟨hcleaned,?_⟩
    intro id' hid
    rw [← some.inj hid]
    exact h.cached r id (RequestDedupCache.lookup_fst hcache)
  | none =>
    obtain ⟨found,b,hlookup,hb,hfound⟩ := m.stateStore.lookupRecentRequestId_keeps h.wellFormed hr nowMs
    simp only [hlookup]
    cases found with
    | none => exact ⟨hcleaned.of_keeps hb m.nextLogId,by simp⟩
    | some id =>
      have hknown := h.recorded r id (hfound id rfl)
      refine ⟨⟨hb.contents.trans h.logs,hb.metaAt.trans h.metas,?_,
        fun q id' hq => h.recorded q id' (hb.recordedId q id' hq),hb.wellFormed⟩,by simpa using hknown⟩
      intro q id' hq
      have hrem := RequestDedupCache.recordedId_remember hq
      split_ifs at hrem with heq
      · rw [heq,hrem,hknown]
      · exact hcleaned.cached q id' hrem

end Refines

variable {m : KLogStateStoreManager} {l : Ledger}

theorem appendFresh_refines (h : m.Refines l) (item : KLogEntry) (clock : Readings) :
    (m.appendFresh item clock).1 = .ok item.id ∧ (m.appendFresh item clock).2.Refines (l.store item) := by
  obtain ⟨hcontents,hmetas,hrecorded,hwf⟩ := m.stateStore.append_spec h.wellFormed item clock.storeAt
  let stored : KLogStateStoreManager := { m with stateStore := m.stateStore.append [item] clock.storeAt }
  have hstored : ∀ n b, stored.stateStore.Keeps b →
      Refines ⟨b,n,m.requestDedup.rememberAll (requestIdPairs [item]) clock.rememberAt⟩ (l.store item) := by
    intro n b hb
    refine ⟨?_,?_,?_,?_,hb.wellFormed⟩
    · rw [hb.contents,hcontents,h.logs,Ledger.store]
    · rw [hb.metaAt,hmetas,h.metas,Ledger.store]
    · intro r id hr
      have hcache := RequestDedupCache.recordedId_rememberPairs hr
      rw [Ledger.known_store]
      split_ifs at hcache ⊢ with hkey
      · rw [hcache]
      · exact h.cached r id hcache
    · intro r id hr
      have hrec := hrecorded r id (hb.recordedId r id hr)
      rw [Ledger.known_store]
      split_ifs at hrec ⊢ with hkey
      · rw [hrec]
      · exact h.recorded r id hrec
  simp only [appendFresh,append,advanceNextLogId]
  split_ifs with hzero hlt
  · exact ⟨rfl,hstored _ _ (KLogStateStore.Keeps.refl hwf)⟩
  · obtain ⟨b,hsave,hb⟩ := stored.stateStore.saveNextLogId_keeps hwf ((nextAfter [item]).getD 0)
    simp only [stored] at hsave
    simp only [hsave,true_and]
    exact hstored _ _ hb
  · exact ⟨rfl,hstored _ _ (KLogStateStore.Keeps.refl hwf)⟩

theorem appendPreparedEntry_refines (h : m.Refines l) (item : KLogEntry) (clock : Readings) :
    let repetition := m.recognises (.normal (.appendLog item)) clock
    processRequest m (.appendLog item) clock =
        ((l.request (.appendLog item) repetition).1,(m.appendPreparedEntry item clock).2) ∧
      (m.appendPreparedEntry item clock).2.Refines (l.request (.appendLog item) repetition).2 := by
  simp only [processRequest,appendPreparedEntry,Ledger.request,recognises,EntryPayload.dedupKey]
  cases hkey : item.dedupKey with
  | none =>
    rw [KLogEntry.dedupKey] at hkey
    obtain ⟨hok,hnext⟩ := appendFresh_refines h item clock
    simp only [hkey]
    rw [← Prod.eta (m.appendFresh item clock),hok]
    exact ⟨rfl,hnext⟩
  | some r =>
    rw [KLogEntry.dedupKey] at hkey
    have hr := normalizeRequestId_normalized hkey
    obtain ⟨hfind,hknown⟩ := findRecentRequestId_refines h hr clock.lookupAt
    have hrep := findRecentRequestId_isSome m hr clock.lookupAt
    simp only [hkey,any_some,← hrep]
    rcases hm : m.findRecentRequestId r clock.lookupAt with ⟨_ | id,m'⟩
    · rw [hm] at hfind
      obtain ⟨hok,hnext⟩ := appendFresh_refines hfind item clock
      simp only
      rw [← Prod.eta (m'.appendFresh item clock),hok]
      exact ⟨rfl,hnext⟩
    · rw [hm] at hfind hknown
      have hid := hknown id rfl
      simp only [isSome_some,hid,getD_some]
      exact ⟨trivial,hfind⟩

theorem putMeta_refines (h : m.Refines l) (item : KLogMetaEntry) (expectedRevision : Option UInt64)
    (clock : Readings) (repetition : Bool) : (processRequest m (.putMeta item expectedRevision) clock).1 =
        (l.request (.putMeta item expectedRevision) repetition).1 ∧
      (processRequest m (.putMeta item expectedRevision) clock).2.Refines
        (l.request (.putMeta item expectedRevision) repetition).2 := by
  obtain ⟨b,hput,hcontents,hmetas,hrecorded,hwf⟩ := m.stateStore.putMeta_spec h.wellFormed item
  have hget := m.stateStore.getMeta_spec h.wellFormed item.key
  rw [h.logs,h.metas] at hget
  rw [h.metas] at hput hmetas
  have hstored : Refines { m with stateStore := b } (l.putMeta item) :=
    ⟨hcontents.trans h.logs,hmetas,h.cached,fun r id hr => h.recorded r id (hrecorded r ▸ hr),hwf⟩
  simp only [processRequest,putMetaEntryWithExpectedRevision,Ledger.request]
  cases expectedRevision with
  | none =>
    simp only [hput,revisionMatches,all_none,if_true]
    exact ⟨trivial,hstored⟩
  | some expected =>
    have hmatch : (if expected = 0 then (l.current item.key).isNone
        else (l.current item.key).map (·.revision) == some expected) =
        revisionMatches (some expected) (l.current item.key) := rfl
    rw [show (l.logs.readKey item.key).bind l.metas = l.current item.key from rfl] at hget
    simp only [hget,hmatch]
    cases revisionMatches (some expected) (l.current item.key) with
    | true =>
      simp only [hput,if_true]
      exact ⟨trivial,hstored⟩
    | false => exact ⟨rfl,h⟩

theorem deleteMeta_refines (h : m.Refines l) (key : String) (clock : Readings) (repetition : Bool) :
    (processRequest m (.deleteMeta key) clock).1 = (l.request (.deleteMeta key) repetition).1 ∧
      (processRequest m (.deleteMeta key) clock).2.Refines (l.request (.deleteMeta key) repetition).2 := by
  obtain ⟨b,hdel,hcontents,hmetas,hrecorded,hwf⟩ := m.stateStore.deleteMeta_spec h.wellFormed key
  rw [h.logs,h.metas] at hdel hmetas
  simp only [processRequest,deleteMetaKey,hdel,Ledger.request]
  exact ⟨rfl,hcontents.trans h.logs,hmetas,h.cached,fun r id hr => h.recorded r id (hrecorded r ▸ hr),hwf⟩

/-- Every request is answered as the ledger answers it, given whether the manager
recognises it as a repetition. -/
theorem processRequest_refines (h : m.Refines l) (req : KLogRequest) (clock : Readings) :
    (processRequest m req clock).1 = (l.request req (m.recognises (.normal req) clock)).1 ∧
      (processRequest m req clock).2.Refines (l.request req (m.recognises (.normal req) clock)).2 := by
  cases req with
  | appendLog item =>
    obtain ⟨hreply,hnext⟩ := appendPreparedEntry_refines h item clock
    rw [hreply]
    exact ⟨rfl,hnext⟩
  | putMeta item expectedRevision => exact putMeta_refines h item expectedRevision clock _
  | deleteMeta key => exact deleteMeta_refines h key clock _

end KLogStateStoreManager

namespace KLogStateMachine
def Refines (sm : KLogStateMachine) (l : Ledger) : Prop := sm.stateStore.Refines l

variable {sm : KLogStateMachine} {l : Ledger}

theorem applyEntry_refines (h : sm.Refines l) (x : TimedEntry) :
    let repetition := sm.stateStore.recognises x.entry.payload x.clock
    (sm.applyEntry x).1 = (l.step x.entry.payload repetition).1 ∧
      (sm.applyEntry x).2.Refines (l.step x.entry.payload repetition).2 := by
  simp only [applyEntry]
  rcases hp : x.entry.payload with _ | req | mem
  · exact ⟨rfl,h⟩
  · exact KLogStateStoreManager.processRequest_refines h req x.clock
  · exact ⟨rfl,h⟩

end KLogStateMachine
end BuckyOS.KLog
