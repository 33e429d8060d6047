import BuckyOS.KLog.Appends
import BuckyOS.KLog.Writes

/-! Several nodes that draw log ids from their own counters, one committed order, and each
node applying that order at its own pace. A counter is caught up only by applying, so a
node may draw an id that another node's append already carries. -/
namespace BuckyOS.KLog
open List Function Option

namespace KLogStateStoreManager
variable {m : KLogStateStoreManager} {l : Ledger}

theorem appendFresh_nextLogId (h : m.Refines l) (item : KLogEntry) (clock : Readings) :
    (m.appendFresh item clock).2.nextLogId = max m.nextLogId (U64.saturatingAdd item.id 1) := by
  have hwf := (m.stateStore.append_spec h.wellFormed item clock.storeAt).2.2.2
  have hnext : (nextAfter [item]).getD 0 = U64.saturatingAdd item.id 1 := rfl
  have hpos : U64.saturatingAdd item.id 1 ≠ 0 := by
    intro hzero
    have hval := U64.toNat_saturatingAdd item.id 1
    rw [hzero] at hval
    simp only [UInt64.toNat_zero,UInt64.toNat_one] at hval
    omega
  simp only [appendFresh,append,advanceNextLogId,hnext,hpos,if_false]
  split_ifs with hlt
  · obtain ⟨b,hsave,_⟩ := KLogStateStore.saveNextLogId_keeps hwf (U64.saturatingAdd item.id 1)
    simp only [hsave,rememberRequestIds]
    exact (max_eq_right hlt.le).symm
  · exact (max_eq_left (not_lt.mp hlt)).symm

theorem findRecentRequestId_nextLogId (m : KLogStateStoreManager) (r : String) (nowMs : UInt64) :
    (m.findRecentRequestId r nowMs).2.nextLogId = m.nextLogId := by
  unfold findRecentRequestId
  split
  · rfl
  · simp only
    split
    · rfl
    · split <;> rfl

theorem putMeta_nextLogId (m : KLogStateStoreManager) (item : KLogMetaEntry)
    (expectedRevision : Option UInt64) :
    (m.putMetaEntryWithExpectedRevision item expectedRevision).2.nextLogId = m.nextLogId := by
  unfold putMetaEntryWithExpectedRevision
  rcases m.stateStore.putMeta item with e | ⟨stored,store⟩ <;> cases expectedRevision with
  | none => rfl
  | some expected =>
    cases m.stateStore.getMeta item.key with
    | error e => rfl
    | ok current =>
      simp only
      generalize (if expected = 0 then _ else _ : Bool) = matched
      cases matched <;> rfl

theorem processRequest_nextLogId (h : m.Refines l) (req : KLogRequest) (clock : Readings) :
    (processRequest m req clock).2.nextLogId =
      (storedItem (.normal req,m.recognises (.normal req) clock)).elim m.nextLogId
        (fun item => max m.nextLogId (U64.saturatingAdd item.id 1)) := by
  cases req with
  | appendLog item =>
    rw [(appendPreparedEntry_refines h item clock).1]
    simp only [appendPreparedEntry]
    cases hkey : item.dedupKey with
    | none =>
      have hnone : normalizeRequestId item.requestId = none := hkey
      simpa [hnone,storedItem,recognises,EntryPayload.dedupKey,hkey,appendedItem] using
        appendFresh_nextLogId h item clock
    | some r =>
      have hsome : normalizeRequestId item.requestId = some r := hkey
      have hnorm := normalizeRequestId_normalized hsome
      have hfind := (findRecentRequestId_refines h hnorm clock.lookupAt).1
      have hsame := findRecentRequestId_nextLogId m r clock.lookupAt
      have hrep : m.recognises (.normal (.appendLog item)) clock =
          (m.findRecentRequestId r clock.lookupAt).1.isSome := by
        simp [recognises,EntryPayload.dedupKey,hkey,findRecentRequestId_isSome m hnorm]
      rw [hrep]
      rcases hm : m.findRecentRequestId r clock.lookupAt with ⟨_ | id,m'⟩
      · rw [hm] at hfind hsame
        simp only [hsome,hm]
        rw [appendFresh_nextLogId hfind item clock,hsame]
        rfl
      · rw [hm] at hsame
        simpa [hsome,hm,storedItem] using hsame
  | putMeta item expectedRevision =>
    have hnone : storedItem (.normal (.putMeta item expectedRevision),
        m.recognises (.normal (.putMeta item expectedRevision)) clock) = none := by
      simp [storedItem,appendedItem]
    rw [hnone,elim_none,← putMeta_nextLogId m item expectedRevision,processRequest]
    split <;> simp_all
  | deleteMeta key =>
    have hnone : storedItem (.normal (.deleteMeta key),
        m.recognises (.normal (.deleteMeta key)) clock) = none := by
      simp [storedItem,appendedItem]
    rw [hnone,elim_none]
    simp only [processRequest,deleteMetaKey]
    cases m.stateStore.deleteMeta key <;> rfl

end KLogStateStoreManager

namespace KLogStateMachine
theorem contents_of_overRocksDb {sm : KLogStateMachine} (hr : sm.OverRocksDb) :
    sm.stateStore.stateStore.contents = .keyed (RocksDb.entryAt sm.db) := by
  obtain ⟨s,hs⟩ := hr
  simp only [db,KLogStateStoreManager.db,hs]
  rfl

section
variable {sm : KLogStateMachine} (hs : sm.Sound) (hr : sm.OverRocksDb)
include hs hr

theorem entryAt_applyEntry (x : TimedEntry) : RocksDb.entryAt (sm.applyEntry x).2.db =
    (storedItem (x.entry.payload,sm.stateStore.recognises x.entry.payload x.clock)).elim
      (RocksDb.entryAt sm.db) (fun item => Function.update (RocksDb.entryAt sm.db) item.id (some item)) := by
  have hstart : sm.Refines sm.stateStore.ledger := hs.refines
  have hafter := contents_of_overRocksDb (applyEntry_writes hstart hr x).1
  have hlogs : sm.stateStore.ledger.logs = .keyed (RocksDb.entryAt sm.db) := contents_of_overRocksDb hr
  rw [(applyEntry_refines hstart x).2.logs,
    Ledger.step_logs (fun h : sm.stateStore.recognises _ _ = true => Option.isSome_of_any h),
    hlogs] at hafter
  cases hitem : storedItem (x.entry.payload,sm.stateStore.recognises x.entry.payload x.clock) with
  | none =>
    rw [hitem] at hafter
    exact (LogContents.keyed.inj hafter).symm
  | some item =>
    rw [hitem] at hafter
    exact (LogContents.keyed.inj hafter).symm

omit hr in
theorem applyEntry_nextLogId (x : TimedEntry) : (sm.applyEntry x).2.stateStore.nextLogId =
    (storedItem (x.entry.payload,sm.stateStore.recognises x.entry.payload x.clock)).elim
      sm.stateStore.nextLogId (fun item => max sm.stateStore.nextLogId (U64.saturatingAdd item.id 1)) := by
  have hstart : sm.Refines sm.stateStore.ledger := hs.refines
  simp only [applyEntry]
  rcases hp : x.entry.payload with _ | req | mem
  · simp [storedItem,appendedItem]
  · exact KLogStateStoreManager.processRequest_nextLogId hstart req x.clock
  · simp [storedItem,appendedItem]

end

structure Running (sm : KLogStateMachine) : Prop where
  sound : sm.Sound
  rocks : sm.OverRocksDb
  past : ∀ id e, RocksDb.entryAt sm.db id = some e → id < sm.stateStore.nextLogId

theorem lt_saturatingAdd_one {n : UInt64} (h : n < U64.maxValue) : n < U64.saturatingAdd n 1 := by
  rw [UInt64.lt_iff_toNat_lt,U64.toNat_saturatingAdd]
  rw [UInt64.lt_iff_toNat_lt,U64.toNat_maxValue] at h
  simp only [UInt64.toNat_one]
  omega

theorem Running.applyEntry {sm : KLogStateMachine} (h : sm.Running) {x : TimedEntry}
    (hid : ∀ item, x.entry.payload = .normal (.appendLog item) → item.id < U64.maxValue) :
    (sm.applyEntry x).2.Running ∧ sm.stateStore.nextLogId ≤ (sm.applyEntry x).2.stateStore.nextLogId := by
  have hstart : sm.Refines sm.stateStore.ledger := h.sound.refines
  have hnext := applyEntry_nextLogId h.sound x
  have hentry := entryAt_applyEntry h.sound h.rocks x
  have hgrows : sm.stateStore.nextLogId ≤ (sm.applyEntry x).2.stateStore.nextLogId := by
    rw [hnext]
    cases storedItem (x.entry.payload,sm.stateStore.recognises x.entry.payload x.clock) with
    | none => exact le_rfl
    | some item => exact le_max_left _ _
  refine ⟨⟨(applyEntry_refines hstart x).2.sound,(applyEntry_writes hstart h.rocks x).1,?_⟩,hgrows⟩
  intro id e he
  rw [hentry] at he
  cases hitem : storedItem (x.entry.payload,sm.stateStore.recognises x.entry.payload x.clock) with
  | none =>
    rw [hitem] at he
    exact (h.past id e he).trans_le hgrows
  | some item =>
    rw [hitem,elim_some] at he hnext
    by_cases hidEq : id = item.id
    · have hfresh : x.entry.payload = .normal (.appendLog item) := by
        rw [← appendedItem_eq_some]
        unfold storedItem at hitem
        split_ifs at hitem
        exact hitem
      rw [hnext,hidEq]
      exact (lt_saturatingAdd_one (hid item hfresh)).trans_le (le_max_right _ _)
    · rw [update_of_ne hidEq] at he
      exact (h.past id e he).trans_le hgrows

end KLogStateMachine
/-- Nodes with their state machines, proposals on their way, the committed order and how
much of it each node has applied. `committed` and `skipped` only record: the appends of the
order with their proposers, and those a node answered from its request records. -/
structure Cluster (ι : Type) where
  nodes : ι → KLogStateMachine
  inFlight : List (ι × KLogEntry)
  log : List KEntry
  applied : ι → ℕ
  committed : List (ι × KLogEntry)
  skipped : ι → List KLogEntry

/-- What can happen next: a node that takes itself for the leader proposes an append; a
proposal is committed or lost; another entry is committed; a node applies its next entry. -/
inductive ClusterStep (ι : Type)
  | propose (node : ι) (item : KLogEntry)
  | commit (position : ℕ) (logId : KLogId)
  | lose (position : ℕ)
  | commitOther (entry : KEntry)
  | apply (node : ι) (clock : Readings)

namespace Cluster
variable {ι : Type}

def step [DecidableEq ι] (c : Cluster ι) : ClusterStep ι → Option KLogResponse × Cluster ι
  | .propose i item =>
    let prepared := (c.nodes i).stateStore.prepareAppendEntry { item with id := 0 }
    (none,{ c with
      nodes := Function.update c.nodes i { c.nodes i with stateStore := prepared.2 }
      inFlight := (i,prepared.1) :: c.inFlight })
  | .commit position logId =>
    match c.inFlight[position]? with
    | none => (none,c)
    | some (i,item) => (none,{ c with
        inFlight := c.inFlight.eraseIdx position
        log := c.log ++ [⟨logId,.normal (.appendLog item)⟩]
        committed := c.committed ++ [(i,item)] })
  | .lose position => (none,{ c with inFlight := c.inFlight.eraseIdx position })
  | .commitOther entry =>
    if (appendedItem entry.payload).isSome then (none,c)
    else (none,{ c with log := c.log ++ [entry] })
  | .apply i clock =>
    match c.log[c.applied i]? with
    | none => (none,c)
    | some entry =>
      let r := (c.nodes i).applyEntry ⟨entry,clock⟩
      let hit := (c.nodes i).stateStore.recognises entry.payload clock
      (some r.1,{ c with
        nodes := Function.update c.nodes i r.2
        applied := Function.update c.applied i (c.applied i + 1)
        skipped := Function.update c.skipped i
          (if hit then (appendedItem entry.payload).toList ++ c.skipped i else c.skipped i) })

def issued (c : Cluster ι) : List (ι × KLogEntry) := c.inFlight ++ c.committed

/-- A node proposes only when its counter has room and every append that another node has
proposed and that is committed or on its way is in its own store. -/
def ProposesCaughtUp (c : Cluster ι) : ClusterStep ι → Prop
  | .propose i _ => (c.nodes i).stateStore.nextLogId < U64.maxValue ∧
      ∀ p ∈ c.issued, p.1 ≠ i → (RocksDb.entryAt (c.nodes i).db p.2.id).isSome
  | _ => True

instance (c : Cluster ι) [DecidableEq ι] : ∀ s, Decidable (c.ProposesCaughtUp s)
  | .propose i _ => inferInstanceAs (Decidable (_ < _ ∧ ∀ p ∈ c.issued, p.1 ≠ i → _ = true))
  | .commit _ _ | .lose _ | .commitOther _ | .apply _ _ => inferInstanceAs (Decidable True)

def appliedItems (c : Cluster ι) (n : ι) : List KLogEntry :=
  ((c.log.take (c.applied n)).map (·.payload)).filterMap appendedItem

structure Invariant (c : Cluster ι) : Prop where
  running : ∀ i, (c.nodes i).Running
  committed : (c.log.map (·.payload)).filterMap appendedItem = c.committed.map Prod.snd
  below : ∀ p ∈ c.issued, p.2.id < (c.nodes p.1).stateStore.nextLogId
  distinct : c.issued.Pairwise (fun p q => p.2.id ≠ q.2.id)
  bounded : ∀ n, c.applied n ≤ c.log.length
  readable : ∀ n, ∀ item ∈ c.appliedItems n, item ∉ c.skipped n →
    RocksDb.entryAt (c.nodes n).db item.id = some item

def Initial (c : Cluster ι) : Prop := (∀ i, (c.nodes i).Running) ∧ c.inFlight = [] ∧
  c.log = [] ∧ c.committed = [] ∧ ∀ i, c.applied i = 0

variable {c : Cluster ι}

theorem Initial.invariant (h : c.Initial) : c.Invariant := by
  obtain ⟨hrunning,hflight,hlog,hcommitted,happlied⟩ := h
  refine ⟨hrunning,?_,?_,?_,?_,?_⟩
  · simp [hlog,hcommitted]
  · simp [issued,hflight,hcommitted]
  · simp [issued,hflight,hcommitted]
  · simp [hlog,happlied]
  · simp [appliedItems,hlog]

theorem Invariant.appliedItems_append (h : c.Invariant) (entry : KEntry) (n : ι) :
    (((c.log ++ [entry]).take (c.applied n)).map (·.payload)).filterMap appendedItem = c.appliedItems n := by
  rw [take_append_of_le_length (h.bounded n),appliedItems]

theorem Invariant.id_lt (h : c.Invariant) {item : KLogEntry}
    (hitem : .normal (.appendLog item) ∈ c.log.map (·.payload)) : item.id < U64.maxValue := by
  have hmem := mem_appendedItems.mpr hitem
  rw [h.committed] at hmem
  obtain ⟨p,hp,rfl⟩ := mem_map.mp hmem
  have hbelow := h.below p (mem_append_right _ hp)
  have hmax := (c.nodes p.1).stateStore.nextLogId.toNat_lt
  rw [UInt64.lt_iff_toNat_lt] at hbelow ⊢
  rw [U64.toNat_maxValue]
  omega

theorem Invariant.items_distinct (h : c.Invariant) :
    ((c.log.map (·.payload)).filterMap appendedItem).Pairwise (fun a b => a.id ≠ b.id) := by
  rw [h.committed,pairwise_map]
  exact h.distinct.sublist (sublist_append_right _ _)

theorem Invariant.before_applied (h : c.Invariant) (n : ι) (entry : KEntry)
    (hget : c.log[c.applied n]? = some entry) :
    ∀ item, appendedItem entry.payload = some item → ∀ a ∈ c.appliedItems n, a.id ≠ item.id := by
  intro item hitem a ha
  have hsplit : c.log.take (c.applied n + 1) = c.log.take (c.applied n) ++ [entry] := by
    rw [take_add_one,hget]
    rfl
  have hsub : ((c.log.take (c.applied n + 1)).map (·.payload)).filterMap appendedItem |>.Sublist
      ((c.log.map (·.payload)).filterMap appendedItem) := ((take_sublist _ _).map _).filterMap _
  have hpair := h.items_distinct.sublist hsub
  rw [hsplit,map_append,filterMap_append,pairwise_append] at hpair
  exact hpair.2.2 a ha item (by simp [hitem])

section Steps
variable [DecidableEq ι]

theorem Invariant.propose (h : c.Invariant) {i : ι} {item : KLogEntry}
    (hsafe : c.ProposesCaughtUp (.propose i item)) : (c.step (.propose i item)).2.Invariant := by
  obtain ⟨hroom,hothers⟩ := hsafe
  have hnew : ∀ p ∈ c.issued, p.2.id < (c.nodes i).stateStore.nextLogId := by
    intro p hp
    by_cases hpi : p.1 = i
    · exact hpi ▸ h.below p hp
    · obtain ⟨e,he⟩ := isSome_iff_exists.mp (hothers p hp hpi)
      exact (h.running i).past _ _ he
  have hgrow : (c.nodes i).stateStore.nextLogId < (c.nodes i).stateStore.nextLogId + 1 := by
    rw [UInt64.lt_iff_toNat_lt,U64.toNat_maxValue] at hroom
    rw [UInt64.lt_iff_toNat_lt,UInt64.toNat_add,UInt64.toNat_one,Nat.mod_eq_of_lt (by omega)]
    omega
  simp only [step,KLogStateStoreManager.prepareAppendEntry,KLogStateStoreManager.allocLogId,if_true]
  refine ⟨?_,h.committed,?_,?_,h.bounded,?_⟩
  · intro j
    by_cases hj : j = i
    · subst hj
      simp only [update_self]
      have hj := h.running j
      exact ⟨⟨hj.sound.wellFormed,hj.sound.coherent⟩,hj.rocks,fun id e he => (hj.past id e he).trans hgrow⟩
    · simp only [update_of_ne hj]
      exact h.running j
  · intro p hp
    rcases mem_cons.mp hp with rfl | hp
    · simpa using hgrow
    · by_cases hpi : p.1 = i
      · simp only [hpi,update_self]
        exact (hnew p hp).trans hgrow
      · simp only [update_of_ne hpi]
        exact h.below p hp
  · exact pairwise_cons.mpr ⟨fun p hp => (hnew p hp).ne',h.distinct⟩
  · intro n item hitem hskip
    by_cases hn : n = i
    · subst hn
      simp only [update_self]
      exact h.readable n item hitem hskip
    · simp only [update_of_ne hn]
      exact h.readable n item hitem hskip

theorem Invariant.commit {c : Cluster ι} (h : c.Invariant) (position : ℕ) (logId : KLogId) :
    (c.step (.commit position logId)).2.Invariant := by
  simp only [step]
  cases hget : c.inFlight[position]? with
  | none => exact h
  | some p =>
    obtain ⟨i,item⟩ := p
    obtain ⟨hlt,hval⟩ := List.getElem?_eq_some_iff.mp hget
    have hperm : (c.inFlight.eraseIdx position ++ (c.committed ++ [(i,item)])).Perm c.issued := by
      have hflight : ((i,item) :: c.inFlight.eraseIdx position).Perm c.inFlight := by
        rw [← hval]
        exact getElem_cons_eraseIdx_perm hlt
      rw [← append_assoc]
      exact (perm_append_singleton _ _).trans (hflight.append_right c.committed)
    refine ⟨h.running,?_,fun p hp => h.below p (hperm.subset hp),?_,?_,?_⟩
    · simp [h.committed,appendedItem]
    · exact (hperm.pairwise_iff (fun hpq => hpq.symm)).mpr h.distinct
    · intro n
      exact (h.bounded n).trans (by simp)
    · intro n a ha
      rw [appliedItems,h.appliedItems_append] at ha
      exact h.readable n a ha

theorem Invariant.lose (h : c.Invariant) (position : ℕ) : (c.step (.lose position)).2.Invariant := by
  have hsub : (c.inFlight.eraseIdx position ++ c.committed).Sublist c.issued :=
    (eraseIdx_sublist _ _).append (List.Sublist.refl _)
  exact ⟨h.running,h.committed,fun p hp => h.below p (hsub.subset hp),h.distinct.sublist hsub,
    h.bounded,h.readable⟩

theorem Invariant.commitOther (h : c.Invariant) (entry : KEntry) :
    (c.step (.commitOther entry)).2.Invariant := by
  simp only [step]
  split_ifs with happend
  · exact h
  · have hnone : appendedItem entry.payload = none := by simpa using happend
    refine ⟨h.running,?_,h.below,h.distinct,?_,?_⟩
    · simp [h.committed,hnone]
    · intro n
      exact (h.bounded n).trans (by simp)
    · intro n a ha
      rw [appliedItems,h.appliedItems_append] at ha
      exact h.readable n a ha

theorem Invariant.apply (h : c.Invariant) (i : ι) (clock : Readings) :
    (c.step (.apply i clock)).2.Invariant := by
  simp only [step]
  cases hget : c.log[c.applied i]? with
  | none => exact h
  | some entry =>
    obtain ⟨hlt,hval⟩ := List.getElem?_eq_some_iff.mp hget
    have hmem : entry ∈ c.log := hval ▸ List.getElem_mem hlt
    have hids : ∀ item, entry.payload = .normal (.appendLog item) → item.id < U64.maxValue :=
      fun item hitem => h.id_lt (hitem ▸ mem_map_of_mem (f := fun e : KEntry => e.payload) hmem)
    obtain ⟨hrunning,hgrows⟩ := (h.running i).applyEntry (x := ⟨entry,clock⟩) hids
    have hentry := KLogStateMachine.entryAt_applyEntry (h.running i).sound (h.running i).rocks ⟨entry,clock⟩
    have htake : ((c.log.take (c.applied i + 1)).map (·.payload)).filterMap appendedItem =
        c.appliedItems i ++ (appendedItem entry.payload).toList := by
      rw [take_add_one,hget,appliedItems]
      cases hitem : appendedItem entry.payload <;> simp [hitem]
    refine ⟨?_,h.committed,?_,h.distinct,?_,?_⟩
    · intro j
      by_cases hj : j = i
      · subst hj
        simpa only [update_self] using hrunning
      · simpa only [update_of_ne hj] using h.running j
    · intro p hp
      by_cases hpi : p.1 = i
      · simp only [hpi,update_self]
        exact (hpi ▸ h.below p hp).trans_le hgrows
      · simp only [update_of_ne hpi]
        exact h.below p hp
    · intro n
      by_cases hn : n = i
      · subst hn
        simp only [update_self]
        exact hlt
      · simpa only [update_of_ne hn] using h.bounded n
    · intro n a ha hskip
      by_cases hn : n = i
      · subst hn
        simp only [appliedItems,update_self] at ha hskip ⊢
        rw [htake,mem_append] at ha
        rw [hentry]
        generalize KLogStateStoreManager.recognises _ _ _ = hit at hskip ⊢
        cases hit with
        | true =>
          simp only [if_true,mem_append,not_or] at hskip
          simp only [storedItem,if_true,elim_none]
          exact h.readable n a (ha.resolve_right hskip.1) hskip.2
        | false =>
          simp only [Bool.false_eq_true,if_false] at hskip
          simp only [storedItem,Bool.false_eq_true,if_false]
          cases hitem : appendedItem entry.payload with
          | none => exact h.readable n a (ha.resolve_right (by simp [hitem])) hskip
          | some item =>
            rcases ha with ha | ha
            · rw [elim_some,update_of_ne (h.before_applied n entry hget item hitem a ha)]
              exact h.readable n a ha hskip
            · obtain rfl : a = item := by simpa [hitem] using ha
              rw [elim_some,update_self]
      · simp only [appliedItems,update_of_ne hn] at ha hskip ⊢
        exact h.readable n a ha hskip

theorem Invariant.step (h : c.Invariant) {s : ClusterStep ι} (hsafe : c.ProposesCaughtUp s) :
    (c.step s).2.Invariant := by
  cases s with
  | propose i item => exact h.propose hsafe
  | commit position logId => exact h.commit position logId
  | lose position => exact h.lose position
  | commitOther entry => exact h.commitOther entry
  | apply i clock => exact h.apply i clock

end Steps

/-- In every run in which nodes propose only when they have caught up with the others, the
committed appends carry pairwise different ids, and a node that has applied all of them
can read each one it did not answer from its request records. -/
theorem committed_appends_readable [DecidableEq ι] (start : Cluster ι) (hstart : start.Initial)
    (steps : List (ClusterStep ι)) (hsafe : Machine.Along step ProposesCaughtUp start steps) :
    DistinctIds ((Machine.run step start steps).2.log.map (·.payload)) ∧
    ∀ n, (Machine.run step start steps).2.applied n =
        (Machine.run step start steps).2.log.length →
      ∀ item, .normal (.appendLog item) ∈
          (Machine.run step start steps).2.log.map (·.payload) →
        item ∉ (Machine.run step start steps).2.skipped n →
        RocksDb.entryAt ((Machine.run step start steps).2.nodes n).db item.id = some item := by
  have hinv : (Machine.run step start steps).2.Invariant :=
    Machine.run_invariant_along (fun _ _ hc hs => hc.step hs) hstart.invariant hsafe
  refine ⟨?_,?_⟩
  · have hpair := hinv.items_distinct
    rw [pairwise_filterMap] at hpair
    exact hpair.imp (fun hpq a b ha hb =>
      hpq a (appendedItem_eq_some.mpr ha) b (appendedItem_eq_some.mpr hb))
  · intro n hall item hitem hskip
    refine hinv.readable n item ?_ hskip
    rw [appliedItems,hall,take_length]
    exact mem_appendedItems.mpr hitem

def twoFresh : Cluster (Fin 2) where
  nodes _ := KLogStateMachine.freshRocksDb
  inFlight := []
  log := []
  applied _ := 0
  committed := []
  skipped _ := []

theorem twoFresh_initial : twoFresh.Initial := by
  refine ⟨fun _ => ⟨KLogStateMachine.freshRocksDb_sound,⟨_,rfl⟩,?_⟩,rfl,rfl,rfl,fun _ => rfl⟩
  intro id e he
  cases he

def note (id : UInt64) (message : String) : KLogEntry :=
  ⟨id,0,1,none,.info,none,OrderedMap.empty,message⟩

theorem committed_appends_readable_caught_up :
    RocksDb.entryAt ((Machine.run step twoFresh
      [.propose 0 (note 0 "x"),.commit 0 ⟨1,0,1⟩,.apply 0 ⟨0,0,0⟩,.apply 1 ⟨0,0,0⟩,
        .propose 1 (note 0 "y"),.commit 0 ⟨2,1,2⟩,.apply 0 ⟨0,0,0⟩]).2.nodes 0).db 1 =
      some (note 1 "x") :=
  (committed_appends_readable twoFresh twoFresh_initial
    [.propose 0 (note 0 "x"),.commit 0 ⟨1,0,1⟩,.apply 0 ⟨0,0,0⟩,.apply 1 ⟨0,0,0⟩,
      .propose 1 (note 0 "y"),.commit 0 ⟨2,1,2⟩,.apply 0 ⟨0,0,0⟩] (by decide +kernel)).2 0
    (by decide +kernel) (note 1 "x") (by decide +kernel) (by decide +kernel)

/-- The leader changes before the new one has applied the old one's append: both carry id
`1`, and after applying both a node can read only the second. -/
theorem new_leader_overwrites_append : ∃ steps : List (ClusterStep (Fin 2)),
    (Machine.run step twoFresh steps).2.log.map (·.payload) =
      [.normal (.appendLog (note 1 "x")),.normal (.appendLog (note 1 "y"))] ∧
    (Machine.run step twoFresh steps).2.applied 0 = 2 ∧
    (Machine.run step twoFresh steps).2.skipped 0 = [] ∧
    RocksDb.entryAt ((Machine.run step twoFresh steps).2.nodes 0).db 1 = some (note 1 "y") :=
  ⟨[.propose 0 (note 0 "x"),.commit 0 ⟨1,0,1⟩,.propose 1 (note 0 "y"),.commit 0 ⟨2,1,2⟩,
    .apply 0 ⟨0,0,0⟩,.apply 0 ⟨0,0,0⟩],by decide +kernel,by decide +kernel,by decide +kernel,
    by decide +kernel⟩

end Cluster
end BuckyOS.KLog
