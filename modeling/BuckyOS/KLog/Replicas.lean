import BuckyOS.KLog.Refinement

/-! Two replicas of the state machine that apply one committed sequence, each in its own
batches and by its own clock. The clock reaches the outcome only through the window in
which a repeated request id is recognised. -/
namespace BuckyOS.KLog
namespace KLogStateStoreManager
/-- The cache and the store's table never give different ids for one request. -/
def Coherent (m : KLogStateStoreManager) : Prop := ∀ r i j,
  m.requestDedup.recordedId r = some i → m.stateStore.recordedId r = some j → i = j

/-- The manager states the code produces. -/
structure Sound (m : KLogStateStoreManager) : Prop where
  wellFormed : m.stateStore.WellFormed
  coherent : m.Coherent

def ledger (m : KLogStateStoreManager) : Ledger where
  logs := m.stateStore.contents
  metas := m.stateStore.metaAt
  known r := (m.requestDedup.recordedId r).or (m.stateStore.recordedId r)

theorem Sound.refines {m : KLogStateStoreManager} (h : m.Sound) : m.Refines m.ledger where
  logs := rfl
  metas := rfl
  cached r id hr := by simp [ledger,hr]
  recorded r id hr := by
    cases hc : m.requestDedup.recordedId r with
    | none => simp [ledger,hc,hr]
    | some i => simp [ledger,hc,h.coherent r i id hc hr]
  wellFormed := h.wellFormed

theorem Refines.sound {m : KLogStateStoreManager} {l : Ledger} (h : m.Refines l) : m.Sound where
  wellFormed := h.wellFormed
  coherent r i j hi hj := by
    have hknown := h.cached r i hi
    rw [h.recorded r j hj] at hknown
    exact (Option.some.inj hknown).symm

end KLogStateStoreManager

namespace KLogStateMachine
def Sound (sm : KLogStateMachine) : Prop := sm.stateStore.Sound

/-- The entries of a batch, each with the state in which it is applied. -/
def traceBatch (sm : KLogStateMachine) : List TimedEntry → List (KLogStateMachine × TimedEntry)
  | [] => []
  | x :: xs => (sm,x) :: (sm.applyEntry x).2.traceBatch xs

def trace (sm : KLogStateMachine) :
    List (List TimedEntry) → List (KLogStateMachine × TimedEntry)
  | [] => []
  | batch :: batches => sm.traceBatch batch ++ (sm.apply batch).2.trace batches

def recognitions (sm : KLogStateMachine) (batches : List (List TimedEntry)) : List Bool :=
  (sm.trace batches).map (fun p => p.1.stateStore.recognises p.2.entry.payload p.2.clock)

end KLogStateMachine

namespace Ledger
def run (l : Ledger) (xs : List (EntryPayload × Bool)) : List KLogResponse × Ledger :=
  Machine.run (fun l x => l.step x.1 x.2) l xs

theorem run_append (l : Ledger) (xs ys : List (EntryPayload × Bool)) :
    l.run (xs ++ ys) = ((l.run xs).1 ++ ((l.run xs).2.run ys).1,((l.run xs).2.run ys).2) :=
  Machine.run_append _ l xs ys

end Ledger

namespace KLogStateMachine
def ledgerInputs (trace : List (KLogStateMachine × TimedEntry)) : List (EntryPayload × Bool) :=
  trace.map (fun p =>
    (p.2.entry.payload,p.1.stateStore.recognises p.2.entry.payload p.2.clock))

variable {sm : KLogStateMachine} {l : Ledger}

theorem traceBatch_refines (h : sm.Refines l) (batch : List TimedEntry) :
    (Machine.run applyEntry sm batch).1 = (l.run (ledgerInputs (sm.traceBatch batch))).1 ∧
      (Machine.run applyEntry sm batch).2.Refines (l.run (ledgerInputs (sm.traceBatch batch))).2 := by
  induction batch generalizing sm l with
  | nil => exact ⟨rfl,h⟩
  | cons x xs ih =>
    obtain ⟨hreply,hnext⟩ := applyEntry_refines h x
    obtain ⟨hreplies,hlast⟩ := ih hnext
    simp only [traceBatch,ledgerInputs,List.map_cons,Ledger.run,Machine.run_cons] at hreplies hlast ⊢
    exact ⟨by rw [hreply,hreplies],hlast⟩

theorem applyBatches_refines (h : sm.Refines l) (batches : List (List TimedEntry)) :
    (sm.applyBatches batches).1 = (l.run (ledgerInputs (sm.trace batches))).1 ∧
      (sm.applyBatches batches).2.Refines (l.run (ledgerInputs (sm.trace batches))).2 := by
  induction batches generalizing sm l with
  | nil => exact ⟨rfl,h⟩
  | cons batch batches ih =>
    obtain ⟨hreplies,hnext⟩ := traceBatch_refines h batch
    have hpersisted : (sm.apply batch).2.Refines (l.run (ledgerInputs (sm.traceBatch batch))).2 :=
      hnext.of_keeps (KLogStateStore.saveStateMachineMeta_keeps hnext.wellFormed _) _
    obtain ⟨hrest,hlast⟩ := ih hpersisted
    have hinputs : ledgerInputs (sm.trace (batch :: batches)) =
        ledgerInputs (sm.traceBatch batch) ++ ledgerInputs ((sm.apply batch).2.trace batches) := by
      simp [trace,ledgerInputs]
    rw [hinputs,Ledger.run_append]
    exact ⟨by rw [← hreplies,← hrest]; rfl,hlast⟩

theorem trace_map_snd (sm : KLogStateMachine) (batches : List (List TimedEntry)) :
    (sm.trace batches).map Prod.snd = batches.flatten := by
  have hbatch : ∀ (sm : KLogStateMachine) batch, (sm.traceBatch batch).map Prod.snd = batch := by
    intro sm batch
    induction batch generalizing sm with
    | nil => rfl
    | cons x xs ih => simp [traceBatch,ih]
  induction batches generalizing sm with
  | nil => rfl
  | cons batch batches ih => simp [trace,hbatch,ih]

theorem ledgerInputs_eq_zip (sm : KLogStateMachine) (batches : List (List TimedEntry)) :
    ledgerInputs (sm.trace batches) =
      (batches.flatten.map (·.entry.payload)).zip (sm.recognitions batches) := by
  rw [← trace_map_snd sm batches,recognitions,ledgerInputs,List.map_map,List.zip_map']
  rfl

/-- Replicas that start alike and apply one committed sequence, each in its own batches and
by its own clock, end with the same entries and metadata and give the same replies, if at
every entry either both still remember its request id or neither does. -/
theorem replicas_agree (a b : KLogStateMachine) (hstart : a.stateStore = b.stateStore)
    (hsound : a.Sound) (as bs : List (List TimedEntry))
    (hlog : as.flatten.map (·.entry) = bs.flatten.map (·.entry))
    (halike : a.recognitions as = b.recognitions bs) :
    (a.applyBatches as).1 = (b.applyBatches bs).1 ∧
    (a.applyBatches as).2.stateStore.stateStore.contents =
      (b.applyBatches bs).2.stateStore.stateStore.contents ∧
    (a.applyBatches as).2.stateStore.stateStore.metaAt =
      (b.applyBatches bs).2.stateStore.stateStore.metaAt := by
  have ha : a.Refines a.stateStore.ledger := hsound.refines
  have hb : b.Refines a.stateStore.ledger := by
    rw [Refines,← hstart]
    exact ha
  have hpayloads : as.flatten.map (·.entry.payload) = bs.flatten.map (·.entry.payload) := by
    have h := congrArg (List.map KEntry.payload) hlog
    rwa [List.map_map,List.map_map] at h
  have hinputs : ledgerInputs (a.trace as) = ledgerInputs (b.trace bs) := by
    rw [ledgerInputs_eq_zip,ledgerInputs_eq_zip,hpayloads,halike]
  obtain ⟨hreplyA,hlastA⟩ := applyBatches_refines ha as
  obtain ⟨hreplyB,hlastB⟩ := applyBatches_refines hb bs
  rw [hinputs] at hreplyA hlastA
  exact ⟨hreplyA.trans hreplyB.symm,hlastA.logs.trans hlastB.logs.symm,
    hlastA.metas.trans hlastB.metas.symm⟩

def freshRocksDb : KLogStateMachine :=
  ⟨⟨none,default⟩,⟨.rocksDb ⟨KvDb.empty,.checkpoint⟩,1,RequestDedupCache.empty⟩⟩

theorem freshRocksDb_sound : freshRocksDb.Sound :=
  ⟨RocksDb.wellFormed_empty,fun _ _ _ h => by cases h⟩

/-- A node that starts empty answers as the ledger that is told which request ids it recognises, and
holds the ledger's entries and metadata and all index keys; its cache gives no request another id than
its table of requests. -/
theorem applied_as_ledger (batches : List (List TimedEntry)) :
    let node := freshRocksDb.applyBatches batches
    let ledger := freshRocksDb.stateStore.ledger.run
      ((batches.flatten.map (·.entry.payload)).zip (freshRocksDb.recognitions batches))
    node.1 = ledger.1 ∧ node.2.stateStore.stateStore.contents = ledger.2.logs ∧
      node.2.stateStore.stateStore.metaAt = ledger.2.metas ∧ node.2.Sound := by
  obtain ⟨hreplies,hnode⟩ := applyBatches_refines freshRocksDb_sound.refines batches
  rw [ledgerInputs_eq_zip] at hreplies hnode
  exact ⟨hreplies,hnode.logs,hnode.metas,hnode.sound⟩

def retriedAppend (index id nowMs : UInt64) : TimedEntry where
  entry := ⟨⟨1,1,index⟩,.normal (.appendLog ⟨id,0,1,some "r",.info,none,OrderedMap.empty,"m"⟩)⟩
  clock := ⟨nowMs,nowMs,nowMs⟩

theorem replicas_agree_within_window :
    (freshRocksDb.applyBatches [[retriedAppend 1 1 0,retriedAppend 2 2 0]]).1 =
      (freshRocksDb.applyBatches [[retriedAppend 1 1 5],[retriedAppend 2 2 300005]]).1 :=
  (replicas_agree freshRocksDb freshRocksDb rfl freshRocksDb_sound
    [[retriedAppend 1 1 0,retriedAppend 2 2 0]] [[retriedAppend 1 1 5],[retriedAppend 2 2 300005]]
    rfl (by decide +kernel)).1

/-- Successive readings of a clock that is never set back. -/
def ClockMonotone (xs : List TimedEntry) : Prop :=
  (xs.flatMap (fun x => [x.clock.lookupAt,x.clock.storeAt,x.clock.rememberAt])).Pairwise (· ≤ ·)

instance (xs : List TimedEntry) : Decidable (ClockMonotone xs) :=
  inferInstanceAs (Decidable (List.Pairwise _ _))

/-- A retry that one replica applies at once and another a little over five minutes later is
recognised by the first only. -/
theorem replicas_disagree_across_window :
    ∃ as bs : List (List TimedEntry), as.flatten.map (·.entry) = bs.flatten.map (·.entry) ∧
      ClockMonotone as.flatten ∧ ClockMonotone bs.flatten ∧
      (freshRocksDb.applyBatches as).1 = [.appendOk 1,.appendOk 1] ∧
      (freshRocksDb.applyBatches bs).1 = [.appendOk 1,.appendOk 2] :=
  ⟨[[retriedAppend 1 1 0,retriedAppend 2 2 0]],[[retriedAppend 1 1 0],[retriedAppend 2 2 300001]],
    rfl,by decide +kernel,by decide +kernel,by decide +kernel,by decide +kernel⟩

end KLogStateMachine
end BuckyOS.KLog
