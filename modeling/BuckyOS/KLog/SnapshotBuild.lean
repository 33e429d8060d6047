import BuckyOS.KLog.Writes
import BuckyOS.KLog.Appends

/-! A snapshot built while entries are applied. The builder reads the cursor under the data
lock and the store after releasing it; the applier holds the lock for a batch. -/
namespace BuckyOS.KLog
open List Option

namespace KLogStateMachine
def unapplied (cursor : Option KLogId) (batch : List TimedEntry) : List TimedEntry :=
  batch.filter (fun x => cursor.all (fun c => c.index < x.entry.logId.index))

def putA (expectedRevision : Option UInt64) : TimedEntry where
  entry := ⟨⟨1,1,2⟩,.normal (.putMeta ⟨"a","x",0,1,0⟩ expectedRevision)⟩
  clock := ⟨0,0,0⟩

/-- States reached by applying the entries one by one and persisting the cursor now and then. -/
inductive Applied (start : KLogStateMachine) : List TimedEntry → KLogStateMachine → Prop
  | nil : Applied start [] start
  | entry {xs : List TimedEntry} {sm : KLogStateMachine} (h : Applied start xs sm)
      (x : TimedEntry) : Applied start (xs ++ [x]) (sm.applyEntry x).2
  | persist {xs : List TimedEntry} {sm : KLogStateMachine} (h : Applied start xs sm)
      (data : StateMachineData) :
      Applied start xs (sm.persistStateMachineMeta data.lastAppliedLogId data.lastMembership)

def cursorAfter (start : KLogStateMachine) (xs : List TimedEntry) : Option KLogId :=
  (xs.getLast?.map (·.entry.logId)).or start.data.lastAppliedLogId

theorem Applied.lastAppliedLogId {start sm : KLogStateMachine} {xs : List TimedEntry}
    (h : Applied start xs sm) : sm.data.lastAppliedLogId = start.cursorAfter xs := by
  induction h with
  | nil => rfl
  | entry h x ih =>
    rw [applyEntry]
    split <;> simp [cursorAfter]
  | persist h data ih => exact ih

def upTo (cursor : Option KLogId) (log : List TimedEntry) : List TimedEntry :=
  log.filter (fun x => cursor.any (fun c => x.entry.logId.index ≤ c.index))

/-- The entries come after the machine's position and in order. -/
structure Continues (start : KLogStateMachine) (log : List TimedEntry) : Prop where
  past : ∀ x ∈ log, ∀ c ∈ start.data.lastAppliedLogId, c.index < x.entry.logId.index
  increasing : log.Pairwise (fun x y => x.entry.logId.index < y.entry.logId.index)

theorem Continues.split {start : KLogStateMachine} {before after : List TimedEntry}
    (h : start.Continues (before ++ after)) : upTo (start.cursorAfter before) (before ++ after) = before ∧
      unapplied (start.cursorAfter before) (before ++ after) = after := by
  have hbefore : ∀ x ∈ before, ∃ c ∈ start.cursorAfter before, x.entry.logId.index ≤ c.index := by
    intro x hx
    induction before using reverseRecOn with
    | nil => simp at hx
    | append_singleton xs y _ =>
      refine ⟨y.entry.logId,by simp [cursorAfter],?_⟩
      rcases mem_append.mp hx with hx | hx
      · have hpair := (pairwise_append.mp h.increasing).1
        exact ((pairwise_append.mp hpair).2.2 x hx y (by simp)).le
      · rw [mem_singleton.mp hx]
  have hafter : ∀ x ∈ after, ∀ c ∈ start.cursorAfter before, c.index < x.entry.logId.index := by
    intro x hx c hc
    induction before using reverseRecOn with
    | nil => exact h.past x (by simpa using hx) c hc
    | append_singleton xs y _ =>
      obtain rfl : c = y.entry.logId := by simpa [cursorAfter,eq_comm] using hc
      exact (pairwise_append.mp h.increasing).2.2 y (by simp) x hx
  cases hcursor : start.cursorAfter before with
  | none =>
    have hnil : before = [] := by
      rw [eq_nil_iff_forall_not_mem]
      intro x hx
      obtain ⟨c,hc,_⟩ := hbefore x hx
      simp [hcursor] at hc
    simp [upTo,unapplied,hnil]
  | some c =>
    rw [hcursor] at hbefore hafter
    have hle : ∀ x ∈ before, x.entry.logId.index ≤ c.index := by
      intro x hx
      obtain ⟨c',hc,hle⟩ := hbefore x hx
      rwa [← Option.some.inj hc] at hle
    have hlt : ∀ x ∈ after, c.index < x.entry.logId.index := fun x hx => hafter x hx c rfl
    simp only [upTo,unapplied,any_some,all_some,filter_append]
    rw [filter_eq_self.mpr (fun x hx => by simpa using hle x hx),
      filter_eq_nil_iff.mpr (fun x hx => by simpa using hlt x hx),
      filter_eq_nil_iff.mpr (fun x hx => by simpa using hle x hx),
      filter_eq_self.mpr (fun x hx => by simpa using hlt x hx)]
    simp

end KLogStateMachine

/-- One snapshot builder and one applier. Beside each read stand the entries that were
applied when it was made. -/
structure SnapshotRun where
  sm : KLogStateMachine
  locked : Bool
  toPersist : Option StateMachineData
  log : List TimedEntry
  metaRead : Option (SnapshotMeta × List TimedEntry)
  storeRead : Option (KResult KLogStateSnapshot × List TimedEntry)

inductive SnapshotEvent
  | lock
  | entry (x : TimedEntry)
  | unlock
  | persist
  | readMeta
  | readStore

namespace SnapshotRun
def step (c : SnapshotRun) : SnapshotEvent → Option KLogResponse × SnapshotRun
  | .lock =>
    if c.locked || c.toPersist.isSome then (none,c) else (none,{ c with locked := true })
  | .entry x =>
    if c.locked then
      let r := c.sm.applyEntry x
      (some r.1,{ c with sm := r.2, log := c.log ++ [x] })
    else (none,c)
  | .unlock =>
    if c.locked then (none,{ c with locked := false, toPersist := some c.sm.data }) else (none,c)
  | .persist =>
    match c.toPersist with
    | none => (none,c)
    | some data => (none,{ c with
        sm := c.sm.persistStateMachineMeta data.lastAppliedLogId data.lastMembership
        toPersist := none })
  | .readMeta =>
    if c.locked || c.metaRead.isSome then (none,c)
    else (none,{ c with metaRead := some (c.sm.snapshotMetaOf,c.log) })
  | .readStore =>
    if c.metaRead.isSome && c.storeRead.isNone then
      (none,{ c with storeRead := some (c.sm.stateStore.buildSnapshot,c.log) })
    else (none,c)

/-- No entry is applied between the two reads of the builder. -/
def Quiet (c : SnapshotRun) : SnapshotEvent → Prop
  | .entry _ => c.locked = true → c.metaRead.isSome = true → c.storeRead.isSome = true
  | _ => True

def start (sm : KLogStateMachine) : SnapshotRun := ⟨sm,false,none,[],none,none⟩

structure Invariant (s : KLogStateMachine) (c : SnapshotRun) : Prop where
  applied : s.Applied c.log c.sm
  metaRead : ∀ m before, c.metaRead = some (m,before) →
    m.lastLogId = s.cursorAfter before ∧ before <+: c.log
  storeRead : ∀ p seen, c.storeRead = some (p,seen) → (∃ m before,
      c.metaRead = some (m,before) ∧ before <+: seen) ∧ seen <+: c.log ∧
    ∃ sm, s.Applied seen sm ∧ p = sm.stateStore.buildSnapshot

theorem start_invariant (sm : KLogStateMachine) : Invariant sm (start sm) :=
  ⟨.nil,fun m before h => by simp [start] at h,fun p seen h => by simp [start] at h⟩

variable {c : SnapshotRun}

theorem Invariant.step {s : KLogStateMachine} (h : Invariant s c) (e : SnapshotEvent) :
    Invariant s (c.step e).2 := by
  cases e with
  | lock =>
    simp only [SnapshotRun.step]
    split_ifs
    · exact h
    · exact ⟨h.applied,h.metaRead,h.storeRead⟩
  | entry x =>
    simp only [SnapshotRun.step]
    split_ifs
    · refine ⟨h.applied.entry x,?_,?_⟩
      · intro m before hm
        obtain ⟨hcursor,hbefore⟩ := h.metaRead m before hm
        exact ⟨hcursor,hbefore.trans (prefix_append _ _)⟩
      · intro p seen hp
        obtain ⟨hmeta,hseen,hsnap⟩ := h.storeRead p seen hp
        exact ⟨hmeta,hseen.trans (prefix_append _ _),hsnap⟩
    · exact h
  | unlock =>
    simp only [SnapshotRun.step]
    split_ifs
    · exact ⟨h.applied,h.metaRead,h.storeRead⟩
    · exact h
  | persist =>
    simp only [SnapshotRun.step]
    split
    · exact h
    · exact ⟨h.applied.persist _,h.metaRead,h.storeRead⟩
  | readMeta =>
    simp only [SnapshotRun.step]
    split_ifs with hread
    · exact h
    · simp only [Bool.or_eq_true,not_or,Bool.not_eq_true,isSome_eq_false_iff,isNone_iff_eq_none] at hread
      refine ⟨h.applied,?_,?_⟩
      · intro m before hm
        obtain ⟨rfl,rfl⟩ := Prod.mk.inj (Option.some.inj hm)
        exact ⟨h.applied.lastAppliedLogId,prefix_refl _⟩
      · intro p seen hp
        obtain ⟨⟨m,before,hm,_⟩,_⟩ := h.storeRead p seen hp
        simp [hread.2] at hm
  | readStore =>
    simp only [SnapshotRun.step]
    split_ifs with hread
    · simp only [Bool.and_eq_true] at hread
      obtain ⟨⟨m,before⟩,hm⟩ := isSome_iff_exists.mp hread.1
      refine ⟨h.applied,h.metaRead,?_⟩
      intro p seen hp
      obtain ⟨rfl,rfl⟩ := Prod.mk.inj (Option.some.inj hp)
      exact ⟨⟨m,before,hm,(h.metaRead m before hm).2⟩,prefix_refl _,c.sm,h.applied,rfl⟩
    · exact h

theorem run_invariant (sm : KLogStateMachine) (events : List SnapshotEvent) :
    Invariant sm (Machine.run step (start sm) events).2 :=
  Machine.run_invariant (fun _ e h => h.step e) (start_invariant sm) events

theorem storeRead_step {r : KResult KLogStateSnapshot × List TimedEntry} (h : c.storeRead = some r)
    (e : SnapshotEvent) : (c.step e).2.storeRead = some r := by
  cases e <;> simp only [SnapshotRun.step]
  case persist => split <;> exact h
  case readStore =>
    rw [h]
    simpa using h
  all_goals split_ifs <;> exact h

variable {r : SnapshotMeta × List TimedEntry}

theorem metaRead_step (h : c.metaRead = some r) (e : SnapshotEvent) : (c.step e).2.metaRead = some r := by
  cases e <;> simp only [SnapshotRun.step]
  case persist => split <;> exact h
  case readMeta =>
    rw [h]
    simpa using h
  all_goals split_ifs <;> exact h

theorem metaRead_run (h : c.metaRead = some r) (events : List SnapshotEvent) :
    (Machine.run step c events).2.metaRead = some r :=
  Machine.run_invariant (I := fun c : SnapshotRun => c.metaRead = some r) (fun _ e hc => metaRead_step hc e)
    h events

theorem quiet_of_storeRead {r : KResult KLogStateSnapshot × List TimedEntry}
    (h : c.storeRead = some r) (events : List SnapshotEvent) :
    (Machine.run step c events).2.storeRead = some r ∧ Machine.Along step Quiet c events := by
  induction events generalizing c with
  | nil => exact ⟨h,trivial⟩
  | cons e events ih =>
    obtain ⟨hlast,hquiet⟩ := ih (storeRead_step h e)
    refine ⟨hlast,?_,hquiet⟩
    cases e <;> simp [Quiet,h]

attribute [local simp] SnapshotRun.step

variable {events : List SnapshotEvent} {p : KResult KLogStateSnapshot} {seen : List TimedEntry}

theorem quiet_iff_of_metaRead (hmeta : c.metaRead = some r) (hnone : c.storeRead = none)
    (hlast : (Machine.run step c events).2.storeRead = some (p,seen)) :
    c.log <+: seen ∧ (Machine.Along step Quiet c events ↔ seen = c.log) := by
  induction events generalizing c with
  | nil => simp [hnone] at hlast
  | cons e events ih =>
    have hsame : (c.step e).2.log = c.log → (c.step e).2.storeRead = none → c.Quiet e →
        c.log <+: seen ∧ (Machine.Along step Quiet c (e :: events) ↔ seen = c.log) := by
      intro hlog hstore hquiet
      have hrest := ih (metaRead_step hmeta e) hstore hlast
      rw [hlog] at hrest
      exact ⟨hrest.1,(and_iff_right hquiet).trans hrest.2⟩
    cases e with
    | entry x =>
      by_cases hlocked : c.locked = true
      · have hgrown : (c.step (.entry x)).2.log = c.log ++ [x] := by
          simp [hlocked]
        have hstore : (c.step (.entry x)).2.storeRead = none := by simp [hlocked,hnone]
        have hrest := (ih (metaRead_step hmeta _) hstore hlast).1
        rw [hgrown] at hrest
        refine ⟨(prefix_append _ _).trans hrest,iff_of_false ?_ ?_⟩
        · rintro ⟨hquiet,_⟩
          have hread := hquiet hlocked (by rw [hmeta]; rfl)
          simp [hnone] at hread
        · intro heq
          have hlen := hrest.length_le
          rw [heq,length_append] at hlen
          simp at hlen
      · exact hsame (by simp [hlocked]) (by simp [hlocked,hnone]) (fun h => absurd h hlocked)
    | readStore =>
      have hread : (c.step .readStore).2.storeRead = some (c.sm.stateStore.buildSnapshot,c.log) := by
        simp [hmeta,hnone]
      obtain ⟨hkept,hquiet⟩ := quiet_of_storeRead hread events
      have hseen : seen = c.log := by
        have heq := hkept.symm.trans hlast
        simp only [Option.some.injEq,Prod.mk.injEq] at heq
        exact heq.2.symm
      exact ⟨by rw [hseen],iff_of_true ⟨trivial,hquiet⟩ hseen⟩
    | lock | unlock =>
      apply hsame _ _ trivial <;> simp only [SnapshotRun.step] <;> split_ifs <;> simp [hnone]
    | persist => apply hsame _ _ trivial <;> simp only [SnapshotRun.step] <;> split <;> simp [hnone]
    | readMeta => apply hsame _ _ trivial <;> simp [hmeta,hnone]

/-- From before the first read: the run stays quiet exactly if both reads are made with the
same entries applied. -/
theorem quiet_iff_reads_agree (hmeta : c.metaRead = none) (hnone : c.storeRead = none)
    {m : SnapshotMeta} {before : List TimedEntry}
    (hfirst : (Machine.run step c events).2.metaRead = some (m,before))
    (hlast : (Machine.run step c events).2.storeRead = some (p,seen)) :
    Machine.Along step Quiet c events ↔ seen = before := by
  induction events generalizing c with
  | nil => simp [hnone] at hlast
  | cons e events ih =>
    have hsame : (c.step e).2.metaRead = none → (c.step e).2.storeRead = none → c.Quiet e →
        (Machine.Along step Quiet c (e :: events) ↔ seen = before) :=
      fun hm hs hquiet => (and_iff_right hquiet).trans (ih hm hs hfirst hlast)
    cases e with
    | entry x =>
      refine hsame ?_ ?_ (fun _ h => by simp [hmeta] at h) <;>
        simp only [SnapshotRun.step] <;> split_ifs <;> simp [hmeta,hnone]
    | readMeta =>
      by_cases hlocked : c.locked = true
      · apply hsame _ _ trivial <;> simp [hlocked,hmeta,hnone]
      · have hread : (c.step .readMeta).2.metaRead = some (c.sm.snapshotMetaOf,c.log) := by
          simp [hlocked,hmeta]
        have hstore : (c.step .readMeta).2.storeRead = none := by simp [hlocked,hmeta,hnone]
        have hlog : (c.step .readMeta).2.log = c.log := by simp [hlocked,hmeta]
        have hbefore : before = c.log := by
          have heq := (metaRead_run hread events).symm.trans hfirst
          simp only [Option.some.injEq,Prod.mk.injEq] at heq
          exact heq.2.symm
        have hrest := (quiet_iff_of_metaRead hread hstore hlast).2
        rw [hlog,← hbefore] at hrest
        exact (and_iff_right trivial).trans hrest
    | lock | unlock =>
      apply hsame _ _ trivial <;> simp only [SnapshotRun.step] <;> split_ifs <;> simp [hmeta,hnone]
    | persist => apply hsame _ _ trivial <;> simp only [SnapshotRun.step] <;> split <;> simp [hmeta,hnone]
    | readStore => apply hsame _ _ trivial <;> simp [hmeta,hnone]

/-- In every interleaving the payload is the store after the entries applied when it is read.
It is the store after exactly the log up to the snapshot's position, and replaying from
there applies each entry once, exactly if no entry is applied between the two reads. -/
theorem snapshot_exact_iff (sm : KLogStateMachine) (events : List SnapshotEvent)
    (m : SnapshotMeta) (before : List TimedEntry)
    (hmeta : (Machine.run step (start sm) events).2.metaRead = some (m,before))
    (p : KResult KLogStateSnapshot) (seen : List TimedEntry)
    (hstore : (Machine.run step (start sm) events).2.storeRead = some (p,seen))
    (hlog : sm.Continues (Machine.run step (start sm) events).2.log) :
    (∃ peer, sm.Applied seen peer ∧ p = peer.stateStore.buildSnapshot) ∧
    (((∃ peer, sm.Applied
          (KLogStateMachine.upTo m.lastLogId (Machine.run step (start sm) events).2.log) peer ∧
        p = peer.stateStore.buildSnapshot) ∧
      seen ++ KLogStateMachine.unapplied m.lastLogId (Machine.run step (start sm) events).2.log =
        (Machine.run step (start sm) events).2.log) ↔
      Machine.Along step Quiet (start sm) events) := by
  have hinv := run_invariant sm events
  obtain ⟨hcursor,rest,hrest⟩ := hinv.metaRead m before hmeta
  obtain ⟨_,_,hsnap⟩ := hinv.storeRead p seen hstore
  have hquiet := quiet_iff_reads_agree (c := start sm) rfl rfl hmeta hstore
  rw [← hrest] at hlog ⊢
  obtain ⟨hupTo,hunapplied⟩ := hlog.split
  rw [hcursor,hupTo,hunapplied,hquiet]
  refine ⟨hsnap,?_,?_⟩
  · rintro ⟨_,happend⟩
    exact append_cancel_right happend
  · rintro rfl
    exact ⟨hsnap,rfl⟩

/-- A put applied and persisted before the builder reads. -/
theorem snapshot_exact_after_batch :
    ∃ m p, (Machine.run step (start .freshRocksDb)
        [.lock,.entry (KLogStateMachine.putA none),.unlock,.persist,.readMeta,.readStore]).2.metaRead =
      some (m,[KLogStateMachine.putA none]) ∧
    (Machine.run step (start .freshRocksDb)
        [.lock,.entry (KLogStateMachine.putA none),.unlock,.persist,.readMeta,.readStore]).2.storeRead =
      some (p,[KLogStateMachine.putA none]) ∧
    ∃ peer, KLogStateMachine.freshRocksDb.Applied (KLogStateMachine.upTo m.lastLogId
        [KLogStateMachine.putA none]) peer ∧ p = peer.stateStore.buildSnapshot := by
  have hexact := (snapshot_exact_iff .freshRocksDb
    [.lock,.entry (KLogStateMachine.putA none),.unlock,.persist,.readMeta,.readStore]
    _ _ rfl _ _ rfl
    ⟨fun x hx c hc => by simp [KLogStateMachine.freshRocksDb] at hc,by decide⟩).2.mpr
    ⟨trivial,fun _ h => by simp [start,step] at h,trivial,trivial,trivial,trivial,trivial⟩
  exact ⟨_,_,rfl,rfl,hexact.1⟩

/-- A put applied between the two reads: the snapshot's position is before it and its payload
after it, so a node that installs it and replays the log puts twice. -/
theorem snapshot_torn_by_put : ∃ m before p seen,
    (Machine.run step (start .freshRocksDb)
      [.readMeta,.lock,.entry (KLogStateMachine.putA none),.unlock,.readStore]).2.metaRead =
        some (m,before) ∧
    (Machine.run step (start .freshRocksDb)
      [.readMeta,.lock,.entry (KLogStateMachine.putA none),.unlock,.readStore]).2.storeRead =
        some (.ok p,seen) ∧
    m.lastLogId = none ∧
    (KLogStateMachine.freshRocksDb.apply
      [KLogStateMachine.putA none]).2.stateStore.stateStore.metaAt "a" =
        some ⟨"a","x",0,1,1⟩ ∧
    (((KLogStateMachine.freshRocksDb.installSnapshot ⟨m,p⟩).2.apply
      (KLogStateMachine.unapplied m.lastLogId
        [KLogStateMachine.putA none])).2.stateStore.stateStore.metaAt "a") =
        some ⟨"a","x",0,1,2⟩ :=
  ⟨_,_,_,_,rfl,rfl,rfl,by decide +kernel,by decide +kernel⟩

end SnapshotRun
end BuckyOS.KLog
