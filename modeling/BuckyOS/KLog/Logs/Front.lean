import BuckyOS.Lib.Machine
import BuckyOS.KLog.Logs.Durable

/-! The front of a persisted raft log under crashes between two writes: when the first
stored entry is the one after the purge marker. -/
namespace BuckyOS.KLog
open List OrderedMap RaftLog

namespace RaftLog
variable {l : RaftLog} {lo hi : ℕ}

theorem mem_values (hkeyed : l.Keyed) (e : KEntry) :
    e ∈ l.logs.values ↔ l.logs.get? e.logId.index = some e := by
  constructor
  · intro he
    obtain ⟨⟨i,e'⟩,hmem,rfl⟩ := mem_map.mp he
    have hget := (l.logs.mem_entries_iff i e').mp hmem
    rwa [hkeyed i e' hget]
  · intro hget
    exact mem_map.mpr ⟨(e.logId.index,e),(l.logs.mem_entries_iff _ _).mpr hget,rfl⟩

theorem dropUpTo_eq_self (hkeyed : l.Keyed) {i : UInt64}
    (h : ∀ e ∈ l.logs.values, ¬ e.logId.index ≤ i) : l.dropUpTo i = l := by
  have hlogs : l.logs.filter (fun e => i < e.1) = l.logs := by
    apply ext
    intro k
    have hget := l.get?_dropUpTo i k
    rw [dropUpTo] at hget
    rw [hget]
    split_ifs with hik
    · rfl
    · symm
      by_contra hsome
      obtain ⟨e,he⟩ := Option.ne_none_iff_exists'.mp hsome
      have hindex := hkeyed k e he
      exact h e ((mem_values hkeyed e).mpr (by rw [hindex]; exact he)) (by rw [hindex]; exact not_lt.mp hik)
  rw [dropUpTo,hlogs]

/-- The stored indexes are those from `lo` up to but not including `hi`. -/
structure Window (l : RaftLog) (lo hi : ℕ) : Prop where
  keyed : l.Keyed
  ordered : lo ≤ hi
  bounded : hi ≤ 2^64
  stored : ∀ i, (l.logs.get? i).isSome ↔ lo ≤ i.toNat ∧ i.toNat < hi

namespace Window
variable {l : RaftLog} {lo hi : ℕ}

section
variable (h : l.Window lo hi)
include h

theorem entry {n : ℕ} (hlo : lo ≤ n) (hhi : n < hi) :
    ∃ e, l.logs.get? (UInt64.ofNat n) = some e ∧ e ∈ l.logs.values ∧ e.logId.index.toNat = n := by
  have hn : (UInt64.ofNat n).toNat = n := UInt64.toNat_ofNat_of_lt' (hhi.trans_le h.bounded)
  obtain ⟨e,he⟩ := Option.isSome_iff_exists.mp
    ((h.stored (UInt64.ofNat n)).mpr (by rw [hn]; exact ⟨hlo,hhi⟩))
  have hindex := h.keyed _ e he
  exact ⟨e,he,(mem_values h.keyed e).mpr (by rw [hindex]; exact he),by rw [hindex,hn]⟩

theorem index_of_mem {e : KEntry} (he : e ∈ l.logs.values) :
    lo ≤ e.logId.index.toNat ∧ e.logId.index.toNat < hi :=
  (h.stored _).mp (by rw [(mem_values h.keyed e).mp he]; rfl)

theorem values_eq_nil_iff : l.logs.values = [] ↔ hi ≤ lo := by
  constructor
  · intro hnil
    by_contra hlt
    obtain ⟨e,_,he,_⟩ := h.entry le_rfl (not_le.mp hlt)
    simp [hnil] at he
  · intro hle
    apply eq_nil_iff_forall_not_mem.mpr
    intro e he
    have hbounds := h.index_of_mem he
    omega

theorem head?_index {e : KEntry} (he : l.logs.values.head? = some e) : e.logId.index.toNat = lo := by
  rw [values,head?_map,Option.map_eq_some_iff] at he
  obtain ⟨⟨i,e'⟩,hhead,rfl⟩ := he
  have hget := (l.logs.mem_entries_iff i e').mp (mem_of_mem_head? hhead)
  have hbounds := (h.stored i).mp (by rw [hget]; rfl)
  obtain ⟨e,hlow,_,_⟩ := h.entry le_rfl (hbounds.1.trans_lt hbounds.2)
  have hle := l.logs.head?_le hhead ((l.logs.mem_entries_iff _ e).mpr hlow)
  have hnat : i.toNat ≤ (UInt64.ofNat lo).toNat := UInt64.le_iff_toNat_le.mp hle
  have hlo : (UInt64.ofNat lo).toNat = lo :=
    UInt64.toNat_ofNat_of_lt' ((hbounds.1.trans_lt hbounds.2).trans_le h.bounded)
  simp only [h.keyed i e' hget]
  omega

theorem lastEntry (hlt : lo < hi) : ∃ e, l.lastEntry = some e ∧ e.logId.index.toNat + 1 = hi := by
  obtain ⟨top,htop,_,hindex⟩ := h.entry (show lo ≤ hi - 1 by omega) (by omega)
  cases hlast : l.logs.entries.getLast? with
  | none =>
    rw [getLast?_eq_none_iff] at hlast
    have hmem := (l.logs.mem_entries_iff _ top).mpr htop
    simp [hlast] at hmem
  | some e =>
    have hget := (l.logs.mem_entries_iff e.1 e.2).mp (mem_of_mem_getLast? hlast)
    have hbounds := (h.stored e.1).mp (by rw [hget]; rfl)
    have hle : (UInt64.ofNat (hi - 1)).toNat ≤ e.1.toNat := UInt64.le_iff_toNat_le.mp
      (l.logs.le_getLast? hlast ((l.logs.mem_entries_iff _ top).mpr htop))
    have hn : (UInt64.ofNat (hi - 1)).toNat = hi - 1 :=
      UInt64.toNat_ofNat_of_lt' (lt_of_lt_of_le (by omega) h.bounded)
    refine ⟨e.2,by rw [RaftLog.lastEntry,hlast]; rfl,?_⟩
    rw [h.keyed e.1 e.2 hget]
    omega

theorem dropFrom (i : UInt64) : (l.dropFrom i).Window lo (max lo (min hi i.toNat)) := by
  have hordered := h.ordered
  have hbounded := h.bounded
  refine ⟨?_,by omega,by omega,?_⟩
  · intro k e hk
    rw [get?_dropFrom] at hk
    split_ifs at hk
    exact h.keyed k e hk
  · intro k
    rw [get?_dropFrom]
    split_ifs with hlt
    · have hnat := UInt64.lt_iff_toNat_lt.mp hlt
      rw [h.stored k]
      omega
    · have hnat := UInt64.le_iff_toNat_le.mp (not_lt.mp hlt)
      simp only [Option.isSome_none,Bool.false_eq_true,false_iff]
      omega

theorem move (hempty : hi ≤ lo) {n : ℕ} (hn : n ≤ 2^64) : l.Window n n := by
  refine ⟨h.keyed,le_rfl,hn,?_⟩
  intro i
  rw [h.stored i]
  omega

theorem dropUpTo {i : UInt64} (hlo : lo ≤ i.toNat + 1) :
    (l.dropUpTo i).Window (i.toNat + 1) (max hi (i.toNat + 1)) := by
  have hbounded := h.bounded
  have hlt := i.toNat_lt
  refine ⟨?_,by omega,by omega,?_⟩
  · intro k e hk
    rw [get?_dropUpTo] at hk
    split_ifs at hk
    exact h.keyed k e hk
  · intro k
    rw [get?_dropUpTo]
    split_ifs with hik
    · have hnat := UInt64.lt_iff_toNat_lt.mp hik
      rw [h.stored k]
      omega
    · have hnat := UInt64.le_iff_toNat_le.mp (not_lt.mp hik)
      simp only [Option.isSome_none,Bool.false_eq_true,false_iff]
      omega

end

end Window

def Consecutive (entries : List KEntry) : Prop :=
  entries.IsChain (fun a b => b.logId.index.toNat = a.logId.index.toNat + 1)

instance (entries : List KEntry) : Decidable (Consecutive entries) :=
  inferInstanceAs (Decidable (entries.IsChain _))

theorem Window.insert (h : l.Window lo hi) {e : KEntry} (he : e.logId.index.toNat = hi) :
    RaftLog.Window {l with logs := l.logs.insert e.logId.index e} lo (hi + 1) := by
  have hlt := e.logId.index.toNat_lt
  have hordered := h.ordered
  refine ⟨?_,by omega,by omega,?_⟩
  · intro i e' hi'
    rw [get?_insert] at hi'
    split_ifs at hi' with heq
    · obtain rfl := Option.some.inj hi'
      exact heq.symm
    · exact h.keyed i e' hi'
  · intro i
    simp only [get?_insert]
    split_ifs with heq
    · simp only [Option.isSome_some,true_iff,heq]
      omega
    · have hne : i.toNat ≠ hi := fun hcon => heq (UInt64.toNat_inj.mp (hcon.trans he.symm))
      rw [h.stored i]
      omega

theorem Window.append (h : l.Window lo hi) {entries : List KEntry} (hchain : Consecutive entries)
    (hfirst : ∀ e, entries.head? = some e → e.logId.index.toNat = hi) :
    (l.call (.append entries)).Window lo (hi + entries.length) := by
  induction entries generalizing l hi with
  | nil => exact h
  | cons e es ih =>
    have hnext : ∀ e', es.head? = some e' → e'.logId.index.toNat = hi + 1 := by
      intro e' he'
      obtain ⟨rest,rfl⟩ := head?_eq_some_iff.mp he'
      rw [(isChain_cons_cons.mp hchain).1,hfirst e rfl]
    have hrest := ih (h.insert (hfirst e rfl)) hchain.tail hnext
    rw [length_cons,Nat.add_comm es.length,← Nat.add_assoc]
    exact hrest

/-- The log at one moment of a run: its indexes lie in a window right after the purge marker,
or from the first appended index on, and every index purged so far is covered by the marker. -/
structure Intact (l : RaftLog) (firstAppended : Option UInt64) (purged : List UInt64)
    (lo hi : ℕ) : Prop where
  window : l.Window lo hi
  marked : ∀ p, l.lastPurged = some p → lo = p.index.toNat + 1
  unmarked : l.lastPurged = none → lo < hi → ∃ i, firstAppended = some i ∧ i.toNat = lo
  covered : ∀ i ∈ purged, ∃ p, l.lastPurged = some p ∧ i ≤ p.index

def beganAt (l l' : RaftLog) (firstAppended : Option UInt64) : Option UInt64 :=
  if l.logs.values = [] then l'.logs.values.head?.map (fun e => e.logId.index) else firstAppended

namespace Intact
variable {l l' : RaftLog} {firstAppended : Option UInt64} {purged : List UInt64} {lo hi lo' hi' : ℕ}

section
variable (h : l.Intact firstAppended purged lo hi)
include h

theorem keepMarker (hwindow : l'.Window lo' hi') (hmarker : l'.lastPurged = l.lastPurged)
    (hlo : lo' = lo ∨ hi ≤ lo ∧ l.lastPurged = none) :
    l'.Intact (l.beganAt l' firstAppended) purged lo' hi' := by
  refine ⟨hwindow,?_,?_,?_⟩
  · intro p hp
    rw [hmarker] at hp
    rcases hlo with rfl | ⟨_,hnone⟩
    · exact h.marked p hp
    · simp [hnone] at hp
  · intro hnone hlt
    rw [hmarker] at hnone
    rw [beganAt]
    split_ifs with hnil
    · cases hhead : l'.logs.values.head? with
      | none => exact absurd (head?_eq_none_iff.mp hhead) (by rw [hwindow.values_eq_nil_iff]; omega)
      | some e => exact ⟨e.logId.index,rfl,hwindow.head?_index hhead⟩
    · rw [h.window.values_eq_nil_iff] at hnil
      obtain rfl : lo' = lo := by omega
      exact h.unmarked hnone (not_le.mp hnil)
  · rw [hmarker]
    exact h.covered

theorem unchanged : l.Intact (l.beganAt l firstAppended) purged lo hi:= h.keepMarker h.window rfl (.inl rfl)

theorem truncate (logId : KLogId) : ∃ hi', (l.call (.truncate logId)).Intact
      (l.beganAt (l.call (.truncate logId)) firstAppended) purged lo hi' :=
  ⟨_,h.keepMarker (h.window.dropFrom logId.index) rfl (.inl rfl)⟩

theorem append {entries : List KEntry} (hchain : Consecutive entries)
    (hnext : ∀ last, l.logState.lastLogId = some last → ∀ e, entries.head? = some e →
      e.logId.index.toNat = last.index.toNat + 1) :
    ∃ lo' hi', (l.call (.append entries)).Intact
      (l.beganAt (l.call (.append entries)) firstAppended) purged lo' hi' := by
  by_cases hlt : lo < hi
  · obtain ⟨last,hlast,hindex⟩ := h.window.lastEntry hlt
    have hat : ∀ e, entries.head? = some e → e.logId.index.toNat = hi := by
      intro e he
      rw [hnext last.logId (by simp [logState,hlast]) e he,hindex]
    exact ⟨_,_,h.keepMarker (h.window.append hchain hat) rfl (.inl rfl)⟩
  · have hnone : l.lastEntry = none := by
      have hnil := h.window.values_eq_nil_iff.mpr (not_lt.mp hlt)
      rw [values,map_eq_nil_iff] at hnil
      rw [lastEntry,hnil]
      rfl
    cases hpurged : l.lastPurged with
    | some p =>
      have hat : ∀ e, entries.head? = some e → e.logId.index.toNat = hi := by
        intro e he
        have hmarked := h.marked p hpurged
        have hordered := h.window.ordered
        rw [hnext p (by simp [logState,hnone,hpurged]) e he]
        omega
      exact ⟨_,_,h.keepMarker (h.window.append hchain hat) rfl (.inl rfl)⟩
    | none =>
      cases entries with
      | nil => exact ⟨lo,hi,h.unchanged⟩
      | cons e es =>
        have hmoved := h.window.move (not_lt.mp hlt) (n := e.logId.index.toNat) e.logId.index.toNat_lt.le
        have hat : ∀ e', (e :: es).head? = some e' → e'.logId.index.toNat = e.logId.index.toNat := by
          rintro e' ⟨⟩
          rfl
        exact ⟨_,_,h.keepMarker (hmoved.append hchain hat) rfl (.inr ⟨not_lt.mp hlt,hpurged⟩)⟩

theorem purge {logId : KLogId} (hforward : ∀ p, l.lastPurged = some p → p.index ≤ logId.index)
    (hreached : l.lastPurged = none → ∀ e, l.logs.values.head? = some e → e.logId.index ≤ logId.index)
    (began : Option UInt64) {removed : List UInt64} (hremoved : ∀ i ∈ removed, i ≤ logId.index) :
    ∃ lo' hi', (l.call (.purge logId)).Intact began (purged ++ removed) lo' hi' := by
  have hwindow : ∃ lo' hi', (l.call (.purge logId)).Window lo' hi' ∧ lo' = logId.index.toNat + 1 := by
    by_cases hempty : hi ≤ lo
    · have hmoved := h.window.move hempty (n := logId.index.toNat + 1) logId.index.toNat_lt
      have hdropped := hmoved.dropUpTo le_rfl
      exact ⟨_,_,⟨hdropped.keyed,hdropped.ordered,hdropped.bounded,hdropped.stored⟩,rfl⟩
    · have hlo : lo ≤ logId.index.toNat + 1 := by
        cases hpurged : l.lastPurged with
        | some p =>
          have hle := UInt64.le_iff_toNat_le.mp (hforward p hpurged)
          rw [h.marked p hpurged]
          omega
        | none =>
          cases hhead : l.logs.values.head? with
          | none => exact absurd (h.window.values_eq_nil_iff.mp (head?_eq_none_iff.mp hhead)) hempty
          | some e =>
            have hle := UInt64.le_iff_toNat_le.mp (hreached hpurged e hhead)
            have hindex := h.window.head?_index hhead
            omega
      have hdropped := h.window.dropUpTo hlo
      exact ⟨_,_,⟨hdropped.keyed,hdropped.ordered,hdropped.bounded,hdropped.stored⟩,rfl⟩
  obtain ⟨lo',hi',hwindow,hlo'⟩ := hwindow
  refine ⟨lo',hi',hwindow,?_,?_,?_⟩
  · rintro p ⟨⟩
    exact hlo'
  · rintro ⟨⟩
  · intro i hi
    refine ⟨logId,rfl,?_⟩
    rcases mem_append.mp hi with hold | hnew
    · obtain ⟨p,hp,hle⟩ := h.covered i hold
      exact hle.trans (hforward p hp)
    · exact hremoved i hnew

end

end Intact
end RaftLog

/-- A run of a durable log, with the index at which the log last began and the indexes of the
entries that purges have removed. -/
structure LogRun where
  storage : DurableLog
  firstAppended : Option UInt64
  purged : List UInt64

/-- A completed call, or one cut short by a crash after a number of writes. -/
inductive LogEvent
  | completed (c : LogCall)
  | crashed (c : LogCall) (writes : ℕ)
  deriving DecidableEq

namespace LogEvent
def call : LogEvent → LogCall
  | .completed c | .crashed c _ => c

def apply (d : DurableLog) : LogEvent → DurableLog
  | .completed c => d.call c
  | .crashed c writes => d.callUpTo writes c

def isPurge (e : LogEvent) : Bool :=
  match e.call with
  | .purge _ => true
  | _ => false

/-- A purge that stops after its first of two writes, and reaches the index. -/
def dropsUnmarked (i : UInt64) : LogEvent → Bool
  | .crashed (.purge logId) 1 => logId.index ≤ sqliteLogIndexMaxU64 ∧ i ≤ logId.index
  | _ => false

end LogEvent

namespace LogRun
def start (d : DurableLog) : LogRun := ⟨d,none,[]⟩

variable (r : LogRun) (e : LogEvent)

def step : Unit × LogRun :=
  let storage := e.apply r.storage
  let before := r.storage.entries
  let after := storage.entries
  ((),{
    storage
    firstAppended :=
      if before = [] then after.head?.map (fun e => e.logId.index) else r.firstAppended
    purged :=
      if e.isPurge then
        r.purged ++ (before.filter (fun e => e ∉ after)).map (fun e => e.logId.index)
      else r.purged })

/-- How raft calls the storage: it appends consecutive entries after the last log id, and it
never purges up to an earlier position than before, nor short of the first entry. -/
def Expects : LogCall → Prop
  | .append entries => RaftLog.Consecutive entries ∧
      ∀ last ∈ r.storage.logState.lastLogId, ∀ e ∈ entries.head?,
        e.logId.index.toNat = last.index.toNat + 1
  | .purge logId =>
      (∀ p ∈ r.storage.logState.lastPurgedLogId, p.index ≤ logId.index) ∧
      (r.storage.logState.lastPurgedLogId = none →
        ∀ e ∈ r.storage.entries.head?, e.logId.index ≤ logId.index)
  | .truncate _ | .saveVote _ | .saveCommitted _ => True

instance (r : LogRun) : ∀ c, Decidable (r.Expects c)
  | .append entries => inferInstanceAs (Decidable (RaftLog.Consecutive entries ∧
      ∀ last ∈ r.storage.logState.lastLogId, ∀ e ∈ entries.head?,
        e.logId.index.toNat = last.index.toNat + 1))
  | .purge logId => inferInstanceAs (Decidable
      ((∀ p ∈ r.storage.logState.lastPurgedLogId, p.index ≤ logId.index) ∧
      (r.storage.logState.lastPurgedLogId = none →
        ∀ e ∈ r.storage.entries.head?, e.logId.index ≤ logId.index)))
  | .truncate _ | .saveVote _ | .saveCommitted _ => inferInstanceAs (Decidable True)

/-- Both reads succeed; the first entry is the one after the purge marker, or the first one
appended if there is no marker; and the marker covers every entry that was purged. -/
def FrontIntact : Prop :=
  ∃ st es, r.storage.getLogState = .ok st ∧ r.storage.tryGetLogEntries .full = .ok es ∧
    (∀ e ∈ es.head?,
      match st.lastPurgedLogId with
      | some p => e.logId.index.toNat = p.index.toNat + 1
      | none => r.firstAppended = some e.logId.index) ∧
    ∀ i ∈ r.purged, ∃ p, st.lastPurgedLogId = some p ∧ i ≤ p.index

/-- SQLite is stopped between the two writes of a purge, the first of which removes a row. -/
def TornPurge : Prop :=
  r.storage.isSqlite = true ∧ ∃ entry ∈ r.storage.entries, e.dropsUnmarked entry.logId.index = true

instance (r : LogRun) (e : LogEvent) : Decidable (r.TornPurge e) :=
  inferInstanceAs (Decidable (_ ∧ _))

def Sound : Prop :=
  ∃ l lo hi, r.storage.Represents l ∧ l.Intact r.firstAppended r.purged lo hi

theorem start_sound {d : DurableLog} (h : d.Represents RaftLog.empty) : (start d).Sound := by
  refine ⟨RaftLog.empty,0,0,h,⟨?_,le_rfl,by norm_num,?_⟩,?_,?_,?_⟩
  · intro i e he
    simp [RaftLog.empty] at he
  · intro i
    simp [RaftLog.empty]
  · intro p hp
    simp [RaftLog.empty] at hp
  · intro _ hlt
    simp at hlt
  · intro i hi
    simp [start] at hi

variable {r : LogRun}

theorem Sound.frontIntact (h : r.Sound) : r.FrontIntact := by
  obtain ⟨l,lo,hi,hrep,hintact⟩ := h
  refine ⟨l.logState,l.entriesIn .full,hrep.getLogState,hrep.tryGetLogEntries _,?_,hintact.covered⟩
  intro e he
  rw [entriesIn_full] at he
  have hindex := hintact.window.head?_index he
  have hstored := hintact.window.index_of_mem (mem_of_mem_head? he)
  cases hpurged : l.lastPurged with
  | some p =>
    have hmarked := hintact.marked p hpurged
    simp only [logState,hpurged]
    omega
  | none =>
    obtain ⟨i,hfirst,hi⟩ := hintact.unmarked hpurged (by omega)
    simp only [logState,hpurged,hfirst,Option.some.injEq]
    exact UInt64.toNat_inj.mp (hi.trans hindex.symm)

variable {e : LogEvent} {l : RaftLog}

theorem step_firstAppended {l' : RaftLog} (hrep : r.storage.Represents l)
    (hrep' : (e.apply r.storage).Represents l') :
    (r.step e).2.firstAppended = l.beganAt l' r.firstAppended := by
  simp only [step,beganAt,hrep.entries,hrep'.entries]

theorem step_purged_of_not_purge (h : e.isPurge = false) : (r.step e).2.purged = r.purged := by
  simp [step,h]

theorem step_purged_of_unchanged (hrep : r.storage.Represents l)
    (hrep' : (e.apply r.storage).Represents l) : (r.step e).2.purged = r.purged := by
  simp [step,hrep.entries,hrep'.entries]

theorem apply_cases (hrep : r.storage.Represents l) (hkeyed : l.Keyed) (htorn : ¬ r.TornPurge e) :
    (e.apply r.storage).Represents l ∨ (e.apply r.storage).Represents (l.call e.call) := by
  cases e with
  | completed c => exact hrep.call c
  | crashed c writes =>
    rcases hrep.callUpTo writes c with hsame | hcall | ⟨logId,rfl,rfl,hsqlite,hid,hdrop⟩
    · exact .inl hsame
    · exact .inr hcall
    · left
      have hnone : ∀ e ∈ l.logs.values, ¬ e.logId.index ≤ logId.index := by
        intro e he hle
        exact htorn ⟨hsqlite,e,by rw [hrep.entries]; exact he,decide_eq_true ⟨hid,hle⟩⟩
      rwa [dropUpTo_eq_self hkeyed hnone] at hdrop

theorem index_le_of_purged (hkeyed : l.Keyed) {logId : KLogId} {i : UInt64}
    (h : i ∈ (l.logs.values.filter (fun e => e ∉ (l.call (.purge logId)).logs.values)).map (fun e => e.logId.index)) :
    i ≤ logId.index := by
  obtain ⟨e,he,rfl⟩ := mem_map.mp h
  obtain ⟨hin,hout⟩ := mem_filter.mp he
  by_contra hgt
  have hget := (mem_values hkeyed e).mp hin
  have hkept : (l.dropUpTo logId.index).logs.get? e.logId.index = some e := by
    rw [get?_dropUpTo,if_pos (not_le.mp hgt),hget]
  have hmem : e ∈ (l.call (.purge logId)).logs.values :=
    mem_map.mpr ⟨(e.logId.index,e),((l.dropUpTo logId.index).logs.mem_entries_iff _ _).mpr hkept,rfl⟩
  simp [hmem] at hout

attribute [local simp] LogEvent.isPurge

theorem Sound.step (h : r.Sound) (hexpected : r.Expects e.call) (htorn : ¬ r.TornPurge e) :
    (r.step e).2.Sound := by
  obtain ⟨l,lo,hi,hrep,hintact⟩ := h
  rcases apply_cases hrep hintact.window.keyed htorn with hsame | hcall
  · refine ⟨l,lo,hi,hsame,?_⟩
    rw [step_firstAppended hrep hsame,step_purged_of_unchanged hrep hsame]
    exact hintact.unchanged
  · suffices hnext : ∃ lo' hi', (l.call e.call).Intact (r.step e).2.firstAppended
        (r.step e).2.purged lo' hi' by
      obtain ⟨lo',hi',hnext⟩ := hnext
      exact ⟨l.call e.call,lo',hi',hcall,hnext⟩
    rw [step_firstAppended hrep hcall]
    cases hc : e.call with
    | append entries =>
      rw [step_purged_of_not_purge (by simp [hc])]
      simp only [Expects,hc,hrep.logState] at hexpected
      exact hintact.append hexpected.1 hexpected.2
    | truncate logId =>
      rw [step_purged_of_not_purge (by simp [hc])]
      exact ⟨lo,hintact.truncate logId⟩
    | purge logId =>
      simp only [Expects,hc,hrep.logState,hrep.entries] at hexpected
      rw [hc] at hcall
      have hpurged : (r.step e).2.purged = r.purged ++
          (l.logs.values.filter fun e => e ∉ (l.call (.purge logId)).logs.values).map
            (fun e => e.logId.index) := by
        simp [LogRun.step,hc,hrep.entries,hcall.entries]
      rw [hpurged]
      exact hintact.purge hexpected.1 hexpected.2 _ (fun i hi => index_le_of_purged hintact.window.keyed hi)
    | saveVote vote | saveCommitted committed =>
      rw [step_purged_of_not_purge (by simp [hc])]
      have hw := hintact.window
      exact ⟨lo,hi,hintact.keepMarker ⟨hw.keyed,hw.ordered,hw.bounded,hw.stored⟩ rfl (.inl rfl)⟩

/-- After a torn purge a removed entry lies past the marker. -/
theorem Sound.torn (h : r.Sound) (htorn : r.TornPurge e) : ¬ (r.step e).2.FrontIntact := by
  obtain ⟨l,lo,hi,hrep,hintact⟩ := h
  obtain ⟨hsqlite,entry,hentry,hdrops⟩ := htorn
  obtain ⟨logId,rfl,hid,hle⟩ : ∃ logId, e = .crashed (.purge logId) 1 ∧
      logId.index ≤ sqliteLogIndexMaxU64 ∧ entry.logId.index ≤ logId.index := by
    unfold LogEvent.dropsUnmarked at hdrops
    split at hdrops
    · exact ⟨_,rfl,of_decide_eq_true hdrops⟩
    · simp at hdrops
  have hdropped := hrep.callUpTo_torn hsqlite hid
  rw [hrep.entries] at hentry
  have hgone : entry ∉ (l.dropUpTo logId.index).logs.values := by
    intro hin
    obtain ⟨⟨i,e'⟩,hmem,rfl⟩ := mem_map.mp hin
    have hget := ((l.dropUpTo logId.index).logs.mem_entries_iff i e').mp hmem
    rw [get?_dropUpTo] at hget
    split_ifs at hget with hlt
    exact absurd hle (not_le.mpr (hintact.window.keyed i e' hget ▸ hlt))
  have hpurged : entry.logId.index ∈ (r.step (.crashed (.purge logId) 1)).2.purged := by
    simp only [LogRun.step,LogEvent.isPurge,LogEvent.call,LogEvent.apply,hrep.entries,
      hdropped.entries,if_true]
    exact mem_append_right _ (mem_map.mpr ⟨entry,mem_filter.mpr ⟨hentry,by simpa using hgone⟩,rfl⟩)
  rintro ⟨st,es,hst,-,-,hcovered⟩
  obtain rfl : (l.dropUpTo logId.index).logState = st := Except.ok.inj (hdropped.getLogState.symm.trans hst)
  obtain ⟨p,hp,hcover⟩ := hcovered _ hpurged
  have hmarked := hintact.marked p hp
  have hlow := (hintact.window.index_of_mem hentry).1
  have hnat := UInt64.le_iff_toNat_le.mp hcover
  omega

/-- From a newly opened storage, whatever calls raft makes and wherever the process stops:
the front of the log stays intact exactly if no purge of SQLite is torn while it removes a
row. -/
theorem front_intact_iff {d : DurableLog}
    (hd : d = .sqlite SqliteLogStorage.create ∨ d = .rocksdb RocksDbLogStorage.create)
    {events : List LogEvent} (hexpected : Machine.Along step (fun r e => r.Expects e.call) (start d) events) :
    (∀ k, (Machine.run step (start d) (events.take k)).2.FrontIntact) ↔
      Machine.Along step (fun r e => ¬ r.TornPurge e) (start d) events := by
  have hnew : d.Represents RaftLog.empty := by
    rcases hd with rfl | rfl
    · exact SqliteLogStorage.create_represents
    · exact RocksDbLogStorage.create_represents
  refine Machine.always_iff_along (I := Sound) (fun r h => h.frontIntact)
    (fun r e h hexp htorn => h.step hexp htorn) ?_ (start_sound hnew) hexpected
  intro r e h _ htorn
  exact h.torn (not_not.mp htorn)

def blankAt (i : UInt64) : KEntry := ⟨⟨1,1,i⟩,.blank⟩

theorem front_intact_after_purge :
    (Machine.run step (start (.sqlite SqliteLogStorage.create))
      ([.completed (.append [blankAt 0,blankAt 1,blankAt 2]),.completed (.purge ⟨1,1,1⟩),
        .crashed (.purge ⟨1,1,1⟩) 1,.crashed (.append [blankAt 3]) 1,
        .completed (.truncate ⟨1,1,3⟩)].take 5)).2.FrontIntact :=
  (front_intact_iff (.inl rfl) (by decide +kernel)).mpr (by decide +kernel) 5

/-- Entries 0 to 2 are appended, then a purge up to 1 stops after its first write. -/
def tornEvents : List LogEvent :=
  [.completed (.append [blankAt 0,blankAt 1,blankAt 2]),.crashed (.purge ⟨1,1,1⟩) 1]

def tornRun : LogRun := (Machine.run step (start (.sqlite SqliteLogStorage.create)) tornEvents).2

/-- The log then starts at 2 with no purge marker, though 0 was the first entry appended. -/
theorem front_torn_by_purge :
    Machine.Along step (fun r e => r.Expects e.call) (start (.sqlite SqliteLogStorage.create))
      tornEvents ∧
    tornRun.storage.tryGetLogEntries .full = .ok [blankAt 2] ∧
    tornRun.storage.getLogState = .ok ⟨none,some ⟨1,1,2⟩⟩ ∧
    tornRun.firstAppended = some 0 ∧ ¬ tornRun.FrontIntact := by
  have hread : tornRun.storage.tryGetLogEntries .full = .ok [blankAt 2] := rfl
  have hstate : tornRun.storage.getLogState = .ok ⟨none,some ⟨1,1,2⟩⟩ := rfl
  have hfirst : tornRun.firstAppended = some 0 := rfl
  refine ⟨by decide +kernel,hread,hstate,hfirst,?_⟩
  rintro ⟨st,es,hst,hes,hfront,-⟩
  obtain rfl := Except.ok.inj (hstate.symm.trans hst)
  obtain rfl := Except.ok.inj (hread.symm.trans hes)
  have hat := hfront (blankAt 2) rfl
  simp only [hfirst] at hat
  exact absurd hat (by decide)

end LogRun
end BuckyOS.KLog
