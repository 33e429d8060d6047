import BuckyOS.Lib.Registry
import BuckyOS.KLog.Replicas

/-! The snapshot files of a node, and which of them is taken for the current one. Ids carry the
second of the clock of the node that generated them. -/
namespace BuckyOS.KLog
open Text List

/-- A snapshot with the second at which its id was generated, on whichever node. -/
structure DatedSnapshot where
  second : Int64
  snapshot : KSnapshot

namespace DatedSnapshot
def lastLogId (d : DatedSnapshot) : Option KLogId := d.snapshot.snapshotMeta.lastLogId

/-- The order of log ids: by leader, then by index; nothing comes before the first. -/
def position (d : DatedSnapshot) : WithBot (ℕ ×ₗ ℕ ×ₗ ℕ) :=
  d.lastLogId.map (fun id => toLex (id.term.toNat,toLex (id.nodeId.toNat,id.index.toNat)))

def index (d : DatedSnapshot) : ℕ := (d.lastLogId.map (fun id => id.index.toNat)).getD 0

def stamp (d : DatedSnapshot) : ℤ ×ₗ ℤ := toLex (d.second.toInt,d.index)

end DatedSnapshot

section Code
variable (leaderText : UInt64 → UInt64 → String)

def generateSnapshotId (second : Int64) (lastLogId : Option KLogId) : List Char :=
  (toString second.toInt).toList ++ '_' ::
    match lastLogId with
    | some id => (leaderText id.term id.nodeId).toList ++ '_' :: (toString id.index.toNat).toList
    | none => "0_0".toList

def parseI64 (text : List Char) : Option ℤ :=
  (parseSigned text).filter (fun n => -2 ^ 63 ≤ n ∧ n < 2 ^ 63)

def parseSnapshotId (sid : List Char) : Option (ℤ × ℤ) :=
  (splitOnce '_' sid).bind fun first => (parseI64 first.1).bind fun ts =>
    (splitOnce '_' sid.reverse).bind fun last => (parseI64 last.1.reverse).map fun logId => (ts,logId)

def fileTag : List Char := "snapshot_".toList

def parseSnapshotFileName (name : List Char) : Option (ℤ × ℤ) :=
  if fileTag.isPrefixOf name then parseSnapshotId (name.drop fileTag.length) else none

def DatedSnapshot.fileName (d : DatedSnapshot) : List Char :=
  fileTag ++ generateSnapshotId leaderText d.second d.lastLogId

structure DirEntry where
  name : List Char
  isDir : Bool
  data : Option DatedSnapshot

/-- One iteration of the loop of `load_current_snapshot`, with the latest time and file so far. -/
def considerEntry (latest : Option (ℤ × List Char)) (entry : DirEntry) : Option (ℤ × List Char) :=
  if !fileTag.isPrefixOf entry.name || entry.isDir then latest
  else
    match parseSnapshotFileName entry.name with
    | none => latest
    | some (ts,logId) =>
      match latest with
      | none => some (ts,entry.name)
      | some (latestTs,lastName) =>
        if latestTs < ts then some (ts,entry.name)
        else if ts = latestTs then
          match parseSnapshotFileName lastName with
          | none => latest
          | some (_,lastLogId) => if lastLogId < logId then some (ts,entry.name) else latest
        else latest

def loadCurrentSnapshot (list : List DirEntry) : Except String (Option DatedSnapshot) :=
  match list.foldl considerEntry none with
  | none => .ok none
  | some (_,name) =>
    match (list.find? (fun entry => entry.name = name)).bind DirEntry.data with
    | none => .error "Failed to deserialize snapshot data"
    | some data => .ok (some data)

def DatedSnapshot.entry (d : DatedSnapshot) : DirEntry := ⟨d.fileName leaderText,false,some d⟩

structure SnapshotNode where
  sm : KLogStateMachine
  files : Registry (DatedSnapshot.fileName leaderText)

/-- Entries are applied, a snapshot is built at a second of the clock, one of another node is
installed, or the files that a build left behind are removed. -/
inductive FileEvent
  | apply (batch : List TimedEntry)
  | build (second : Int64)
  | install (dated : DatedSnapshot)
  | cleanOld (kept : List Char)

namespace SnapshotNode
variable {leaderText}

def step (c : SnapshotNode leaderText) : FileEvent → Unit × SnapshotNode leaderText
  | .apply batch => ((),{ c with sm := (c.sm.apply batch).2 })
  | .build second =>
    match c.sm.stateStore.buildSnapshot with
    | .error _ => ((),c)
    | .ok klogData =>
      let dated : DatedSnapshot := ⟨second,⟨c.sm.snapshotMetaOf,klogData⟩⟩
      if (c.files.find? (dated.fileName leaderText)).isSome then ((),c)
      else ((),{ c with files := c.files.insert dated })
  | .install dated =>
    ((),⟨(c.sm.installSnapshot dated.snapshot).2,c.files.insert dated⟩)
  | .cleanOld kept =>
    ((),{ c with files := c.files.filter (fun d => d.fileName leaderText = fileTag ++ kept) })

end SnapshotNode
end Code

section Names
theorem toString_int (n : ℤ) : parseSigned (toString n).toList = some n ∧ '_' ∉ (toString n).toList := by
  cases n with
  | ofNat n =>
    have htext : (toString (Int.ofNat n)).toList = Nat.toDigits 10 n := Nat.toList_repr
    rw [htext]
    exact ⟨parseSigned_toDigits n,not_mem_toDigits (by decide) n⟩
  | negSucc n =>
    have htext : (toString (Int.negSucc n)).toList = '-' :: Nat.toDigits 10 (n + 1) := by
      show ("-" ++ Nat.repr (n + 1)).toList = _
      rw [String.toList_append,Nat.toList_repr]
      rfl
    rw [htext]
    refine ⟨?_,not_mem_cons_of_ne_of_not_mem (by decide) (not_mem_toDigits (by decide) _)⟩
    simp [parseSigned,digitsValue_toDigits,Int.negSucc_eq]

theorem parseSnapshotId_join {ts logId : ℤ} {first last : List Char} (middle : List Char)
    (hfirst : '_' ∉ first) (hlast : '_' ∉ last) (hts : parseI64 first = some ts)
    (hlogId : parseI64 last = some logId) :
    parseSnapshotId (first ++ '_' :: (middle ++ '_' :: last)) = some (ts,logId) := by
  have hreverse : (first ++ '_' :: (middle ++ '_' :: last)).reverse =
      last.reverse ++ '_' :: (middle.reverse ++ '_' :: first.reverse) := by simp
  rw [parseSnapshotId,hreverse,splitOnce_append hfirst,splitOnce_append (by simpa using hlast)]
  simp [hts,hlogId]

variable (leaderText : UInt64 → UInt64 → String)

open DatedSnapshot (entry fileName stamp)

theorem parseSnapshotFileName_fileName {d : DatedSnapshot} (hindex : d.index < 2 ^ 63) :
    parseSnapshotFileName (d.fileName leaderText) = some (d.second.toInt,(d.index : ℤ)) := by
  have htag : fileTag.isPrefixOf (d.fileName leaderText) = true :=
    isPrefixOf_iff_prefix.mpr (prefix_append _ _)
  obtain ⟨hsecond,hfree⟩ := toString_int d.second.toInt
  have hts : parseI64 _ = _ := inRange_of_parseSigned hsecond d.second.le_toInt d.second.toInt_lt
  rw [parseSnapshotFileName,if_pos htag,fileName,drop_left]
  rw [DatedSnapshot.index] at hindex ⊢
  cases hlast : d.lastLogId with
  | none => exact parseSnapshotId_join ['0'] hfree (by decide) hts (by decide)
  | some id =>
    rw [hlast,Option.map_some,Option.getD_some] at hindex
    show parseSnapshotId _ = some (d.second.toInt,(id.index.toNat : ℤ))
    refine parseSnapshotId_join _ hfree ?_ hts (inRange_of_parseSigned ?_ (by omega) (by omega))
    · rw [toList_toString]
      exact not_mem_toDigits (by decide) _
    · rw [toList_toString]
      exact parseSigned_toDigits _

/-- The loop finds a file whose id is the last by time, then by index. -/
theorem foldl_considerEntry (ds : List DatedSnapshot) (hindex : ∀ d ∈ ds, d.index < 2 ^ 63) :
    (ds = [] ∧ (ds.map (entry leaderText)).foldl considerEntry none = none) ∨
      ∃ d ∈ ds, (ds.map (entry leaderText)).foldl considerEntry none =
        some (d.second.toInt,d.fileName leaderText) ∧ ∀ e ∈ ds, e.stamp ≤ d.stamp := by
  induction ds using reverseRecOn with
  | nil => exact Or.inl ⟨rfl,rfl⟩
  | append_singleton ds e ih =>
    have hnew := parseSnapshotFileName_fileName leaderText (hindex e (by simp))
    have htag : fileTag.isPrefixOf (e.fileName leaderText) = true :=
      isPrefixOf_iff_prefix.mpr (prefix_append _ _)
    rw [map_append,foldl_append]
    refine Or.inr ?_
    rcases ih (fun d hd => hindex d (by simp [hd])) with ⟨rfl,hnone⟩ | ⟨d,hd,hsome,hlast⟩
    · refine ⟨e,by simp,?_,by simp⟩
      simp [considerEntry,entry,htag,hnew]
    · have hold := parseSnapshotFileName_fileName leaderText (hindex d (by simp [hd]))
      have hstep : considerEntry (some (d.second.toInt,d.fileName leaderText))
          (entry leaderText e) = if d.stamp < e.stamp then
            some (e.second.toInt,e.fileName leaderText) else
            some (d.second.toInt,d.fileName leaderText) := by
        simp only [considerEntry,entry,htag,hnew,hold,stamp,
          Prod.Lex.toLex_lt_toLex,Nat.cast_lt,Bool.not_true,Bool.or_self,Bool.false_eq_true,if_false]
        split_ifs <;> first | rfl | omega
      rw [hsome,map_singleton,foldl_cons,foldl_nil,hstep]
      split_ifs with hlt
      · refine ⟨e,by simp,rfl,fun f hf => ?_⟩
        rcases mem_append.mp hf with hf | hf
        · exact (hlast f hf).trans hlt.le
        · rw [mem_singleton.mp hf]
      · refine ⟨d,by simp [hd],rfl,fun f hf => ?_⟩
        rcases mem_append.mp hf with hf | hf
        · exact hlast f hf
        · rw [mem_singleton.mp hf]
          exact not_lt.mp hlt

end Names

section Selection
variable {leaderText : UInt64 → UInt64 → String} {files : Registry (DatedSnapshot.fileName leaderText)}
  {listing : List DatedSnapshot}

open DatedSnapshot (entry)

theorem find?_entry (hlisting : listing.Perm files.items) {d : DatedSnapshot} (hd : d ∈ listing) :
    (listing.map (entry leaderText)).find?
      (fun entry => entry.name = d.fileName leaderText) = some (d.entry leaderText) := by
  rw [find?_map]
  cases hfind : listing.find? ((fun entry => decide (entry.name = d.fileName leaderText)) ∘
      entry leaderText) with
  | none => exact absurd (find?_eq_none.mp hfind d hd) (by simp [entry])
  | some e =>
    have he := hlisting.mem_iff.mp (mem_of_find?_eq_some hfind)
    have hname := find?_some hfind
    rw [files.eq_of_key_eq he (hlisting.mem_iff.mp hd) (of_decide_eq_true hname)]
    rfl

/-- Snapshots of later log positions have ids of later seconds, or of the same second with a larger
index. -/
def InOrder (files : Registry (DatedSnapshot.fileName leaderText)) : Prop :=
  ∀ d ∈ files.items, ∀ e ∈ files.items, d.position < e.position → d.stamp < e.stamp

def filesAfter (leaderText : UInt64 → UInt64 → String) (sm : KLogStateMachine)
    (events : List FileEvent) : Registry (DatedSnapshot.fileName leaderText) :=
  (Machine.run SnapshotNode.step ⟨sm,.empty⟩ events).2.files

/-- Whatever a node builds, installs and removes, and in whatever order the directory is listed:
while the ids are in the order of the log, a snapshot is loaded that no other one is ahead of. -/
theorem newest_snapshot_loaded (leaderText : UInt64 → UInt64 → String) (sm : KLogStateMachine)
    (events : List FileEvent) (hindex : ∀ d ∈ (filesAfter leaderText sm events).items, d.index < 2 ^ 63)
    (horder : InOrder (filesAfter leaderText sm events)) (listing : List DatedSnapshot)
    (hlisting : listing.Perm (filesAfter leaderText sm events).items) (hne : listing ≠ []) :
    ∃ d ∈ listing,
      loadCurrentSnapshot (listing.map (DatedSnapshot.entry leaderText)) = .ok (some d) ∧
      ∀ e ∈ listing, e.position ≤ d.position := by
  rcases foldl_considerEntry leaderText listing (fun d hd => hindex d (hlisting.mem_iff.mp hd)) with
    ⟨hnil,_⟩ | ⟨d,hd,hsome,hlast⟩
  · exact absurd hnil hne
  · refine ⟨d,hd,?_,fun e he => not_lt.mp (fun hahead => ?_)⟩
    · rw [loadCurrentSnapshot,hsome]
      simp only [find?_entry hlisting hd]
      rfl
    · have hstamp := horder d (hlisting.mem_iff.mp hd) e (hlisting.mem_iff.mp he) hahead
      exact absurd hstamp (hlast e he).not_gt

end Selection

def leaderTerm (term _nodeId : UInt64) : String := toString term.toNat

def otherSnapshot (second : Int64) (index : UInt64) : DatedSnapshot :=
  ⟨second,⟨⟨some ⟨1,1,index⟩,default⟩,.data ⟨[],[]⟩⟩⟩

/-- A node that has applied the entry at index 1 builds a snapshot, and then installs one up to
index 5. -/
def builtThenInstalled (built installed : Int64) : List FileEvent :=
  [.apply [⟨⟨⟨1,1,1⟩,.blank⟩,⟨0,0,0⟩⟩],.build built,.install (otherSnapshot installed 5)]

theorem newest_snapshot_loaded_installed :
    ∃ d ∈ (filesAfter leaderTerm .freshRocksDb (builtThenInstalled 50 100)).items,
      loadCurrentSnapshot ((filesAfter leaderTerm .freshRocksDb (builtThenInstalled 50 100)).items.map
        (DatedSnapshot.entry leaderTerm)) = .ok (some d) ∧
      ∀ e ∈ (filesAfter leaderTerm .freshRocksDb (builtThenInstalled 50 100)).items,
        e.position ≤ d.position :=
  newest_snapshot_loaded leaderTerm .freshRocksDb (builtThenInstalled 50 100) (by decide +kernel)
    (by unfold InOrder; decide +kernel) _ (.refl _) (ne_nil_of_length_pos (by decide +kernel))

/-- The other node's clock is behind: the older snapshot is loaded. -/
theorem older_snapshot_loaded :
    ∃ d, ∃ e ∈ (filesAfter leaderTerm .freshRocksDb (builtThenInstalled 100 50)).items,
      loadCurrentSnapshot ((filesAfter leaderTerm .freshRocksDb (builtThenInstalled 100 50)).items.map
        (DatedSnapshot.entry leaderTerm)) = .ok (some d) ∧ d.position < e.position :=
  ⟨_,otherSnapshot 50 5,mem_cons_of_mem _ (mem_singleton_self _),rfl,by decide +kernel⟩

end BuckyOS.KLog
