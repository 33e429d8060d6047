import BuckyOS.MsgQueue.Alone
import BuckyOS.MsgQueue.Spec

/-! The messages of one queue in the tree of all messages, and the meta that describes them. -/
namespace BuckyOS.MsgQueue
open Spec List OrderedMap

attribute [local simp] Queue.firstIndex Queue.post Queue.lastIndex

section Lists
variable {q : Queue}

def keyed (queueUrn : String) (messages : List Message) : List (Bytes × Message) :=
  messages.map (fun m => (messageKey queueUrn m.index,m))

variable {messages : List Message} {m : Message}

theorem mem_keyed {queueUrn : String} {e : Bytes × Message} :
    e ∈ keyed queueUrn messages ↔ e.2 ∈ messages ∧ e.1 = messageKey queueUrn e.2.index := by
  constructor
  · intro h
    obtain ⟨m,hm,rfl⟩ := mem_map.mp h
    exact ⟨hm,rfl⟩
  · rintro ⟨hm,hkey⟩
    exact mem_map.mpr ⟨e.2,hm,Prod.ext hkey.symm rfl⟩

@[simp] theorem keyed_values (queueUrn : String) (messages : List Message) :
    (keyed queueUrn messages).map Prod.snd = messages := by
  rw [keyed,map_map]
  exact map_id messages

theorem keyed_sorted (queueUrn : String) (hsorted : messages.Pairwise (fun m n => m.index < n.index))
    (hbound : ∀ m ∈ messages, m.index ≤ maxIndex) :
    (keyed queueUrn messages).Pairwise (fun d e => d.1 < e.1) := by
  refine pairwise_map.mpr (hsorted.imp_of_mem fun hm hn hlt => ?_)
  exact (messageKey_lt_iff (hbound _ hm) (hbound _ hn)).mpr hlt

theorem before_append_since (q : Queue) (index : ℕ) : q.before index ++ q.since index = q.messages := by
  have : Std.Irrefl (fun m n : Message => m.index < n.index) := ⟨fun m => lt_irrefl m.index⟩
  have : Std.Antisymm (fun m n : Message => m.index < n.index) :=
    ⟨fun m n hmn hnm => absurd (hmn.trans hnm) (lt_irrefl _)⟩
  refine List.Pairwise.eq_of_mem_iff ?_ q.sorted fun m => ?_
  · refine pairwise_append.mpr ⟨q.sorted.filter _,q.sorted.filter _,fun m hm n hn => ?_⟩
    have hlow := of_decide_eq_true (List.mem_filter.mp hm).2
    have hhigh := of_decide_eq_true (List.mem_filter.mp hn).2
    omega
  · simp only [Queue.before,Queue.since,mem_append,List.mem_filter,decide_eq_true_eq,← and_or_left]
    exact and_iff_left (lt_or_ge _ _)

theorem payloadBytes_append (ms ns : List Message) :
    payloadBytes (ms ++ ns) = payloadBytes ms + payloadBytes ns := by
  simp [payloadBytes]

def Spec.Queue.meta (q : Queue) : QueueMeta :=
  ⟨q.next,q.messages.length,q.firstIndex,q.lastIndex,payloadBytes q.messages⟩

theorem firstIndex_eq_zero_iff : q.firstIndex = 0 ↔ q.messages = [] := by
  unfold Queue.firstIndex
  cases hmessages : q.messages with
  | nil => simp
  | cons m ms =>
    have hpos := (q.inside m (hmessages ▸ mem_cons_self)).1
    simpa using hpos.ne'

theorem meta_post (q : Queue) (m : Message) : (q.post m).meta = q.meta.posted m.payload.length := by
  have hfirst : (q.post m).firstIndex = if q.firstIndex = 0 then q.next else q.firstIndex := by
    split_ifs with hzero
    · rw [firstIndex_eq_zero_iff] at hzero
      simp [hzero]
    · rw [firstIndex_eq_zero_iff] at hzero
      simp [head?_append_of_ne_nil _ hzero]
  have hlast : (q.post m).lastIndex = q.next := by simp
  have hsize : payloadBytes (q.post m).messages = payloadBytes q.messages + m.payload.length := by
    rw [Queue.post,payloadBytes_append]
    simp [payloadBytes]
  have hlength : (q.post m).messages.length = q.messages.length + 1 := by simp
  rw [Queue.meta,hfirst,hlast,hsize,hlength]
  rfl

theorem first_le (hm : m ∈ q.messages) : q.firstIndex ≤ m.index := by
  unfold Queue.firstIndex
  have hsorted := q.sorted
  cases hmessages : q.messages with
  | nil => exact Nat.zero_le _
  | cons n ms =>
    rw [hmessages] at hm hsorted
    rcases mem_cons.mp hm with rfl | hm
    · exact le_rfl
    · exact ((pairwise_cons.mp hsorted).1 m hm).le

theorem le_lastIndex (hm : m ∈ q.messages) : m.index ≤ q.lastIndex := by
  obtain ⟨ms,n,hmessages⟩ : ∃ ms n, q.messages = ms ++ [n] :=
    ⟨_,_,(dropLast_append_getLast (ne_nil_of_mem hm)).symm⟩
  have hlast : q.lastIndex = n.index := by simp [hmessages]
  have hsorted := q.sorted
  rw [hmessages] at hm hsorted
  rw [hlast]
  rcases mem_append.mp hm with hm | hm
  · exact ((pairwise_append.mp hsorted).2.2 m hm n (mem_singleton.mpr rfl)).le
  · rw [mem_singleton.mp hm]

theorem lastIndex_lt (q : Queue) : q.lastIndex < q.next := by
  unfold Queue.lastIndex
  cases hlast : q.messages.getLast? with
  | none => exact q.positive
  | some m => exact (q.inside m (mem_of_getLast? hlast)).2

theorem lastIndex_dropBefore {index : ℕ} (h : q.since index ≠ []) :
    (q.dropBefore index).lastIndex = q.lastIndex := by
  show ((q.since index).getLast?.map Message.index).getD 0 = _
  rw [Queue.lastIndex,← before_append_since q index,getLast?_append_of_ne_nil _ h]

end Lists

section Holds
/-- The tree holds some messages of a queue, each under its key, and no others. -/
def Holds (messages : OrderedMap Bytes Message) (queueUrn : String) (ms : List Message) : Prop :=
  ∀ key m, messagePrefix queueUrn <+: key →
    (messages.get? key = some m ↔ m ∈ ms ∧ key = messageKey queueUrn m.index)

variable {messages : OrderedMap Bytes Message} {queueUrn : String} {ms : List Message}

theorem Holds.get?_messageKey (h : Holds messages queueUrn ms) {m : Message} (hm : m ∈ ms) :
    messages.get? (messageKey queueUrn m.index) = some m := (h _ m (messagePrefix_front _ _)).mpr ⟨hm,rfl⟩

section
variable (h : Holds messages queueUrn ms) (hsorted : ms.Pairwise (fun m n => m.index < n.index))
  (hbound : ∀ m ∈ ms, m.index ≤ maxIndex)
include h hsorted hbound

theorem Holds.range_eq {cursor : ℕ} (hcursor : cursor ≤ maxIndex) :
    messages.range (messageKey queueUrn cursor) (messageKey queueUrn maxIndex) =
      keyed queueUrn (ms.filter (fun m => cursor ≤ m.index)) := by
  refine eq_of_sorted (range_sorted _ _ _)
    (keyed_sorted queueUrn (hsorted.filter _) fun m hm => hbound m (List.mem_filter.mp hm).1) fun e => ?_
  rw [OrderedMap.mem_range,mem_keyed,List.mem_filter,decide_eq_true_eq]
  constructor
  · rintro ⟨hget,hlow,hhigh⟩
    obtain ⟨hm,hkey⟩ := (h _ _ (messagePrefix_of_between hlow hhigh)).mp hget
    rw [hkey] at hlow
    exact ⟨⟨hm,(messageKey_le_iff hcursor (hbound _ hm)).mp hlow⟩,hkey⟩
  · rintro ⟨⟨hm,hle⟩,hkey⟩
    rw [hkey]
    exact ⟨h.get?_messageKey hm,(messageKey_le_iff hcursor (hbound _ hm)).mpr hle,
      (messageKey_le_iff (hbound _ hm) le_rfl).mpr (hbound _ hm)⟩

theorem Holds.rangeTo_eq {index : ℕ} (hindex : index ≤ maxIndex) :
    messages.rangeTo (messageKey queueUrn 0) (messageKey queueUrn index) =
      keyed queueUrn (ms.filter (fun m => m.index < index)) := by
  refine eq_of_sorted (rangeTo_sorted _ _ _)
    (keyed_sorted queueUrn (hsorted.filter _) fun m hm => hbound m (List.mem_filter.mp hm).1) fun e => ?_
  rw [mem_rangeTo,mem_keyed,List.mem_filter,decide_eq_true_eq]
  constructor
  · rintro ⟨hget,hlow,hhigh⟩
    obtain ⟨hm,hkey⟩ := (h _ _ (messagePrefix_of_between hlow hhigh.le)).mp hget
    rw [hkey] at hhigh
    exact ⟨⟨hm,(messageKey_lt_iff (hbound _ hm) hindex).mp hhigh⟩,hkey⟩
  · rintro ⟨⟨hm,hlt⟩,hkey⟩
    rw [hkey]
    exact ⟨h.get?_messageKey hm,(messageKey_le_iff (Nat.zero_le _) (hbound _ hm)).mpr (Nat.zero_le _),
      (messageKey_lt_iff (hbound _ hm) hindex).mpr hlt⟩

end

variable {index : ℕ} {q : Queue}

theorem Holds.insert (h : Holds messages queueUrn ms) (hbound : ∀ m ∈ ms, m.index ≤ maxIndex)
    {new : Message} (hnew : new.index ≤ maxIndex) (hfresh : ∀ m ∈ ms, m.index ≠ new.index) :
    Holds (messages.insert (messageKey queueUrn new.index) new) queueUrn (ms ++ [new]) := by
  intro key m hfront
  rw [get?_insert,mem_append,mem_singleton]
  split_ifs with hkey
  · constructor
    · intro hm
      obtain rfl := Option.some.inj hm
      exact ⟨Or.inr rfl,hkey⟩
    · rintro ⟨hm | hm,hkey'⟩
      · exact absurd (messageKey_injective (hbound m hm) hnew (hkey'.symm.trans hkey)) (hfresh m hm)
      · rw [hm]
  · rw [h key m hfront]
    constructor
    · exact fun hm => ⟨Or.inl hm.1,hm.2⟩
    · rintro ⟨hm | hm,hkey'⟩
      · exact ⟨hm,hkey'⟩
      · exact absurd (hm ▸ hkey') hkey

theorem Holds.eraseAll (h : Holds messages queueUrn ms) (keys : List Bytes) :
    Holds (messages.eraseAll keys) queueUrn (ms.filter (fun m => messageKey queueUrn m.index ∉ keys)) := by
  intro key m hfront
  rw [get?_eraseAll,List.mem_filter,decide_eq_true_eq]
  split_ifs with hkey
  · refine iff_of_false (by simp) ?_
    rintro ⟨⟨-,hkept⟩,rfl⟩
    exact hkept hkey
  · rw [h key m hfront]
    constructor
    · rintro ⟨hm,rfl⟩
      exact ⟨⟨hm,hkey⟩,rfl⟩
    · exact fun hm => ⟨hm.1.1,hm.2⟩

theorem Holds.dropBefore (h : Holds messages queueUrn q.messages) (hnext : q.next ≤ maxIndex)
    (index : ℕ) : Holds (messages.eraseAll ((keyed queueUrn (q.before index)).map Prod.fst)) queueUrn
      (q.since index) := by
  have hbound : ∀ m ∈ q.messages, m.index ≤ maxIndex := fun m hm => (q.inside m hm).2.le.trans hnext
  have hsame : q.since index = q.messages.filter
      (fun m => messageKey queueUrn m.index ∉ (keyed queueUrn (q.before index)).map Prod.fst) := by
    refine filter_congr fun m hm => decide_eq_decide.mpr ?_
    rw [keyed,map_map,mem_map,not_exists]
    constructor
    · rintro hle n ⟨hn,hkey⟩
      obtain ⟨hn,hlt⟩ := List.mem_filter.mp hn
      rw [messageKey_injective (hbound n hn) (hbound m hm) hkey] at hlt
      exact absurd hle (not_le.mpr (of_decide_eq_true hlt))
    · intro hnone
      by_contra hlt
      exact hnone m ⟨List.mem_filter.mpr ⟨hm,decide_eq_true (not_le.mp hlt)⟩,rfl⟩
  rw [hsame]
  exact h.eraseAll _

theorem settled_eq {db : QueueDb} (hindex : index ≤ maxIndex) (hnext : q.next ≤ maxIndex)
    (h : Holds db.messages queueUrn (q.since index)) :
    settled db queueUrn index (q.meta.without (keyed queueUrn (q.before index))) =
      (q.dropBefore index).meta := by
  have hbound : ∀ m ∈ q.since index, m.index ≤ maxIndex :=
    fun m hm => (q.inside m (List.mem_filter.mp hm).1).2.le.trans hnext
  have hsplit := before_append_since q index
  have hcount : q.messages.length - (keyed queueUrn (q.before index)).length = (q.since index).length := by
    rw [← hsplit,keyed,length_map,length_append,Nat.add_sub_cancel_left]
  have hsize : payloadBytes q.messages - payloadBytes ((keyed queueUrn (q.before index)).map Prod.snd) =
        payloadBytes (q.since index) := by
    have hsum := payloadBytes_append (q.before index) (q.since index)
    rw [hsplit] at hsum
    rw [keyed_values,hsum,Nat.add_sub_cancel_left]
  have hrange := h.range_eq (q.sorted.filter _) hbound hindex
  have hagain : (q.since index).filter (fun m => index ≤ m.index) = q.since index := by
    rw [Queue.since,filter_filter]
    simp
  rw [hagain] at hrange
  unfold settled QueueMeta.without Queue.meta
  dsimp only
  rw [hcount,hsize,hrange]
  cases hsince : q.since index with
  | nil => simp [Queue.dropBefore,hsince]
  | cons m ms =>
    have hmessages : (q.dropBefore index).messages = m :: ms := hsince
    have hlast := lastIndex_dropBefore (hsince ▸ cons_ne_nil m ms)
    have hfirst : (q.dropBefore index).firstIndex = m.index := by simp [hmessages]
    have hdecode := decodeIndexFromKey_messageKey queueUrn (hbound m (hsince ▸ mem_cons_self))
    rw [hlast,hfirst,hmessages]
    simp only [keyed,map_cons,findSome?_cons,hdecode]
    rfl

end Holds
end BuckyOS.MsgQueue
