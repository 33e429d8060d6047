import BuckyOS.MsgQueue.Queue

/-! The keys of the messages: the keys of one queue are ordered as its indexes, and the keys of two
queues are apart unless a name goes on after the other and a zero byte. -/
namespace BuckyOS.MsgQueue
open List

section OneQueue
variable {queueUrn : String} {i j : ℕ}

theorem messagePrefix_front (queueUrn : String) (i : ℕ) :
    messagePrefix queueUrn <+: messageKey queueUrn i := prefix_append _ _

theorem messageKey_lt_iff (hi : i ≤ maxIndex) (hj : j ≤ maxIndex) :
    messageKey queueUrn i < messageKey queueUrn j ↔ i < j := by
  unfold maxIndex at hi hj
  rw [messageKey,messageKey,Bytes.append_lt_append_iff]
  exact Bytes.ofNatBE_lt_iff (by norm_num; omega) (by norm_num; omega)

theorem messageKey_le_iff (hi : i ≤ maxIndex) (hj : j ≤ maxIndex) :
    messageKey queueUrn i ≤ messageKey queueUrn j ↔ i ≤ j := by
  rw [← not_lt,← not_lt,messageKey_lt_iff hj hi]

theorem messageKey_injective (hi : i ≤ maxIndex) (hj : j ≤ maxIndex)
    (h : messageKey queueUrn i = messageKey queueUrn j) : i = j := by
  have hij := (messageKey_le_iff hi hj).mp h.le
  have hji := (messageKey_le_iff hj hi).mp h.ge
  exact le_antisymm hij hji

theorem decodeIndexFromKey_messageKey (queueUrn : String) (hi : i ≤ maxIndex) :
    decodeIndexFromKey (messageKey queueUrn i) = some i := by
  unfold maxIndex at hi
  have hlength : (messageKey queueUrn i).length = (messagePrefix queueUrn).length + 8 := by
    rw [messageKey,length_append,Bytes.ofNatBE_length]
  rw [decodeIndexFromKey,if_neg (by omega),hlength,Nat.add_sub_cancel,messageKey,
    drop_left,Bytes.toNatBE_ofNatBE 8 i (by norm_num; omega)]

theorem messagePrefix_of_between {key : Bytes} (hlow : messageKey queueUrn i ≤ key)
    (hhigh : key ≤ messageKey queueUrn j) : messagePrefix queueUrn <+: key :=
  Bytes.isPrefix_of_between (messagePrefix_front queueUrn i) (messagePrefix_front queueUrn j) hlow hhigh

end OneQueue

section TwoQueues
/-- No key has the fronts of both queues. -/
def Apart (a b : String) : Prop :=
  ¬ messagePrefix a <+: messagePrefix b ∧ ¬ messagePrefix b <+: messagePrefix a

variable {a b : String}

theorem Apart.symm (h : Apart a b) : Apart b a := ⟨h.2,h.1⟩

theorem Apart.ne (h : Apart a b) : a ≠ b := by
  rintro rfl
  exact h.1 (prefix_refl _)

theorem Apart.not_both (h : Apart a b) {key : Bytes} (ha : messagePrefix a <+: key)
    (hb : messagePrefix b <+: key) : False := ( prefix_or_prefix_of_prefix ha hb).elim h.1 h.2

theorem Apart.messageKey_ne (h : Apart a b) (i j : ℕ) : messageKey a i ≠ messageKey b j :=
  fun heq => h.not_both (messagePrefix_front a i) (heq ▸ messagePrefix_front b j)

theorem messagePrefix_front_iff (hne : a ≠ b) :
    messagePrefix a <+: messagePrefix b ↔ messagePrefix a <+: Text.utf8 b := by
  constructor
  · intro h
    rcases prefix_concat_iff.mp h with heq | hshort
    · exact absurd (Text.utf8_injective (append_cancel_right heq)) hne
    · exact hshort
  · exact fun h => h.trans (prefix_append _ _)

/-- Different names are apart unless one goes on after the other and a zero byte. -/
theorem apart_iff (hne : a ≠ b) :
    Apart a b ↔ ¬ messagePrefix a <+: Text.utf8 b ∧ ¬ messagePrefix b <+: Text.utf8 a := by
  rw [Apart,messagePrefix_front_iff hne,messagePrefix_front_iff hne.symm]

def NulFree (queueUrn : String) : Prop := Char.ofNat 0 ∉ queueUrn.toList

instance (queueUrn : String) : Decidable (NulFree queueUrn) :=
  inferInstanceAs (Decidable (Char.ofNat 0 ∉ queueUrn.toList))

theorem NulFree.not_front (hb : NulFree b) : ¬ messagePrefix a <+: Text.utf8 b := by
  intro h
  have hzero : (0 : UInt8) ∈ Text.utf8 b := h.subset (mem_append_right _ (by simp))
  obtain ⟨c,hc,hbyte⟩ := mem_flatMap.mp hzero
  exact hb (Text.zero_mem_utf8EncodeChar hbyte ▸ hc)

theorem apart_of_nulFree (ha : NulFree a) (hb : NulFree b) (hne : a ≠ b) : Apart a b :=
  (apart_iff hne).mpr ⟨hb.not_front,ha.not_front⟩

end TwoQueues
end BuckyOS.MsgQueue
