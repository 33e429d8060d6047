import Mathlib.Tactic

/-! Byte strings under the lexicographic order: big-endian integers compare as
numbers, and the strings with a common prefix are an interval. -/
namespace BuckyOS
open List

instance instLinearOrderUInt8 : LinearOrder UInt8 where
  le_refl := UInt8.le_refl
  le_trans _ _ _ := UInt8.le_trans
  le_antisymm _ _ := UInt8.le_antisymm
  le_total := UInt8.le_total
  lt_iff_le_not_ge a b := by
    simp only [UInt8.le_iff_toNat_le,UInt8.lt_iff_toNat_lt]
    omega
  toDecidableLE := inferInstance
  toDecidableLT := inferInstance
  toDecidableEq := inferInstance

instance instLinearOrderUInt64 : LinearOrder UInt64 where
  le_refl := UInt64.le_refl
  le_trans _ _ _ := UInt64.le_trans
  le_antisymm _ _ := UInt64.le_antisymm
  le_total := UInt64.le_total
  lt_iff_le_not_ge a b := by
    simp only [UInt64.le_iff_toNat_le,UInt64.lt_iff_toNat_lt]
    omega
  toDecidableLE := inferInstance
  toDecidableLT := inferInstance
  toDecidableEq := inferInstance

abbrev Bytes := List UInt8

namespace Bytes
section Prefix
variable {α : Type} [LinearOrder α]

theorem append_lt_append_iff (p a b : List α) : p ++ a < p ++ b ↔ a < b := by
  induction p with
  | nil => rfl
  | cons x p ih => simpa [cons_lt_cons_iff] using ih

theorem append_le_append_iff (p a b : List α) : p ++ a ≤ p ++ b ↔ a ≤ b := by
  rw [← not_lt,← not_lt,append_lt_append_iff]

theorem prefix_le {p k : List α} (h : p <+: k) : p ≤ k := by
  obtain ⟨t,rfl⟩ := h
  have ht : ([] : List α) ≤ t := not_lt.mp (not_lt_nil t)
  simpa using (append_le_append_iff p [] t).mpr ht

/-- Past the block of strings with prefix `p` no later string has it. -/
theorem lt_of_not_isPrefix {p k k' : List α} (hp : p <+: k') (hle : p ≤ k) (hk : ¬ p <+: k) : k' < k := by
  induction p generalizing k k' with
  | nil => exact absurd nil_prefix hk
  | cons x p ih =>
    obtain ⟨t,rfl⟩ := hp
    cases k with
    | nil => exact absurd (nil_lt_cons x p) (not_lt.mpr hle)
    | cons y k =>
      rw [cons_append,cons_lt_cons_iff]
      rcases lt_or_eq_of_le hle with hlt | heq
      · rcases cons_lt_cons_iff.mp hlt with h | ⟨rfl,h⟩
        · exact Or.inl h
        · exact Or.inr ⟨rfl,ih (prefix_append p t) h.le (fun hp => hk (by simpa using hp))⟩
      · exact absurd (heq ▸ prefix_refl _) hk

end Prefix

def toNatBE (bs : Bytes) : ℕ := bs.foldl (fun n b => n*256 + b.toNat) 0

def ofNatBE : ℕ → ℕ → Bytes
  | 0, _ => []
  | k+1, n => ofNatBE k (n/256) ++ [UInt8.ofNat n]

@[simp] theorem ofNatBE_length (k n : ℕ) : (ofNatBE k n).length = k := by
  induction k generalizing n with
  | zero => rfl
  | succ k ih => simp [ofNatBE,ih]

theorem toNatBE_append_singleton (bs : Bytes) (b : UInt8) :
    toNatBE (bs ++ [b]) = toNatBE bs*256 + b.toNat := by
  simp [toNatBE,foldl_append]

theorem toNatBE_ofNatBE (k n : ℕ) (h : n < 256^k) : toNatBE (ofNatBE k n) = n := by
  induction k generalizing n with
  | zero => simp at h; simp [ofNatBE,toNatBE,h]
  | succ k ih =>
    have hn : n/256 < 256^k := by
      rw [Nat.div_lt_iff_lt_mul (by norm_num)]
      simpa [pow_succ] using h
    rw [ofNatBE,toNatBE_append_singleton,ih _ hn]
    have hb : (UInt8.ofNat n).toNat = n % 256 := by simp [UInt8.toNat_ofNat']
    omega

theorem ofNatBE_injective {k n m : ℕ} (hn : n < 256^k) (hm : m < 256^k)
    (h : ofNatBE k n = ofNatBE k m) : n = m := by
  rw [← toNatBE_ofNatBE k n hn,← toNatBE_ofNatBE k m hm,h]

theorem append_singleton_lt_iff {a b : Bytes} (x y : UInt8) (h : a.length = b.length) :
    a ++ [x] < b ++ [y] ↔ a < b ∨ (a = b ∧ x < y) := by
  induction a generalizing b with
  | nil =>
    have hb : b = [] := length_eq_zero_iff.mp h.symm
    subst hb
    simp [cons_lt_cons_iff]
  | cons c a ih =>
    cases b with
    | nil => simp at h
    | cons d b =>
      simp only [cons_append,cons_lt_cons_iff,ih (by simpa using h),cons.injEq]
      tauto

/-- Big-endian strings of one length are ordered as the numbers they spell. -/
theorem ofNatBE_lt_iff {k n m : ℕ} (hn : n < 256^k) (hm : m < 256^k) :
    ofNatBE k n < ofNatBE k m ↔ n < m := by
  induction k generalizing n m with
  | zero => simp at hn hm; subst hn hm; simp
  | succ k ih =>
    have hn' : n/256 < 256^k := by rw [Nat.div_lt_iff_lt_mul (by norm_num)]; simpa [pow_succ] using hn
    have hm' : m/256 < 256^k := by rw [Nat.div_lt_iff_lt_mul (by norm_num)]; simpa [pow_succ] using hm
    have heq : ofNatBE k (n/256) = ofNatBE k (m/256) ↔ n/256 = m/256 :=
      ⟨ofNatBE_injective hn' hm',fun h => by rw [h]⟩
    rw [ofNatBE,ofNatBE,append_singleton_lt_iff _ _ (by simp),ih hn' hm',heq,UInt8.lt_iff_toNat_lt]
    simp only [UInt8.toNat_ofNat',Nat.reducePow]
    omega

end Bytes

namespace U64
variable (n : UInt64) (a b : UInt64)

def toBytesBE : Bytes := Bytes.ofNatBE 8 n.toNat

def ofBytesBE (bs : Bytes) : UInt64 := UInt64.ofNat (Bytes.toNatBE bs)

@[simp] theorem toBytesBE_length : (toBytesBE n).length = 8 := Bytes.ofNatBE_length 8 _

@[simp] theorem ofBytesBE_toBytesBE : ofBytesBE (toBytesBE n) = n := by
  have h := n.toNat_lt
  rw [ofBytesBE,toBytesBE,Bytes.toNatBE_ofNatBE 8 n.toNat (by norm_num; omega)]
  simp

theorem toBytesBE_lt_iff (n m : UInt64) : toBytesBE n < toBytesBE m ↔ n < m := by
  have hn := n.toNat_lt
  have hm := m.toNat_lt
  rw [toBytesBE,toBytesBE,Bytes.ofNatBE_lt_iff (by norm_num; omega) (by norm_num; omega),
    UInt64.lt_iff_toNat_lt]

theorem toBytesBE_injective {n m : UInt64} (h : toBytesBE n = toBytesBE m) : n = m := by
  rw [← ofBytesBE_toBytesBE n,h,ofBytesBE_toBytesBE]

def saturatingAdd : UInt64 :=
  if a.toNat + b.toNat < 2^64 then a + b else UInt64.ofNat (2^64 - 1)

def saturatingSub : UInt64 := if b ≤ a then a - b else 0

theorem toNat_saturatingSub : (saturatingSub a b).toNat = a.toNat - b.toNat := by
  rw [saturatingSub]
  split_ifs with h
  · exact UInt64.toNat_sub_of_le a b h
  · rw [UInt64.le_iff_toNat_le] at h
    rw [UInt64.toNat_zero]
    omega

def maxValue : UInt64 := UInt64.ofNat (2^64 - 1)

theorem toNat_maxValue : maxValue.toNat = 2^64 - 1 := by decide

theorem toNat_saturatingAdd :
    (saturatingAdd a b).toNat = min (a.toNat + b.toNat) (2^64 - 1) := by
  unfold saturatingAdd
  split_ifs with h
  · rw [UInt64.toNat_add,Nat.mod_eq_of_lt h]
    omega
  · have hm : (UInt64.ofNat (2^64 - 1)).toNat = 2^64 - 1 := by decide
    rw [hm]
    omega

end U64
end BuckyOS
