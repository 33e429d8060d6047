import BuckyOS.Lib.Bytes

/-! The delay after which the dispatcher offers a record again, and the time it stores for it. -/
namespace BuckyOS.TaskManager
def saturatingMul (a b : UInt64) : UInt64 :=
  if a.toNat * b.toNat < 2^64 then a * b else U64.maxValue

theorem toNat_saturatingMul (a b : UInt64) :
    (saturatingMul a b).toNat = min (a.toNat * b.toNat) (2^64 - 1) := by
  rw [saturatingMul]
  split_ifs with h
  · rw [UInt64.toNat_mul,Nat.mod_eq_of_lt h]
    omega
  · rw [U64.toNat_maxValue]
    omega

structure DeliveryPolicy where
  backoffBaseMs : UInt64 := 2000
  backoffMaxMs : UInt64 := 300000

namespace DeliveryPolicy
variable (policy : DeliveryPolicy) (dispatchId : String) (attemptNo : UInt32)

/-- The base, doubled for each attempt after the first, sixteen times at most, up to the maximum. -/
def cappedMs : UInt64 :=
  let exp := min (attemptNo.toNat - 1) 16
  min (saturatingMul policy.backoffBaseMs (1 <<< UInt64.ofNat exp)) policy.backoffMaxMs

def backoffMs : UInt64 :=
  let capped := policy.cappedMs attemptNo
  let hash := dispatchId.toUTF8.toList.foldl
    (fun hash byte => (hash ^^^ byte.toUInt64) * 0x100000001b3) 0xcbf29ce484222325
  let hash := (hash ^^^ attemptNo.toUInt64) * 0x100000001b3
  U64.saturatingAdd capped (saturatingMul (capped / 4) (hash % 1000) / 1000)

inductive Requeue where
  | busy (retryAfterMs : Option UInt64)
  | transportFailure

def requeueDelay : Requeue → UInt64
  | .busy retryAfterMs => retryAfterMs.getD (policy.backoffMs dispatchId attemptNo)
  | .transportFailure => policy.backoffMs dispatchId attemptNo

/-- `ready_at` in the signed column of the record: the sum in 64 bits, cast. -/
def readyAt (nowMs delay : UInt64) : ℤ := (nowMs + delay).toInt64.toInt

theorem toNat_cappedMs : (policy.cappedMs attemptNo).toNat =
    min (policy.backoffBaseMs.toNat * 2^min (attemptNo.toNat - 1) 16) policy.backoffMaxMs.toNat := by
  have hshift : ((1 : UInt64) <<< UInt64.ofNat (min (attemptNo.toNat - 1) 16)).toNat =
      2^min (attemptNo.toNat - 1) 16 := by
    have hexp : min (attemptNo.toNat - 1) 16 ≤ 16 := min_le_right _ _
    generalize min (attemptNo.toNat - 1) 16 = exp at hexp
    interval_cases exp <;> rfl
  have hmax := policy.backoffMaxMs.toNat_lt
  rw [cappedMs,UInt64.toNat_min,toNat_saturatingMul,hshift]
  omega

/-- The delay is the capped one and up to a quarter more. The stored time is that of the delay
from now exactly if it fits in 63 bits, and is before now otherwise. -/
theorem requeue_readyAt (nowMs : UInt64) (reply : Requeue) :
    let capped := policy.cappedMs attemptNo
    let backoff := (policy.backoffMs dispatchId attemptNo).toNat
    let time := nowMs.toNat + (policy.requeueDelay dispatchId attemptNo reply).toNat
    let stored := readyAt nowMs (policy.requeueDelay dispatchId attemptNo reply)
    capped.toNat = min (policy.backoffBaseMs.toNat * 2^min (attemptNo.toNat - 1) 16)
        policy.backoffMaxMs.toNat ∧
      (∀ later, attemptNo ≤ later → capped ≤ policy.cappedMs later) ∧
      capped.toNat ≤ backoff ∧ backoff ≤ min (capped.toNat + capped.toNat / 4) (2^64 - 1) ∧
      (stored = time ↔ time < 2^63) ∧ (nowMs.toNat ≤ stored ↔ time < 2^63) := by
  intro capped backoff time stored
  have hcapped := capped.toNat_lt
  refine ⟨policy.toNat_cappedMs attemptNo,?_,?_,?_,?_⟩
  · intro later hlater
    rw [UInt64.le_iff_toNat_le,toNat_cappedMs,toNat_cappedMs]
    rw [UInt32.le_iff_toNat_le] at hlater
    gcongr
    · decide
  · show capped.toNat ≤ (U64.saturatingAdd capped _).toNat
    rw [U64.toNat_saturatingAdd]
    omega
  · show (U64.saturatingAdd capped (saturatingMul (capped / 4) (_ % 1000) / 1000)).toNat ≤ _
    rw [U64.toNat_saturatingAdd,UInt64.toNat_div,toNat_saturatingMul,UInt64.toNat_div,
      UInt64.toNat_mod]
    generalize UInt64.toNat (_ * _) = hash
    have hjitter : min (capped.toNat / 4 * (hash % 1000)) (2^64 - 1) / 1000 ≤ capped.toNat / 4 := by
      refine (Nat.div_le_div_right (min_le_left _ _)).trans (Nat.div_le_of_le_mul ?_)
      rw [mul_comm]
      exact Nat.mul_le_mul_right _ (Nat.mod_lt _ (by decide)).le
    exact min_le_min_right _ (Nat.add_le_add_left hjitter _)
  · have hstored : stored = (nowMs + _).toBitVec.toInt := rfl
    rw [BitVec.toInt_eq_toNat_cond,UInt64.toNat_toBitVec,UInt64.toNat_add] at hstored
    have hnow := nowMs.toNat_lt
    have hdelay := (policy.requeueDelay dispatchId attemptNo reply).toNat_lt
    split_ifs at hstored <;> omega

/-- A reply may name a time that wraps round the clock or the column, and so may a policy. -/
theorem requeue_before_now :
    readyAt 1 (requeueDelay {} "d" 1 (.busy (some U64.maxValue))) = 0 ∧
      readyAt 1 (requeueDelay {} "d" 1 (.busy (some 0x8000000000000000))) < 0 ∧
      readyAt 1 (requeueDelay ⟨0x8000000000000000,0x8000000000000000⟩ "d" 1 .transportFailure) < 0 := by
  decide +kernel

end DeliveryPolicy
end BuckyOS.TaskManager
