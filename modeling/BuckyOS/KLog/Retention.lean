import BuckyOS.KLog.Dedup

/-! What the request-id table holds after calls in order of time: at most its bound, nothing
without a place in the queue, and the latest id of each request for as long as the window and
the bound allow. -/
namespace BuckyOS.KLog.RequestDedupCache
open List

inductive Call where
  | remember (requestId : String) (logId : UInt64)
  | lookup (requestId : String)
  | clear

/-- A table with the latest `remember` of each id since a `clear`, and whether more records than
the bound were held since. -/
structure Noted where
  cache : RequestDedupCache
  latest : String → Option (RequestDedupRecord × Bool)

namespace Noted
def init : Noted := ⟨.empty,fun _ => none⟩

def cleanup (s : Noted) (nowMs : UInt64) : Noted := {s with cache := s.cache.cleanup nowMs}

def insert (s : Noted) (requestId : String) (logId nowMs : UInt64) : Noted :=
  let cache := s.cache.insertRecord requestId logId nowMs
  let crowded := decide (requestDedupMaxItems < len cache.records)
  ⟨cache,fun r => if r = requestId then some (⟨logId,nowMs⟩,crowded)
    else (s.latest r).map (fun e => (e.1,e.2 || crowded))⟩

def call (s : Noted) (nowMs : UInt64) : Call → Noted
  | .remember r logId => {(s.cleanup nowMs).insert r logId nowMs with
      cache := s.cache.remember r logId nowMs}
  | .lookup r => {s with cache := (s.cache.lookup r nowMs).2}
  | .clear => init

def run (calls : List (UInt64 × Call)) : Noted := calls.foldl (fun s c => s.call c.1 c.2) init

end Noted

/-- The queue is in order of time, and each record has its place in it and is the latest of its
id; an id that was not crowded out has no record only outside the window. -/
structure Held (s : Noted) (nowMs : UInt64) : Prop where
  sorted : s.cache.order.Pairwise (fun a b => a.1 ≤ b.1)
  past : ∀ item ∈ s.cache.order, item.1 ≤ nowMs
  queued : ∀ r v, s.cache.records.get? r = some v → (v.seenAtMs,r) ∈ s.cache.order
  noted : ∀ r v, s.cache.records.get? r = some v → ∃ crowded, s.latest r = some (v,crowded)
  kept : ∀ r v, s.latest r = some (v,false) → len s.cache.records ≤ requestDedupMaxItems ∧
    (s.cache.records.get? r = none → windowExpired nowMs v.seenAtMs = true)

variable {r requestId : String} {v : RequestDedupRecord} {nowMs laterMs seenAtMs earlierMs : UInt64}
  {s : Noted} {records : Records}

theorem windowExpired_mono (hnow : nowMs ≤ laterMs) (hseen : earlierMs ≤ seenAtMs)
    (h : windowExpired nowMs seenAtMs = true) : windowExpired laterMs earlierMs = true := by
  simp only [windowExpired,decide_eq_true_eq,UInt64.lt_iff_toNat_lt,U64.toNat_saturatingSub] at h ⊢
  rw [UInt64.le_iff_toNat_le] at hnow hseen
  omega

theorem Held.later (h : Held s nowMs) (hnow : nowMs ≤ laterMs) : Held s laterMs :=
  {h with
    past := fun item hitem => (h.past item hitem).trans hnow
    kept := fun r v hlatest => ⟨(h.kept r v hlatest).1,fun hnone =>
      windowExpired_mono hnow le_rfl ((h.kept r v hlatest).2 hnone)⟩}

theorem get?_evict_none (h : records.get? r = some v) :
    (evict records seenAtMs requestId).get? r = none ↔ (seenAtMs,requestId) = (v.seenAtMs,r) := by
  rw [evict]
  split_ifs with hany
  · rw [OrderedMap.get?_erase,h]
    grind
  · grind

theorem len_evict_le : len (evict records seenAtMs requestId) ≤ len records := by
  rw [evict]
  split_ifs
  · exact length_filter_le _ _
  · exact le_rfl

/-- The loop leaves a rest of the queue with no more records than the bound, each with its place
and within the window, and takes out only what has expired or was too much. -/
theorem cleanupLoop_spec {order : List (UInt64 × String)} (hsorted : order.Pairwise (fun a b => a.1 ≤ b.1))
    (hqueued : ∀ r v, records.get? r = some v → (v.seenAtMs,r) ∈ order) :
    let c := cleanupLoop nowMs order records
    c.order <:+ order ∧ len c.records ≤ requestDedupMaxItems ∧
      (∀ r v, c.records.get? r = some v → (v.seenAtMs,r) ∈ c.order) ∧
      (∀ r v, records.get? r = some v → c.records.get? r = none →
        windowExpired nowMs v.seenAtMs = true ∨ requestDedupMaxItems < len records) ∧
      ∀ item ∈ c.order, windowExpired nowMs item.1 = false := by
  induction order generalizing records with
  | nil =>
    have hempty : records = .empty := OrderedMap.ext fun r =>
      Option.eq_none_iff_forall_ne_some.mpr fun v hv => not_mem_nil (hqueued r v hv)
    subst hempty
    exact ⟨suffix_rfl,Nat.zero_le _,hqueued,by simp,by simp [cleanupLoop]⟩
  | cons item order ih =>
    rw [pairwise_cons] at hsorted
    rw [cleanupLoop]
    split_ifs with hpop
    · rw [Bool.or_eq_true,decide_eq_true_eq] at hpop
      have hrest : ∀ r v, (evict records item.1 item.2).get? r = some v → (v.seenAtMs,r) ∈ order := by
        intro r v hv
        have hold := get?_evict hv
        refine (mem_cons.mp (hqueued r v hold)).resolve_left fun hitem => ?_
        rw [(get?_evict_none hold).mpr hitem.symm] at hv
        simp at hv
      obtain ⟨hsuffix,hlen,hqueued',hlost,hfresh⟩ := ih hsorted.2 hrest
      refine ⟨hsuffix.trans (suffix_cons _ _),hlen,hqueued',fun r v hv hnone => ?_,hfresh⟩
      cases hevict : (evict records item.1 item.2).get? r with
      | none =>
        rw [get?_evict_none hv] at hevict
        rwa [(Prod.ext_iff.mp hevict).1] at hpop
      | some v' =>
        rw [get?_evict hevict] at hv
        cases hv
        exact (hlost r v hevict hnone).imp_right (·.trans_le len_evict_le)
    · rw [Bool.or_eq_true,decide_eq_true_eq,not_or,not_lt] at hpop
      refine ⟨suffix_rfl,hpop.2,hqueued,by grind,forall_mem_cons.mpr ⟨by simpa using hpop.1,?_⟩⟩
      intro later hlater
      by_contra hexpired
      exact hpop.1 (windowExpired_mono le_rfl (hsorted.1 later hlater) (by simpa using hexpired))

theorem Held.cleanup (h : Held s nowMs) :
    Held (s.cleanup nowMs) nowMs ∧ len (s.cleanup nowMs).cache.records ≤ requestDedupMaxItems := by
  obtain ⟨hsuffix,hlen,hqueued,hlost,-⟩ := @cleanupLoop_spec nowMs _ _ h.sorted h.queued
  refine ⟨⟨h.sorted.sublist hsuffix.sublist,fun item hitem => h.past item (hsuffix.subset hitem),
    hqueued,fun r v hv => h.noted r v (get?_cleanup hv),fun r v hlatest => ⟨hlen,fun hnone => ?_⟩⟩,hlen⟩
  obtain ⟨hbound,hout⟩ := h.kept r v hlatest
  cases hold : s.cache.records.get? r with
  | none => exact hout hold
  | some v' =>
    obtain ⟨crowded,hnoted⟩ := h.noted r v' hold
    rw [show s.latest r = _ from hlatest] at hnoted
    cases hnoted
    exact (hlost r v hold hnone).resolve_right (not_lt.mpr hbound)

theorem Held.insert (h : Held s nowMs) (requestId : String) (logId : UInt64) :
    Held (s.insert requestId logId nowMs) nowMs := by
  have hget (r : String) : (s.insert requestId logId nowMs).cache.records.get? r =
      if r = requestId then some ⟨logId,nowMs⟩ else s.cache.records.get? r :=
    OrderedMap.get?_insert _ _ _ _
  refine ⟨pairwise_append.mpr ⟨h.sorted,pairwise_singleton _ _,?_⟩,?_,?_,?_,?_⟩
  · simpa using h.past
  · exact forall_mem_append.mpr ⟨h.past,by simp⟩
  · intro r v hv
    rw [hget] at hv
    refine mem_append.mpr ?_
    grind [h.queued]
  · intro r v hv
    rw [hget] at hv
    simp only [Noted.insert]
    split_ifs at hv ⊢
    · cases hv
      exact ⟨_,rfl⟩
    · obtain ⟨crowded,hcrowded⟩ := h.noted r v hv
      exact ⟨_,by rw [hcrowded]; rfl⟩
  · intro r v hlatest
    rw [hget]
    simp only [Noted.insert] at hlatest ⊢
    split_ifs at hlatest ⊢
    · exact ⟨by grind,by simp⟩
    · obtain ⟨⟨v',crowded⟩,hold,hnew⟩ := Option.map_eq_some_iff.mp hlatest
      simp only [Prod.mk.injEq,Bool.or_eq_false_iff,decide_eq_false_iff_not,not_lt] at hnew
      obtain ⟨rfl,rfl,hbound⟩ := hnew
      exact ⟨hbound,(h.kept r v' hold).2⟩

theorem held_init : Held .init nowMs := by constructor <;> simp [Noted.init,empty]

theorem held_run (calls : List (UInt64 × Call))
    (htimes : (calls.map Prod.fst ++ [nowMs]).Pairwise (· ≤ ·)) :
    Held (.run calls) nowMs ∧ len (Noted.run calls).cache.records ≤ requestDedupMaxItems := by
  induction calls using List.reverseRecOn generalizing nowMs with
  | nil => exact ⟨held_init,Nat.zero_le _⟩
  | append_singleton calls call ih =>
    rw [map_append,map_singleton] at htimes
    obtain ⟨hbefore,-,hlast⟩ := pairwise_append.mp htimes
    obtain ⟨hheld,-⟩ := ih hbefore
    rw [Noted.run,foldl_append,← Noted.run]
    suffices h : Held ((Noted.run calls).call call.1 call.2) call.1 ∧
        len ((Noted.run calls).call call.1 call.2).cache.records ≤ requestDedupMaxItems from
      ⟨h.1.later (hlast _ (by simp) _ (by simp)),h.2⟩
    cases call.2 with
    | remember requestId logId => exact (hheld.cleanup.1.insert requestId logId).cleanup
    | lookup requestId => exact hheld.cleanup
    | clear => exact ⟨held_init,Nat.zero_le _⟩

/-- After any calls in order of time the table is within its bound and each record has its place
in the queue. A lookup answers with the latest id that was remembered, and only within the
window; it misses one only outside the window or after more records than the bound were held. -/
theorem run_retains (calls : List (UInt64 × Call)) (nowMs : UInt64)
    (htimes : (calls.map Prod.fst ++ [nowMs]).Pairwise (· ≤ ·)) :
    let s := Noted.run calls
    len s.cache.records ≤ requestDedupMaxItems ∧
      (∀ r v, s.cache.records.get? r = some v → (v.seenAtMs,r) ∈ s.cache.order) ∧
      ∀ r, (∀ id, (s.cache.lookup r nowMs).1 = some id → ∃ v crowded, s.latest r = some (v,crowded) ∧
          v.logId = id ∧ windowExpired nowMs v.seenAtMs = false) ∧
        ((s.cache.lookup r nowMs).1 = none → ∀ v crowded, s.latest r = some (v,crowded) →
          crowded = true ∨ windowExpired nowMs v.seenAtMs = true) := by
  obtain ⟨hheld,hlen⟩ := held_run calls htimes
  obtain ⟨hclean,-⟩ := hheld.cleanup
  obtain ⟨-,-,-,-,hfresh⟩ := @cleanupLoop_spec nowMs _ _ hheld.sorted hheld.queued
  refine ⟨hlen,hheld.queued,fun r => ⟨fun id hid => ?_,fun hnone v crowded hlatest => ?_⟩⟩
  · obtain ⟨v,hv,rfl⟩ := Option.map_eq_some_iff.mp hid
    obtain ⟨crowded,hlatest⟩ := hclean.noted r v hv
    exact ⟨v,crowded,hlatest,rfl,hfresh _ (hclean.queued r v hv)⟩
  · cases crowded with
    | true => exact .inl rfl
    | false => exact .inr ((hclean.kept r v hlatest).2 (Option.map_eq_none_iff.mp hnone))

theorem run_retains_renewed :
    ((Noted.run [(0,.remember "r" 1),(9,.clear),(9,.remember "r" 3)]).cache.lookup "r" 300009).1 ≠
      none := by
  intro hnone
  have hlost := ((run_retains [(0,.remember "r" 1),(9,.clear),(9,.remember "r" 3)] 300009
    (by decide)).2.2 "r").2 hnone ⟨3,9⟩ false (by decide +kernel)
  revert hlost
  decide

end BuckyOS.KLog.RequestDedupCache
