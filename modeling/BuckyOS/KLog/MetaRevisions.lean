import BuckyOS.KLog.Replicas

/-! Revisions along a history of requests. A put moves the revision of its key on by one and
nothing but a delete of the key moves it back. -/
namespace BuckyOS.KLog
open Option

theorem KLogStateStore.metaAt_key {s : KLogStateStore} (h : s.WellFormed) {key : String}
    {m : KLogMetaEntry} (hm : s.metaAt key = some m) : m.key = key := by
  cases s with
  | memory s => exact h key m hm
  | rocksDb s => exact h.typed.metaAt_key hm

/-- The reply to a delete that removed the entry under a key. -/
def KLogResponse.Removes (key : String) (reply : KLogResponse) : Prop :=
  ∃ k prev, reply = .metaDeleteOk k true (some prev) ∧ prev.key = key

namespace KLogStateStoreManager
variable (m : KLogStateStoreManager) (history : List (KLogRequest × Readings))

def serve (x : KLogRequest × Readings) :
    KLogResponse × KLogStateStoreManager := processRequest m x.1 x.2

def revisionAt (key : String) : ℕ :=
  revisionOf (m.stateStore.metaAt key)

section
variable {m : KLogStateStoreManager} (h : m.Sound)
include h

theorem serve_sound (x : KLogRequest × Readings) : (m.serve x).2.Sound :=
  (processRequest_refines h.refines x.1 x.2).2.sound

theorem revisionAt_serve (x : KLogRequest × Readings) (key : String) :
    (m.serve x).1.Removes key ∨ m.revisionAt key ≤ (m.serve x).2.revisionAt key := by
  obtain ⟨hreply,hnext⟩ := processRequest_refines h.refines x.1 x.2
  rw [revisionAt,revisionAt,serve,hreply,hnext.metas]
  change _ ∨ revisionOf (m.ledger.metas key) ≤ _
  rcases x with ⟨item | ⟨item,expected⟩ | k,clock⟩
  · right
    simp only [Ledger.request]
    split <;> simp [Ledger.store]
  · right
    simp only [Ledger.request]
    split_ifs
    · by_cases hkey : key = item.key
      · have hbound := revisionOf_lt (m.ledger.metas item.key)
        simp only [Ledger.putMeta,hkey,Function.update_self,revisionOf_nextRevision]
        omega
      · simp [Ledger.putMeta,hkey]
    · exact le_rfl
  · simp only [Ledger.request,Ledger.deleteMeta,Ledger.current]
    cases hread : m.ledger.logs.readKey k with
    | none => exact Or.inr le_rfl
    | some k' =>
      by_cases hkey : key = k'
      · subst hkey
        cases hm : m.ledger.metas key with
        | none => exact Or.inr (by simp [revisionOf])
        | some prev =>
          left
          exact ⟨k,prev,by simp [hm],KLogStateStore.metaAt_key h.wellFormed hm⟩
      · right
        simp [hkey]

variable {key : String} {revision : UInt64}

/-- A put under a trimmed key that expects a revision goes through only against it. -/
theorem revisionAt_of_expected {item : KLogMetaEntry} {expected : UInt64} {clock : Readings}
    (htrim : Text.trimmed (some item.key) = some item.key) (hexpected : expected ≠ 0)
    (hok : (m.serve (.putMeta item (some expected),clock)).1 = .metaPutOk key revision) :
    key = item.key ∧ m.revisionAt key = expected.toNat := by
  obtain ⟨hreply,_⟩ := processRequest_refines h.refines (.putMeta item (some expected)) clock
  rw [serve,hreply] at hok
  simp only [Ledger.request] at hok
  split_ifs at hok with hmatch
  obtain ⟨rfl,_⟩ := KLogResponse.metaPutOk.inj hok
  have hread : m.ledger.logs.readKey item.key = some item.key := by
    cases m.ledger.logs with
    | sequence entries => rfl
    | keyed entryAt => exact htrim
  simp only [revisionMatches,all_some,if_neg hexpected,Ledger.current,hread,bind_some,beq_iff_eq] at hmatch
  obtain ⟨entry,hentry,rfl⟩ := map_eq_some_iff.mp hmatch
  refine ⟨rfl,?_⟩
  rw [revisionAt,show m.stateStore.metaAt item.key = some entry from hentry]
  rfl

end

def stateAt (i : ℕ) :
    KLogStateStoreManager := (Machine.run serve m (history.take i)).2

def replies :
    List KLogResponse := (Machine.run serve m history).1

section
variable {m : KLogStateStoreManager} (h : m.Sound) (history : List (KLogRequest × Readings))

theorem replies_getElem? (i : ℕ) : (m.replies history)[i]? =
    history[i]?.map (fun x => ((m.stateAt history i).serve x).1) := Machine.run_getElem? serve m history i

include h

theorem stateAt_sound (i : ℕ) : (m.stateAt history i).Sound := by
  have hstep : ∀ m x, Sound m → Sound (serve m x).2 := fun _ x hm => serve_sound hm x
  exact Machine.run_invariant hstep h _

variable {key : String} {i j : ℕ} {revision : UInt64}

theorem revisionAt_mono (hij : i ≤ j)
    (hkept : ∀ d, i ≤ d → d < j → ∀ reply, (m.replies history)[d]? = some reply → ¬ reply.Removes key) :
    (m.stateAt history i).revisionAt key ≤ (m.stateAt history j).revisionAt key := by
  induction j, hij using Nat.le_induction with
  | base => exact le_rfl
  | succ j hij ih =>
    have hfirst := ih (fun d hid hdj => hkept d hid (by omega))
    cases hx : history[j]? with
    | none =>
      have hlen : history.length ≤ j := List.getElem?_eq_none_iff.mp hx
      have hsame : m.stateAt history (j + 1) = m.stateAt history j := by
        rw [stateAt,stateAt,List.take_of_length_le hlen,List.take_of_length_le (by omega)]
      rwa [hsame]
    | some x =>
      have hnext : m.stateAt history (j + 1) = ((m.stateAt history j).serve x).2 :=
        Machine.run_take_succ serve m hx
      have hreply : (m.replies history)[j]? = some ((m.stateAt history j).serve x).1 := by
        rw [replies_getElem?,hx,map_some]
      rcases revisionAt_serve (stateAt_sound h history j) x key with hremoved | hle
      · exact absurd hremoved (hkept j hij (by omega) _ hreply)
      · rw [hnext]
        exact hfirst.trans hle

theorem revisionAt_succ (hok : (m.replies history)[i]? = some (.metaPutOk key revision)) :
    revision.toNat = min ((m.stateAt history i).revisionAt key + 1) (2^64 - 1) ∧
      (m.stateAt history (i + 1)).revisionAt key = revision.toNat := by
  rw [replies_getElem?] at hok
  obtain ⟨x,hx,hreply⟩ := map_eq_some_iff.mp hok
  rw [show m.stateAt history (i + 1) = ((m.stateAt history i).serve x).2 from
    Machine.run_take_succ serve m hx]
  obtain ⟨hanswer,hnext⟩ := processRequest_refines (stateAt_sound h history i).refines x.1 x.2
  generalize m.stateAt history i = before at *
  rw [serve,hanswer] at hreply
  rw [revisionAt,revisionAt,serve,hnext.metas]
  rcases x with ⟨item | ⟨item,expected⟩ | k,clock⟩
  · simp only [Ledger.request] at hreply
    split at hreply <;> simp at hreply
  · simp only [Ledger.request] at hreply ⊢
    split_ifs at hreply ⊢ with hmatch
    · obtain ⟨rfl,rfl⟩ := KLogResponse.metaPutOk.inj hreply
      refine ⟨revisionOf_nextRevision item (before.ledger.metas item.key),?_⟩
      simp [Ledger.putMeta,revisionOf]
  · simp [Ledger.request] at hreply

/-- Without a removal of the key between them, the second of two puts that go through is
made against at least the revision the first was answered with. -/
theorem revision_le_of_kept (hij : i < j) (hok : (m.replies history)[i]? = some (.metaPutOk key revision))
    (hkept : ¬ ∃ d reply, i < d ∧ d < j ∧ (m.replies history)[d]? = some reply ∧ reply.Removes key) :
    revision.toNat ≤ (m.stateAt history j).revisionAt key := by
  rw [← (revisionAt_succ h history hok).2]
  exact revisionAt_mono h history hij (fun d hid hdj reply hreply hremoves =>
    hkept ⟨d,reply,hid,hdj,hreply,hremoves⟩)

end

/-- A key and a revision that two puts of a history are answered with, or a revision that two
puts on a key both expect and find, come back only if the key is removed between the two,
or the revision has reached its bound. -/
theorem revision_returns_only_after_removal (m : KLogStateStoreManager) (h : m.Sound)
    (history : List (KLogRequest × Readings)) (i j : ℕ) (hij : i < j) (key : String) :
    (∀ revision, (m.replies history)[i]? = some (.metaPutOk key revision) →
      (m.replies history)[j]? = some (.metaPutOk key revision) →
      revision = U64.maxValue ∨ ∃ d reply, i < d ∧ d < j ∧
        (m.replies history)[d]? = some reply ∧ reply.Removes key) ∧
    (∀ a b clockA clockB expected first second, Text.trimmed (some key) = some key →
      a.key = key → b.key = key → expected ≠ 0 →
      history[i]? = some (.putMeta a (some expected),clockA) →
      history[j]? = some (.putMeta b (some expected),clockB) →
      (m.replies history)[i]? = some (.metaPutOk key first) →
      (m.replies history)[j]? = some (.metaPutOk key second) →
      expected = U64.maxValue ∨ ∃ d reply, i < d ∧ d < j ∧
        (m.replies history)[d]? = some reply ∧ reply.Removes key) := by
  have hmax : ∀ n : UInt64, n.toNat = 2^64 - 1 → n = U64.maxValue := fun n hn =>
    UInt64.toNat_inj.mp (hn.trans U64.toNat_maxValue.symm)
  refine ⟨?_,?_⟩
  · intro revision hfirst hsecond
    by_contra hcon
    rw [not_or] at hcon
    have hle := revision_le_of_kept h history hij hfirst hcon.2
    have hnext := (revisionAt_succ h history hsecond).1
    exact hcon.1 (hmax revision (by omega))
  · intro a b clockA clockB expected first second htrim ha hb hexpected hi hj hfirst hsecond
    by_contra hcon
    rw [not_or] at hcon
    have hexpectedAt : ∀ k item clock revision, item.key = key →
        history[k]? = some (.putMeta item (some expected),clock) →
        (m.replies history)[k]? = some (.metaPutOk key revision) →
        (m.stateAt history k).revisionAt key = expected.toNat := by
      intro k item clock revision hitem hk hreply
      rw [replies_getElem?,hk,map_some,some.injEq] at hreply
      exact (revisionAt_of_expected (stateAt_sound h history k) (by rw [hitem]; exact htrim)
        hexpected hreply).2
    have hle := revision_le_of_kept h history hij hfirst hcon.2
    have hnext := (revisionAt_succ h history hfirst).1
    rw [hexpectedAt i a clockA first ha hi hfirst] at hnext
    rw [hexpectedAt j b clockB second hb hj hsecond] at hle
    have hlt := expected.toNat_lt
    exact hcon.1 (hmax expected (by omega))

def fresh : KLogStateStoreManager := KLogStateMachine.freshRocksDb.stateStore

def putKey (expected : Option UInt64) : KLogRequest × Readings :=
  (.putMeta ⟨"a","x",0,1,0⟩ expected,⟨0,0,0⟩)

def deleteKey : KLogRequest × Readings := (.deleteMeta "a",⟨0,0,0⟩)

theorem revision_returns_after_delete : ∃ d reply, 0 < d ∧ d < 2 ∧
    (fresh.replies [putKey none,deleteKey,putKey none])[d]? = some reply ∧ reply.Removes "a" :=
  ((revision_returns_only_after_removal fresh KLogStateMachine.freshRocksDb_sound
    [putKey none,deleteKey,putKey none] 0 2 (by decide) "a").1 1 (by decide +kernel)
    (by decide +kernel)).resolve_left (by decide)

/-- A put, a delete and a put are answered with one revision twice, and two puts that expect
revision `1` both go through. -/
theorem revision_reused_after_delete :
    fresh.replies [putKey none,deleteKey,putKey none] =
      [.metaPutOk "a" 1,.metaDeleteOk "a" true (some ⟨"a","x",0,1,1⟩),.metaPutOk "a" 1] ∧
    fresh.replies [putKey none,putKey (some 1),deleteKey,putKey none,putKey (some 1)] =
      [.metaPutOk "a" 1,.metaPutOk "a" 2,.metaDeleteOk "a" true (some ⟨"a","x",0,1,2⟩),
        .metaPutOk "a" 1,.metaPutOk "a" 2] := by
  decide +kernel

end KLogStateStoreManager
end BuckyOS.KLog
