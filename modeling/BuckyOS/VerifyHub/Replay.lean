import BuckyOS.VerifyHub.Refresh

/-! Login credentials under every interleaving: a login JWT or a password nonce is accepted once as long as
the marker of its first use stays in the cache of session tokens and is looked for under the same key. -/
namespace BuckyOS.VerifyHub
open List OrderedMap Pool

section Terms
inductive Credential
  | jwt (iss sub jti : String)
  | nonce (username : String) (loginNonce : ℕ)
  deriving DecidableEq

namespace Call
def credential : Call → Option Credential
  | loginByJwt iss sub jti _ _ _ => some (.jwt iss sub jti)
  | loginByPassword username _ loginNonce
  | sudoByPassword username _ loginNonce => some (.nonce username loginNonce)
  | _ => none

def isLogout : Call → Bool
  | logout _ => true
  | _ => false

def validUntil : Call → ℕ
  | loginByJwt _ _ _ exp _ _ => (exp + leeway) * 1000
  | loginByPassword _ _ loginNonce
  | sudoByPassword _ _ loginNonce => loginNonce + maxLoginNonceAgeSeconds
  | _ => 0

def notAhead (now : ℕ) : Call → Bool
  | loginByPassword _ _ loginNonce
  | sudoByPassword _ _ loginNonce => loginNonce ≤ now * 1000 + maxLoginNonceAgeSeconds
  | _ => true

def outlived (now : ℕ) : Call → Bool
  | loginByJwt _ _ _ exp _ _ => exp + leeway < now + sessionTokenExpireSeconds
  | _ => true

end Call

namespace Thread
def marked (thread : Thread) : Bool :=
  match thread.stage with
  | .caching _ _ | .storing _ | .ended .done => thread.call.isLogin
  | _ => false

def admitted (thread : Thread) : Bool :=
  match thread.stage with
  | .generating | .generatingRefresh _ | .marking _ _ => thread.call.isLogin
  | _ => thread.marked

def cleared (thread : Thread) : Bool :=
  match thread.stage with
  | .revokingRefresh _ | .ended .reused => true
  | .ended .done => thread.call.isLogout
  | _ => false

end Thread

def Unreplayed (hub : Hub) : Prop :=
  ∀ (i j : ℕ) (call call' : Call) (credential : Credential), i ≠ j →
    hub.threads[i]? = some ⟨call,.ended .done⟩ → hub.threads[j]? = some ⟨call',.ended .done⟩ →
      call.credential = some credential → call'.credential ≠ some credential

/-- A login looks for a marker while its credential is in time, its session has not been revoked, and those
let in before it have its key just if they have its credential, are done with their markers and expire when
it does. A JWT expires before the session token that is generated for it, and so does the credential of a
login whose marker is replaced by a session token. -/
def guarded (hub : Hub) : Input → Bool
  | .start _ => true
  | .advance index elapsed _ _ =>
    match hub.threads[index]? with
    | none => true
    | some thread =>
      match thread.stage with
      | .checking =>
        (hub.clock + elapsed) * 1000 ≤ thread.call.validUntil &&
          hub.threads.all (fun t => !(t.cleared && t.call.key = thread.call.key)) &&
          (hub.threads.eraseIdx index).all (fun t => !t.admitted ||
            ((t.call.key = thread.call.key) = (t.call.credential = thread.call.credential)) &&
              (t.call.key ≠ thread.call.key ||
                t.marked && t.call.validUntil = thread.call.validUntil))
      | .generating => thread.call.outlived (hub.clock + elapsed)
      | .caching exp _ => hub.threads.all (fun t =>
          !t.marked || t.call.key ≠ thread.call.session || t.call.validUntil < exp * 1000)
      | _ => true

end Terms

section Invariant
variable {now now' : ℕ} {tokens tokens' : OrderedMap String ℕ} {threads : List Thread} {k : ℕ}
variable {call : Call} {stage stage' : Stage}

/-- A call stands where it can get to, a nonce is not ahead when it is looked up, and a credential does not
outlive the token that is to mark it. -/
def Thread.lawful (now : ℕ) (thread : Thread) : Bool :=
  match thread.stage with
  | .gcTokens start => start ≤ now
  | .checking | .generating => thread.call.notAhead now
  | .generatingRefresh exp => !thread.call.isLogin || thread.call.validUntil < exp * 1000
  | .marking exp _ => thread.call.isLogin && thread.call.validUntil < exp * 1000
  | .loading | .invalidating => !thread.call.isLogin
  | .revokingTokens reply => reply = .reused || (reply = .done && thread.call.isLogout)
  | .revokingRefresh reply => reply = .reused || (reply = .done && thread.call.isLogout)
  | _ => true

theorem Call.notAhead_of_not_login (h : call.isLogin = false) : call.notAhead now = true := by
  cases call <;> first | rfl | cases h

theorem Call.notAhead_mono (hle : now ≤ now') (h : call.notAhead now = true) :
    call.notAhead now' = true := by
  cases call with
  | loginByPassword | sudoByPassword =>
    simp only [Call.notAhead,decide_eq_true_eq] at h ⊢
    exact h.trans (Nat.add_le_add_right (Nat.mul_le_mul_right 1000 hle) _)
  | _ => rfl

variable {t : Thread} {key : String} {hub : Hub}

theorem Thread.lawful_mono (hle : now ≤ now') (h : t.lawful now = true) : t.lawful now' = true := by
  obtain ⟨call,stage⟩ := t
  cases stage with
  | gcTokens start =>
    simp only [lawful,decide_eq_true_eq] at h ⊢
    exact h.trans hle
  | checking | generating => exact Call.notAhead_mono hle h
  | _ => exact h

open Thread (cleared lawful lawful_mono marked)

def Uncleared (threads : List Thread) (key : String) : Prop :=
  ∀ t ∈ threads, t.cleared = true → t.call.key ≠ key

/-- The marker of a login is in the cache and outlives the credential. -/
def Lasting (tokens : OrderedMap String ℕ) (call : Call) : Prop :=
  ∃ e, tokens.get? call.key = some e ∧ call.validUntil < e * 1000

def Distinct (t t' : Thread) : Prop :=
  t.admitted = true → t'.admitted = true →
    t.call.credential ≠ t'.call.credential ∧ t.call.key ≠ t'.call.key

theorem distinct_symm (t t' : Thread) (h : Distinct t t') : Distinct t' t :=
  fun ht ht' => ⟨(h ht' ht).1.symm,(h ht' ht).2.symm⟩

structure MarkerState (now : ℕ) (tokens : OrderedMap String ℕ) (threads : List Thread) : Prop where
  lawful : ∀ t ∈ threads, t.lawful now = true
  lasting : ∀ t ∈ threads, t.marked = true → Uncleared threads t.call.key →
    now * 1000 ≤ t.call.validUntil → Lasting tokens t.call
  distinct : Spread Distinct threads

theorem MarkerState.set (h : MarkerState now tokens threads) (hle : now ≤ now')
    (hk : threads[k]? = some ⟨call,stage⟩) (hlawful : (Thread.mk call stage').lawful now' = true)
    (hcleared : (Thread.mk call stage).cleared = true → (Thread.mk call stage').cleared = true)
    (hkept : ∀ t ∈ threads, t.marked = true →
      ((Thread.mk call stage').cleared = true → call.key ≠ t.call.key) →
      now' * 1000 ≤ t.call.validUntil → Lasting tokens t.call → Lasting tokens' t.call)
    (hmarked : (Thread.mk call stage').marked = true → (Thread.mk call stage).marked = true ∨
      Lasting tokens' call)
    (hadmitted : (Thread.mk call stage').admitted = true → (Thread.mk call stage).admitted = true ∨
      ∀ (i : ℕ) (t : Thread), i ≠ k → threads[i]? = some t → Distinct ⟨call,stage'⟩ t) :
    MarkerState now' tokens' (threads.set k ⟨call,stage'⟩) := by
  have hmem := mem_of_getElem? hk
  have hnew : Thread.mk call stage' ∈ threads.set k ⟨call,stage'⟩ :=
    mem_of_getElem? (by rw [getElem?_set_of_some hk,if_pos rfl])
  have hold : ∀ key, Uncleared (threads.set k ⟨call,stage'⟩) key → Uncleared threads key := by
    intro key hun t ht hc
    obtain ⟨i,hi⟩ := getElem?_of_mem ht
    by_cases hik : i = k
    · subst hik
      obtain rfl := Option.some.inj (hk.symm.trans hi)
      exact hun ⟨call,stage'⟩ hnew (hcleared hc)
    · refine hun t (mem_of_getElem? (i := i) ?_) hc
      rw [getElem?_set_of_some hk,if_neg hik,hi]
  have hkeep : ∀ t ∈ threads, t.marked = true → Uncleared (threads.set k ⟨call,stage'⟩) t.call.key →
      now' * 1000 ≤ t.call.validUntil → Lasting tokens' t.call := by
    intro t ht hm hun htime
    exact hkept t ht hm (hun _ hnew) htime
      (h.lasting t ht hm (hold _ hun) ((Nat.mul_le_mul_right 1000 hle).trans htime))
  refine ⟨forall_mem_set (fun t ht => lawful_mono hle (h.lawful t ht)) hlawful,
    forall_mem_set hkeep ?_,h.distinct.set distinct_symm hk fun i t hi ht => ?_⟩
  · intro hm hun htime
    rcases hmarked hm with hm' | hlasting
    · exact hkeep ⟨call,stage⟩ hmem hm' hun htime
    · exact hlasting
  · intro hnewAdmitted htAdmitted
    rcases hadmitted hnewAdmitted with ha | ha
    · exact h.distinct k i ⟨call,stage⟩ t (Ne.symm hi) hk ht ha htAdmitted
    · exact ha i t hi ht hnewAdmitted htAdmitted

theorem lasting_filter (h : Lasting tokens call) {start : ℕ} (htime : start * 1000 ≤ call.validUntil) :
    Lasting (tokens.filter (fun e => e.2 > start)) call := by
  obtain ⟨e,he,hlt⟩ := h
  refine ⟨e,(get?_filter_eq_some _ _ _ _).mpr ⟨he,?_⟩,hlt⟩
  simp only [gt_iff_lt,decide_eq_true_eq]
  omega

theorem lasting_erase (h : Lasting tokens call) (hne : key ≠ call.key) :
    Lasting (tokens.erase key) call := by
  obtain ⟨e,he,hlt⟩ := h
  exact ⟨e,by rw [get?_erase_of_ne _ (Ne.symm hne),he],hlt⟩

theorem lasting_insert (h : Lasting tokens call) {e : ℕ}
    (hlt : key = call.key → call.validUntil < e * 1000) : Lasting (tokens.insert key e) call := by
  obtain ⟨e',he',hlt'⟩ := h
  by_cases hkey : key = call.key
  · exact ⟨e,by rw [hkey,get?_insert_self],hlt hkey⟩
  · exact ⟨e',by rw [get?_insert_of_ne _ _ (Ne.symm hkey),he'],hlt'⟩

/-- A call goes to a stage where it is not let in, marked or restored. -/
structure Restaged (now : ℕ) (call : Call) (stage stage' : Stage) : Prop where
  lawful : (Thread.mk call stage').lawful now = true
  cleared : (Thread.mk call stage).cleared = true → (Thread.mk call stage').cleared = true
  marked : (Thread.mk call stage').marked = true → (Thread.mk call stage).marked = true
  admitted : (Thread.mk call stage').admitted = true → (Thread.mk call stage).admitted = true

attribute [local simp] Thread.admitted Thread.lawful Stage.advance

theorem Thread.not_admitted (h : t.call.isLogin = false) : t.admitted = false := by
  obtain ⟨call,stage⟩ := t
  simp only [Thread.admitted,Thread.marked]
  split <;> first | exact h | split <;> first | exact h | rfl

theorem Thread.admitted_of_marked (h : t.marked = true) : t.admitted = true := by
  obtain ⟨call,stage⟩ := t
  cases stage <;> first | exact h | cases h

section
variable (h : MarkerState now tokens threads)
include h

theorem MarkerState.quiet (hle : now ≤ now') (hk : threads[k]? = some ⟨call,stage⟩)
    (hstage : Restaged now' call stage stage')
    (hkept : ∀ t ∈ threads, t.marked = true → now' * 1000 ≤ t.call.validUntil →
      Lasting tokens t.call → Lasting tokens' t.call) :
    MarkerState now' tokens' (threads.set k ⟨call,stage'⟩) :=
  h.set hle hk hstage.lawful hstage.cleared (fun t ht hm _ => hkept t ht hm)
    (fun hm => .inl (hstage.marked hm)) (fun ha => .inl (hstage.admitted ha))

theorem MarkerState.wait (hle : now ≤ now') : MarkerState now' tokens threads :=
  ⟨fun t ht => lawful_mono hle (h.lawful t ht),fun t ht hm hun htime =>
    h.lasting t ht hm hun ((Nat.mul_le_mul_right 1000 hle).trans htime),h.distinct⟩

theorem MarkerState.start (call : Call) : MarkerState now tokens (threads ++ [⟨call,.gcTokens now⟩]) := by
  have hmarked : (Thread.mk call (.gcTokens now)).marked = false := by simp [marked]
  have hadmitted : (Thread.mk call (.gcTokens now)).admitted = false := by simp [hmarked]
  refine ⟨forall_mem_concat h.lawful (by simp),
    forall_mem_concat (fun t ht hm hun => h.lasting t ht hm fun u hu => ?_) (by simp [hmarked]),
    h.distinct.concat distinct_symm fun t _ ha => ?_⟩
  · exact hun u (mem_append_left _ hu)
  · rw [hadmitted] at ha
    cases ha

theorem MarkerState.admit (hle : now ≤ now') (hk : threads[k]? = some ⟨call,.checking⟩)
    (hnone : tokens.get? call.key = none) (htime : now' * 1000 ≤ call.validUntil)
    (huncleared : Uncleared threads call.key)
    (hothers : ∀ (i : ℕ) (t : Thread), i ≠ k → threads[i]? = some t → t.admitted = true →
      (t.call.key = call.key ↔ t.call.credential = call.credential) ∧
        (t.call.key = call.key → t.marked = true ∧ t.call.validUntil = call.validUntil)) :
    MarkerState now' tokens (threads.set k ⟨call,.generating⟩) := by
  have hlawful : (Thread.mk call .generating).lawful now' = true :=
    lawful_mono hle (h.lawful ⟨call,.checking⟩ (mem_of_getElem? hk))
  have hkey : ∀ (i : ℕ) (t : Thread), i ≠ k → threads[i]? = some t → t.admitted = true →
      call.key ≠ t.call.key := by
    intro i t hi ht ha heq
    obtain ⟨hm,hvalid⟩ := (hothers i t hi ht ha).2 heq.symm
    have htime' : now * 1000 ≤ t.call.validUntil := by
      rw [hvalid]
      exact (Nat.mul_le_mul_right 1000 hle).trans htime
    obtain ⟨e,he,-⟩ := h.lasting t (mem_of_getElem? ht) hm (heq ▸ huncleared) htime'
    rw [← heq,hnone] at he
    cases he
  refine h.set hle hk hlawful ?_ (fun t _ _ _ _ hlasting => hlasting) ?_ fun _ => .inr ?_
  · exact fun hc => nomatch hc
  · intro hm
    simp [marked] at hm
  · intro i t hi ht _ ha
    have hne := hkey i t hi ht ha
    exact ⟨fun heq => hne (((hothers i t hi ht ha).1.mpr heq.symm).symm),hne⟩

theorem MarkerState.mark (hle : now ≤ now') {e : ℕ} {refreshExp : Option ℕ}
    (hk : threads[k]? = some ⟨call,.marking e refreshExp⟩)
    (hlawful : (Thread.mk call stage').lawful now' = true) :
    MarkerState now' (tokens.insert call.key e) (threads.set k ⟨call,stage'⟩) := by
  have hmarking := h.lawful _ (mem_of_getElem? hk)
  simp only [Thread.lawful,Bool.and_eq_true,decide_eq_true_eq] at hmarking
  obtain ⟨hlogin,hlt⟩ := hmarking
  have ha : (Thread.mk call (.marking e refreshExp)).admitted = true := by simp [hlogin]
  refine h.set hle hk hlawful ?_ ?_ (fun _ => .inr ⟨e,get?_insert_self _ _ _,hlt⟩) (fun _ => .inl ha)
  · exact fun hc => nomatch hc
  · intro t ht hm _ _ hlasting
    refine lasting_insert hlasting fun heq => ?_
    obtain ⟨i,hi⟩ := getElem?_of_mem ht
    by_cases hik : i = k
    · subst hik
      obtain rfl := Option.some.inj (hk.symm.trans hi)
      exact hlt
    · exact absurd heq (h.distinct k i ⟨call,.marking e refreshExp⟩ t (Ne.symm hik) hk hi ha
        (Thread.admitted_of_marked hm)).2

end

theorem nonce_lt {nonce : ℕ} (h : nonce ≤ now * 1000 + maxLoginNonceAgeSeconds) :
    nonce + maxLoginNonceAgeSeconds < (now + sudoSessionTokenExpireSeconds) * 1000 := by
  simp only [maxLoginNonceAgeSeconds,sudoSessionTokenExpireSeconds] at h ⊢
  omega

theorem sudo_lt : (now + sudoSessionTokenExpireSeconds) * 1000 <
    (now + sessionTokenExpireSeconds) * 1000 := by
  simp only [sessionTokenExpireSeconds,sudoSessionTokenExpireSeconds]
  omega

def Hub.Marked (hub : Hub) : Prop := MarkerState hub.clock hub.caches.tokens hub.threads

section Stages
variable {hub : Hub} (h : MarkerState hub.clock hub.caches.tokens hub.threads) {index elapsed : ℕ}
  {allowed : Bool} {jti : ℕ}
include h

theorem MarkerState.restage (hk : hub.threads[index]? = some ⟨call,stage⟩)
    (hstage : Restaged (hub.clock + elapsed) call stage stage') :
    MarkerState (hub.clock + elapsed) hub.caches.tokens (hub.threads.set index ⟨call,stage'⟩) :=
  h.quiet (Nat.le_add_right _ _) hk hstage fun _ _ _ _ hlasting => hlasting

theorem MarkerState.verify (hk : hub.threads[index]? = some ⟨call,.verifying⟩) :
    (hub.step (.advance index elapsed allowed jti)).2.Marked := by
  simp only [Hub.Marked,Hub.step,hk,Stage.advance]
  split_ifs with hpass hlogin
  · refine h.restage hk ⟨?_,?_,?_,?_⟩
    · rw [Bool.and_eq_true] at hpass
      cases call <;> simp_all [Call.notAhead,Call.inTime]
    all_goals simp [cleared,marked]
  · refine h.restage hk ⟨?_,?_,?_,?_⟩ <;> simp [cleared,marked,hlogin]
  · refine h.restage hk ⟨?_,?_,?_,?_⟩ <;> simp [cleared,marked]

/-- A login that finds a marker is turned away, one that finds none is let in. -/
theorem MarkerState.check (hk : hub.threads[index]? = some ⟨call,.checking⟩)
    (hguarded : guarded hub (.advance index elapsed allowed jti) = true) :
    (hub.step (.advance index elapsed allowed jti)).2.Marked := by
  simp only [guarded,hk] at hguarded
  have hout : ∀ reply, reply ≠ Reply.done → MarkerState (hub.clock + elapsed) hub.caches.tokens
      (hub.threads.set index ⟨call,.ended reply⟩) := by
    intro reply hreply
    refine h.restage hk ⟨?_,?_,?_,?_⟩ <;> cases reply <;> simp_all [cleared,marked]
  have hrevoke : MarkerState (hub.clock + elapsed) hub.caches.tokens
      (hub.threads.set index ⟨call,.revokingTokens .reused⟩) := by
    refine h.restage hk ⟨?_,?_,?_,?_⟩ <;> simp [cleared,marked]
  cases hget : hub.caches.tokens.get? call.key with
  | none =>
    simp only [Hub.Marked,Hub.step,hk,Stage.advance,hget]
    cases allowed with
    | false => exact hout .rejected (by decide)
    | true =>
      simp only [Bool.and_eq_true,decide_eq_true_eq] at hguarded
      obtain ⟨⟨htime,hclear⟩,hothers⟩ := hguarded
      refine h.admit (Nat.le_add_right _ _) hk hget htime (fun t ht hc heq => ?_) fun i t hi ht ha => ?_
      · have htest := all_eq_true.mp hclear t ht
        simp [hc,heq] at htest
      · have htest := of_all_others hothers hi ht
        simp only [ha,Bool.not_true,Bool.false_or,Bool.and_eq_true,Bool.or_eq_true,decide_eq_true_eq] at htest
        exact ⟨iff_of_eq htest.1,fun heq => htest.2.resolve_left (fun hne => hne heq)⟩
  | some marker =>
    cases call <;> simp only [Hub.Marked,Hub.step,hk,Stage.advance,hget] <;>
      first | exact hrevoke | exact hout .rejected (by decide)

/-- The session token of a login outlives what the login was let in with. -/
theorem MarkerState.generate (hk : hub.threads[index]? = some ⟨call,.generating⟩)
    (hguarded : guarded hub (.advance index elapsed allowed jti) = true) :
    (hub.step (.advance index elapsed allowed jti)).2.Marked := by
  have hle : hub.clock ≤ hub.clock + elapsed := Nat.le_add_right _ _
  have hlawful := lawful_mono hle (h.lawful _ (mem_of_getElem? hk))
  simp only [guarded,hk] at hguarded
  simp only [Hub.Marked,Hub.step,hk]
  cases call with
  | loginByJwt iss sub jwtId exp scope sessionId =>
    have hlt : (Call.loginByJwt iss sub jwtId exp scope sessionId).validUntil <
        (hub.clock + elapsed + sessionTokenExpireSeconds) * 1000 :=
      Nat.mul_lt_mul_of_pos_right (by simpa [Call.outlived] using hguarded) (by decide)
    exact h.restage hk ⟨by simp [hlt],by simp [cleared],by simp [marked],fun _ => rfl⟩
  | loginByPassword username appInstanceId loginNonce =>
    have hlt : (Call.loginByPassword username appInstanceId loginNonce).validUntil <
        (hub.clock + elapsed + sessionTokenExpireSeconds) * 1000 :=
      (nonce_lt (by simpa [lawful,Call.notAhead] using hlawful)).trans sudo_lt
    exact h.restage hk ⟨by simp [hlt],by simp [cleared],by simp [marked],fun _ => rfl⟩
  | sudoByPassword username appInstanceId loginNonce =>
    have hlt : (Call.sudoByPassword username appInstanceId loginNonce).validUntil <
        (hub.clock + elapsed + sudoSessionTokenExpireSeconds) * 1000 :=
      nonce_lt (by simpa [lawful,Call.notAhead] using hlawful)
    exact h.restage hk ⟨by simp [hlt,Call.isLogin],by simp [cleared],by simp [marked],fun _ => rfl⟩
  | _ => refine h.restage hk ⟨?_,?_,?_,?_⟩ <;> simp [cleared,marked,Call.isLogin]

theorem MarkerState.load (hk : hub.threads[index]? = some ⟨call,.loading⟩) :
    (hub.step (.advance index elapsed allowed jti)).2.Marked := by
  have hlawful := h.lawful _ (mem_of_getElem? hk)
  have hlogin : call.isLogin = false := by simpa [lawful] using hlawful
  have hnext : ∀ stage', (Thread.mk call stage').lawful (hub.clock + elapsed) = true →
      MarkerState (hub.clock + elapsed) hub.caches.tokens (hub.threads.set index ⟨call,stage'⟩) := by
    intro stage' hl
    have hout : (Thread.mk call stage').admitted = false := Thread.not_admitted hlogin
    refine h.restage hk ⟨hl,?_,fun hm => ?_,fun ha => ?_⟩
    · simp [cleared]
    · exact absurd (Thread.admitted_of_marked hm) (by rw [hout]; decide)
    · exact absurd ha (by rw [hout]; decide)
  cases call with
  | refreshToken token | logout token =>
    cases hget : hub.caches.refreshTokens.get? token.sessionKey <;>
      simp only [Hub.Marked,Hub.step,hk,Stage.advance,Call.key,hget]
    · exact hnext _ rfl
    · split_ifs <;> exact hnext _ rfl
  | _ => cases hlogin

end Stages

theorem MarkerState.step (h : MarkerState hub.clock hub.caches.tokens hub.threads) {input : Input}
    (hguarded : guarded hub input = true) :
    MarkerState (hub.step input).2.clock (hub.step input).2.caches.tokens (hub.step input).2.threads := by
  cases input with
  | start call => exact h.start call
  | advance index elapsed allowed jti =>
    have hle : hub.clock ≤ hub.clock + elapsed := Nat.le_add_right _ _
    cases hk : hub.threads[index]? with
    | none => simpa only [Hub.step,hk] using h.wait hle
    | some thread =>
      obtain ⟨call,stage⟩ := thread
      have hlawful := lawful_mono hle (h.lawful _ (mem_of_getElem? hk))
      cases stage with
      | verifying => exact h.verify hk
      | checking => exact h.check hk hguarded
      | generating => exact h.generate hk hguarded
      | loading => exact h.load hk
      | gcTokens start =>
        have hstart : start ≤ hub.clock + elapsed := by simpa [lawful] using hlawful
        simp only [Hub.step,hk]
        refine h.quiet hle hk ⟨?_,?_,?_,?_⟩ fun t _ _ htime hlasting => lasting_filter hlasting
          ((Nat.mul_le_mul_right 1000 hstart).trans htime) <;> simp [cleared,marked]
      | generatingRefresh exp =>
        simp only [Hub.step,hk,Stage.advance]
        cases hlogin : call.isLogin <;>
          refine h.restage hk ⟨?_,?_,?_,?_⟩ <;> simp_all [cleared,marked]
      | marking exp refreshExp =>
        simp only [Hub.step,hk,Stage.advance]
        split <;> exact h.mark hle hk rfl
      | gcRefresh =>
        simp only [Hub.step,hk]
        refine h.restage hk ⟨?_,?_,?_,?_⟩ <;> simp [cleared,marked]
      | caching exp refreshExp =>
        simp only [guarded,hk] at hguarded
        simp only [Hub.step,hk]
        refine h.quiet hle hk ⟨?_,?_,?_,?_⟩ fun t ht hm _ hlasting => lasting_insert hlasting fun heq => ?_
        · simp
        · simp [cleared]
        · simp [marked]
        · simp [marked]
        · simpa [hm,heq] using all_eq_true.mp hguarded t ht
      | storing =>
        simp only [Hub.step,hk]
        refine h.restage hk ⟨hlawful,?_,?_,?_⟩ <;> simp_all [cleared,marked]
      | invalidating =>
        have hlogin : call.isLogin = false := by simpa using hlawful
        simp only [Hub.step,hk]
        refine h.restage hk ⟨Call.notAhead_of_not_login hlogin,?_,?_,?_⟩ <;> simp [cleared,marked,hlogin]
      | revokingTokens reply =>
        simp only [Hub.step,hk]
        refine h.set hle hk hlawful ?_
          (fun t _ _ hne _ hlasting => lasting_erase hlasting (hne rfl)) ?_ ?_ <;> simp [cleared,marked]
      | revokingRefresh reply =>
        have hlogout : call.isLogout = true → call.isLogin = false := by
          cases call <;> simp [Call.isLogout,Call.isLogin]
        simp only [Hub.step,hk]
        refine h.restage hk ⟨?_,?_,?_,?_⟩ <;> cases reply <;> simp_all [cleared,marked]
      | ended reply =>
        simp only [Hub.step,hk]
        exact h.restage hk ⟨hlawful,id,id,id⟩

end Invariant

section Runs
/-- In a run that starts with no call under way and is guarded, no credential is accepted twice. -/
theorem credentials_unreplayed {hub : Hub} (hempty : hub.threads = []) {inputs : List Input}
    (hguarded : Machine.Along Hub.step (fun s x => guarded s x = true) hub inputs) :
    Unreplayed (hub.after inputs) := by
  intro i j call call' credential hij hi hj hc hc'
  have hadmitted : ∀ c : Call, c.credential = some credential →
      (Thread.mk c (.ended .done)).admitted = true := by
    intro c hcred
    cases c <;> first | rfl | cases hcred
  have hstart : MarkerState hub.clock hub.caches.tokens hub.threads := by
    rw [hempty]
    refine ⟨?_,?_,?_⟩ <;> simp [Spread]
  have hend := Machine.run_invariant_along
    (I := fun s => MarkerState s.clock s.caches.tokens s.threads)
    (fun s x hs hx => hs.step hx) hstart hguarded
  have hdistinct := hend.distinct i j _ _ hij hi hj (hadmitted call hc) (hadmitted call' hc')
  exact hdistinct.1 (hc.trans hc'.symm)

def nightly : Call := .loginByJwt "alice" "alice" "1" 600 "kernel@system" 5

def eachTwice : List Input :=
  [nightly,.loginByPassword "u" "app@u" 0,nightly,.loginByPassword "u" "app@u" 0].map .start ++
    steps 0 9 7 ++ steps 1 8 8 ++ steps 2 4 9 ++ steps 3 6 9

theorem second_use_refused :
    ((Hub.mk {} 0 []).after eachTwice).threads.map Thread.stage =
        [.ended .done,.ended .done,.ended .rejected,.ended .reused] ∧
      Unreplayed ((Hub.mk {} 0 []).after eachTwice) :=
  ⟨by decide +kernel,credentials_unreplayed rfl (by decide +kernel)⟩

def twoInstances : List Input :=
  [.loginByPassword "u" "kernel@system" 0,.loginByPassword "u" "control-panel@system" 0].map .start ++
    steps 0 8 7 ++ steps 1 8 8

/-- A JWT of an hour is used again when its marker has gone. -/
def afterCleanup : List Input :=
  .start (.loginByJwt "alice" "alice" "1" 3600 "kernel@system" 5) :: steps 0 9 7 ++ [.advance 0 900 true 7] ++
    .start (.loginByJwt "alice" "alice" "1" 3600 "kernel@system" 6) :: steps 1 9 8

def afterDetection : List Input :=
  List.replicate 3 (.start (.loginByPassword "u" "app@u" 0)) ++ steps 0 8 7 ++ steps 1 6 8 ++ steps 2 8 9

def overlappingLogins : List Input :=
  List.replicate 2 (.start (.loginByPassword "u" "app@u" 0)) ++ steps 0 4 7 ++ steps 1 8 8 ++ steps 0 4 7

theorem credential_replayed :
    ¬ Unreplayed ((Hub.mk {} 0 []).after twoInstances) ∧
      ¬ Unreplayed ((Hub.mk {} 0 []).after afterCleanup) ∧
      ¬ Unreplayed ((Hub.mk {} 0 []).after afterDetection) ∧
      ¬ Unreplayed ((Hub.mk {} 0 []).after overlappingLogins) := by
  have hboth : ∀ (hub : Hub) (i j : ℕ) (call call' : Call), i ≠ j →
      hub.threads[i]? = some ⟨call,.ended .done⟩ → hub.threads[j]? = some ⟨call',.ended .done⟩ →
      call.credential.isSome = true → call.credential = call'.credential → ¬ Unreplayed hub := by
    intro hub i j call call' hij hi hj hsome heq h
    obtain ⟨credential,hc⟩ := Option.isSome_iff_exists.mp hsome
    exact h i j call call' credential hij hi hj hc (heq ▸ hc)
  refine ⟨?_,?_,?_,?_⟩
  · exact hboth _ 0 1 (.loginByPassword "u" "kernel@system" 0)
      (.loginByPassword "u" "control-panel@system" 0) (by decide) (by decide +kernel)
      (by decide +kernel) rfl rfl
  · exact hboth _ 0 1 (.loginByJwt "alice" "alice" "1" 3600 "kernel@system" 5)
      (.loginByJwt "alice" "alice" "1" 3600 "kernel@system" 6) (by decide) (by decide +kernel)
      (by decide +kernel) rfl rfl
  · exact hboth _ 0 2 (.loginByPassword "u" "app@u" 0) (.loginByPassword "u" "app@u" 0) (by decide)
      (by decide +kernel) (by decide +kernel) rfl rfl
  · exact hboth _ 0 1 (.loginByPassword "u" "app@u" 0) (.loginByPassword "u" "app@u" 0) (by decide)
      (by decide +kernel) (by decide +kernel) rfl rfl

end Runs
end BuckyOS.VerifyHub
