import BuckyOS.VerifyHub.Sessions

/-! Refresh tokens under every interleaving: each is exchanged once, and a session that has been revoked
has no refresh token, as long as no two calls on one session overlap after they have read its refresh
token. -/
namespace BuckyOS.VerifyHub
open List OrderedMap Pool

section Terms
def Call.token? : Call → Option RefreshToken
  | refreshToken token | logout token => some token
  | _ => none

namespace Thread
variable (thread : Thread)

def matched : Bool :=
  match thread.call, thread.stage with
  | .refreshToken _, .invalidating | .refreshToken _, .generating
  | .refreshToken _, .generatingRefresh _ | .refreshToken _, .caching _ _
  | .refreshToken _, .storing _ | .refreshToken _, .ended .done => true
  | _, _ => false

def spent : Bool := thread.matched && thread.stage ≠ .invalidating

def holding : Bool := thread.matched && thread.stage ≠ .ended .done

/-- A call acts on what it has read of a session. -/
def critical : Bool :=
  thread.holding ||
    match thread.call, thread.stage with
    | .loginByJwt _ _ _ _ _ _, _ => false
    | _, .revokingTokens _ | _, .revokingRefresh _ => true
    | _, _ => false

def revoked : Bool :=
  match thread.call, thread.stage with
  | .loginByJwt _ _ _ _ _ _, _ => false
  | _, .ended .reused | .logout _, .ended .done => true
  | _, _ => false

end Thread

def Hub.usable (hub : Hub) (token : RefreshToken) : Prop :=
  ∃ exp, hub.caches.refreshTokens.get? token.sessionKey = some (token.jti,exp)

/-- No token is exchanged twice, a revoked session has no refresh token, and of each session at most one
refresh token can be used. -/
structure SingleUse (hub : Hub) : Prop where
  exchanged : ∀ (i j : ℕ) (token : RefreshToken), i ≠ j →
    hub.threads[i]? = some ⟨.refreshToken token,.ended .done⟩ →
      hub.threads[j]? ≠ some ⟨.refreshToken token,.ended .done⟩
  revoked : ∀ thread ∈ hub.threads, thread.revoked = true →
    hub.caches.refreshTokens.get? thread.call.key = none
  usable : ∀ token token', hub.usable token → hub.usable token' →
    token.sessionKey = token'.sessionKey → token = token'

/-- A refresh token is read only while no other call acts on what it has read of the session, a marker of a
password login likewise, and a refresh token that is stored is new; a login stores none in a session that
has been revoked. -/
def orderly (hub : Hub) : Input → Bool
  | .start _ => true
  | .advance index _ _ jti =>
    match hub.threads[index]? with
    | none => true
    | some thread =>
      let calm := (hub.threads.eraseIdx index).all
        (fun t => !(t.critical && t.call.key = thread.call.key))
      match thread.stage with
      | .loading | .checking => calm
      | .storing _ =>
        hub.threads.all (fun t => t.call.token? ≠ some ⟨thread.call.session,jti⟩) &&
          (!thread.call.isLogin ||
            hub.threads.all (fun t => !(t.revoked && t.call.key = thread.call.session)))
      | _ => true

end Terms

section Invariant
variable {caches caches' : Caches} {threads : List Thread} {k : ℕ} {call : Call} {stage stage' : Stage}

def Thread.placed (thread : Thread) : Bool :=
  match thread.call, thread.stage with
  | .refreshToken _, .checking | .refreshToken _, .marking _ _
  | .refreshToken _, .revokingTokens .done | .refreshToken _, .revokingRefresh .done
  | .logout _, .checking | .logout _, .generating | .logout _, .generatingRefresh _
  | .logout _, .marking _ _ | .logout _, .invalidating | .logout _, .caching _ _
  | .logout _, .storing _ => false
  | _, _ => true

def Replaced (caches : Caches) (t : Thread) : Prop :=
  ∀ e, caches.refreshTokens.get? t.call.key = some e → t.call.token? ≠ some ⟨t.call.key,e.1⟩

structure SessionState (caches : Caches) (threads : List Thread) : Prop where
  placed : ∀ t ∈ threads, t.placed = true
  unique : Pool.Spread (fun t t' => t.critical = true → t'.critical = true →
    t.call.key ≠ t'.call.key) threads
  once : Pool.Spread (fun t t' => t.matched = true → t'.matched = true → t.call ≠ t'.call) threads
  spent : ∀ t ∈ threads, t.spent = true → Replaced caches t
  revoked : ∀ t ∈ threads, t.revoked = true → caches.refreshTokens.get? t.call.key = none
  apart : ∀ t ∈ threads, ∀ t' ∈ threads, t.revoked = true → t'.holding = true →
    t'.call.key ≠ t.call.key

variable {t : Thread} {hub : Hub}

theorem Thread.not_holding_of_revoked (h : t.revoked = true) : t.holding = false := by
  obtain ⟨call,stage⟩ := t
  cases call <;> cases stage <;> first | rfl | skip
  all_goals rename_i reply; cases reply <;> first | rfl | cases h

theorem SessionState.set (h : SessionState caches threads) (hk : threads[k]? = some ⟨call,stage⟩)
    (hplaced : (Thread.mk call stage').placed = true)
    (hcritical : (Thread.mk call stage').critical = true → (Thread.mk call stage).critical = true ∨
      ∀ (i : ℕ) (t : Thread), i ≠ k → threads[i]? = some t → t.critical = true → call.key ≠ t.call.key)
    (hmatched : (Thread.mk call stage').matched = true → (Thread.mk call stage).matched = true ∨
      ∀ (i : ℕ) (t : Thread), i ≠ k → threads[i]? = some t → t.matched = true → call ≠ t.call)
    (hspent : (Thread.mk call stage').spent = true → Replaced caches' ⟨call,stage'⟩)
    (hspent' : ∀ t ∈ threads, t.spent = true → Replaced caches' t)
    (hrevoked : (Thread.mk call stage').revoked = true → caches'.refreshTokens.get? call.key = none ∧
      ((Thread.mk call stage).revoked = true ∨ (Thread.mk call stage).critical = true))
    (hrevoked' : ∀ t ∈ threads, t.revoked = true → caches'.refreshTokens.get? t.call.key = none)
    (hholding : (Thread.mk call stage').holding = true → (Thread.mk call stage).holding = true ∨
      ∃ e, caches.refreshTokens.get? call.key = some e) :
    SessionState caches' (threads.set k ⟨call,stage'⟩) := by
  have hmem := mem_of_getElem? hk
  have hcriticalOf : ∀ t : Thread, t.holding = true → t.critical = true :=
    fun t ht => by simp [Thread.critical,ht]
  refine ⟨forall_mem_set h.placed hplaced,?_,?_,forall_mem_set hspent' hspent,
    forall_mem_set hrevoked' (fun hnew => (hrevoked hnew).1),?_⟩
  · refine h.unique.set (fun x y hxy hx hy => (hxy hy hx).symm) hk fun i t hi ht hnew htc => ?_
    rcases hcritical hnew with hold | hfree
    · exact h.unique k i ⟨call,stage⟩ t (Ne.symm hi) hk ht hold htc
    · exact hfree i t hi ht htc
  · refine h.once.set (fun x y hxy hx hy => (hxy hy hx).symm) hk fun i t hi ht hnew htm => ?_
    rcases hmatched hnew with hold | hfree
    · exact h.once k i ⟨call,stage⟩ t (Ne.symm hi) hk ht hold htm
    · exact hfree i t hi ht htm
  · intro t ht t' ht' hrev hhold
    obtain ⟨i,hi⟩ := getElem?_of_mem ht
    obtain ⟨j,hj⟩ := getElem?_of_mem ht'
    rw [getElem?_set_of_some hk] at hi hj
    split_ifs at hi hj with hik hjk hjk
    · obtain rfl := Option.some.inj hi
      obtain rfl := Option.some.inj hj
      rw [Thread.not_holding_of_revoked hrev] at hhold
      cases hhold
    · obtain rfl := Option.some.inj hi
      rcases (hrevoked hrev).2 with hold | hold
      · exact h.apart _ hmem t' (mem_of_getElem? hj) hold hhold
      · exact (h.unique k j ⟨call,stage⟩ t' (Ne.symm hjk) hk hj hold (hcriticalOf t' hhold)).symm
    · obtain rfl := Option.some.inj hj
      rcases hholding hhold with hold | ⟨e,he⟩
      · exact h.apart t (mem_of_getElem? hi) ⟨call,stage⟩ hmem hrev hold
      · intro heq
        have hnone := h.revoked t (mem_of_getElem? hi) hrev
        rw [← heq,he] at hnone
        cases hnone
    · exact h.apart t (mem_of_getElem? hi) t' (mem_of_getElem? hj) hrev hhold

def Shrinks (caches caches' : Caches) : Prop :=
  ∀ key e, caches'.refreshTokens.get? key = some e → caches.refreshTokens.get? key = some e

theorem Shrinks.replaced (h : Shrinks caches caches') (ht : Replaced caches t) :
    Replaced caches' t := fun e he => ht e (h _ e he)

theorem Shrinks.none (h : Shrinks caches caches') {key : String}
    (hnone : caches.refreshTokens.get? key = none) : caches'.refreshTokens.get? key = none := by
  cases hget : caches'.refreshTokens.get? key with
  | none => rfl
  | some e =>
    rw [h key e hget] at hnone
    cases hnone

theorem shrinks_refl (caches : Caches) : Shrinks caches caches := fun _ _ h => h

theorem shrinks_erase (caches : Caches) (tokens : OrderedMap String ℕ) (key : String) :
    Shrinks caches ⟨tokens,caches.refreshTokens.erase key⟩ := by
  intro key' e he
  rw [get?_erase] at he
  split_ifs at he
  exact he

/-- A step that is told by the flags of the call alone. -/
theorem SessionState.quiet (h : SessionState caches threads) (hk : threads[k]? = some ⟨call,stage⟩)
    (hshrinks : Shrinks caches caches') (hplaced : (Thread.mk call stage').placed = true)
    (hcritical : (Thread.mk call stage').critical = true → (Thread.mk call stage).critical = true)
    (hmatched : (Thread.mk call stage').matched = true → (Thread.mk call stage).matched = true)
    (hspent : (Thread.mk call stage').spent = true → (Thread.mk call stage).spent = true)
    (hrevoked : (Thread.mk call stage').revoked = true → (Thread.mk call stage).revoked = true)
    (hholding : (Thread.mk call stage').holding = true → (Thread.mk call stage).holding = true) :
    SessionState caches' (threads.set k ⟨call,stage'⟩) := by
  have hmem := mem_of_getElem? hk
  exact h.set hk hplaced (fun hnew => .inl (hcritical hnew)) (fun hnew => .inl (hmatched hnew))
    (fun hnew => hshrinks.replaced (h.spent ⟨call,stage⟩ hmem (hspent hnew)))
    (fun t ht hs => hshrinks.replaced (h.spent t ht hs))
    (fun hnew => ⟨hshrinks.none (h.revoked ⟨call,stage⟩ hmem (hrevoked hnew)),.inl (hrevoked hnew)⟩)
    (fun t ht hr => hshrinks.none (h.revoked t ht hr)) fun hnew => .inl (hholding hnew)

def Thread.inert (thread : Thread) : Bool :=
  thread.placed && !thread.critical && !thread.matched && !thread.revoked

theorem SessionState.inert (h : SessionState caches threads) (hk : threads[k]? = some ⟨call,stage⟩)
    (hshrinks : Shrinks caches caches') (hinert : (Thread.mk call stage').inert = true) :
    SessionState caches' (threads.set k ⟨call,stage'⟩) := by
  simp only [Thread.inert,Bool.and_eq_true,Bool.not_eq_true'] at hinert
  obtain ⟨⟨⟨hplaced,hcritical⟩,hmatched⟩,hrevoked⟩ := hinert
  refine h.quiet hk hshrinks hplaced ?_ ?_ ?_ ?_ ?_ <;>
    simp [hcritical,hmatched,hrevoked,Thread.spent,Thread.holding]

theorem SessionState.enter (h : SessionState caches threads) (hk : threads[k]? = some ⟨call,stage⟩)
    (hcalm : ∀ (i : ℕ) (t : Thread), i ≠ k → threads[i]? = some t → t.critical = true →
      call.key ≠ t.call.key) (hplaced : (Thread.mk call stage').placed = true)
    (hmatched : (Thread.mk call stage').matched = true → ∃ token e, call = .refreshToken token ∧
      caches.refreshTokens.get? call.key = some e ∧ e.1 = token.jti)
    (hspent : (Thread.mk call stage').spent = false) (hrevoked : (Thread.mk call stage').revoked = false) :
    SessionState caches (threads.set k ⟨call,stage'⟩) := by
  refine h.set hk hplaced (fun _ => .inr hcalm) (fun hnew => .inr ?_) (fun hnew => ?_) h.spent
    (fun hnew => ?_) h.revoked fun hnew => .inr ?_
  · intro i t hi ht htm heq
    obtain ⟨token,e,hcall,hget,hjti⟩ := hmatched hnew
    by_cases hstage : t.stage = .invalidating
    · refine hcalm i t hi ht ?_ (by rw [heq])
      simp [Thread.critical,Thread.holding,htm,hstage]
    · have hreplaced := h.spent t (mem_of_getElem? ht) (by simp [Thread.spent,htm,hstage])
      rw [Replaced,← heq,hcall] at hreplaced
      rw [hcall] at hget
      refine hreplaced e hget ?_
      rw [hjti]
      rfl
  · rw [hspent] at hnew
    cases hnew
  · rw [hrevoked] at hnew
    cases hnew
  · simp only [Thread.holding,Bool.and_eq_true] at hnew
    obtain ⟨token,e,-,hget,-⟩ := hmatched hnew.1
    exact ⟨e,hget⟩

theorem SessionState.store (h : SessionState caches threads) {refreshExp : ℕ}
    (hk : threads[k]? = some ⟨call,.storing refreshExp⟩) {tokens : OrderedMap String ℕ} {entry : ℕ × ℕ}
    (hnew : ∀ t ∈ threads, t.call.token? ≠ some ⟨call.session,entry.1⟩)
    (hlive : call.isLogin = true → ∀ t ∈ threads, t.revoked = true → t.call.key ≠ call.session) :
    SessionState ⟨tokens,caches.refreshTokens.insert call.session entry⟩
      (threads.set k ⟨call,.ended .done⟩) := by
  have hmem := mem_of_getElem? hk
  have hspent : ∀ t ∈ threads, (t.call.key ≠ call.session → Replaced caches t) →
      Replaced ⟨tokens,caches.refreshTokens.insert call.session entry⟩ t := by
    intro t ht hold e he
    rw [get?_insert] at he
    split_ifs at he with heq
    · rw [heq,← Option.some.inj he]
      exact hnew t ht
    · exact hold heq e he
  have hsession : call.isLogin = false → call.session = call.key := by
    cases call <;> first | exact fun _ => rfl | exact fun hlogin => (by cases hlogin)
  refine h.set hk ?_ ?_ ?_ ?_ ?_ ?_ ?_ ?_
  · cases call <;> rfl
  · cases call <;> exact fun hc => (by cases hc)
  · intro hm
    left
    cases call <;> first | rfl | cases hm
  · intro hs
    have hlogin : call.isLogin = false := by cases call <;> first | rfl | cases hs
    exact hspent ⟨call,.storing refreshExp⟩ hmem fun hne => absurd (hsession hlogin).symm hne
  · exact fun t ht hs => hspent t ht fun _ => h.spent t ht hs
  · intro hr
    have hplaced := h.placed _ hmem
    cases call <;> first | (cases hr; done) | cases hplaced
  · intro t ht hr
    rw [get?_insert_of_ne]
    · exact h.revoked t ht hr
    · intro heq
      cases hlogin : call.isLogin with
      | true => exact hlive hlogin t ht hr heq
      | false =>
        have hhold : (Thread.mk call (.storing refreshExp)).holding = true := by
          have hplaced := h.placed _ hmem
          cases call <;> first | rfl | (cases hlogin; done) | cases hplaced
        exact h.apart t ht ⟨call,.storing refreshExp⟩ hmem hr hhold ((hsession hlogin).symm.trans heq.symm)
  · cases call <;> exact fun hh => (by cases hh)

theorem SessionState.start (h : SessionState caches threads) (call : Call) (start : ℕ) :
    SessionState caches (threads ++ [⟨call,.gcTokens start⟩]) := by
  have hflags : (Thread.mk call (.gcTokens start)).placed = true ∧
      (Thread.mk call (.gcTokens start)).critical = false ∧ (Thread.mk call (.gcTokens start)).matched = false ∧
      (Thread.mk call (.gcTokens start)).spent = false ∧ (Thread.mk call (.gcTokens start)).revoked = false ∧
      (Thread.mk call (.gcTokens start)).holding = false := by
    cases call <;> exact ⟨rfl,rfl,rfl,rfl,rfl,rfl⟩
  obtain ⟨hplaced,hcritical,hmatched,hspent,hrevoked,hholding⟩ := hflags
  refine ⟨forall_mem_concat h.placed hplaced,?_,?_,forall_mem_concat h.spent (by simp [hspent]),
    forall_mem_concat h.revoked (by simp [hrevoked]),?_⟩
  · exact h.unique.concat (fun x y hxy hx hy => (hxy hy hx).symm) (by simp [hcritical])
  · exact h.once.concat (fun x y hxy hx hy => (hxy hy hx).symm) (by simp [hmatched])
  · refine forall_mem_concat (fun t ht => forall_mem_concat (h.apart t ht) ?_) ?_
    · simp [hholding]
    · simp [hrevoked]

theorem SessionState.step (h : SessionState hub.caches hub.threads) {input : Input}
    (horderly : orderly hub input = true) :
    SessionState (hub.step input).2.caches (hub.step input).2.threads := by
  cases input with
  | start call => exact h.start call hub.clock
  | advance index elapsed allowed jti =>
    cases hk : hub.threads[index]? with
    | none => simpa only [Hub.step,hk] using h
    | some thread =>
      obtain ⟨call,stage⟩ := thread
      have hplaced := h.placed _ (mem_of_getElem? hk)
      simp only [orderly,hk] at horderly
      simp only [Hub.step,hk]
      have hcalm : (hub.threads.eraseIdx index).all
          (fun t => !(t.critical && t.call.key = call.key)) = true → ∀ (i : ℕ) (t : Thread),
          i ≠ index → hub.threads[i]? = some t → t.critical = true → call.key ≠ t.call.key := by
        intro hall i t hi ht hc heq
        have htest := of_all_others hall hi ht
        simp [hc,heq] at htest
      cases stage with
      | gcTokens => exact h.inert hk (shrinks_refl _) (by cases call <;> rfl)
      | gcRefresh =>
        exact h.inert hk (fun key e he => ((get?_filter_eq_some _ _ key e).mp he).1)
          (by cases call <;> rfl)
      | verifying =>
        simp only [Stage.advance]
        split_ifs <;> exact h.inert hk (shrinks_refl _) (by cases call <;> first | rfl | contradiction)
      | checking =>
        cases hget : hub.caches.tokens.get? call.key with
        | none =>
          simp only [Stage.advance,hget]
          cases allowed <;> exact h.inert hk (shrinks_refl _) (by cases call <;> first | rfl | cases hplaced)
        | some marker =>
          cases call with
          | loginByJwt =>
            simp only [Stage.advance,hget]
            exact h.inert hk (shrinks_refl _) rfl
          | refreshToken | logout => cases hplaced
          | _ =>
            simp only [Stage.advance,hget]
            exact h.enter hk (hcalm horderly) rfl (fun hm => by cases hm) rfl rfl
      | marking exp refreshExp =>
        cases call with
        | refreshToken | logout => cases hplaced
        | _ => cases refreshExp <;> exact h.inert hk (shrinks_refl _) rfl
      | generating | generatingRefresh | caching =>
        cases call with
        | logout => cases hplaced
        | refreshToken => exact h.quiet hk (shrinks_refl _) rfl id id id (fun hr => by cases hr) id
        | _ => exact h.inert hk (shrinks_refl _) rfl
      | storing =>
        rw [Bool.and_eq_true] at horderly
        refine h.store hk (by simpa using horderly.1) fun hlogin t ht hr heq => ?_
        have hlive := horderly.2
        simp only [hlogin,Bool.not_true,Bool.false_or,all_eq_true] at hlive
        simpa [hr,heq] using hlive t ht
      | loading =>
        have henter : ∀ reply, (Thread.mk call (.revokingTokens reply)).placed = true →
            SessionState hub.caches (hub.threads.set index ⟨call,.revokingTokens reply⟩) := by
          intro reply hp
          refine h.enter hk (hcalm horderly) hp ?_ ?_ ?_ <;>
            cases call <;> first | rfl | (intro hm; cases hm)
        cases hget : hub.caches.refreshTokens.get? call.key with
        | none =>
          simp only [Stage.advance,hget]
          exact henter .reused (by cases call <;> rfl)
        | some cached =>
          cases call with
          | refreshToken token =>
            simp only [Stage.advance,hget]
            split_ifs with hjti hallowed
            · exact h.enter hk (hcalm horderly) rfl (fun _ => ⟨token,cached,rfl,hget,hjti⟩) rfl rfl
            · exact h.inert hk (shrinks_refl _) rfl
            · exact henter .reused rfl
          | logout token =>
            simp only [Stage.advance,hget]
            split_ifs
            · exact henter .done rfl
            · exact henter .reused rfl
          | _ =>
            simp only [Stage.advance,hget]
            exact henter .reused rfl
      | invalidating =>
        cases call with
        | refreshToken token =>
          refine h.set hk rfl (fun _ => .inl rfl) (fun _ => .inl rfl) ?_
            (fun t ht hs => (shrinks_erase _ _ _).replaced (h.spent t ht hs)) fun hr => by cases hr
            (fun t ht hr => (shrinks_erase _ _ _).none (h.revoked t ht hr)) fun _ => .inl rfl
          intro _ e he
          rw [Stage.advance,get?_erase] at he
          simp at he
        | logout => cases hplaced
        | _ => exact h.inert hk (shrinks_erase _ _ _) rfl
      | revokingTokens reply =>
        refine h.quiet hk (shrinks_refl _) ?_ ?_ ?_ ?_ ?_ ?_ <;> cases call <;> cases reply <;>
          first | rfl | exact hplaced | exact id
      | revokingRefresh reply =>
        have hnone : (hub.caches.refreshTokens.erase call.key).get? call.key = none := by
          rw [get?_erase,if_pos rfl]
        refine h.set hk ?_ ?_ ?_ ?_ (fun t ht hs => (shrinks_erase _ _ _).replaced (h.spent t ht hs))
          (fun hr => ⟨hnone,.inr ?_⟩) (fun t ht hr => (shrinks_erase _ _ _).none (h.revoked t ht hr)) ?_ <;>
          cases call <;> cases reply <;>
          first | rfl | (cases hplaced; done) | cases hr | (intro hf; cases hf)
      | ended reply => exact h.quiet hk (shrinks_refl _) hplaced id id id id id

theorem SessionState.singleUse (h : SessionState hub.caches hub.threads) :
    SingleUse hub := by
  refine ⟨fun i j token hij hi hj => ?_,h.revoked,?_⟩
  · exact h.once i j _ _ hij hi hj rfl rfl rfl
  · rintro ⟨key,jti⟩ ⟨key',jti'⟩ ⟨exp,hexp⟩ ⟨exp',hexp'⟩ (rfl : key = key')
    have hentry := Option.some.inj (hexp.symm.trans hexp')
    exact congrArg (RefreshToken.mk key) (congrArg Prod.fst hentry)

end Invariant

section Runs
/-- In a run that starts with no call under way and is orderly, refresh tokens are for a single use and
a revoked session stays without one. -/
theorem refresh_tokens_single_use {hub : Hub} (hempty : hub.threads = []) {inputs : List Input}
    (horderly : Machine.Along Hub.step (fun s x => orderly s x = true) hub inputs) :
    SingleUse (hub.after inputs) := by
  have hstart : SessionState hub.caches hub.threads := by
    rw [hempty]
    refine ⟨?_,?_,?_,?_,?_,?_⟩ <;> simp [Pool.Spread]
  exact (Machine.run_invariant_along (I := fun s => SessionState s.caches s.threads)
    (fun s x hs hx => hs.step hx) hstart horderly).singleUse

def steps (index count : ℕ) (jti : ℕ) : List Input :=
  List.replicate count (.advance index 0 true jti)

def loginThen (calls : List Call) : List Input :=
  .start (.loginByPassword "u" "app@u" 0) :: steps 0 8 7 ++ calls.map .start

def firstToken : RefreshToken := ⟨sessionKey "u" "app@u" (toString 0),7⟩

def exchangeAndReuse : List Input :=
  loginThen [.refreshToken firstToken,.refreshToken firstToken] ++ steps 1 9 8 ++ steps 2 6 9

theorem reuse_after_exchange :
    ((Hub.mk {} 0 []).after exchangeAndReuse).threads.map Thread.stage =
        [.ended .done,.ended .done,.ended .reused] ∧
      SingleUse ((Hub.mk {} 0 []).after exchangeAndReuse) :=
  ⟨by decide +kernel,refresh_tokens_single_use rfl (by decide +kernel)⟩

def overlappingRefreshes : List Input :=
  loginThen [.refreshToken firstToken,.refreshToken firstToken] ++ steps 1 4 8 ++ steps 2 4 9 ++
    steps 1 5 8 ++ steps 2 5 9

def refreshDuringLogout : List Input :=
  loginThen [.refreshToken firstToken,.logout firstToken] ++ steps 1 4 8 ++ steps 2 6 9 ++ steps 1 5 8

theorem token_exchanged_twice :
    ¬ SingleUse ((Hub.mk {} 0 []).after overlappingRefreshes) ∧
      ¬ SingleUse ((Hub.mk {} 0 []).after refreshDuringLogout) := by
  refine ⟨fun h => ?_,fun h => ?_⟩
  · exact h.exchanged 1 2 firstToken (by decide) (by decide +kernel) (by decide +kernel)
  · have hnone := h.revoked ⟨.logout firstToken,.ended .done⟩ (by decide +kernel) rfl
    have hsome : (((Hub.mk {} 0 []).after refreshDuringLogout).caches.refreshTokens.get?
        firstToken.sessionKey).isSome = true := by decide +kernel
    have hkey : (Thread.mk (.logout firstToken) (.ended .done)).call.key = firstToken.sessionKey := rfl
    rw [hkey] at hnone
    rw [hnone] at hsome
    cases hsome

end Runs
end BuckyOS.VerifyHub
