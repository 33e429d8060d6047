import BuckyOS.Lib.Text
import BuckyOS.VerifyHub.Refresh

/-! Sessions side by side: the keys of the caches join the user, the app scope and the id of a session.
Where the parts can be told apart, calls on other sessions neither read nor change the tokens of a
session. -/
namespace BuckyOS.VerifyHub
open List OrderedMap Pool

section Terms
structure SessionName where
  user : String
  scope : String
  id : String
  deriving DecidableEq

def SessionName.key (name : SessionName) : String := sessionKey name.user name.scope name.id

/-- The separator of the keys is neither in the user nor in the id. -/
def SessionName.plain (name : SessionName) : Bool := '_' ∉ name.user.toList ∧ '_' ∉ name.id.toList

/-- The key of another session, where both have plain names. -/
def Elsewhere (other : SessionName) (key : String) : Prop :=
  ∃ name ≠ other, name.plain = true ∧ other.plain = true ∧ key = name.key

/-- A call is on other sessions: that of its token, or its own and the one that marks its login. -/
def Call.Apart (other : SessionName) (call : Call) : Prop :=
  Elsewhere other call.key ∧ Elsewhere other call.session

def Caches.without (caches : Caches) (key : String) : Caches :=
  ⟨caches.tokens.erase key,caches.refreshTokens.erase key⟩

def Hub.without (hub : Hub) (key : String) : Hub := {hub with caches := hub.caches.without key}

def Stage.cleanupTime : Stage → ℕ
  | gcTokens start | gcRefresh start => start
  | _ => 0

def Caches.live (caches : Caches) (now : ℕ) (key : String) : Option ℕ × Option (ℕ × ℕ) :=
  ((caches.tokens.get? key).filter (· > now),(caches.refreshTokens.get? key).filter (·.2 > now))

end Terms

section Steps
variable {other name : SessionName} {call : Call} {now now' jti : ℕ} {allowed : Bool}
  {caches : Caches} {stage : Stage}

theorem SessionName.key_injective (h : name.plain = true) (h' : other.plain = true)
    (hkey : name.key = other.key) : name = other := by
  obtain ⟨user,scope,id⟩ := name
  obtain ⟨user',scope',id'⟩ := other
  simp only [plain,decide_eq_true_eq] at h h'
  have htext : user.toList ++ '_' :: (scope.toList ++ '_' :: id.toList) =
      user'.toList ++ '_' :: (scope'.toList ++ '_' :: id'.toList) := by
    simpa [key,sessionKey] using congrArg String.toList hkey
  have hcut := congrArg (Text.splitOnce '_') htext
  rw [Text.splitOnce_append h.1,Text.splitOnce_append h'.1] at hcut
  obtain ⟨huser,hrest⟩ := Prod.mk.inj (Option.some.inj hcut)
  have hcut' := congrArg (fun cs : List Char => Text.splitOnce '_' cs.reverse) hrest
  simp only [reverse_append,reverse_cons,append_assoc,singleton_append] at hcut'
  rw [Text.splitOnce_append (by simpa using h.2),Text.splitOnce_append (by simpa using h'.2)] at hcut'
  obtain ⟨hid,hscope⟩ := Prod.mk.inj (Option.some.inj hcut')
  rw [String.toList_injective huser,String.toList_injective (reverse_injective hscope),
    String.toList_injective (reverse_injective hid)]

theorem Elsewhere.ne {key : String} (h : Elsewhere other key) : other.key ≠ key := by
  obtain ⟨name,hne,hname,hother,rfl⟩ := h
  exact fun heq => hne (SessionName.key_injective hother hname heq).symm

theorem Stage.cleanupTime_advance :
    (stage.advance now allowed jti call caches).1.cleanupTime ≤ stage.cleanupTime := by
  cases stage with
  | gcTokens start => exact le_rfl
  | _ =>
    simp only [advance]
    repeat' split
    all_goals exact Nat.zero_le _

/-- A call on other sessions does not read the tokens of a session, and leaves it those that have not
expired. -/
theorem Stage.advance_apart (h : call.Apart other) (hle : stage.cleanupTime ≤ now') :
    stage.advance now allowed jti call (caches.without other.key) =
      ((stage.advance now allowed jti call caches).1,
        (stage.advance now allowed jti call caches).2.without other.key) ∧
    (stage.advance now allowed jti call caches).2.live now' other.key = caches.live now' other.key := by
  have hkey := h.1.ne
  have hlater : ∀ start : ℕ, start ≤ now' → ∀ e : ℕ,
      (decide (e > start) && decide (e > now')) = decide (e > now') := by
    intro start hstart e
    rw [← Bool.decide_and]
    exact decide_eq_decide.mpr (by omega)
  have hcomm {ν : Type} (m : OrderedMap String ν) (p : String × ν → Bool) :=
    filter_filter_comm m (fun e => e.1 ≠ other.key) p
  cases stage with
  | gcTokens start | gcRefresh start =>
    simp only [advance,Caches.without,Caches.live,erase,hcomm,get?_filter,Option.filter_filter,
      hlater start hle,true_and]
  | marking exp refreshExp =>
    rcases refreshExp with _ | refreshExp <;> cases call <;>
      simp only [advance,Caches.without,Caches.live,insert_erase _ _ hkey,get?_insert_of_ne _ _ hkey,true_and]
  | caching | storing =>
    simp only [advance,Caches.without,Caches.live,insert_erase _ _ h.2.ne,
      get?_insert_of_ne _ _ h.2.ne,true_and]
  | generating => cases call <;> exact ⟨rfl,rfl⟩
  | generatingRefresh | ended => exact ⟨rfl,rfl⟩
  | verifying | checking | loading =>
    simp only [advance,Caches.without,get?_erase_of_ne _ hkey.symm]
    repeat' split
    all_goals exact ⟨rfl,rfl⟩
  | _ =>
    refine ⟨?_,?_⟩
    · simp only [advance,Caches.without,erase,hcomm]
    · simp only [advance,Caches.live,get?_erase_of_ne _ hkey]

end Steps

section Runs
variable {other : SessionName} {hub : Hub}

/-- The calls under way are on other sessions, and clean the caches by a time that has come. -/
def Hub.Apart (other : SessionName) (hub : Hub) : Prop :=
  ∀ t ∈ hub.threads, t.stage.cleanupTime ≤ hub.clock ∧
    ((∃ reply, t.stage = .ended reply) ∨ t.call.Apart other)

theorem Hub.Apart.step (h : hub.Apart other) {input : Input}
    (hinput : ∀ call, input = .start call → call.Apart other) :
    (hub.step input).2.Apart other ∧ hub.clock ≤ (hub.step input).2.clock ∧
      (hub.step input).2.without other.key = ((hub.without other.key).step input).2 ∧
      ∀ now, (hub.step input).2.clock ≤ now →
        (hub.step input).2.caches.live now other.key = hub.caches.live now other.key := by
  cases input with
  | start call =>
    exact ⟨forall_mem_concat h ⟨le_rfl,.inr (hinput call rfl)⟩,le_rfl,rfl,fun _ _ => rfl⟩
  | advance index elapsed allowed jti =>
    have hlater : ∀ t ∈ hub.threads, t.stage.cleanupTime ≤ hub.clock + elapsed ∧
        ((∃ reply, t.stage = .ended reply) ∨ t.call.Apart other) :=
      fun t ht => ⟨(h t ht).1.trans (Nat.le_add_right _ _),(h t ht).2⟩
    simp only [Hub.step,without]
    cases hk : hub.threads[index]? with
    | none => exact ⟨hlater,Nat.le_add_right _ _,rfl,fun _ _ => rfl⟩
    | some thread =>
      obtain ⟨call,stage⟩ := thread
      obtain ⟨htime,⟨reply,rfl⟩ | hcall⟩ := hlater _ (mem_of_getElem? hk)
      · exact ⟨forall_mem_set hlater ⟨Nat.zero_le _,.inl ⟨reply,rfl⟩⟩,Nat.le_add_right _ _,rfl,
          fun _ _ => rfl⟩
      · refine ⟨forall_mem_set hlater ⟨Stage.cleanupTime_advance.trans htime,.inr hcall⟩,
          Nat.le_add_right _ _,?_,fun now hle => (Stage.advance_apart hcall (htime.trans hle)).2⟩
        simp only [(Stage.advance_apart hcall htime).1]

/-- Calls on other sessions go the same way whether or not a session has tokens, and from then on it has
those of its tokens that have not expired. -/
theorem sessions_do_not_interfere (h : hub.Apart other) {inputs : List Input}
    (hinputs : ∀ call, .start call ∈ inputs → call.Apart other) :
    hub.clock ≤ (hub.after inputs).clock ∧
      (hub.after inputs).without other.key = (hub.without other.key).after inputs ∧
      ∀ now, (hub.after inputs).clock ≤ now →
        (hub.after inputs).caches.live now other.key = hub.caches.live now other.key := by
  induction inputs generalizing hub with
  | nil => exact ⟨le_rfl,rfl,fun _ _ => rfl⟩
  | cons input inputs ih =>
    obtain ⟨hnext,hclock,hwithout,hlive⟩ :=
      h.step fun call hcall => hinputs call (hcall ▸ mem_cons_self)
    obtain ⟨hclock',hwithout',hlive'⟩ :=
      ih hnext fun call hcall => hinputs call (mem_cons_of_mem _ hcall)
    rw [hwithout] at hwithout'
    exact ⟨hclock.trans hclock',hwithout',
      fun now hle => (hlive' now hle).trans (hlive now (hclock'.trans hle))⟩

theorem second_user_does_not_interfere :
    ((Hub.mk ⟨empty.insert firstToken.sessionKey 900,empty⟩ 0 []).after
      (.start (.loginByPassword "v" "app@u" 0) :: steps 0 8 8)).caches.live 0 firstToken.sessionKey =
        (some 900,none) := by
  have helse : Elsewhere ⟨"u","app@u","0"⟩ (Call.loginByPassword "v" "app@u" 0).key :=
    ⟨⟨"v","app@u","0"⟩,by decide,by decide,by decide,rfl⟩
  refine ((@sessions_do_not_interfere ⟨"u","app@u","0"⟩ _ (by simp [Hub.Apart]) _
    fun call hcall => ?_).2.2 0 (by decide +kernel)).trans (by decide +kernel)
  obtain rfl : call = .loginByPassword "v" "app@u" 0 := by simpa [steps] using hcall
  exact ⟨helse,helse⟩

/-- A login with the nonce of another user's session passes for a replay of it and revokes it, before its
app or its password has been looked at. -/
theorem replay_of_another_session :
    let hub := (Hub.mk {} 0 []).after (.start (.loginByPassword "u_v" "kernel@system" 0) :: steps 0 8 7)
    let key := sessionKey "u_v" "kernel@system" "0"
    let inputs := .start (.loginByPassword "u" "v_kernel@system" 0) :: steps 1 6 8
    hub.caches.live 0 key = (some 900,some (7,604800)) ∧
      (hub.after inputs).caches.live 0 key = (none,none) ∧
      (hub.after inputs).threads ≠ ((hub.without key).after inputs).threads := by
  decide +kernel

end Runs
end BuckyOS.VerifyHub
