import BuckyOS.Lib.Machine
import BuckyOS.Lib.OrderedMap
import BuckyOS.Lib.Pool
import Mathlib.Data.String.Basic

/-! The sessions of the verify hub: logins, refreshes and logouts side by side over the cache of session
tokens and the cache of refresh tokens. Each access to a cache is one step, and so is each look at the
clock for the expiry of a token. -/
namespace BuckyOS.VerifyHub
def sessionTokenExpireSeconds : ℕ := 15 * 60

def sudoSessionTokenExpireSeconds : ℕ := 3 * 60

def refreshTokenExpireSeconds : ℕ := 7 * 24 * 3600

def maxLoginNonceAgeSeconds : ℕ := 3600 * 8

/-- The seconds by which the JWT library lets an expiry pass. -/
def leeway : ℕ := 60

structure RefreshToken where
  sessionKey : String
  jti : ℕ
  deriving DecidableEq

def sessionKey (userid scope id : String) : String := userid ++ "_" ++ scope ++ "_" ++ id

/-- A call with its verified claims. The scope of a login is the app instance it is for, and the
session id of a login by JWT is drawn at random. -/
inductive Call
  | loginByJwt (iss sub jti : String) (exp : ℕ) (scope : String) (sessionId : ℕ)
  | loginByPassword (username appInstanceId : String) (loginNonce : ℕ)
  | sudoByPassword (username appInstanceId : String) (loginNonce : ℕ)
  | refreshToken (token : RefreshToken)
  | logout (token : RefreshToken)
  deriving DecidableEq

namespace Call
/-- The key that marks a login as used, or the key of the session of a token. -/
def key : Call → String
  | loginByJwt _ sub jti _ scope _ => sessionKey sub scope jti
  | loginByPassword username appInstanceId loginNonce =>
    sessionKey username appInstanceId (toString loginNonce)
  | sudoByPassword username appInstanceId loginNonce =>
    sessionKey username appInstanceId (toString loginNonce)
  | refreshToken token | logout token => token.sessionKey

def session : Call → String
  | loginByJwt _ sub _ _ scope sessionId => sessionKey sub scope (toString sessionId)
  | call => call.key

def isLogin : Call → Bool
  | refreshToken _ | logout _ => false
  | _ => true

/-- The check of the expiry of a JWT, or of the age of a nonce, which is in milliseconds. -/
def inTime (now : ℕ) : Call → Bool
  | loginByJwt _ _ _ exp _ _ => now ≤ exp + leeway
  | loginByPassword _ _ loginNonce =>
    now * 1000 ≤ loginNonce + maxLoginNonceAgeSeconds &&
      loginNonce ≤ now * 1000 + maxLoginNonceAgeSeconds
  | sudoByPassword _ _ loginNonce =>
    now * 1000 ≤ loginNonce + maxLoginNonceAgeSeconds &&
      loginNonce ≤ now * 1000 + maxLoginNonceAgeSeconds
  | _ => true

end Call

inductive Reply
  | done | rejected | reused
  deriving DecidableEq

/-- The next step of a call, with the time its cleanup goes by and the expiries of its tokens. -/
inductive Stage
  | gcTokens (start : ℕ)
  | gcRefresh (start : ℕ)
  | verifying | checking | generating
  | generatingRefresh (exp : ℕ)
  | marking (exp : ℕ) (refreshExp : Option ℕ)
  | caching (exp refreshExp : ℕ)
  | storing (refreshExp : ℕ)
  | loading | invalidating
  | revokingTokens (reply : Reply)
  | revokingRefresh (reply : Reply)
  | ended (reply : Reply)
  deriving DecidableEq

structure Caches where
  tokens : OrderedMap String ℕ := OrderedMap.empty
  refreshTokens : OrderedMap String (ℕ × ℕ) := OrderedMap.empty

/-- The next stage of a call, with the caches it leaves, given the time, whether the other checks of the
hub let it pass, and the id that is drawn for a refresh token. -/
def Stage.advance (now : ℕ) (allowed : Bool) (jti : ℕ) (call : Call) (caches : Caches) :
    Stage → Stage × Caches
  | gcTokens start =>
    (gcRefresh start,{caches with tokens := caches.tokens.filter (fun e => e.2 > start)})
  | gcRefresh start =>
    (verifying,{caches with refreshTokens := caches.refreshTokens.filter (fun e => e.2.2 > start)})
  | verifying =>
    if allowed && call.inTime now then (if call.isLogin then checking else loading,caches)
    else (ended .rejected,caches)
  | checking =>
    match caches.tokens.get? call.key, call with
    | some _, .loginByJwt _ _ _ _ _ _ => (ended .rejected,caches)
    | some _, _ => (revokingTokens .reused,caches)
    | none, _ => (if allowed then generating else ended .rejected,caches)
  | generating =>
    match call with
    | .sudoByPassword _ _ _ => (marking (now + sudoSessionTokenExpireSeconds) none,caches)
    | _ => (generatingRefresh (now + sessionTokenExpireSeconds),caches)
  | generatingRefresh exp =>
    let refreshExp := now + refreshTokenExpireSeconds
    (if call.isLogin then marking exp (some refreshExp) else caching exp refreshExp,caches)
  | marking exp refreshExp =>
    let caches := {caches with tokens := caches.tokens.insert call.key exp}
    match refreshExp, call with
    | none, _ => (ended .done,caches)
    | some refreshExp, .loginByJwt _ _ _ _ _ _ => (caching exp refreshExp,caches)
    | some refreshExp, _ => (storing refreshExp,caches)
  | caching exp refreshExp =>
    (storing refreshExp,{caches with tokens := caches.tokens.insert call.session exp})
  | storing refreshExp =>
    (ended .done,{caches with
      refreshTokens := caches.refreshTokens.insert call.session (jti,refreshExp)})
  | loading =>
    match caches.refreshTokens.get? call.key, call with
    | some cached, .refreshToken token =>
      if cached.1 = token.jti then (if allowed then invalidating else ended .rejected,caches)
      else (revokingTokens .reused,caches)
    | some cached, .logout token =>
      if cached.1 = token.jti then (revokingTokens .done,caches)
      else (revokingTokens .reused,caches)
    | _, _ => (revokingTokens .reused,caches)
  | invalidating =>
    (generating,{caches with refreshTokens := caches.refreshTokens.erase call.key})
  | revokingTokens reply =>
    (revokingRefresh reply,{caches with tokens := caches.tokens.erase call.key})
  | revokingRefresh reply =>
    (ended reply,{caches with refreshTokens := caches.refreshTokens.erase call.key})
  | ended reply => (ended reply,caches)

structure Thread where
  call : Call
  stage : Stage
  deriving DecidableEq

structure Hub where
  caches : Caches := {}
  clock : ℕ := 0
  threads : List Thread := []

inductive Input
  | start (call : Call)
  | advance (index elapsed : ℕ) (allowed : Bool) (jti : ℕ)

def Hub.step (hub : Hub) : Input → Unit × Hub
  | .start call => ((),{hub with threads := hub.threads ++ [⟨call,.gcTokens hub.clock⟩]})
  | .advance index elapsed allowed jti =>
    match hub.threads[index]? with
    | none => ((),{hub with clock := hub.clock + elapsed})
    | some thread =>
      let next := thread.stage.advance (hub.clock + elapsed) allowed jti thread.call hub.caches
      ((),⟨next.2,hub.clock + elapsed,hub.threads.set index ⟨thread.call,next.1⟩⟩)

def Hub.after (hub : Hub) (inputs : List Input) : Hub := (Machine.run Hub.step hub inputs).2

end BuckyOS.VerifyHub
