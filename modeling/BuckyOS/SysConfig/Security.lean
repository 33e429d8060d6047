import BuckyOS.SysConfig.Authority

/-! The security state of the config service beside its store: the policy in force and the keys of
trusted issuers, loaded when the zone config or the policy is written and, for an issuer that is
not known, when a token of it is verified. -/
namespace BuckyOS.SysConfig
open Except (ok.inj)

section Tokens
/-- What the service takes from elsewhere about tokens: the issuer and the key id a token names, and
the check of its signature and its times under a key. -/
structure ServiceEnv extends ConfigEnv where
  readJwt : String → Except ConfigError (Option String × Option String)
  verifyByKey : (jwt key : String) → (now : ℕ) → Except ConfigError SessionToken

variable (env : ConfigEnv) (tree : Tree)

def loadDeviceDoc (name : String) : Except ConfigError (String × Option String) := do
  match ← ofStore (get tree ("devices/" ++ name ++ "/doc")) with
  | none => .error (.keyNotExist ("devices/" ++ name ++ "/doc"))
  | some text =>
    match env.deviceDocument text with
    | .error reason => .error (.reasonError reason)
    | .ok document => .ok document

def isPrivilegedUserType (userType : String) : Bool :=
  (Text.trim userType).map Char.toLower ∈ ["admin","root"]

def grantsPrivilegedRole (userName : String) (line : List Char) : Bool :=
  let line := Text.trimChars line
  if line = [] ∨ line.head? = some '#' then false
  else
    match (line.splitOn ',').map (fun part => String.ofList (Text.trimChars part)) with
    | kind :: user :: role :: _ => kind = "g" && user = userName && isPrivilegedUserType role
    | _ => false

def userHasPrivilegedRoleInPolicy (policy userName : String) : Bool :=
  (policy.toList.splitOn '\n').any (grantsPrivilegedRole userName)

def settingsPrivileged (settings : Option String) : Except ConfigError Bool :=
  match settings with
  | none => .ok false
  | some text =>
    match env.json.fromStr text with
    | .error reason => .error (.reasonError ("parse user settings failed: " ++ reason))
    | .ok settings =>
      match ((settings.get? "type").or (settings.get? "user_type")).bind Json.asStr with
      | some userType => .ok (isPrivilegedUserType userType)
      | none => .ok false

def loadPrivilegedUserDoc (userName : String) : Except ConfigError (Option String) := do
  let settings ← ofStore (get tree ("users/" ++ userName ++ "/settings"))
  let bySettings ← settingsPrivileged env settings
  let privileged ←
    if bySettings then pure true
    else do
      let policy ← ofStore (get tree "system/rbac/policy")
      pure (policy.any (userHasPrivilegedRoleInPolicy · userName))
  if privileged then
    match ← ofStore (get tree ("users/" ++ userName ++ "/doc")) with
    | none => .error (.keyNotExist ("users/" ++ userName ++ "/doc"))
    | some text =>
      match env.ownerDocument text with
      | .error reason => .error (.reasonError reason)
      | .ok key => .ok key
  else .error (.noPermission ("user " ++ userName ++ " is not granted admin/root privilege"))

def parsedKey (what key : String) : Except ConfigError String :=
  match env.decodingKey key with
  | .error reason => .error (.reasonError ("parse " ++ what ++ " key failed: " ++ reason))
  | .ok key => .ok key

/-- The key of an issuer that is not among the trusted ones: that of a privileged user, else that of
a device that is an ood or a node. -/
def loadIssuerKey (keyId : String) : Except ConfigError String :=
  match loadPrivilegedUserDoc env tree keyId with
  | .ok none => .error (.reasonError ("privileged user " ++ keyId ++ " has no default key"))
  | .ok (some key) => parsedKey env "privileged user" key
  | .error _ => do
    let (deviceType,key) ← loadDeviceDoc env tree keyId
    if deviceType ≠ "ood" ∧ deviceType ≠ "node" then
      .error (.reasonError ("device type is not ood or node: " ++ keyId))
    else
      match key with
      | none => .error (.reasonError ("device " ++ keyId ++ " has no default key"))
      | some key => parsedKey env "device" key

def keyIdOf (named : Option String × Option String) : String :=
  (named.1.or named.2).getD "$default"

/-- Verify a token. A key that had to be loaded is kept before the token is checked under it. -/
def verifyTrustedJwt (env : ServiceEnv) (s : ConfigState) (jwt : String) (now : ℕ) :
    Except ConfigError SessionToken × ConfigState :=
  match env.readJwt jwt with
  | .error error => (.error error,s)
  | .ok named =>
    match s.trustKeys.get? (keyIdOf named) with
    | some key => (env.verifyByKey jwt key now,s)
    | none =>
      match loadIssuerKey env.toConfigEnv s.tree (keyIdOf named) with
      | .error error => (.error error,s)
      | .ok key =>
        (env.verifyByKey jwt key now,{s with trustKeys := s.trustKeys.insert (keyIdOf named) key})

end Tokens

section Requests
structure Request where
  sessionToken : Option String
  now : ℕ
  method : String
  params : Json
  input : ConfigInput

def processRequest (env : ServiceEnv) (s : ConfigState) (request : Request) :
    Except ConfigError Json × ConfigState :=
  match request.sessionToken with
  | none => (.error (.noPermission "No session token"),s)
  | some jwt =>
    match verifyTrustedJwt env s jwt request.now with
    | (.error error,s) => (.error error,s)
    | (.ok token,s) =>
      handle env.toConfigEnv s request.input token request.method request.params

def initByBootDocument (env : ConfigEnv) (tree : Tree) : ConfigState :=
  let loaded := (handleRefreshTrustKeys env {tree := tree}).2
  {loaded with trustKeys := addThisDevice env loaded.trustKeys}

def stateAfter (env : ServiceEnv) (s : ConfigState) (requests : List Request) (i : ℕ) : ConfigState :=
  (Machine.run (processRequest env) s (requests.take i)).2

end Requests

section Following
variable (env : ConfigEnv)

/-- A key that the zone config or this device gives an issuer. -/
def FromZone (tree : Tree) (issuer key : String) : Prop :=
  (zoneTrustKeys env tree).2.get? issuer = some key ∨
    ∃ device, env.thisDevice = some device ∧ (issuer = device.name ∨ issuer = device.did) ∧
      key = device.key

/-- The security state follows the store: the policy in force is that of the stored policy, and
every key of a trusted issuer is one that the stored documents give it. -/
structure Follows (s : ConfigState) : Prop where
  policy : s.policy = env.buildRbacConfig (s.tree.get? "system/rbac/policy")
  keys : ∀ issuer key, s.trustKeys.get? issuer = some key →
    FromZone env s.tree issuer key ∨ loadIssuerKey env s.tree issuer = .ok key

def issuerKeys (issuer : String) : List String :=
  ["system/rbac/policy","users/" ++ issuer ++ "/settings","users/" ++ issuer ++ "/doc",
    "devices/" ++ issuer ++ "/doc"]

/-- A write that does not touch what the security state was loaded from: the zone config, the policy
and the documents of the issuers whose keys were loaded from them. -/
def Untouched (s : ConfigState) (keys : List String) : Prop :=
  ∀ key ∈ keys, isInternalKey key = false ∧ key ≠ "boot/config" ∧ key ≠ "system/rbac/policy" ∧
    ∀ issuer trusted, s.trustKeys.get? issuer = some trusted →
      ¬FromZone env s.tree issuer trusted → key ∉ issuerKeys issuer

/-- A call after which the security state follows the store. A write that is committed either makes
the service load its security state, which goes through if the policy is written, or touches
nothing that the security state was loaded from. -/
def CallCalm (s : ConfigState) (input : ConfigInput) : StoreCall → Prop
  | .write op reload =>
    ∀ tree', (op.arranged input).transaction env.json s.tree = .ok tree' →
      if reload = true ∧ input.flushError = none then
        "system/rbac/policy" ∈ op.keys →
          (handleRefreshTrustKeys env {s with tree := tree'}).1 = .ok ()
      else Untouched env s op.keys
  | .append _ key _ => s.tree.get? key ≠ none → Untouched env s [key]
  | _ => True

def Calm (env : ServiceEnv) (s : ConfigState) (request : Request) : Prop :=
  ∀ jwt token s' call, request.sessionToken = some jwt →
    verifyTrustedJwt env s jwt request.now = (.ok token,s') →
    plan env.toConfigEnv s'.policy token request.params request.method = .ok call →
      CallCalm env.toConfigEnv s' request.input call

variable {env} {s : ConfigState} {tree' : Tree} {issuer key : String}

theorem addThisDevice_get? {keys : TrustKeys} (h : (addThisDevice env keys).get? issuer = some key) :
    keys.get? issuer = some key ∨ ∃ device, env.thisDevice = some device ∧
      (issuer = device.name ∨ issuer = device.did) ∧ key = device.key := by
  unfold addThisDevice at h
  split at h
  next => exact .inl h
  next device hdevice =>
    rw [OrderedMap.get?_insert] at h
    split at h
    next hdid => exact .inr ⟨device,hdevice,.inr hdid,(Option.some.inj h).symm⟩
    next =>
      rw [OrderedMap.get?_insert] at h
      split at h
      next hname => exact .inr ⟨device,hdevice,.inl hname,(Option.some.inj h).symm⟩
      next => exact .inl h

variable {tree : Tree}

theorem get_ok {value : Option String} (h : get tree key = .ok value) : tree.get? key = value := by
  cases value with
  | some text => exact get_eq_ok_some h
  | none =>
    unfold get getWithRevision at h
    cases hstored : tree.get? key with
    | none => rfl
    | some text =>
      rw [hstored] at h
      obtain ⟨found,hfound,hdone⟩ := bind_eq_ok_iff.mp h
      obtain ⟨revision,_,hfound⟩ := bind_eq_ok_iff.mp hfound
      rw [← ok.inj hfound] at hdone
      cases ok.inj hdone

theorem follows_refresh (hpolicy : (handleRefreshTrustKeys env s).1 = .ok () ∨
    s.policy = env.buildRbacConfig (s.tree.get? "system/rbac/policy")) :
    Follows env (handleRefreshTrustKeys env s).2 := by
  refine ⟨?_,fun issuer key h => .inl ?_⟩ <;> rw [refresh_tree]
  · unfold handleRefreshTrustKeys at hpolicy ⊢
    generalize zoneTrustKeys env s.tree = loaded at hpolicy ⊢
    rcases loaded with ⟨_ | error,keys⟩
    · cases hget : get s.tree "system/rbac/policy" with
      | error error => exact hpolicy.resolve_left (by simp [hget,ofStore])
      | ok policy =>
        simp only [get_ok hget,hget,ofStore] at hpolicy ⊢
        split_ifs at hpolicy ⊢
        · rfl
        · exact hpolicy.resolve_left (by simp)
    · exact hpolicy.resolve_left (by simp)
  · unfold handleRefreshTrustKeys at h
    rcases hzone : zoneTrustKeys env s.tree with ⟨_ | error,keys⟩
    · have hkeys : (addThisDevice env keys).get? issuer = some key := by
        rw [hzone] at h
        dsimp only at h
        split at h
        · exact h
        · split at h <;> exact h
      refine addThisDevice_get? ?_
      rwa [hzone]
    · rw [hzone] at h
      refine .inl ?_
      rwa [hzone]

theorem follows_init (h : (handleRefreshTrustKeys env {tree := tree}).1 = .ok ()) :
    Follows env (initByBootDocument env tree) := by
  obtain ⟨hpolicy,hkeys⟩ := follows_refresh (.inl h)
  refine ⟨hpolicy,fun issuer key hkey => ?_⟩
  rcases addThisDevice_get? hkey with hold | hdevice
  · exact hkeys issuer key hold
  · exact .inl (.inr hdevice)

theorem zoneTrustKeys_congr (h : get tree' "boot/config" = get tree "boot/config") :
    zoneTrustKeys env tree' = zoneTrustKeys env tree := by
  rw [zoneTrustKeys,zoneTrustKeys,h]

theorem loadIssuerKey_congr (h : ∀ key ∈ issuerKeys issuer, get tree' key = get tree key) :
    loadIssuerKey env tree' issuer = loadIssuerKey env tree issuer := by
  have hpolicy := h "system/rbac/policy" (by simp [issuerKeys])
  have hsettings := h ("users/" ++ issuer ++ "/settings") (by simp [issuerKeys])
  have hdoc := h ("users/" ++ issuer ++ "/doc") (by simp [issuerKeys])
  have hdevice := h ("devices/" ++ issuer ++ "/doc") (by simp [issuerKeys])
  rw [loadIssuerKey,loadIssuerKey,loadPrivilegedUserDoc,loadPrivilegedUserDoc,loadDeviceDoc,
    loadDeviceDoc,hpolicy,hsettings,hdoc,hdevice]

theorem external_of_head {c : Char} {rest : List Char} (h : key.toList = c :: rest) (hc : c ≠ '_') :
    isInternalKey key = false := by
  rw [isInternalKey,startsWith,h]
  have hmeta : internalMetaPrefix.toList = '_' :: internalMetaPrefix.toList.tail := by decide
  rw [hmeta,List.isPrefixOf_cons_cons]
  simp [Ne.symm hc]

theorem issuerKeys_external (h : key ∈ issuerKeys issuer) : isInternalKey key = false := by
  simp only [issuerKeys,List.mem_cons,List.not_mem_nil,or_false] at h
  rcases h with rfl | rfl | rfl | rfl
  · decide +kernel
  all_goals exact external_of_head (by rw [String.toList_append,String.toList_append]; rfl) (by decide)

variable {op : StoreOp}

theorem get_of_untouched (h : op.transaction env.json s.tree = .ok tree')
    (huntouched : Untouched env s op.keys) (hexternal : isInternalKey key = false)
    (hkey : key ∉ op.keys) : get tree' key = get s.tree key := by
  have hchange := transaction_change (fun name hname => (huntouched name hname).1) h
  obtain ⟨hvalue,hrevision⟩ := hchange.others key hexternal hkey
  exact get_congr hvalue hrevision

theorem follows_of_untouched (hfollows : Follows env s)
    (h : op.transaction env.json s.tree = .ok tree') (huntouched : Untouched env s op.keys) :
    Follows env {s with tree := tree'} := by
  have hboot : get tree' "boot/config" = get s.tree "boot/config" :=
    get_of_untouched h huntouched (by decide +kernel) (fun hmem => (huntouched _ hmem).2.1 rfl)
  have hpolicy : tree'.get? "system/rbac/policy" = s.tree.get? "system/rbac/policy" :=
    ((transaction_change (fun name hname => (huntouched name hname).1) h).others _
      (by decide +kernel) (fun hmem => (huntouched _ hmem).2.2.1 rfl)).1
  have hzone : ∀ issuer key, FromZone env s.tree issuer key → FromZone env tree' issuer key := by
    intro issuer key hfrom
    rwa [FromZone,zoneTrustKeys_congr hboot]
  refine ⟨?_,fun issuer key hkey => ?_⟩
  · rw [hfollows.policy,hpolicy]
  · by_cases hfrom : FromZone env s.tree issuer key
    · exact .inl (hzone issuer key hfrom)
    · right
      rw [← (hfollows.keys issuer key hkey).resolve_left hfrom]
      refine loadIssuerKey_congr fun name hname =>
        get_of_untouched h huntouched (issuerKeys_external hname) fun hmem => ?_
      exact (huntouched name hmem).2.2.2 issuer key hkey hfrom hname

variable {input : ConfigInput}

theorem untouched_arranged (h : Untouched env s op.keys) : Untouched env s (op.arranged input).keys :=
  fun key hkey => h key (arranged_keys key |>.mp hkey)

theorem follows_performWrite {reload : Bool} (hfollows : Follows env s)
    (hcalm : CallCalm env s input (.write op reload)) :
    Follows env (performWrite env s input op reload).2 := by
  unfold performWrite
  cases h : (op.arranged input).transaction env.json s.tree with
  | error error =>
    simp only [step,commit,h]
    exact hfollows
  | ok tree' =>
    have hcalm := hcalm tree' h
    have hkept : Untouched env s op.keys → Follows env {s with tree := tree'} := fun huntouched =>
      follows_of_untouched hfollows h (untouched_arranged huntouched)
    cases hflush : input.flushError with
    | some reason =>
      rw [hflush,if_neg (by simp)] at hcalm
      simp only [step,commit,h]
      exact hkept hcalm
    | none =>
      simp only [step,commit,h]
      cases reload with
      | false =>
        rw [if_neg (by simp)] at hcalm
        exact hkept hcalm
      | true =>
        rw [hflush,if_pos ⟨rfl,rfl⟩] at hcalm
        refine follows_refresh ?_
        by_cases hmem : "system/rbac/policy" ∈ op.keys
        · exact .inl (hcalm hmem)
        · right
          have hsame : tree'.get? "system/rbac/policy" = s.tree.get? "system/rbac/policy" :=
            transaction_frame h (fun hkey => hmem ((arranged_keys _).mp hkey))
              (fun named _ => ne_revisionKey (by decide +kernel) named)
          rw [hsame]
          exact hfollows.policy

theorem follows_perform {call : StoreCall} (hfollows : Follows env s)
    (hcalm : CallCalm env s input call) : Follows env (perform env s input call).2 := by
  cases call with
  | get key | list key =>
    simp only [perform]
    split <;> exact hfollows
  | dump => exact hfollows
  | write op reload => exact follows_performWrite hfollows hcalm
  | append spelled key value =>
    simp only [perform]
    unfold performAppend
    cases hget : get s.tree key with
    | error error => exact hfollows
    | ok found =>
      cases found with
      | none => exact hfollows
      | some old =>
        refine follows_performWrite hfollows fun tree' _ => ?_
        rw [if_neg (by simp)]
        refine hcalm ?_
        rw [get_ok hget]
        simp
  | refresh => exact follows_refresh (.inr hfollows.policy)

end Following

section Runs
variable {env : ServiceEnv} {s : ConfigState}

theorem follows_verify (hfollows : Follows env.toConfigEnv s) (jwt : String) (now : ℕ) :
    Follows env.toConfigEnv (verifyTrustedJwt env s jwt now).2 := by
  unfold verifyTrustedJwt
  split
  next => exact hfollows
  next named _ =>
    split
    next => exact hfollows
    next =>
      split
      next => exact hfollows
      next key hkey =>
        refine ⟨hfollows.policy,fun issuer trusted htrusted => ?_⟩
        dsimp only at htrusted
        rw [OrderedMap.get?_insert] at htrusted
        split at htrusted
        next hissuer =>
          obtain rfl := Option.some.inj htrusted
          rw [hissuer]
          exact .inr hkey
        next => exact hfollows.keys issuer trusted htrusted

theorem follows_processRequest (hfollows : Follows env.toConfigEnv s) {request : Request}
    (hcalm : Calm env s request) : Follows env.toConfigEnv (processRequest env s request).2 := by
  unfold processRequest
  split
  next => exact hfollows
  next jwt hjwt =>
    have hverified := follows_verify hfollows jwt request.now
    rcases hverify : verifyTrustedJwt env s jwt request.now with ⟨error | token,s'⟩
    · rw [hverify] at hverified
      exact hverified
    · rw [hverify] at hverified
      dsimp only
      unfold handle
      split
      next => exact hverified
      next call hplan => exact follows_perform hverified (hcalm jwt token s' call hjwt hverify hplan)

/-- In every sequence of calm requests the security state follows the store after each of them. -/
theorem security_follows_store (env : ServiceEnv) (s : ConfigState) (requests : List Request)
    (hstart : Follows env.toConfigEnv s)
    (hcalm : Machine.Along (processRequest env) (Calm env) s requests) (i : ℕ) :
    Follows env.toConfigEnv (stateAfter env s requests i) := by
  exact Machine.run_invariant_along (fun _ _ hs hrequest => follows_processRequest hs hrequest)
    hstart (hcalm.take i)

/-- A service in which a token is the name of its issuer and a document is its key. -/
def plainEnv : ServiceEnv where
  toConfigEnv := {openEnv with ownerDocument := fun text => .ok (some text), decodingKey := .ok}
  readJwt jwt := .ok (some jwt,none)
  verifyByKey _ _ _ := .ok someToken

def adminStart : ConfigState :=
  initByBootDocument plainEnv.toConfigEnv
    ((OrderedMap.empty.insert "system/rbac/policy" "g,x,admin").insert "users/x/doc" "old")

def requestOf (method : String) (fields : List (String × Json)) : Request :=
  ⟨some "x",0,method,.object fields,asListed⟩

def replacePolicy : Request :=
  requestOf "sys_config_set" [("key",.string "system/rbac/policy"),("value",.string "g,y,admin")]

def appendToPolicy : Request :=
  requestOf "sys_config_append" [("key",.string "system/rbac/policy"),("append_value",.string ";")]

def replaceDoc : Request :=
  requestOf "sys_config_set" [("key",.string "users/x/doc"),("value",.string "new")]

theorem security_follows_replaced_policy :
    Follows plainEnv.toConfigEnv (stateAfter plainEnv adminStart [replacePolicy] 1) := by
  refine security_follows_store plainEnv adminStart [replacePolicy]
    (follows_init (by decide +kernel)) ⟨?_,trivial⟩ 1
  intro jwt token s' call hjwt hverify hplan
  obtain rfl := Option.some.inj hjwt
  obtain rfl : (verifyTrustedJwt plainEnv adminStart "x" 0).2 = s' := congrArg Prod.snd hverify
  have hverified : (verifyTrustedJwt plainEnv adminStart "x" 0).1 = .ok someToken := by
    decide +kernel
  obtain rfl := ok.inj (hverified.symm.trans (congrArg Prod.fst hverify))
  have hcall : Except.ok (.write (.set "system/rbac/policy" "g,y,admin") true) =
      Except.ok (ε := ConfigError) call := by
    rw [← hplan]
    rfl
  obtain rfl := ok.inj hcall
  intro tree' htree'
  rw [if_pos ⟨rfl,rfl⟩]
  intro _
  obtain ⟨next,hnext,hdone⟩ := bind_eq_ok_iff.mp htree'
  have hfirst : nextRevision (verifyTrustedJwt plainEnv adminStart "x" 0).2.tree
      "system/rbac/policy" = .ok 1 := by decide +kernel
  obtain rfl := ok.inj (hfirst.symm.trans hnext)
  obtain rfl := ok.inj hdone
  decide +kernel

/-- A policy that is appended to is not put in force, and the key of a user whose document is
replaced stays trusted. -/
theorem security_state_left_behind :
    Follows plainEnv.toConfigEnv adminStart ∧
    (processRequest plainEnv adminStart appendToPolicy).1 = .ok .null ∧
    ¬Follows plainEnv.toConfigEnv (processRequest plainEnv adminStart appendToPolicy).2 ∧
    (processRequest plainEnv adminStart replaceDoc).1 = .ok .null ∧
    (processRequest plainEnv adminStart replaceDoc).2.trustKeys.get? "x" = some "old" ∧
    ¬Follows plainEnv.toConfigEnv (processRequest plainEnv adminStart replaceDoc).2 := by
  refine ⟨follows_init (by decide +kernel),by decide +kernel,?_,by decide +kernel,by decide +kernel,
    ?_⟩
  · intro h
    exact absurd h.policy (by decide +kernel)
  · intro h
    rcases h.keys "x" "old" (by decide +kernel) with (hzone | ⟨device,hdevice,-⟩) | hloaded
    · exact absurd hzone (by decide +kernel)
    · cases hdevice
    · exact absurd hloaded (by decide +kernel)

end Runs
end BuckyOS.SysConfig
