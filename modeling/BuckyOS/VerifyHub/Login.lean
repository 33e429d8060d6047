import BuckyOS.Lib.Effects
import BuckyOS.Lib.Text
import BuckyOS.VerifyHub.Sessions

/-! The authority of a login by JWT: whose key has to have signed for a token pair to be issued. -/
namespace BuckyOS.VerifyHub
section Model
variable {Key : Type} [DecidableEq Key]

def verifyHubIssuer : String := "verify-hub"

def rootUserId : String := "root"

def systemAppOwnerId : String := "system"

inductive LoginError
  | reason (text : String)
  | noPermission (text : String)
  | other (text : String)
  deriving DecidableEq

inductive TrustedIssuerKind
  | root | user | device | verifyHub
  deriving DecidableEq

inductive SessionPrincipalKind
  | user | device | service
  deriving DecidableEq

structure TrustedKey (Key : Type) where
  key : Key
  issuerKind : TrustedIssuerKind
  deriving DecidableEq

/-- A JWT with the key that signed it, whether its header, its claims and the session token in them can be
read, and whether it has expired. -/
structure LoginJwt (Key : Type) where
  signer : Key
  headerReadable : Bool := true
  edDsa : Bool := true
  claimsReadable : Bool := true
  tokenReadable : Bool := true
  expired : Bool := false
  iss : Option String
  sub : Option String
  appid : Option String
  jti : Option String
  appInstanceId : Option String := none

inductive UserLookup (Key : Type)
  | found (key : Option (Except LoginError Key))
  | missing
  | failed (error : LoginError)

structure Directory (Key : Type) where
  ownerKey : Option Key
  userConfig : String → UserLookup Key
  deviceConfig : String → Option (Option Key)

structure AppTokenScope where
  appInstanceId : String
  ownerUserId : Option String
  deriving DecidableEq

structure Decision where
  allowed : Bool
  appInstanceId : String
  ownerUserId : String
  systemBuiltin : Bool

structure Apps where
  parseAppInstanceId : String → Except LoginError (String × String)
  isSystemLoginTarget : String → Bool
  isSystemBuiltin : String → Bool
  hasUserSettings : String → Bool
  checkUser : String → String → Option Decision

abbrev TrustCache (Key : Type) := String → Option (TrustedKey Key)

variable (directory : Directory Key) (cache : TrustCache Key) (iss : String)

def loadTrustPublicKeyFromSource :
    Except LoginError (TrustedKey Key) :=
  if iss = rootUserId then
    match directory.ownerKey with
    | some key => .ok ⟨key,.root⟩
    | none => .error (.reason "Owner public key not found")
  else
    match directory.userConfig iss with
    | .found none => .error (.reason "User public key not found")
    | .found (some (.error error)) => .error error
    | .found (some (.ok key)) => .ok ⟨key,.user⟩
    | .failed error => .error error
    | .missing =>
      match directory.deviceConfig iss with
      | none => .error (.reason "User or device config not found")
      | some none => .error (.reason "Device public key not found")
      | some (some key) => .ok ⟨key,.device⟩

def reloadTrustKey :
    Except LoginError (TrustedKey Key) × TrustCache Key :=
  match loadTrustPublicKeyFromSource directory iss with
  | .ok trusted => (.ok trusted,Function.update cache iss (some trusted))
  | .error error => (.error error,cache)

def getTrustPublicKey :
    Except LoginError (TrustedKey Key) × TrustCache Key :=
  match cache iss with
  | some trusted => (.ok trusted,cache)
  | none => reloadTrustKey directory cache iss

variable (apps : Apps) (jwt : LoginJwt Key)

def LoginJwt.issuer : String := jwt.iss.getD verifyHubIssuer

def LoginJwt.verifies (key : Key) : Bool := jwt.signer = key && !jwt.expired

def verifyTrustedJwt :
    Except LoginError TrustedIssuerKind × TrustCache Key :=
  if !jwt.headerReadable then (.error (.reason "JWT decode header error"),cache)
  else if !jwt.edDsa then (.error (.reason "JWT algorithm not allowed"),cache)
  else if !jwt.claimsReadable then
    (.error (.reason "decode_jwt_claim_without_verify error"),cache)
  else
    match getTrustPublicKey directory cache jwt.issuer with
    | (.error error,cache) => (.error error,cache)
    | (.ok trusted,cache) =>
      if jwt.verifies trusted.key then (.ok trusted.issuerKind,cache)
      else if jwt.signer ≠ trusted.key && jwt.issuer ≠ verifyHubIssuer then
        match reloadTrustKey directory (Function.update cache jwt.issuer none) jwt.issuer with
        | (.error error,cache) => (.error error,cache)
        | (.ok refreshed,cache) =>
          if jwt.verifies refreshed.key then (.ok trusted.issuerKind,cache)
          else (.error (.reason "JWT verify error"),cache)
      else (.error (.reason "JWT verify error"),cache)

def resolveUserAppScope (userId appid appInstanceId : String) :
    Except LoginError AppTokenScope := do
  let (instanceAppId,ownerUserId) ← apps.parseAppInstanceId appInstanceId
  if instanceAppId ≠ appid then throw (.noPermission "AppAccessDenied")
  else if ownerUserId = systemAppOwnerId && apps.isSystemLoginTarget appid &&
      !apps.isSystemBuiltin appid then
    if apps.hasUserSettings userId then return ⟨appInstanceId,none⟩
    else throw (.noPermission "AppAccessDenied")
  else
    match apps.checkUser userId appInstanceId with
    | none => throw (.noPermission "AppAccessDenied")
    | some decision =>
      if decision.allowed then
        return ⟨decision.appInstanceId,if decision.systemBuiltin then none else some decision.ownerUserId⟩
      else throw (.noPermission "AppAccessDenied")

def isRootUserid (userid : String) : Bool :=
  (Text.trim userid).toList.map Char.toLower = rootUserId.toList

structure TokenPair where
  sub : String
  appid : String
  principalKind : SessionPrincipalKind
  scope : Option AppTokenScope
  deriving DecidableEq

def principalKindOf (kind : TrustedIssuerKind) (iss : Option String) (userid : String) :
    SessionPrincipalKind :=
  if kind = .device then (if iss = some userid then .device else .service) else .user

def refuseIf (refused : Bool) (error : LoginError) : Except LoginError Unit :=
  if refused then .error error else .ok ()

def present (value : Option String) (error : LoginError) : Except LoginError String :=
  value.elim (.error error) .ok

/-- The app scope of a user, by the app instance of the call, of the JWT or of the system. -/
def loginScope (loginParam : Option String)
    (principalKind : SessionPrincipalKind) (userid appid : String) :
    Except LoginError (Option AppTokenScope) :=
  if principalKind = .user then
    some <$> resolveUserAppScope apps userid appid
      ((Text.trimmed loginParam <|> jwt.appInstanceId).getD (appid ++ "@" ++ systemAppOwnerId))
  else .ok none

def issueTokenPair (used : String → Bool) (jwt : LoginJwt Key) (loginParam : Option String)
    (kind : TrustedIssuerKind) : Except LoginError TokenPair := do
  let _ ← refuseIf (!jwt.tokenReadable)
    (.reason "Failed to parse RPCSessionToken from JWT payload")
  let userid ← present jwt.sub (.reason "Missing sub")
  let _ ← refuseIf (isRootUserid userid)
    (.noPermission "verify-hub does not issue session tokens for root")
  let appid ← present jwt.appid (.reason "Missing appid")
  let jti ← present jwt.jti (.reason "Missing jti")
  let principalKind := principalKindOf kind jwt.iss userid
  let scope ← loginScope apps jwt loginParam principalKind userid appid
  let _ ← refuseIf (used (sessionKey userid (scope.elim appid AppTokenScope.appInstanceId) jti))
    (.reason "Login JWT already used")
  .ok ⟨userid,appid,principalKind,scope⟩

def handleLoginByJwt (used : String → Bool)
    (cache : TrustCache Key) (jwt : LoginJwt Key) (loginParam : Option String) :
    Except LoginError TokenPair × TrustCache Key :=
  match verifyTrustedJwt directory cache jwt with
  | (.error error,cache) => (.error error,cache)
  | (.ok kind,cache) => (issueTokenPair apps used jwt loginParam kind,cache)

end Model

section Authority
variable {Key : Type} [DecidableEq Key] {directory : Directory Key} {hubKey : Key}
variable {cache : TrustCache Key} {jwt : LoginJwt Key} {pair : TokenPair}

def Directory.userKey (directory : Directory Key) (userid : String) : Option Key :=
  match directory.userConfig userid with
  | .found (some (.ok key)) => some key
  | _ => none

def Directory.Holds (directory : Directory Key) (hubKey key : Key) : TrustedIssuerKind → Prop
  | .root => directory.ownerKey = some key
  | .verifyHub => key = hubKey
  | .user => ∃ userid, directory.userKey userid = some key
  | .device => ∃ name, directory.deviceConfig name = some (some key)

def TrustedIssuerKind.Suits : TrustedIssuerKind → SessionPrincipalKind → Prop
  | .device, principalKind => principalKind ≠ .user
  | _, principalKind => principalKind = .user

/-- The JWT is signed for the subject of the token pair by a key of a kind the principal belongs to, and by
the subject's own key if it is a user's. -/
def Authorized (directory : Directory Key) (hubKey : Key) (jwt : LoginJwt Key) (pair : TokenPair) : Prop :=
  jwt.sub = some pair.sub ∧ ∃ kind, directory.Holds hubKey jwt.signer kind ∧
    kind.Suits pair.principalKind ∧ (kind = .user → directory.userKey pair.sub = some jwt.signer)

/-- The cached key of an issuer is the hub's own or what the source has for it now. -/
def Current (directory : Directory Key) (hubKey : Key) (cache : TrustCache Key) (iss : String) : Prop :=
  ∀ trusted, cache iss = some trusted →
    (iss = verifyHubIssuer ∧ trusted = ⟨hubKey,.verifyHub⟩) ∨
      loadTrustPublicKeyFromSource directory iss = .ok trusted

variable {kind : TrustedIssuerKind} {trusted : TrustedKey Key} {cache' : TrustCache Key}

omit [DecidableEq Key] in
theorem issueTokenPair_ok {apps : Apps} {used : String → Bool} {loginParam : Option String}
    (h : issueTokenPair apps used jwt loginParam kind = .ok pair) :
    jwt.sub = some pair.sub ∧ pair.principalKind = principalKindOf kind jwt.iss pair.sub := by
  have hpresent : ∀ {value : Option String} {error : LoginError} {text : String},
      present value error = .ok text → value = some text := by
    rintro (_ | text) error text' htext
    · cases htext
    · exact congrArg some (Except.ok.inj htext)
  simp only [issueTokenPair,bind_eq_ok_iff] at h
  obtain ⟨_,-,userid,hsub,_,-,_,-,_,-,_,-,_,-,hpair⟩ := h
  obtain rfl := Except.ok.inj hpair
  exact ⟨hpresent hsub,rfl⟩

theorem LoginJwt.signer_of_verifies {key : Key} (h : jwt.verifies key = true) : jwt.signer = key := by
  simp only [LoginJwt.verifies,Bool.and_eq_true,decide_eq_true_eq] at h
  exact h.1

theorem verifyTrustedJwt_of_loaded
    (hget : getTrustPublicKey directory cache jwt.issuer = (.ok trusted,cache'))
    (hload : loadTrustPublicKeyFromSource directory jwt.issuer = .ok trusted)
    (h : (verifyTrustedJwt directory cache jwt).1 = .ok kind) :
    loadTrustPublicKeyFromSource directory jwt.issuer = .ok ⟨jwt.signer,kind⟩ := by
  simp only [verifyTrustedJwt,hget,reloadTrustKey,hload] at h
  split_ifs at h with _ _ _ hverifies
  rw [hload,LoginJwt.signer_of_verifies hverifies,← Except.ok.inj h]

theorem verifyTrustedJwt_of_hub (hhub : jwt.issuer = verifyHubIssuer)
    (hget : getTrustPublicKey directory cache jwt.issuer = (.ok ⟨hubKey,.verifyHub⟩,cache'))
    (h : (verifyTrustedJwt directory cache jwt).1 = .ok kind) :
    jwt.signer = hubKey ∧ kind = .verifyHub := by
  simp only [verifyTrustedJwt,hget] at h
  split_ifs at h with _ _ _ hverifies hretry
  · exact ⟨LoginJwt.signer_of_verifies hverifies,(Except.ok.inj h).symm⟩
  · simp [hhub] at hretry

theorem verifyTrustedJwt_ok (hcurrent : Current directory hubKey cache jwt.issuer)
    (h : (verifyTrustedJwt directory cache jwt).1 = .ok kind) : (jwt.signer = hubKey ∧ kind = .verifyHub) ∨
      loadTrustPublicKeyFromSource directory jwt.issuer = .ok ⟨jwt.signer,kind⟩ := by
  cases hcache : cache jwt.issuer with
  | some trusted =>
    have hget : getTrustPublicKey directory cache jwt.issuer = (.ok trusted,cache) := by
      simp only [getTrustPublicKey,hcache]
    rcases hcurrent trusted hcache with ⟨hhub,rfl⟩ | hload
    · exact .inl (verifyTrustedJwt_of_hub hhub hget h)
    · exact .inr (verifyTrustedJwt_of_loaded hget hload h)
  | none =>
    cases hload : loadTrustPublicKeyFromSource directory jwt.issuer with
    | ok trusted =>
      have hget : getTrustPublicKey directory cache jwt.issuer =
          (.ok trusted,Function.update cache jwt.issuer (some trusted)) := by
        simp only [getTrustPublicKey,hcache,reloadTrustKey,hload]
      exact .inr (hload ▸ verifyTrustedJwt_of_loaded hget hload h)
    | error error =>
      simp only [verifyTrustedJwt,getTrustPublicKey,hcache,reloadTrustKey,hload] at h
      split_ifs at h

omit [DecidableEq Key] in
theorem load_holds (hubKey : Key) {iss : String}
    (h : loadTrustPublicKeyFromSource directory iss = .ok trusted) :
    directory.Holds hubKey trusted.key trusted.issuerKind ∧
      (trusted.issuerKind = .user ↔ iss ≠ rootUserId ∧ directory.userKey iss ≠ none) ∧
      trusted.issuerKind ≠ .verifyHub := by
  unfold loadTrustPublicKeyFromSource at h
  split_ifs at h with hroot
  · cases howner : directory.ownerKey with
    | none =>
      rw [howner] at h
      cases h
    | some key =>
      rw [howner] at h
      obtain rfl := Except.ok.inj h
      simp [Directory.Holds,howner,hroot]
  · cases huser : directory.userConfig iss with
    | failed error =>
      rw [huser] at h
      cases h
    | missing =>
      rw [huser] at h
      cases hdevice : directory.deviceConfig iss with
      | none => simp [hdevice] at h
      | some key =>
        cases key with
        | none => simp [hdevice] at h
        | some key =>
          simp only [hdevice,Except.ok.injEq] at h
          subst h
          exact ⟨⟨iss,hdevice⟩,by simp [Directory.userKey,huser],by simp⟩
    | found key =>
      rw [huser] at h
      cases key with
      | none => cases h
      | some result =>
        cases result with
        | error error => cases h
        | ok key =>
          obtain rfl := Except.ok.inj h
          have hkey : directory.userKey iss = some key := by simp [Directory.userKey,huser]
          exact ⟨⟨iss,hkey⟩,by simp [hkey,hroot],by simp⟩

/-- With a current cache, a login is authorized just if a user who issues a JWT has the key of its subject,
of the zone owner or of the hub. -/
theorem login_authorized_iff {apps : Apps} {used : String → Bool} {loginParam : Option String}
    (hcurrent : Current directory hubKey cache jwt.issuer)
    (hissued : (handleLoginByJwt directory apps used cache jwt loginParam).1 = .ok pair) :
    Authorized directory hubKey jwt pair ↔
      (jwt.issuer ≠ rootUserId → directory.userKey jwt.issuer ≠ none →
        jwt.sub.bind directory.userKey = some jwt.signer ∨ directory.ownerKey = some jwt.signer ∨
          jwt.signer = hubKey) := by
  cases hverify : verifyTrustedJwt directory cache jwt with
  | mk result cache' =>
    cases result with
    | error error =>
      simp only [handleLoginByJwt,hverify] at hissued
      cases hissued
    | ok kind =>
      simp only [handleLoginByJwt,hverify] at hissued
      obtain ⟨hsub,hprincipal⟩ := issueTokenPair_ok hissued
      have huserKind : kind ≠ .device → pair.principalKind = .user := by
        intro hkind
        rw [hprincipal,principalKindOf,if_neg hkind]
      rcases verifyTrustedJwt_ok hcurrent (by rw [hverify]) with ⟨hsigner,rfl⟩ | hload
      · refine iff_of_true ⟨hsub,.verifyHub,hsigner,huserKind (by decide),fun hu => nomatch hu⟩ ?_
        exact fun _ _ => .inr (.inr hsigner)
      · obtain ⟨hholds,huser,hhub⟩ := load_holds hubKey hload
        have hother : kind ≠ .user → jwt.issuer ≠ rootUserId → directory.userKey jwt.issuer ≠ none →
            jwt.sub.bind directory.userKey = some jwt.signer ∨ directory.ownerKey = some jwt.signer ∨
              jwt.signer = hubKey := fun hne hroot hkey => absurd (huser.mpr ⟨hroot,hkey⟩) hne
        cases kind with
        | root =>
          exact iff_of_true ⟨hsub,.root,hholds,huserKind (by decide),fun hu => nomatch hu⟩
            (hother (by decide))
        | verifyHub => exact absurd rfl hhub
        | device =>
          refine iff_of_true ⟨hsub,.device,hholds,?_,fun hu => nomatch hu⟩ (hother (by decide))
          change pair.principalKind ≠ .user
          rw [hprincipal,principalKindOf,if_pos rfl]
          split_ifs <;> decide
        | user =>
          have hprincipalUser := huserKind (by decide)
          constructor
          · rintro ⟨-,kind',hholds',hsuits,hown⟩ _ _
            cases kind' with
            | root => exact .inr (.inl hholds')
            | verifyHub => exact .inr (.inr hholds')
            | device => exact absurd hprincipalUser hsuits
            | user => exact .inl (by rw [hsub,Option.bind_some,hown rfl])
          · intro hcond
            rcases hcond (huser.mp rfl).1 (huser.mp rfl).2 with hkey | howner | hkey
            · rw [hsub,Option.bind_some] at hkey
              exact ⟨hsub,.user,⟨pair.sub,hkey⟩,hprincipalUser,fun _ => hkey⟩
            · exact ⟨hsub,.root,howner,hprincipalUser,fun hu => nomatch hu⟩
            · exact ⟨hsub,.verifyHub,hkey,hprincipalUser,fun hu => nomatch hu⟩

def openApps : Apps where
  parseAppInstanceId := fun _ => .ok ("kernel",systemAppOwnerId)
  isSystemLoginTarget := fun _ => true
  isSystemBuiltin := fun _ => false
  hasUserSettings := fun _ => true
  checkUser := fun _ _ => none

/-- The zone owner has key 0, bob has key 1, alice key 2, a device key 3; the hub has key 4. -/
def smallZone : Directory ℕ where
  ownerKey := some 0
  userConfig := fun userid =>
    if userid = "bob" then .found (some (.ok 1)) else if userid = "alice" then .found (some (.ok 2))
    else .missing
  deviceConfig := fun name => if name = "ood1" then some (some 3) else none

def loginJwt (iss sub : String) (signer : ℕ) : LoginJwt ℕ :=
  { signer := signer, iss := some iss, sub := some sub, appid := some "kernel", jti := some "1" }

theorem bob_as_bob_authorized :
    Authorized smallZone 4 (loginJwt "bob" "bob" 1)
      ⟨"bob","kernel",.user,some ⟨"kernel@system",none⟩⟩ := by
  have hcurrent : Current smallZone 4 (fun _ => none) (loginJwt "bob" "bob" 1).issuer := by
    intro trusted htrusted
    cases htrusted
  have hissued : (handleLoginByJwt smallZone openApps (fun _ => false) (fun _ => none)
      (loginJwt "bob" "bob" 1) none).1 = .ok ⟨"bob","kernel",.user,some ⟨"kernel@system",none⟩⟩ := by
    decide +kernel
  exact (login_authorized_iff hcurrent hissued).mpr fun _ _ => .inl (by decide +kernel)

/-- With bob's key there is a session for alice; and when the cache still has bob as a device, bob's key as a
user gives a session of a device. -/
theorem bob_as_alice_issued :
    ((handleLoginByJwt smallZone openApps (fun _ => false) (fun _ => none) (loginJwt "bob" "alice" 1)
        none).1 = .ok ⟨"alice","kernel",.user,some ⟨"kernel@system",none⟩⟩ ∧
      ¬ Authorized smallZone 4 (loginJwt "bob" "alice" 1)
        ⟨"alice","kernel",.user,some ⟨"kernel@system",none⟩⟩) ∧
    ((handleLoginByJwt smallZone openApps (fun _ => false) (fun _ => some ⟨9,.device⟩)
        (loginJwt "bob" "bob" 1) none).1 = .ok ⟨"bob","kernel",.device,none⟩ ∧
      ¬ Authorized smallZone 4 (loginJwt "bob" "bob" 1) ⟨"bob","kernel",.device,none⟩) := by
  refine ⟨⟨by decide +kernel,?_⟩,by decide +kernel,?_⟩
  · rintro ⟨-,kind,hholds,hsuits,hown⟩
    cases kind with
    | root | verifyHub => cases hholds
    | device => exact hsuits rfl
    | user =>
      have halice := hown rfl
      revert halice
      decide +kernel
  · rintro ⟨-,kind,hholds,hsuits,-⟩
    cases kind with
    | device =>
      obtain ⟨name,hname⟩ := hholds
      simp only [smallZone,loginJwt] at hname
      split_ifs at hname
      cases hname
    | _ => cases hsuits

end Authority
end BuckyOS.VerifyHub
