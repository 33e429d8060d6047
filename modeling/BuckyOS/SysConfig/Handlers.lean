import BuckyOS.SysConfig.Revisions

/-! The requests of the config service: how their keys are spelled, checked against the policy in
force and turned into calls of the store, and the security state that is loaded from the store. -/
namespace BuckyOS.SysConfig
inductive ConfigError where
  | reasonError (reason : String)
  | noPermission (reason : String)
  | parseRequestError (reason : String)
  | keyNotExist (key : String)
  | unknownMethod (method : String)
  | panicked
deriving DecidableEq

structure SessionToken where
  sub : Option String := none
  appid : Option String := none
  sudoMode : Bool := false
deriving DecidableEq

/-- The keys of a zone config: that of its verify hub, and the owner with its default key. -/
structure ZoneKeys where
  verifyHub : Option String := none
  owner : Option (String × String) := none
deriving DecidableEq

structure DeviceKey where
  name : String
  did : String
  key : String
deriving DecidableEq

/-- What the service takes from elsewhere: JSON, paths, the decision of a policy, the documents of
the zone, of its users and of its devices, and keys as they are read from documents. -/
structure ConfigEnv where
  json : JsonTools
  normalizePath : String → String
  enforce : (policy user app resource action : String) → (sudoUser : Option String) → Bool
  defaultSudoUser : String → String
  notAMap : Json → String
  zoneConfig : String → Except String ZoneKeys
  ownerDocument : String → Except String (Option String)
  deviceDocument : String → Except String (String × Option String)
  decodingKey : String → Except String String
  thisDevice : Option DeviceKey
  buildRbacConfig : Option String → String
  createsEnforcer : String → Bool

section Spelling
def sysConfigUriPrefix : String := "obj://config/"

def stripConfigKeyPrefix (keyPath : String) : String :=
  let key := trimStartMatches sysConfigUriPrefix.toList keyPath.toList
  let key := if "/config/".toList.isPrefixOf key then key.drop 8 else key
  String.ofList ((key.dropWhile (· = '/')).dropWhile (· = '\\'))

def isInternalMetaKey (keyPath : String) : Bool := isInternalKey (stripConfigKeyPrefix keyPath)

def realKeyPath (env : ConfigEnv) (keyPath : String) : String :=
  env.normalizePath (stripConfigKeyPrefix keyPath)

def fullResPath (key : String) : String := sysConfigUriPrefix ++ key

def shouldReloadSecurityState (key : String) : Bool :=
  key = "boot/config" || startsWith key "system/rbac/"

end Spelling

section State
structure ConfigState where
  tree : Tree := .empty
  trustKeys : OrderedMap String String := .empty
  policy : String := ""

inductive StoreCall where
  | get (key : String)
  | list (key : String)
  | dump
  | write (op : StoreOp) (reload : Bool)
  | append (spelled key value : String)
  | refresh

end State

section Checks
variable (env : ConfigEnv) (policy : String) (token : SessionToken)

def nonBlank (text : Option String) : Option String := text.filter (fun text => Text.trim text ≠ "")

def requireSessionIdentity : Except ConfigError (String × String) :=
  match nonBlank token.sub with
  | none => .error (.parseRequestError "Missing userid")
  | some user =>
    match nonBlank token.appid with
    | none => .error (.parseRequestError "Missing appid")
    | some app => .ok (user,app)

def sudoUser (user : String) : Option String :=
  if token.sudoMode then some (env.defaultSudoUser user) else none

def allowed (identity : String × String) (action key : String) : Bool :=
  env.enforce policy identity.1 identity.2 (fullResPath key) action (sudoUser env token identity.1)

def reservedKey : ConfigError := .reasonError "internal metadata key is reserved"

def noWritePermission (key : String) : ConfigError :=
  .noPermission ("No write permission for key: " ++ key)

def textParam (params : Json) (name : String) : Except ConfigError String :=
  match params.get? name with
  | none => .error (.reasonError ("Missing " ++ name))
  | some value =>
    match value.asStr with
    | some text => .ok text
    | none => .error .panicked

def refuseReserved (key : String) : Except ConfigError Unit :=
  if isInternalMetaKey key then .error reservedKey else .ok ()

def writableKey (keyPath : String) : Except ConfigError String := do
  let identity ← requireSessionIdentity token
  if allowed env policy token identity "write" (realKeyPath env keyPath) then
    return realKeyPath env keyPath
  else .error (noWritePermission (realKeyPath env keyPath))

def readableKey (keyPath : String) : Except ConfigError String := do
  let identity ← requireSessionIdentity token
  if allowed env policy token identity "read" (realKeyPath env keyPath) then
    return realKeyPath env keyPath
  else .error (.noPermission "No read permission")

end Checks

section Handlers
variable (env : ConfigEnv) (policy : String) (token : SessionToken) (params : Json)

def handleGet : Except ConfigError StoreCall := do
  match (params.get? "key").bind Json.asStr with
  | none => .error (.reasonError "Missing key")
  | some keyPath =>
    refuseReserved keyPath
    return .get (← readableKey env policy token keyPath)

def handleSet : Except ConfigError StoreCall := do
  let keyPath ← textParam params "key"
  let value ← textParam params "value"
  refuseReserved keyPath
  let key ← writableKey env policy token keyPath
  return .write (.set key value) (shouldReloadSecurityState key)

def handleCreate : Except ConfigError StoreCall := do
  let keyPath ← textParam params "key"
  let value ← textParam params "value"
  refuseReserved keyPath
  let key ← writableKey env policy token keyPath
  return .write (.create key value) (shouldReloadSecurityState key)

def handleDelete : Except ConfigError StoreCall := do
  let keyPath ← textParam params "key"
  refuseReserved keyPath
  let key ← writableKey env policy token keyPath
  return .write (.delete key) (shouldReloadSecurityState key)

def handleAppend : Except ConfigError StoreCall := do
  let keyPath ← textParam params "key"
  let value ← textParam params "append_value"
  refuseReserved keyPath
  let key ← writableKey env policy token keyPath
  return .append keyPath key value

def jsonParam (text : String) : Except ConfigError Json :=
  match env.json.fromStr text with
  | .ok value => .ok value
  | .error reason => .error (.reasonError reason)

def handleSetByJsonPath : Except ConfigError StoreCall := do
  let keyPath ← textParam params "key"
  let value ← textParam params "value"
  refuseReserved keyPath
  let value ← jsonParam env value
  let path ← textParam params "json_path"
  let key ← writableKey env policy token keyPath
  return .write (.setByPath key path value) (shouldReloadSecurityState key)

def handleList : Except ConfigError StoreCall := do
  let keyPath ← textParam params "key"
  refuseReserved keyPath
  return .list (← readableKey env policy token keyPath)

def actionText (action : Json) (kind : String) : Except ConfigError String :=
  match action.get? "value" with
  | none => .error (.reasonError ("Missing value for " ++ kind))
  | some value =>
    match value.asStr with
    | some text => .ok text
    | none => .error (.reasonError "Value must be string")

def allSet (action : Json) : Except ConfigError (List (String × Option Json)) :=
  match action.get? "all_set" with
  | none => .error (.reasonError "Missing all_set for set_by_path")
  | some value =>
    match value.asObject with
    | none => .error (.reasonError (env.notAMap value))
    | some fields => .ok (fields.map (fun field =>
        (field.1,if field.2 = .null then none else some field.2)))

def parseAction (key : String) (action : Json) : Except ConfigError KVAction :=
  match action.get? "action" with
  | none => .error (.reasonError ("Missing action type for key: " ++ key))
  | some kind =>
    match kind.asStr with
    | none => .error (.reasonError "Action type must be string")
    | some "create" => do return .create (← actionText action "create")
    | some "update" => do return .update (← actionText action "update")
    | some "append" => do return .append (← actionText action "append")
    | some "set_by_path" => do return .setByJsonPath (← allSet env action)
    | some "remove" => .ok .remove
    | some kind => .error (.reasonError ("Unknown action type: " ++ kind))

def parseEntry (identity : String × String) (entry : String × Json) :
    Except ConfigError (String × KVAction) := do
  if isInternalMetaKey entry.1 then
    .error (.reasonError ("internal metadata key is reserved: " ++ entry.1))
  else
    let key := realKeyPath env entry.1
    if allowed env policy token identity "write" key then
      return (key,← parseAction env key entry.2)
    else .error (noWritePermission key)

/-- The map of the actions by their keys: of several under one key the last stays. -/
def insertAction (tx : List (String × KVAction)) (entry : String × KVAction) :
    List (String × KVAction) :=
  tx.filter (fun other => other.1 ≠ entry.1) ++ [entry]

def txOf (listed : List (String × KVAction)) : List (String × KVAction) :=
  listed.foldl insertAction []

def asU64 : Json → Option ℕ
  | .number text => (Text.digitsValue text.toList).filter (fun n => n ≤ maxRevision)
  | _ => none

def parseTxMainKey : Except ConfigError (Option (String × ℕ)) :=
  match params.get? "main_key" with
  | none => .ok none
  | some mainKey =>
    match mainKey.asObject with
    | none => .error (.parseRequestError "main_key must be an object")
    | some _ =>
      match ((mainKey.get? "key").bind Json.asStr).filter (fun key => key ≠ "") with
      | none => .error (.parseRequestError "main_key.key is required")
      | some key =>
        match (mainKey.get? "revision").bind asU64 with
        | none => .error (.parseRequestError "main_key.revision must be a u64")
        | some revision => .ok (some (realKeyPath env key,revision))

def listedActions : Except ConfigError (List (String × KVAction)) :=
  match params.get? "actions" with
  | none => .error (.reasonError "Missing actions")
  | some actions =>
    match actions.asObject with
    | none => .error (.reasonError "Actions must be an object")
    | some fields => do
      let identity ← requireSessionIdentity token
      fields.mapM (parseEntry env policy token identity)

def handleExecTx : Except ConfigError StoreCall := do
  let listed ← listedActions env policy token params
  let mainKey ← parseTxMainKey env params
  return .write (.execTx (txOf listed) mainKey)
    (listed.any (fun entry => shouldReloadSecurityState entry.1))

def dumpConfigsForScheduler : Except ConfigError StoreCall := do
  let identity ← requireSessionIdentity token
  if identity.2 ≠ "scheduler" ∧ identity.2 ≠ "node-daemon" then
    .error (.noPermission "No permission")
  else return .dump

def plan (method : String) : Except ConfigError StoreCall :=
  match method with
  | "sys_config_create" => handleCreate env policy token params
  | "sys_config_get" => handleGet env policy token params
  | "sys_config_set" => handleSet env policy token params
  | "sys_config_set_by_json_path" => handleSetByJsonPath env policy token params
  | "sys_config_exec_tx" => handleExecTx env policy token params
  | "sys_config_delete" => handleDelete env policy token params
  | "sys_config_append" => handleAppend env policy token params
  | "sys_config_list" => handleList env policy token params
  | "dump_configs_for_scheduler" => dumpConfigsForScheduler token
  | "sys_refresh_trust_keys" => do
    let _ ← requireSessionIdentity token
    return .refresh
  | method => .error (.unknownMethod method)

end Handlers

section Security
variable (env : ConfigEnv)

def KVStoreError.text : KVStoreError → String
  | .keyNotFound key => "key not found : " ++ key
  | .keyExist key => "key exist : " ++ key
  | .revisionMismatch key expected actual =>
    "revision mismatch for key " ++ key ++ ": expected " ++ toString expected ++ ", actual " ++
      toString actual
  | .internalError reason => "internal error : " ++ reason

def ofStore {α : Type} : Except KVStoreError α → Except ConfigError α
  | .ok a => .ok a
  | .error error => .error (.reasonError error.text)

abbrev TrustKeys := OrderedMap String String

def addZoneKeys (zone : ZoneKeys) (keys : TrustKeys) : Option ConfigError × TrustKeys :=
  match zone.verifyHub.map env.decodingKey with
  | some (.error reason) => (some (.reasonError reason),keys)
  | hub =>
    let keys := match hub with
      | some (.ok key) => keys.insert "verify-hub" key
      | _ => keys
    match zone.owner with
    | none => (none,keys)
    | some (owner,key) =>
      match env.decodingKey key with
      | .error reason => (some (.reasonError reason),keys)
      | .ok key => (none,((keys.insert owner key).insert "root" key).insert "$default" key)

/-- The keys that the stored zone config gives. A store that cannot be read gives none. -/
def zoneTrustKeys (tree : Tree) : Option ConfigError × TrustKeys :=
  match get tree "boot/config" with
  | .ok (some text) =>
    match env.zoneConfig text with
    | .error reason => (some (.reasonError reason),.empty)
    | .ok zone => addZoneKeys env zone .empty
  | _ => (none,.empty)

def addThisDevice (keys : TrustKeys) : TrustKeys :=
  match env.thisDevice with
  | none => keys
  | some device => (keys.insert device.name device.key).insert device.did device.key

/-- Clear the keys of trusted issuers, load those of the zone and of this device, and put the
stored policy in force. What was done before an error stays done. -/
def handleRefreshTrustKeys (s : ConfigState) : Except ConfigError Unit × ConfigState :=
  match zoneTrustKeys env s.tree with
  | (some error,keys) => (.error error,{s with trustKeys := keys})
  | (none,keys) =>
    let keys := addThisDevice env keys
    match ofStore (get s.tree "system/rbac/policy") with
    | .error error => (.error error,{s with trustKeys := keys})
    | .ok policy =>
      if env.createsEnforcer (env.buildRbacConfig policy) then
        (.ok (),{s with trustKeys := keys, policy := env.buildRbacConfig policy})
      else (.error .panicked,{s with trustKeys := keys})

end Security

section Calls
variable (env : ConfigEnv)

/-- The actions as they are gone through: the paths of an action come in some order. -/
inductive SameAction : KVAction → KVAction → Prop
  | refl (action : KVAction) : SameAction action action
  | paths {paths paths' : List (String × Option Json)} (h : paths.Perm paths') :
    SameAction (.setByJsonPath paths) (.setByJsonPath paths')

variable (tx tx' : List (String × KVAction))

def SameActions : Prop :=
  List.Forall₂ (fun a b => a.1 = b.1 ∧ SameAction a.2 b.2) tx tx'

/-- The same entries gone through in another order. -/
def Rearranged : Prop :=
  ∃ middle, tx.Perm middle ∧ SameActions middle tx'

/-- What a request does not determine: what the flush of its write says, and the order in which the
actions of a transaction and the paths of an action are gone through. -/
structure ConfigInput where
  flushError : Option String := none
  arrange : List (String × KVAction) → List (String × KVAction)
  rearranged : ∀ tx, Rearranged tx (arrange tx)

variable (s : ConfigState) (input : ConfigInput)

def StoreOp.arranged : StoreOp → StoreOp
  | .execTx tx mainKey => .execTx (input.arrange tx) mainKey
  | op => op

def performWrite (op : StoreOp) (reload : Bool) :
    Except ConfigError Json × ConfigState :=
  match step env.json s.tree (op.arranged input,input.flushError) with
  | (.error error,tree) => (.error (.reasonError error.text),{s with tree := tree})
  | (.ok (),tree) =>
    if reload then
      let refreshed := handleRefreshTrustKeys env {s with tree := tree}
      (refreshed.1.map (fun _ => .null),refreshed.2)
    else (.ok .null,{s with tree := tree})

def performAppend (spelled key value : String) :
    Except ConfigError Json × ConfigState :=
  match ofStore (get s.tree key) with
  | .error error => (.error error,s)
  | .ok none => (.error (.keyNotExist spelled),s)
  | .ok (some old) => performWrite env s input (.set key (old ++ value)) false

def dumpedDirectories : List String := ["boot/","devices/","users/","services/","system/","nodes/"]

def perform :
    StoreCall → Except ConfigError Json × ConfigState
  | .get key =>
    match ofStore (getWithRevision s.tree key) with
    | .error error => (.error error,s)
    | .ok none => (.ok .null,s)
    | .ok (some (value,revision)) =>
      (.ok (.ofFields [("value",.string value),("version",.ofNat revision)]),s)
  | .list key =>
    match listDirectChildren s.tree key with
    | none => (.error .panicked,s)
    | some children => (.ok (.array (children.map .string)),s)
  | .dump =>
    (.ok (.ofFields ((dumpedDirectories.flatMap (listData s.tree)).map
      (fun entry => (entry.1,.string entry.2)))),s)
  | .write op reload => performWrite env s input op reload
  | .append spelled key value => performAppend env s input spelled key value
  | .refresh =>
    let refreshed := handleRefreshTrustKeys env s
    (refreshed.1.map (fun _ => .null),refreshed.2)

def handle (token : SessionToken) (method : String)
    (params : Json) : Except ConfigError Json × ConfigState :=
  match plan env s.policy token params method with
  | .error error => (.error error,s)
  | .ok call => perform env s input call

end Calls
end BuckyOS.SysConfig
