import BuckyOS.Lib.Json
import BuckyOS.Lib.Text

/-! The store of the config service: one ordered tree of keys with their values, in which every key
has its revision under a side key, and the transactions on it. -/
namespace BuckyOS.SysConfig
inductive KVStoreError where
  | keyNotFound (key : String)
  | keyExist (key : String)
  | revisionMismatch (key : String) (expected actual : ℕ)
  | internalError (reason : String)
deriving DecidableEq

inductive KVAction where
  | create (value : String)
  | update (value : String)
  | append (value : String)
  | setByJsonPath (value : List (String × Option Json))
  | remove
deriving DecidableEq

/-- JSON as a library handles it: the value of a text or what is wrong with it, the text of a value,
and a value changed at a path. -/
structure JsonTools where
  fromStr : String → Except String Json
  toText : Json → String
  setJsonByPath : Json → String → Option Json → Json

abbrev Tree := OrderedMap String String

def internalMetaPrefix : String := "__meta/"

def revisionPrefix : String := "__meta/revision/"

def maxRevision : ℕ := 2 ^ 64 - 1

def startsWith (text start : String) : Bool := start.toList.isPrefixOf text.toList

def revisionKey (key : String) : String := revisionPrefix ++ key

def isInternalKey (key : String) : Bool := startsWith key internalMetaPrefix

def parseU64 (text : String) : Except String ℕ :=
  if text = "" then .error "cannot parse integer from empty string"
  else
    match Text.digitsValue (if text.toList.head? = some '+' then text.toList.drop 1
      else text.toList) with
    | none => .error "invalid digit found in string"
    | some n =>
      if n ≤ maxRevision then .ok n else .error "number too large to fit in target type"

section Reads
variable (tree : Tree) (key : String)

def currentRevision : Except KVStoreError ℕ :=
  match tree.get? (revisionKey key) with
  | none => .ok 0
  | some text =>
    match parseU64 text with
    | .ok revision => .ok revision
    | .error reason => .error (.internalError reason)

def checkedNext (revision : ℕ) : Except KVStoreError ℕ :=
  if revision < maxRevision then .ok (revision + 1)
  else .error (.internalError ("revision overflow for key: " ++ key))

def nextRevision : Except KVStoreError ℕ := do
  let current ← currentRevision tree key
  checkedNext key current

def writeRevision (revision : ℕ) : Tree := tree.insert (revisionKey key) (toString revision)

def getWithRevision : Except KVStoreError (Option (String × ℕ)) :=
  match tree.get? key with
  | none => .ok none
  | some value => do
    let revision ← currentRevision tree key
    return some (value,revision)

def get : Except KVStoreError (Option String) := do
  let found ← getWithRevision tree key
  return found.map Prod.fst

end Reads

section Transactions
variable (json : JsonTools) (tree : Tree)

def set (key value : String) : Except KVStoreError Tree := do
  let next ← nextRevision tree key
  return writeRevision (tree.insert key value) key next

def fromSlice (text : String) : Except KVStoreError Json :=
  match json.fromStr text with
  | .ok value => .ok value
  | .error reason => .error (.internalError reason)

def setByPath (key path : String) (value : Json) : Except KVStoreError Tree :=
  match tree.get? key with
  | none => .error (.keyNotFound key)
  | some text => do
    let current ← fromSlice json text
    let next ← nextRevision tree key
    return writeRevision
      (tree.insert key (json.toText (json.setJsonByPath current path (some value)))) key next

def create (key value : String) : Except KVStoreError Tree :=
  match tree.get? key with
  | some _ => .error (.keyExist key)
  | none => do
    let next ← nextRevision tree key
    return writeRevision (tree.insert key value) key next

def delete (key : String) : Except KVStoreError Tree :=
  match tree.get? key with
  | none => .error (.keyNotFound key)
  | some _ => do
    let next ← nextRevision tree key
    return writeRevision (tree.erase key) key next

def setAll (value : Json) (paths : List (String × Option Json)) : Json :=
  paths.foldl (fun value change => json.setJsonByPath value change.1 change.2) value

/-- What an action leaves under its key: a value, or nothing. -/
def actionValue (key : String) : KVAction → Except KVStoreError (Option String)
  | .create value =>
    match tree.get? key with
    | some _ => .error (.keyExist key)
    | none => .ok (some value)
  | .update value => .ok (some value)
  | .append value =>
    match tree.get? key with
    | none => .error (.keyNotFound key)
    | some existing => .ok (some (existing ++ value))
  | .setByJsonPath paths =>
    match tree.get? key with
    | none => .error (.keyNotFound key)
    | some text => do
      let existing ← fromSlice json text
      return some (json.toText (setAll json existing paths))
  | .remove => .ok none

/-- The batch of a transaction as it is collected: the values and the revisions to be written. -/
structure Staged where
  batch : List (String × Option String) := []
  revisionUpdates : List (String × ℕ) := []

/-- Stage one action: its value, and the next revision of its key unless there is one already. -/
def stageAction (staged : Staged) (entry : String × KVAction) : Except KVStoreError Staged := do
  let value ← actionValue json tree entry.1 entry.2
  let batch := staged.batch ++ [(entry.1,value)]
  if staged.revisionUpdates.any (fun update => update.1 = entry.1) then
    return {staged with batch := batch}
  else
    let next ← nextRevision tree entry.1
    return {batch := batch, revisionUpdates := staged.revisionUpdates ++ [(entry.1,next)]}

def stageMainKey : Option (String × ℕ) → Except KVStoreError Staged
  | none => .ok {}
  | some (key,expected) => do
    let actual ← currentRevision tree key
    if actual ≠ expected then .error (.revisionMismatch key expected actual)
    else
      let next ← checkedNext key actual
      return {revisionUpdates := [(key,next)]}

def applyEntry (tree : Tree) (entry : String × Option String) : Tree :=
  match entry.2 with
  | some value => tree.insert entry.1 value
  | none => tree.erase entry.1

def Staged.apply (staged : Staged) (tree : Tree) : Tree :=
  staged.revisionUpdates.foldl (fun tree update => writeRevision tree update.1 update.2)
    (staged.batch.foldl applyEntry tree)

def execTx (tx : List (String × KVAction)) (mainKey : Option (String × ℕ)) :
    Except KVStoreError Tree := do
  let first ← stageMainKey tree mainKey
  let staged ← tx.foldlM (stageAction json tree) first
  return staged.apply tree

end Transactions

section Listing
variable (tree : Tree)

variable (start : String)

def scanPrefix : List (String × String) :=
  tree.entries.filter (fun entry => startsWith entry.1 start)

def listData : List (String × String) :=
  (scanPrefix tree start).filter (fun entry => !isInternalKey entry.1)

def trimStartLoop (pattern : List Char) : ℕ → List Char → List Char
  | 0, text => text
  | fuel + 1, text =>
    if pattern ≠ [] ∧ pattern.isPrefixOf text then
      trimStartLoop pattern fuel (text.drop pattern.length)
    else text

def trimStartMatches (pattern text : List Char) : List Char :=
  trimStartLoop pattern text.length text

def listedPrefix : String :=
  if start = "" ∨ start.toList.getLast? = some '/' then start else start ++ "/"

/-- The child a key is listed as. Cutting off the first byte of a text fails when it is not a whole
character. -/
def childOf (key : String) : Option String :=
  let suffix := trimStartMatches start.toList key.toList
  if suffix.getLast? = some '/' then
    match suffix with
    | [] => none
    | c :: rest =>
      if c.utf8Size = 1 then some (String.ofList (rest.takeWhile (· ≠ '/'))) else none
  else some (String.ofList (suffix.takeWhile (· ≠ '/')))

def addChild (result : List String) (child : String) : List String :=
  if child ∈ result then result else result ++ [child]

/-- The children under a text; nothing when the listing panics. -/
def listDirectChildren : Option (List String) :=
  (listData tree (listedPrefix start)).foldlM
    (fun result entry => (childOf (listedPrefix start) entry.1).map (addChild result)) []

end Listing
end BuckyOS.SysConfig
