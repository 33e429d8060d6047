import BuckyOS.Lib.Program
import BuckyOS.Lib.Ranges
import BuckyOS.Lib.Text
import Mathlib.Data.String.Basic

/-! The message queues over the trees of one database: their calls as programs in which every
operation on a tree and every transaction is one statement. -/
namespace BuckyOS.MsgQueue
section Types
structure Message where
  index : ℕ
  createdAt : ℕ
  payload : Bytes
  headers : List (String × String)
deriving DecidableEq

structure QueueConfig where
  syncWrite : Bool := false
deriving DecidableEq

structure QueueMeta where
  nextIndex : ℕ
  messageCount : ℕ
  firstIndex : ℕ
  lastIndex : ℕ
  sizeBytes : ℕ
deriving DecidableEq

structure QueueStats where
  messageCount : ℕ
  firstIndex : ℕ
  lastIndex : ℕ
  sizeBytes : ℕ
deriving DecidableEq

structure SubscriptionState where
  queueUrn : String
  cursor : ℕ
deriving DecidableEq

inductive SubPosition where
  | earliest
  | latest
  | atIndex (index : ℕ)
deriving DecidableEq

/-- The trees of the database. The last one counts the names that were made up. -/
structure QueueDb where
  queues : OrderedMap String QueueConfig := .empty
  queueMeta : OrderedMap String QueueMeta := .empty
  messages : OrderedMap Bytes Message := .empty
  subs : OrderedMap String SubscriptionState := .empty
  counters : OrderedMap String ℕ := .empty

end Types

section Keys
def maxIndex : ℕ := 2^64 - 1

def messagePrefix (queueUrn : String) : Bytes := Text.utf8 queueUrn ++ [0]

def messageKey (queueUrn : String) (index : ℕ) : Bytes :=
  messagePrefix queueUrn ++ Bytes.ofNatBE 8 index

def decodeIndexFromKey (key : Bytes) : Option ℕ :=
  if key.length < 8 then none else some (Bytes.toNatBE (key.drop (key.length - 8)))

def calcQueueUrn (appid appOwner name : String) : String :=
  let normalized := Text.trim name
  if normalized.toList.head? = some '/' ∨
      normalized.toList.tails.any (fun rest => "::".toList.isPrefixOf rest) then normalized
  else appid ++ "::" ++ appOwner ++ "::" ++ normalized

end Keys

section Statements
/-- One operation on a tree, or one transaction. -/
inductive Statement where
  | nextId (key : String)
  | createConfig (queueUrn : String) (config : QueueConfig)
  | getConfig (queueUrn : String)
  | putConfig (queueUrn : String) (config : QueueConfig)
  | removeConfig (queueUrn : String)
  | getMeta (queueUrn : String)
  | putMeta (queueUrn : String) (queueMeta : QueueMeta)
  | removeMeta (queueUrn : String)
  | postTransaction (queueUrn : String) (message : Message)
  | range (low high : Bytes)
  | rangeTo (low high : Bytes)
  | scanPrefix (front : Bytes)
  | removeMessage (key : Bytes)
  | getSub (subId : String)
  | putSub (subId : String) (sub : SubscriptionState)
  | removeSub (subId : String)
  | subsOf (queueUrn : String)
  | flush

namespace Statement
@[reducible] def Answer : Statement → Type
  | nextId _ => ℕ
  | createConfig _ _ => Bool
  | getConfig _ => Option QueueConfig
  | putConfig _ _ => Unit
  | removeConfig _ => Bool
  | getMeta _ => Option QueueMeta
  | putMeta _ _ | removeMeta _ => Unit
  | postTransaction _ _ => Option ℕ
  | range _ _ | rangeTo _ _ | scanPrefix _ => List (Bytes × Message)
  | removeMessage _ => Unit
  | getSub _ => Option SubscriptionState
  | putSub _ _ => Unit
  | removeSub _ => Bool
  | subsOf _ => List String
  | flush => Unit

end Statement

def QueueMeta.posted (queueMeta : QueueMeta) (size : ℕ) : QueueMeta where
  nextIndex := queueMeta.nextIndex + 1
  messageCount := queueMeta.messageCount + 1
  firstIndex := if queueMeta.firstIndex = 0 then queueMeta.nextIndex else queueMeta.firstIndex
  lastIndex := queueMeta.nextIndex
  sizeBytes := queueMeta.sizeBytes + size

/-- Take the next index and store a message under it. -/
def postTransaction (db : QueueDb) (queueUrn : String) (message : Message) : Option ℕ × QueueDb :=
  match db.queueMeta.get? queueUrn with
  | none => (none,db)
  | some queueMeta =>
    (some queueMeta.nextIndex,
      {db with
        messages := db.messages.insert (messageKey queueUrn queueMeta.nextIndex)
          {message with index := queueMeta.nextIndex}
        queueMeta := db.queueMeta.insert queueUrn (queueMeta.posted message.payload.length)})

def exec (stmt : Statement) (_ : Unit) (db : QueueDb) : stmt.Answer × QueueDb :=
  match stmt with
  | .nextId key =>
    let next := (db.counters.get? key).getD 0 + 1
    (next,{db with counters := db.counters.insert key next})
  | .createConfig queueUrn config =>
    match db.queues.get? queueUrn with
    | some _ => (false,db)
    | none => (true,{db with queues := db.queues.insert queueUrn config})
  | .getConfig queueUrn => (db.queues.get? queueUrn,db)
  | .putConfig queueUrn config => ((),{db with queues := db.queues.insert queueUrn config})
  | .removeConfig queueUrn =>
    ((db.queues.get? queueUrn).isSome,{db with queues := db.queues.erase queueUrn})
  | .getMeta queueUrn => (db.queueMeta.get? queueUrn,db)
  | .putMeta queueUrn queueMeta =>
    ((),{db with queueMeta := db.queueMeta.insert queueUrn queueMeta})
  | .removeMeta queueUrn => ((),{db with queueMeta := db.queueMeta.erase queueUrn})
  | .postTransaction queueUrn message => postTransaction db queueUrn message
  | .range low high => (db.messages.range low high,db)
  | .rangeTo low high => (db.messages.rangeTo low high,db)
  | .scanPrefix front => (db.messages.withFront front,db)
  | .removeMessage key => ((),{db with messages := db.messages.erase key})
  | .getSub subId => (db.subs.get? subId,db)
  | .putSub subId sub => ((),{db with subs := db.subs.insert subId sub})
  | .removeSub subId => ((db.subs.get? subId).isSome,{db with subs := db.subs.erase subId})
  | .subsOf queueUrn =>
    ((db.subs.entries.filter (fun entry => entry.2.queueUrn = queueUrn)).map Prod.fst,db)
  | .flush => ((),db)

end Statements

section Handlers
abbrev QueueProgram (α : Type) := Program Statement.Answer String α

def execute (stmt : Statement) : QueueProgram stmt.Answer := Program.statement stmt

variable (subId : String) (queueUrn : String) (index : ℕ)

def queueNotFound : String := "Queue not found: " ++ queueUrn

def subscriptionNotFound : String := "Subscription not found: " ++ subId

def found {α : Type} (reason : String) : Option α → QueueProgram α
  | some a => .done (.ok a)
  | none => .done (.error reason)

def getQueueMeta : QueueProgram QueueMeta :=
  (execute (.getMeta queueUrn)).bind (found (queueNotFound queueUrn))

def getQueueConfig : QueueProgram QueueConfig :=
  (execute (.getConfig queueUrn)).bind (found (queueNotFound queueUrn))

def getSubscription : QueueProgram SubscriptionState :=
  (execute (.getSub subId)).bind (found (subscriptionNotFound subId))

variable (config : QueueConfig) (queueMeta : QueueMeta)

def flushed : QueueProgram Unit :=
  if config.syncWrite then execute .flush else .done (.ok ())

def nameOr (name : Option String) (front key : String) : QueueProgram String :=
  match name with
  | some name => .done (.ok name)
  | none => (execute (.nextId key)).bind (fun n => .done (.ok (front ++ toString n)))

def emptyMeta : QueueMeta := ⟨1,0,0,0,0⟩

def handleCreateQueue (name : Option String) (appid appOwner : String) (config : QueueConfig) :
    QueueProgram String := do
  let name ← nameOr name "queue-" "queue_id"
  let queueUrn := calcQueueUrn appid appOwner name
  let created ← execute (.createConfig queueUrn config)
  if created then
    execute (.putMeta queueUrn emptyMeta)
    flushed config
    return queueUrn
  else Program.fail ("Queue already exists: " ++ queueUrn)

def removeMessages (keys : List Bytes) : QueueProgram Unit :=
  Program.forEach keys (fun key => execute (.removeMessage key))

def removeSubs (subIds : List String) : QueueProgram Unit :=
  Program.forEach subIds (fun subId => (execute (.removeSub subId)).bind (fun _ => .done (.ok ())))

def handleDeleteQueue : QueueProgram Unit := do
  let removed ← execute (.removeConfig queueUrn)
  if removed then
    let entries ← execute (.scanPrefix (messagePrefix queueUrn))
    removeMessages (entries.map Prod.fst)
    let subIds ← execute (.subsOf queueUrn)
    removeSubs subIds
    execute (.removeMeta queueUrn)
    execute .flush
  else Program.fail (queueNotFound queueUrn)

def handleGetQueueStats : QueueProgram QueueStats := do
  let queueMeta ← getQueueMeta queueUrn
  return ⟨queueMeta.messageCount,queueMeta.firstIndex,queueMeta.lastIndex,queueMeta.sizeBytes⟩

def handleUpdateQueueConfig : QueueProgram Unit := do
  let _ ← getQueueConfig queueUrn
  execute (.putConfig queueUrn config)
  flushed config

def handlePostMessage (message : Message) (now : ℕ) : QueueProgram ℕ := do
  let config ← getQueueConfig queueUrn
  let message := if message.createdAt = 0 then {message with createdAt := now} else message
  let index ← (execute (.postTransaction queueUrn message)).bind (found (queueNotFound queueUrn))
  flushed config
  return index

def SubPosition.cursor : SubPosition → ℕ
  | .earliest => if queueMeta.firstIndex = 0 then 1 else queueMeta.firstIndex
  | .latest => queueMeta.lastIndex + 1
  | .atIndex index => index

def handleSubscribe (subId : Option String) (position : SubPosition) :
    QueueProgram String := do
  let queueMeta ← getQueueMeta queueUrn
  let subId ← nameOr subId "sub-" "sub_id"
  match ← execute (.getSub subId) with
  | some _ => Program.fail ("Subscription already exists: " ++ subId)
  | none =>
    execute (.putSub subId ⟨queueUrn,position.cursor queueMeta⟩)
    return subId

def handleUnsubscribe : QueueProgram Unit := do
  let removed ← execute (.removeSub subId)
  if removed then return () else Program.fail (subscriptionNotFound subId)

/-- The first messages of a range. The loop stops after a message once there are enough. -/
def firstMessages (length : ℕ) (entries : List (Bytes × Message)) : List Message :=
  (entries.take (max length 1)).map Prod.snd

def messagesFrom (cursor : ℕ) : QueueProgram (List (Bytes × Message)) :=
  execute (.range (messageKey queueUrn cursor) (messageKey queueUrn maxIndex))

def advanceCursor (sub : SubscriptionState) (messages : List Message) :
    QueueProgram Unit :=
  match messages.getLast? with
  | some last => execute (.putSub subId {sub with cursor := last.index + 1})
  | none => .done (.ok ())

def handleFetchMessages (length : ℕ) (autoCommit : Bool) :
    QueueProgram (List Message) := do
  let sub ← getSubscription subId
  let entries ← messagesFrom sub.queueUrn sub.cursor
  let messages := firstMessages length entries
  if autoCommit then advanceCursor subId sub messages
  return messages

def handleReadMessage (cursor length : ℕ) : QueueProgram (List Message) := do
  let _ ← getQueueMeta queueUrn
  let entries ← messagesFrom queueUrn cursor
  return firstMessages length entries

def handleCommitAck : QueueProgram Unit := do
  let sub ← getSubscription subId
  execute (.putSub subId {sub with cursor := index + 1})

def handleSeek (position : SubPosition) : QueueProgram Unit := do
  let sub ← getSubscription subId
  let queueMeta ← getQueueMeta sub.queueUrn
  execute (.putSub subId {sub with cursor := position.cursor queueMeta})

def payloadBytes (messages : List Message) : ℕ :=
  (messages.map (fun message => message.payload.length)).sum

/-- The meta of a queue without the messages of some entries, before its first index is looked
for. -/
def QueueMeta.without (entries : List (Bytes × Message)) : QueueMeta :=
  {queueMeta with
    messageCount := queueMeta.messageCount - entries.length
    sizeBytes := queueMeta.sizeBytes - payloadBytes (entries.map Prod.snd)}

def settleMeta : QueueProgram Unit :=
  if queueMeta.messageCount = 0 then
    execute (.putMeta queueUrn {queueMeta with firstIndex := 0, lastIndex := 0})
  else
    (messagesFrom queueUrn index).bind (fun later =>
      match later.findSome? (fun entry => decodeIndexFromKey entry.1) with
      | some first => execute (.putMeta queueUrn {queueMeta with firstIndex := first})
      | none => execute (.putMeta queueUrn queueMeta))

def removeBefore : QueueProgram ℕ := do
  let queueMeta ← getQueueMeta queueUrn
  let entries ← execute (.rangeTo (messageKey queueUrn 0) (messageKey queueUrn index))
  removeMessages (entries.map Prod.fst)
  if entries.length = 0 then return 0
  else
    settleMeta queueUrn index (queueMeta.without entries)
    return entries.length

def handleDeleteMessageBefore : QueueProgram ℕ := do
  let config ← getQueueConfig queueUrn
  let removed ← removeBefore queueUrn index
  flushed config
  return removed

end Handlers

section Calls
inductive Call where
  | create (name : Option String) (appid appOwner : String) (config : QueueConfig)
  | delete (queueUrn : String)
  | stats (queueUrn : String)
  | update (queueUrn : String) (config : QueueConfig)
  | post (queueUrn : String) (message : Message) (now : ℕ)
  | subscribe (queueUrn : String) (subId : Option String) (position : SubPosition)
  | unsubscribe (subId : String)
  | fetch (subId : String) (length : ℕ) (autoCommit : Bool)
  | read (queueUrn : String) (cursor length : ℕ)
  | commitAck (subId : String) (index : ℕ)
  | seek (subId : String) (position : SubPosition)
  | deleteBefore (queueUrn : String) (index : ℕ)

inductive Reply where
  | unit
  | name (name : String)
  | index (index : ℕ)
  | stats (stats : QueueStats)
  | messages (messages : List Message)
deriving DecidableEq

def replied {α : Type} (reply : α → Reply) (p : QueueProgram α) : QueueProgram Reply :=
  p.bind (fun a => .done (.ok (reply a)))

def program : Call → QueueProgram Reply
  | .create name appid appOwner config =>
    replied .name (handleCreateQueue name appid appOwner config)
  | .delete queueUrn => replied (fun _ => .unit) (handleDeleteQueue queueUrn)
  | .stats queueUrn => replied .stats (handleGetQueueStats queueUrn)
  | .update queueUrn config => replied (fun _ => .unit) (handleUpdateQueueConfig queueUrn config)
  | .post queueUrn message now => replied .index (handlePostMessage queueUrn message now)
  | .subscribe queueUrn subId position => replied .name (handleSubscribe queueUrn subId position)
  | .unsubscribe subId => replied (fun _ => .unit) (handleUnsubscribe subId)
  | .fetch subId length autoCommit =>
    replied .messages (handleFetchMessages subId length autoCommit)
  | .read queueUrn cursor length => replied .messages (handleReadMessage queueUrn cursor length)
  | .commitAck subId index => replied (fun _ => .unit) (handleCommitAck subId index)
  | .seek subId position => replied (fun _ => .unit) (handleSeek subId position)
  | .deleteBefore queueUrn index => replied .index (handleDeleteMessageBefore queueUrn index)

def serve (db : QueueDb) (call : Call) : Except String Reply × QueueDb :=
  (program call).run exec (fun _ => ()) db

end Calls
end BuckyOS.MsgQueue
