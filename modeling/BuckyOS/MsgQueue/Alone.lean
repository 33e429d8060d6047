import BuckyOS.MsgQueue.Queue

/-! What the calls on message queues do when nothing comes between their steps. -/
namespace BuckyOS.MsgQueue
section Steps
variable {α : Type} (db : QueueDb)

/-- A program that nothing comes between. -/
def alone (p : QueueProgram α) : Except String α × QueueDb := p.run exec (fun _ => ()) db

@[simp] theorem alone_bind {β : Type} (p : QueueProgram α) (f : α → QueueProgram β) : alone db (p.bind f) =
      match alone db p with
      | (.ok a,db') => alone db' (f a)
      | (.error e,db') => (.error e,db') := by
  unfold alone
  rw [Program.run_bind]
  rcases p.run exec (fun _ => ()) db with ⟨_ | _,_⟩ <;> rfl

@[simp] theorem alone_done (result : Except String α) : alone db (.done result) = (result,db) := rfl

@[simp] theorem alone_call (stmt : Statement) (next : stmt.Answer → QueueProgram α) :
    alone db (.call stmt next) = alone (exec stmt () db).2 (next (exec stmt () db).1) := rfl

@[simp] theorem alone_fail (reason : String) :
    alone db (Program.fail reason : QueueProgram α) = (.error reason,db) := rfl

@[simp] theorem alone_found (reason : String) (a : Option α) :
    alone db (found reason a) = (match a with | some a => .ok a | none => .error reason,db) := by
  cases a <;> rfl

@[simp] theorem alone_removeMessages (keys : List Bytes) :
    alone db (removeMessages keys) = (.ok (),{db with messages := db.messages.eraseAll keys}) := by
  induction keys generalizing db with
  | nil => rfl
  | cons key keys ih => exact ih _

@[simp] theorem alone_removeSubs (subIds : List String) :
    alone db (removeSubs subIds) = (.ok (),{db with subs := db.subs.eraseAll subIds}) := by
  induction subIds generalizing db with
  | nil => rfl
  | cons subId subIds ih => exact ih _

@[simp] theorem alone_flushed (config : QueueConfig) : alone db (flushed config) = (.ok (),db) := by
  unfold flushed
  split <;> rfl

end Steps

section Calls
variable (db : QueueDb)

variable (name : Option String) (front key : String)

/-- The name of a queue or subscription with the counters of made-up names. -/
def namedBy : String × OrderedMap String ℕ :=
  match name with
  | some name => (name,db.counters)
  | none =>
    let next := (db.counters.get? key).getD 0 + 1
    (front ++ toString next,db.counters.insert key next)

@[simp] theorem alone_nameOr :
    alone db (nameOr name front key) = (.ok (namedBy db name front key).1,
        {db with counters := (namedBy db name front key).2}) := by
  cases name <;> rfl

attribute [local simp] execute exec program replied getQueueMeta getQueueConfig getSubscription
  Program.statement messagesFrom

theorem serve_create (appid appOwner : String) (config : QueueConfig) :
    serve db (.create name appid appOwner config) =
      let named := namedBy db name "queue-" "queue_id"
      let queueUrn := calcQueueUrn appid appOwner named.1
      match db.queues.get? queueUrn with
      | some _ => (.error ("Queue already exists: " ++ queueUrn),{db with counters := named.2})
      | none => (.ok (.name queueUrn),
          {db with
            counters := named.2
            queues := db.queues.insert queueUrn config
            queueMeta := db.queueMeta.insert queueUrn emptyMeta}) := by
  show alone db (program (.create name appid appOwner config)) = _
  dsimp only
  rcases hq : db.queues.get? (calcQueueUrn appid appOwner (namedBy db name "queue-" "queue_id").1)
    with _ | config' <;>
  simp [handleCreateQueue,hq]

variable (queueUrn : String)

theorem serve_delete : serve db (.delete queueUrn) =
      match db.queues.get? queueUrn with
      | none => (.error (queueNotFound queueUrn),db)
      | some _ => (.ok .unit,
          {db with
            queues := db.queues.erase queueUrn
            messages := db.messages.eraseAll ((db.messages.withFront (messagePrefix queueUrn)).map Prod.fst)
            subs := db.subs.eraseAll
              ((db.subs.entries.filter (fun entry => entry.2.queueUrn = queueUrn)).map Prod.fst)
            queueMeta := db.queueMeta.erase queueUrn}) := by
  show alone db (program (.delete queueUrn)) = _
  rcases hq : db.queues.get? queueUrn with _ | config
  · simp [handleDeleteQueue,hq,OrderedMap.erase_eq_self]
  · simp [handleDeleteQueue,hq]

theorem serve_stats : serve db (.stats queueUrn) = (match db.queueMeta.get? queueUrn with
      | none => .error (queueNotFound queueUrn)
      | some queueMeta => .ok (.stats ⟨queueMeta.messageCount,queueMeta.firstIndex,
          queueMeta.lastIndex,queueMeta.sizeBytes⟩),db) := by
  show alone db (program (.stats queueUrn)) = _
  rcases hq : db.queueMeta.get? queueUrn with _ | queueMeta <;>
  simp [handleGetQueueStats,hq]

theorem serve_update (config : QueueConfig) : serve db (.update queueUrn config) =
      match db.queues.get? queueUrn with
      | none => (.error (queueNotFound queueUrn),db)
      | some _ => (.ok .unit,{db with queues := db.queues.insert queueUrn config}) := by
  show alone db (program (.update queueUrn config)) = _
  rcases hq : db.queues.get? queueUrn with _ | config' <;>
  simp [handleUpdateQueueConfig,hq]

/-- A message as it is stored: with the time of its arrival if it has none. -/
def stamped (message : Message) (now : ℕ) : Message :=
  if message.createdAt = 0 then {message with createdAt := now} else message

theorem serve_post (message : Message) (now : ℕ) : serve db (.post queueUrn message now) =
      match db.queues.get? queueUrn, db.queueMeta.get? queueUrn with
      | some _, some queueMeta => (.ok (.index queueMeta.nextIndex),
          (postTransaction db queueUrn (stamped message now)).2)
      | _, _ => (.error (queueNotFound queueUrn),db) := by
  show alone db (program (.post queueUrn message now)) = _
  rcases hq : db.queues.get? queueUrn with _ | config
  · simp [handlePostMessage,hq]
  · rcases hm : db.queueMeta.get? queueUrn with _ | queueMeta
    · simp [handlePostMessage,hq,postTransaction,hm]
    · simp [handlePostMessage,hq,postTransaction,hm,stamped]

theorem serve_subscribe (subId : Option String) (position : SubPosition) :
    serve db (.subscribe queueUrn subId position) =
      let named := namedBy db subId "sub-" "sub_id"
      match db.queueMeta.get? queueUrn with
      | none => (.error (queueNotFound queueUrn),db)
      | some queueMeta =>
        match db.subs.get? named.1 with
        | some _ => (.error ("Subscription already exists: " ++ named.1),{db with counters := named.2})
        | none => (.ok (.name named.1),
            {db with
              counters := named.2
              subs := db.subs.insert named.1 ⟨queueUrn,position.cursor queueMeta⟩}) := by
  show alone db (program (.subscribe queueUrn subId position)) = _
  dsimp only
  rcases hm : db.queueMeta.get? queueUrn with _ | queueMeta
  · simp [handleSubscribe,hm]
  · rcases hsub : db.subs.get? (namedBy db subId "sub-" "sub_id").1 with _ | sub <;>
    simp [handleSubscribe,hm,hsub]

variable (subId : String)

theorem serve_unsubscribe : serve db (.unsubscribe subId) =
      match db.subs.get? subId with
      | none => (.error (subscriptionNotFound subId),db)
      | some _ => (.ok .unit,{db with subs := db.subs.erase subId}) := by
  show alone db (program (.unsubscribe subId)) = _
  rcases hsub : db.subs.get? subId with _ | sub <;>
  simp [handleUnsubscribe,hsub,OrderedMap.erase_eq_self]

def batch (queueUrn : String) (cursor length : ℕ) : List Message :=
  firstMessages length
    (db.messages.range (messageKey queueUrn cursor) (messageKey queueUrn maxIndex))

def advanced (subId : String) (sub : SubscriptionState) (autoCommit : Bool)
    (messages : List Message) : OrderedMap String SubscriptionState :=
  match messages.getLast?, autoCommit with
  | some last, true => db.subs.insert subId {sub with cursor := last.index + 1}
  | _, _ => db.subs

variable (index : ℕ) (sub : SubscriptionState) (messages : List Message)

@[simp] theorem advanced_false : advanced db subId sub false messages = db.subs := by
  unfold advanced
  cases messages.getLast? <;> rfl

@[simp] theorem alone_advanceCursor : alone db (advanceCursor subId sub messages) =
      (.ok (),{db with subs := advanced db subId sub true messages}) := by
  unfold advanceCursor advanced
  cases messages.getLast? <;> rfl

theorem serve_fetch (length : ℕ) (autoCommit : Bool) : serve db (.fetch subId length autoCommit) =
      match db.subs.get? subId with
      | none => (.error (subscriptionNotFound subId),db)
      | some sub =>
        let messages := batch db sub.queueUrn sub.cursor length
        (.ok (.messages messages),{db with subs := advanced db subId sub autoCommit messages}) := by
  show alone db (program (.fetch subId length autoCommit)) = _
  rcases hsub : db.subs.get? subId with _ | sub
  · simp [handleFetchMessages,hsub]
  · cases autoCommit <;>
    simp [handleFetchMessages,hsub,batch]

theorem serve_read (cursor length : ℕ) : serve db (.read queueUrn cursor length) =
      (match db.queueMeta.get? queueUrn with
      | none => .error (queueNotFound queueUrn)
      | some _ => .ok (.messages (batch db queueUrn cursor length)),db) := by
  show alone db (program (.read queueUrn cursor length)) = _
  rcases hm : db.queueMeta.get? queueUrn with _ | queueMeta <;>
  simp [handleReadMessage,hm,batch]

theorem serve_commitAck : serve db (.commitAck subId index) =
      match db.subs.get? subId with
      | none => (.error (subscriptionNotFound subId),db)
      | some sub => (.ok .unit,{db with subs := db.subs.insert subId {sub with cursor := index + 1}}) := by
  show alone db (program (.commitAck subId index)) = _
  rcases hsub : db.subs.get? subId with _ | sub <;>
  simp [handleCommitAck,hsub]

theorem serve_seek (position : SubPosition) : serve db (.seek subId position) =
      match db.subs.get? subId with
      | none => (.error (subscriptionNotFound subId),db)
      | some sub =>
        match db.queueMeta.get? sub.queueUrn with
        | none => (.error (queueNotFound sub.queueUrn),db)
        | some queueMeta => (.ok .unit,
            {db with subs := db.subs.insert subId {sub with cursor := position.cursor queueMeta}}) := by
  show alone db (program (.seek subId position)) = _
  rcases hsub : db.subs.get? subId with _ | sub
  · simp [handleSeek,hsub]
  · rcases hm : db.queueMeta.get? sub.queueUrn with _ | queueMeta <;>
    simp [handleSeek,hsub,hm]

/-- The meta a deletion writes back: the messages that are left have the first index. -/
def settled (queueUrn : String) (index : ℕ) (queueMeta : QueueMeta) : QueueMeta :=
  if queueMeta.messageCount = 0 then {queueMeta with firstIndex := 0, lastIndex := 0}
  else
    match (db.messages.range (messageKey queueUrn index) (messageKey queueUrn maxIndex)).findSome?
        (fun entry => decodeIndexFromKey entry.1) with
    | some first => {queueMeta with firstIndex := first}
    | none => queueMeta

theorem alone_settleMeta (queueMeta : QueueMeta) : alone db (settleMeta queueUrn index queueMeta) =
      (.ok (),{db with
        queueMeta := db.queueMeta.insert queueUrn (settled db queueUrn index queueMeta)}) := by
  unfold settleMeta settled
  split
  · rfl
  · rcases hfirst : (db.messages.range (messageKey queueUrn index)
      (messageKey queueUrn maxIndex)).findSome? (fun entry => decodeIndexFromKey entry.1) with _ | first <;>
    simp [hfirst]

def entriesBefore (queueUrn : String) (index : ℕ) : List (Bytes × Message) :=
  db.messages.rangeTo (messageKey queueUrn 0) (messageKey queueUrn index)

def withoutBefore (queueUrn : String) (index : ℕ) : QueueDb :=
  {db with messages := db.messages.eraseAll ((entriesBefore db queueUrn index).map Prod.fst)}

theorem serve_deleteBefore : serve db (.deleteBefore queueUrn index) =
      match db.queues.get? queueUrn, db.queueMeta.get? queueUrn with
      | some _, some queueMeta =>
        let entries := entriesBefore db queueUrn index
        (.ok (.index entries.length),
          if entries.length = 0 then db
          else
            {withoutBefore db queueUrn index with
              queueMeta := db.queueMeta.insert queueUrn
                (settled (withoutBefore db queueUrn index) queueUrn index (queueMeta.without entries))})
      | _, _ => (.error (queueNotFound queueUrn),db) := by
  show alone db (program (.deleteBefore queueUrn index)) = _
  rcases hq : db.queues.get? queueUrn with _ | config
  · simp [handleDeleteMessageBefore,hq]
  · rcases hm : db.queueMeta.get? queueUrn with _ | queueMeta
    · simp [handleDeleteMessageBefore,removeBefore,hq,hm]
    · rcases hentries : db.messages.rangeTo (messageKey queueUrn 0) (messageKey queueUrn index)
        with _ | ⟨entry,entries⟩ <;>
      simp [handleDeleteMessageBefore,removeBefore,hq,hm,alone_settleMeta,withoutBefore,entriesBefore,
        hentries,OrderedMap.eraseAll]

end Calls
end BuckyOS.MsgQueue
