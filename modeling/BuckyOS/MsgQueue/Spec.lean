import BuckyOS.MsgQueue.Keys

/-! What the message queues are for: a queue is a list of messages with a counter, a subscription is
a cursor, and every call is one step. -/
namespace BuckyOS.MsgQueue
namespace Spec
/-- A queue: its messages in the order of their indexes and the index of the next one. -/
structure Queue where
  config : QueueConfig
  next : ℕ
  messages : List Message
  positive : 0 < next
  sorted : messages.Pairwise (fun m n => m.index < n.index)
  inside : ∀ m ∈ messages, 0 < m.index ∧ m.index < next

namespace Queue
variable (q : Queue) (config : QueueConfig)

def fresh : Queue where
  config := config
  next := 1
  messages := []
  positive := Nat.one_pos
  sorted := .nil
  inside := by simp

def post (m : Message) : Queue where
  config := q.config
  next := q.next + 1
  messages := q.messages ++ [{m with index := q.next}]
  positive := q.next.succ_pos
  sorted := by
    refine List.pairwise_append.mpr ⟨q.sorted,List.pairwise_singleton _ _,fun n hn m' hm => ?_⟩
    rw [List.mem_singleton.mp hm]
    exact (q.inside n hn).2
  inside := by
    intro n hn
    rcases List.mem_append.mp hn with hn | hn
    · have hold := q.inside n hn
      omega
    · rw [List.mem_singleton.mp hn]
      exact ⟨q.positive,q.next.lt_succ_self⟩

def since (cursor : ℕ) : List Message :=
  q.messages.filter (fun m => cursor ≤ m.index)

def before (index : ℕ) : List Message :=
  q.messages.filter (fun m => m.index < index)

/-- The queue without the messages below an index. Its counter stays. -/
def dropBefore (index : ℕ) : Queue where
  config := q.config
  next := q.next
  messages := q.since index
  positive := q.positive
  sorted := q.sorted.filter _
  inside m hm := q.inside m (List.mem_filter.mp hm).1

def withConfig : Queue := {q with config := config}

def firstIndex : ℕ := (q.messages.head?.map Message.index).getD 0

def lastIndex : ℕ := (q.messages.getLast?.map Message.index).getD 0

def stats : QueueStats :=
  ⟨q.messages.length,q.firstIndex,q.lastIndex,payloadBytes q.messages⟩

/-- The cursor of a position: the earliest one is before every message, the latest one after. -/
def cursor : SubPosition → ℕ
  | .earliest => 1
  | .latest => q.next
  | .atIndex index => index

end Queue

structure State where
  queues : String → Option Queue := fun _ => none
  subs : String → Option SubscriptionState := fun _ => none
  counters : String → ℕ := fun _ => 0

variable (s : State) (queueUrn : String)

def named (name : Option String) (front key : String) : String × (String → ℕ) :=
  match name with
  | some name => (name,s.counters)
  | none => (front ++ toString (s.counters key + 1),
      Function.update s.counters key (s.counters key + 1))

def messagesSince (cursor : ℕ) : List Message :=
  ((s.queues queueUrn).map (fun q => q.since cursor)).getD []

def setQueue (q : Queue) : State :=
  {s with queues := Function.update s.queues queueUrn (some q)}

def setCursor (subId queueUrn : String) (cursor : ℕ) : State :=
  {s with subs := Function.update s.subs subId (some ⟨queueUrn,cursor⟩)}

def step : Call → Except String Reply × State
  | .create name appid appOwner config =>
    let made := named s name "queue-" "queue_id"
    let queueUrn := calcQueueUrn appid appOwner made.1
    match s.queues queueUrn with
    | some _ => (.error ("Queue already exists: " ++ queueUrn),{s with counters := made.2})
    | none => (.ok (.name queueUrn),{setQueue s queueUrn (.fresh config) with counters := made.2})
  | .delete queueUrn =>
    match s.queues queueUrn with
    | none => (.error (queueNotFound queueUrn),s)
    | some _ => (.ok .unit,
        {s with
          queues := Function.update s.queues queueUrn none
          subs := fun subId => (s.subs subId).filter (fun sub => sub.queueUrn ≠ queueUrn)})
  | .stats queueUrn =>
    match s.queues queueUrn with
    | none => (.error (queueNotFound queueUrn),s)
    | some q => (.ok (.stats q.stats),s)
  | .update queueUrn config =>
    match s.queues queueUrn with
    | none => (.error (queueNotFound queueUrn),s)
    | some q => (.ok .unit,setQueue s queueUrn (q.withConfig config))
  | .post queueUrn message now =>
    match s.queues queueUrn with
    | none => (.error (queueNotFound queueUrn),s)
    | some q =>
      let message := if message.createdAt = 0 then {message with createdAt := now} else message
      (.ok (.index q.next),setQueue s queueUrn (q.post message))
  | .subscribe queueUrn subId position =>
    match s.queues queueUrn with
    | none => (.error (queueNotFound queueUrn),s)
    | some q =>
      let made := named s subId "sub-" "sub_id"
      match s.subs made.1 with
      | some _ => (.error ("Subscription already exists: " ++ made.1),{s with counters := made.2})
      | none => (.ok (.name made.1),
          {setCursor s made.1 queueUrn (q.cursor position) with counters := made.2})
  | .unsubscribe subId =>
    match s.subs subId with
    | none => (.error (subscriptionNotFound subId),s)
    | some _ => (.ok .unit,{s with subs := Function.update s.subs subId none})
  | .fetch subId length autoCommit =>
    match s.subs subId with
    | none => (.error (subscriptionNotFound subId),s)
    | some sub =>
      let messages := (messagesSince s sub.queueUrn sub.cursor).take length
      match messages.getLast?, autoCommit with
      | some last, true => (.ok (.messages messages),setCursor s subId sub.queueUrn (last.index + 1))
      | _, _ => (.ok (.messages messages),s)
  | .read queueUrn cursor length =>
    match s.queues queueUrn with
    | none => (.error (queueNotFound queueUrn),s)
    | some q => (.ok (.messages ((q.since cursor).take length)),s)
  | .commitAck subId index =>
    match s.subs subId with
    | none => (.error (subscriptionNotFound subId),s)
    | some sub => (.ok .unit,setCursor s subId sub.queueUrn (index + 1))
  | .seek subId position =>
    match s.subs subId with
    | none => (.error (subscriptionNotFound subId),s)
    | some sub =>
      match s.queues sub.queueUrn with
      | none => (.error (queueNotFound sub.queueUrn),s)
      | some q => (.ok .unit,setCursor s subId sub.queueUrn (q.cursor position))
  | .deleteBefore queueUrn index =>
    match s.queues queueUrn with
    | none => (.error (queueNotFound queueUrn),s)
    | some q => (.ok (.index (q.before index).length),setQueue s queueUrn (q.dropBefore index))

def PositionFits : SubPosition → Prop
  | .atIndex index => index < maxIndex
  | _ => True

/-- The calls with names without NUL, lengths of at least one and indexes below the largest. -/
def Fits : Call → Prop
  | .create name appid appOwner _ =>
    NulFree (calcQueueUrn appid appOwner (named s name "queue-" "queue_id").1)
  | .post queueUrn _ _ => ∀ q, s.queues queueUrn = some q → q.next < maxIndex
  | .subscribe _ _ position => PositionFits position
  | .fetch _ length _ => 1 ≤ length
  | .read _ cursor length => cursor < maxIndex ∧ 1 ≤ length
  | .commitAck _ index => index < maxIndex
  | .seek _ position => PositionFits position
  | .deleteBefore _ index => index < maxIndex
  | _ => True

end Spec
end BuckyOS.MsgQueue
