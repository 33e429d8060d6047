import BuckyOS.Lib.Lists
import BuckyOS.TaskManager.Fencing

/-! The events of a task or of a tree as a client follows them, page after page, while calls go on
storing new ones. -/
namespace BuckyOS.TaskManager
open TaskStore List Option

/-- What a client follows: the events of one task, or those of a tree. -/
inductive Topic where
  | task (taskId : TaskId)
  | tree (rootId : TaskId)
deriving DecidableEq

namespace Topic
def covers : Topic → TaskEvent → Bool
  | task taskId, event => event.taskId = taskId
  | tree rootId, event => event.rootId = rootId

def anchor : Topic → TaskId
  | task taskId => taskId
  | tree rootId => rootId

def request (topic : Topic) (received : List TaskEvent) (limit : Option ℕ) : TaskRequest :=
  let after := received.getLast?.map TaskEvent.eventId
  match topic with
  | task taskId => .listTaskEvents (some taskId) none after limit
  | tree rootId => .listTaskEvents none (some rootId) after limit

end Topic

/-- The server with a client that follows a topic. -/
structure Watch where
  server : TaskServer
  received : List TaskEvent := []

inductive WatchInput where
  | call (input : TaskInput)
  | poll (limit : Option ℕ)
deriving DecidableEq

namespace Watch
variable (env : TaskEnv) (ctx : RequestContext) (topic : Topic)

def poll (watch : Watch) (limit : Option ℕ) : Watch :=
  match (handle env ctx watch.server.store (fun _ => ⟨0,"",0,0⟩)
    (topic.request watch.received limit)).1 with
  | .ok (.events events _) => {watch with received := watch.received ++ events}
  | _ => watch

def step (watch : Watch) : WatchInput → Unit × Watch
  | .call input => ((),{watch with server := (watch.server.step env input).2})
  | .poll limit => ((),watch.poll env ctx topic limit)

def after (watch : Watch) (inputs : List WatchInput) : Watch :=
  (Machine.run (step env ctx topic) watch inputs).2

/-- An event of the topic that a step stores is drawn after those of the topic stored before. -/
def InOrder (watch : Watch) : WatchInput → Prop
  | .call input => ∀ event,
      (watch.server.step env input).2.store.events = watch.server.store.events ++ [event] →
      topic.covers event = true → ∀ old ∈ watch.server.store.events, topic.covers old = true →
        old.draw.Before event.draw
  | .poll _ => True

end Watch

section Logs
variable {env : TaskEnv} {s s' : TaskStore} {stamp : Stamp}

/-- The events of each task stand in the order of its revisions, none above the one it has. -/
structure TaskStore.Logged (s : TaskStore) : Prop where
  ordered : s.events.Pairwise (fun a b => a.taskId = b.taskId → a.taskRevision < b.taskRevision)
  known : ∀ event ∈ s.events, ∃ row, s.tasks.get? event.taskId = some row ∧
    event.taskRevision ≤ row.revision

theorem TaskStore.Logged.append (hs : s.Logged) (hlater : Later s s') {event : TaskEvent}
    (hevents : s'.events = s.events ++ [event])
    (hold : ∀ row, s.tasks.get? event.taskId = some row → row.revision < event.taskRevision)
    (hnew : ∃ row, s'.tasks.get? event.taskId = some row ∧ event.taskRevision ≤ row.revision) :
    s'.Logged where
  ordered := by
    rw [hevents,pairwise_append]
    refine ⟨hs.ordered,pairwise_singleton _ _,?_⟩
    intro a ha b hb hsame
    rw [mem_singleton.mp hb] at hsame ⊢
    obtain ⟨row,hrow,hle⟩ := hs.known a ha
    rw [hsame] at hrow
    have hlt := hold row hrow
    omega
  known := by
    intro earlier hearlier
    rw [hevents,mem_append,mem_singleton] at hearlier
    rcases hearlier with hearlier | rfl
    · obtain ⟨row,hrow,hle⟩ := hs.known earlier hearlier
      obtain ⟨row',hrow',-,hge,-⟩ := hlater hrow
      exact ⟨row',hrow',hle.trans hge⟩
    · exact hnew

theorem TaskStore.Rewrite.logged {old new : Task} {event : TaskEvent}
    (h : Rewrite s s' old new event) (hs : s.Logged) : s'.Logged := by
  refine hs.append h.later h.events ?_ ?_
  · intro row hrow
    rw [h.taskId,h.found] at hrow
    rw [← some.inj hrow,h.taskRevision]
    exact Nat.lt_succ_self _
  · exact ⟨new,by rw [h.taskId,h.stored],by rw [h.taskRevision,h.revision]⟩

theorem TaskStore.Creation.logged {args : CreateTaskArgs} {rootId : TaskId}
    (h : Creation env stamp args s s' rootId) (hs : s.Logged) : s'.Logged := by
  refine hs.append h.later (by rw [h.eq]) ?_ ?_
  · intro row hrow
    exact absurd ((OrderedMap.mem_keys_iff _ _).mpr ⟨row,hrow⟩) h.newId
  · exact ⟨newTask env stamp rootId args,(h.get? _).trans (if_pos rfl),le_rfl⟩

theorem Written.events {flight : Flight} (h : Written env flight stamp s s') :
    s'.events = s.events ∨ ∃ event, s'.events = s.events ++ [event] := by
  cases h with
  | change _ _ _ _ rewrite | touch _ _ rewrite => exact Or.inr ⟨_,rewrite.events⟩
  | create _ creation => exact Or.inr ⟨_,by rw [creation.eq]⟩
  | aside _ _ events => exact Or.inl events

theorem Written.logged {flight : Flight} (h : Written env flight stamp s s') (hs : s.Logged) :
    s'.Logged := by
  cases h with
  | change _ _ _ _ rewrite | touch _ _ rewrite => exact rewrite.logged hs
  | create _ creation => exact creation.logged hs
  | aside tasks _ events =>
    refine ⟨by rw [events]; exact hs.ordered,?_⟩
    intro event hevent
    rw [events] at hevent
    rw [tasks]
    exact hs.known event hevent

/-- The events of each task, in the order they were stored, carry all its revisions. -/
def TaskStore.Recorded (s : TaskStore) : Prop :=
  ∀ id, (s.events.filter (·.taskId = id)).map TaskEvent.taskRevision =
    range' 1 ((s.tasks.get? id).elim 0 Task.revision)

theorem Written.recorded {flight : Flight} (h : Written env flight stamp s s') (hs : s.Recorded) :
    s'.Recorded := by
  intro id
  cases h with
  | change _ _ _ _ rewrite | touch _ _ rewrite =>
    rw [rewrite.events,filter_append,map_append,hs,rewrite.get?]
    split
    · rename_i hid
      simp [hid,rewrite.found,rewrite.taskId,rewrite.taskRevision,rewrite.revision,range'_1_concat,
        Nat.add_comm 1]
    · rename_i hid
      simp [rewrite.taskId,Ne.symm hid]
  | create _ creation =>
    rw [creation.get?,creation.eq,filter_append,map_append,hs]
    split
    · rename_i hid
      have hnone : s.tasks.get? stamp.newId = none :=
        eq_none_iff_forall_not_mem.mpr fun _ hrow => (creation.get?_of_some hrow).1 rfl
      simp [creationEvent,newTask,hid,hnone]
    · rename_i hid
      simp [creationEvent,Ne.symm hid]
  | aside tasks _ events => rw [events,tasks,hs]

/-- However calls interleave, the log holds the event of every revision a task has had, once and in
order, and none of a task that does not exist. -/
theorem history_complete (schemas : List TaskSchemaDefinition) (inputs : List TaskInput) :
    (TaskServer.after env {store := {schemas := schemas}} inputs).store.Recorded := by
  have hempty : TaskServer.Sprung env {store := {schemas := schemas}} :=
    TaskServer.sprung_of_idle ⟨fun h => absurd h (by simp),fun h => absurd h (by simp)⟩ rfl
  refine (Machine.run_invariant (I := fun server => TaskServer.Sprung env server ∧
    server.store.Recorded) ?_ ⟨hempty,fun _ => rfl⟩ inputs).2
  rintro server input ⟨hsprung,hrecorded⟩
  refine ⟨TaskServer.step_sprung hsprung input,?_⟩
  rcases TaskServer.step_written hsprung input with hsame | ⟨_,_,_,_,_,_,hwritten⟩
  · rwa [hsame]
  · exact hwritten.recorded hrecorded

end Logs

section Polls
variable {env : TaskEnv} {ctx : RequestContext} {topic : Topic} {watch : Watch}

def Topic.events (topic : Topic) (s : TaskStore) : List TaskEvent := s.events.filter topic.covers

/-- The client has the first events of its topic, whose ids increase. -/
structure Watch.Follows (env : TaskEnv) (topic : Topic) (watch : Watch) : Prop where
  sprung : watch.server.Sprung env
  logged : watch.server.store.Logged
  sorted : (topic.events watch.server.store).Pairwise (fun a b => a.eventId < b.eventId)
  received : watch.received <+: topic.events watch.server.store

variable {received rest : List TaskEvent} {seen : Task × TaskPermission}

theorem Watch.poll_cases (watch : Watch) (limit : Option ℕ) : watch.poll env ctx topic limit =
      match loadVisible env watch.server.store ctx topic.anchor with
      | .ok _ => {watch with received := watch.received ++
          (((topic.events watch.server.store).filter (fun event =>
            ∀ after ∈ watch.received.getLast?.map TaskEvent.eventId, after < event.eventId)).insertionSort
              (fun a b => a.eventId ≤ b.eventId)).take (clampLimit (limit.getD 100))}
      | .error _ => watch := by
  cases hvisible : loadVisible env watch.server.store ctx topic.anchor <;> cases topic <;>
    rw [Topic.anchor] at hvisible <;>
    simp only [Watch.poll,Topic.request,handle,prepare,handleListTaskEvents,some_or,
      none_or,hvisible,bind,Except.bind,listEvents,pure,Except.pure,carryOut] <;> rfl

theorem Watch.Follows.poll_eq (h : watch.Follows env topic)
    (hrest : topic.events watch.server.store = watch.received ++ rest)
    (hvisible : loadVisible env watch.server.store ctx topic.anchor = .ok seen) (limit : Option ℕ) :
    watch.poll env ctx topic limit =
      {watch with received := watch.received ++ rest.take (clampLimit (limit.getD 100))} := by
  have hsorted := h.sorted
  rw [hrest] at hsorted
  rw [Watch.poll_cases,hvisible]
  dsimp only
  rw [hrest,filter_after_last hsorted,List.Pairwise.insertionSort_eq]
  exact (pairwise_append.mp hsorted).2.1.imp le_of_lt

theorem Watch.poll_server (watch : Watch) (limit : Option ℕ) :
    (watch.poll env ctx topic limit).server = watch.server := by
  rw [Watch.poll]
  split <;> rfl

theorem Watch.Follows.poll (h : watch.Follows env topic) (limit : Option ℕ) :
    (watch.poll env ctx topic limit).Follows env topic := by
  obtain ⟨rest,hrest⟩ := h.received
  have hserver := @Watch.poll_server env ctx topic watch limit
  refine ⟨by rw [hserver]; exact h.sprung,by rw [hserver]; exact h.logged,
    by rw [hserver]; exact h.sorted,?_⟩
  rw [hserver]
  cases hvisible : loadVisible env watch.server.store ctx topic.anchor with
  | ok seen =>
    rw [h.poll_eq hrest.symm hvisible,← hrest]
    exact prefix_append_right_inj _ |>.mpr ( take_prefix _ _)
  | error error =>
    rw [Watch.poll_cases,hvisible]
    exact h.received

/-- A step that stores its event in order leaves the client with a beginning of the topic. -/
theorem Watch.Follows.step (h : watch.Follows env topic) {input : WatchInput}
    (horder : watch.InOrder env topic input) : (watch.step env ctx topic input).2.Follows env topic := by
  cases input with
  | poll limit => exact h.poll limit
  | call input =>
    have hsprung := TaskServer.step_sprung h.sprung input
    rcases TaskServer.step_written h.sprung input with hsame | ⟨_,_,_,_,_,_,hwritten⟩
    · exact ⟨hsprung,hsame ▸ h.logged,hsame ▸ h.sorted,hsame ▸ h.received⟩
    · have hlogged := hwritten.logged h.logged
      rcases hwritten.events with hevents | ⟨event,hevents⟩
      · have htopic : topic.events (watch.server.step env input).2.store =
            topic.events watch.server.store := by rw [Topic.events,hevents,Topic.events]
        exact ⟨hsprung,hlogged,htopic ▸ h.sorted,htopic ▸ h.received⟩
      · have htopic : topic.events (watch.server.step env input).2.store =
            topic.events watch.server.store ++ [event].filter topic.covers := by
          rw [Topic.events,hevents,filter_append,Topic.events]
        refine ⟨hsprung,hlogged,?_,?_⟩
        · change (topic.events (watch.server.step env input).2.store).Pairwise _
          rw [htopic,pairwise_append]
          refine ⟨h.sorted,(pairwise_singleton _ event).filter _,?_⟩
          intro old hold new hnew
          obtain ⟨hold,hcovered⟩ := mem_filter.mp hold
          obtain ⟨hnew,hcovers⟩ := mem_filter.mp hnew
          obtain rfl := mem_singleton.mp hnew
          exact newEventId_lt (horder new hevents hcovers old hold hcovered)
        · change watch.received <+: topic.events (watch.server.step env input).2.store
          rw [htopic]
          exact h.received.trans (prefix_append _ _)

theorem Watch.Follows.poll_all (h : watch.Follows env topic)
    (hrest : topic.events watch.server.store = watch.received ++ rest)
    (hvisible : loadVisible env watch.server.store ctx topic.anchor = .ok seen) (limit : Option ℕ)
    {n : ℕ} (hn : rest.length ≤ n) : (watch.after env ctx topic (List.replicate n (.poll limit))).received =
      topic.events watch.server.store := by
  induction n generalizing watch rest with
  | zero =>
    rw [eq_nil_of_length_eq_zero (Nat.le_zero.mp hn),append_nil] at hrest
    exact hrest.symm
  | succ n ih =>
    have hpoll := h.poll_eq hrest hvisible limit
    have hnext : (watch.poll env ctx topic limit).Follows env topic := h.poll limit
    have hserver := @Watch.poll_server env ctx topic watch limit
    have hone : 1 ≤ clampLimit (limit.getD 100) := le_max_left _ _
    have hleft : topic.events (watch.poll env ctx topic limit).server.store =
        (watch.poll env ctx topic limit).received ++ rest.drop (clampLimit (limit.getD 100)) := by
      rw [hserver,hrest,hpoll,append_assoc,take_append_drop]
    rw [replicate_succ,Watch.after,Machine.run_cons]
    rw [← hserver] at hvisible ⊢
    exact ih hnext hleft hvisible (by rw [length_drop]; omega)

/-- In every run whose events are stored in the order they are drawn in, a client has received the first events
of its topic, each once and those of a task in the order of its revisions, and gets all others when
it goes on asking. -/
theorem event_polling_complete (env : TaskEnv) (ctx : RequestContext) (topic : Topic)
    (server : TaskServer) (hkeyed : server.store.Keyed) (hlogged : server.store.Logged)
    (hsorted : (topic.events server.store).Pairwise (fun a b => a.eventId < b.eventId))
    (hidle : server.flights = []) (inputs : List WatchInput)
    (horder : Machine.Along (Watch.step env ctx topic) (Watch.InOrder env topic) {server} inputs) :
    let watch := Watch.after env ctx topic {server} inputs
    ∃ rest, topic.events watch.server.store = watch.received ++ rest ∧
      watch.received.Pairwise (fun a b =>
        a.eventId < b.eventId ∧ (a.taskId = b.taskId → a.taskRevision < b.taskRevision)) ∧
      ∀ seen, loadVisible env watch.server.store ctx topic.anchor = .ok seen → ∀ limit n,
        rest.length ≤ n → (watch.after env ctx topic (replicate n (.poll limit))).received =
          topic.events watch.server.store := by
  intro watch
  have hstart : Watch.Follows env topic {server} :=
    ⟨TaskServer.sprung_of_idle hkeyed hidle,hlogged,hsorted, nil_prefix⟩
  have hfollows : watch.Follows env topic :=
    Machine.run_invariant_along (I := Watch.Follows env topic)
      (fun _ _ hs horder => hs.step horder) hstart horder
  obtain ⟨rest,hrest⟩ := hfollows.received
  refine ⟨rest,hrest.symm,?_,fun seen hvisible limit n hn =>
    hfollows.poll_all hrest.symm hvisible limit hn⟩
  have hordered : (topic.events watch.server.store).Pairwise (fun a b =>
      a.eventId < b.eventId ∧ (a.taskId = b.taskId → a.taskRevision < b.taskRevision)) :=
    hfollows.sorted.and (hfollows.logged.ordered.filter _)
  rw [← hrest] at hordered
  exact (pairwise_append.mp hordered).1

end Polls

section Samples
instance (env : TaskEnv) (topic : Topic) (watch : Watch) : DecidablePred (watch.InOrder env topic)
  | .poll _ => inferInstanceAs (Decidable True)
  | .call input =>
    decidable_of_iff (∀ event ∈ (watch.server.step env input).2.store.events.getLast?,
      (watch.server.step env input).2.store.events = watch.server.store.events ++ [event] →
      topic.covers event = true → ∀ old ∈ watch.server.store.events, topic.covers old = true →
        old.draw.Before event.draw) (by
      constructor
      · intro h event hevents
        exact h event (by rw [hevents]; simp) hevents
      · exact fun h event _ => h event)

/-- The caller creates the task t, polls, reports its start at a clock reading, and polls again. -/
def createPollStart (now : ℕ) : List WatchInput :=
  (createForSelf.take 1).map .call ++
    [.call (.advance 0 ⟨5,"t",0,7⟩),.poll none,
      .call (.start appCaller (.reportStarted (reportAt 1)) now),
      .call (.advance 0 ⟨now,"",1,3⟩),.poll none]

def receivedRevisions (inputs : List WatchInput) : List ℕ :=
  (Watch.after plainEnv appCaller (.task "t") {server := freshServer} inputs).received.map
    TaskEvent.taskRevision

theorem logged_freshServer : freshServer.store.Logged := ⟨List.Pairwise.nil,fun _ h => by cases h⟩

theorem event_polling_complete_started :
    Machine.Along (Watch.step plainEnv appCaller (.task "t")) (Watch.InOrder plainEnv (.task "t"))
      {server := freshServer} (createPollStart 5) ∧
    (Watch.after plainEnv appCaller (.task "t") {server := freshServer}
      (createPollStart 5)).received <+: (Topic.task "t").events (Watch.after plainEnv appCaller
        (.task "t") {server := freshServer} (createPollStart 5)).server.store := by
  have horder : Machine.Along (Watch.step plainEnv appCaller (.task "t"))
      (Watch.InOrder plainEnv (.task "t")) {server := freshServer} (createPollStart 5) := by
    decide +kernel
  obtain ⟨rest,hrest,-⟩ := event_polling_complete plainEnv appCaller (.task "t") freshServer
    sound_freshServer.keyed logged_freshServer List.Pairwise.nil rfl (createPollStart 5) horder
  exact ⟨horder,rest,hrest.symm⟩

/-- When the clock steps back between two writes, the second event never reaches a client that has
the first one, and a client that asks later gets the two in the wrong order. -/
theorem clock_step_back_loses_event :
    receivedRevisions (createPollStart 4 ++ [.poll none]) = [1] ∧
      receivedRevisions ((createPollStart 4).eraseIdx 2) = [2,1] := by
  decide +kernel

end Samples
end BuckyOS.TaskManager
