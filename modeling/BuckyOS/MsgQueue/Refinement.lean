import BuckyOS.MsgQueue.Contents

/-! The trees of the database represent the lists of messages: calls that come one after the other
return what they return on the lists. -/
namespace BuckyOS.MsgQueue
open Spec List OrderedMap Function

section Stored
/-- The tree of messages holds those of the queues, each under its key. -/
structure Stored (messages : OrderedMap Bytes Message) (queues : String → Option Queue) : Prop where
  nulFree : ∀ queueUrn q, queues queueUrn = some q → NulFree queueUrn
  bounded : ∀ queueUrn q, queues queueUrn = some q → q.next ≤ maxIndex
  mem : ∀ key m, messages.get? key = some m ↔
    ∃ queueUrn q, queues queueUrn = some q ∧ m ∈ q.messages ∧ key = messageKey queueUrn m.index

variable {messages : OrderedMap Bytes Message} {queues : String → Option Queue}
  {queueUrn : String} {q : Queue}

section
variable (h : Stored messages queues)
include h

theorem Stored.index_le (hq : queues queueUrn = some q) : ∀ m ∈ q.messages, m.index ≤ maxIndex:=
  fun m hm => (q.inside m hm).2.le.trans (h.bounded queueUrn q hq)

theorem Stored.holds (hq : queues queueUrn = some q) : Holds messages queueUrn q.messages := by
  intro key m hfront
  rw [h.mem]
  constructor
  · rintro ⟨queueUrn',q',hq',hm,rfl⟩
    by_cases hsame : queueUrn' = queueUrn
    · subst hsame
      rw [hq] at hq'
      exact ⟨Option.some.inj hq' ▸ hm,rfl⟩
    · have hapart := apart_of_nulFree (h.nulFree _ _ hq') (h.nulFree _ _ hq) hsame
      exact absurd hfront (fun hfront => hapart.not_both (messagePrefix_front _ _) hfront)
  · rintro ⟨hm,rfl⟩
    exact ⟨queueUrn,q,hq,hm,rfl⟩

theorem Stored.update (hname : NulFree queueUrn) {messages' : OrderedMap Bytes Message}
    {new : Option Queue} (hbounded : ∀ q, new = some q → q.next ≤ maxIndex)
    (hother : ∀ key, ¬ messagePrefix queueUrn <+: key → messages'.get? key = messages.get? key)
    (hown : Holds messages' queueUrn ((new.map Queue.messages).getD [])) :
    Stored messages' (Function.update queues queueUrn new) := by
  refine ⟨fun other q hq => ?_,fun other q hq => ?_,fun key m => ?_⟩
  · rw [update_apply] at hq
    split_ifs at hq with hsame
    · exact hsame ▸ hname
    · exact h.nulFree other q hq
  · rw [update_apply] at hq
    split_ifs at hq
    · exact hbounded q hq
    · exact h.bounded other q hq
  · by_cases hfront : messagePrefix queueUrn <+: key
    · rw [hown key m hfront]
      constructor
      · rintro ⟨hm,hkey⟩
        cases hnew : new with
        | none =>
          rw [hnew] at hm
          exact absurd hm not_mem_nil
        | some q =>
          rw [hnew] at hm
          exact ⟨queueUrn,q,by rw [update_self],hm,hkey⟩
      · rintro ⟨other,q,hq,hm,rfl⟩
        rw [update_apply] at hq
        split_ifs at hq with hsame
        · rw [hq]
          exact ⟨hm,by rw [hsame]⟩
        · have hapart := apart_of_nulFree (h.nulFree _ _ hq) hname hsame
          exact absurd hfront (fun hfront => hapart.not_both (messagePrefix_front _ _) hfront)
    · rw [hother key hfront,h.mem]
      constructor
      · rintro ⟨other,q,hq,hm,rfl⟩
        have hne : other ≠ queueUrn := fun hsame => hfront (hsame ▸ messagePrefix_front _ _)
        exact ⟨other,q,by rw [update_of_ne hne,hq],hm,rfl⟩
      · rintro ⟨other,q,hq,hm,rfl⟩
        have hne : other ≠ queueUrn := fun hsame => hfront (hsame ▸ messagePrefix_front _ _)
        rw [update_of_ne hne] at hq
        exact ⟨other,q,hq,hm,rfl⟩

theorem Stored.create (hname : NulFree queueUrn) (hnone : queues queueUrn = none) (config : QueueConfig) :
    Stored messages (Function.update queues queueUrn (some (.fresh config))) := by
  refine h.update hname (fun q hq => ?_) (fun _ _ => rfl) fun key m hfront => ?_
  · rw [← Option.some.inj hq]
    exact (by decide : 1 ≤ maxIndex)
  · refine iff_of_false (fun hget => ?_) (fun hm => not_mem_nil hm.1)
    obtain ⟨other,q,hq,-,rfl⟩ := (h.mem key m).mp hget
    have hne : other ≠ queueUrn := fun hsame => by rw [hsame,hnone] at hq; cases hq
    exact (apart_of_nulFree (h.nulFree _ _ hq) hname hne).not_both (messagePrefix_front _ _) hfront

theorem Stored.config (hq : queues queueUrn = some q) {new : Queue} (hnext : new.next = q.next)
    (hmessages : new.messages = q.messages) :
    Stored messages (Function.update queues queueUrn (some new)) := by
  have hholds : Holds messages queueUrn new.messages := hmessages ▸ h.holds hq
  refine h.update (h.nulFree _ _ hq) (fun r hr => ?_) (fun _ _ => rfl) hholds
  rw [← Option.some.inj hr,hnext]
  exact h.bounded _ _ hq

theorem Stored.post (hq : queues queueUrn = some q) (hnext : q.next < maxIndex) (m : Message) :
    Stored (messages.insert (messageKey queueUrn q.next) {m with index := q.next})
      (Function.update queues queueUrn (some (q.post m))) := by
  refine h.update (h.nulFree _ _ hq) (fun r hr => ?_) (fun key hfront => ?_) ?_
  · rw [← Option.some.inj hr]
    exact hnext
  · exact get?_insert_of_ne _ _ (fun hkey => hfront (hkey ▸ messagePrefix_front _ _))
  · let new : Message := {m with index := q.next}
    exact @Holds.insert messages queueUrn q.messages (h.holds hq)
      (fun n hn => (q.inside n hn).2.le.trans hnext.le) new hnext.le fun n hn => (q.inside n hn).2.ne

theorem Stored.dropBefore (hq : queues queueUrn = some q) (index : ℕ) :
    Stored (messages.eraseAll ((keyed queueUrn (q.before index)).map Prod.fst))
      (Function.update queues queueUrn (some (q.dropBefore index))) := by
  have hbounded := h.bounded _ _ hq
  refine h.update (h.nulFree _ _ hq) (fun r hr => ?_) (fun key hfront => ?_)
    ((h.holds hq).dropBefore hbounded index)
  · rw [← Option.some.inj hr]
    exact hbounded
  · rw [get?_eraseAll,if_neg]
    intro hmem
    obtain ⟨e,he,rfl⟩ := mem_map.mp hmem
    exact hfront ((mem_keyed.mp he).2 ▸ messagePrefix_front _ _)

theorem Stored.delete (hq : queues queueUrn = some q) :
    Stored (messages.eraseAll ((messages.withFront (messagePrefix queueUrn)).map Prod.fst))
      (Function.update queues queueUrn none) := by
  refine h.update (h.nulFree _ _ hq) (fun r hr => by cases hr) (fun key hfront => ?_) fun key m hfront => ?_
  · rw [get?_eraseAll,if_neg]
    intro hmem
    obtain ⟨e,he,rfl⟩ := mem_map.mp hmem
    exact hfront (mem_withFront.mp he).2
  · refine iff_of_false (fun hget => ?_) (fun hm => not_mem_nil hm.1)
    rw [get?_eraseAll] at hget
    split_ifs at hget with hmem
    exact hmem (mem_map.mpr ⟨(key,m),mem_withFront.mpr ⟨hget,hfront⟩,rfl⟩)

end

end Stored

section Cursors
/-- Two cursors show the same messages of a queue, now and later. -/
structure SameView (q : Queue) (cursor cursor' : ℕ) : Prop where
  bounded : cursor ≤ maxIndex
  same : cursor = cursor' ∨ (cursor ≤ q.next ∧ cursor' ≤ q.next ∧
    ∀ m ∈ q.messages, cursor ≤ m.index ↔ cursor' ≤ m.index)

variable {q : Queue} {cursor cursor' : ℕ}

theorem SameView.since_eq (h : SameView q cursor cursor') : q.since cursor = q.since cursor' := by
  rcases h.same with rfl | ⟨-,-,hsame⟩
  · rfl
  · exact filter_congr fun m hm => decide_eq_decide.mpr (hsame m hm)

theorem SameView.refl (h : cursor ≤ maxIndex) : SameView q cursor cursor := ⟨h,.inl rfl⟩

theorem SameView.post (h : SameView q cursor cursor') (m : Message) :
    SameView (q.post m) cursor cursor' := by
  refine ⟨h.bounded,h.same.imp id fun hsame => ⟨hsame.1.trans q.next.le_succ,
    hsame.2.1.trans q.next.le_succ,fun n hn => ?_⟩⟩
  rcases mem_append.mp hn with hn | hn
  · exact hsame.2.2 n hn
  · rw [mem_singleton.mp hn]
    exact iff_of_true hsame.1 hsame.2.1

theorem SameView.dropBefore (h : SameView q cursor cursor') (index : ℕ) :
    SameView (q.dropBefore index) cursor cursor' := ⟨h.bounded,h.same.imp id fun hsame =>
    ⟨hsame.1,hsame.2.1,fun m hm => hsame.2.2 m (mem_filter.mp hm).1⟩⟩

theorem sameView_cursor (hnext : q.next ≤ maxIndex) {position : SubPosition}
    (hposition : PositionFits position) : SameView q (position.cursor q.meta) (q.cursor position) := by
  have hlast := lastIndex_lt q
  cases position with
  | earliest =>
    have hfirst : q.firstIndex ≤ q.next := by
      unfold Queue.firstIndex
      cases hhead : q.messages.head? with
      | none => exact Nat.zero_le _
      | some m => exact (q.inside m (mem_of_head? hhead)).2.le
    show SameView q (if q.firstIndex = 0 then 1 else q.firstIndex) 1
    split_ifs with hzero
    · exact .refl (q.positive.trans_le hnext)
    · refine ⟨hfirst.trans hnext,.inr ⟨hfirst,q.positive,fun m hm => ?_⟩⟩
      exact iff_of_true (first_le hm) (q.inside m hm).1
  | latest =>
    refine ⟨(Nat.succ_le_of_lt hlast).trans hnext,.inr ⟨hlast,le_rfl,fun m hm => ?_⟩⟩
    have hle := le_lastIndex hm
    exact iff_of_false (by show ¬ q.lastIndex + 1 ≤ m.index; omega) (not_le.mpr (q.inside m hm).2)
  | atIndex index => exact .refl (le_of_lt hposition)

end Cursors

section Represents
inductive SubRepresents (queues : String → Option Queue) :
    Option SubscriptionState → Option SubscriptionState → Prop
  | absent : SubRepresents queues none none
  | present {queueUrn : String} {q : Queue} {cursor cursor' : ℕ} (hq : queues queueUrn = some q)
      (hview : SameView q cursor cursor') :
      SubRepresents queues (some ⟨queueUrn,cursor⟩) (some ⟨queueUrn,cursor'⟩)

structure Represents (db : QueueDb) (s : State) : Prop where
  config : ∀ queueUrn, db.queues.get? queueUrn = (s.queues queueUrn).map Queue.config
  queueMeta : ∀ queueUrn, db.queueMeta.get? queueUrn = (s.queues queueUrn).map Queue.meta
  stored : Stored db.messages s.queues
  subs : ∀ subId, SubRepresents s.queues (db.subs.get? subId) (s.subs subId)
  counters : ∀ key, (db.counters.get? key).getD 0 = s.counters key

variable {db : QueueDb} {s : State} {queueUrn : String} {q : Queue}

theorem represents_empty : Represents {} {} where
  config _ := rfl
  queueMeta _ := rfl
  stored := ⟨(fun _ _ h => by cases h),(fun _ _ h => by cases h),fun _ _ =>
    iff_of_false (by simp) (by rintro ⟨_,_,h,-⟩; cases h)⟩
  subs _ := .absent
  counters _ := rfl

theorem SubRepresents.mono {queues queues' : String → Option Queue}
    {sub sub' : Option SubscriptionState} (h : SubRepresents queues sub sub')
    (hmono : ∀ queueUrn q, queues queueUrn = some q → ∃ q', queues' queueUrn = some q' ∧
      ∀ cursor cursor', SameView q cursor cursor' → SameView q' cursor cursor') :
    SubRepresents queues' sub sub' := by
  cases h with
  | absent => exact .absent
  | present hq hview =>
    obtain ⟨q',hq',hsame⟩ := hmono _ _ hq
    exact .present hq' (hsame _ _ hview)

theorem Represents.setQueue (h : Represents db s) {db' : QueueDb} {new : Queue}
    (hconfig : ∀ other, db'.queues.get? other =
      if other = queueUrn then some new.config else db.queues.get? other)
    (hmeta : db'.queueMeta = db.queueMeta.insert queueUrn new.meta)
    (hstored : Stored db'.messages (Function.update s.queues queueUrn (some new)))
    (hsubs : db'.subs = db.subs) (hcounters : db'.counters = db.counters)
    (hview : ∀ q cursor cursor', s.queues queueUrn = some q → SameView q cursor cursor' →
      SameView new cursor cursor') : Represents db' (setQueue s queueUrn new) where
  config other := by
    show _ = (update s.queues queueUrn (some new) other).map Queue.config
    rw [hconfig,update_apply]
    split_ifs
    · rfl
    · exact h.config other
  queueMeta other := by
    show _ = (update s.queues queueUrn (some new) other).map Queue.meta
    rw [hmeta,get?_insert,update_apply]
    split_ifs
    · rfl
    · exact h.queueMeta other
  stored := hstored
  subs subId := by
    rw [hsubs]
    refine (h.subs subId).mono fun other q hq => ?_
    by_cases hsame : other = queueUrn
    · subst hsame
      exact ⟨new,update_self _ _ _,fun _ _ => hview q _ _ hq⟩
    · exact ⟨q,(update_of_ne hsame _ _).trans hq,fun _ _ => id⟩
  counters key := by
    rw [hcounters]
    exact h.counters key

theorem Represents.setCursor (h : Represents db s) (hq : s.queues queueUrn = some q) {cursor
    cursor' : ℕ} (hview : SameView q cursor cursor') (subId : String) :
    Represents {db with subs := db.subs.insert subId ⟨queueUrn,cursor⟩}
      (setCursor s subId queueUrn cursor') where
  config := h.config
  queueMeta := h.queueMeta
  stored := h.stored
  subs other := by
    show SubRepresents s.queues ((db.subs.insert subId ⟨queueUrn,cursor⟩).get? other)
      (update s.subs subId (some ⟨queueUrn,cursor'⟩) other)
    rw [get?_insert,update_apply]
    split_ifs
    · exact .present hq hview
    · exact h.subs other
  counters := h.counters

theorem Represents.named (h : Represents db s) (name : Option String) (front key : String) :
    (namedBy db name front key).1 = (Spec.named s name front key).1 ∧
    ∀ other, (((namedBy db name front key).2).get? other).getD 0 = (Spec.named s name front key).2 other := by
  cases name with
  | some name => exact ⟨rfl,h.counters⟩
  | none =>
    have hnext : (db.counters.get? key).getD 0 = s.counters key := h.counters key
    constructor
    · show front ++ toString ((db.counters.get? key).getD 0 + 1) = _
      rw [hnext]
      rfl
    · intro other
      show ((db.counters.insert key ((db.counters.get? key).getD 0 + 1)).get? other).getD 0 =
        update s.counters key (s.counters key + 1) other
      rw [hnext,get?_insert,update_apply]
      split_ifs
      · rfl
      · exact h.counters other

theorem Represents.withCounters (h : Represents db s) {counters : OrderedMap String ℕ}
    {counters' : String → ℕ} (hcounters : ∀ key, (counters.get? key).getD 0 = counters' key) :
    Represents {db with counters := counters} {s with counters := counters'} :=
  ⟨h.config,h.queueMeta,h.stored,h.subs,hcounters⟩

theorem Represents.batch_eq (h : Represents db s) (hq : s.queues queueUrn = some q) {cursor
    length : ℕ} (hcursor : cursor ≤ maxIndex) (hlength : 1 ≤ length) :
    batch db queueUrn cursor length = (q.since cursor).take length := by
  rw [batch,(h.stored.holds hq).range_eq q.sorted (h.stored.index_le hq) hcursor,firstMessages,
    max_eq_left hlength,map_take,keyed_values]
  rfl

end Represents

section Simulation
variable {db : QueueDb} {s : State}

theorem Represents.sub_cases (h : Represents db s) (subId : String) :
    (db.subs.get? subId = none ∧ s.subs subId = none) ∨
      ∃ queueUrn q cursor cursor', db.subs.get? subId = some ⟨queueUrn,cursor⟩ ∧
        s.subs subId = some ⟨queueUrn,cursor'⟩ ∧ s.queues queueUrn = some q ∧
        SameView q cursor cursor' := by
  have hsub := h.subs subId
  generalize db.subs.get? subId = sub at hsub
  generalize s.subs subId = sub' at hsub
  cases hsub with
  | absent => exact .inl ⟨rfl,rfl⟩
  | present hq hview => exact .inr ⟨_,_,_,_,rfl,rfl,hq,hview⟩

theorem Represents.queue_cases (h : Represents db s) (queueUrn : String) :
    (s.queues queueUrn = none ∧ db.queues.get? queueUrn = none ∧ db.queueMeta.get? queueUrn = none) ∨
      ∃ q, s.queues queueUrn = some q ∧ db.queues.get? queueUrn = some q.config ∧
        db.queueMeta.get? queueUrn = some q.meta := by
  have hconfig := h.config queueUrn
  have hmeta := h.queueMeta queueUrn
  cases hq : s.queues queueUrn with
  | none =>
    rw [hq] at hconfig hmeta
    exact .inl ⟨rfl,hconfig,hmeta⟩
  | some q =>
    rw [hq] at hconfig hmeta
    exact .inr ⟨q,rfl,hconfig,hmeta⟩

theorem get?_queues_self {queueUrn : String} {config : QueueConfig}
    (h : db.queues.get? queueUrn = some config) (other : String) :
    db.queues.get? other = if other = queueUrn then some config else db.queues.get? other := by
  split_ifs with hsame
  · rw [hsame,h]
  · rfl

/-- The trees answer a call as the lists do, and go on representing them. -/
def Simulates (db : QueueDb) (s : State) (call : Call) : Prop :=
  (serve db call).1 = (step s call).1 ∧ Represents (serve db call).2 (step s call).2

theorem simulates_create (h : Represents db s) {name : Option String} {appid appOwner : String}
    {config : QueueConfig} (hfits : Fits s (.create name appid appOwner config)) :
    Simulates db s (.create name appid appOwner config) := by
  obtain ⟨hname,hcounters⟩ := h.named name "queue-" "queue_id"
  unfold Simulates
  rw [serve_create]
  simp only [step,hname]
  set queueUrn := calcQueueUrn appid appOwner (Spec.named s name "queue-" "queue_id").1
  rcases h.queue_cases queueUrn with ⟨hq,hconfig,-⟩ | ⟨q,hq,hconfig,-⟩
  · simp only [hconfig,hq]
    have hset : Represents
        {db with
          queues := db.queues.insert queueUrn config
          queueMeta := db.queueMeta.insert queueUrn emptyMeta}
        (setQueue s queueUrn (.fresh config)) := by
      refine h.setQueue (fun other => get?_insert _ _ _ _) rfl
        (h.stored.create hfits hq config) rfl rfl fun q _ _ hq' => ?_
      rw [hq] at hq'
      cases hq'
    exact ⟨trivial,hset.withCounters hcounters⟩
  · simp only [hconfig,hq]
    exact ⟨trivial,h.withCounters hcounters⟩

variable {queueUrn subId : String}

theorem mem_subsOf {subs : OrderedMap String SubscriptionState} :
    subId ∈ (subs.entries.filter (fun entry => entry.2.queueUrn = queueUrn)).map Prod.fst ↔
      ∃ sub, subs.get? subId = some sub ∧ sub.queueUrn = queueUrn := by
  simp only [mem_map,mem_filter,decide_eq_true_eq]
  constructor
  · rintro ⟨⟨subId,sub⟩,⟨hentry,hurn⟩,rfl⟩
    exact ⟨sub,(mem_entries_iff _ _ _).mp hentry,hurn⟩
  · rintro ⟨sub,hsub,hurn⟩
    exact ⟨(subId,sub),⟨(mem_entries_iff _ _ _).mpr hsub,hurn⟩,rfl⟩

section
variable (h : Represents db s)
include h

theorem simulates_delete (queueUrn : String) : Simulates db s (.delete queueUrn) := by
  unfold Simulates
  rw [serve_delete]
  rcases h.queue_cases queueUrn with ⟨hq,hconfig,-⟩ | ⟨q,hq,hconfig,-⟩
  · simp only [step,hconfig,hq]
    exact ⟨trivial,h⟩
  · simp only [step,hconfig,hq]
    refine ⟨trivial,fun other => ?_,fun other => ?_,h.stored.delete hq,fun subId => ?_,h.counters⟩
    · dsimp only
      rw [get?_erase,update_apply]
      split_ifs
      · rfl
      · exact h.config other
    · dsimp only
      rw [get?_erase,update_apply]
      split_ifs
      · rfl
      · exact h.queueMeta other
    · dsimp only
      rw [get?_eraseAll]
      simp only [mem_subsOf]
      rcases h.sub_cases subId with ⟨hsub,hsub'⟩ | ⟨other,q,cursor,cursor',hsub,hsub',hq,hview⟩
      · rw [hsub,hsub',ite_self]
        exact .absent
      · by_cases hsame : other = queueUrn
        · simpa [hsub,hsub',hsame,Option.filter] using SubRepresents.absent
        · have hq' : update s.queues queueUrn none other = some q := (update_of_ne hsame _ _).trans hq
          simpa [hsub,hsub',hsame,Option.filter] using SubRepresents.present hq' hview

theorem simulates_stats (queueUrn : String) : Simulates db s (.stats queueUrn) := by
  unfold Simulates
  rw [serve_stats]
  rcases h.queue_cases queueUrn with ⟨hq,-,hmeta⟩ | ⟨q,hq,-,hmeta⟩
  · simp only [step,hmeta,hq]
    exact ⟨trivial,h⟩
  · simp only [step,hmeta,hq]
    exact ⟨rfl,h⟩

theorem simulates_update (queueUrn : String) (config : QueueConfig) :
    Simulates db s (.update queueUrn config) := by
  unfold Simulates
  rw [serve_update]
  rcases h.queue_cases queueUrn with ⟨hq,hconfig,-⟩ | ⟨q,hq,hconfig,hmeta⟩
  · simp only [step,hconfig,hq]
    exact ⟨trivial,h⟩
  · simp only [step,hconfig,hq]
    refine ⟨trivial,h.setQueue (fun other => get?_insert _ _ _ _)
      (insert_eq_self _ hmeta).symm (h.stored.config hq rfl rfl) rfl rfl ?_⟩
    intro q' cursor cursor' hq' hview
    obtain rfl := Option.some.inj (hq.symm.trans hq')
    exact ⟨hview.bounded,hview.same⟩

theorem simulates_post {message : Message} {now : ℕ} (hfits : Fits s (.post queueUrn message now)) :
    Simulates db s (.post queueUrn message now) := by
  unfold Simulates
  rw [serve_post]
  rcases h.queue_cases queueUrn with ⟨hq,hconfig,hmeta⟩ | ⟨q,hq,hconfig,hmeta⟩
  · simp only [step,hconfig,hmeta,hq]
    exact ⟨trivial,h⟩
  · simp only [step,hconfig,hmeta,hq,postTransaction]
    refine ⟨rfl,h.setQueue (get?_queues_self hconfig) ?_ (h.stored.post hq (hfits q hq) _) rfl rfl ?_⟩
    · rw [meta_post]
      rfl
    · intro q' cursor cursor' hq' hview
      obtain rfl := Option.some.inj (hq.symm.trans hq')
      exact hview.post _

variable {position : SubPosition} {length index : ℕ}

theorem simulates_subscribe {subId : Option String} (hfits : Fits s (.subscribe queueUrn subId position)) :
    Simulates db s (.subscribe queueUrn subId position) := by
  obtain ⟨hname,hcounters⟩ := h.named subId "sub-" "sub_id"
  unfold Simulates
  rw [serve_subscribe]
  rcases h.queue_cases queueUrn with ⟨hq,-,hmeta⟩ | ⟨q,hq,-,hmeta⟩
  · simp only [step,hmeta,hq]
    exact ⟨trivial,h⟩
  · simp only [step,hmeta,hq,hname]
    rcases h.sub_cases (Spec.named s subId "sub-" "sub_id").1 with
      ⟨hsub,hsub'⟩ | ⟨_,_,_,_,hsub,hsub',-,-⟩
    · simp only [hsub,hsub']
      have hview := sameView_cursor (h.stored.bounded _ _ hq) hfits
      exact ⟨trivial,(h.setCursor hq hview _).withCounters hcounters⟩
    · simp only [hsub,hsub']
      exact ⟨trivial,h.withCounters hcounters⟩

theorem simulates_unsubscribe (subId : String) : Simulates db s (.unsubscribe subId) := by
  unfold Simulates
  rw [serve_unsubscribe]
  rcases h.sub_cases subId with ⟨hsub,hsub'⟩ | ⟨_,_,_,_,hsub,hsub',-,-⟩
  · simp only [step,hsub,hsub']
    exact ⟨trivial,h⟩
  · simp only [step,hsub,hsub']
    refine ⟨trivial,h.config,h.queueMeta,h.stored,fun other => ?_,h.counters⟩
    dsimp only
    rw [get?_erase,update_apply]
    split_ifs
    · exact .absent
    · exact h.subs other

theorem simulates_fetch {autoCommit : Bool} (hfits : Fits s (.fetch subId length autoCommit)) :
    Simulates db s (.fetch subId length autoCommit) := by
  unfold Simulates
  rw [serve_fetch]
  rcases h.sub_cases subId with ⟨hsub,hsub'⟩ | ⟨queueUrn,q,cursor,cursor',hsub,hsub',hq,hview⟩
  · simp only [step,hsub,hsub']
    exact ⟨trivial,h⟩
  · have hbatch := h.batch_eq hq hview.bounded hfits
    rw [hview.since_eq] at hbatch
    simp only [step,hsub,hsub',hbatch,messagesSince,hq,Option.map_some,Option.getD_some]
    unfold advanced
    cases hlast : ((q.since cursor').take length).getLast? with
    | none => exact ⟨rfl,h⟩
    | some last =>
      have hmem : last ∈ q.messages := (mem_filter.mp (mem_of_mem_take (mem_of_getLast? hlast))).1
      have hbound : last.index + 1 ≤ maxIndex :=
        (Nat.succ_le_of_lt (q.inside last hmem).2).trans (h.stored.bounded _ _ hq)
      cases autoCommit with
      | false => exact ⟨rfl,h⟩
      | true => exact ⟨rfl,h.setCursor hq (.refl hbound) subId⟩

theorem simulates_read {cursor : ℕ} (hfits : Fits s (.read queueUrn cursor length)) :
    Simulates db s (.read queueUrn cursor length) := by
  unfold Simulates
  rw [serve_read]
  rcases h.queue_cases queueUrn with ⟨hq,-,hmeta⟩ | ⟨q,hq,-,hmeta⟩
  · simp only [step,hmeta,hq]
    exact ⟨trivial,h⟩
  · simp only [step,hmeta,hq,h.batch_eq hq hfits.1.le hfits.2]
    exact ⟨trivial,h⟩

theorem simulates_commitAck (hfits : Fits s (.commitAck subId index)) :
    Simulates db s (.commitAck subId index) := by
  unfold Simulates
  rw [serve_commitAck]
  rcases h.sub_cases subId with ⟨hsub,hsub'⟩ | ⟨queueUrn,q,cursor,cursor',hsub,hsub',hq,-⟩
  · simp only [step,hsub,hsub']
    exact ⟨trivial,h⟩
  · simp only [step,hsub,hsub']
    exact ⟨trivial,h.setCursor hq (.refl (Nat.succ_le_of_lt hfits)) subId⟩

theorem simulates_seek (hfits : Fits s (.seek subId position)) : Simulates db s (.seek subId position) := by
  unfold Simulates
  rw [serve_seek]
  rcases h.sub_cases subId with ⟨hsub,hsub'⟩ | ⟨queueUrn,q,cursor,cursor',hsub,hsub',hq,-⟩
  · simp only [step,hsub,hsub']
    exact ⟨trivial,h⟩
  · have hmeta := h.queueMeta queueUrn
    rw [hq] at hmeta
    simp only [step,hsub,hsub',hmeta,hq,Option.map_some]
    exact ⟨trivial,h.setCursor hq (sameView_cursor (h.stored.bounded _ _ hq) hfits) subId⟩

theorem simulates_deleteBefore (hfits : Fits s (.deleteBefore queueUrn index)) :
    Simulates db s (.deleteBefore queueUrn index) := by
  unfold Simulates
  rw [serve_deleteBefore]
  rcases h.queue_cases queueUrn with ⟨hq,hconfig,hmeta⟩ | ⟨q,hq,hconfig,hmeta⟩
  · simp only [step,hconfig,hmeta,hq]
    exact ⟨trivial,h⟩
  · have hentries : entriesBefore db queueUrn index = keyed queueUrn (q.before index) :=
      (h.stored.holds hq).rangeTo_eq q.sorted (h.stored.index_le hq) (le_of_lt hfits)
    have hstored : Stored (withoutBefore db queueUrn index).messages
        (update s.queues queueUrn (some (q.dropBefore index))) := by
      rw [withoutBefore,hentries]
      exact h.stored.dropBefore hq index
    have hlength : (keyed queueUrn (q.before index)).length = (q.before index).length := length_map _
    have hview : ∀ q' cursor cursor', s.queues queueUrn = some q' → SameView q' cursor cursor' →
        SameView (q.dropBefore index) cursor cursor' := by
      intro q' cursor cursor' hq' hview
      obtain rfl := Option.some.inj (hq.symm.trans hq')
      exact hview.dropBefore index
    simp only [step,hconfig,hmeta,hq,hentries,hlength]
    refine ⟨trivial,?_⟩
    split_ifs with hnone
    · have hsame : (q.dropBefore index).messages = q.messages := by
        have hsplit := before_append_since q index
        rwa [length_eq_zero_iff.mp hnone,nil_append] at hsplit
      have hmetaSame : (q.dropBefore index).meta = q.meta := by
        simp only [Queue.meta,Queue.firstIndex,Queue.lastIndex,hsame]
        rfl
      exact h.setQueue (get?_queues_self hconfig) (by rw [hmetaSame,insert_eq_self _ hmeta])
        (h.stored.config hq rfl hsame) rfl rfl hview
    · refine h.setQueue (get?_queues_self hconfig) ?_ hstored rfl rfl hview
      have hholds := hstored.holds (update_self queueUrn _ s.queues)
      rw [← settled_eq (le_of_lt hfits) (h.stored.bounded _ _ hq) hholds]

theorem simulates {call : Call} (hfits : Fits s call) : Simulates db s call := by
  cases call with
  | create name appid appOwner config => exact simulates_create h hfits
  | delete queueUrn => exact simulates_delete h queueUrn
  | stats queueUrn => exact simulates_stats h queueUrn
  | update queueUrn config => exact simulates_update h queueUrn config
  | post queueUrn message now => exact simulates_post h hfits
  | subscribe queueUrn subId position => exact simulates_subscribe h hfits
  | unsubscribe subId => exact simulates_unsubscribe h subId
  | fetch subId length autoCommit => exact simulates_fetch h hfits
  | read queueUrn cursor length => exact simulates_read h hfits
  | commitAck subId index => exact simulates_commitAck h hfits
  | seek subId position => exact simulates_seek h hfits
  | deleteBefore queueUrn index => exact simulates_deleteBefore h hfits

end

/-- Calls that come one after the other, from an empty database on, return what they return on
the lists. -/
theorem sequential_refinement {calls : List Call} (hcalls : Machine.Along step Fits {} calls) :
    (Machine.run serve {} calls).1 = (Machine.run step {} calls).1 := by
  have hstep : ∀ db s call, Represents db s → Fits s call →
      (serve db call).1 = (step s call).1 ∧ Represents (serve db call).2 (step s call).2 :=
    fun _ _ _ h hfits => simulates h hfits
  exact (Machine.run_simulates_along hstep represents_empty hcalls).1

/-- A queue with a subscriber: what is fetched is not fetched again, and the counter goes on after
a deletion. -/
theorem refinement_of_subscriber :
    let calls : List Call := [.create (some "/q") "app" "owner" {},.post "/q" ⟨0,7,[1],[]⟩ 9,
      .subscribe "/q" (some "s") .earliest,.fetch "s" 5 true,.deleteBefore "/q" 2,
      .post "/q" ⟨0,0,[],[]⟩ 9,.fetch "s" 5 true,.stats "/q"]
    (Machine.run serve {} calls).1 = (Machine.run step {} calls).1 ∧
    (Machine.run serve {} calls).1 = [.ok (.name "/q"),.ok (.index 1),.ok (.name "s"),
      .ok (.messages [⟨1,7,[1],[]⟩]),.ok (.index 1),.ok (.index 2),.ok (.messages [⟨2,9,[],[]⟩]),
      .ok (.stats ⟨1,2,2,0⟩)] := by
  have hname : NulFree (calcQueueUrn "app" "owner" "/q") := by decide
  refine ⟨sequential_refinement ⟨hname,?_,trivial,Nat.one_le_of_lt (by decide : 0 < 5),
    (by decide : 2 < maxIndex),?_,Nat.one_le_of_lt (by decide : 0 < 5),trivial,trivial⟩,
    by decide +kernel⟩
  all_goals
    intro q hq
    obtain rfl := Option.some.inj hq
    decide

end Simulation
end BuckyOS.MsgQueue
