import BuckyOS.MsgQueue.Alone
import BuckyOS.MsgQueue.Keys

/-! The calls on one queue and the data of another. All queues keep their messages in one tree, so
they are apart exactly when no name goes on after the other and a zero byte. -/
namespace BuckyOS.MsgQueue
open OrderedMap Option

section Terms
def OnQueue (db : QueueDb) (a : String) : Call → Prop
  | .create name appid appOwner _ =>
    calcQueueUrn appid appOwner (namedBy db name "queue-" "queue_id").1 = a
  | .delete queueUrn | .stats queueUrn | .update queueUrn _ | .post queueUrn _ _
  | .subscribe queueUrn _ _ => queueUrn = a
  | .unsubscribe subId | .fetch subId _ _ => ∃ sub, db.subs.get? subId = some sub ∧ sub.queueUrn = a
  | .read queueUrn _ _ => queueUrn = a
  | .commitAck subId _ | .seek subId _ => ∃ sub, db.subs.get? subId = some sub ∧ sub.queueUrn = a
  | .deleteBefore queueUrn _ => queueUrn = a

def SameSubs (b : String) (subs subs' : OrderedMap String SubscriptionState) : Prop :=
  ∀ subId sub, sub.queueUrn = b → (subs'.get? subId = some sub ↔ subs.get? subId = some sub)

/-- The data of a queue are as they were. -/
structure Untouched (b : String) (db db' : QueueDb) : Prop where
  config : db'.queues.get? b = db.queues.get? b
  queueMeta : db'.queueMeta.get? b = db.queueMeta.get? b
  messages : ∀ i, db'.messages.get? (messageKey b i) = db.messages.get? (messageKey b i)
  subs : SameSubs b db.subs db'.subs

/-- Two databases that differ at most in the config, the meta and the messages of a queue and in the
cursors of its subscriptions. -/
structure DifferOnly (b : String) (db db' : QueueDb) : Prop where
  queues : ∀ queueUrn, queueUrn ≠ b → db'.queues.get? queueUrn = db.queues.get? queueUrn
  queueMeta : ∀ queueUrn, queueUrn ≠ b → db'.queueMeta.get? queueUrn = db.queueMeta.get? queueUrn
  messages : ∀ key, (∀ i, key ≠ messageKey b i) → db'.messages.get? key = db.messages.get? key
  subs : ∀ subId, db'.subs.get? subId = db.subs.get? subId ∨
    ∃ sub sub', db.subs.get? subId = some sub ∧ db'.subs.get? subId = some sub' ∧
      sub.queueUrn = b ∧ sub'.queueUrn = b
  counters : db'.counters = db.counters

def Reached (db : QueueDb) : Prop := ∃ calls, db = (Machine.run serve {} calls).2

/-- The calls on one queue leave the data of another as they are, and what they return does not
depend on them. -/
def Isolated (a b : String) : Prop :=
  ∀ db call, Reached db → OnQueue db a call →
    Untouched b db (serve db call).2 ∧
    ∀ db', DifferOnly b db db' → (serve db' call).1 = (serve db call).1

def Accepted (queueUrn : String) : Prop :=
  ∃ appid appOwner name, calcQueueUrn appid appOwner name = queueUrn

end Terms

section Frame
variable {a b : String} {db : QueueDb}

theorem SameSubs.refl (b : String) (subs : OrderedMap String SubscriptionState) :
    SameSubs b subs subs := fun _ _ _ => Iff.rfl

theorem Untouched.refl (b : String) (db : QueueDb) : Untouched b db db :=
  ⟨rfl,rfl,fun _ => rfl,.refl b db.subs⟩

variable {subs : OrderedMap String SubscriptionState} {subId : String}

theorem sameSubs_insert {new : SubscriptionState} (hnew : new.queueUrn ≠ b)
    (hold : ∀ old, subs.get? subId = some old → old.queueUrn ≠ b) :
    SameSubs b subs (subs.insert subId new) := by
  intro subId' sub hsub
  rw [get?_insert]
  split_ifs with hid
  · subst hid
    constructor
    · intro h
      rw [← some.inj h] at hsub
      exact absurd hsub hnew
    · exact fun h => absurd hsub (hold sub h)
  · exact Iff.rfl

theorem sameSubs_eraseAll {subIds : List String}
    (hold : ∀ subId ∈ subIds, ∀ old, subs.get? subId = some old → old.queueUrn ≠ b) :
    SameSubs b subs (subs.eraseAll subIds) := by
  intro subId sub hsub
  rw [OrderedMap.get?_eraseAll]
  split_ifs with hmem
  · exact iff_of_false (by simp) (fun h => hold subId hmem sub h hsub)
  · exact Iff.rfl

theorem Apart.get?_eraseAll (h : Apart a b) {keys : List Bytes}
    (hkeys : ∀ key ∈ keys, messagePrefix a <+: key) (messages : OrderedMap Bytes Message) (i : ℕ) :
    (messages.eraseAll keys).get? (messageKey b i) = messages.get? (messageKey b i) := by
  rw [OrderedMap.get?_eraseAll,if_neg]
  exact fun hmem => h.not_both (hkeys _ hmem) (messagePrefix_front b i)

theorem messagePrefix_entriesBefore (db : QueueDb) (queueUrn : String) (index : ℕ) :
    ∀ key ∈ (entriesBefore db queueUrn index).map Prod.fst, messagePrefix queueUrn <+: key := by
  intro key hkey
  obtain ⟨e,he,rfl⟩ := List.mem_map.mp hkey
  obtain ⟨-,hlow,hhigh⟩ := mem_rangeTo.mp he
  exact messagePrefix_of_between hlow hhigh.le

theorem untouched_post (h : Apart a b) (message : Message) :
    Untouched b db (postTransaction db a message).2 := by
  unfold postTransaction
  cases db.queueMeta.get? a with
  | none => exact .refl b db
  | some queueMeta =>
    exact ⟨rfl,get?_insert_of_ne _ _ h.symm.ne,
      fun i => get?_insert_of_ne _ _ (h.symm.messageKey_ne i _),.refl b db.subs⟩

theorem untouched_advanced (h : a ≠ b) {sub : SubscriptionState}
    (hsub : db.subs.get? subId = some sub) (ha : sub.queueUrn = a) (autoCommit : Bool)
    (messages : List Message) : SameSubs b db.subs (advanced db subId sub autoCommit messages) := by
  unfold advanced
  split
  · refine sameSubs_insert (ha ▸ h) fun old hold => ?_
    rw [hsub] at hold
    exact some.inj hold ▸ ha ▸ h
  · exact .refl b db.subs

theorem untouched_of_apart (h : Apart a b) {call : Call} (hcall : OnQueue db a call) :
    Untouched b db (serve db call).2 := by
  have hne := h.ne
  cases call with
  | create name appid appOwner config =>
    rw [serve_create]
    dsimp only
    rw [show calcQueueUrn appid appOwner (namedBy db name "queue-" "queue_id").1 = a from hcall]
    cases db.queues.get? a with
    | some _ => exact ⟨rfl,rfl,fun _ => rfl,.refl b db.subs⟩
    | none =>
      exact ⟨get?_insert_of_ne _ _ hne.symm,get?_insert_of_ne _ _ hne.symm,fun _ => rfl,.refl b db.subs⟩
  | delete queueUrn =>
    obtain rfl : queueUrn = a := hcall
    rw [serve_delete]
    cases db.queues.get? queueUrn with
    | none => exact .refl b db
    | some config =>
      refine ⟨get?_erase_of_ne _ hne.symm,get?_erase_of_ne _ hne.symm,
        h.get?_eraseAll (fun key hkey => ?_) db.messages,sameSubs_eraseAll fun subId hmem old hold => ?_⟩
      · obtain ⟨e,he,rfl⟩ := List.mem_map.mp hkey
        exact (mem_withFront.mp he).2
      · obtain ⟨⟨subId',sub⟩,hentry,rfl⟩ := List.mem_map.mp hmem
        obtain ⟨hentry,hurn⟩ := List.mem_filter.mp hentry
        have hget := (mem_entries_iff db.subs subId' sub).mp hentry
        rw [hold] at hget
        rw [some.inj hget,of_decide_eq_true hurn]
        exact hne
  | stats queueUrn =>
    rw [serve_stats]
    exact .refl b db
  | update queueUrn config =>
    obtain rfl : queueUrn = a := hcall
    rw [serve_update]
    cases db.queues.get? queueUrn with
    | none => exact .refl b db
    | some _ => exact ⟨get?_insert_of_ne _ _ hne.symm,rfl,fun _ => rfl,.refl b db.subs⟩
  | post queueUrn message now =>
    obtain rfl : queueUrn = a := hcall
    rw [serve_post]
    split
    · exact untouched_post h _
    · exact .refl b db
  | subscribe queueUrn subId position =>
    obtain rfl : queueUrn = a := hcall
    rw [serve_subscribe]
    dsimp only
    cases db.queueMeta.get? queueUrn with
    | none => exact .refl b db
    | some queueMeta =>
      cases hsub : db.subs.get? (namedBy db subId "sub-" "sub_id").1 with
      | some _ => exact ⟨rfl,rfl,fun _ => rfl,.refl b db.subs⟩
      | none =>
        refine ⟨rfl,rfl,fun _ => rfl,sameSubs_insert hne fun old hold => ?_⟩
        rw [hsub] at hold
        cases hold
  | unsubscribe subId =>
    obtain ⟨sub,hsub,rfl⟩ := hcall
    rw [serve_unsubscribe]
    simp only [hsub]
    have hsubs : SameSubs b db.subs (db.subs.eraseAll [subId]) := by
      refine sameSubs_eraseAll fun subId' hmem old hold => ?_
      rw [List.mem_singleton.mp hmem,hsub] at hold
      exact some.inj hold ▸ hne
    exact ⟨rfl,rfl,fun _ => rfl,hsubs⟩
  | fetch subId length autoCommit =>
    obtain ⟨sub,hsub,ha⟩ := hcall
    rw [serve_fetch]
    simp only [hsub]
    exact ⟨rfl,rfl,fun _ => rfl,untouched_advanced hne hsub ha _ _⟩
  | read queueUrn cursor length =>
    rw [serve_read]
    exact .refl b db
  | commitAck subId index =>
    obtain ⟨sub,hsub,rfl⟩ := hcall
    rw [serve_commitAck]
    simp only [hsub]
    refine ⟨rfl,rfl,fun _ => rfl,sameSubs_insert hne fun old hold => ?_⟩
    rw [hsub] at hold
    exact some.inj hold ▸ hne
  | seek subId position =>
    obtain ⟨sub,hsub,rfl⟩ := hcall
    rw [serve_seek]
    simp only [hsub]
    cases db.queueMeta.get? sub.queueUrn with
    | none => exact .refl b db
    | some queueMeta =>
      refine ⟨rfl,rfl,fun _ => rfl,sameSubs_insert hne fun old hold => ?_⟩
      rw [hsub] at hold
      exact some.inj hold ▸ hne
  | deleteBefore queueUrn index =>
    obtain rfl : queueUrn = a := hcall
    rw [serve_deleteBefore]
    split
    · dsimp only
      split
      · exact .refl b db
      · exact ⟨rfl,get?_insert_of_ne _ _ hne.symm,
          h.get?_eraseAll (messagePrefix_entriesBefore db queueUrn index) db.messages,.refl b db.subs⟩
    · exact .refl b db

end Frame

section Blindness
variable {a b : String} {db db' : QueueDb}

section
variable (hdiffer : DifferOnly b db db')
include hdiffer

theorem DifferOnly.message (h : Apart a b) {key : Bytes} (hkey : messagePrefix a <+: key) :
    db'.messages.get? key = db.messages.get? key:=
  hdiffer.messages key fun i heq => h.not_both hkey (heq ▸ messagePrefix_front b i)

theorem DifferOnly.batch_eq (h : Apart a b) (cursor length : ℕ) :
    batch db' a cursor length = batch db a cursor length := by
  unfold batch
  rw [range_congr fun _ hlow hhigh => hdiffer.message h (messagePrefix_of_between hlow hhigh)]

theorem DifferOnly.entriesBefore_eq (h : Apart a b) (index : ℕ) :
    entriesBefore db' a index = entriesBefore db a index := rangeTo_congr fun _ hlow hhigh =>
    hdiffer.message h (messagePrefix_of_between hlow hhigh.le)

theorem DifferOnly.sub_eq (hne : a ≠ b) {subId : String} {sub : SubscriptionState}
    (hsub : db.subs.get? subId = some sub) (ha : sub.queueUrn = a) : db'.subs.get? subId = some sub := by
  rcases hdiffer.subs subId with heq | ⟨sub',-,hsub',-,hb,-⟩
  · rw [heq,hsub]
  · rw [hsub] at hsub'
    rw [← some.inj hsub'] at hb
    exact absurd (ha.symm.trans hb) hne

theorem DifferOnly.named_eq (name : Option String) (front key : String) :
    namedBy db' name front key = namedBy db name front key := by
  unfold namedBy
  rw [hdiffer.counters]

end

theorem blind_of_apart (h : Apart a b) {call : Call} (hcall : OnQueue db a call)
    (hdiffer : DifferOnly b db db') : (serve db' call).1 = (serve db call).1 := by
  have hne := h.ne
  cases call with
  | create name appid appOwner config =>
    rw [serve_create,serve_create]
    dsimp only
    rw [hdiffer.named_eq,
      show calcQueueUrn appid appOwner (namedBy db name "queue-" "queue_id").1 = a from hcall,
      hdiffer.queues a hne]
    cases db.queues.get? a <;> rfl
  | delete queueUrn =>
    obtain rfl : queueUrn = a := hcall
    rw [serve_delete,serve_delete,hdiffer.queues queueUrn hne]
    cases db.queues.get? queueUrn <;> rfl
  | stats queueUrn =>
    obtain rfl : queueUrn = a := hcall
    rw [serve_stats,serve_stats,hdiffer.queueMeta queueUrn hne]
  | update queueUrn config =>
    obtain rfl : queueUrn = a := hcall
    rw [serve_update,serve_update,hdiffer.queues queueUrn hne]
    cases db.queues.get? queueUrn <;> rfl
  | post queueUrn message now =>
    obtain rfl : queueUrn = a := hcall
    rw [serve_post,serve_post,hdiffer.queues queueUrn hne,hdiffer.queueMeta queueUrn hne]
    cases db.queues.get? queueUrn <;> cases db.queueMeta.get? queueUrn <;> rfl
  | subscribe queueUrn subId position =>
    obtain rfl : queueUrn = a := hcall
    rw [serve_subscribe,serve_subscribe]
    dsimp only
    rw [hdiffer.named_eq,hdiffer.queueMeta queueUrn hne]
    cases db.queueMeta.get? queueUrn with
    | none => rfl
    | some queueMeta =>
      rcases hdiffer.subs (namedBy db subId "sub-" "sub_id").1 with heq | ⟨sub,sub',hsub,hsub',-,-⟩
      · rw [heq]
        cases db.subs.get? (namedBy db subId "sub-" "sub_id").1 <;> rfl
      · simp only [hsub,hsub']
  | unsubscribe subId =>
    obtain ⟨sub,hsub,ha⟩ := hcall
    rw [serve_unsubscribe,serve_unsubscribe]
    simp only [hsub,hdiffer.sub_eq hne hsub ha]
  | fetch subId length autoCommit =>
    obtain ⟨sub,hsub,rfl⟩ := hcall
    rw [serve_fetch,serve_fetch]
    simp only [hsub,hdiffer.sub_eq hne hsub rfl,hdiffer.batch_eq h]
  | read queueUrn cursor length =>
    obtain rfl : queueUrn = a := hcall
    rw [serve_read,serve_read,hdiffer.queueMeta queueUrn hne,hdiffer.batch_eq h]
  | commitAck subId index =>
    obtain ⟨sub,hsub,ha⟩ := hcall
    rw [serve_commitAck,serve_commitAck]
    simp only [hsub,hdiffer.sub_eq hne hsub ha]
  | seek subId position =>
    obtain ⟨sub,hsub,rfl⟩ := hcall
    rw [serve_seek,serve_seek]
    simp only [hsub,hdiffer.sub_eq hne hsub rfl,hdiffer.queueMeta sub.queueUrn hne]
    cases db.queueMeta.get? sub.queueUrn <;> rfl
  | deleteBefore queueUrn index =>
    obtain rfl : queueUrn = a := hcall
    rw [serve_deleteBefore,serve_deleteBefore,hdiffer.queues queueUrn hne,
      hdiffer.queueMeta queueUrn hne,hdiffer.entriesBefore_eq h]
    cases db.queues.get? queueUrn <;> cases db.queueMeta.get? queueUrn <;> rfl

theorem isolated_of_apart (h : Apart a b) : Isolated a b :=
  fun _ _ _ hcall => ⟨untouched_of_apart h hcall,fun _ hdiffer => blind_of_apart h hcall hdiffer⟩

end Blindness

section Interference
variable {a b : String}

theorem exists_reached_with_message (ha : Accepted a) (hb : Accepted b) (hne : a ≠ b) :
    ∃ db, Reached db ∧ db.queues.get? a = some {} ∧ db.messages.get? (messageKey b 1) = some ⟨1,1,[],[]⟩ := by
  obtain ⟨appid,appOwner,name,rfl⟩ := ha
  obtain ⟨appid',appOwner',name',rfl⟩ := hb
  refine ⟨_,⟨[.create (some name) appid appOwner {},.create (some name') appid' appOwner' {},
    .post (calcQueueUrn appid' appOwner' name') ⟨0,1,[],[]⟩ 1],rfl⟩,?_⟩
  simp [Machine.run_cons,serve_create,serve_post,namedBy,postTransaction,stamped,emptyMeta,
    get?_insert,hne,hne.symm]

/-- Deleting a queue deletes the messages of those whose names go on after its own and a zero
byte. -/
theorem not_isolated_of_front (ha : Accepted a) (hb : Accepted b) (hne : a ≠ b)
    (h : messagePrefix a <+: Text.utf8 b) : ¬ Isolated a b := by
  intro hisolated
  obtain ⟨db,hreached,hconfig,hmessage⟩ := exists_reached_with_message ha hb hne
  have hkept := (hisolated db (.delete a) hreached rfl).1.messages 1
  rw [serve_delete] at hkept
  simp only [hconfig] at hkept
  have hfront : messagePrefix a <+: messageKey b 1 :=
    (h.trans (List.prefix_append _ _)).trans (messagePrefix_front b 1)
  rw [OrderedMap.get?_eraseAll,if_pos,hmessage] at hkept
  · cases hkept
  · exact List.mem_map.mpr ⟨(messageKey b 1,_),mem_withFront.mpr ⟨hmessage,hfront⟩,rfl⟩

/-- Two queues do not interfere exactly when the name of neither goes on after the other's and a
zero byte. -/
theorem isolated_iff (ha : Accepted a) (hb : Accepted b) (hne : a ≠ b) :
    (Isolated a b ∧ Isolated b a) ↔
      ¬ messagePrefix a <+: Text.utf8 b ∧ ¬ messagePrefix b <+: Text.utf8 a := by
  constructor
  · exact fun h => ⟨fun hfront => not_isolated_of_front ha hb hne hfront h.1,
      fun hfront => not_isolated_of_front hb ha hne.symm hfront h.2⟩
  · intro h
    have hapart := (apart_iff hne).mpr h
    exact ⟨isolated_of_apart hapart,isolated_of_apart hapart.symm⟩

theorem isolated_plain_names :
    Isolated "/a" "/b" ∧ Isolated "/b" "/a" :=
  (isolated_iff ⟨"","","/a",by decide⟩ ⟨"","","/b",by decide⟩ (by decide)).mpr (by decide)

/-- A name that goes on after another one and a NUL: its message is gone once the other queue is
deleted, and its statistics still count it. -/
theorem delete_reaches_other_queue :
    let urn := "/q"
    let inner := "/q\x00x"
    let created := (Machine.run serve {} [.create (some urn) "app" "owner" {},
      .create (some inner) "app" "owner" {},.post inner ⟨0,1,[],[]⟩ 1]).2
    (Machine.run serve {} [.create (some urn) "app" "owner" {},
      .create (some inner) "app" "owner" {}]).1 = [.ok (.name urn),.ok (.name inner)] ∧
    (serve created (.read inner 1 10)).1 = .ok (.messages [⟨1,1,[],[]⟩]) ∧
    (Machine.run serve created [.delete urn,.read inner 1 10,.stats inner]).1 =
      [.ok .unit,.ok (.messages []),.ok (.stats ⟨1,1,1,0⟩)] ∧
    ¬ Isolated urn inner := by
  refine ⟨by decide +kernel,by decide +kernel,by decide +kernel,?_⟩
  exact not_isolated_of_front ⟨"","","/q",by decide⟩ ⟨"","","/q\x00x",by decide⟩ (by decide)
    (by decide)

end Interference
end BuckyOS.MsgQueue
