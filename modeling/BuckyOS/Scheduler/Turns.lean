import BuckyOS.Scheduler.Pass

/-! Turns of the placement pass: each spec takes one, and what a spec finds at its turn is what
the specs before it have left. -/
namespace BuckyOS.Scheduler
open NodeScheduler List Except

def placements (actions : List SchedulerAction) : List ReplicaInstance :=
  actions.filterMap fun
    | .instanceReplica i => some i
    | _ => none

def SchedulerAction.specId? : SchedulerAction → Option String
  | .changeNodeStatus _ _ => none
  | .changeServiceStatus specId _ => some specId
  | .instanceReplica i | .updateInstance _ i => some i.specId
  | .removeInstance specId _ _ => some specId
  | .updateServiceInfo _ _ => none

theorem placements_append (xs ys : List SchedulerAction) :
    placements (xs ++ ys) = placements xs ++ placements ys := filterMap_append

theorem placements_instanceReplica (is : List ReplicaInstance) :
    placements (is.map .instanceReplica) = is := by
  induction is with
  | nil => rfl
  | cons i is ih => exact congrArg (i :: ·) ih

theorem mem_placements {actions : List SchedulerAction} {i : ReplicaInstance} :
    i ∈ placements actions ↔ .instanceReplica i ∈ actions := by
  rw [placements,mem_filterMap]
  constructor
  · rintro ⟨a,ha,hi⟩
    cases a <;> simp only [reduceCtorEq,Option.some.injEq] at hi
    rwa [← hi]
  · exact fun h => ⟨_,h,rfl⟩

namespace SpecLoop
/-- A pass whose ledger lists registered nodes, each once, and whose instance ids are distinct. -/
structure Sound (l : SpecLoop) : Prop where
  distinct : l.scheduler.DistinctIds
  registered : ∀ n ∈ l.shadowNodes, n.id ∈ l.scheduler.nodes.items.map NodeItem.id
  nodup : (l.shadowNodes.map NodeItem.id).Nodup

/-- What a turn of a spec leaves alone, and what it says in its actions. -/
structure Turn (l l' : SpecLoop) (specId : String) (new : List SchedulerAction) : Prop where
  frame : Frame l.scheduler l'.scheduler specId
  actions : l'.actions = l.actions ++ new
  about : ∀ a ∈ new, a.specId? = some specId
  charged : Charged ((placements new).map ReplicaInstance.nodeId) l.shadowNodes l'.shadowNodes

variable {l l' : SpecLoop} {specId : String} {new : List SchedulerAction}

theorem Turn.trans {l'' : SpecLoop} {new' : List SchedulerAction} (h : Turn l l' specId new)
    (h' : Turn l' l'' specId new') : Turn l l'' specId (new ++ new') where
  frame := h.frame.trans h'.frame
  actions := by rw [h'.actions,h.actions,append_assoc]
  about a ha := (mem_append.mp ha).elim (h.about a) (h'.about a)
  charged := by
    rw [placements_append,map_append]
    exact h.charged.trans h'.charged

theorem Turn.refl (l : SpecLoop) (specId : String) : Turn l l specId [] :=
  ⟨Frame.refl _ _,by rw [append_nil],by simp,Charged.refl _⟩

theorem Turn.sound (h : Turn l l' specId new) (hl : l.Sound) (hids : l'.scheduler.DistinctIds) :
    l'.Sound where
  distinct := hids
  registered n hn := by
    rw [h.frame.nodes]
    have hid : n.id ∈ l'.shadowNodes.map NodeItem.id := mem_map_of_mem hn
    rw [h.charged.ids] at hid
    obtain ⟨m,hm,hmn⟩ := mem_map.mp hid
    exact hmn ▸ hl.registered m hm
  nodup := by
    rw [h.charged.ids]
    exact hl.nodup

theorem turn_of_frame (hframe : Frame l.scheduler l'.scheduler specId)
    (hactions : l'.actions = l.actions ++ new) (habout : ∀ a ∈ new, a.specId? = some specId)
    (hplace : placements new = []) (hledger : l'.shadowNodes = l.shadowNodes) : Turn l l' specId new where
  frame := hframe
  actions := hactions
  about := habout
  charged := by
    rw [hplace,hledger]
    exact Charged.refl _

theorem turn_deploy (l : SpecLoop) (specId : String) :
    Turn l (l.deploy specId) specId [.changeServiceStatus specId .deployed] :=
  turn_of_frame (frame_setSpecState _ _ _) rfl (by simp [SchedulerAction.specId?]) rfl rfl

theorem turn_uninstance (l : SpecLoop) (specId : String) : Turn l (l.uninstance specId) specId
      ((l.scheduler.instancesOf specId).map (fun i => .removeInstance i.specId i.instanceId i.nodeId) ++
        [.changeServiceStatus specId .deleted]) := by
  refine turn_of_frame ((frame_removeInstancesOf _ _).trans (frame_setSpecState _ _ _))
    (by rw [← append_assoc]; rfl) ?_ ?_ rfl
  · intro a ha
    rw [mem_append,mem_map,mem_singleton] at ha
    rcases ha with ⟨i,hi,rfl⟩ | rfl
    · simpa [SchedulerAction.specId?] using (mem_filter.mp hi).2
    · rfl
  · rw [placements_append,placements,filterMap_map]
    simp [placements]

theorem turn_stopInstances (l : SpecLoop) (specId : String) : Turn l (l.stopInstances specId) specId
      ((l.scheduler.replicaInstances.items.filter (fun i => i.runsFor specId)).map
        (fun i => .updateInstance i.instanceId i.suspend)) := by
  refine turn_of_frame (frame_suspendInstancesOf _ _) rfl ?_ ?_ rfl
  · intro a ha
    obtain ⟨i,hi,rfl⟩ := mem_map.mp ha
    have hruns := (mem_filter.mp hi).2
    simp only [ReplicaInstance.runsFor,Bool.and_eq_true,decide_eq_true_eq] at hruns
    exact congrArg some hruns.1.1
  · rw [placements,filterMap_map]
    simp

section Placing
variable (score : NodeItem → ServiceSpec → ℚ) (now : UInt64)

def fill (l : SpecLoop) (spec : ServiceSpec) : SpecLoop :=
  let chosen := chosenNodes score l.scheduler spec l.shadowNodes
  let shadowNodes := chosen.foldl (fun ns n => reserveOn spec n.id ns) l.shadowNodes
  placeInstances {l with shadowNodes} (chosen.map (newInstance now spec))

theorem fill_scheduler (l : SpecLoop) (spec : ServiceSpec) : (l.fill score now spec).scheduler =
      l.scheduler.place now spec (chosenNodes score l.scheduler spec l.shadowNodes) := rfl

theorem fill_of_enough (l : SpecLoop) (spec : ServiceSpec) (h : missing l.scheduler spec = 0) :
    l.fill score now spec = l := by
  have hchosen : chosenNodes score l.scheduler spec l.shadowNodes = [] := by rw [chosenNodes,h,take_zero]
  simp [fill,hchosen,placeInstances]

variable {score now}

theorem chosenNodes_registered (hl : l.Sound) (spec : ServiceSpec) :
    ∀ n ∈ chosenNodes score l.scheduler spec l.shadowNodes,
      n.id ∈ l.scheduler.nodes.items.map NodeItem.id := by
  intro n hn
  exact hl.registered n (mem_candidates.mp ((chosenNodes_subperm _ _ _ _).subset hn)).1

theorem turn_fill {l : SpecLoop} (hl : l.Sound) {spec : ServiceSpec}
    (hspec : spec.id ∈ l.scheduler.specs.items.map ServiceSpec.id) : Turn l (l.fill score now spec) spec.id
      (((chosenNodes score l.scheduler spec l.shadowNodes).map (newInstance now spec)).map
        .instanceReplica) ∧ (l.fill score now spec).scheduler.DistinctIds := by
  obtain ⟨hframe,hids⟩ := @frame_place l.scheduler now spec
    (chosenNodes score l.scheduler spec l.shadowNodes) hl.distinct hspec (chosenNodes_registered hl spec)
  refine ⟨⟨hframe,rfl,?_,?_⟩,hids⟩
  · intro a ha
    obtain ⟨i,hi,rfl⟩ := mem_map.mp ha
    obtain ⟨n,_,rfl⟩ := mem_map.mp hi
    rfl
  · rw [placements_instanceReplica,map_map]
    exact charged_reserve_fold spec _ _

theorem chosenNodes_nodup {l : SpecLoop} (hl : l.Sound) (spec : ServiceSpec) :
    ((chosenNodes score l.scheduler spec l.shadowNodes).map NodeItem.id).Nodup := by
  obtain ⟨k,hperm,hk⟩ := chosenNodes_subperm score l.scheduler spec l.shadowNodes
  exact (hperm.map _).nodup_iff.mp (hl.nodup.sublist ((hk.trans filter_sublist).map _))

theorem existingInstances_fill {l : SpecLoop} (hl : l.Sound) {spec : ServiceSpec}
    (hspec : spec.id ∈ l.scheduler.specs.items.map ServiceSpec.id) :
    ((l.fill score now spec).scheduler.existingInstances spec.id).Perm
      ((chosenNodes score l.scheduler spec l.shadowNodes).map (newInstance now spec) ++
        l.scheduler.existingInstances spec.id) := by
  rw [fill_scheduler]
  refine existingInstances_place hl.distinct hspec (chosenNodes_registered hl spec)
    (chosenNodes_nodup hl spec) (fun n hn => ?_)
  exact (mem_candidates.mp ((chosenNodes_subperm _ _ _ _).subset hn)).2.1

variable {spec : ServiceSpec}

theorem specStep_place (hspec : l.scheduler.getServiceSpec specId = some spec)
    (hstate : spec.state = .new ∨ spec.state = .deployed) : specStep score now l specId =
      if missing l.scheduler spec ≠ 0 ∧ candidates l.scheduler spec l.shadowNodes = [] then
        .error noSuitableNode
      else if spec.state = .new then .ok ((l.fill score now spec).deploy specId)
      else .ok (l.fill score now spec) := by
  unfold specStep
  rw [hspec]
  dsimp only
  rw [reconcileSpecInstances_eq]
  by_cases henough : missing l.scheduler spec = 0
  · have hfill := fill_of_enough score now l spec henough
    rcases hstate with h | h <;> simp [h,henough,hfill,placeInstances]
  · by_cases hnone : candidates l.scheduler spec l.shadowNodes = []
    · rcases hstate with h | h <;> simp [h,henough,hnone]
    · rcases hstate with h | h <;> simp [h,henough,hnone,fill]

theorem specStep_rest (hspec : l.scheduler.getServiceSpec specId = some spec)
    (hstate : ¬(spec.state = .new ∨ spec.state = .deployed)) : specStep score now l specId =
      if spec.state = .deleted then .ok (l.uninstance specId)
      else if spec.state = .disable ∧ spec.specType.isAppLike = true then
        .ok (l.stopInstances specId)
      else .ok l := by
  unfold specStep
  rw [hspec]
  dsimp only
  cases h : spec.state <;> simp_all

theorem specStep_turn (hl : l.Sound) (h : specStep score now l specId = .ok l') :
    ∃ new, Turn l l' specId new ∧ l'.Sound := by
  cases hspec : l.scheduler.getServiceSpec specId with
  | none =>
    simp only [specStep,hspec,ok.injEq] at h
    exact ⟨[],h ▸ Turn.refl l specId,h ▸ hl⟩
  | some spec =>
    obtain ⟨hmem,rfl⟩ := getServiceSpec_eq_some.mp hspec
    by_cases hstate : spec.state = .new ∨ spec.state = .deployed
    · obtain ⟨hturn,hids⟩ := @turn_fill score now l hl spec (mem_map_of_mem hmem)
      rw [specStep_place hspec hstate] at h
      split_ifs at h with _ hnew <;> obtain rfl := ok.inj h
      · have hdeploy := hturn.trans (turn_deploy (l.fill score now spec) spec.id)
        exact ⟨_,hdeploy,hdeploy.sound hl (distinctIds_setSpecState hids _ _)⟩
      · exact ⟨_,hturn,hturn.sound hl hids⟩
    · rw [specStep_rest hspec hstate] at h
      split_ifs at h <;> obtain rfl := ok.inj h
      · have hturn := turn_uninstance l spec.id
        exact ⟨_,hturn,hturn.sound hl
          (distinctIds_setSpecState (distinctIds_removeInstancesOf hl.distinct _) _ _)⟩
      · have hturn := turn_stopInstances l spec.id
        exact ⟨_,hturn,hturn.sound hl (distinctIds_suspendInstancesOf hl.distinct _)⟩
      · exact ⟨[],Turn.refl l spec.id,hl⟩

theorem specStep_deploys (hl : l.Sound) (hspec : l.scheduler.getServiceSpec spec.id = some spec)
    (hstate : spec.state = .new ∨ spec.state = .deployed) (h : specStep score now l spec.id = .ok l') :
    l'.scheduler.getServiceSpec spec.id = some {spec with state := .deployed} ∧
      (l'.scheduler.existingInstances spec.id).Perm
        ((chosenNodes score l.scheduler spec l.shadowNodes).map (newInstance now spec) ++
          l.scheduler.existingInstances spec.id) := by
  have hid := mem_map_of_mem (f := ServiceSpec.id) (getServiceSpec_eq_some.mp hspec).1
  have hfill := @existingInstances_fill score now l hl spec hid
  have hkept : (l.fill score now spec).scheduler.getServiceSpec spec.id = some spec := by
    rw [fill_scheduler,getServiceSpec,place_specs]
    exact hspec
  rw [specStep_place hspec hstate] at h
  split_ifs at h with _ hnew <;> obtain rfl := ok.inj h
  · refine ⟨?_,hfill⟩
    rw [deploy,getServiceSpec_setSpecState,hkept,Option.map_some,if_pos rfl]
  · refine ⟨?_,hfill⟩
    rw [hkept,← hstate.resolve_left hnew]

theorem specStep_error {e : String} (h : specStep score now l specId = .error e) : e = noSuitableNode := by
  cases hspec : l.scheduler.getServiceSpec specId with
  | none => simp [specStep,hspec] at h
  | some spec =>
    by_cases hstate : spec.state = .new ∨ spec.state = .deployed
    · rw [specStep_place hspec hstate] at h
      split_ifs at h
      exact (error.inj h).symm
    · rw [specStep_rest hspec hstate] at h
      split_ifs at h

theorem specStep_emits (h : specStep score now l specId = .ok l') :
    ∀ a ∈ l'.actions, a ∈ l.actions ∨ a.specId?.isSome = true := by
  intro a ha
  cases hspec : l.scheduler.getServiceSpec specId with
  | none =>
    simp only [specStep,hspec,ok.injEq] at h
    exact .inl (h ▸ ha)
  | some spec =>
    by_cases hstate : spec.state = .new ∨ spec.state = .deployed
    · rw [specStep_place hspec hstate] at h
      split_ifs at h <;> obtain rfl := ok.inj h
      · simp only [deploy,fill,placeInstances,mem_append,mem_map,mem_singleton] at ha
        rcases ha with (ha | ⟨i,_,rfl⟩) | rfl
        · exact .inl ha
        · exact .inr rfl
        · exact .inr rfl
      · simp only [fill,placeInstances,mem_append,mem_map] at ha
        rcases ha with ha | ⟨i,_,rfl⟩
        · exact .inl ha
        · exact .inr rfl
    · rw [specStep_rest hspec hstate] at h
      split_ifs at h <;> obtain rfl := ok.inj h
      · simp only [uninstance,mem_append,mem_map,mem_singleton] at ha
        rcases ha with (ha | ⟨i,_,rfl⟩) | rfl
        · exact .inl ha
        · exact .inr rfl
        · exact .inr rfl
      · simp only [stopInstances,mem_append,mem_map] at ha
        rcases ha with ha | ⟨i,_,rfl⟩
        · exact .inl ha
        · exact .inr rfl
      · exact .inl ha

variable {ids : List String}

theorem specLoop_cons_ok : specLoop score now l (specId :: ids) = .ok l' ↔
      ∃ l₁, specStep score now l specId = .ok l₁ ∧ specLoop score now l₁ ids = .ok l' := by
  rw [specLoop]
  cases specStep score now l specId <;> simp

theorem specLoop_invariant {I : SpecLoop → Prop}
    (hstep : ∀ l l' specId, I l → specStep score now l specId = .ok l' → I l') (hl : I l)
    (h : specLoop score now l ids = .ok l') : I l' := by
  induction ids generalizing l with
  | nil => exact ok.inj h ▸ hl
  | cons specId ids ih =>
    obtain ⟨l₁,hfirst,hrest⟩ := specLoop_cons_ok.mp h
    exact ih (hstep l l₁ specId hl hfirst) hrest

theorem scheduleSpecChange_ok {s post : NodeScheduler} {actions : List SchedulerAction}
    (h : scheduleSpecChange score now s = .ok (actions,post)) :
    ∃ l, specLoop score now ⟨s,readyNodes s,[]⟩ (s.specs.items.map ServiceSpec.id) = .ok l ∧
      l.actions = actions ∧ l.scheduler = post := by
  unfold scheduleSpecChange at h
  cases hloop : specLoop score now ⟨s,readyNodes s,[]⟩ (s.specs.items.map ServiceSpec.id) with
  | error e => simp [hloop] at h
  | ok l =>
    rw [hloop] at h
    exact ⟨l,rfl,Prod.mk.inj (ok.inj h)⟩

theorem specLoop_emits (h : specLoop score now l ids = .ok l') :
    ∀ a ∈ l'.actions, a ∈ l.actions ∨ a.specId?.isSome = true := by
  refine specLoop_invariant (I := fun l' => ∀ a ∈ l'.actions, a ∈ l.actions ∨ a.specId?.isSome = true)
    ?_ (fun a ha => .inl ha) h
  intro l₁ l₂ specId hl₁ hstep a ha
  rcases specStep_emits hstep a ha with ha | ha
  · exact hl₁ a ha
  · exact .inr ha

end Placing

structure Turns (l l' : SpecLoop) (ids : List String) (new : List SchedulerAction) : Prop where
  nodes : l'.scheduler.nodes = l.scheduler.nodes
  specs : ∀ q ∉ ids, l'.scheduler.getServiceSpec q = l.scheduler.getServiceSpec q
  instances : ∀ q ∉ ids, (l'.scheduler.instancesOf q).Perm (l.scheduler.instancesOf q)
  actions : l'.actions = l.actions ++ new
  about : ∀ a ∈ new, ∃ q ∈ ids, a.specId? = some q
  charged : Charged ((placements new).map ReplicaInstance.nodeId) l.shadowNodes l'.shadowNodes

theorem Turns.cons {l l' l'' : SpecLoop} {specId : String} {ids : List String}
    {new new' : List SchedulerAction} (h : Turn l l' specId new) (h' : Turns l' l'' ids new') :
    Turns l l'' (specId :: ids) (new ++ new') where
  nodes := h'.nodes.trans h.frame.nodes
  specs q hq := by
    rw [mem_cons,not_or] at hq
    exact (h'.specs q hq.2).trans (h.frame.specs q hq.1)
  instances q hq := by
    rw [mem_cons,not_or] at hq
    exact (h'.instances q hq.2).trans (h.frame.instances q hq.1)
  actions := by rw [h'.actions,h.actions,append_assoc]
  about a ha := by
    rcases mem_append.mp ha with ha | ha
    · exact ⟨specId,mem_cons_self,h.about a ha⟩
    · obtain ⟨q,hq,haq⟩ := h'.about a ha
      exact ⟨q,mem_cons_of_mem _ hq,haq⟩
  charged := by
    rw [placements_append,map_append]
    exact h.charged.trans h'.charged

section Run
variable {score : NodeItem → ServiceSpec → ℚ} {now : UInt64}

theorem specLoop_turns (hl : l.Sound) {ids : List String} (h : specLoop score now l ids = .ok l') :
    ∃ new, Turns l l' ids new ∧ l'.Sound := by
  induction ids generalizing l with
  | nil =>
    obtain rfl := ok.inj h
    exact ⟨[],⟨rfl,fun _ _ => rfl,fun _ _ => .refl _,by rw [append_nil],by simp,Charged.refl _⟩,hl⟩
  | cons specId ids ih =>
    obtain ⟨l₁,hstep,hrest⟩ := specLoop_cons_ok.mp h
    obtain ⟨new,hturn,hsound⟩ := specStep_turn hl hstep
    obtain ⟨new',hturns,hsound'⟩ := ih hsound hrest
    exact ⟨_,hturns.cons hturn,hsound'⟩

theorem specLoop_append (l : SpecLoop) (xs ys : List String) : specLoop score now l (xs ++ ys) =
      match specLoop score now l xs with
      | .error e => .error e
      | .ok l' => specLoop score now l' ys := by
  induction xs generalizing l with
  | nil => rfl
  | cons x xs ih =>
    rw [cons_append,specLoop,specLoop]
    cases specStep score now l x with
    | error e => rfl
    | ok l' => exact ih l'

theorem readyNodes_registered (s : NodeScheduler) :
    ∀ n ∈ readyNodes s, n.id ∈ s.nodes.items.map NodeItem.id :=
  fun _ hn => mem_map_of_mem (mem_filter.mp hn).1

theorem sound_start {s : NodeScheduler} (hids : s.DistinctIds) : Sound ⟨s,readyNodes s,[]⟩ :=
  ⟨hids,readyNodes_registered s,s.nodes.nodup.sublist (filter_sublist.map _)⟩

theorem specLoop_at {s : NodeScheduler} (hids : s.DistinctIds) {earlier later : List ServiceSpec}
    {spec : ServiceSpec} (hsplit : s.specs.items = earlier ++ spec :: later)
    (h : specLoop score now ⟨s,readyNodes s,[]⟩ (s.specs.items.map ServiceSpec.id) = .ok l) :
    spec.id ∉ earlier.map ServiceSpec.id ∧ spec.id ∉ later.map ServiceSpec.id ∧ ∃ l₁ l₂ new own rest,
      specLoop score now ⟨s,readyNodes s,[]⟩ (earlier.map ServiceSpec.id) = .ok l₁ ∧
      specStep score now l₁ spec.id = .ok l₂ ∧ l₁.Sound ∧ l₂.Sound ∧
      l₁.scheduler.getServiceSpec spec.id = some spec ∧
      Turns ⟨s,readyNodes s,[]⟩ l₁ (earlier.map ServiceSpec.id) new ∧ Turn l₁ l₂ spec.id own ∧
      Turns l₂ l (later.map ServiceSpec.id) rest := by
  have hnodup := s.specs.nodup
  rw [hsplit,map_append,map_cons,nodup_append,nodup_cons] at hnodup
  obtain ⟨_,⟨hlater,_⟩,hapart⟩ := hnodup
  have hearlier : spec.id ∉ earlier.map ServiceSpec.id := fun hin => hapart _ hin _ mem_cons_self rfl
  refine ⟨hearlier,hlater,?_⟩
  rw [hsplit,map_append,map_cons,specLoop_append] at h
  cases hfirst : specLoop score now ⟨s,readyNodes s,[]⟩ (earlier.map ServiceSpec.id) with
  | error e => simp [hfirst] at h
  | ok l₁ =>
    rw [hfirst] at h
    obtain ⟨l₂,hturn,hlast⟩ := specLoop_cons_ok.mp h
    obtain ⟨new,hturns,hsound₁⟩ := specLoop_turns (sound_start hids) hfirst
    obtain ⟨own,hown,hsound₂⟩ := specStep_turn hsound₁ hturn
    obtain ⟨rest,hrest,_⟩ := specLoop_turns hsound₂ hlast
    refine ⟨l₁,l₂,new,own,rest,rfl,hturn,hsound₁,hsound₂,?_,hturns,hown,hrest⟩
    rw [hturns.specs _ hearlier]
    exact getServiceSpec_eq_some.mpr ⟨by simp [hsplit],rfl⟩

end Run
end SpecLoop
end BuckyOS.Scheduler
