import BuckyOS.Scheduler.Rounds

/-! Convergence of placement over runs of the schedule loop: which rounds leave every deployed
spec with as many instances as the free nodes allow. -/
namespace BuckyOS.Scheduler
open NodeScheduler List SpecLoop

section Names
theorem createReplicaInstanceId_inj {p q n m : String} (hn : '@' ∉ n.toList) (hm : '@' ∉ m.toList)
    (h : createReplicaInstanceId p n = createReplicaInstanceId q m) : p = q ∧ n = m := by
  have hlist : p.toList ++ '@' :: n.toList = q.toList ++ '@' :: m.toList := by
    simpa [createReplicaInstanceId] using congrArg String.toList h
  obtain ⟨hp,hnm⟩ := append_cons_inj hn hm hlist
  exact ⟨String.toList_inj.mp hp,String.toList_inj.mp hnm⟩

end Names

namespace NodeScheduler
/-- Every instance has the id of its spec and its node, and its node is registered. -/
def Canonical (s : NodeScheduler) : Prop :=
  ∀ i ∈ s.replicaInstances.items, i.instanceId = createReplicaInstanceId i.specId i.nodeId ∧
    i.nodeId ∈ s.nodes.items.map NodeItem.id

variable {s : NodeScheduler}

theorem Canonical.distinctIds (h : s.Canonical)
    (hnames : ∀ n ∈ s.nodes.items.map NodeItem.id, '@' ∉ n.toList) : s.DistinctIds where
  own p _ n hn i hi hid := by
    obtain ⟨hown,hnode⟩ := h i hi
    exact createReplicaInstanceId_inj (hnames _ hnode) (hnames n hn) (hown.symm.trans hid)
  apart _ _ n hn _ _ m hm hid := createReplicaInstanceId_inj (hnames n hn) (hnames m hm) hid

theorem Canonical.of_instances {t : NodeScheduler} (h : s.Canonical)
    (hnodes : t.nodes.items.map NodeItem.id = s.nodes.items.map NodeItem.id)
    (hinstances : ∀ i ∈ t.replicaInstances.items, (∃ j ∈ s.replicaInstances.items, j.instanceId =
      i.instanceId ∧ j.specId = i.specId ∧ j.nodeId = i.nodeId) ∨ (i.instanceId =
      createReplicaInstanceId i.specId i.nodeId ∧ i.nodeId ∈ s.nodes.items.map NodeItem.id)) :
    t.Canonical := by
  intro i hi
  rw [hnodes]
  rcases hinstances i hi with ⟨j,hj,hid,hspec,hnode⟩ | hnew
  · rw [← hid,← hspec,← hnode]
    exact h j hj
  · exact hnew

theorem canonical_place (h : s.Canonical) (now : UInt64) (spec : ServiceSpec)
    {chosen : List NodeItem} (hreg : ∀ n ∈ chosen, n.id ∈ s.nodes.items.map NodeItem.id) :
    (s.place now spec chosen).Canonical ∧ (s.place now spec chosen).nodes = s.nodes := by
  induction chosen generalizing s with
  | nil => exact ⟨h,rfl⟩
  | cons n chosen ih =>
    rw [place_cons]
    refine @ih (s.addReplicaInstance (newInstance now spec n)) ?_ (fun m hm => hreg m (mem_cons_of_mem _ hm))
    refine h.of_instances rfl (fun i hi => ?_)
    rcases s.replicaInstances.mem_insert.mp hi with rfl | ⟨hi,_⟩
    · exact .inr ⟨rfl,hreg n mem_cons_self⟩
    · exact .inl ⟨i,hi,rfl,rfl,rfl⟩

end NodeScheduler

namespace SpecLoop
def Named (l : SpecLoop) : Prop :=
  l.scheduler.Canonical ∧ ∀ n ∈ l.shadowNodes, n.id ∈ l.scheduler.nodes.items.map NodeItem.id

variable {score : NodeItem → ServiceSpec → ℚ} {now : UInt64} {l l' : SpecLoop}

theorem named_fill (hl : l.Named) (spec : ServiceSpec) :
    (l.fill score now spec).Named ∧ (l.fill score now spec).scheduler.nodes = l.scheduler.nodes := by
  have hreg : ∀ n ∈ chosenNodes score l.scheduler spec l.shadowNodes,
      n.id ∈ l.scheduler.nodes.items.map NodeItem.id := fun n hn =>
    hl.2 n (mem_candidates.mp ((chosenNodes_subperm _ _ _ _).subset hn)).1
  obtain ⟨hcanonical,hnodes⟩ := canonical_place hl.1 now spec hreg
  refine ⟨⟨hcanonical,fun n hn => ?_⟩,hnodes⟩
  obtain ⟨m,hm,hdrained⟩ := (charged_reserve_fold spec
    (chosenNodes score l.scheduler spec l.shadowNodes) l.shadowNodes).source hn
  rw [fill_scheduler,hnodes,hdrained.id_eq]
  exact hl.2 m hm

theorem specStep_named (hl : l.Named) {specId : String} (h : specStep score now l specId = .ok l') :
    l'.Named ∧ l'.scheduler.nodes = l.scheduler.nodes := by
  cases hspec : l.scheduler.getServiceSpec specId with
  | none =>
    simp only [specStep,hspec,Except.ok.injEq] at h
    exact h ▸ ⟨hl,rfl⟩
  | some spec =>
    by_cases hstate : spec.state = .new ∨ spec.state = .deployed
    · rw [specStep_place hspec hstate] at h
      split_ifs at h <;> obtain rfl := Except.ok.inj h
      · obtain ⟨hfill,hnodes⟩ := @named_fill score now l hl spec
        exact ⟨⟨hfill.1.of_instances rfl (fun i hi => .inl ⟨i,hi,rfl,rfl,rfl⟩),hfill.2⟩,hnodes⟩
      · exact named_fill hl spec
    · rw [specStep_rest hspec hstate] at h
      split_ifs at h <;> obtain rfl := Except.ok.inj h
      · exact ⟨⟨hl.1.of_instances rfl (fun i hi => .inl ⟨i,(mem_filter.mp hi).1,rfl,rfl,rfl⟩),hl.2⟩,rfl⟩
      · refine ⟨⟨hl.1.of_instances rfl (fun i hi => ?_),hl.2⟩,rfl⟩
        obtain ⟨j,hj,rfl⟩ := mem_map.mp hi
        refine .inl ⟨j,hj,?_⟩
        split_ifs <;> exact ⟨rfl,rfl,rfl⟩
      · exact ⟨hl,rfl⟩

theorem specLoop_named (hl : l.Named) {ids : List String} (h : specLoop score now l ids = .ok l') :
    l'.Named := specLoop_invariant (fun _ _ _ hl hstep => (specStep_named hl hstep).1) hl h

end SpecLoop

section Loop
variable {score : NodeItem → ServiceSpec → ℚ} {now : UInt64} {s post : NodeScheduler}
  {last : Option NodeScheduler} {actions : List SchedulerAction}

theorem canonical_resortNodes (hs : s.Canonical) : (resortNodes s).2.Canonical := by
  refine hs.of_instances ?_ (fun i hi => .inl ⟨i,hi,rfl,rfl,rfl⟩)
  change (s.nodes.items.map reviewNode).map NodeItem.id = s.nodes.items.map NodeItem.id
  rw [map_map]
  rfl

theorem schedule_canonical (hs : s.Canonical) (h : schedule score now s last = .ok (actions,post)) :
    post.Canonical := by
  rcases schedule_phases h with ⟨hreview,_⟩ | ⟨specActions,placed,hpass,_,hpost⟩
  · have hpost : (resortNodes s).2 = post := congrArg Prod.snd hreview
    exact hpost ▸ canonical_resortNodes hs
  · have hsorted := canonical_resortNodes hs
    rw [hpost]
    unfold placementPhase at hpass
    split_ifs at hpass
    · obtain ⟨l,hloop,_,hplaced⟩ := scheduleSpecChange_ok hpass
      have hnamed : SpecLoop.Named ⟨_,readyNodes _,[]⟩ := ⟨hsorted,readyNodes_registered _⟩
      exact hplaced ▸ (specLoop_named hnamed hloop).1
    · obtain ⟨-,rfl⟩ := Prod.mk.inj (Except.ok.inj hpass)
      exact hsorted

/-- The schedule loop between two rounds: the state of the system and the saved snapshot. -/
structure ScheduleLoop where
  scheduler : NodeScheduler
  saved : Option NodeScheduler

/-- What the environment may do between rounds: nodes are added and change, specs change in any
way, and the maps may be walked in another order. -/
structure EnvChange (s t : NodeScheduler) : Prop where
  instances : t.replicaInstances.items.Perm s.replicaInstances.items
  nodes : s.nodes.items.map NodeItem.id ⊆ t.nodes.items.map NodeItem.id

/-- One round, after the environment has moved. A failed round leaves the state and the
snapshot as they were. -/
inductive Round (score : NodeItem → ServiceSpec → ℚ) : ScheduleLoop → ScheduleLoop → Prop
  | done {l : ScheduleLoop} {s post : NodeScheduler} {now : UInt64}
      {actions : List SchedulerAction} (henv : EnvChange l.scheduler s)
      (hround : schedule score now s l.saved = .ok (actions,post)) :
      Round score l ⟨post,some post⟩
  | failed {l : ScheduleLoop} {s : NodeScheduler} {now : UInt64} {e : String}
      (henv : EnvChange l.scheduler s) (hround : schedule score now s l.saved = .error e) :
      Round score l ⟨s,l.saved⟩

theorem EnvChange.canonical {s t : NodeScheduler} (h : EnvChange s t) (hs : s.Canonical) : t.Canonical := by
  intro i hi
  obtain ⟨hid,hnode⟩ := hs i (h.instances.mem_iff.mp hi)
  exact ⟨hid,h.nodes hnode⟩

theorem Round.canonical {l l' : ScheduleLoop} (h : Round score l l')
    (hl : l.scheduler.Canonical) : l'.scheduler.Canonical := by
  cases h with
  | done henv hround => exact schedule_canonical (henv.canonical hl) hround
  | failed henv _ => exact henv.canonical hl

theorem rounds_canonical {start l : ScheduleLoop} (h : Relation.ReflTransGen (Round score) start l)
    (hstart : start.scheduler.Canonical) : l.scheduler.Canonical := by
  induction h with
  | refl => exact hstart
  | tail _ hround ih => exact hround.canonical ih

end Loop

variable (s : NodeScheduler) (actions : List SchedulerAction) (spec : ServiceSpec)

/-- The ready nodes that could take a spec at the start of a round, do not host it, and that no
other spec was placed on. -/
def freeNodes :
    List NodeItem :=
  (candidates s spec (readyNodes s)).filter (fun n =>
    (placements actions).all (fun i => i.nodeId ≠ n.id || i.specId = spec.id))

/-- After a round a spec is deployed, with as many instances as its count and the free nodes
allow. -/
def Converged (post : NodeScheduler)
    (spec : ServiceSpec) : Prop :=
  (post.getServiceSpec spec.id).map ServiceSpec.state = some .deployed ∧
    min spec.bestInstanceCount
      ((s.existingInstances spec.id).length + (freeNodes s actions spec).length) ≤
      (post.existingInstances spec.id).length

def Settled : Prop :=
  spec.state = .deployed ∧ (missing s spec = 0 ∨ candidates s spec (readyNodes s) = [])

section Convergence
variable {score : NodeItem → ServiceSpec → ℚ} {now : UInt64} {s post : NodeScheduler}
  {last : Option NodeScheduler} {actions : List SchedulerAction}

theorem candidates_nodup (s : NodeScheduler) (spec : ServiceSpec) :
    (candidates s spec (readyNodes s)).Nodup := ((s.nodes.nodup.of_map _).filter _).filter _

variable {spec : ServiceSpec}

theorem specLoop_converges {l : SpecLoop} (hids : s.DistinctIds) (hspec : spec ∈ s.specs.items)
    (hstate : spec.state = .new ∨ spec.state = .deployed)
    (h : specLoop score now ⟨s,readyNodes s,[]⟩ (s.specs.items.map ServiceSpec.id) = .ok l)
    (hactions : ∀ i ∈ placements l.actions, i ∈ placements actions) :
    Converged s actions l.scheduler spec := by
  obtain ⟨earlier,later,hsplit⟩ := append_of_mem hspec
  obtain ⟨hearlier,hlater,l₁,l₂,new,own,rest,_,hturn,hsound₁,_,hfound,hturns,hown,hrest⟩ :=
    specLoop_at hids hsplit h
  obtain ⟨hdeployed,hcount⟩ := specStep_deploys hsound₁ hfound hstate hturn
  have hnew : ∀ i ∈ placements new, i ∈ placements actions := by
    intro i hi
    refine hactions i ?_
    rw [hrest.actions,hown.actions,hturns.actions,placements_append,placements_append,placements_append]
    simp [hi]
  have hfree : freeNodes s actions spec ⊆ candidates l₁.scheduler spec l₁.shadowNodes := by
    intro n hn
    obtain ⟨hcandidate,hunused⟩ := mem_filter.mp hn
    obtain ⟨hshadow,hhosts,hfilter⟩ := mem_candidates.mp hcandidate
    have hperm := existingInstances_perm (hturns.instances spec.id hearlier)
    refine mem_candidates.mpr ⟨hturns.charged.mem hshadow ?_,?_,hfilter⟩
    · intro hused
      obtain ⟨i,hi,hnode⟩ := mem_map.mp hused
      have hother := all_eq_true.mp hunused i (hnew i hi)
      simp only [hnode,ne_eq,not_true_eq_false,decide_false,Bool.false_or,decide_eq_true_eq] at hother
      obtain ⟨q,hq,habout⟩ := hturns.about _ (mem_placements.mp hi)
      exact hearlier (hother ▸ (Option.some.inj habout) ▸ hq)
    · rw [(hperm.map _).mem_iff]
      exact hhosts
  have hfewer : (freeNodes s actions spec).length ≤ (candidates l₁.scheduler spec l₁.shadowNodes).length :=
    (((candidates_nodup s spec).filter _).subperm hfree).length_le
  have hexisting := (existingInstances_perm (hturns.instances _ hearlier)).length_eq
  have hkept := (existingInstances_perm (hrest.instances _ hlater)).length_eq
  refine ⟨?_,?_⟩
  · rw [hrest.specs _ hlater,hdeployed]
    rfl
  · rw [hkept,hcount.length_eq,length_append,length_map,chosenNodes_length]
    simp only [missing] at hexisting ⊢
    omega

theorem converged_unchanged_iff (hspec : spec ∈ s.specs.items) (hactions : placements actions = [])
    (hspecs : post.specs = s.specs) (hinstances : post.replicaInstances = s.replicaInstances) :
    Converged s actions post spec ↔ Settled s spec := by
  have hfound : post.getServiceSpec spec.id = some spec := by
    rw [getServiceSpec,hspecs]
    exact getServiceSpec_eq_some.mpr ⟨hspec,rfl⟩
  have hfree : freeNodes s actions spec = candidates s spec (readyNodes s) := by simp [freeNodes,hactions]
  have hexisting : post.existingInstances spec.id = s.existingInstances spec.id := by
    rw [existingInstances,hinstances,existingInstances]
  rw [Converged,Settled,hfound,hfree,hexisting,Option.map_some,Option.some.injEq,
    ← length_eq_zero_iff,missing]
  refine and_congr_right fun _ => ?_
  omega

/-- In every run, a round that changes no node leaves every spec that is to be kept deployed with
the instances its count and the free nodes allow, exactly if its specs differ from the saved
snapshot or no such spec has anything left to do. -/
theorem rounds_converge_iff {start l : ScheduleLoop} (hstart : start.scheduler.Canonical)
    (hrun : Relation.ReflTransGen (Round score) start l) (henv : EnvChange l.scheduler s)
    (hnames : ∀ n ∈ s.nodes.items.map NodeItem.id, '@' ∉ n.toList)
    (hround : schedule score now s l.saved = .ok (actions,post)) (hquiet : Quiet actions) :
    (∀ spec ∈ s.specs.items, spec.state = .new ∨ spec.state = .deployed →
      Converged s actions post spec) ↔
    (isSpecChanged s l.saved = true ∨ ∀ spec ∈ s.specs.items,
      spec.state = .new ∨ spec.state = .deployed → Settled s spec) := by
  have hids := (henv.canonical (rounds_canonical hrun hstart)).distinctIds hnames
  obtain ⟨specActions,placed,hpass,hactions,hpost⟩ := schedule_quiet hround hquiet
  have hinfos := placements_calcServiceInfos placed now l.saved
  unfold placementPhase at hpass
  by_cases hchanged : isSpecChanged s l.saved = true
  · rw [if_pos hchanged] at hpass
    refine iff_of_true (fun spec hspec hstate => ?_) (.inl hchanged)
    obtain ⟨l',hloop,rfl,rfl⟩ := scheduleSpecChange_ok hpass
    have hmore : ∀ i ∈ placements l'.actions, i ∈ placements actions := fun i hi => by
      rw [hactions,placements_append]
      exact mem_append_left _ hi
    have hconverged := specLoop_converges hids hspec hstate hloop hmore
    rw [hpost]
    exact hconverged
  · rw [if_neg hchanged] at hpass
    obtain ⟨rfl,rfl⟩ := Prod.mk.inj (Except.ok.inj hpass)
    have hnone : placements actions = [] := by rw [hactions,nil_append,hinfos]
    rw [or_iff_right hchanged]
    refine forall₂_congr fun spec hspec => imp_congr_right fun _ => ?_
    exact converged_unchanged_iff hspec hnone (by rw [hpost]; rfl) (by rw [hpost]; rfl)

end Convergence

section Growth
variable (id : String) (nodes : Registry NodeItem.id)

def readyNode : NodeItem where
  id := id
  nodeType := .ood
  labels := []
  networkZone := "zone"
  supportContainer := true
  state := .ready
  availableCpuMhz := 4000
  totalCpuMhz := 4000
  availableMemory := 4096
  totalMemory := 4096
  availableGpuMemory := 0
  totalGpuMemory := 0
  gpuTflops := 0

def serviceSpec (bestInstanceCount : ℕ) : ServiceSpec where
  id := id
  appId := id
  appIndex := 0
  ownerId := "root"
  specType := .service
  state := .new
  bestInstanceCount := bestInstanceCount
  needContainer := false
  requiredCpuMhz := 100
  requiredMemory := 128
  requiredGpuTflops := 0
  requiredGpuMem := 0
  nodeAffinity := none
  networkAffinity := none
  servicePortsConfig := OrderedMap.empty

def webService : NodeScheduler where
  nodes := nodes
  specs := ⟨[serviceSpec "web" 2],by decide⟩
  replicaInstances := Registry.empty
  serviceInfos := OrderedMap.empty
  serviceInfoRefreshTimes := OrderedMap.empty
  scheduleTime := 0

def oneNode : Registry NodeItem.id := ⟨[readyNode "ood1"],by decide⟩

def twoNodes : Registry NodeItem.id := ⟨[readyNode "ood1",readyNode "ood2"],by decide⟩

def webServiceDeployed : NodeScheduler where
  nodes := nodes
  specs := ⟨[{serviceSpec "web" 2 with state := .deployed}],by decide⟩
  replicaInstances := ⟨[newInstance 100 (serviceSpec "web" 2) (readyNode "ood1")],by decide⟩
  serviceInfos := OrderedMap.ofList
    [("web",.singleInstance (newInstance 100 (serviceSpec "web" 2) (readyNode "ood1")))]
  serviceInfoRefreshTimes := OrderedMap.ofList [("web",100)]
  scheduleTime := 0

def webActions : List SchedulerAction := [
  .instanceReplica (newInstance 100 (serviceSpec "web" 2) (readyNode "ood1")),
  .changeServiceStatus "web" .deployed,
  .updateServiceInfo "web"
    (.singleInstance (newInstance 100 (serviceSpec "web" 2) (readyNode "ood1")))]

theorem webService_canonical : (webService nodes).Canonical := by
  intro i hi
  cases hi

theorem webService_round : schedule scoreNode 100 (webService oneNode) none =
    .ok (webActions,webServiceDeployed oneNode) := rfl

/-- The first round of the web service on one node converges. -/
theorem rounds_converge_on_first_round :
    serviceSpec "web" 2 ∈ (webService oneNode).specs.items ∧
      Converged (webService oneNode) webActions (webServiceDeployed oneNode) (serviceSpec "web" 2) :=
  ⟨mem_singleton_self _,
    (@rounds_converge_iff scoreNode 100 (webService oneNode) (webServiceDeployed oneNode) webActions
      ⟨webService oneNode,none⟩ ⟨webService oneNode,none⟩ (webService_canonical oneNode) .refl
      ⟨.refl _,List.Subset.refl _⟩ (by decide) webService_round
      (by simp [Quiet,webActions])).mpr (.inl rfl) _ (mem_singleton_self _) (.inl rfl)⟩

/-- One ready node and one that has just joined, before and after its review. -/
def joiningNodes (state : NodeState) : Registry NodeItem.id :=
  ⟨[readyNode "ood1",{readyNode "ood2" with state}],by simp [readyNode]⟩

theorem joiningNodes_round : schedule scoreNode 100 (webService (joiningNodes .new)) none =
    .ok ([.changeNodeStatus "ood2" .prepare],webService (joiningNodes .prepare)) := rfl

/-- A new service that is there when a node joins stays new: the round that reviews the node saves
it as seen, and the later rounds do not place it. A node that joins after the first round is not used:
the next round is quiet, and the service stays at one instance of two with a free node. -/
theorem services_left_unplaced :
    (∃ l, Relation.ReflTransGen (Round scoreNode) ⟨webService (joiningNodes .new),none⟩ l ∧
      ∃ actions post, schedule scoreNode 150 l.scheduler l.saved = .ok (actions,post) ∧
        Quiet actions ∧ schedule scoreNode 200 post (some post) = .ok ([],post) ∧
        ∃ spec ∈ l.scheduler.specs.items, spec.state = .new ∧ spec ∈ post.specs.items ∧
          ¬Converged l.scheduler actions post spec) ∧
    ∃ l, Relation.ReflTransGen (Round scoreNode) ⟨webService oneNode,none⟩ l ∧
      EnvChange l.scheduler (webServiceDeployed twoNodes) ∧
      schedule scoreNode 150 (webServiceDeployed twoNodes) l.saved =
        .ok ([],webServiceDeployed twoNodes) ∧ Quiet [] ∧
      ∃ spec ∈ (webServiceDeployed twoNodes).specs.items, spec.state = .deployed ∧
        ¬Converged (webServiceDeployed twoNodes) [] (webServiceDeployed twoNodes) spec := by
  constructor
  · refine ⟨⟨webService (joiningNodes .prepare),some (webService (joiningNodes .prepare))⟩,
      .single (.done ⟨.refl _,List.Subset.refl _⟩ joiningNodes_round),
      [.updateServiceInfo "web" (.randomCluster .empty)],_,rfl,by simp [Quiet],rfl,
      _,mem_singleton_self _,rfl,mem_singleton_self _,?_⟩
    rintro ⟨hstate,_⟩
    exact absurd hstate (by decide)
  · refine ⟨⟨webServiceDeployed oneNode,some (webServiceDeployed oneNode)⟩,
      .single (.done ⟨.refl _,List.Subset.refl _⟩ webService_round),⟨.refl _,by decide⟩,rfl,
      by simp [Quiet],_,mem_singleton_self _,rfl,?_⟩
    rintro ⟨_,hcount⟩
    exact absurd hcount (by decide)

end Growth
end BuckyOS.Scheduler
