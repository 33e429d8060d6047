import BuckyOS.Scheduler.Convergence

/-! Publication of service infos: the node list written for a spec, compared with its live
instances. -/
namespace BuckyOS.Scheduler
open List
open ReplicaInstance (instanceId servicePorts)

inductive ServiceInstanceState
  | deploying | notExist | exited | started | stopped
  deriving DecidableEq

structure DeviceInfo where
  id : String
  netId : Option String
  deriving DecidableEq

structure ServiceNode where
  nodeDid : String
  nodeNetId : Option String
  state : ServiceInstanceState
  weight : ℕ
  servicePort : OrderedMap String UInt16
  deriving DecidableEq

def serviceNode (weight : ℕ) (servicePorts : OrderedMap String UInt16) (device : DeviceInfo) :
    ServiceNode where
  nodeDid := device.id
  nodeNetId := device.netId
  state := .started
  weight := weight
  servicePort := servicePorts

/-- The node list of a service info. A cluster is walked by its keys. -/
def updateServiceInfo (info : ServiceInfo) (deviceList : OrderedMap String DeviceInfo) :
    OrderedMap String ServiceNode :=
  match info with
  | .randomCluster cluster =>
    cluster.entries.foldl (fun infoMap entry =>
      match deviceList.get? entry.1 with
      | some device => infoMap.insert entry.1 (serviceNode entry.2.1 entry.2.2.servicePorts device)
      | none => infoMap) OrderedMap.empty
  | .singleInstance i =>
    match deviceList.get? i.nodeId with
    | some device => OrderedMap.empty.insert i.nodeId (serviceNode 100 i.servicePorts device)
    | none => OrderedMap.empty

def entryUnder (deviceList : OrderedMap String DeviceInfo) (key : ReplicaInstance → String)
    (i : ReplicaInstance) : Option (String × ServiceNode) :=
  (deviceList.get? (key i)).map (fun device => (key i,serviceNode 100 i.servicePorts device))

/-- A node list with one entry for each live instance whose node has a device, under that node,
and no other. -/
def NamesLiveNodes (deviceList : OrderedMap String DeviceInfo) (alive : List ReplicaInstance)
    (nodeList : OrderedMap String ServiceNode) : Prop :=
  nodeList.entries.Perm (alive.filterMap (entryUnder deviceList ReplicaInstance.nodeId))

variable (deviceList : OrderedMap String DeviceInfo) (key : ReplicaInstance → String)
  (is : List ReplicaInstance) {alive : List ReplicaInstance}

theorem filterMap_keys_sublist :
    ((is.filterMap (entryUnder deviceList key)).map Prod.fst).Sublist (is.map key) := by
  induction is with
  | nil => exact .slnil
  | cons i is ih =>
    rw [filterMap_cons]
    cases hdevice : deviceList.get? (key i) with
    | none => simpa [entryUnder,hdevice] using ih.cons (key i)
    | some device => simpa [entryUnder,hdevice] using ih.cons_cons (key i)

theorem foldl_insert_filterMap {α κ ν : Type} [LinearOrder κ] (f : α → Option (κ × ν)) (l : List α)
    (m : OrderedMap κ ν) : l.foldl (fun m a =>
      match f a with
      | some e => m.insert e.1 e.2
      | none => m) m = (l.filterMap f).foldl (fun m e => m.insert e.1 e.2) m := by
  induction l generalizing m with
  | nil => rfl
  | cons a l ih =>
    rw [foldl_cons,ih,filterMap_cons]
    cases f a <;> rfl

theorem updateServiceInfo_randomCluster (cluster : OrderedMap String (ℕ × ReplicaInstance)) :
    updateServiceInfo (.randomCluster cluster) deviceList =
      OrderedMap.ofList (cluster.entries.filterMap (fun entry =>
        (deviceList.get? entry.1).map
          (fun device => (entry.1,serviceNode entry.2.1 entry.2.2.servicePorts device)))) := by
  rw [OrderedMap.ofList,← foldl_insert_filterMap,updateServiceInfo]
  congr 1
  funext infoMap entry
  cases deviceList.get? entry.1 <;> rfl

theorem cluster_perm (hnodup : (alive.map instanceId).Nodup) :
    (OrderedMap.ofList (alive.map (fun i => (i.instanceId,(100,i))))).entries.Perm
      (alive.map (fun i => (i.instanceId,((100 : ℕ),i)))) := by
  refine OrderedMap.entries_ofList_perm ?_
  rw [map_map]
  exact hnodup

theorem newServiceInfo_of_many (hnodup : (alive.map instanceId).Nodup) (hmany : alive.length ≠ 1) :
    newServiceInfo alive = .randomCluster
      (OrderedMap.ofList (alive.map (fun i => (i.instanceId,(100,i))))) := by
  have hperm := cluster_perm hnodup
  unfold newServiceInfo
  dsimp only
  split
  · rename_i i hone
    rw [hone] at hperm
    exact absurd (by simpa using hperm.length_eq.symm) hmany
  · rfl

theorem updateServiceInfo_of_many (hnodup : (alive.map instanceId).Nodup) (hmany : alive.length ≠ 1) :
    (updateServiceInfo (newServiceInfo alive) deviceList).entries.Perm
      (alive.filterMap (entryUnder deviceList instanceId)) := by
  have hentries := (cluster_perm hnodup).filterMap (fun entry => (deviceList.get? entry.1).map
    (fun device => (entry.1,serviceNode entry.2.1 entry.2.2.servicePorts device)))
  rw [filterMap_map] at hentries
  rw [newServiceInfo_of_many hnodup hmany,updateServiceInfo_randomCluster]
  refine (OrderedMap.entries_ofList_perm ?_).trans hentries
  refine (hentries.map Prod.fst).nodup_iff.mpr ?_
  exact hnodup.sublist (filterMap_keys_sublist deviceList instanceId alive)

theorem updateServiceInfo_of_one (i : ReplicaInstance) :
    NamesLiveNodes deviceList [i] (updateServiceInfo (newServiceInfo [i]) deviceList) := by
  have hone : newServiceInfo [i] = .singleInstance i := rfl
  rw [NamesLiveNodes,hone,updateServiceInfo]
  cases hdevice : deviceList.get? i.nodeId with
  | none => simp [entryUnder,hdevice]
  | some device =>
    simp only [filterMap_cons,entryUnder,hdevice,Option.map_some,filterMap_nil]
    exact .refl _

theorem filter_entryUnder (k : String) :
    (is.filterMap (entryUnder deviceList key)).filter (fun e => e.1 = k) =
      match deviceList.get? k with
      | none => []
      | some device => ((is.filter (fun i => key i = k)).map servicePorts).map
          (fun ports => (k,serviceNode 100 ports device)) := by
  induction is with
  | nil => cases deviceList.get? k <;> rfl
  | cons i is ih =>
    by_cases hk : key i = k
    · cases hdevice : deviceList.get? k with
      | none | some device =>
        rw [hdevice] at ih
        simpa [entryUnder,hk,hdevice] using ih
    · have hskip : (filterMap (entryUnder deviceList key) (i :: is)).filter
          (fun e => e.1 = k) = (is.filterMap (entryUnder deviceList key)).filter (fun e => e.1 = k) := by
        rw [filterMap_cons]
        cases hdevice : deviceList.get? (key i) <;> simp [entryUnder,hdevice,hk]
      rw [hskip,ih,filter_cons_of_neg (by simpa using hk)]

/-- Instances are published by node exactly if there is at most one, or on every device the live
instances have the ports of the live instance whose id is the name of the device. -/
theorem namesLiveNodes_iff (hnodup : (alive.map instanceId).Nodup) :
    NamesLiveNodes deviceList alive (updateServiceInfo (newServiceInfo alive) deviceList) ↔
      alive.length ≤ 1 ∨ ∀ name device, deviceList.get? name = some device →
        (alive.filter (fun i => i.instanceId = name)).map servicePorts =
          (alive.filter (fun i => i.nodeId = name)).map servicePorts := by
  by_cases hone : alive.length = 1
  · obtain ⟨i,rfl⟩ := length_eq_one_iff.mp hone
    exact iff_of_true (updateServiceInfo_of_one deviceList i) (Or.inl le_rfl)
  by_cases hzero : alive = []
  · subst hzero
    exact iff_of_true (.refl _) (Or.inl (Nat.zero_le _))
  have hmany : ¬alive.length ≤ 1 := by
    have := length_pos_iff.mpr hzero
    omega
  rw [or_iff_right hmany,NamesLiveNodes,
    (updateServiceInfo_of_many deviceList hnodup hone).congr_left,perm_iff_filter_key]
  refine forall_congr' fun name => ?_
  rw [filter_entryUnder,filter_entryUnder]
  cases hdevice : deviceList.get? name with
  | none => simp
  | some device =>
    have hinjective : Function.Injective (fun ports => (name,serviceNode 100 ports device)) := by
      intro ports ports' h
      exact congrArg ServiceNode.servicePort (congrArg Prod.snd h)
    have hsingle : ((alive.filter (fun i => i.instanceId = name)).map servicePorts).length ≤ 1 := by
      rw [length_map]
      exact filter_key_length_le_one hnodup name
    simp only [map_perm_map_iff hinjective,Option.some.injEq,forall_eq']
    exact ⟨eq_of_perm_of_length_le_one hsingle,List.Perm.of_eq⟩

section Round
variable {score : NodeItem → ServiceSpec → ℚ} {now : UInt64} {s post : NodeScheduler}
  {last : Option NodeScheduler} {actions : List SchedulerAction}

theorem placementPhase_emits {result : List SchedulerAction × NodeScheduler}
    (h : placementPhase score now s last = .ok result) : ∀ a ∈ result.1, a.specId?.isSome = true := by
  unfold placementPhase at h
  split_ifs at h
  · obtain ⟨l,hloop,hactions,_⟩ := SpecLoop.scheduleSpecChange_ok h
    intro a ha
    exact (SpecLoop.specLoop_emits hloop a (hactions ▸ ha)).resolve_left (by simp)
  · obtain rfl := Except.ok.inj h
    simp

variable {specId : String} {info : ServiceInfo}

theorem resortNodes_publishes_not : .updateServiceInfo specId info ∉ (resortNodes s).1 := by
  intro hmem
  obtain ⟨n,_,hn⟩ := mem_filterMap.mp hmem
  obtain ⟨_,_,hn⟩ := Option.map_eq_some_iff.mp hn
  exact absurd hn (by simp)

theorem publishes_iff {specActions : List SchedulerAction} {placed : NodeScheduler}
    (hpass : placementPhase score now (resortNodes s).2 last = .ok (specActions,placed)) :
    .updateServiceInfo specId info ∈ (resortNodes s).1 ++ specActions ++ (calcServiceInfos placed now last).1 ↔
      .updateServiceInfo specId info ∈ (calcServiceInfos placed now last).1 := by
  have hplacement : .updateServiceInfo specId info ∉ specActions := fun hin =>
    absurd (placementPhase_emits hpass _ hin) (by simp [SchedulerAction.specId?])
  simp [resortNodes_publishes_not,hplacement]

/-- A round publishes exactly the live nodes of a spec if it has at most one live instance; of
more, if on every device its live instances have the ports of the one whose id is the name of the
device; and in no other case. -/
theorem schedule_namesLiveNodes_iff {specId : String} {info : ServiceInfo}
    (h : schedule score now s last = .ok (actions,post))
    (hin : .updateServiceInfo specId info ∈ actions)
    (deviceList : OrderedMap String DeviceInfo) :
    NamesLiveNodes deviceList (post.aliveInstances now specId)
        (updateServiceInfo info deviceList) ↔
      (post.aliveInstances now specId).length ≤ 1 ∨
        ∀ name device, deviceList.get? name = some device →
          ((post.aliveInstances now specId).filter (fun i => i.instanceId = name)).map
              ReplicaInstance.servicePorts =
            ((post.aliveInstances now specId).filter (fun i => i.nodeId = name)).map
              ReplicaInstance.servicePorts := by
  have hinfo : info = newServiceInfo (post.aliveInstances now specId) := by
    rcases schedule_phases h with ⟨hreview,_⟩ | ⟨specActions,placed,hpass,rfl,rfl⟩
    · rw [← show (resortNodes s).1 = actions from congrArg Prod.fst hreview] at hin
      exact absurd hin resortNodes_publishes_not
    · obtain ⟨specId',heq⟩ := calcServiceInfos_actions placed now last _ ((publishes_iff hpass).mp hin)
      obtain ⟨rfl,rfl⟩ := SchedulerAction.updateServiceInfo.inj heq
      rfl
  rw [hinfo]
  exact namesLiveNodes_iff deviceList
    (post.replicaInstances.nodup.sublist (filter_sublist.map _))

end Round

def twoDevices : OrderedMap String DeviceInfo :=
  OrderedMap.ofList [("ood1",⟨"did:dev:ood1",none⟩),("ood2",⟨"did:dev:ood2",none⟩)]

/-- The web service on one node is published under that node. -/
theorem schedule_namesLiveNodes_one_node :
    NamesLiveNodes twoDevices ((webServiceDeployed oneNode).aliveInstances 100 "web")
      (updateServiceInfo
        (.singleInstance (newInstance 100 (serviceSpec "web" 2) (readyNode "ood1"))) twoDevices) :=
  (schedule_namesLiveNodes_iff webService_round (by simp [webActions]) twoDevices).mpr
    (Or.inl (by decide))

def webInstances : List ReplicaInstance :=
  [newInstance 100 (serviceSpec "web" 2) (readyNode "ood1"),
    newInstance 100 (serviceSpec "web" 2) (readyNode "ood2")]

theorem webInstances_nodup : (webInstances.map instanceId).Nodup := by decide

def webServiceOnTwo : NodeScheduler where
  nodes := twoNodes
  specs := ⟨[{serviceSpec "web" 2 with state := .deployed}],List.nodup_singleton _⟩
  replicaInstances := ⟨webInstances,webInstances_nodup⟩
  serviceInfos := OrderedMap.ofList [("web",newServiceInfo webInstances)]
  serviceInfoRefreshTimes := OrderedMap.ofList [("web",100)]
  scheduleTime := 0

/-- The web service on two nodes has two live instances on nodes with devices, and is published
with an empty node list. -/
theorem schedule_publishes_empty_cluster :
    schedule scoreNode 100 (webService twoNodes) none = .ok (
      webInstances.map .instanceReplica ++ [.changeServiceStatus "web" .deployed,
        .updateServiceInfo "web" (newServiceInfo webInstances)],webServiceOnTwo) ∧
      webServiceOnTwo.aliveInstances 100 "web" = webInstances ∧
      (updateServiceInfo (newServiceInfo webInstances) twoDevices).entries = [] ∧
      ¬NamesLiveNodes twoDevices webInstances
        (updateServiceInfo (newServiceInfo webInstances) twoDevices) := by
  refine ⟨by decide +kernel,rfl,rfl,fun h => ?_⟩
  exact absurd h.length_eq (by decide)

end BuckyOS.Scheduler
