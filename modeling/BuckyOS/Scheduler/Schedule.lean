import BuckyOS.Lib.Bytes
import BuckyOS.Scheduler.Types

/-! One round of the node scheduler: review of the nodes, placement of the specs against a
ledger of what is left on the ready nodes, and the service infos. The score of a node is a
parameter; hash maps are walked in the order of their lists. -/
namespace BuckyOS.Scheduler
def smallSystemNodeCount : ℕ := 7

def instanceAliveTime : UInt64 := 90

def serviceInfoRefreshInterval : UInt64 := 30

def baseAppPort : UInt16 := 10000

def filterNodeForInstance (node : NodeItem) (spec : ServiceSpec) : Bool :=
  if node.state ≠ .ready then false
  else if node.nodeType ≠ .ood ∧ node.nodeType ≠ .server then false
  else if spec.needContainer = true ∧ node.supportContainer = false then false
  else if node.availableCpuMhz < spec.requiredCpuMhz ∨
      node.availableMemory < spec.requiredMemory then false
  else if node.availableGpuMemory < spec.requiredGpuMem ∨
      node.gpuTflops < spec.requiredGpuTflops then false
  else
    match spec.nodeAffinity with
    | some affinity => node.labels.contains affinity
    | none => true

/-- The score of a node, in exact arithmetic. -/
def scoreNode (node : NodeItem) (spec : ServiceSpec) : ℚ :=
  let resources : ℚ :=
    if 0 < node.totalCpuMhz then
      let cpuRatio : ℚ := ((node.availableCpuMhz : ℚ) - spec.requiredCpuMhz) / node.totalCpuMhz
      let memRatio : ℚ := ((node.availableMemory : ℚ) - spec.requiredMemory) /
        (max node.totalMemory 1 : ℕ)
      (cpuRatio + memRatio) / 2 * 100
    else 0
  let idle : ℚ :=
    if 0 < node.totalCpuMhz then (node.availableCpuMhz : ℚ) / node.totalCpuMhz * 50 else 0
  let network : ℚ :=
    match spec.networkAffinity with
    | some zone => if node.networkZone = zone then 30 else 0
    | none => 0
  resources + idle + network

def allocReplicaInstancePort (appIndex : UInt16) (serviceName : String)
    (exposePort : Option UInt16) : UInt16 :=
  if serviceName = "www" then
    if appIndex = 0 then exposePort.getD 0 else appIndex * 16 + baseAppPort
  else exposePort.getD 0

variable (s : NodeScheduler) (now : UInt64) (lastSnapshot : Option NodeScheduler)

def newInstance (spec : ServiceSpec) (node : NodeItem) : ReplicaInstance where
  nodeId := node.id
  specId := spec.id
  instanceId := createReplicaInstanceId spec.id node.id
  lastUpdateTime := now
  state := .running
  servicePorts := spec.servicePortsConfig.mapValues
    (fun name port => allocReplicaInstancePort spec.appIndex name (some port))

section Round
variable (score : NodeItem → ServiceSpec → ℚ) (now : UInt64)

/-- The nodes in order of falling score; of equal scores the earlier comes first. -/
def rankNodes (spec : ServiceSpec) (nodes : List NodeItem) : List NodeItem :=
  ((nodes.map (fun n => (score n spec,n))).insertionSort (fun a b => b.1 ≤ a.1)).map Prod.snd

def createReplicaInstance (spec : ServiceSpec) (nodeList : List NodeItem) :
    Except String (List ReplicaInstance) :=
  let candidates := nodeList.filter (fun n => filterNodeForInstance n spec)
  if candidates.isEmpty then .error "No suitable node found for service_spec"
  else
    let instanceCount := min spec.bestInstanceCount candidates.length
    .ok (((rankNodes score spec candidates).take instanceCount).map (newInstance now spec))

def reserve (spec : ServiceSpec) (node : NodeItem) : NodeItem :=
  {node with
    availableCpuMhz := node.availableCpuMhz - spec.requiredCpuMhz
    availableMemory := node.availableMemory - spec.requiredMemory
    availableGpuMemory := node.availableGpuMemory - spec.requiredGpuMem}

def reserveOn (spec : ServiceSpec) (nodeId : String) : List NodeItem → List NodeItem
  | [] => []
  | n :: ns => if n.id = nodeId then reserve spec n :: ns else n :: reserveOn spec nodeId ns

def reconcileSpecInstances (s : NodeScheduler) (spec : ServiceSpec) (shadowNodes : List NodeItem) :
    Except String (List ReplicaInstance × List NodeItem) :=
  let existing := s.existingInstances spec.id
  if spec.bestInstanceCount ≤ existing.length then .ok ([],shadowNodes)
  else
    let available := shadowNodes.filter (fun n => n.id ∉ existing.map ReplicaInstance.nodeId)
    let desired := {spec with bestInstanceCount := spec.bestInstanceCount - existing.length}
    match createReplicaInstance score now desired available with
    | .error e => .error e
    | .ok instances =>
      .ok (instances,instances.foldl (fun ns i => reserveOn spec i.nodeId ns) shadowNodes)

end Round

namespace NodeScheduler
variable (s : NodeScheduler) (specId : String)

def setSpecState (state : ServiceSpecState) : NodeScheduler :=
  {s with
    specs := s.specs.adjust (fun spec => if spec.id = specId then {spec with state} else spec)
      (fun spec => by split_ifs <;> rfl)}

def addReplicaInstance (i : ReplicaInstance) : NodeScheduler :=
  {s with replicaInstances := s.replicaInstances.insert i}

def removeInstancesOf : NodeScheduler :=
  {s with replicaInstances := s.replicaInstances.filter (fun i => i.specId ≠ specId)}

end NodeScheduler

variable (i : ReplicaInstance) (specId : String)

def ReplicaInstance.runsFor : Bool :=
  i.specId = specId && i.state ≠ .suspended && i.state ≠ .deleted

def ReplicaInstance.suspend : ReplicaInstance := {i with state := .suspended}

def NodeScheduler.suspendInstancesOf : NodeScheduler :=
  {s with
    replicaInstances := s.replicaInstances.adjust
      (fun i => if i.runsFor specId then i.suspend else i) (fun i => by split_ifs <;> rfl)}

structure SpecLoop where
  scheduler : NodeScheduler
  shadowNodes : List NodeItem
  actions : List SchedulerAction

namespace SpecLoop
variable (l : SpecLoop) (specId : String)

def placeInstances (instances : List ReplicaInstance) : SpecLoop :=
  {l with
    scheduler := instances.foldl NodeScheduler.addReplicaInstance l.scheduler
    actions := l.actions ++ instances.map .instanceReplica}

def deploy : SpecLoop :=
  {l with
    scheduler := l.scheduler.setSpecState specId .deployed
    actions := l.actions ++ [.changeServiceStatus specId .deployed]}

def uninstance : SpecLoop :=
  let removed := l.scheduler.replicaInstances.items.filter (fun i => i.specId = specId)
  {l with
    scheduler := (l.scheduler.removeInstancesOf specId).setSpecState specId .deleted
    actions := l.actions ++
      removed.map (fun i => .removeInstance i.specId i.instanceId i.nodeId) ++
      [.changeServiceStatus specId .deleted]}

def stopInstances : SpecLoop :=
  let stopped := l.scheduler.replicaInstances.items.filter (fun i => i.runsFor specId)
  {l with
    scheduler := l.scheduler.suspendInstancesOf specId
    actions := l.actions ++ stopped.map (fun i => .updateInstance i.instanceId i.suspend)}

end SpecLoop

section Round
variable (score : NodeItem → ServiceSpec → ℚ) (now : UInt64)

def specStep (l : SpecLoop) (specId : String) : Except String SpecLoop :=
  match l.scheduler.getServiceSpec specId with
  | none => .ok l
  | some spec =>
    match spec.state with
    | .new =>
      match reconcileSpecInstances score now l.scheduler spec l.shadowNodes with
      | .error e => .error e
      | .ok (instances,shadowNodes) =>
        .ok (({l with shadowNodes}.placeInstances instances).deploy specId)
    | .deployed =>
      match reconcileSpecInstances score now l.scheduler spec l.shadowNodes with
      | .error e => .error e
      | .ok (instances,shadowNodes) => .ok ({l with shadowNodes}.placeInstances instances)
    | .deleted => .ok (l.uninstance specId)
    | .disable => if spec.specType.isAppLike then .ok (l.stopInstances specId) else .ok l
    | .deployFailed | .abnormal => .ok l

def specLoop : SpecLoop → List String → Except String SpecLoop
  | l, [] => .ok l
  | l, specId :: specIds =>
    match specStep score now l specId with
    | .error e => .error e
    | .ok l' => specLoop l' specIds

def readyNodes (s : NodeScheduler) : List NodeItem :=
  s.nodes.items.filter (fun n => n.state = .ready)

def scheduleSpecChange (s : NodeScheduler) : Except String (List SchedulerAction × NodeScheduler) :=
  match specLoop score now ⟨s,readyNodes s,[]⟩ (s.specs.items.map ServiceSpec.id) with
  | .error e => .error e
  | .ok l => .ok (l.actions,l.scheduler)

end Round

/-- The changes of a spec that the gate looks at. -/
def specDiffers (spec last : ServiceSpec) : Bool :=
  spec.state ≠ last.state || spec.bestInstanceCount ≠ last.bestInstanceCount ||
  spec.requiredCpuMhz ≠ last.requiredCpuMhz || spec.requiredMemory ≠ last.requiredMemory ||
  spec.nodeAffinity ≠ last.nodeAffinity || spec.networkAffinity ≠ last.networkAffinity

def isSpecChanged : Bool :=
  match lastSnapshot with
  | none => true
  | some last =>
    s.specs.items.length ≠ last.specs.items.length ||
    s.specs.items.any (fun spec =>
      match last.specs.find? spec.id with
      | none => true
      | some lastSpec => specDiffers spec lastSpec)

def reviewedState : NodeState → Option NodeState
  | .new => some .prepare
  | .removing => some .deleted
  | _ => none

def reviewNode (node : NodeItem) : NodeItem :=
  {node with state := (reviewedState node.state).getD node.state}

def resortNodes : List SchedulerAction × NodeScheduler :=
  (s.nodes.items.filterMap (fun n =>
      (reviewedState n.state).map (fun state => .changeNodeStatus n.id state)),
    {s with nodes := s.nodes.adjust reviewNode (fun _ => rfl)})

/-- A running instance whose last proof of life is recent; the difference wraps as in `u64`. -/
def ReplicaInstance.isAlive : Bool :=
  i.state = .running && now - i.lastUpdateTime < instanceAliveTime

def NodeScheduler.aliveInstances :
    List ReplicaInstance :=
  s.replicaInstances.items.filter (fun i => i.specId = specId && i.isAlive now)

def newServiceInfo (alive : List ReplicaInstance) : ServiceInfo :=
  let infoMap : OrderedMap String (ℕ × ReplicaInstance) :=
    OrderedMap.ofList (alive.map (fun i => (i.instanceId,(100,i))))
  match infoMap.entries with
  | [(_,(_,i))] => .singleInstance i
  | _ => .randomCluster infoMap

structure InfoLoop where
  serviceInfos : OrderedMap String ServiceInfo
  refreshTimes : OrderedMap String UInt64
  actions : List SchedulerAction

def infoStep (l : InfoLoop)
    (spec : ServiceSpec) : InfoLoop :=
  let newInfo := newServiceInfo (s.aliveInstances now spec.id)
  let oldInfo := lastSnapshot.bind (fun last => last.serviceInfos.get? spec.id)
  let oldRefreshTime :=
    ((lastSnapshot.bind (fun last => last.serviceInfoRefreshTimes.get? spec.id)).or
      (oldInfo.map (fun _ => (lastSnapshot.map NodeScheduler.scheduleTime).getD 0))).getD 0
  if oldInfo = some newInfo then
    {l with
      serviceInfos := l.serviceInfos.insert spec.id newInfo
      refreshTimes := l.refreshTimes.insert spec.id oldRefreshTime}
  else
    match oldInfo with
    | some old =>
      if U64.saturatingSub now oldRefreshTime < serviceInfoRefreshInterval then
        {l with
          serviceInfos := l.serviceInfos.insert spec.id old
          refreshTimes := l.refreshTimes.insert spec.id oldRefreshTime}
      else
        {serviceInfos := l.serviceInfos.insert spec.id newInfo
         refreshTimes := l.refreshTimes.insert spec.id now
         actions := l.actions ++ [.updateServiceInfo spec.id newInfo]}
    | none =>
      {serviceInfos := l.serviceInfos.insert spec.id newInfo
       refreshTimes := l.refreshTimes.insert spec.id now
       actions := l.actions ++ [.updateServiceInfo spec.id newInfo]}

def calcServiceInfos :
    List SchedulerAction × NodeScheduler :=
  let l := s.specs.items.foldl (infoStep s now lastSnapshot)
    ⟨s.serviceInfos,s.serviceInfoRefreshTimes,[]⟩
  (l.actions,{s with serviceInfos := l.serviceInfos,serviceInfoRefreshTimes := l.refreshTimes})

def schedule (score : NodeItem → ServiceSpec → ℚ) (now : UInt64) (s : NodeScheduler)
    (lastSnapshot : Option NodeScheduler) : Except String (List SchedulerAction × NodeScheduler) :=
  if s.nodes.items.isEmpty then .error "No nodes found"
  else
    let isSmallSystem := decide (s.nodes.items.length ≤ smallSystemNodeCount)
    let reviewed := resortNodes s
    if !reviewed.1.isEmpty && isSmallSystem then .ok reviewed
    else
      match
        (if isSpecChanged reviewed.2 lastSnapshot then scheduleSpecChange score now reviewed.2
        else .ok ([],reviewed.2)) with
      | .error e => .error e
      | .ok (specActions,placed) =>
        let infos := calcServiceInfos placed now lastSnapshot
        .ok (reviewed.1 ++ specActions ++ infos.1,infos.2)

end BuckyOS.Scheduler
