import Mathlib.Data.String.Basic
import BuckyOS.Lib.OrderedMap
import BuckyOS.Lib.Registry

/-! Nodes, service specs, replica instances and service infos of the node scheduler, its
actions, and the ids that tie them together. -/
namespace BuckyOS.Scheduler
inductive ServiceSpecType
  | kernel | service | app | agent
  deriving DecidableEq

def ServiceSpecType.isAppLike : ServiceSpecType → Bool
  | .app | .agent => true
  | _ => false

inductive ServiceSpecState
  | new | deployed | deployFailed | abnormal | disable | deleted
  deriving DecidableEq

inductive InstanceState
  | prepare | running | suspended | deleted
  deriving DecidableEq

inductive NodeType
  | ood | server | desktop | mobile | sensor | iotController
  | unknownClient (name : String)
  deriving DecidableEq

inductive NodeState
  | new | prepare | ready | abnormal | unavailable | removing | deleted
  deriving DecidableEq

structure ServiceSpec where
  id : String
  appId : String
  appIndex : UInt16
  ownerId : String
  specType : ServiceSpecType
  state : ServiceSpecState
  bestInstanceCount : ℕ
  needContainer : Bool
  requiredCpuMhz : ℕ
  requiredMemory : ℕ
  requiredGpuTflops : ℚ
  requiredGpuMem : ℕ
  nodeAffinity : Option String
  networkAffinity : Option String
  servicePortsConfig : OrderedMap String UInt16
  deriving DecidableEq

structure NodeItem where
  id : String
  nodeType : NodeType
  labels : List String
  networkZone : String
  supportContainer : Bool
  state : NodeState
  availableCpuMhz : ℕ
  totalCpuMhz : ℕ
  availableMemory : ℕ
  totalMemory : ℕ
  availableGpuMemory : ℕ
  totalGpuMemory : ℕ
  gpuTflops : ℚ
  deriving DecidableEq

structure ReplicaInstance where
  nodeId : String
  specId : String
  instanceId : String
  lastUpdateTime : UInt64
  state : InstanceState
  servicePorts : OrderedMap String UInt16
  deriving DecidableEq

/-- How a service is reached: one instance, or several by instance id with their weights. -/
inductive ServiceInfo
  | singleInstance (i : ReplicaInstance)
  | randomCluster (cluster : OrderedMap String (ℕ × ReplicaInstance))
  deriving DecidableEq

inductive SchedulerAction
  | changeNodeStatus (nodeId : String) (state : NodeState)
  | changeServiceStatus (specId : String) (state : ServiceSpecState)
  | instanceReplica (i : ReplicaInstance)
  | updateInstance (instanceId : String) (i : ReplicaInstance)
  | removeInstance (specId instanceId nodeId : String)
  | updateServiceInfo (specId : String) (info : ServiceInfo)
  deriving DecidableEq

def createReplicaInstanceId (specId nodeId : String) : String := specId ++ "@" ++ nodeId

structure NodeScheduler where
  nodes : Registry NodeItem.id
  specs : Registry ServiceSpec.id
  replicaInstances : Registry ReplicaInstance.instanceId
  serviceInfos : OrderedMap String ServiceInfo
  serviceInfoRefreshTimes : OrderedMap String UInt64
  scheduleTime : UInt64
  deriving DecidableEq

namespace ReplicaInstance
def serves (i : ReplicaInstance) (specId : String) : Bool :=
  i.specId = specId && i.state ≠ .deleted

end ReplicaInstance

namespace NodeScheduler
def getServiceSpec (s : NodeScheduler) (specId : String) : Option ServiceSpec :=
  s.specs.find? specId

def existingInstances (s : NodeScheduler) (specId : String) : List ReplicaInstance :=
  s.replicaInstances.items.filter (fun i => i.serves specId)

end NodeScheduler
end BuckyOS.Scheduler
