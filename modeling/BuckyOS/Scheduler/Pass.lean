import BuckyOS.Scheduler.Schedule
import BuckyOS.Lib.Lists

/-! The placement pass turn by turn: what a spec's turn does for the spec, and what it leaves
alone of the other specs, of their instances and of the ledger. -/
namespace BuckyOS.Scheduler
open List Registry

namespace NodeItem
/-- The same node with no more room than before. -/
structure Drained (n m : NodeItem) : Prop where
  same : m = {n with
    availableCpuMhz := m.availableCpuMhz
    availableMemory := m.availableMemory
    availableGpuMemory := m.availableGpuMemory}
  cpu : m.availableCpuMhz ≤ n.availableCpuMhz
  memory : m.availableMemory ≤ n.availableMemory
  gpu : m.availableGpuMemory ≤ n.availableGpuMemory

theorem Drained.refl (n : NodeItem) : Drained n n := ⟨rfl,le_rfl,le_rfl,le_rfl⟩

theorem Drained.trans {n m k : NodeItem} (h : Drained n m) (h' : Drained m k) : Drained n k where
  same := by rw [h'.same,h.same]
  cpu := h'.cpu.trans h.cpu
  memory := h'.memory.trans h.memory
  gpu := h'.gpu.trans h.gpu

theorem Drained.id_eq {n m : NodeItem} (h : Drained n m) : m.id = n.id := by rw [h.same]

theorem drained_reserve (spec : ServiceSpec) (n : NodeItem) : Drained n (reserve spec n) :=
  ⟨rfl,Nat.sub_le _ _,Nat.sub_le _ _,Nat.sub_le _ _⟩

end NodeItem

theorem filterNodeForInstance_iff (n : NodeItem) (spec : ServiceSpec) :
    filterNodeForInstance n spec = true ↔ n.state = .ready ∧ (n.nodeType = .ood ∨ n.nodeType = .server) ∧
      (spec.needContainer = true → n.supportContainer = true) ∧
      spec.requiredCpuMhz ≤ n.availableCpuMhz ∧ spec.requiredMemory ≤ n.availableMemory ∧
      spec.requiredGpuMem ≤ n.availableGpuMemory ∧ spec.requiredGpuTflops ≤ n.gpuTflops ∧
      ∀ affinity, spec.nodeAffinity = some affinity → affinity ∈ n.labels := by
  unfold filterNodeForInstance
  split_ifs with hstate htype hcontainer hroom hgpu
  · simp [hstate]
  · simp only [false_iff]
    tauto
  · simp [hcontainer.1,hcontainer.2]
  · simp only [false_iff]
    omega
  · simp only [false_iff]
    rw [← not_le,← not_le] at hgpu
    tauto
  · have hstate := not_not.mp hstate
    have htype : n.nodeType = .ood ∨ n.nodeType = .server := by tauto
    have hcontainer : spec.needContainer = true → n.supportContainer = true := by simpa using hcontainer
    rw [not_or,not_lt,not_lt] at hroom hgpu
    cases spec.nodeAffinity with
    | none => simpa [hstate,htype,hroom,hgpu] using hcontainer
    | some affinity => simpa [hstate,htype,hroom,hgpu] using fun _ => hcontainer

variable {n : NodeItem} {spec : ServiceSpec}

theorem filterNodeForInstance_mono {m : NodeItem} (h : n.Drained m)
    (hm : filterNodeForInstance m spec = true) : filterNodeForInstance n spec = true := by
  rw [filterNodeForInstance_iff] at hm ⊢
  obtain ⟨hstate,htype,hcontainer,hcpu,hmemory,hgpu,htflops,haffinity⟩ := hm
  rw [h.same] at hstate htype hcontainer htflops haffinity
  exact ⟨hstate,htype,hcontainer,hcpu.trans h.cpu,hmemory.trans h.memory,hgpu.trans h.gpu,htflops,
    haffinity⟩

theorem rankNodes_perm (score : NodeItem → ServiceSpec → ℚ) (spec : ServiceSpec)
    (nodes : List NodeItem) : (rankNodes score spec nodes).Perm nodes := by
  have hsort := (perm_insertionSort (fun a b : ℚ × NodeItem => b.1 ≤ a.1)
    (nodes.map (fun n => (score n spec,n)))).map Prod.snd
  rw [map_map] at hsort
  simpa [rankNodes,Function.comp_def] using hsort

section Turn
variable (score : NodeItem → ServiceSpec → ℚ) (now : UInt64)

variable (s : NodeScheduler)

def candidates (spec : ServiceSpec) (shadowNodes : List NodeItem) :
    List NodeItem :=
  shadowNodes.filter (fun n =>
    n.id ∉ (s.existingInstances spec.id).map ReplicaInstance.nodeId &&
      filterNodeForInstance n spec)

def missing (spec : ServiceSpec) : ℕ :=
  spec.bestInstanceCount - (s.existingInstances spec.id).length

def chosenNodes (spec : ServiceSpec) (shadowNodes : List NodeItem) :
    List NodeItem :=
  (rankNodes score {spec with bestInstanceCount := missing s spec}
    (candidates s spec shadowNodes)).take (missing s spec)

def noSuitableNode : String := "No suitable node found for service_spec"

theorem createReplicaInstance_eq (spec : ServiceSpec) (nodes : List NodeItem) :
    createReplicaInstance score now spec nodes =
      if nodes.filter (fun n => filterNodeForInstance n spec) = [] then .error noSuitableNode
      else .ok (((rankNodes score spec (nodes.filter (fun n => filterNodeForInstance n spec))).take
        spec.bestInstanceCount).map (newInstance now spec)) := by
  have hlength := (rankNodes_perm score spec
    (nodes.filter (fun n => filterNodeForInstance n spec))).length_eq
  simp only [createReplicaInstance,List.isEmpty_iff,← hlength,take_min_length,noSuitableNode]

theorem reconcileSpecInstances_eq (spec : ServiceSpec)
    (shadowNodes : List NodeItem) : reconcileSpecInstances score now s spec shadowNodes =
      if missing s spec = 0 then .ok ([],shadowNodes)
      else if candidates s spec shadowNodes = [] then .error noSuitableNode
      else .ok ((chosenNodes score s spec shadowNodes).map (newInstance now spec),
        (chosenNodes score s spec shadowNodes).foldl (fun ns n => reserveOn spec n.id ns) shadowNodes) := by
  have hcandidates : (shadowNodes.filter
      (fun n => n.id ∉ (s.existingInstances spec.id).map ReplicaInstance.nodeId)).filter
      (fun n => filterNodeForInstance n {spec with bestInstanceCount := missing s spec}) =
      candidates s spec shadowNodes := by
    rw [filter_filter,candidates]
    apply filter_congr
    intro n _
    rw [Bool.and_comm]
    rfl
  have hcreate := createReplicaInstance_eq score now {spec with bestInstanceCount := missing s spec}
    (shadowNodes.filter (fun n => n.id ∉ (s.existingInstances spec.id).map ReplicaInstance.nodeId))
  rw [hcandidates] at hcreate
  unfold reconcileSpecInstances
  by_cases henough : missing s spec = 0
  · rw [if_pos henough,if_pos (Nat.sub_eq_zero_iff_le.mp henough)]
  · rw [if_neg henough,if_neg (fun h => henough (Nat.sub_eq_zero_of_le h))]
    unfold missing at hcreate
    dsimp only
    rw [hcreate]
    by_cases hnone : candidates s spec shadowNodes = []
    · rw [if_pos hnone,if_pos hnone]
    · rw [if_neg hnone,if_neg hnone]
      simp only [foldl_map]
      rfl

theorem chosenNodes_length (spec : ServiceSpec) (shadowNodes : List NodeItem) :
    (chosenNodes score s spec shadowNodes).length =
      min (missing s spec) (candidates s spec shadowNodes).length := by
  rw [chosenNodes,length_take,(rankNodes_perm _ _ _).length_eq]

theorem chosenNodes_subperm (spec : ServiceSpec) (shadowNodes : List NodeItem) :
    (chosenNodes score s spec shadowNodes).Subperm (candidates s spec shadowNodes) :=
  (take_sublist _ _).subperm.trans (rankNodes_perm _ _ _).subperm

theorem mem_candidates {s : NodeScheduler} {shadowNodes : List NodeItem} :
    n ∈ candidates s spec shadowNodes ↔
      n ∈ shadowNodes ∧ n.id ∉ (s.existingInstances spec.id).map ReplicaInstance.nodeId ∧
        filterNodeForInstance n spec = true := by
  simp [candidates]

end Turn

section Ledger
/-- A ledger after charges to some of its nodes. -/
def Charged (used : List String) (ns ms : List NodeItem) : Prop :=
  List.Forall₂ (fun n m => n.Drained m ∧ (n.id ∉ used → m = n)) ns ms

theorem Charged.refl (ns : List NodeItem) : Charged [] ns ns := by
  rw [Charged,forall₂_same]
  exact fun n _ => ⟨NodeItem.Drained.refl n,fun _ => rfl⟩

variable {used : List String} {ns ms : List NodeItem}

theorem Charged.trans {used' : List String} {ks : List NodeItem} (h : Charged used ns ms)
    (h' : Charged used' ms ks) : Charged (used ++ used') ns ks := by
  induction h generalizing ks with
  | nil =>
    cases h'
    exact .nil
  | cons hnm _ ih =>
    cases h' with
    | cons hmk hrest =>
      refine .cons ⟨hnm.1.trans hmk.1,fun hn => ?_⟩ (ih hrest)
      rw [mem_append,not_or] at hn
      rw [hmk.2 (by rw [hnm.2 hn.1]; exact hn.2)]
      exact hnm.2 hn.1

theorem Charged.ids (h : Charged used ns ms) : ms.map NodeItem.id = ns.map NodeItem.id := by
  induction h with
  | nil => rfl
  | cons hnm _ ih => rw [map_cons,map_cons,hnm.1.id_eq,ih]

theorem Charged.mem (h : Charged used ns ms) (hn : n ∈ ns) (hfree : n.id ∉ used) : n ∈ ms := by
  induction h with
  | nil => exact hn
  | cons hnm _ ih =>
    rcases mem_cons.mp hn with rfl | hrest
    · rw [hnm.2 hfree]
      exact mem_cons_self
    · exact mem_cons_of_mem _ (ih hrest)

theorem Charged.source (h : Charged used ns ms) {m : NodeItem} (hm : m ∈ ms) : ∃ n ∈ ns, n.Drained m := by
  induction h with
  | nil => simp at hm
  | cons hnm _ ih =>
    rcases mem_cons.mp hm with rfl | hrest
    · exact ⟨_,mem_cons_self,hnm.1⟩
    · obtain ⟨n,hn,hd⟩ := ih hrest
      exact ⟨n,mem_cons_of_mem _ hn,hd⟩

theorem charged_reserveOn (spec : ServiceSpec) (nodeId : String) (ns : List NodeItem) :
    Charged [nodeId] ns (reserveOn spec nodeId ns) := by
  induction ns with
  | nil => exact .nil
  | cons n ns ih =>
    rw [reserveOn]
    split_ifs with h
    · refine .cons ⟨NodeItem.drained_reserve spec n,fun hn => ?_⟩ ?_
      · simp [h] at hn
      · rw [forall₂_same]
        exact fun m _ => ⟨NodeItem.Drained.refl m,fun _ => rfl⟩
    · exact .cons ⟨NodeItem.Drained.refl n,fun _ => rfl⟩ ih

theorem charged_reserve_fold (spec : ServiceSpec) (chosen ns : List NodeItem) :
    Charged (chosen.map NodeItem.id) ns (chosen.foldl (fun ms n => reserveOn spec n.id ms) ns) := by
  induction chosen generalizing ns with
  | nil => exact Charged.refl ns
  | cons n chosen ih => exact (charged_reserveOn spec n.id ns).trans (ih (reserveOn spec n.id ns))

end Ledger

namespace NodeScheduler
def instancesOf (s : NodeScheduler) (specId : String) : List ReplicaInstance :=
  s.replicaInstances.items.filter (fun i => i.specId = specId)

theorem existingInstances_eq (s : NodeScheduler) (specId : String) : s.existingInstances specId =
      (s.instancesOf specId).filter (fun i => i.state ≠ .deleted) := by
  rw [instancesOf,filter_filter]
  apply filter_congr
  intro i _
  rw [ReplicaInstance.serves,Bool.and_comm]

variable {s t : NodeScheduler} {specId : String}

theorem existingInstances_perm (h : (t.instancesOf specId).Perm (s.instancesOf specId)) :
    (t.existingInstances specId).Perm (s.existingInstances specId) := by
  rw [existingInstances_eq,existingInstances_eq]
  exact h.filter _

/-- No instance id stands for two pairs of a spec and a node. -/
structure DistinctIds (s : NodeScheduler) : Prop where
  own : ∀ p ∈ s.specs.items.map ServiceSpec.id, ∀ n ∈ s.nodes.items.map NodeItem.id,
    ∀ i ∈ s.replicaInstances.items, i.instanceId = createReplicaInstanceId p n →
      i.specId = p ∧ i.nodeId = n
  apart : ∀ p ∈ s.specs.items.map ServiceSpec.id, ∀ n ∈ s.nodes.items.map NodeItem.id,
    ∀ q ∈ s.specs.items.map ServiceSpec.id, ∀ m ∈ s.nodes.items.map NodeItem.id,
      createReplicaInstanceId p n = createReplicaInstanceId q m → p = q ∧ n = m

/-- What a change to one spec leaves alone. -/
structure Frame (s t : NodeScheduler) (specId : String) : Prop where
  nodes : t.nodes = s.nodes
  specIds : t.specs.items.map ServiceSpec.id = s.specs.items.map ServiceSpec.id
  specs : ∀ q, q ≠ specId → t.getServiceSpec q = s.getServiceSpec q
  instances : ∀ q, q ≠ specId → (t.instancesOf q).Perm (s.instancesOf q)

theorem Frame.refl (s : NodeScheduler) (specId : String) : Frame s s specId :=
  ⟨rfl,rfl,fun _ _ => rfl,fun _ _ => .refl _⟩

theorem Frame.trans {u : NodeScheduler} (h : Frame s t specId) (h' : Frame t u specId) :
    Frame s u specId where
  nodes := h'.nodes.trans h.nodes
  specIds := h'.specIds.trans h.specIds
  specs q hq := (h'.specs q hq).trans (h.specs q hq)
  instances q hq := (h'.instances q hq).trans (h.instances q hq)

theorem DistinctIds.of_subset (h : s.DistinctIds) (hnodes : t.nodes = s.nodes)
    (hspecs : t.specs.items.map ServiceSpec.id = s.specs.items.map ServiceSpec.id)
    (hinstances : ∀ i ∈ t.replicaInstances.items, ∃ j ∈ s.replicaInstances.items,
      j.instanceId = i.instanceId ∧ j.specId = i.specId ∧ j.nodeId = i.nodeId) : t.DistinctIds where
  own p hp n hn i hi hid := by
    obtain ⟨j,hj,hji,hjs,hjn⟩ := hinstances i hi
    rw [← hjs,← hjn]
    exact h.own p (hspecs ▸ hp) n (hnodes ▸ hn) j hj (hji.trans hid)
  apart := by
    rw [hspecs,hnodes]
    exact h.apart

section Placement
variable {s : NodeScheduler} {now : UInt64} {spec : ServiceSpec} {n : NodeItem}

section
variable (hids : s.DistinctIds) (hspec : spec.id ∈ s.specs.items.map ServiceSpec.id)
  (hn : n.id ∈ s.nodes.items.map NodeItem.id)
include hids hspec hn

theorem frame_addReplicaInstance : Frame s (s.addReplicaInstance (newInstance now spec n)) spec.id where
  nodes := rfl
  specIds := rfl
  specs _ _ := rfl
  instances q hq := by
    have hother : [newInstance now spec n].filter (fun i => i.specId = q) = [] := by
      simpa [newInstance] using hq.symm
    have hperm := s.replicaInstances.filter_insert_perm (a := newInstance now spec n)
      (p := fun i => i.specId = q) (fun i hi hid => by
        rw [(hids.own _ hspec _ hn i hi hid).1]
        simpa using hq.symm)
    rw [hother] at hperm
    exact hperm

theorem distinctIds_addReplicaInstance : (s.addReplicaInstance (newInstance now spec n)).DistinctIds where
  own p hp m hm i hi hid := by
    rcases (s.replicaInstances.mem_insert).mp hi with rfl | ⟨hi,_⟩
    · exact hids.apart _ hspec _ hn _ hp _ hm hid
    · exact hids.own p hp m hm i hi hid
  apart := hids.apart

theorem existingInstances_addReplicaInstance
    (hfree : n.id ∉ (s.existingInstances spec.id).map ReplicaInstance.nodeId) :
    ((s.addReplicaInstance (newInstance now spec n)).existingInstances spec.id).Perm
      (newInstance now spec n :: s.existingInstances spec.id) := by
  refine s.replicaInstances.filter_insert_perm (a := newInstance now spec n)
    (p := fun i => i.serves spec.id) (fun i hi hid => ?_) |>.trans ?_
  · have hown := hids.own _ hspec _ hn i hi hid
    rw [← Bool.not_eq_true]
    intro hserves
    apply hfree
    rw [← hown.2]
    exact mem_map_of_mem (mem_filter.mpr ⟨hi,hserves⟩)
  · rw [filter_cons_of_pos (by simp [newInstance,ReplicaInstance.serves])]
    rfl

end

def place (s : NodeScheduler) (now : UInt64) (spec : ServiceSpec) (chosen : List NodeItem) :
    NodeScheduler := (chosen.map (newInstance now spec)).foldl addReplicaInstance s

theorem place_cons (s : NodeScheduler) (now : UInt64) (spec : ServiceSpec) (n : NodeItem)
    (chosen : List NodeItem) : s.place now spec (n :: chosen) =
      (s.addReplicaInstance (newInstance now spec n)).place now spec chosen := rfl

theorem place_specs (s : NodeScheduler) (now : UInt64) (spec : ServiceSpec)
    (chosen : List NodeItem) : (s.place now spec chosen).specs = s.specs := by
  induction chosen generalizing s with
  | nil => rfl
  | cons n chosen ih =>
    rw [place_cons,ih]
    rfl

section
variable {chosen : List NodeItem} (hids : s.DistinctIds)
  (hspec : spec.id ∈ s.specs.items.map ServiceSpec.id)
  (hreg : ∀ m ∈ chosen, m.id ∈ s.nodes.items.map NodeItem.id)
include hids hspec hreg

theorem frame_place :
    Frame s (s.place now spec chosen) spec.id ∧ (s.place now spec chosen).DistinctIds := by
  induction chosen generalizing s with
  | nil => exact ⟨Frame.refl s spec.id,hids⟩
  | cons n chosen ih =>
    have hn := hreg n mem_cons_self
    obtain ⟨hframe,hdistinct⟩ := @ih (s.addReplicaInstance (newInstance now spec n))
      (distinctIds_addReplicaInstance hids hspec hn) hspec (fun m hm => hreg m (mem_cons_of_mem _ hm))
    exact ⟨(frame_addReplicaInstance hids hspec hn).trans hframe,hdistinct⟩

theorem existingInstances_place (hnodup : (chosen.map NodeItem.id).Nodup)
    (hfree : ∀ m ∈ chosen, m.id ∉ (s.existingInstances spec.id).map ReplicaInstance.nodeId) :
    ((s.place now spec chosen).existingInstances spec.id).Perm
      (chosen.map (newInstance now spec) ++ s.existingInstances spec.id) := by
  induction chosen generalizing s with
  | nil => exact .refl _
  | cons n chosen ih =>
    have hn := hreg n mem_cons_self
    have hadd := @existingInstances_addReplicaInstance s now spec n hids hspec hn (hfree n mem_cons_self)
    rw [map_cons,nodup_cons] at hnodup
    have hrest : ∀ m ∈ chosen, m.id ∉
        ((s.addReplicaInstance (newInstance now spec n)).existingInstances spec.id).map
          ReplicaInstance.nodeId := by
      intro m hm hin
      rw [(hadd.map ReplicaInstance.nodeId).mem_iff,map_cons,mem_cons] at hin
      rcases hin with h | h
      · exact hnodup.1 (mem_map.mpr ⟨m,hm,h⟩)
      · exact hfree m (mem_cons_of_mem _ hm) h
    have hplace := @ih (s.addReplicaInstance (newInstance now spec n))
      (distinctIds_addReplicaInstance hids hspec hn) hspec
      (fun m hm => hreg m (mem_cons_of_mem _ hm)) hnodup.2 hrest
    exact (hplace.trans (hadd.append_left _)).trans perm_middle

end

end Placement

theorem getServiceSpec_setSpecState (s : NodeScheduler) (specId : String)
    (state : ServiceSpecState) (q : String) : (s.setSpecState specId state).getServiceSpec q =
      (s.getServiceSpec q).map (fun spec => if spec.id = specId then {spec with state} else spec) := by
  rw [getServiceSpec,getServiceSpec,Registry.find?,Registry.find?,setSpecState,
    Registry.items_adjust,List.find?_map]
  congr 2
  funext spec
  simp only [Function.comp_apply]
  split_ifs <;> rfl

theorem specIds_setSpecState (s : NodeScheduler) (specId : String) (state : ServiceSpecState) :
    (s.setSpecState specId state).specs.items.map ServiceSpec.id = s.specs.items.map ServiceSpec.id := by
  rw [setSpecState,Registry.items_adjust,map_map]
  apply map_congr_left
  intro spec _
  simp only [Function.comp_apply]
  split_ifs <;> rfl

theorem getServiceSpec_eq_some :
    s.getServiceSpec specId = some spec ↔ spec ∈ s.specs.items ∧ spec.id = specId :=
  s.specs.find?_eq_some_iff

theorem frame_setSpecState (s : NodeScheduler) (specId : String) (state : ServiceSpecState) :
    Frame s (s.setSpecState specId state) specId where
  nodes := rfl
  specIds := specIds_setSpecState s specId state
  specs q hq := by
    rw [getServiceSpec_setSpecState]
    cases hspec : s.getServiceSpec q with
    | none => rfl
    | some spec =>
      have hid := (getServiceSpec_eq_some.mp hspec).2
      rw [Option.map_some,if_neg (hid ▸ hq)]
  instances _ _ := .refl _

theorem distinctIds_setSpecState (h : s.DistinctIds) (specId : String) (state : ServiceSpecState) :
    (s.setSpecState specId state).DistinctIds :=
  h.of_subset rfl (specIds_setSpecState s specId state) (fun i hi => ⟨i,hi,rfl,rfl,rfl⟩)

theorem frame_removeInstancesOf (s : NodeScheduler) (specId : String) :
    Frame s (s.removeInstancesOf specId) specId where
  nodes := rfl
  specIds := rfl
  specs _ _ := rfl
  instances q hq := by
    rw [instancesOf,removeInstancesOf,items_filter,filter_filter,instancesOf]
    refine .of_eq (filter_congr fun i _ => ?_)
    by_cases hi : i.specId = q
    · simp [hi,hq]
    · simp [hi]

theorem distinctIds_removeInstancesOf (h : s.DistinctIds) (specId : String) :
    (s.removeInstancesOf specId).DistinctIds :=
  h.of_subset rfl rfl (fun i hi => ⟨i,(mem_filter.mp hi).1,rfl,rfl,rfl⟩)

theorem frame_suspendInstancesOf (s : NodeScheduler) (specId : String) :
    Frame s (s.suspendInstancesOf specId) specId where
  nodes := rfl
  specIds := rfl
  specs _ _ := rfl
  instances q hq := by
    rw [instancesOf,suspendInstancesOf,Registry.items_adjust,filter_map,instancesOf]
    have hfilter : s.replicaInstances.items.filter ((fun i => decide (i.specId = q)) ∘
        fun i => if i.runsFor specId then i.suspend else i) =
        s.replicaInstances.items.filter (fun i => i.specId = q) := by
      apply filter_congr
      intro i _
      simp only [Function.comp_apply]
      split_ifs <;> rfl
    rw [hfilter]
    refine .of_eq ?_
    conv_rhs => rw [← map_id (s.replicaInstances.items.filter (fun i => i.specId = q))]
    apply map_congr_left
    intro i hi
    have hi : i.specId = q := by simpa using (mem_filter.mp hi).2
    rw [if_neg (by simp [ReplicaInstance.runsFor,hi,hq])]
    rfl

theorem distinctIds_suspendInstancesOf (h : s.DistinctIds) (specId : String) :
    (s.suspendInstancesOf specId).DistinctIds := by
  refine h.of_subset rfl rfl (fun i hi => ?_)
  obtain ⟨j,hj,rfl⟩ := mem_map.mp hi
  refine ⟨j,hj,?_⟩
  split_ifs <;> exact ⟨rfl,rfl,rfl⟩

end NodeScheduler
end BuckyOS.Scheduler
