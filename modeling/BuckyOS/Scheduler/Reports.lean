import BuckyOS.Scheduler.Convergence

/-! Figures that other machines report: the node list is built from them, and the age of an
instance from its last heartbeat, by subtractions that wrap as in `u64`. A round is run once more
as a build with overflow checks runs it. -/
namespace BuckyOS.Scheduler
open NodeScheduler List SpecLoop

structure DeviceReport where
  deviceType : String
  state : Option String := none
  netId : Option String := none
  supportContainer : Bool := true
  cpuMhz : Option UInt32 := none
  totalMem : Option UInt64 := none
  memUsage : Option UInt64 := none
  gpuTotalMem : Option UInt64 := none
  gpuUsedMem : Option UInt64 := none
  gpuTflops : Option ℚ := none

namespace DeviceReport
variable (r : DeviceReport)

def memory : UInt64 := r.totalMem.getD (1024 * 1024 * 1024 * 2)

end DeviceReport

section Checked
variable (score : NodeItem → ServiceSpec → ℚ) (now : UInt64)

end Checked

/-- The ports of the apps are below `2 ^ 16`, and no running instance was heard from ahead of the
clock. -/
structure NodeScheduler.Plausible (s : NodeScheduler) (now : UInt64) : Prop where
  ports : ∀ spec ∈ s.specs.items, "www" ∈ spec.servicePortsConfig.keys → spec.appIndex ≠ 0 →
    spec.appIndex.toNat * 16 + baseAppPort.toNat < 2 ^ 16
  heard : ∀ i ∈ s.replicaInstances.items, i.state = .running → i.lastUpdateTime ≤ now

section Plausible
variable {score : NodeItem → ServiceSpec → ℚ} {now : UInt64} {s t post : NodeScheduler}
  {l l' : SpecLoop} {last : Option NodeScheduler} {actions : List SchedulerAction}

namespace NodeScheduler
theorem Plausible.of_changes (h : s.Plausible now)
    (hspecs : ∀ spec ∈ t.specs.items, ∃ spec' ∈ s.specs.items, spec'.appIndex = spec.appIndex ∧
      spec'.servicePortsConfig = spec.servicePortsConfig)
    (hinstances : ∀ i ∈ t.replicaInstances.items, i.state = .running →
      i ∈ s.replicaInstances.items ∨ i.lastUpdateTime = now) : t.Plausible now where
  ports spec hspec := by
    obtain ⟨spec',hspec',hindex,hports⟩ := hspecs spec hspec
    rw [← hindex,← hports]
    exact h.ports spec' hspec'
  heard i hi hrun := by
    rcases hinstances i hi hrun with hold | hnow
    · exact h.heard i hold hrun
    · exact hnow.le

theorem Plausible.setSpecState (h : s.Plausible now) (specId : String) (state : ServiceSpecState) :
    (s.setSpecState specId state).Plausible now := by
  refine h.of_changes (fun spec hspec => ?_) (fun i hi _ => .inl hi)
  obtain ⟨spec',hspec',rfl⟩ := mem_map.mp hspec
  refine ⟨spec',hspec',?_⟩
  split_ifs <;> exact ⟨rfl,rfl⟩

theorem Plausible.place (h : s.Plausible now) (spec : ServiceSpec) (chosen : List NodeItem) :
    (s.place now spec chosen).Plausible now := by
  induction chosen generalizing s with
  | nil => exact h
  | cons n chosen ih =>
    rw [place_cons]
    refine ih (h.of_changes (fun spec hspec => ⟨spec,hspec,rfl,rfl⟩) (fun i hi _ => ?_))
    rcases s.replicaInstances.mem_insert.mp hi with rfl | ⟨hi,_⟩
    · exact .inr rfl
    · exact .inl hi

theorem Plausible.resortNodes (h : s.Plausible now) : (resortNodes s).2.Plausible now := ⟨h.ports,h.heard⟩

end NodeScheduler

end Plausible

def reported (used : UInt64) : DeviceReport :=
  {deviceType := "ood",totalMem := some 4096,memUsage := some used}

end BuckyOS.Scheduler
