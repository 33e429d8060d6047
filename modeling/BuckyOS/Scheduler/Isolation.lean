import BuckyOS.Scheduler.Convergence

/-! What a spec that no node can take does to the rest of the placement pass. -/
namespace BuckyOS.Scheduler
open NodeScheduler List SpecLoop

namespace NodeScheduler
variable (s : NodeScheduler) (spec : ServiceSpec)

/-- A spec that lacks instances and that no further ready node can take. -/
def Unplaceable : Prop :=
  spec ∈ s.specs.items ∧ (spec.state = .new ∨ spec.state = .deployed) ∧
    missing s spec ≠ 0 ∧ candidates s spec (readyNodes s) = []

def withoutSpec (specId : String) : NodeScheduler :=
  {s with specs := s.specs.erase specId}

def Idle : Prop :=
  match spec.state with
  | .new => False
  | .deployed => missing s spec = 0
  | .deleted => False
  | .disable => spec.specType.isAppLike = true →
      ∀ i ∈ s.replicaInstances.items, i.runsFor spec.id = false
  | .deployFailed | .abnormal => True

end NodeScheduler

def emitted (result : Except String (List SchedulerAction × NodeScheduler)) :
    List SchedulerAction :=
  match result with
  | .ok (actions,_) => actions
  | .error _ => []

def emittedFor (specId : String)
    (result : Except String (List SchedulerAction × NodeScheduler)) : List SchedulerAction :=
  (emitted result).filter (fun a => a.specId? = some specId)

section Isolation
variable {score : NodeItem → ServiceSpec → ℚ} {now : UInt64} {s : NodeScheduler}

theorem specLoop_error {l : SpecLoop} {ids : List String} {e : String}
    (h : specLoop score now l ids = .error e) : e = noSuitableNode := by
  induction ids generalizing l with
  | nil => simp [specLoop] at h
  | cons specId ids ih =>
    rw [specLoop] at h
    cases hstep : specStep score now l specId with
    | error e' =>
      rw [hstep] at h
      exact Except.error.inj h ▸ specStep_error hstep
    | ok l' =>
      rw [hstep] at h
      exact ih h

theorem candidates_subset {l : SpecLoop} {spec : ServiceSpec} {ids : List String}
    {new : List SchedulerAction} (hturns : SpecLoop.Turns ⟨s,readyNodes s,[]⟩ l ids new)
    (hspec : spec.id ∉ ids) {m : NodeItem} (hm : m ∈ candidates l.scheduler spec l.shadowNodes) :
    ∃ n ∈ candidates s spec (readyNodes s), n.id = m.id := by
  obtain ⟨hshadow,hhosts,hfilter⟩ := mem_candidates.mp hm
  obtain ⟨n,hn,hdrained⟩ := hturns.charged.source hshadow
  have hperm := existingInstances_perm (hturns.instances spec.id hspec)
  refine ⟨n,mem_candidates.mpr ⟨hn,?_,filterNodeForInstance_mono hdrained hfilter⟩,hdrained.id_eq.symm⟩
  rw [← hdrained.id_eq,← (hperm.map _).mem_iff]
  exact hhosts

theorem scheduleSpecChange_unplaceable (hids : s.DistinctIds) {spec : ServiceSpec}
    (h : s.Unplaceable spec) : scheduleSpecChange score now s = .error noSuitableNode := by
  obtain ⟨hspec,hstate,hmissing,hnone⟩ := h
  obtain ⟨before,after,hsplit⟩ := append_of_mem (mem_map_of_mem (f := ServiceSpec.id) hspec)
  have hnodup := s.specs.nodup
  rw [hsplit,nodup_append] at hnodup
  have hbefore : spec.id ∉ before := fun hin => hnodup.2.2 _ hin _ mem_cons_self rfl
  unfold scheduleSpecChange
  rw [hsplit,specLoop_append]
  cases hfirst : specLoop score now ⟨s,readyNodes s,[]⟩ before with
  | error e => rw [specLoop_error hfirst]
  | ok l =>
    obtain ⟨new,hturns,_⟩ := specLoop_turns (sound_start hids) hfirst
    have hfound : l.scheduler.getServiceSpec spec.id = some spec := by
      rw [hturns.specs _ hbefore]
      exact getServiceSpec_eq_some.mpr ⟨hspec,rfl⟩
    have hlacks : missing l.scheduler spec = missing s spec := by
      rw [missing,missing,(existingInstances_perm (hturns.instances _ hbefore)).length_eq]
    have hstuck : candidates l.scheduler spec l.shadowNodes = [] := by
      rw [eq_nil_iff_forall_not_mem]
      intro m hm
      obtain ⟨n,hn,_⟩ := candidates_subset hturns hbefore hm
      simp [hnone] at hn
    dsimp only [specLoop]
    rw [specStep_place hfound hstate,if_pos ⟨hlacks ▸ hmissing,hstuck⟩]

theorem runsFor_eq_false_iff (s : NodeScheduler) (specId : String) :
    (∀ i ∈ s.replicaInstances.items, i.runsFor specId = false) ↔
      ∀ i ∈ s.instancesOf specId, i.state = .suspended ∨ i.state = .deleted := by
  simp only [instancesOf,mem_filter,decide_eq_true_eq,ReplicaInstance.runsFor]
  constructor
  · rintro h i ⟨hi,rfl⟩
    have := h i hi
    simp at this
    tauto
  · intro h i hi
    by_cases hspec : i.specId = specId
    · have := h i ⟨hi,hspec⟩
      simp [hspec]
      tauto
    · simp [hspec]

theorem idle_congr {t : NodeScheduler} {spec : ServiceSpec}
    (h : (t.instancesOf spec.id).Perm (s.instancesOf spec.id)) : t.Idle spec ↔ s.Idle spec := by
  unfold Idle
  cases spec.state with
  | deployed => rw [missing,missing,(existingInstances_perm h).length_eq]
  | disable =>
    rw [runsFor_eq_false_iff,runsFor_eq_false_iff]
    simp only [h.mem_iff]
  | _ => exact Iff.rfl

theorem specStep_silent_iff {l l' : SpecLoop} {spec : ServiceSpec}
    (hspec : l.scheduler.getServiceSpec spec.id = some spec)
    (h : specStep score now l spec.id = .ok l') : l'.actions = l.actions ↔ l.scheduler.Idle spec := by
  by_cases hstate : spec.state = .new ∨ spec.state = .deployed
  · rw [specStep_place hspec hstate] at h
    split_ifs at h with hfail hnew <;> obtain rfl := Except.ok.inj h
    · simp [deploy,fill,placeInstances,Idle,hnew]
    · have hdeployed := hstate.resolve_left hnew
      have hlength := chosenNodes_length score l.scheduler spec l.shadowNodes
      have hsilent : (l.fill score now spec).actions = l.actions ↔
          chosenNodes score l.scheduler spec l.shadowNodes = [] := by
        simp [fill,placeInstances]
      rw [hsilent,Idle,hdeployed,← length_eq_zero_iff,hlength]
      rw [← length_eq_zero_iff] at hfail
      dsimp only
      omega
  · rw [specStep_rest hspec hstate] at h
    split_ifs at h with hdeleted hstop <;> obtain rfl := Except.ok.inj h
    · simp [uninstance,Idle,hdeleted]
    · simp [stopInstances,Idle,hstop]
    · refine iff_of_true rfl ?_
      unfold Idle
      cases hs : spec.state <;> simp_all

theorem specLoop_silent_iff {l l' : SpecLoop} (hl : l.Sound) {specs : List ServiceSpec}
    (hnodup : (specs.map ServiceSpec.id).Nodup)
    (hspecs : ∀ spec ∈ specs, l.scheduler.getServiceSpec spec.id = some spec)
    (h : specLoop score now l (specs.map ServiceSpec.id) = .ok l') :
    l'.actions = l.actions ↔ ∀ spec ∈ specs, l.scheduler.Idle spec := by
  induction specs generalizing l with
  | nil =>
    obtain rfl := Except.ok.inj h
    simp
  | cons spec specs ih =>
    rw [map_cons,nodup_cons] at hnodup
    obtain ⟨l₁,hstep,h⟩ := specLoop_cons_ok.mp h
    obtain ⟨own,hown,hsound⟩ := specStep_turn hl hstep
    have hother : ∀ other ∈ specs, other.id ≠ spec.id :=
      fun other hin heq => hnodup.1 (heq ▸ mem_map_of_mem hin)
    have hrest := ih hsound hnodup.2 (fun other hin => by
      rw [hown.frame.specs _ (hother other hin)]
      exact hspecs other (mem_cons_of_mem _ hin)) h
    obtain ⟨new,hturns,_⟩ := specLoop_turns hsound h
    have hturn := specStep_silent_iff (hspecs spec mem_cons_self) hstep
    have hsplit : l'.actions = l.actions ↔ l₁.actions = l.actions ∧ l'.actions = l₁.actions := by
      rw [hturns.actions,hown.actions]
      simp
    rw [hsplit,hturn,hrest,forall_mem_cons]
    refine and_congr_right fun _ => forall₂_congr fun other hin => ?_
    exact idle_congr (hown.frame.instances _ (hother other hin))

theorem distinctIds_withoutSpec (hids : s.DistinctIds) (specId : String) :
    (s.withoutSpec specId).DistinctIds := by
  have hsub : (s.withoutSpec specId).specs.items.map ServiceSpec.id ⊆
      s.specs.items.map ServiceSpec.id := (filter_sublist.map _).subset
  exact ⟨fun p hp => hids.own p (hsub hp),fun p hp n hn q hq => hids.apart p (hsub hp) n hn q (hsub hq)⟩

theorem scheduleSpecChange_silent_iff (hids : s.DistinctIds)
    {actions : List SchedulerAction} {post : NodeScheduler}
    (h : scheduleSpecChange score now s = .ok (actions,post)) :
    actions = [] ↔ ∀ spec ∈ s.specs.items, s.Idle spec := by
  obtain ⟨l,hloop,rfl,rfl⟩ := scheduleSpecChange_ok h
  exact specLoop_silent_iff (sound_start hids) s.specs.nodup
    (fun spec hspec => getServiceSpec_eq_some.mpr ⟨hspec,rfl⟩) hloop

theorem emitted_about (hids : s.DistinctIds) {a : SchedulerAction}
    (ha : a ∈ emitted (scheduleSpecChange score now s)) :
    ∃ q ∈ s.specs.items.map ServiceSpec.id, a.specId? = some q := by
  unfold scheduleSpecChange at ha
  cases hloop : specLoop score now ⟨s,readyNodes s,[]⟩ (s.specs.items.map ServiceSpec.id) with
  | error e => simp [hloop,emitted] at ha
  | ok l =>
    rw [hloop] at ha
    obtain ⟨new,hturns,_⟩ := specLoop_turns (sound_start hids) hloop
    have hactions : l.actions = new := hturns.actions
    exact hturns.about a (hactions ▸ ha)

/-- A spec that no node can take fails the whole pass, in every order of the specs. The other
specs get the actions they would get without it exactly if none of them has anything to do, or
the pass without it fails as well. -/
theorem unplaceable_fails_pass (hids : s.DistinctIds) {spec : ServiceSpec}
    (h : s.Unplaceable spec) :
    scheduleSpecChange score now s = .error noSuitableNode ∧
      ((∀ q ≠ spec.id, emittedFor q (scheduleSpecChange score now s) =
          emittedFor q (scheduleSpecChange score now (s.withoutSpec spec.id))) ↔
        (∀ other ∈ s.specs.items, other.id ≠ spec.id → s.Idle other) ∨
          scheduleSpecChange score now (s.withoutSpec spec.id) = .error noSuitableNode) := by
  have hfail := @scheduleSpecChange_unplaceable score now s hids spec h
  have hids' := distinctIds_withoutSpec hids spec.id
  refine ⟨hfail,?_⟩
  have hnone : (∀ q ≠ spec.id, emittedFor q (scheduleSpecChange score now s) =
      emittedFor q (scheduleSpecChange score now (s.withoutSpec spec.id))) ↔
      emitted (scheduleSpecChange score now (s.withoutSpec spec.id)) = [] := by
    rw [hfail]
    constructor
    · intro hsame
      rw [eq_nil_iff_forall_not_mem]
      intro a ha
      obtain ⟨q,hq,habout⟩ := emitted_about hids' ha
      obtain ⟨other,hother,rfl⟩ := mem_map.mp hq
      have hne := (s.specs.mem_erase.mp hother).2
      have hmem : a ∈ emittedFor other.id (scheduleSpecChange score now (s.withoutSpec spec.id)) :=
        mem_filter.mpr ⟨ha,by simpa using habout⟩
      rw [← hsame other.id hne] at hmem
      simp [emittedFor,emitted] at hmem
    · intro hempty q _
      rw [emittedFor,emittedFor,hempty]
      rfl
  rw [hnone]
  cases hpass : scheduleSpecChange score now (s.withoutSpec spec.id) with
  | error e =>
    have he : e = noSuitableNode := by
      unfold scheduleSpecChange at hpass
      split at hpass
      · rename_i e' hloop
        exact Except.error.inj hpass ▸ specLoop_error hloop
      · simp at hpass
    simp [emitted,he]
  | ok result =>
    rw [or_iff_left (by simp)]
    refine (scheduleSpecChange_silent_iff hids' hpass).trans ?_
    constructor
    · exact fun hidle other hother hne => hidle other (s.specs.mem_erase.mpr ⟨hother,hne⟩)
    · intro hidle other hother
      obtain ⟨hin,hne⟩ := s.specs.mem_erase.mp hother
      exact hidle other hin hne

end Isolation

section Pinned
def pinnedSpec : ServiceSpec := {serviceSpec "pinned" 1 with nodeAffinity := some "gpu"}

/-- The pinned service next to a new web service that fits the only node. -/
def pinnedNextToWeb : NodeScheduler :=
  {webService oneNode with specs := ⟨[serviceSpec "web" 2,pinnedSpec],by decide⟩}

theorem pinnedNextToWeb_distinctIds : pinnedNextToWeb.DistinctIds :=
  Canonical.distinctIds (webService_canonical oneNode) (by decide)

theorem pinnedSpec_unplaceable : pinnedNextToWeb.Unplaceable pinnedSpec := by
  refine ⟨?_,Or.inl rfl,?_,?_⟩
  · exact mem_cons_of_mem _ mem_cons_self
  · decide
  · decide

theorem unplaceable_fails_pass_pinned :
    scheduleSpecChange scoreNode 100 pinnedNextToWeb = .error noSuitableNode :=
  (unplaceable_fails_pass pinnedNextToWeb_distinctIds pinnedSpec_unplaceable).1

/-- The pinned service keeps the web service, visited before it, from being placed. -/
theorem unplaceable_blocks_web :
    pinnedNextToWeb.Unplaceable pinnedSpec ∧
      emittedFor "web" (scheduleSpecChange scoreNode 100 pinnedNextToWeb) = [] ∧
      emittedFor "web" (scheduleSpecChange scoreNode 100
        (pinnedNextToWeb.withoutSpec pinnedSpec.id)) = [
          .instanceReplica (newInstance 100 (serviceSpec "web" 2) (readyNode "ood1")),
          .changeServiceStatus "web" .deployed] :=
  ⟨pinnedSpec_unplaceable,rfl,rfl⟩

end Pinned
end BuckyOS.Scheduler
