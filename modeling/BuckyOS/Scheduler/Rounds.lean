import BuckyOS.Scheduler.Turns

/-! A round of the scheduler as a whole: when it runs the placement pass, what its actions are
made of, and the loop of rounds with its saved snapshot. -/
namespace BuckyOS.Scheduler
open NodeScheduler List

def Quiet (actions : List SchedulerAction) : Prop :=
  ∀ nodeId state, .changeNodeStatus nodeId state ∉ actions

theorem reviewNode_of_none {n : NodeItem} (h : reviewedState n.state = none) : reviewNode n = n := by
  rw [reviewNode,h]
  rfl

theorem resortNodes_quiet {s : NodeScheduler} (h : Quiet (resortNodes s).1) : resortNodes s = ([],s) := by
  have hnone : ∀ n ∈ s.nodes.items, reviewedState n.state = none := by
    intro n hn
    cases hstate : reviewedState n.state with
    | none => rfl
    | some state =>
      refine absurd (mem_filterMap.mpr ⟨n,hn,?_⟩) (h n.id state)
      rw [hstate]
      rfl
  have hactions : (resortNodes s).1 = [] := by
    rw [resortNodes,filterMap_eq_nil_iff]
    intro n hn
    rw [hnone n hn]
    rfl
  have hnodes : s.nodes.adjust reviewNode (fun _ => rfl) = s.nodes := by
    apply Registry.ext
    change s.nodes.items.map reviewNode = s.nodes.items
    conv_rhs => rw [← map_id s.nodes.items]
    exact map_congr_left (fun n hn => reviewNode_of_none (hnone n hn))
  refine Prod.ext hactions ?_
  rw [resortNodes,hnodes]

variable (s : NodeScheduler) (now : UInt64) (last : Option NodeScheduler)

theorem infoStep_actions (l : InfoLoop) (spec : ServiceSpec) :
    (infoStep s now last l spec).actions = l.actions ∨ (infoStep s now last l spec).actions = l.actions ++
        [.updateServiceInfo spec.id (newServiceInfo (s.aliveInstances now spec.id))] := by
  unfold infoStep
  dsimp only
  split
  · exact .inl rfl
  · split
    · split
      · exact .inl rfl
      · exact .inr rfl
    · exact .inr rfl

theorem calcServiceInfos_actions : ∀ a ∈ (calcServiceInfos s now last).1, ∃ specId,
      a = .updateServiceInfo specId (newServiceInfo (s.aliveInstances now specId)) := by
  have hfold : ∀ (specs : List ServiceSpec) (l : InfoLoop), (∀ a ∈ l.actions, ∃ specId,
        a = .updateServiceInfo specId (newServiceInfo (s.aliveInstances now specId))) →
      ∀ a ∈ (specs.foldl (infoStep s now last) l).actions, ∃ specId,
        a = .updateServiceInfo specId (newServiceInfo (s.aliveInstances now specId)) := by
    intro specs
    induction specs with
    | nil => exact fun _ hl => hl
    | cons spec specs ih =>
      intro l hl
      refine ih _ (fun a ha => ?_)
      rcases infoStep_actions s now last l spec with h | h <;> rw [h] at ha
      · exact hl a ha
      · rcases mem_append.mp ha with ha | ha
        · exact hl a ha
        · exact ⟨_,mem_singleton.mp ha⟩
  exact hfold s.specs.items ⟨s.serviceInfos,s.serviceInfoRefreshTimes,[]⟩ (by simp)

theorem placements_calcServiceInfos : placements (calcServiceInfos s now last).1 = [] := by
  rw [placements,filterMap_eq_nil_iff]
  intro a ha
  obtain ⟨specId,rfl⟩ := calcServiceInfos_actions s now last a ha
  rfl

section Round
variable {score : NodeItem → ServiceSpec → ℚ} {now : UInt64} {s post : NodeScheduler}
  {last : Option NodeScheduler} {actions : List SchedulerAction}

def placementPhase (score : NodeItem → ServiceSpec → ℚ) (now : UInt64) (s : NodeScheduler)
    (last : Option NodeScheduler) : Except String (List SchedulerAction × NodeScheduler) :=
  if isSpecChanged s last then scheduleSpecChange score now s else .ok ([],s)

/-- The parts of a round that goes beyond the review of the nodes. -/
theorem schedule_phases (h : schedule score now s last = .ok (actions,post)) :
    resortNodes s = (actions,post) ∧ (resortNodes s).1 ≠ [] ∧
        s.nodes.items.length ≤ smallSystemNodeCount ∨ ∃ specActions placed,
        placementPhase score now (resortNodes s).2 last = .ok (specActions,placed) ∧
        actions = (resortNodes s).1 ++ specActions ++ (calcServiceInfos placed now last).1 ∧
        post = (calcServiceInfos placed now last).2 := by
  unfold schedule at h
  dsimp only at h
  rw [← placementPhase] at h
  by_cases hempty : s.nodes.items.isEmpty = true
  · rw [if_pos hempty] at h
    exact absurd h (by simp)
  rw [if_neg hempty] at h
  by_cases hearly : (!(resortNodes s).1.isEmpty &&
      decide (s.nodes.items.length ≤ smallSystemNodeCount)) = true
  · rw [if_pos hearly] at h
    refine .inl ⟨Except.ok.inj h,?_⟩
    simpa using hearly
  · rw [if_neg hearly] at h
    cases hpass : placementPhase score now (resortNodes s).2 last with
    | error e =>
      rw [hpass] at h
      exact absurd h (by simp)
    | ok result =>
      rw [hpass] at h
      obtain ⟨hactions,hpost⟩ := Prod.mk.inj (Except.ok.inj h)
      exact .inr ⟨result.1,result.2,rfl,hactions.symm,hpost.symm⟩

theorem schedule_quiet (h : schedule score now s last = .ok (actions,post)) (hquiet : Quiet actions) :
    ∃ specActions placed, placementPhase score now s last = .ok (specActions,placed) ∧
      actions = specActions ++ (calcServiceInfos placed now last).1 ∧
      post = (calcServiceInfos placed now last).2 := by
  rcases schedule_phases h with ⟨hreview,hsome,_⟩ | ⟨specActions,placed,hpass,hactions,hpost⟩
  · have hfirst : (resortNodes s).1 = actions := congrArg Prod.fst hreview
    rw [resortNodes_quiet (hfirst ▸ hquiet)] at hsome
    exact absurd rfl hsome
  · have hreview : resortNodes s = ([],s) := resortNodes_quiet (fun nodeId state hin => by
      refine hquiet nodeId state ?_
      rw [hactions,append_assoc]
      exact mem_append_left _ hin)
    rw [hreview] at hpass hactions
    exact ⟨specActions,placed,hpass,by rw [hactions,nil_append],hpost⟩

end Round
end BuckyOS.Scheduler
