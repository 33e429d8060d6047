import BuckyOS.Scheduler.Publish

/-! How often the info of a service is published, over rounds that each start from the snapshot
of the one before. -/
namespace BuckyOS.Scheduler
open List OrderedMap

section Infos
variable (s : NodeScheduler) (now : UInt64) (last : Option NodeScheduler) {specId : String}

def savedInfo (specId : String) : Option (ServiceInfo × UInt64) :=
  let oldInfo := last.bind (fun last => last.serviceInfos.get? specId)
  oldInfo.map (fun info => (info,
    ((last.bind (fun last => last.serviceInfoRefreshTimes.get? specId)).or
      (oldInfo.map (fun _ => (last.map NodeScheduler.scheduleTime).getD 0))).getD 0))

def Decides (specId : String) (published : Bool) (info : ServiceInfo) (time : UInt64) : Prop :=
  if published then info = newServiceInfo (s.aliveInstances now specId) ∧ time = now ∧
    ∀ saved ∈ savedInfo last specId, saved.2.toNat + 30 ≤ now.toNat
  else savedInfo last specId = some (info,time) ∧
    (info = newServiceInfo (s.aliveInstances now specId) ∨ now.toNat < time.toNat + 30)

theorem saturatingSub_lt {a b : UInt64} :
    U64.saturatingSub a b < serviceInfoRefreshInterval ↔ a.toNat < b.toNat + 30 := by
  rw [UInt64.lt_iff_toNat_lt,U64.toNat_saturatingSub]
  change _ < 30 ↔ _
  omega

theorem infoStep_decides (l : InfoLoop) (spec : ServiceSpec) :
    ∃ published info time, Decides s now last spec.id published info time ∧
      infoStep s now last l spec = ⟨l.serviceInfos.insert spec.id info,l.refreshTimes.insert spec.id time,
        if published then l.actions ++ [.updateServiceInfo spec.id info] else l.actions⟩ := by
  unfold infoStep
  cases hold : last.bind fun last => last.serviceInfos.get? spec.id with
  | none => exact ⟨true,_,now,⟨rfl,rfl,by simp [savedInfo,hold]⟩,rfl⟩
  | some old =>
    dsimp only
    split_ifs with hsame hrecent
    · cases hsame
      exact ⟨false,_,_,⟨by simp [savedInfo,hold],.inl rfl⟩,rfl⟩
    · exact ⟨false,_,_,⟨by simp [savedInfo,hold],.inr (saturatingSub_lt.mp hrecent)⟩,rfl⟩
    · refine ⟨true,_,now,⟨rfl,rfl,?_⟩,rfl⟩
      simp only [savedInfo,hold,Option.map_some]
      rintro _ ⟨⟩
      exact Nat.le_of_not_lt (saturatingSub_lt.not.mp hrecent)

def Says (specId : String) (info : Option ServiceInfo) (time : Option UInt64)
    (published : ServiceInfo → Prop) (l : InfoLoop) : Prop :=
  l.serviceInfos.get? specId = info ∧ l.refreshTimes.get? specId = time ∧
    ∀ i, .updateServiceInfo specId i ∈ l.actions ↔ published i

theorem says_foldl {info : Option ServiceInfo} {time : Option UInt64} {published : ServiceInfo → Prop}
    {specs : List ServiceSpec} (hne : specId ∉ specs.map ServiceSpec.id) {l : InfoLoop}
    (h : Says specId info time published l) :
    Says specId info time published (specs.foldl (infoStep s now last) l) := by
  induction specs generalizing l with
  | nil => exact h
  | cons spec specs ih =>
    rw [map_cons,mem_cons,not_or] at hne
    obtain ⟨updated,_,_,-,hstep⟩ := infoStep_decides s now last l spec
    rw [foldl_cons,hstep]
    refine ih hne.2 ⟨?_,?_,fun i => Iff.trans ?_ (h.2.2 i)⟩
    · exact (get?_insert_of_ne _ _ hne.1).trans h.1
    · exact (get?_insert_of_ne _ _ hne.1).trans h.2.1
    · cases updated <;> simp [hne.1]

theorem infos_decide (hspec : specId ∈ s.specs.items.map ServiceSpec.id) {l : InfoLoop}
    (hout : ∀ i, .updateServiceInfo specId i ∉ l.actions) :
    ∃ published info time, Decides s now last specId published info time ∧
      Says specId (some info) (some time) (fun i => published = true ∧ i = info)
        (s.specs.items.foldl (infoStep s now last) l) := by
  obtain ⟨spec,hmem,rfl⟩ := mem_map.mp hspec
  obtain ⟨before,after,hsplit⟩ := append_of_mem hmem
  have hnodup := s.specs.nodup
  rw [hsplit,map_append,map_cons,nodup_append,nodup_cons] at hnodup
  have hbefore := says_foldl s now last (fun h => hnodup.2.2 _ h _ mem_cons_self rfl)
    (l := l) ⟨rfl,rfl,fun i => iff_false_intro (hout i)⟩
  rw [hsplit,foldl_append,foldl_cons]
  obtain ⟨published,info,time,hdecides,hstep⟩ := infoStep_decides s now last
    (before.foldl (infoStep s now last) l) spec
  rw [hstep]
  refine ⟨published,info,time,hdecides,says_foldl s now last hnodup.2.1.1
    ⟨get?_insert_self ..,get?_insert_self ..,fun i => ?_⟩⟩
  cases published <;> simp [hbefore.2.2]

end Infos

/-- A round that goes beyond the review of the nodes, and has the spec. -/
def FullFor (specId : String) (s post : NodeScheduler) : Prop :=
  ((resortNodes s).1 = [] ∨ smallSystemNodeCount < s.nodes.items.length) ∧
    specId ∈ post.specs.items.map ServiceSpec.id

/-- The saved snapshot and the last publication for a spec, after rounds that failed or were full
and had the spec, from a snapshot without it. -/
inductive Published (score : NodeItem → ServiceSpec → ℚ) (specId : String) :
    Option NodeScheduler → Option (ServiceInfo × UInt64) → Prop
  | start {saved} (h : savedInfo saved specId = none) : Published score specId saved none
  | failed {saved last now s e} (h : Published score specId saved last)
      (hround : schedule score now s saved = .error e) : Published score specId saved last
  | round {saved last next now s post actions} (h : Published score specId saved last)
      (hround : schedule score now s saved = .ok (actions,post)) (hfull : FullFor specId s post)
      (hnext : (∃ info, .updateServiceInfo specId info ∈ actions ∧ next = some (info,now)) ∨
        (∀ info, .updateServiceInfo specId info ∉ actions) ∧ next = last) :
      Published score specId (some post) next

section Rounds
variable {score : NodeItem → ServiceSpec → ℚ} {specId : String} {now : UInt64}
  {s post : NodeScheduler} {saved : Option NodeScheduler} {actions : List SchedulerAction}

theorem schedule_decides (hround : schedule score now s saved = .ok (actions,post)) :
    (¬FullFor specId s post ∧ ∀ i, .updateServiceInfo specId i ∉ actions) ∨
      ∃ published info time, Decides post now saved specId published info time ∧
        Says specId (some info) (some time) (fun i => published = true ∧ i = info)
          ⟨post.serviceInfos,post.serviceInfoRefreshTimes,actions⟩ := by
  rcases schedule_phases hround with ⟨hreview,hsome,hsmall⟩ | ⟨specActions,placed,hpass,rfl,rfl⟩
  · refine .inl ⟨fun h => h.1.elim hsome hsmall.not_gt,fun i => ?_⟩
    rw [← show (resortNodes s).1 = actions from congrArg Prod.fst hreview]
    exact resortNodes_publishes_not
  · by_cases hspec : specId ∈ placed.specs.items.map ServiceSpec.id
    · obtain ⟨published,info,time,hdecides,hinfo,htime,hactions⟩ :=
        infos_decide placed now saved hspec (l := ⟨_,_,[]⟩) fun _ => not_mem_nil
      exact .inr ⟨published,info,time,hdecides,hinfo,htime,fun i => (publishes_iff hpass).trans (hactions i)⟩
    · refine .inl ⟨fun h => hspec h.2,fun i hin => ?_⟩
      have hsame := says_foldl placed now saved hspec
        (l := ⟨placed.serviceInfos,placed.serviceInfoRefreshTimes,[]⟩) ⟨rfl,rfl,fun _ => Iff.rfl⟩
      exact not_mem_nil ((hsame.2.2 i).mp ((publishes_iff hpass).mp hin))

theorem Published.saved_eq {last : Option (ServiceInfo × UInt64)}
    (h : Published score specId saved last) : savedInfo saved specId = last := by
  induction h with
  | start h => exact h
  | failed _ _ ih => exact ih
  | round _ hround hfull hnext ih =>
    obtain ⟨published,info,time,hdecides,hinfo,htime,hactions⟩ :=
      (schedule_decides hround).resolve_left fun h => h.1 hfull
    dsimp only at hinfo htime hactions
    simp only [savedInfo,Option.bind_some,hinfo,htime]
    rcases hnext with ⟨i,hin,rfl⟩ | ⟨hout,rfl⟩
    · obtain ⟨rfl,rfl⟩ := (hactions i).mp hin
      rw [hdecides.2.1]
      rfl
    · cases published with
      | true => exact absurd ((hactions info).mpr ⟨rfl,rfl⟩) (hout info)
      | false => exact hdecides.1.symm.trans ih

/-- After rounds that failed or were full and had the spec, a round publishes its info again no
earlier than half a minute later, and then at once if it has changed and the round is full. -/
theorem publication_throttled {info : ServiceInfo} {time : UInt64}
    (h : Published score specId saved (some (info,time)))
    (hround : schedule score now s saved = .ok (actions,post)) :
    (∀ next, .updateServiceInfo specId next ∈ actions → time.toNat + 30 ≤ now.toNat) ∧
      (FullFor specId s post → time.toNat + 30 ≤ now.toNat →
        newServiceInfo (post.aliveInstances now specId) ≠ info →
        .updateServiceInfo specId (newServiceInfo (post.aliveInstances now specId)) ∈ actions) := by
  rcases schedule_decides hround with ⟨hpart,hout⟩ | ⟨published,current,_,hdecides,_,_,hactions⟩
  · exact ⟨fun next hin => absurd hin (hout next),fun hfull => absurd hfull hpart⟩
  cases published with
  | true =>
    exact ⟨fun _ _ => hdecides.2.2 _ h.saved_eq,fun _ _ _ => (hactions _).mpr ⟨rfl,hdecides.1.symm⟩⟩
  | false =>
    obtain ⟨rfl,rfl⟩ := Prod.mk.inj (Option.some.inj (h.saved_eq.symm.trans hdecides.1))
    refine ⟨fun next hin => ?_,fun _ hlate hnew => ?_⟩
    · cases ((hactions next).mp hin).1
    · rcases hdecides.2 with hsame | hrecent
      · exact absurd hsame.symm hnew
      · omega

end Rounds

/-- The web service as the next round finds it: the infos are in the snapshot only. -/
def webServiceAgain (nodes : Registry NodeItem.id) : NodeScheduler :=
  {webServiceDeployed nodes with serviceInfos := .empty,serviceInfoRefreshTimes := .empty}

theorem publication_throttled_web : .updateServiceInfo "web" (.randomCluster .empty) ∈
    (calcServiceInfos (webServiceAgain oneNode) 250 (some (webServiceDeployed oneNode))).1 := by
  have hpublished : Published scoreNode "web" (some (webServiceDeployed oneNode)) (some
      (.singleInstance (newInstance 100 (serviceSpec "web" 2) (readyNode "ood1")),100)) :=
    .round (.start rfl) webService_round ⟨.inl rfl,by decide⟩ (.inl ⟨_,by decide,rfl⟩)
  have hround : schedule scoreNode 250 (webServiceAgain oneNode) (some (webServiceDeployed oneNode)) =
      .ok (calcServiceInfos (webServiceAgain oneNode) 250 (some (webServiceDeployed oneNode))) := rfl
  exact (publication_throttled hpublished hround).2 ⟨.inl rfl,by decide⟩ (by decide) (by decide)

/-- A joining node stops the round after the publication early, and the round after that
publishes the same info again, two seconds after the first. -/
theorem published_again_after_join :
    let joining : Registry NodeItem.id :=
      ⟨[readyNode "ood1",{readyNode "ood2" with state := .new}],by decide⟩
    let stopped := resortNodes (webServiceAgain joining)
    schedule scoreNode 100 (webService oneNode) none = .ok (webActions,webServiceDeployed oneNode) ∧
      schedule scoreNode 101 (webServiceAgain joining) (some (webServiceDeployed oneNode)) =
        .ok stopped ∧
      (schedule scoreNode 102 (webServiceAgain oneNode) (some stopped.2)).map Prod.fst =
        .ok [.updateServiceInfo "web"
          (.singleInstance (newInstance 100 (serviceSpec "web" 2) (readyNode "ood1")))] := by
  decide +kernel

end BuckyOS.Scheduler
