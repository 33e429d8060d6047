import BuckyOS.Workflow.Fires

/-! Fires across restarts and by hand: when no fire time gets a second target, and when no schedule
is found due at the same time for ever. -/
namespace BuckyOS.Workflow
open Fallible List Option ScheduleServer WorkflowSchedule

variable {env : ScheduleEnv} {now : ℤ} {s s' : ScheduleServer}

section Targets
namespace ScheduleServer
/-- No fire time of a schedule has two targets. -/
def FiredOnce (s : ScheduleServer) : Prop := (s.targets.map FireTarget.key).Nodup

theorem FiredOnce.of_targets (h : s.FiredOnce) (htargets : s'.targets = s.targets) : s'.FiredOnce := by
  rw [FiredOnce,htargets]
  exact h

/-- What has a target already is on record still, or the task service will find it again. -/
def Recalls (env : ScheduleEnv) (byHand : Bool) (s : ScheduleServer) (key : FireKey) : Prop :=
  s.Aimed key → s.OnRecord key ∨ (s.subtaskOf key).isSome = true ∧
    ∀ schedule, s.schedules.get? key.1 = some schedule →
      env.renderedType schedule.target key byHand ≠ "workflow.run"

variable {key : FireKey} {targets : List FireTarget}

theorem subtaskOf_append (h : (s.subtaskOf key).isSome = true)
    (htargets : s'.targets = s.targets ++ targets) : (s'.subtaskOf key).isSome = true := by
  rw [subtaskOf,isSome_map] at h
  rw [subtaskOf,htargets,isSome_map,find?_append,isSome_or,h]
  rfl

theorem Recalls.of_kept {byHand : Bool} (h : s.Recalls env byHand key)
    (htargets : s'.targets = s.targets ++ targets)
    (hnew : ∀ target ∈ targets, target.key = key → s'.OnRecord key)
    (hrecord : s.OnRecord key → s'.OnRecord key)
    (hfixed : s'.fixedOf key.1 = s.fixedOf key.1) : s'.Recalls env byHand key := by
  intro haimed
  rw [Aimed,htargets,map_append,mem_append] at haimed
  rcases haimed with haimed | haimed
  · rcases h haimed with h | ⟨hsubtask,htype⟩
    · exact .inl (hrecord h)
    · refine .inr ⟨subtaskOf_append hsubtask htargets,?_⟩
      intro schedule' hget
      rw [fixedOf,hget] at hfixed
      obtain ⟨schedule,hschedule,heq⟩ := map_eq_some_iff.mp hfixed.symm
      have htarget : schedule'.target = schedule.target := (congrArg (fun fixed => fixed.2.2.1) heq).symm
      rw [htarget]
      exact htype schedule hschedule
  · obtain ⟨target,htarget,hkey⟩ := mem_map.mp haimed
    exact .inl (hnew target htarget hkey)

end ScheduleServer

open ScheduleServer

variable {schedule : WorkflowSchedule} {id : String} {t : ℤ} {byHand : Bool}

theorem FireEffect.firedOnce {targets : List FireTarget} {f : WorkflowSchedule → WorkflowSchedule}
    (h : FireEffect env now schedule {scheduleId := id, fireTime := t, byHand := byHand} s targets f)
    (hget : s.schedules.get? id = some schedule) (hnew : ¬ s.OnRecord (id,t))
    (hrecalls : s.Recalls env byHand (id,t)) (hunique : s.FiredOnce) :
    (targets.map FireTarget.key).Nodup := by
  rcases h.targets_cases with htargets | ⟨target,htargets,hkey,hcause⟩
  · rw [htargets]
    exact hunique
  · rw [htargets,map_append,map_singleton,nodup_append]
    refine ⟨hunique,nodup_singleton _,?_⟩
    rintro key hmem _ (_ | ⟨_,⟨⟩⟩) rfl
    rw [hkey] at hmem
    rcases hrecalls hmem with hrecord | ⟨hsubtask,htype⟩
    · exact hnew hrecord
    · rcases hcause with hrun | hnone
      · exact htype schedule hget hrun
      · rw [show s.subtaskOf (id,t) = none from hnone] at hsubtask
        cases hsubtask

/-- What is known of the targets at every point of a call. -/
def Settled (env : ScheduleEnv) (byHand : Bool) (keys : List FireKey) (s : ScheduleServer) : Prop :=
  s.FiredOnce ∧ ∀ key ∈ keys, s.Recalls env byHand key

variable {keys : List FireKey}

theorem FireRuns.settled (h : FireRuns env now id t byHand s s') (hkey : (id,t) ∈ keys)
    (hs : Settled env byHand keys s) : Settled env byHand keys s' := by
  have hfixed := h.fixed
  have hrecord : ∀ key, s.OnRecord key → s'.OnRecord key := fun _ => h.onRecord
  rcases h with ⟨rfl,-⟩ | ⟨schedule,hget,-,hnew,f,heffect,-,hfires,-⟩
  · exact hs
  · refine ⟨heffect.firedOnce hget hnew (hs.2 _ hkey) hs.1,fun key hmem => ?_⟩
    rcases heffect.targets_cases with htargets | ⟨target,htargets,htarget,-⟩
    · exact (hs.2 key hmem).of_kept (htargets.trans (append_nil _).symm)
        (fun target htarget => absurd htarget (not_mem_nil)) (hrecord key) (hfixed _)
    · refine (hs.2 key hmem).of_kept htargets ?_ (hrecord key) (hfixed _)
      intro target' hmem' hkey'
      rw [mem_singleton.mp hmem'] at hkey'
      exact (hfires key).mpr (.inl (hkey'.symm.trans htarget))

theorem FireCut.firedOnce (h : FireCut env now id t byHand s s')
    (hrecalls : s.Recalls env byHand (id,t)) (hs : s.FiredOnce) : s'.FiredOnce := by
  obtain ⟨schedule,hget,hnew,htargets | ⟨f,heffect⟩⟩ := h
  · exact hs.of_targets htargets
  · exact heffect.firedOnce hget hnew hrecalls hs

theorem PutOff.settled {next : Option ℤ} (h : PutOff id next s s') (hs : Settled env byHand keys s) :
    Settled env byHand keys s' := by
  refine ⟨hs.1.of_targets h.targets,fun key hkey => ?_⟩
  · exact (hs.2 key hkey).of_kept (h.targets.trans (append_nil _).symm)
      (fun target htarget => absurd htarget (not_mem_nil)) (h.onRecord key).mpr (h.fixed _)

theorem settled_of_memory (h : s'.memory = s.memory) (hs : Settled env byHand keys s) :
    Settled env byHand keys s' := by
  obtain ⟨hschedules,hfires,htargets,-⟩ := ScheduleMemory.mk.inj h
  refine ⟨hs.1.of_targets htargets,fun key hkey => ?_⟩
  refine (hs.2 key hkey).of_kept (htargets.trans (append_nil _).symm)
    (fun target htarget => absurd htarget (not_mem_nil)) ?_ (by rw [fixedOf,hschedules]; rfl)
  rw [OnRecord,OnRecord,hfires]
  exact id

def ScheduleServer.attempts (s : ScheduleServer) (now : ℤ) : List FireKey :=
  (s.due now).flatMap (fun schedule =>
    (dueFireTimes schedule now).1.map (fun t => (schedule.scheduleId,t)))

theorem mem_attempts (h : schedule ∈ s.due now) (ht : t ∈ (dueFireTimes schedule now).1) :
    (schedule.scheduleId,t) ∈ s.attempts now := mem_flatMap.mpr ⟨schedule,h,mem_map.mpr ⟨t,ht,rfl⟩⟩

theorem ScanRuns.settled (h : ScanRuns env now schedule s s')
    (hkeys : ∀ t ∈ (dueFireTimes schedule now).1, (schedule.scheduleId,t) ∈ keys)
    (hs : Settled env false keys s) : Settled env false keys s' :=
  h.keeps (fun t ht _ _ hs hfire => hfire.settled (hkeys t ht) hs) (fun _ _ hs hput => hput.settled hs) hs

theorem ScanCut.firedOnce (h : ScanCut env now schedule s s')
    (hkeys : ∀ t ∈ (dueFireTimes schedule now).1, (schedule.scheduleId,t) ∈ keys)
    (hs : Settled env false keys s) : s'.FiredOnce := by
  rcases h with ⟨before,t,after,htimes,s₁,hbefore,hcut⟩ | htargets
  · have hs₁ := hbefore.keeps (I := Settled env false keys)
      (fun t ht _ _ hs hfire => hfire.settled (hkeys t (by simp [htimes,ht])) hs) hs
    exact hcut.firedOnce (hs₁.2 _ (hkeys t (by simp [htimes]))) hs₁.1
  · exact hs.1.of_targets htargets

theorem targets_scanView (s : ScheduleServer) (now : ℤ) : (s.scanView now).targets = s.targets := by
  rw [scanView]
  split_ifs <;> rfl

theorem ScanEnds.firedOnce (h : ScanEnds env now s s')
    (hs : Settled env false ((s.scanView now).attempts now) (s.scanView now)) : s'.FiredOnce := by
  rcases h with ⟨-,hmemory⟩ | ⟨s₁,hs₁,hvisits⟩
  · exact hs.1.of_targets ((memory_targets hmemory).trans (targets_scanView s now).symm)
  · exact (hvisits.keeps (fun schedule hschedule _ _ hs hscan =>
      hscan.settled (fun t ht => mem_attempts hschedule ht) hs) (settled_of_memory hs₁ hs)).1

theorem ScanBreaks.firedOnce (h : ScanBreaks env now s s')
    (hs : Settled env false ((s.scanView now).attempts now) (s.scanView now)) : s'.FiredOnce := by
  rcases h with htargets | ⟨s₁,hs₁,before,schedule,after,hdue,s₂,hbefore,hcut⟩
  · exact hs.1.of_targets (htargets.trans (targets_scanView s now).symm)
  · have hs₂ := hbefore.keeps (I := Settled env false ((s.scanView now).attempts now))
      (fun schedule hschedule _ _ hs hscan =>
        hscan.settled (fun t ht => mem_attempts (by simp [hdue,hschedule]) ht) hs)
      (settled_of_memory hs₁ hs)
    exact hcut.firedOnce (fun t ht => mem_attempts (by simp [hdue]) ht) hs₂

end Targets

section Moves
variable {schedule : WorkflowSchedule}

/-- How a fire of its own leaves a schedule. -/
def Left (env : ScheduleEnv) (now : ℤ) (spec : ScheduleSpec) (fireTime : ℤ)
    (schedule : WorkflowSchedule) : Prop :=
  schedule.status ≠ .running ∨
    schedule.state.nextFireAt = nextFireAfter now spec fireTime ∧
      (isRebootSchedule spec = true → ∃ n, 0 < env.activeRuns n) ∨
    isRebootSchedule spec = true ∧ schedule.state.nextFireAt = none

theorem FireEffect.moves {fire : ScheduleFireRecord} {targets : List FireTarget}
    {f : WorkflowSchedule → WorkflowSchedule} (h : FireEffect env now schedule fire s targets f)
    (hhand : fire.byHand = false) (schedule' : WorkflowSchedule) :
    Left env now schedule'.spec fire.fireTime (f schedule') := by
  have hsucceeded : ∀ fire' : ScheduleFireRecord, fire'.fireTime = fire.fireTime → fire'.byHand = fire.byHand →
      Left env now schedule'.spec fire.fireTime (schedule'.succeededFire now fire') := by
    intro fire' htime hhand'
    rw [hhand] at hhand'
    unfold succeededFire
    dsimp only
    split
    · exact .inl (by simp)
    · by_cases hreboot : isRebootSchedule schedule'.spec = true
      · refine .inr (.inr ⟨hreboot,?_⟩)
        rw [if_pos hreboot]
      · refine .inr (.inl ⟨?_,fun h => absurd h hreboot⟩)
        rw [if_neg hreboot,if_neg (by simp [hhand']),htime]
  cases h with
  | failed error => exact .inl (by simp [failedFire])
  | skipped hactive =>
    refine .inr (.inl ⟨?_,fun _ => hactive⟩)
    rw [skippedFire]
    exact if_neg (by simp [hhand])
  | ran id fire' htime hhand' | created id fire' htime hhand' | found id fire' htime hhand' =>
    exact hsucceeded fire' htime hhand'

/-- A schedule that a scan does not find due again at the same time. -/
def Moved (schedule : WorkflowSchedule) (s : ScheduleServer) : Prop :=
  ∀ schedule', s.schedules.get? schedule.scheduleId = some schedule' →
    schedule'.status = .running → schedule'.state.nextFireAt ≠ schedule.state.nextFireAt

/-- The fires of a schedule that is due lead to another time, and one of them is new; a schedule
that lets them pass goes on from now to another time. -/
def CanMove (env : ScheduleEnv) (now : ℤ) (s : ScheduleServer) (schedule : WorkflowSchedule) : Prop :=
  match schedule.policy.misfire with
  | .skip | .manual => nextFireAfter now schedule.spec now ≠ schedule.state.nextFireAt
  | _ => (∃ t ∈ (dueFireTimes schedule now).1, ¬ s.OnRecord (schedule.scheduleId,t)) ∧
      ∀ t ∈ (dueFireTimes schedule now).1,
        nextFireAfter now schedule.spec t ≠ schedule.state.nextFireAt ∨
          isRebootSchedule schedule.spec = true ∧ ∀ n, env.activeRuns n = 0

theorem CarriedOut.moved {found : WorkflowSchedule} {t : ℤ}
    (h : CarriedOut env now found {scheduleId := schedule.scheduleId, fireTime := t, byHand := false} s s')
    (hfixed : s.fixedOf schedule.scheduleId = some schedule.fixed) (hdue : schedule.state.nextFireAt ≠ none)
    (hmove : nextFireAfter now schedule.spec t ≠ schedule.state.nextFireAt ∨
      isRebootSchedule schedule.spec = true ∧ ∀ n, env.activeRuns n = 0) :
    Moved schedule s' := by
  obtain ⟨f,heffect,hschedules,-,-⟩ := h
  intro schedule' hget hrunning
  rw [hschedules,get?_updateSchedule,if_pos rfl] at hget
  obtain ⟨schedule₀,hget₀,rfl⟩ := map_eq_some_iff.mp hget
  rw [fixedOf,hget₀] at hfixed
  have hspec : schedule₀.spec = schedule.spec := congrArg (fun fixed => fixed.2.1) (some.inj hfixed)
  have hcases := heffect.moves rfl schedule₀
  rw [hspec] at hcases
  rcases hcases with hstopped | ⟨hnext,hactive⟩ | ⟨-,hnone⟩
  · exact absurd hrunning hstopped
  · rw [hnext]
    rcases hmove with hmove | ⟨hreboot,hidle⟩
    · exact hmove
    · obtain ⟨n,hn⟩ := hactive hreboot
      exact absurd (hidle n) (Nat.pos_iff_ne_zero.mp hn)
  · rw [hnone]
    exact hdue.symm

theorem Firings.moved {times : List ℤ} (h : Firings env now schedule.scheduleId times s s')
    (hget : s.schedules.get? schedule.scheduleId = some schedule)
    (hdue : schedule.state.nextFireAt ≠ none) (hnew : ∃ t ∈ times, ¬ s.OnRecord (schedule.scheduleId,t))
    (hmove : ∀ t ∈ times, nextFireAfter now schedule.spec t ≠ schedule.state.nextFireAt ∨
      isRebootSchedule schedule.spec = true ∧ ∀ n, env.activeRuns n = 0) :
    Moved schedule s' := by
  have hlast := h.induct (I := fun rest s =>
    (∀ t ∈ rest, t ∈ times) ∧ s.fixedOf schedule.scheduleId = some schedule.fixed ∧
      (Moved schedule s ∨ s.schedules.get? schedule.scheduleId = some schedule ∧
        ∃ t ∈ rest, ¬ s.OnRecord (schedule.scheduleId,t))) ?_
    ⟨fun _ ht => ht,by rw [fixedOf,hget]; rfl,.inr ⟨hget,hnew⟩⟩
  · obtain ⟨-,-,hmoved | ⟨-,t,ht,-⟩⟩ := hlast
    · exact hmoved
    · exact absurd ht not_mem_nil
  · rintro t rest s₁ s₂ ⟨hsub,hfixed,hstate⟩ hfire
    refine ⟨fun t' ht' => hsub t' (mem_cons_of_mem _ ht'),(hfire.fixed _).trans hfixed,?_⟩
    rcases hfire with ⟨rfl,hwhy⟩ | ⟨found,-,-,-,hcarried⟩
    · rcases hstate with hmoved | ⟨hsame,t',ht',hnew'⟩
      · exact .inl hmoved
      · rcases hwhy with hnone | hrecord | ⟨-,found,hfound,hstopped⟩
        · rw [hsame] at hnone
          cases hnone
        · rcases mem_cons.mp ht' with rfl | ht'
          · exact absurd hrecord hnew'
          · exact .inr ⟨hsame,t',ht',hnew'⟩
        · refine .inl (fun schedule' hget' hrunning => ?_)
          rw [hfound] at hget'
          exact absurd (some.inj hget' ▸ hrunning) hstopped
    · exact .inl (hcarried.moved hfixed hdue (hmove t (hsub t mem_cons_self)))

theorem ScanRuns.moved (h : ScanRuns env now schedule s s')
    (hget : s.schedules.get? schedule.scheduleId = some schedule)
    (hdue : schedule.state.nextFireAt ≠ none) (hcan : CanMove env now s schedule) :
    Moved schedule s' := by
  rcases h with ⟨hactive,hfires⟩ | ⟨hpasses,-,f,hmemory,hf⟩
  · cases hmisfire : schedule.policy.misfire with
    | skip => exact absurd (.inl hmisfire) hactive
    | manual => exact absurd (.inr hmisfire) hactive
    | _ =>
      rw [CanMove,hmisfire] at hcan
      exact hfires.moved hget hdue hcan.1 hcan.2
  · have hnext : nextFireAfter now schedule.spec now ≠ schedule.state.nextFireAt := by
      rcases hpasses with hskip | hmanual
      · rw [CanMove,hskip] at hcan
        exact hcan
      · rw [CanMove,hmanual] at hcan
        exact hcan
    intro schedule' hget' _
    rw [memory_schedules hmemory,get?_updateSchedule,if_pos rfl,hget] at hget'
    rw [← some.inj hget',(hf schedule).2.2]
    exact hnext

theorem ScanEnds.moved (h : ScanEnds env now s s') (hkeyed : s.Keyed)
    (hhydrated : s'.hydrated = true) (hdue : schedule ∈ (s.scanView now).due now)
    (hcan : CanMove env now (s.scanView now) schedule) : Moved schedule s' := by
  obtain ⟨s₁,s₂,hfirst,hown,hlast⟩ := h.own hkeyed hhydrated hdue
  obtain ⟨hget,-,t,ht,-⟩ := (mem_due (hkeyed.scanView now)).mp hdue
  have hcan₁ : CanMove env now s₁ schedule := by
    unfold CanMove at hcan ⊢
    simp only [hfirst.fires]
    exact hcan
  have hmoved := hown.moved (hfirst.schedule.trans hget) (by rw [ht]; exact some_ne_none t) hcan₁
  intro schedule' hget'
  exact hmoved schedule' (hlast.schedule.symm.trans hget')

end Moves

section Calls
open ScheduleServer

/-- A call that recalls the fires it begins and can move the schedules it finds due. -/
def Careful (env : ScheduleEnv) (s : ScheduleServer) : ScheduleCall → Prop
  | .scan now => (∀ key ∈ (s.scanView now).attempts now, (s.scanView now).Recalls env false key) ∧
      ∀ schedule ∈ (s.scanView now).due now, CanMove env now (s.scanView now) schedule
  | .runNow scheduleId fireTime _ => s.Recalls env true (scheduleId,fireTime)
  | _ => True

theorem restarted_keyed (s : ScheduleServer) : s.restarted.Keyed := by
  intro id schedule hget
  cases hget

theorem step_of_wp {call : ScheduleCall} {Q : Bool → ScheduleServer → Prop}
    (h : wp (performCall env call) (fun _ s' => Q true s') (fun _ s' => Q false s'.restarted) s) :
    Q (s.step env call).1 (s.step env call).2 := by
  unfold step
  unfold wp at h
  rcases hrun : performCall env call s with ⟨_ | _,s'⟩
  · rw [hrun] at h
    exact h
  · rw [hrun] at h
    exact h

theorem wp_updateAndSave_kept {id : String} {f : WorkflowSchedule → WorkflowSchedule}
    (hf : ∀ schedule, (f schedule).scheduleId = schedule.scheduleId) (hs : s.Keyed)
    (honce : s.FiredOnce) : wp (updateAndSave env id f) (fun _ s' => s'.Keyed ∧ s'.FiredOnce)
      (fun _ s' => s'.restarted.Keyed ∧ s'.restarted.FiredOnce) s := by
  have htargets : ∀ s' : ScheduleServer, s'.memory = (s.updateSchedule id f).memory → s'.FiredOnce := fun s' hs' =>
    honce.of_targets ((memory_targets hs').trans (targets_updateSchedule s id f))
  refine wp_updateAndSave (fun s' hs' => ⟨?_,htargets s' hs'⟩)
    (fun s' hs' => ⟨restarted_keyed s',htargets s' hs'⟩)
  intro id' schedule' hget
  rw [memory_schedules hs',get?_updateSchedule] at hget
  split_ifs at hget
  · obtain ⟨schedule,hschedule,rfl⟩ := map_eq_some_iff.mp hget
    rw [hf,hs _ _ hschedule]
  · exact hs _ _ hget

theorem ScheduleChange.apply_scheduleId (change : ScheduleChange) (now : ℤ)
    (schedule : WorkflowSchedule) : (change.apply now schedule).scheduleId = schedule.scheduleId := by
  unfold ScheduleChange.apply
  cases change.spec with
  | none => rfl
  | some spec =>
    dsimp only
    split_ifs <;> rfl

theorem step_firedOnce {call : ScheduleCall} (hcareful : Careful env s call) (hkeyed : s.Keyed)
    (honce : s.FiredOnce) : (s.step env call).2.Keyed ∧ (s.step env call).2.FiredOnce := by
  refine step_of_wp (Q := fun _ s' => s'.Keyed ∧ s'.FiredOnce) ?_
  cases call with
  | scan now =>
    have hsettled : Settled env false ((s.scanView now).attempts now) (s.scanView now) :=
      ⟨honce.of_targets (targets_scanView s now),hcareful.1⟩
    exact wp_mono (wp_scanDueSchedules hkeyed) (fun _ s' h => ⟨h.keyed hkeyed,h.firedOnce hsettled⟩)
      (fun _ s' h => ⟨restarted_keyed s',h.firedOnce hsettled⟩)
  | runNow scheduleId fireTime now =>
    have hsettled : Settled env true [(scheduleId,fireTime)] s :=
      ⟨honce,fun key hkey => mem_singleton.mp hkey ▸ hcareful⟩
    unfold performCall
    rw [wp_bind]
    exact wp_mono (wp_fireSchedule env now scheduleId fireTime true s)
      (fun _ s' h => ⟨hkeyed.of_fixed h.fixed,(h.settled (mem_singleton_self _) hsettled).1⟩)
      (fun _ s' h => ⟨restarted_keyed s',h.firedOnce hcareful honce⟩)
  | pause scheduleId | resume scheduleId now | archive scheduleId =>
    exact wp_updateAndSave_kept (fun _ => rfl) hkeyed honce
  | update scheduleId change now => exact wp_updateAndSave_kept (change.apply_scheduleId now) hkeyed honce
  | restart => exact ⟨restarted_keyed s,honce⟩

/-- From a service just started, in every run of careful calls no fire time of a schedule gets two
targets, and every scan that has the saved schedules and gets through leaves each schedule it found
due with another next time or no longer running. -/
theorem fires_once_and_move (env : ScheduleEnv) (saved : OrderedMap String WorkflowSchedule)
    (calls : List ScheduleCall)
    (hcareful : Machine.Along (ScheduleServer.step env) (Careful env) {saved := saved} calls) (k : ℕ) :
    let before := (Machine.run (step env) {saved := saved} (calls.take k)).2
    (before.targets.map FireTarget.key).Nodup ∧
      ∀ now, calls[k]? = some (.scan now) → (before.step env (.scan now)).1 = true →
        (before.step env (.scan now)).2.hydrated = true →
        ∀ id schedule, (before.scanView now).schedules.get? id = some schedule →
          schedule.status = .running → (∃ t ∈ schedule.state.nextFireAt, t ≤ now) →
          ∀ schedule', (before.step env (.scan now)).2.schedules.get? id = some schedule' →
            schedule'.state.nextFireAt ≠ schedule.state.nextFireAt ∨ schedule'.status ≠ .running := by
  intro before
  have hstart : ({saved := saved} : ScheduleServer).Keyed ∧
      ({saved := saved} : ScheduleServer).FiredOnce :=
    ⟨restarted_keyed {saved := saved},nodup_nil⟩
  have hbefore : before.Keyed ∧ before.FiredOnce :=
    Machine.run_invariant_along (I := fun s => s.Keyed ∧ s.FiredOnce)
      (fun s call hs hcareful => step_firedOnce hcareful hs.1 hs.2) hstart (hcareful.take k)
  refine ⟨hbefore.2,?_⟩
  intro now hcall hends hhydrated id schedule hget hrunning hdue schedule' hget'
  have hnow : Careful env before (.scan now) := hcareful.of_getElem? hcall
  have hviewed := hbefore.1.scanView now
  obtain rfl := hviewed id schedule hget
  have hscan : (before.step env (.scan now)).1 = true →
      ScanEnds env now before (before.step env (.scan now)).2 := by
    refine step_of_wp (Q := fun ends s' => ends = true → ScanEnds env now before s') ?_
    exact wp_mono (wp_scanDueSchedules hbefore.1) (fun _ s' h _ => h)
      (fun _ s' _ hends => absurd hends Bool.false_ne_true)
  have hfound := (mem_due hviewed).mpr ⟨hget,hrunning,hdue⟩
  have hmoved := (hscan hends).moved hbefore.1 hhydrated hfound (hnow.2 schedule hfound)
  by_cases hrunning' : schedule'.status = .running
  · exact .inl (hmoved schedule' hget' hrunning')
  · exact .inr hrunning'

def minuteSchedule : WorkflowSchedule :=
  {scheduleId := "s", spec := .runEvery 60 none none none, target := {taskType := "workflow.run"},
    state := {nextFireAt := some 60}, rootTaskId := some "root"}

def savedMinutes : OrderedMap String WorkflowSchedule := OrderedMap.empty.insert "s" minuteSchedule

def endingEnv (ends : ℕ → Bool) : ScheduleEnv :=
  {ends := ends, createRun := fun _ => .ok "run", createSubtask := fun _ => .ok "task"}

/-- A scan that fires at times of which there is no trace, each of which leads to another time. -/
def NewTimes (s : ScheduleServer) : ScheduleCall → Bool
  | .scan now =>
    ((s.scanView now).attempts now).all (fun key =>
      key ∉ (s.scanView now).targets.map FireTarget.key ∧ (s.scanView now).fires.find? key = none) &&
    ((s.scanView now).due now).all (fun schedule =>
      schedule.policy.misfire = .runOnce ∧ (dueFireTimes schedule now).1 ≠ [] ∧
        ∀ t ∈ (dueFireTimes schedule now).1,
          nextFireAfter now schedule.spec t ≠ schedule.state.nextFireAt)
  | .restart => true
  | _ => false

theorem careful_of_newTimes {call : ScheduleCall} (h : NewTimes s call = true) : Careful env s call := by
  cases call with
  | scan now =>
    simp only [NewTimes,Bool.and_eq_true,List.all_eq_true,decide_eq_true_eq] at h
    refine ⟨fun key hkey haimed => absurd haimed (h.1 key hkey).1,fun schedule hschedule => ?_⟩
    obtain ⟨hpolicy,hsome,hmove⟩ := h.2 schedule hschedule
    obtain ⟨t,ht⟩ := exists_mem_of_ne_nil _ hsome
    rw [CanMove,hpolicy]
    refine ⟨⟨t,ht,fun hrecord => ?_⟩,fun t ht => .inl (hmove t ht)⟩
    rw [OnRecord,(h.1 _ (mem_attempts hschedule ht)).2] at hrecord
    cases hrecord
  | restart => trivial
  | _ => cases h

def minuteScans : List ScheduleCall := [.scan 60,.scan 90,.scan 120,.restart,.scan 185]

def calmEnv : ScheduleEnv := endingEnv (fun _ => false)

def minuteService : ScheduleServer :=
  (Machine.run (ScheduleServer.step calmEnv) {saved := savedMinutes} (minuteScans.take 4)).2

theorem fires_once_and_move_minute :
    Machine.Along (ScheduleServer.step calmEnv) (Careful calmEnv) {saved := savedMinutes} minuteScans ∧
    (minuteService.targets.map FireTarget.key).Nodup ∧
    ∀ schedule', (minuteService.step calmEnv (.scan 185)).2.schedules.get? "s" = some schedule' →
      schedule'.state.nextFireAt ≠ some 180 ∨ schedule'.status ≠ .running := by
  have hnew : Machine.Along (ScheduleServer.step calmEnv) (fun s call => NewTimes s call = true)
      {saved := savedMinutes} minuteScans := by decide +kernel
  have hcareful : Machine.Along _ (Careful calmEnv) _ _ := hnew.mono fun _ _ h => careful_of_newTimes h
  obtain ⟨hnodup,hmoves⟩ := fires_once_and_move calmEnv savedMinutes minuteScans hcareful 4
  have hdue : ((minuteService.scanView 185).schedules.get? "s").map (fun schedule =>
      (schedule.status,schedule.state.nextFireAt)) = some (.running,some 180) := by decide +kernel
  have hends : (minuteService.step calmEnv (.scan 185)).1 = true := by decide +kernel
  have hhydrated : (minuteService.step calmEnv (.scan 185)).2.hydrated = true := by decide +kernel
  obtain ⟨schedule,hget,hschedule⟩ := map_eq_some_iff.mp hdue
  obtain ⟨hstatus,hnext⟩ := Prod.mk.inj hschedule
  unfold minuteService at hends hhydrated hget ⊢
  have hmoved := hmoves 185 rfl hends hhydrated "s" schedule hget hstatus ⟨180,hnext,by decide⟩
  rw [hnext] at hmoved
  exact ⟨hcareful,hnodup,hmoved⟩

/-- The process ends between the creation of a run and the saving of its schedule: the next scan
creates another run for the same time. And after a fire by hand for the next time, a scan at that
time leaves the schedule as it is. -/
theorem restart_fires_again :
    (let last := (Machine.run (ScheduleServer.step (endingEnv (fun n => n = 4)))
      {saved := savedMinutes} [.scan 60,.scan 61]).2
    last.targets.map FireTarget.key = [("s",60),("s",60)]) ∧
    let before := (Machine.run (step (endingEnv (fun _ => false)))
      {saved := savedMinutes} [.scan 0,.runNow "s" 60 30]).2
    let after := before.step (endingEnv (fun _ => false)) (.scan 60)
    after.1 = true ∧ after.2.hydrated = true ∧
      (before.schedules.get? "s").map (fun schedule =>
        (schedule.status,schedule.state.nextFireAt)) = some (.running,some 60) ∧
      (after.2.schedules.get? "s").map (fun schedule =>
        (schedule.status,schedule.state.nextFireAt)) = some (.running,some 60) := by
  decide +kernel

end Calls
end BuckyOS.Workflow
