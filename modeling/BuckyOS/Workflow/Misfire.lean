import BuckyOS.Workflow.CronExact
import BuckyOS.Workflow.FireOnce

/-! Schedules over whole runs of scans, with nothing in their way: which of the times that fell
between two scans are fired, and when a schedule is due next. -/
namespace BuckyOS.Workflow
open Fallible List Machine Option ScheduleServer WorkflowSchedule

section Forward
/-- The numbers of an interval schedule are such that no sum leaves 64 bits. -/
def InRange (spec : ScheduleSpec) (low high : ℤ) : Prop :=
  match spec with
  | .runEvery everySec startAt _ _ => everySec < 2 ^ 60 ∧ (∀ start ∈ startAt, -2 ^ 60 ≤ start) ∧
      -2 ^ 60 ≤ low ∧ high ≤ 2 ^ 60
  | _ => True

theorem nextFireAfter_runEvery_gt {everySec : ℕ} {startAt endAt : Option ℤ} {timezone : Option String}
    {low high t next now : ℤ} (hrange : InRange (.runEvery everySec startAt endAt timezone) low high)
    (hlow : low ≤ t) (hhigh : t ≤ high)
    (hnext : nextFireAfter now (.runEvery everySec startAt endAt timezone) t = some next) : t < next := by
  obtain ⟨hevery,hstart,hlow',hhigh'⟩ := hrange
  have hasI64 : asI64 everySec = everySec := if_pos (by omega)
  rw [nextFireAfter,hasI64] at hnext
  obtain ⟨hpos,hnext⟩ := ite_none_left_eq_some.mp hnext
  obtain ⟨-,hnext⟩ := ite_none_left_eq_some.mp hnext
  obtain rfl := some.inj hnext
  cases startAt with
  | none =>
    rw [getD_none,saturated_of_bounds (by omega) (by omega),if_pos (by omega)]
    omega
  | some start =>
    have hfirst := hstart start rfl
    rw [getD_some]
    split_ifs with hafter
    · exact hafter
    · have hstep : t - start < ((t - start) / everySec + 1) * everySec :=
        Int.lt_ediv_add_one_mul_self _ (by omega)
      have hback : (t - start) / everySec * everySec ≤ t - start := Int.ediv_mul_le _ (by omega)
      have hsum : ((t - start) / everySec + 1) * everySec =
          (t - start) / everySec * everySec + everySec := by ring
      rw [saturated_of_bounds (x := t - start) (by omega) (by omega),
        saturated_of_bounds (x := ((t - start) / everySec + 1) * everySec) (by omega) (by omega),
        saturated_of_bounds (by omega) (by omega)]
      omega

theorem nextFireAfter_gt {spec : ScheduleSpec} (hreboot : isRebootSchedule spec = false)
    {low high t next now : ℤ} (hrange : InRange spec low high) (hlow : low ≤ t) (hhigh : t ≤ high)
    (hnext : nextFireAfter now spec t = some next) : t < next := by
  cases spec with
  | once runAt timezone =>
    rw [nextFireAfter] at hnext
    split_ifs at hnext with hafter
    exact some.inj hnext ▸ hafter
  | runEvery everySec startAt endAt timezone => exact nextFireAfter_runEvery_gt hrange hlow hhigh hnext
  | cron expr timezone calendar startAt endAt =>
    have hexpr : expr ≠ "@reboot" := by simpa [isRebootSchedule] using hreboot
    rw [nextFireAfter,if_neg hexpr] at hnext
    split at hnext
    · cases hnext
    · obtain ⟨k,rfl,-⟩ := searchMinutes_some hnext
      have hafter := (searchFrom_bounds startAt t).1
      omega

end Forward

section Gaps
variable {now : ℤ} {spec : ScheduleSpec}

theorem catchUpTimes_take (m k : ℕ) (cursor : ℤ) :
    catchUpTimes now spec m cursor = (catchUpTimes now spec (m + k) cursor).take m := by
  induction m generalizing cursor with
  | zero => rw [catchUpTimes,take_zero]
  | succ m ih =>
    rw [show m + 1 + k = m + k + 1 by omega,catchUpTimes,catchUpTimes]
    split_ifs
    · rw [take_succ_cons]
      cases nextFireAfter now spec cursor with
      | none => rw [take_nil]
      | some next =>
        dsimp only
        rw [← ih next]
    · rfl

def TimesGrow (now : ℤ) (spec : ScheduleSpec) (cursor : ℤ) : Prop :=
  ∀ t, cursor ≤ t → t ≤ now → ∀ next, nextFireAfter now spec t = some next → t < next

variable {cursor t : ℤ} {fuel : ℕ}

theorem catchUpTimes_enough (hgrows : TimesGrow now spec cursor)
    (hfuel : (now - cursor + 1).toNat ≤ fuel) (k : ℕ) :
    catchUpTimes now spec (fuel + k) cursor = catchUpTimes now spec fuel cursor := by
  induction fuel generalizing cursor with
  | zero =>
    have hpast : ¬ cursor ≤ now := by omega
    cases k with
    | zero => rfl
    | succ k =>
      rw [Nat.zero_add,catchUpTimes.eq_2,if_neg hpast]
      rfl
  | succ fuel ih =>
    rw [show fuel + 1 + k = fuel + k + 1 by omega,catchUpTimes,catchUpTimes]
    split_ifs with hdue
    · cases hnext : nextFireAfter now spec cursor with
      | none => rfl
      | some next =>
        have hlater := hgrows cursor le_rfl hdue next hnext
        dsimp only
        rw [ih (fun t ht => hgrows t (by omega)) (by omega)]
    · rfl

theorem mem_catchUpTimes (hgrows : TimesGrow now spec cursor)
    (ht : t ∈ catchUpTimes now spec fuel cursor) : cursor ≤ t ∧ t ≤ now := by
  induction fuel generalizing cursor with
  | zero => cases ht
  | succ fuel ih =>
    rw [catchUpTimes] at ht
    split_ifs at ht with hdue
    · rcases mem_cons.mp ht with rfl | ht
      · exact ⟨le_rfl,hdue⟩
      · cases hnext : nextFireAfter now spec cursor with
        | none =>
          rw [hnext] at ht
          cases ht
        | some next =>
          rw [hnext] at ht
          have hlater := hgrows cursor le_rfl hdue next hnext
          have hrest := ih (fun t ht => hgrows t (by omega)) ht
          exact ⟨by omega,hrest.2⟩
    · cases ht

/-- Schedules that fire once only. -/
def singleShot : ScheduleSpec → Bool
  | .once .. => true
  | spec => isRebootSchedule spec

def WorkflowSchedule.missed (schedule : WorkflowSchedule) (now : ℤ) : List ℤ :=
  match schedule.state.nextFireAt with
  | none => []
  | some t =>
    if singleShot schedule.spec then if t ≤ now then [t] else []
    else catchUpTimes now schedule.spec (now - t + 1).toNat t

theorem missed_of_length {schedule : WorkflowSchedule} (ht : schedule.state.nextFireAt = some t)
    (hspec : singleShot schedule.spec = false) (hgrows : TimesGrow now schedule.spec t) {limit : ℕ}
    (hlimit : (schedule.missed now).length ≤ limit) :
    catchUpTimes now schedule.spec limit t = schedule.missed now := by
  rw [missed,ht] at hlimit ⊢
  dsimp only at hlimit ⊢
  rw [if_neg (by simp [hspec])] at hlimit ⊢
  rcases le_total limit (now - t + 1).toNat with hle | hle
  · obtain ⟨k,hk⟩ := Nat.exists_eq_add_of_le hle
    rw [catchUpTimes_take limit k,← hk,take_of_length_le hlimit]
  · obtain ⟨k,rfl⟩ := Nat.exists_eq_add_of_le hle
    exact catchUpTimes_enough hgrows le_rfl k

end Gaps

section Calm
/-- Nothing stands in the way of a fire: the process does not end, no run is active and every
target can be created. -/
structure Calm (env : ScheduleEnv) : Prop where
  ends : ∀ n, env.ends n = false
  activeRuns : ∀ n, env.activeRuns n = 0
  createRun : ∀ n, ∃ id, env.createRun n = .ok id
  createSubtask : ∀ n, ∃ id, env.createSubtask n = .ok id

variable {env : ScheduleEnv} {now : ℤ} {id : String} {s s' : ScheduleServer}

section
variable (hcalm : Calm env)
include hcalm

theorem total_outward : Total (outward env) := by
  intro s
  rw [outward,hcalm.ends]
  exact ⟨_,rfl⟩

theorem total_updateAndSave (id : String) (f : WorkflowSchedule → WorkflowSchedule) :
    Total (updateAndSave env id f):=
  (total_update _).bind (fun _ => (total_outward hcalm).bind (fun _ => total_update _))

variable (fire : ScheduleFireRecord)

theorem total_failScheduleFire (error : String) : Total (failScheduleFire env fire error) :=
  (total_update _).bind (fun _ => (total_updateAndSave hcalm _ _).bind (fun _ => total_pure _))

theorem total_completeScheduleAfterSuccess : Total (completeScheduleAfterSuccess env now fire) :=
  (total_update _).bind (fun _ => (total_updateAndSave hcalm _ _).bind (fun _ => total_pure _))

theorem total_fireRun : Total (fireRun env now fire) := by
  refine (total_outward hcalm).bind (fun number => ?_)
  cases env.createRun number with
  | error error => exact total_failScheduleFire hcalm fire error
  | ok runId =>
    exact (total_update _).bind (fun _ => (total_outward hcalm).bind (fun _ =>
      total_completeScheduleAfterSuccess hcalm _))

theorem total_fireSubtask : Total (fireSubtask env now fire) := by
  refine (total_outward hcalm).bind (fun number => (total_read _).bind (fun existing => ?_))
  cases hcreate : env.createSubtask number with
  | error error => cases existing <;> exact total_failScheduleFire hcalm fire error
  | ok taskId =>
    cases existing with
    | none => exact (total_update _).bind (fun _ => total_completeScheduleAfterSuccess hcalm _)
    | some taskId => exact total_completeScheduleAfterSuccess hcalm _

theorem total_fireSchedule (id : String) (t : ℤ) (byHand : Bool) :
    Total (fireSchedule env now id t byHand) := by
  refine (total_read _).bind (fun found => ?_)
  cases found with
  | none => exact total_pure _
  | some schedule =>
    refine total_ite (total_pure _) (Total.bind (fun s => ⟨_,rfl⟩) (fun begun => ?_))
    refine total_ite ?_ (total_pure _)
    unfold carryOut
    refine total_ite (total_failScheduleFire hcalm _ _) ((total_outward hcalm).bind (fun number => ?_))
    refine total_ite ((total_update _).bind (fun _ =>
      (total_updateAndSave hcalm _ _).bind (fun _ => total_pure _))) ?_
    exact total_ite (total_fireRun hcalm _) (total_fireSubtask hcalm _)

theorem total_scanSchedule (schedule : WorkflowSchedule) : Total (scanSchedule env now schedule) := by
  unfold scanSchedule
  rcases dueFireTimes schedule now with ⟨times,next,_ | missed⟩
  · refine (total_visit (fun t => ?_) times).bind (fun _ =>
      total_ite (total_updateAndSave hcalm _ _) (total_pure _))
    exact (total_fireSchedule hcalm _ t false).bind (fun _ => total_pure _)
  · exact total_updateAndSave hcalm _ _

theorem total_scanDueSchedules : Total (scanDueSchedules env now) := by
  refine Total.bind ?_ (fun _ => (total_read _).bind (fun _ => total_ite ?_ (total_pure _)))
  · exact (total_read _).bind (fun _ => total_ite (total_pure _) ((total_outward hcalm).bind
      (fun _ => total_ite (total_update _) (total_pure _))))
  · exact (total_read _).bind (fun _ => total_visit (fun schedule => total_scanSchedule hcalm schedule) _)

theorem step_scanEnds (hkeyed : s.Keyed) : ScanEnds env now s (s.step env (.scan now)).2 := by
  obtain ⟨a,ha⟩ : ∃ a, (scanDueSchedules env now s).1 = .ok a := total_scanDueSchedules hcalm s
  have hends : ScanEnds env now s (scanDueSchedules env now s).2 := of_wp_ok (wp_scanDueSchedules hkeyed) ha
  have hrun : performCall env (.scan now) s = (.ok a,(scanDueSchedules env now s).2) := Prod.ext ha rfl
  rw [step,hrun]
  exact hends

end

def ScheduleServer.firesOf (s : ScheduleServer) (id : String) : List ℤ :=
  (s.targets.filter (fun target => target.key.1 = id)).map (fun target => target.key.2)

def Fresh (id : String) (s : ScheduleServer) (t : ℤ) : Prop :=
  ¬ s.OnRecord (id,t) ∧ t ∉ s.firesOf id

theorem ScheduleServer.Same.firesOf (h : ScheduleServer.Same id s s') : s'.firesOf id = s.firesOf id := by
  rw [ScheduleServer.firesOf,h.targets,ScheduleServer.firesOf]

variable {t : ℤ}

theorem ScheduleServer.Same.fresh (h : ScheduleServer.Same id s s') (ht : Fresh id s t) :
    Fresh id s' t := by
  rw [Fresh,h.fires,h.firesOf]
  exact ht

theorem Fresh.subtaskOf (h : Fresh id s t) : s.subtaskOf (id,t) = none := by
  rw [ScheduleServer.subtaskOf,Option.map_eq_none_iff,find?_eq_none]
  intro target htarget hkey
  rw [decide_eq_true_eq] at hkey
  refine h.2 (mem_map.mpr ⟨target,mem_filter.mpr ⟨htarget,?_⟩,?_⟩)
  · rw [hkey.1]
    exact decide_eq_true rfl
  · rw [hkey.1]

variable {schedule : WorkflowSchedule}

theorem FireRuns.succeeds (hcalm : Calm env) (h : FireRuns env now id t false s s')
    (hget : s.schedules.get? id = some schedule) (hrunning : schedule.status = .running)
    (hroot : schedule.rootTaskId ≠ none) (hfresh : Fresh id s t) :
    ∃ fire : ScheduleFireRecord, fire.fireTime = t ∧ fire.byHand = false ∧
      s'.schedules.get? id = some (schedule.succeededFire now fire) ∧
      s'.firesOf id = s.firesOf id ++ [t] ∧ ∀ t', s'.OnRecord (id,t') ↔ t' = t ∨ s.OnRecord (id,t') := by
  rcases h with ⟨-,hwhy⟩ | ⟨found,hfound,-,-,f,heffect,hschedules,hfires,-⟩
  · rcases hwhy with hnone | hrecord | ⟨-,found,hfound,hstopped⟩
    · rw [hget] at hnone
      cases hnone
    · exact absurd hrecord hfresh.1
    · rw [hget] at hfound
      exact absurd (some.inj hfound ▸ hrunning) hstopped
  · obtain rfl : schedule = found := some.inj (hget.symm.trans hfound)
    obtain ⟨target,fire,htime,hhand,htargets,hkey,rfl⟩ : ∃ target, ∃ fire : ScheduleFireRecord,
        fire.fireTime = t ∧ fire.byHand = false ∧ s'.targets = s.targets ++ [target] ∧
          target.key = (id,t) ∧ f = succeededFire now fire := by
      generalize s'.targets = targets at heffect ⊢
      cases heffect with
      | failed error hcause =>
        rcases hcause with hnone | ⟨n,hrun⟩ | ⟨n,hsub⟩
        · exact absurd hnone hroot
        · obtain ⟨runId,hok⟩ := hcalm.createRun n
          rw [hrun] at hok
          cases hok
        · obtain ⟨taskId,hok⟩ := hcalm.createSubtask n
          rw [hsub] at hok
          cases hok
      | skipped hactive =>
        obtain ⟨n,hn⟩ := hactive
        rw [hcalm.activeRuns] at hn
        exact absurd hn (lt_irrefl 0)
      | ran _ fire htime hhand | created _ fire htime hhand => exact ⟨_,fire,htime,hhand,rfl,rfl,rfl⟩
      | found taskId fire htime hhand _ hfound' =>
        exact absurd (hfresh.subtaskOf.symm.trans hfound') (some_ne_none _).symm
    refine ⟨fire,htime,hhand,?_,?_,fun t' => ?_⟩
    · rw [hschedules,get?_updateSchedule,if_pos rfl,hget]
      rfl
    · rw [ScheduleServer.firesOf,htargets,filter_append,map_append]
      simp [ScheduleServer.firesOf,hkey]
    · rw [hfires]
      simp [ScheduleFireRecord.key]

variable {fire : ScheduleFireRecord}

theorem succeededFire_next (hhand : fire.byHand = false) :
    (schedule.succeededFire now fire).state.nextFireAt =
      if singleShot schedule.spec then none else nextFireAfter now schedule.spec fire.fireTime := by
  unfold succeededFire
  cases hspec : schedule.spec with
  | once runAt timezone => rfl
  | runEvery everySec startAt endAt timezone => simp [singleShot,isRebootSchedule,hhand]
  | cron expr timezone calendar startAt endAt =>
    by_cases hreboot : expr = "@reboot"
    · simp [singleShot,isRebootSchedule,hreboot]
    · simp [singleShot,isRebootSchedule,hreboot,hhand]

theorem succeededFire_status (hspec : singleShot schedule.spec = false) :
    (schedule.succeededFire now fire).status = schedule.status := by
  unfold succeededFire
  cases h : schedule.spec with
  | once runAt timezone =>
    rw [h] at hspec
    cases hspec
  | runEvery everySec startAt endAt timezone | cron expr timezone calendar startAt endAt => rfl

/-- A schedule as it stands between two scans: nothing has been done for the times to come. -/
def Armed (id : String) (schedule : WorkflowSchedule) (s : ScheduleServer) : Prop :=
  s.schedules.get? id = some schedule ∧
    ∀ next ∈ schedule.state.nextFireAt, ∀ t, next ≤ t → Fresh id s t

/-- The fires of a schedule that goes on, in calm: each time of the list in turn, and if there was
no other time up to now the schedule is due only later. -/
theorem Firings.chain (hcalm : Calm env) {spec : ScheduleSpec} (hspec : singleShot spec = false)
    {limit : ℕ} {cursor : ℤ} (h : Firings env now id (catchUpTimes now spec limit cursor) s s')
    (harmed : Armed id schedule s) (hown : schedule.spec = spec)
    (hrunning : schedule.status = .running) (hroot : schedule.rootTaskId ≠ none)
    (hcursor : schedule.state.nextFireAt = some cursor) (hgrows : TimesGrow now spec cursor) :
    s'.firesOf id = s.firesOf id ++ catchUpTimes now spec limit cursor ∧
      ∃ schedule', Armed id schedule' s' ∧ schedule'.fixed = schedule.fixed ∧
        schedule'.status = .running ∧ ((catchUpTimes now spec (limit + 1) cursor).length ≤
          limit → ∀ next ∈ schedule'.state.nextFireAt, now < next) := by
  induction limit generalizing cursor s schedule with
  | zero =>
    cases h with
    | nil =>
      refine ⟨(append_nil _).symm,schedule,harmed,rfl,hrunning,?_⟩
      intro hlength next hnext
      rw [hcursor,mem_some_iff] at hnext
      subst hnext
      by_contra hdue
      rw [catchUpTimes,if_pos (not_lt.mp hdue)] at hlength
      simp at hlength
  | succ limit ih =>
    by_cases hdue : cursor ≤ now
    · have htimes : ∀ k, catchUpTimes now spec (k + 1) cursor = cursor ::
          (match nextFireAfter now spec cursor with
          | none => []
          | some next => catchUpTimes now spec k next) := fun k => if_pos hdue
      rw [htimes] at h
      rw [htimes,htimes]
      cases h with
      | cons hfirst hrest =>
        rename_i s₁
        obtain ⟨fire,htime,hhand,hget₁,hfires₁,hrecord₁⟩ := FireRuns.succeeds hcalm hfirst harmed.1
          hrunning hroot (harmed.2 cursor hcursor cursor le_rfl)
        have hnext₁ : (schedule.succeededFire now fire).state.nextFireAt = _ := succeededFire_next hhand
        rw [hown,hspec,htime,if_neg Bool.false_ne_true] at hnext₁
        have hfixed₁ := succeededFire_fixed now fire schedule
        have hrunning₁ : (schedule.succeededFire now fire).status = .running :=
          (succeededFire_status (by rw [hown]; exact hspec)).trans hrunning
        have harmed₁ : Armed id (schedule.succeededFire now fire) s₁ := by
          refine ⟨hget₁,fun next hnext t ht => ?_⟩
          rw [hnext₁] at hnext
          have hlater := hgrows cursor le_rfl hdue next hnext
          have hfresh := harmed.2 cursor hcursor t (by omega)
          refine ⟨?_,?_⟩
          · rw [hrecord₁]
            rintro (rfl | hrecord)
            · omega
            · exact hfresh.1 hrecord
          · rw [hfires₁,mem_append,mem_singleton]
            rintro (hfired | rfl)
            · exact hfresh.2 hfired
            · omega
        cases hnext : nextFireAfter now spec cursor with
        | none =>
          rw [hnext] at hrest hnext₁
          cases hrest with
          | nil =>
            refine ⟨hfires₁,_,harmed₁,hfixed₁,hrunning₁,fun _ next hmem => ?_⟩
            rw [hnext₁] at hmem
            cases hmem
        | some next =>
          rw [hnext] at hrest hnext₁
          have hlater := hgrows cursor le_rfl hdue next hnext
          obtain ⟨hfires,schedule',harmed',hfixed',hrunning',hlast⟩ := ih hrest harmed₁
            ((congrArg (fun fixed => fixed.2.1) hfixed₁).trans hown) hrunning₁
            (by rw [show (schedule.succeededFire now fire).rootTaskId = schedule.rootTaskId from
              congrArg (fun fixed => fixed.2.2.2.2) hfixed₁]; exact hroot) hnext₁
            (fun t ht => hgrows t (by omega))
          refine ⟨?_,schedule',harmed',hfixed'.trans hfixed₁,hrunning',fun hlength => hlast ?_⟩
          · rw [hfires,hfires₁,append_assoc]
            rfl
          · exact Nat.le_of_succ_le_succ hlength
    · have hnone : ∀ k, catchUpTimes now spec (k + 1) cursor = [] := fun k => by
        rw [catchUpTimes,if_neg hdue]
      rw [hnone] at h ⊢
      cases h with
      | nil =>
        refine ⟨(append_nil _).symm,schedule,harmed,rfl,hrunning,fun _ next hnext => ?_⟩
        rw [hcursor,mem_some_iff] at hnext
        omega

theorem Firings.single (hcalm : Calm env) (hspec : singleShot schedule.spec = true) {rest : List ℤ}
    (h : Firings env now id (t :: rest) s s') (harmed : Armed id schedule s)
    (hrunning : schedule.status = .running) (hroot : schedule.rootTaskId ≠ none)
    (hnext : schedule.state.nextFireAt = some t)
    (hrest : isRebootSchedule schedule.spec = true → rest = []) : s'.firesOf id = s.firesOf id ++ [t] ∧
      ∃ schedule', s'.schedules.get? id = some schedule' ∧ schedule'.fixed = schedule.fixed ∧
        schedule'.state.nextFireAt = none := by
  cases h with
  | @cons _ _ _ s₁ _ hfirst hothers =>
    obtain ⟨fire,htime,hhand,hget₁,hfires₁,-⟩ := FireRuns.succeeds hcalm hfirst harmed.1 hrunning hroot
      (harmed.2 t hnext t le_rfl)
    have hnone : (schedule.succeededFire now fire).state.nextFireAt = none := by
      rw [succeededFire_next hhand,hspec]
      rfl
    have hsame : s' = s₁ := by
      by_cases hreboot : isRebootSchedule schedule.spec = true
      · rw [hrest hreboot] at hothers
        cases hothers with
        | nil => rfl
      · obtain ⟨runAt,timezone,honce⟩ : ∃ runAt timezone, schedule.spec = .once runAt timezone := by
          cases hcase : schedule.spec with
          | once runAt timezone => exact ⟨runAt,timezone,rfl⟩
          | runEvery everySec startAt endAt timezone =>
            rw [hcase] at hspec
            cases hspec
          | cron expr timezone calendar startAt endAt =>
            rw [hcase] at hspec hreboot
            exact absurd hspec hreboot
        refine hothers.keeps (I := fun s => s = s₁) ?_ rfl
        rintro t' - s₂ s₃ rfl hfire
        rcases hfire with ⟨rfl,-⟩ | ⟨found,hfound,hstill,-,-⟩
        · rfl
        · have hstopped := hstill rfl
          rw [← some.inj (hget₁.symm.trans hfound),succeededFire,honce] at hstopped
          cases hstopped
    rw [hsame]
    exact ⟨hfires₁,_,hget₁,succeededFire_fixed now fire schedule,hnone⟩

end Calm

section Law
def scanInterval : ℤ := 1

/-- What a misfire policy promises for the times that have come. -/
structure Obeyed (schedule : WorkflowSchedule) (now : ℤ) (fired : List ℤ) : Prop where
  prompt : ∀ t ∈ schedule.missed now, now - t ≤ scanInterval → t ∈ fired
  runOnce : schedule.policy.misfire = .runOnce →
    fired.length = if schedule.missed now = [] then 0 else 1
  catchUp : schedule.policy.misfire = .catchUp →
    fired = (schedule.missed now).take schedule.policy.catchUpLimit

/-- No more times have come than the policy fires at; for a policy that lets them pass, none of them
just now. -/
def InTime (schedule : WorkflowSchedule) (now : ℤ) : Prop :=
  match schedule.policy.misfire with
  | .skip => isRebootSchedule schedule.spec = false ∧
      ∀ t ∈ schedule.missed now, scanInterval < now - t
  | .manual => isRebootSchedule schedule.spec = false ∧
      ∀ t ∈ schedule.missed now, scanInterval < now - t
  | .runOnce => (schedule.missed now).length ≤ 1
  | .catchUp => (schedule.missed now).length ≤ schedule.policy.catchUpLimit ∧
      (isRebootSchedule schedule.spec = true → schedule.policy.catchUpLimit = 1)

def Scannable (schedule : WorkflowSchedule) (now : ℤ) : Prop :=
  ∀ t ∈ schedule.state.nextFireAt, t ≤ now → InRange schedule.spec t now ∧ InTime schedule now

variable {env : ScheduleEnv} {now : ℤ} {s s' : ScheduleServer} {schedule : WorkflowSchedule}

theorem not_reboot_of_singleShot {spec : ScheduleSpec} (h : singleShot spec = false) :
    isRebootSchedule spec = false := by
  cases spec with
  | once => cases h
  | runEvery => rfl
  | cron expr timezone calendar startAt endAt => exact h

variable {t : ℤ}

theorem missed_of_singleShot (hspec : singleShot schedule.spec = true)
    (ht : schedule.state.nextFireAt = some t) (hle : t ≤ now) : schedule.missed now = [t] := by
  rw [missed,ht]
  dsimp only
  rw [if_pos hspec,if_pos hle]

theorem grows_of_inRange {spec : ScheduleSpec} (hspec : singleShot spec = false)
    (hrange : InRange spec t now) : TimesGrow now spec t := fun _ hlow hhigh _ hnext =>
  nextFireAfter_gt (not_reboot_of_singleShot hspec) hrange hlow hhigh hnext

theorem mem_missed_le {t' : ℤ} (ht : schedule.state.nextFireAt = some t)
    (hrange : t ≤ now → InRange schedule.spec t now) (hmem : t' ∈ schedule.missed now) :
    t ≤ t' ∧ t ≤ now := by
  rw [missed,ht] at hmem
  dsimp only at hmem
  split_ifs at hmem with hspec hle
  · rw [mem_singleton.mp hmem]
    exact ⟨le_rfl,hle⟩
  · cases hmem
  · have hle : t ≤ now := by
      by_contra hlate
      rw [show (now - t + 1).toNat = 0 by omega] at hmem
      cases hmem
    have hbounds := mem_catchUpTimes (grows_of_inRange (by simpa using hspec) (hrange hle)) hmem
    exact ⟨hbounds.1,hle⟩

theorem missed_ne_nil (ht : schedule.state.nextFireAt = some t) (hle : t ≤ now) :
    schedule.missed now ≠ [] := by
  rw [missed,ht]
  dsimp only
  split_ifs with hspec
  · exact cons_ne_nil _ _
  · obtain ⟨fuel,hfuel⟩ : ∃ fuel, (now - t + 1).toNat = fuel + 1 := Nat.exists_eq_succ_of_ne_zero (by omega)
    rw [hfuel,catchUpTimes,if_pos hle]
    exact cons_ne_nil _ _

theorem obeyed_of_all (hnonempty : schedule.missed now ≠ []) (hpasses : ¬ schedule.policy.Passes)
    (hintime : InTime schedule now) : Obeyed schedule now (schedule.missed now) ∧
      (schedule.missed now).length ≤ schedule.policy.limit ∧
      (isRebootSchedule schedule.spec = true → schedule.policy.limit = 1) := by
  have hpos : 0 < (schedule.missed now).length := length_pos_iff.mpr hnonempty
  unfold InTime at hintime
  cases hpolicy : schedule.policy.misfire with
  | skip => exact absurd (.inl hpolicy) hpasses
  | manual => exact absurd (.inr hpolicy) hpasses
  | runOnce =>
    rw [hpolicy] at hintime
    have hlimit : schedule.policy.limit = 1 := by rw [SchedulePolicy.limit,hpolicy]
    refine ⟨⟨fun t ht _ => ht,fun _ => ?_,fun h => ?_⟩,by omega,fun _ => hlimit⟩
    · rw [if_neg hnonempty]
      exact le_antisymm hintime hpos
    · rw [hpolicy] at h
      cases h
  | catchUp =>
    rw [hpolicy] at hintime
    have hlimit : schedule.policy.limit = max schedule.policy.catchUpLimit 1 := by
      rw [SchedulePolicy.limit,hpolicy]
    refine ⟨⟨fun t ht _ => ht,fun h => ?_,fun _ => ?_⟩,?_,fun hreboot => ?_⟩
    · rw [hpolicy] at h
      cases h
    · exact (take_of_length_le hintime.1).symm
    · rw [hlimit]
      exact le_max_of_le_left hintime.1
    · rw [hlimit,hintime.2 hreboot,max_self]

theorem ScanRuns.law (hcalm : Calm env) (h : ScanRuns env now schedule s s')
    (harmed : Armed schedule.scheduleId schedule s) (hrunning : schedule.status = .running)
    (hroot : schedule.rootTaskId ≠ none) (ht : schedule.state.nextFireAt = some t) (hle : t ≤ now)
    (hscan : Scannable schedule now) :
    ∃ fired, s'.firesOf schedule.scheduleId = s.firesOf schedule.scheduleId ++ fired ∧
      Obeyed schedule now fired ∧ ∃ schedule', Armed schedule.scheduleId schedule' s' ∧
        schedule'.fixed = schedule.fixed ∧ (schedule'.status = .running ∨ schedule'.state.nextFireAt = none) ∧
        ∀ next ∈ schedule'.state.nextFireAt, now < next := by
  obtain ⟨hrange,hintime⟩ := hscan t ht hle
  rcases h with ⟨hactive,hfires⟩ | ⟨hpasses,-,f,hmemory,hf⟩
  · obtain ⟨hobeyed,hlength,hreboot⟩ := obeyed_of_all (missed_ne_nil ht hle) hactive hintime
    refine ⟨schedule.missed now,?_⟩
    rw [dueFireTimes_due ht hle] at hfires
    cases hspec : singleShot schedule.spec with
    | false =>
      have hgrows := grows_of_inRange hspec hrange
      obtain ⟨hfired,schedule',harmed',hfixed,hrunning',hlast⟩ :=
        hfires.chain hcalm hspec harmed rfl hrunning hroot ht hgrows
      rw [missed_of_length ht hspec hgrows hlength] at hfired
      refine ⟨hfired,hobeyed,schedule',harmed',hfixed,.inl hrunning',hlast ?_⟩
      rw [missed_of_length ht hspec hgrows (Nat.le_succ_of_le hlength)]
      exact hlength
    | true =>
      have hmissed := missed_of_singleShot hspec ht hle
      obtain ⟨limit,hlimit⟩ : ∃ limit, schedule.policy.limit = limit + 1 := by
        refine Nat.exists_eq_succ_of_ne_zero (fun hzero => ?_)
        rw [hmissed,hzero] at hlength
        cases hlength
      rw [hlimit,catchUpTimes,if_pos hle] at hfires
      obtain ⟨hfired,schedule',hget',hfixed,hnone⟩ :=
        Firings.single hcalm hspec hfires harmed hrunning hroot ht (fun hboot => by
          have hzero : limit = 0 := by have := hreboot hboot; omega
          rw [hzero]
          cases nextFireAfter now schedule.spec t <;> rfl)
      refine ⟨by rw [hfired,hmissed],hobeyed,schedule',⟨hget',?_⟩,hfixed,.inr hnone,?_⟩
      · rw [hnone]
        rintro next ⟨⟩
      · rw [hnone]
        rintro next ⟨⟩
  · have hpassed : isRebootSchedule schedule.spec = false ∧
        ∀ t ∈ schedule.missed now, scanInterval < now - t := by
      rcases hpasses with hskip | hmanual
      · rw [InTime,hskip] at hintime
        exact hintime
      · rw [InTime,hmanual] at hintime
        exact hintime
    have hsame := fun key => PutOff.onRecord ⟨f,hmemory,hf⟩ key
    have htargets := PutOff.targets ⟨f,hmemory,hf⟩
    have hget' : s'.schedules.get? schedule.scheduleId = some (f schedule) := by
      rw [memory_schedules hmemory,get?_updateSchedule,if_pos rfl,harmed.1]
      rfl
    have hlater : ∀ next ∈ (f schedule).state.nextFireAt, now < next := by
      intro next hnext
      rw [(hf schedule).2.2] at hnext
      exact nextFireAfter_gt hpassed.1 hrange hle le_rfl hnext
    refine ⟨[],?_,⟨?_,?_,?_⟩,f schedule,⟨hget',?_⟩,(hf schedule).1,
      .inl ((hf schedule).2.1.trans hrunning),hlater⟩
    · rw [ScheduleServer.firesOf,htargets,append_nil,ScheduleServer.firesOf]
    · intro t' ht' hnow
      exact absurd hnow (not_le.mpr (hpassed.2 t' ht'))
    · intro hrunOnce
      rcases hpasses with h | h <;> rw [hrunOnce] at h <;> cases h
    · intro hcatchUp
      rcases hpasses with h | h <;> rw [hcatchUp] at h <;> cases h
    · intro next hnext t' ht'
      have hnow := hlater next hnext
      have hfresh := harmed.2 t ht t' (by omega)
      rw [Fresh,hsame,ScheduleServer.firesOf,htargets]
      exact hfresh

/-- A schedule that runs, or has nothing more to do, on a service that has its schedules. -/
structure Standing (id : String) (schedule : WorkflowSchedule) (s : ScheduleServer) : Prop where
  keyed : s.Keyed
  hydrated : s.hydrated = true
  armed : Armed id schedule s
  runs : schedule.status = .running ∨ schedule.state.nextFireAt = none
  root : schedule.rootTaskId ≠ none

variable (misfire : MisfirePolicy) (id : String)

/-- What a scan at a time promises for a schedule. -/
def ScanLaw (now : ℤ) (schedule : WorkflowSchedule) (s s' : ScheduleServer) : Prop :=
  (∃ fired, s'.firesOf id = s.firesOf id ++ fired ∧ Obeyed schedule now fired) ∧
    ∀ schedule', s'.schedules.get? id = some schedule' →
      ∀ next ∈ schedule'.state.nextFireAt, now < next

theorem scan_law (hcalm : Calm env) {id : String} (h : Standing id schedule s)
    (hscan : schedule.status = .running → Scannable schedule now) :
    ScanLaw id now schedule s (s.step env (.scan now)).2 ∧
      ∃ schedule', Standing id schedule' (s.step env (.scan now)).2 := by
  have hends : ScanEnds env now s (s.step env (.scan now)).2 := step_scanEnds hcalm h.keyed
  have hkeyed' := hends.keyed h.keyed
  have hhydrated' := hends.hydrated h.hydrated
  have hview : s.scanView now = s := if_pos h.hydrated
  obtain rfl : schedule.scheduleId = id := h.keyed _ _ h.armed.1
  by_cases hdue : schedule ∈ s.due now
  · obtain ⟨-,hrunning,t,ht,hle⟩ := (mem_due h.keyed).mp hdue
    obtain ⟨s₁,s₂,hfirst,hown,hlast⟩ := hends.own h.keyed hhydrated' (hview.symm ▸ hdue)
    rw [hview] at hfirst
    have harmed₁ : Armed schedule.scheduleId schedule s₁ := ⟨hfirst.schedule.trans h.armed.1,
        fun next hnext t ht => hfirst.fresh (h.armed.2 next hnext t ht)⟩
    obtain ⟨fired,hfired,hobeyed,schedule',harmed',hfixed,hruns,hlater⟩ :=
      hown.law hcalm harmed₁ hrunning h.root ht hle (hscan hrunning)
    have hget' := hlast.schedule.trans harmed'.1
    refine ⟨⟨⟨fired,?_,hobeyed⟩,?_⟩,schedule',hkeyed',hhydrated',⟨hget',?_⟩,hruns,?_⟩
    · rw [hlast.firesOf,hfired,hfirst.firesOf]
    · intro schedule'' hget''
      obtain rfl := some.inj (hget'.symm.trans hget'')
      exact hlater
    · exact fun next hnext t ht => hlast.fresh (harmed'.2 next hnext t ht)
    · rw [show schedule'.rootTaskId = schedule.rootTaskId from
        congrArg (fun fixed => fixed.2.2.2.2) hfixed]
      exact h.root
  · have hnot : schedule.scheduleId ∉ (s.due now).map scheduleId := by
      intro hmem
      obtain ⟨other,hother,hid⟩ := mem_map.mp hmem
      have hget := ((mem_due h.keyed).mp hother).1
      rw [hid,h.armed.1] at hget
      exact hdue (some.inj hget ▸ hother)
    have hsame := hends.other hhydrated' (hview.symm ▸ hnot)
    rw [hview] at hsame
    have hlater : ∀ next ∈ schedule.state.nextFireAt, now < next := by
      intro next hnext
      rcases h.runs with hrunning | hnone
      · by_contra hle
        exact hdue ((mem_due h.keyed).mpr ⟨h.armed.1,hrunning,next,hnext,not_lt.mp hle⟩)
      · rw [hnone] at hnext
        cases hnext
    have hmissed : schedule.missed now = [] := by
      rw [missed]
      cases hnext : schedule.state.nextFireAt with
      | none => rfl
      | some t =>
        have hlate := hlater t hnext
        dsimp only
        rw [if_neg (not_le.mpr hlate),show (now - t + 1).toNat = 0 by omega]
        exact ite_self _
    have hget' := hsame.schedule.trans h.armed.1
    refine ⟨⟨⟨[],by rw [hsame.firesOf,append_nil],?_,?_,?_⟩,?_⟩,schedule,hkeyed',hhydrated',
      ⟨hget',fun next hnext t ht => hsame.fresh (h.armed.2 next hnext t ht)⟩,h.runs,h.root⟩
    · rw [hmissed]
      exact fun t ht => absurd ht not_mem_nil
    · rw [if_pos hmissed]
      exact fun _ => rfl
    · rw [hmissed,take_nil]
      exact fun _ => rfl
    · intro schedule' hget''
      obtain rfl := some.inj (hget'.symm.trans hget'')
      exact hlater

def ScansInTime (s : ScheduleServer) : ScheduleCall → Prop
  | .scan now => ∀ schedule, s.schedules.get? id = some schedule → schedule.status = .running →
      Scannable schedule now
  | _ => True

theorem standing_after (hcalm : Calm env) {id : String} (h : Standing id schedule s) {times : List ℤ}
    (hsorted : times.Pairwise (· ≤ ·))
    (hintime : Machine.Along (ScheduleServer.step env) (ScansInTime id) s (times.map .scan)) (k : ℕ) :
    ∃ schedule, Standing id schedule (Machine.run (ScheduleServer.step env) s ((times.take k).map .scan)).2 ∧
      ∀ earlier ∈ times.take k, ∀ next ∈ schedule.state.nextFireAt, earlier < next := by
  induction k with
  | zero => exact ⟨schedule,h,fun earlier hmem => absurd hmem not_mem_nil⟩
  | succ k ih =>
    obtain ⟨schedule',hstanding,hlater⟩ := ih
    cases hk : times[k]? with
    | none =>
      rw [take_add_one,hk,toList_none,append_nil]
      exact ⟨schedule',hstanding,hlater⟩
    | some now =>
      have hstep : ScansInTime id (run (step env) s ((times.take k).map .scan)).2 (.scan now) := by
        rw [map_take]
        exact hintime.of_getElem? (by rw [getElem?_map,hk]; rfl)
      obtain ⟨⟨-,hnext⟩,schedule'',hstanding'⟩ := scan_law hcalm hstanding (hstep schedule' hstanding.armed.1)
      have hrun : (run (step env) s ((times.take (k + 1)).map .scan)).2 =
          ((run (step env) s ((times.take k).map .scan)).2.step env (.scan now)).2 := by
        rw [take_add_one,hk,map_append,run_append]
        rfl
      rw [hrun]
      refine ⟨schedule'',hstanding',?_⟩
      intro earlier hearlier next hmem
      have hnow := hnext schedule'' hstanding'.armed.1 next hmem
      rw [take_add_one,hk,toList_some,mem_append,mem_singleton] at hearlier
      rcases hearlier with hearlier | rfl
      · have hle : earlier ≤ now := by
          rw [← take_append_drop k times,drop_eq_getElem?_toList_append,hk,pairwise_append] at hsorted
          exact hsorted.2.2 earlier hearlier now mem_cons_self
        omega
      · exact hnow

/-- In calm, over every run of scans at times that do not go back, in which no scan finds more times
come than the policy of a schedule fires at, each scan keeps its promise for the times that came
after the scans before it. -/
theorem scans_obey_policy (hcalm : Calm env) {id : String} (hstanding : Standing id schedule s)
    {times : List ℤ} (hsorted : times.Pairwise (· ≤ ·))
    (hintime : Machine.Along (ScheduleServer.step env) (ScansInTime id) s (times.map .scan)) {k : ℕ}
    {now : ℤ} (hk : times[k]? = some now) :
    let before := (run (step env) s ((times.take k).map .scan)).2
    ∃ schedule, before.schedules.get? id = some schedule ∧
      (∀ earlier ∈ times.take k, ∀ t ∈ schedule.missed now, earlier < t) ∧
      ScanLaw id now schedule before (before.step env (.scan now)).2 := by
  intro before
  obtain ⟨schedule',hstanding',hlater⟩ := standing_after hcalm hstanding hsorted hintime k
  have hstep : ScansInTime id before (.scan now) := by
    simp only [before,map_take]
    exact hintime.of_getElem? (by rw [getElem?_map,hk]; rfl)
  have hscan := hstep schedule' hstanding'.armed.1
  refine ⟨schedule',hstanding'.armed.1,?_,(scan_law hcalm hstanding' hscan).1⟩
  intro earlier hearlier t ht
  cases hnext : schedule'.state.nextFireAt with
  | none =>
    rw [missed,hnext] at ht
    cases ht
  | some next =>
    have hrunning : schedule'.status = .running := by
      refine hstanding'.runs.resolve_right (fun hnone => ?_)
      rw [hnext] at hnone
      cases hnone
    have hbounds := mem_missed_le hnext (fun hle => (hscan hrunning next hnext hle).1) ht
    have hafter := hlater earlier hearlier next hnext
    omega

def minuteServer : ScheduleServer :=
  {schedules := OrderedMap.empty.insert "s" {minuteSchedule with policy := {misfire := misfire}},
    hydrated := true}

theorem calm_calmEnv : Calm calmEnv :=
  ⟨fun _ => rfl,fun _ => rfl,fun _ => ⟨_,rfl⟩,fun _ => ⟨_,rfl⟩⟩

theorem minuteServer_get? :
    (minuteServer misfire).schedules.get? id =
      if id = "s" then some {minuteSchedule with policy := {misfire := misfire}} else none := by
  show OrderedMap.get? (OrderedMap.insert _ _ _) id = _
  rw [OrderedMap.get?_insert]
  rfl

instance (spec : ScheduleSpec) (low high : ℤ) : Decidable (InRange spec low high) :=
  match spec with
  | .runEvery .. => inferInstanceAs (Decidable (_ ∧ _))
  | .once .. | .cron .. => inferInstanceAs (Decidable True)

instance (schedule : WorkflowSchedule) (now : ℤ) : Decidable (InTime schedule now) := by
  unfold InTime
  split <;> infer_instance

instance (id : String) (s : ScheduleServer) : ∀ call, Decidable (ScansInTime id s call)
  | .scan now => inferInstanceAs (Decidable (∀ schedule ∈ s.schedules.get? id,
      schedule.status = .running → ∀ t ∈ schedule.state.nextFireAt, t ≤ now →
        InRange schedule.spec t now ∧ InTime schedule now))
  | .runNow .. | .pause .. | .resume .. | .archive .. | .update .. | .restart =>
    inferInstanceAs (Decidable True)

def minuteTimes : List ℤ := [60,120,185]

def scannedMinutes : ScheduleServer :=
  (Machine.run (ScheduleServer.step calmEnv) (minuteServer .runOnce) ((minuteTimes.take 2).map .scan)).2

theorem scans_obey_policy_minute :
    ∃ schedule, scannedMinutes.schedules.get? "s" = some schedule ∧
      schedule.state.nextFireAt = some 180 ∧
      ScanLaw "s" 185 schedule scannedMinutes (scannedMinutes.step calmEnv (.scan 185)).2 := by
  have hstanding : Standing "s" {minuteSchedule with policy := {misfire := .runOnce}}
      (minuteServer .runOnce) := by
    refine ⟨?_,rfl,⟨by rw [minuteServer_get?,if_pos rfl],?_⟩,.inl rfl,some_ne_none _⟩
    · intro id schedule hget
      rw [minuteServer_get?] at hget
      split_ifs at hget with hid
      rw [← some.inj hget,hid]
      rfl
    · exact fun next _ t _ => ⟨Bool.false_ne_true,not_mem_nil⟩
  have hintime : Machine.Along (ScheduleServer.step calmEnv) (ScansInTime "s") (minuteServer .runOnce)
      (minuteTimes.map .scan) := by decide +kernel
  have hnext : (scannedMinutes.schedules.get? "s").map (fun schedule => schedule.state.nextFireAt) =
      some (some 180) := by decide +kernel
  obtain ⟨schedule,hget,-,hlaw⟩ := scans_obey_policy (k := 2) calm_calmEnv
    hstanding (by decide) hintime rfl
  unfold scannedMinutes at hnext ⊢
  rw [hget] at hnext
  exact ⟨schedule,hget,some.inj hnext,hlaw⟩

/-- Three times have come by the scan at 200: one is fired, and the schedule is due at 120, which is
past. And a schedule with the policy skip does not fire even when it is scanned in time. -/
theorem late_and_skipped_scans_break_law :
    ¬ ScanLaw "s" 200 {minuteSchedule with policy := {misfire := .runOnce}} (minuteServer .runOnce)
      ((minuteServer .runOnce).step (endingEnv (fun _ => false)) (.scan 200)).2 ∧
    ¬ ScanLaw "s" 60 {minuteSchedule with policy := {misfire := .skip}} (minuteServer .skip)
      ((minuteServer .skip).step (endingEnv (fun _ => false)) (.scan 60)).2 := by
  constructor
  · rintro ⟨-,hnext⟩
    have hget : (((minuteServer .runOnce).step (endingEnv (fun _ => false))
        (.scan 200)).2.schedules.get? "s").map (fun schedule => schedule.state.nextFireAt) =
        some (some 120) := by decide +kernel
    obtain ⟨schedule',hget',h120⟩ := map_eq_some_iff.mp hget
    exact absurd (hnext schedule' hget' 120 h120) (by decide)
  · rintro ⟨⟨fired,hfired,hobeyed⟩,-⟩
    have hnone : ((minuteServer .skip).step (endingEnv (fun _ => false)) (.scan 60)).2.firesOf "s" =
        [] := by decide +kernel
    rw [hnone] at hfired
    have hmem := hobeyed.prompt 60 (by decide) (by decide)
    rw [(append_eq_nil_iff.mp hfired.symm).2] at hmem
    cases hmem

end Law
end BuckyOS.Workflow
