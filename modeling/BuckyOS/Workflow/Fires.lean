import BuckyOS.Workflow.Schedules

/-! What a fire and a scan do: how a schedule moves on, which targets come into being, and that
nothing else is touched. -/
namespace BuckyOS.Workflow
open Fallible List OrderedMap ScheduleServer WorkflowSchedule

/-- What a server holds in memory, with the targets created. -/
@[ext] structure ScheduleMemory where
  schedules : OrderedMap String WorkflowSchedule
  fires : Registry ScheduleFireRecord.key
  targets : List FireTarget
  hydrated : Bool

namespace ScheduleServer
variable (id : String) (s : ScheduleServer) (key : FireKey)

def memory : ScheduleMemory := ⟨s.schedules,s.fires,s.targets,s.hydrated⟩

def OnRecord : Prop := (s.fires.find? key).isSome = true

def Aimed : Prop := key ∈ s.targets.map FireTarget.key

def Keyed : Prop :=
  ∀ id schedule, s.schedules.get? id = some schedule → schedule.scheduleId = id

structure Same (id : String) (s s' : ScheduleServer) : Prop where
  schedule : s'.schedules.get? id = s.schedules.get? id
  fires : ∀ t, s'.OnRecord (id,t) ↔ s.OnRecord (id,t)
  targets : s'.targets.filter (fun target => target.key.1 = id) =
    s.targets.filter (fun target => target.key.1 = id)

theorem Same.refl : Same id s s := ⟨rfl,fun _ => Iff.rfl,rfl⟩

theorem Same.trans {id : String} {s s' s'' : ScheduleServer} (h : Same id s s') (h' : Same id s' s'') :
    Same id s s'' :=
  ⟨h'.schedule.trans h.schedule,fun t => (h'.fires t).trans (h.fires t),h'.targets.trans h.targets⟩

theorem get?_updateSchedule (scheduleId : String)
    (f : WorkflowSchedule → WorkflowSchedule) (id : String) :
    (s.updateSchedule scheduleId f).schedules.get? id =
      if id = scheduleId then (s.schedules.get? id).map f else s.schedules.get? id := by
  rw [updateSchedule]
  split_ifs with hid
  · rw [hid]
    cases hget : s.schedules.get? scheduleId with
    | none => exact hget
    | some schedule => exact get?_insert_self _ _ _
  · cases hget : s.schedules.get? scheduleId with
    | none => rfl
    | some schedule => exact get?_insert_of_ne _ _ hid

theorem updateSchedule_of_some {s : ScheduleServer} {scheduleId : String}
    {schedule : WorkflowSchedule} (h : s.schedules.get? scheduleId = some schedule)
    (f : WorkflowSchedule → WorkflowSchedule) :
    (s.updateSchedule scheduleId f).schedules = s.schedules.insert scheduleId (f schedule) := by
  rw [updateSchedule,h]

theorem onRecord_insert (fire : ScheduleFireRecord) (key : FireKey) :
    ({s with fires := s.fires.insert fire} : ScheduleServer).OnRecord key ↔
      key = fire.key ∨ s.OnRecord key := by
  rw [OnRecord,Registry.find?_insert,OnRecord]
  split_ifs with hkey
  · simp [hkey]
  · simp [hkey]

end ScheduleServer

section Rules
variable {env : ScheduleEnv} {s : ScheduleServer} {α β : Type} {E : Unit → ScheduleServer → Prop}

theorem wp_outward_counted {Q : ℕ → ScheduleServer → Prop} (hok : Q s.calls {s with calls := s.calls + 1})
    (herror : env.ends s.calls = true → E () {s with calls := s.calls + 1}) : wp (outward env) Q E s := by
  unfold wp outward
  cases hends : env.ends s.calls with
  | false => exact hok
  | true => exact herror hends

theorem wp_outward {Q : ℕ → ScheduleServer → Prop} (hok : ∀ s', s'.memory = s.memory → Q s.calls s')
    (herror : ∀ s', s'.memory = s.memory → env.ends s.calls = true → E () s') :
    wp (outward env) Q E s := wp_outward_counted (hok _ rfl) (herror _ rfl)

variable {Q : Unit → ScheduleServer → Prop} {id : String}

theorem wp_saveSchedule (hok : ∀ s', s'.memory = s.memory → Q () s')
    (herror : ∀ s', s'.memory = s.memory → E () s') : wp (saveSchedule env id) Q E s := by
  unfold saveSchedule
  rw [wp_bind]
  refine wp_outward (fun s' hs' => ?_) fun s' hs' _ => herror s' hs'
  rw [wp_update]
  refine hok _ (Eq.trans ?_ hs')
  split
  · split_ifs <;> rfl
  · rfl

theorem wp_updateAndSave {f : WorkflowSchedule → WorkflowSchedule}
    (hok : ∀ s', s'.memory = (s.updateSchedule id f).memory → Q () s')
    (herror : ∀ s', s'.memory = (s.updateSchedule id f).memory → E () s') :
    wp (updateAndSave env id f) Q E s := by
  unfold updateAndSave
  rw [wp_bind,wp_update]
  exact wp_saveSchedule hok herror

end Rules

section Effects
variable (env : ScheduleEnv) (now : ℤ) (schedule : WorkflowSchedule) (fire : ScheduleFireRecord)

def rendersRun : Prop := env.renderedType schedule.target fire.key fire.byHand = "workflow.run"

/-- What a fire can come to: the targets there are then, and how the schedule changes. -/
inductive FireEffect (s : ScheduleServer) :
    List FireTarget → (WorkflowSchedule → WorkflowSchedule) → Prop
  | failed (error : String) (hcause : schedule.rootTaskId = none ∨
      (∃ n, env.createRun n = .error error) ∨ ∃ n, env.createSubtask n = .error error) :
    FireEffect s s.targets (WorkflowSchedule.failedFire error)
  | skipped (hactive : ∃ n, 0 < env.activeRuns n) :
    FireEffect s s.targets (WorkflowSchedule.skippedFire now fire)
  | ran (id : String) (fire' : ScheduleFireRecord) (htime : fire'.fireTime = fire.fireTime)
      (hhand : fire'.byHand = fire.byHand) (htype : rendersRun env schedule fire) :
    FireEffect s (s.targets ++ [⟨fire.key,id,true⟩]) (WorkflowSchedule.succeededFire now fire')
  | created (id : String) (fire' : ScheduleFireRecord) (htime : fire'.fireTime = fire.fireTime)
      (hhand : fire'.byHand = fire.byHand) (htype : ¬ rendersRun env schedule fire)
      (hnew : s.subtaskOf fire.key = none) :
    FireEffect s (s.targets ++ [⟨fire.key,id,false⟩]) (WorkflowSchedule.succeededFire now fire')
  | found (id : String) (fire' : ScheduleFireRecord) (htime : fire'.fireTime = fire.fireTime)
      (hhand : fire'.byHand = fire.byHand) (htype : ¬ rendersRun env schedule fire)
      (hfound : s.subtaskOf fire.key = some id) :
    FireEffect s s.targets (WorkflowSchedule.succeededFire now fire')

def CarriedOut (s s' : ScheduleServer) : Prop :=
  ∃ f, FireEffect env now schedule fire s s'.targets f ∧
    s'.schedules = (s.updateSchedule fire.scheduleId f).schedules ∧
    (∀ key, s'.OnRecord key ↔ key = fire.key ∨ s.OnRecord key) ∧ s'.hydrated = s.hydrated

def UnderWay (s s' : ScheduleServer) : Prop :=
  s'.targets = s.targets ∨ ∃ f, FireEffect env now schedule fire s s'.targets f

variable {env now schedule fire} {s' : ScheduleServer} {s : ScheduleServer}

theorem memory_schedules (h : s'.memory = s.memory) :
    s'.schedules = s.schedules := congrArg ScheduleMemory.schedules h

theorem memory_targets (h : s'.memory = s.memory) :
    s'.targets = s.targets := congrArg ScheduleMemory.targets h

theorem memory_aimed (h : s'.memory = s.memory) (target : FireTarget) :
    ({s' with targets := s'.targets ++ [target]} : ScheduleServer).memory =
      ({s with targets := s.targets ++ [target]} : ScheduleServer).memory := by
  obtain ⟨hschedules,hfires,htargets,hhydrated⟩ := ScheduleMemory.mk.inj h
  show (⟨s'.schedules,s'.fires,s'.targets ++ [target],s'.hydrated⟩ : ScheduleMemory) = _
  rw [hschedules,hfires,htargets,hhydrated]
  rfl

theorem subtaskOf_of_memory (h : s'.memory = s.memory) (key : FireKey) :
    s'.subtaskOf key = s.subtaskOf key := by
  rw [ScheduleServer.subtaskOf,memory_targets h,ScheduleServer.subtaskOf]

variable {s₁ : ScheduleServer} {targets : List FireTarget} {s : ScheduleServer}
variable {f : WorkflowSchedule → WorkflowSchedule} {fire' : ScheduleFireRecord}

theorem wp_finish {result : FireResult} (heffect : FireEffect env now schedule fire s targets f)
    (hkey : fire'.key = fire.key)
    (hmemory : s₁.memory = ({s with targets := targets} : ScheduleServer).memory) : wp (do
      update (ScheduleServer.completeFire fire')
      updateAndSave env fire.scheduleId f
      return result : Scheduling FireResult)
      (fun _ => CarriedOut env now schedule fire s)
      (fun _ => UnderWay env now schedule fire s) s₁ := by
  have hschedules : s₁.schedules = s.schedules := congrArg ScheduleMemory.schedules hmemory
  have hfires : s₁.fires = s.fires := congrArg ScheduleMemory.fires hmemory
  have htargets : s₁.targets = targets := congrArg ScheduleMemory.targets hmemory
  have hhydrated : s₁.hydrated = s.hydrated := congrArg ScheduleMemory.hydrated hmemory
  have hchanged : ((s₁.completeFire fire').updateSchedule fire.scheduleId f).memory =
      ⟨(s.updateSchedule fire.scheduleId f).schedules,s.fires.insert fire',targets,s.hydrated⟩ := by
    have hget : (s₁.completeFire fire').schedules.get? fire.scheduleId = s.schedules.get? fire.scheduleId := by
      rw [← hschedules]
      rfl
    rw [ScheduleServer.updateSchedule,ScheduleServer.updateSchedule,hget]
    have hinsert := congrArg (fun fires => Registry.insert fires fire') hfires
    cases s.schedules.get? fire.scheduleId with
    | none => exact ScheduleMemory.ext hschedules hinsert htargets hhydrated
    | some schedule =>
      exact ScheduleMemory.ext (congrArg (insert · fire.scheduleId (f schedule)) hschedules) hinsert
        htargets hhydrated
  rw [wp_bind,wp_update,wp_bind]
  refine wp_updateAndSave (fun s' hs' => ?_) fun s' hs' => ?_
  · obtain ⟨hs,hf,ht,hh⟩ := ScheduleMemory.mk.inj (hs'.trans hchanged)
    refine ⟨f,ht ▸ heffect,hs,?_,hh⟩
    intro key
    rw [ScheduleServer.OnRecord,hf,← hkey]
    exact onRecord_insert s fire' key
  · have hlast : s'.targets = targets := congrArg ScheduleMemory.targets (hs'.trans hchanged)
    exact .inr ⟨f,hlast ▸ heffect⟩

theorem wp_succeed (heffect : FireEffect env now schedule fire s targets (WorkflowSchedule.succeededFire now
      fire')) (hkey : fire'.key = fire.key)
    (hmemory : s₁.memory = ({s with targets := targets} : ScheduleServer).memory) :
    wp (completeScheduleAfterSuccess env now fire') (fun _ => CarriedOut env now schedule fire s)
      (fun _ => UnderWay env now schedule fire s) s₁ := by
  unfold completeScheduleAfterSuccess
  rw [show fire'.scheduleId = fire.scheduleId from congrArg Prod.fst hkey]
  exact wp_finish heffect hkey hmemory

theorem wp_fireRun (hmemory : s₁.memory = s.memory) (htype : rendersRun env schedule fire) :
    wp (fireRun env now fire) (fun _ => CarriedOut env now schedule fire s)
      (fun _ => UnderWay env now schedule fire s) s₁ := by
  unfold fireRun
  rw [wp_bind]
  refine wp_outward (fun s₂ h₂ => ?_) fun s₂ h₂ _ => .inl (memory_targets (h₂.trans hmemory))
  cases hcreate : env.createRun s₁.calls with
  | error error => exact wp_finish (.failed error (.inr (.inl ⟨_,hcreate⟩))) rfl (h₂.trans hmemory)
  | ok runId =>
    dsimp only
    rw [wp_bind,wp_update,wp_bind]
    have hmemory₂ := h₂.trans hmemory
    have hadded := memory_aimed hmemory₂ ⟨fire.key,runId,true⟩
    refine wp_outward (fun s₃ h₃ => ?_) fun s₃ h₃ _ => ?_
    · refine wp_succeed (FireEffect.ran runId _ ?_ ?_ htype) ?_ (h₃.trans hadded)
      · rfl
      · rfl
      · rfl
    · have hlast : s₃.targets = s.targets ++ [⟨fire.key,runId,true⟩] :=
        congrArg ScheduleMemory.targets (h₃.trans hadded)
      refine .inr ⟨succeededFire now fire,?_⟩
      rw [hlast]
      exact .ran runId fire rfl rfl htype

theorem wp_fireSubtask (hmemory : s₁.memory = s.memory) (htype : ¬ rendersRun env schedule fire) :
    wp (fireSubtask env now fire) (fun _ => CarriedOut env now schedule fire s)
      (fun _ => UnderWay env now schedule fire s) s₁ := by
  unfold fireSubtask
  rw [wp_bind]
  refine wp_outward (fun s₂ h₂ => ?_) fun s₂ h₂ _ => .inl (memory_targets (h₂.trans hmemory))
  have hmemory₂ := h₂.trans hmemory
  rw [wp_bind,wp_read,subtaskOf_of_memory hmemory₂]
  cases hcreate : env.createSubtask s₁.calls with
  | error error =>
    cases hfound : s.subtaskOf fire.key with
    | none | some taskId => exact wp_finish (.failed error (.inr (.inr ⟨_,hcreate⟩))) rfl hmemory₂
  | ok taskId =>
    cases hfound : s.subtaskOf fire.key with
    | none =>
      dsimp only
      rw [wp_bind,wp_update]
      refine wp_succeed (FireEffect.created taskId _ ?_ ?_ htype hfound) ?_ (memory_aimed hmemory₂ _)
      · rfl
      · rfl
      · rfl
    | some existing =>
      refine wp_succeed (FireEffect.found existing _ ?_ ?_ htype hfound) ?_ hmemory₂
      · rfl
      · rfl
      · rfl

theorem wp_carryOut (s : ScheduleServer) :
    wp (carryOut env now schedule fire) (fun _ => CarriedOut env now schedule fire s)
      (fun _ => UnderWay env now schedule fire s) s := by
  unfold carryOut
  by_cases hroot : schedule.rootTaskId.isNone = true
  · rw [if_pos hroot]
    exact wp_finish (.failed _ (.inl (by simpa using hroot))) rfl rfl
  · rw [if_neg hroot,wp_bind]
    refine wp_outward (fun s₁ h₁ => ?_) fun s₁ h₁ _ => .inl (memory_targets h₁)
    split_ifs with hactive htype
    · exact wp_finish (.skipped ⟨_,hactive⟩) rfl h₁
    · exact wp_fireRun h₁ htype
    · exact wp_fireSubtask h₁ htype

/-- A fire, from the look at its schedule to its end: it is turned away, on record already, or
carried out. -/
def FireRuns (env : ScheduleEnv) (now : ℤ) (id : String) (t : ℤ) (byHand : Bool)
    (s s' : ScheduleServer) : Prop :=
  s' = s ∧ (s.schedules.get? id = none ∨ s.OnRecord (id,t) ∨
    byHand = false ∧ ∃ schedule, s.schedules.get? id = some schedule ∧ schedule.status ≠ .running) ∨
  ∃ schedule, s.schedules.get? id = some schedule ∧ (byHand = false → schedule.status = .running) ∧
    ¬ s.OnRecord (id,t) ∧
    CarriedOut env now schedule {scheduleId := id, fireTime := t, byHand := byHand} s s'

def FireCut (env : ScheduleEnv) (now : ℤ) (id : String) (t : ℤ) (byHand : Bool)
    (s s' : ScheduleServer) : Prop :=
  ∃ schedule, s.schedules.get? id = some schedule ∧ ¬ s.OnRecord (id,t) ∧
    UnderWay env now schedule {scheduleId := id, fireTime := t, byHand := byHand} s s'

theorem FireEffect.of_begun {fires : Registry ScheduleFireRecord.key}
    (h : FireEffect env now schedule fire {s with fires := fires} targets f) :
    FireEffect env now schedule fire s targets f := by
  cases h with
  | failed error hcause => exact .failed error hcause
  | skipped hactive => exact .skipped hactive
  | ran id fire' htime hhand htype => exact .ran id fire' htime hhand htype
  | created id fire' htime hhand htype hnew => exact .created id fire' htime hhand htype hnew
  | found id fire' htime hhand htype hfound => exact .found id fire' htime hhand htype hfound

theorem wp_fireSchedule (env : ScheduleEnv) (now : ℤ) (id : String) (t : ℤ) (byHand : Bool)
    (s : ScheduleServer) : wp (fireSchedule env now id t byHand) (fun _ => FireRuns env now id t byHand s)
      (fun _ => FireCut env now id t byHand s) s := by
  unfold fireSchedule
  rw [wp_bind,wp_read]
  cases hget : s.schedules.get? id with
  | none => exact .inl ⟨rfl,.inl hget⟩
  | some schedule =>
    dsimp only
    by_cases hturned : byHand = false ∧ schedule.status ≠ .running
    · rw [if_pos hturned]
      exact .inl ⟨rfl,.inr (.inr ⟨hturned.1,schedule,hget,hturned.2⟩)⟩
    · rw [if_neg hturned,wp_bind]
      cases hfind : s.fires.find? (id,t) with
      | some existing =>
        have hbegun : s.beginFire id t byHand = ((existing,false),s) := by
          rw [ScheduleServer.beginFire,hfind]
        show wp (if (s.beginFire id t byHand).1.2 then _ else _) _ _ (s.beginFire id t byHand).2
        rw [hbegun]
        refine .inl ⟨rfl,.inr (.inl ?_)⟩
        rw [ScheduleServer.OnRecord,hfind]
        rfl
      | none =>
        have hrecord : ¬ s.OnRecord (id,t) := by
          rw [ScheduleServer.OnRecord,hfind]
          exact Bool.false_ne_true
        let fire : ScheduleFireRecord := {scheduleId := id, fireTime := t, byHand := byHand}
        have hbegun : s.beginFire id t byHand = ((fire,true),{s with fires := s.fires.insert fire}) := by
          rw [ScheduleServer.beginFire,hfind]
        show wp (if (s.beginFire id t byHand).1.2 then
          carryOut env now schedule (s.beginFire id t byHand).1.1 else _) _ _
          (s.beginFire id t byHand).2
        rw [hbegun]
        refine wp_mono (wp_carryOut _) (fun _ s' h => .inr ⟨schedule,hget,?_,hrecord,?_⟩)
          (fun _ s' h => ⟨schedule,hget,hrecord,?_⟩)
        · intro hhand
          by_contra hstatus
          exact hturned ⟨hhand,hstatus⟩
        · obtain ⟨f,heffect,hschedules,hfires,hhydrated⟩ := h
          refine ⟨f,heffect.of_begun,?_,?_,hhydrated⟩
          · rw [hschedules]
            have hsame : ({s with fires := s.fires.insert fire} : ScheduleServer).schedules.get? id =
              some schedule := hget
            exact (updateSchedule_of_some hsame f).trans (updateSchedule_of_some hget f).symm
          · intro key
            rw [hfires key]
            refine (or_congr_right (onRecord_insert s fire key)).trans ?_
            rw [← or_assoc,or_self]
        · rcases h with h | ⟨f,h⟩
          · exact .inl h
          · exact .inr ⟨f,h.of_begun⟩

end Effects

section Frames
variable {env : ScheduleEnv} {now : ℤ} {schedule : WorkflowSchedule} {fire : ScheduleFireRecord}
  {s s' : ScheduleServer} {targets : List FireTarget} {f : WorkflowSchedule → WorkflowSchedule}

/-- What of a schedule a fire leaves as it is. -/
def WorkflowSchedule.fixed (schedule : WorkflowSchedule) :
    String × ScheduleSpec × ScheduleTarget × SchedulePolicy × Option String :=
  (schedule.scheduleId,schedule.spec,schedule.target,schedule.policy,schedule.rootTaskId)

def ScheduleServer.fixedOf (s : ScheduleServer) (id : String) := (s.schedules.get? id).map fixed

theorem succeededFire_fixed (now : ℤ) (fire : ScheduleFireRecord) (schedule : WorkflowSchedule) :
    (schedule.succeededFire now fire).fixed = schedule.fixed := by
  unfold succeededFire
  dsimp only
  split <;> rfl

theorem FireEffect.fixed (h : FireEffect env now schedule fire s targets f)
    (schedule' : WorkflowSchedule) : (f schedule').fixed = schedule'.fixed := by
  cases h with
  | failed | skipped => rfl
  | ran | created | found => exact succeededFire_fixed ..

theorem FireEffect.targets_cases (h : FireEffect env now schedule fire s targets f) :
    targets = s.targets ∨ ∃ target, targets = s.targets ++ [target] ∧ target.key = fire.key ∧
      (rendersRun env schedule fire ∨ s.subtaskOf fire.key = none) := by
  cases h with
  | failed | skipped | found => exact .inl rfl
  | ran id fire' htime hhand htype => exact .inr ⟨_,rfl,rfl,.inl htype⟩
  | created id fire' htime hhand htype hnew => exact .inr ⟨_,rfl,rfl,.inr hnew⟩

theorem CarriedOut.get? (h : CarriedOut env now schedule fire s s') (id : String) :
    s'.fixedOf id = s.fixedOf id := by
  obtain ⟨f,heffect,hschedules,-,-⟩ := h
  rw [fixedOf,fixedOf,hschedules,get?_updateSchedule]
  split_ifs
  · rw [Option.map_map]
    exact Option.map_congr fun schedule' _ => heffect.fixed schedule'
  · rfl

theorem CarriedOut.same (h : CarriedOut env now schedule fire s s') {id : String}
    (hid : id ≠ fire.scheduleId) : ScheduleServer.Same id s s' := by
  obtain ⟨f,heffect,hschedules,hfires,-⟩ := h
  refine ⟨?_,?_,?_⟩
  · rw [hschedules,get?_updateSchedule,if_neg hid]
  · intro t
    rw [hfires]
    exact or_iff_right fun hkey => hid (congrArg Prod.fst hkey)
  · rcases heffect.targets_cases with htargets | ⟨target,htargets,hkey,-⟩
    · rw [htargets]
    · rw [htargets,filter_append]
      have hother : target.key.1 ≠ id := fun h => hid (by rw [← h,hkey]; rfl)
      simp [hother]

end Frames

section Scans
variable {env : ScheduleEnv} {now : ℤ} {s s' : ScheduleServer} {id : String} {t : ℤ} {byHand : Bool}

open ScheduleServer (Same)

theorem FireRuns.same {other : String} (h : FireRuns env now other t byHand s s') (hid : id ≠ other) :
    Same id s s' := by
  rcases h with ⟨rfl,-⟩ | ⟨schedule,-,-,-,h⟩
  · exact .refl id _
  · exact h.same hid

theorem FireRuns.fixed {other : String} (h : FireRuns env now other t byHand s s') (id : String) :
    s'.fixedOf id = s.fixedOf id := by
  rcases h with ⟨rfl,-⟩ | ⟨schedule,-,-,-,h⟩
  · rfl
  · exact h.get? id

theorem FireRuns.onRecord {other : String} (h : FireRuns env now other t byHand s s')
    {key : FireKey} (hkey : s.OnRecord key) : s'.OnRecord key := by
  rcases h with ⟨rfl,-⟩ | ⟨schedule,-,-,-,f,-,-,hfires,-⟩
  · exact hkey
  · exact (hfires key).mpr (.inr hkey)

theorem FireRuns.hydrated {other : String} (h : FireRuns env now other t byHand s s') :
    s'.hydrated = s.hydrated := by
  rcases h with ⟨rfl,-⟩ | ⟨schedule,-,-,-,f,-,-,-,hhydrated⟩
  · rfl
  · exact hhydrated

/-- Whether a schedule lets what it missed pass. -/
def SchedulePolicy.Passes (policy : SchedulePolicy) : Prop :=
  policy.misfire = .skip ∨ policy.misfire = .manual

def SchedulePolicy.limit (policy : SchedulePolicy) : ℕ :=
  match policy.misfire with
  | .skip | .manual => 0
  | .runOnce => 1
  | .catchUp => max policy.catchUpLimit 1

variable {schedule : WorkflowSchedule}

theorem dueFireTimes_due (ht : schedule.state.nextFireAt = some t) (hle : t ≤ now) :
    dueFireTimes schedule now = (catchUpTimes now schedule.spec schedule.policy.limit t,
      nextFireAfter now schedule.spec now,
      if schedule.policy.misfire = .manual then some "schedule_missed_manual" else none) := by
  rw [dueFireTimes,ht]
  dsimp only
  rw [if_neg (not_lt.mpr hle),SchedulePolicy.limit]
  cases schedule.policy.misfire with
  | skip | manual | catchUp => rfl
  | runOnce =>
    dsimp only
    rw [catchUpTimes,if_pos hle]
    cases nextFireAfter now schedule.spec t <;> rfl

theorem SchedulePolicy.Passes.limit {policy : SchedulePolicy} (h : policy.Passes) : policy.limit = 0 := by
  rcases h with h | h <;> rw [SchedulePolicy.limit,h]

abbrev Firings (env : ScheduleEnv) (now : ℤ) (id : String) : List ℤ → ScheduleServer →
    ScheduleServer → Prop := Visits (fun t => FireRuns env now id t false)

/-- A schedule put off without a fire. -/
def PutOff (id : String) (next : Option ℤ) (s s' : ScheduleServer) : Prop :=
  ∃ f : WorkflowSchedule → WorkflowSchedule, s'.memory = (s.updateSchedule id f).memory ∧
    ∀ schedule, (f schedule).fixed = schedule.fixed ∧ (f schedule).status = schedule.status ∧
      (f schedule).state.nextFireAt = next

/-- What a scan does with a schedule that is due. -/
def ScanRuns (env : ScheduleEnv) (now : ℤ) (schedule : WorkflowSchedule) (s s' : ScheduleServer) :
    Prop :=
  ¬ schedule.policy.Passes ∧
      Firings env now schedule.scheduleId (dueFireTimes schedule now).1 s s' ∨
    schedule.policy.Passes ∧ (dueFireTimes schedule now).1 = [] ∧
      PutOff schedule.scheduleId (nextFireAfter now schedule.spec now) s s'

def ScanCut (env : ScheduleEnv) (now : ℤ) (schedule : WorkflowSchedule) (s s' : ScheduleServer) :
    Prop :=
  VisitsCut (fun t => FireRuns env now schedule.scheduleId t false)
      (fun t => FireCut env now schedule.scheduleId t false) (dueFireTimes schedule now).1 s s' ∨
    s'.targets = s.targets

theorem targets_updateSchedule (s : ScheduleServer) (id : String)
    (f : WorkflowSchedule → WorkflowSchedule) : (s.updateSchedule id f).targets = s.targets := by
  rw [ScheduleServer.updateSchedule]
  split <;> rfl

theorem fires_updateSchedule (s : ScheduleServer) (id : String)
    (f : WorkflowSchedule → WorkflowSchedule) : (s.updateSchedule id f).fires = s.fires := by
  rw [ScheduleServer.updateSchedule]
  split <;> rfl

theorem wp_scanSchedule (hdue : ∃ t ∈ schedule.state.nextFireAt, t ≤ now) (s : ScheduleServer) :
    wp (scanSchedule env now schedule) (fun _ => ScanRuns env now schedule s)
      (fun _ => ScanCut env now schedule s) s := by
  obtain ⟨t,ht,hle⟩ := hdue
  have hput : ∀ f : WorkflowSchedule → WorkflowSchedule, schedule.policy.Passes →
      (∀ schedule', (f schedule').fixed = schedule'.fixed ∧ (f schedule').status = schedule'.status ∧
        (f schedule').state.nextFireAt = nextFireAfter now schedule.spec now) →
      wp (updateAndSave env schedule.scheduleId f) (fun _ => ScanRuns env now schedule s)
        (fun _ => ScanCut env now schedule s) s := by
    intro f hpasses hf
    refine wp_updateAndSave (fun s' hs' => .inr ⟨hpasses,?_,f,hs',hf⟩) fun s' hs' => .inr ?_
    · rw [dueFireTimes_due ht hle,hpasses.limit]
      rfl
    · exact (memory_targets hs').trans (targets_updateSchedule s _ f)
  unfold scanSchedule
  have hdue := dueFireTimes_due ht hle
  rcases hall : dueFireTimes schedule now with ⟨times,next,missed⟩
  obtain ⟨htimes,hnext,hmissed⟩ : times = catchUpTimes now schedule.spec schedule.policy.limit t ∧
      next = nextFireAfter now schedule.spec now ∧ missed =
        if schedule.policy.misfire = .manual then some "schedule_missed_manual" else none := by
    simpa using hall.symm.trans hdue
  dsimp only
  subst hnext
  by_cases hmanual : schedule.policy.misfire = .manual
  · rw [hmissed,if_pos hmanual]
    exact hput _ (.inr hmanual) fun _ => ⟨rfl,rfl,rfl⟩
  · rw [hmissed,if_neg hmanual]
    dsimp only
    rw [wp_bind]
    by_cases hskip : schedule.policy.misfire = .skip
    · rw [if_pos hskip,htimes,SchedulePolicy.Passes.limit (.inl hskip)]
      exact hput _ (.inl hskip) fun _ => ⟨rfl,rfl,rfl⟩
    · rw [if_neg hskip]
      refine wp_mono (wp_visit_visits (R := fun t => FireRuns env now schedule.scheduleId t false)
        (C := fun t => FireCut env now schedule.scheduleId t false) (fun t _ s => ?_) s)
        (fun _ s' hs' => .inl ⟨?_,?_⟩) fun _ s' hs' => .inl ?_
      · rw [wp_bind]
        exact wp_fireSchedule env now _ t false s
      · exact fun hpasses => hpasses.elim hskip hmanual
      · rw [hall]
        exact hs'
      · rw [hall]
        exact hs'

variable {next : Option ℤ}

open ScheduleServer (OnRecord)

theorem PutOff.same {other : String} (h : PutOff other next s s') (hid : id ≠ other) :
    Same id s s' := by
  obtain ⟨f,hmemory,-⟩ := h
  obtain ⟨hschedules,hfires,htargets,-⟩ := ScheduleMemory.mk.inj hmemory
  refine ⟨?_,fun t => ?_,?_⟩
  · rw [hschedules,get?_updateSchedule,if_neg hid]
  · rw [OnRecord,hfires,fires_updateSchedule,OnRecord]
  · rw [htargets,targets_updateSchedule]

theorem PutOff.fixed {other : String} (h : PutOff other next s s') (id : String) :
    s'.fixedOf id = s.fixedOf id := by
  obtain ⟨f,hmemory,hf⟩ := h
  rw [fixedOf,fixedOf,memory_schedules hmemory,get?_updateSchedule]
  split_ifs
  · rw [Option.map_map]
    exact Option.map_congr fun schedule _ => (hf schedule).1
  · rfl

theorem PutOff.targets {other : String} (h : PutOff other next s s') : s'.targets = s.targets := by
  obtain ⟨f,hmemory,-⟩ := h
  exact (memory_targets hmemory).trans (targets_updateSchedule s other f)

theorem PutOff.onRecord {other : String} (h : PutOff other next s s') (key : FireKey) :
    s'.OnRecord key ↔ s.OnRecord key := by
  obtain ⟨f,hmemory,-⟩ := h
  have hfires : s'.fires = s.fires :=
    (congrArg ScheduleMemory.fires hmemory).trans (fires_updateSchedule s other f)
  rw [OnRecord,hfires,OnRecord]

theorem PutOff.hydrated {other : String} (h : PutOff other next s s') : s'.hydrated = s.hydrated := by
  obtain ⟨f,hmemory,-⟩ := h
  refine (congrArg ScheduleMemory.hydrated hmemory).trans ?_
  show (s.updateSchedule other f).hydrated = _
  rw [ScheduleServer.updateSchedule]
  split <;> rfl

theorem ScanRuns.keeps {I : ScheduleServer → Prop} {schedule : WorkflowSchedule}
    (h : ScanRuns env now schedule s s') (hfire : ∀ t ∈ (dueFireTimes schedule now).1, ∀ s s', I s →
      FireRuns env now schedule.scheduleId t false s s' → I s')
    (hput : ∀ s s', I s → PutOff schedule.scheduleId (nextFireAfter now schedule.spec now) s s' →
      I s') (hs : I s) : I s' := by
  rcases h with ⟨-,h⟩ | ⟨-,-,h⟩
  · exact h.keeps hfire hs
  · exact hput _ _ hs h

variable {schedule : WorkflowSchedule}

theorem ScanRuns.same (h : ScanRuns env now schedule s s')
    (hid : id ≠ schedule.scheduleId) : Same id s s' :=
  h.keeps (I := Same id s) (fun _ _ _ _ hs hfire => hs.trans (hfire.same hid))
    (fun _ _ hs hput => hs.trans (hput.same hid)) (.refl id s)

theorem ScanRuns.fixed (h : ScanRuns env now schedule s s') (id : String) : s'.fixedOf id = s.fixedOf id :=
  h.keeps (I := fun s' => s'.fixedOf id = s.fixedOf id) (fun _ _ _ _ hs hfire => (hfire.fixed id).trans hs)
    (fun _ _ hs hput => (hput.fixed id).trans hs) rfl

theorem ScanRuns.hydrated (h : ScanRuns env now schedule s s') : s'.hydrated = s.hydrated :=
  h.keeps (I := fun s' => s'.hydrated = s.hydrated) (fun _ _ _ _ hs hfire => hfire.hydrated.trans hs)
    (fun _ _ hs hput => hput.hydrated.trans hs) rfl

namespace ScheduleServer
/-- The service as a scan finds it once the saved schedules are there. -/
def scanView (s : ScheduleServer) (now : ℤ) : ScheduleServer :=
  if s.hydrated then s else s.hydrate now

theorem Keyed.of_fixed (h : s.Keyed) (hfixed : ∀ id, s'.fixedOf id = s.fixedOf id) : s'.Keyed := by
  intro id schedule' hget
  have hsame := hfixed id
  rw [fixedOf,hget] at hsame
  obtain ⟨schedule,hschedule,heq⟩ := Option.map_eq_some_iff.mp hsame.symm
  rw [← h id schedule hschedule]
  exact (congrArg Prod.fst heq).symm

theorem Keyed.hydrate (h : s.Keyed) (now : ℤ) : (s.hydrate now).Keyed := by
  show ∀ id schedule, get? (foldl _ s.schedules s.saved.values) id = some schedule →
    schedule.scheduleId = id
  have hstart : ∀ id schedule, s.schedules.get? id = some schedule → schedule.scheduleId = id := h
  generalize s.schedules = schedules at hstart ⊢
  induction s.saved.values generalizing schedules with
  | nil => exact hstart
  | cons saved rest ih =>
    rw [foldl_cons]
    refine ih _ ?_
    split_ifs
    · exact hstart
    · intro id schedule hget
      rw [get?_insert] at hget
      split_ifs at hget with hid
      · rw [← Option.some.inj hget,rearmed]
        split_ifs <;> exact hid.symm
      · exact hstart id schedule hget

theorem Keyed.scanView (h : s.Keyed) (now : ℤ) : (s.scanView now).Keyed := by
  rw [ScheduleServer.scanView]
  split_ifs
  · exact h
  · exact h.hydrate now

theorem mem_due (h : s.Keyed) {schedule : WorkflowSchedule} :
    schedule ∈ s.due now ↔ s.schedules.get? schedule.scheduleId = some schedule ∧
      schedule.status = .running ∧ ∃ t ∈ schedule.state.nextFireAt, t ≤ now := by
  rw [due,mem_filter,mem_values_iff,decide_eq_true_eq]
  refine and_congr_left fun _ => ⟨?_,fun hget => ⟨_,hget⟩⟩
  rintro ⟨id,hget⟩
  rw [h id schedule hget,hget]

theorem due_nodup (h : s.Keyed) (now : ℤ) : ((s.due now).map WorkflowSchedule.scheduleId).Nodup := by
  have hids : s.schedules.values.map scheduleId = s.schedules.keys := by
    rw [values,OrderedMap.keys,map_map]
    refine map_congr_left fun entry hentry => ?_
    exact h _ _ ((mem_entries_iff _ _ _).mp hentry)
  have hsub : List.Sublist ((s.due now).map scheduleId) s.schedules.keys := by
    rw [← hids]
    exact filter_sublist.map _
  exact hsub.nodup (keys_nodup _)

end ScheduleServer

/-- What a whole scan does; nothing, when the saved schedules cannot be had. -/
def ScanEnds (env : ScheduleEnv) (now : ℤ) (s s' : ScheduleServer) : Prop :=
  s.hydrated = false ∧ s'.memory = s.memory ∨
    ∃ s₁, s₁.memory = (s.scanView now).memory ∧
      Visits (ScanRuns env now) ((s.scanView now).due now) s₁ s'

def ScanBreaks (env : ScheduleEnv) (now : ℤ) (s s' : ScheduleServer) : Prop :=
  s'.targets = s.targets ∨ ∃ s₁, s₁.memory = (s.scanView now).memory ∧
    VisitsCut (ScanRuns env now) (ScanCut env now) ((s.scanView now).due now) s₁ s'

theorem due_of_memory (h : s'.memory = s.memory) (now : ℤ) : s'.due now = s.due now := by
  rw [ScheduleServer.due,memory_schedules h,ScheduleServer.due]

theorem wp_scanDueSchedules (hkeyed : s.Keyed) :
    wp (scanDueSchedules env now) (fun _ => ScanEnds env now s) (fun _ => ScanBreaks env now s) s := by
  have hscan : ∀ s₁ : ScheduleServer, s₁.memory = (s.scanView now).memory →
      (s.scanView now).hydrated = true → wp (do
        let hydrated ← read ScheduleServer.hydrated
        if hydrated then do
          let due ← read fun s => s.due now
          visit (scanSchedule env now) due
        else pure () : Scheduling Unit) (fun _ => ScanEnds env now s)
        (fun _ => ScanBreaks env now s) s₁ := by
    intro s₁ hs₁ hhydrated
    have hview : s₁.hydrated = true := (congrArg ScheduleMemory.hydrated hs₁).trans hhydrated
    rw [wp_bind,wp_read,if_pos hview,wp_bind,wp_read,due_of_memory hs₁]
    refine wp_mono (wp_visit_visits (R := ScanRuns env now) (C := ScanCut env now)
      (fun schedule hschedule s => wp_scanSchedule ?_ s) s₁)
      (fun _ s' hs' => .inr ⟨s₁,hs₁,hs'⟩) fun _ s' hs' => .inr ⟨s₁,hs₁,hs'⟩
    exact ((mem_due (hkeyed.scanView now)).mp hschedule).2.2
  unfold scanDueSchedules ensureSchedulesHydrated
  rw [wp_bind,wp_bind,wp_read]
  cases hhydrated : s.hydrated with
  | true =>
    have hview : s.scanView now = s := if_pos hhydrated
    exact hscan s (by rw [hview]) (by rw [hview,hhydrated])
  | false =>
    have hview : s.scanView now = s.hydrate now := if_neg (by simp [hhydrated])
    rw [if_neg Bool.false_ne_true,wp_bind]
    refine wp_outward_counted ?_ fun _ => .inl rfl
    split_ifs
    · rw [wp_update]
      exact hscan _ (by rw [hview]; rfl) (by rw [hview]; rfl)
    · rw [wp_pure,wp_bind,wp_read,if_neg (by simp [hhydrated])]
      exact .inl ⟨hhydrated,rfl⟩

theorem same_of_memory (h : s'.memory = s.memory) (id : String) : Same id s s' := by
  obtain ⟨hschedules,hfires,htargets,-⟩ := ScheduleMemory.mk.inj h
  refine ⟨by rw [hschedules],fun t => ?_,by rw [htargets]⟩
  rw [OnRecord,hfires,OnRecord]

theorem scans_same {due : List WorkflowSchedule} (h : Visits (ScanRuns env now) due s s')
    (hid : id ∉ due.map WorkflowSchedule.scheduleId) : Same id s s' := by
  refine h.keeps (I := Same id s) (fun other hother _ _ hs hscan => hs.trans (hscan.same ?_)) (.refl _ _)
  exact fun heq => hid (heq ▸ mem_map_of_mem hother)

theorem ScanEnds.visits (h : ScanEnds env now s s') (hhydrated : s'.hydrated = true) :
    ∃ s₀, s₀.memory = (s.scanView now).memory ∧
      Visits (ScanRuns env now) ((s.scanView now).due now) s₀ s' := by
  refine h.resolve_left fun ⟨hbefore,hmemory⟩ => ?_
  have hsame : s'.hydrated = s.hydrated := congrArg ScheduleMemory.hydrated hmemory
  rw [hhydrated,hbefore] at hsame
  cases hsame

/-- What a whole scan does with one of the schedules it finds due: the other schedules before and
after do not touch it. -/
theorem ScanEnds.own (h : ScanEnds env now s s') (hkeyed : s.Keyed) (hhydrated : s'.hydrated = true)
    {schedule : WorkflowSchedule} (hdue : schedule ∈ (s.scanView now).due now) :
    ∃ s₁ s₂, Same schedule.scheduleId (s.scanView now) s₁ ∧
      ScanRuns env now schedule s₁ s₂ ∧ Same schedule.scheduleId s₂ s' := by
  obtain ⟨s₀,hs₀,hvisits⟩ := h.visits hhydrated
  have hnodup := due_nodup (hkeyed.scanView now) now
  obtain ⟨before,after,hsplit⟩ := append_of_mem hdue
  rw [hsplit,map_append,map_cons,nodup_append,nodup_cons] at hnodup
  rw [hsplit] at hvisits
  obtain ⟨s₁,hbefore,hrest⟩ := hvisits.split
  cases hrest with
  | cons hown hafter =>
    have hfirst := scans_same hbefore fun hmem => hnodup.2.2 _ hmem _ mem_cons_self rfl
    exact ⟨s₁,_,(same_of_memory hs₀ _).trans hfirst,hown,scans_same hafter hnodup.2.1.1⟩

theorem ScanEnds.other (h : ScanEnds env now s s') (hhydrated : s'.hydrated = true)
    (hid : id ∉ ((s.scanView now).due now).map WorkflowSchedule.scheduleId) :
    Same id (s.scanView now) s' := by
  obtain ⟨s₀,hs₀,hvisits⟩ := h.visits hhydrated
  exact (same_of_memory hs₀ id).trans (scans_same hvisits hid)

theorem ScanEnds.keyed (h : ScanEnds env now s s') (hs : s.Keyed) : s'.Keyed := by
  rcases h with ⟨-,hmemory⟩ | ⟨s₁,hs₁,hvisits⟩
  · exact hs.of_fixed fun id => by rw [fixedOf,memory_schedules hmemory]; rfl
  · refine hvisits.keeps (I := ScheduleServer.Keyed) (fun _ _ _ _ hs hscan => hs.of_fixed hscan.fixed) ?_
    exact (hs.scanView now).of_fixed fun id => by rw [fixedOf,memory_schedules hs₁]; rfl

theorem ScanEnds.hydrated (h : ScanEnds env now s s') (hs : s.hydrated = true) : s'.hydrated = true := by
  rcases h with ⟨hnot,-⟩ | ⟨s₁,hs₁,hvisits⟩
  · rw [hs] at hnot
    cases hnot
  · have hview : (s.scanView now).hydrated = true := by rw [ScheduleServer.scanView,if_pos hs,hs]
    exact hvisits.keeps (I := fun s => s.hydrated = true) (fun _ _ _ _ hs hscan => hscan.hydrated.trans hs)
      ((congrArg ScheduleMemory.hydrated hs₁).trans hview)

end Scans
end BuckyOS.Workflow
