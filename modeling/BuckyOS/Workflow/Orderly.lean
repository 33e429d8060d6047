import BuckyOS.Workflow.Traces

/-! Thunks and running nodes. As long as nobody overrules a node that a thunk is pending for, a
pending thunk belongs to a running node, a node has at most one, and no thunk is sent off twice, so
that a late report about an overruled attempt finds nothing. -/
namespace BuckyOS.Workflow
open Fallible Relation List OrderedMap Registry Option

/-- A shard that was sent off: its node does not wait to be started, and the shard is not one
that a `for_each` under way would still send off. -/
def Spent (v : View) (n : String) (index : ℕ) : Prop :=
  Begun v n ∧
    ∀ state, v.maps.get? n = some state → state.shardStates[index]? ≠ some NodeRunState.pending

/-- Where a thunk comes from: an attempt that a node has had, or a shard that is spent. -/
inductive Origin (workflow : CompiledWorkflow) (v : View) (scheduled : ScheduledThunk) : Prop
  | node (node : CompiledNode) (runId : String) (input : Json) (attempt : ℕ)
    (hnode : workflow.nodes.get? node.id = some node)
    (hbuild : buildThunk runId node input attempt = .ok scheduled)
    (hattempt : attempt ≤ (v.attempts.get? node.id).getD 0)
  | shard (n bodyStepId : String) (body : CompiledNode) (runId : String) (index : ℕ) (input : Json)
    (attempt : ℕ) (hbuild : buildShardThunk runId body n bodyStepId index input attempt = .ok scheduled)
    (hn : workflow.isApply n = false) (hspent : Spent v n index)

structure Orderly (workflow : CompiledWorkflow) (v : View) : Prop where
  running : ∀ t ∈ v.thunks.items, t.shardIndex = none → v.states.get? t.nodeId = some .running
  apply : ∀ t ∈ v.thunks.items, t.shardIndex = none → workflow.isApply t.nodeId = true
  unique : ∀ t ∈ v.thunks.items, ∀ t' ∈ v.thunks.items, t.shardIndex = none →
    t'.shardIndex = none → t.nodeId = t'.nodeId → t = t'
  pars : ∀ n ∈ v.pars.keys, workflow.isApply n = false
  maps : ∀ n ∈ v.maps.keys, workflow.isApply n = false
  origin : ∀ s ∈ v.scheduled, Origin workflow v s
  fresh : (v.scheduled.map ScheduledThunk.thunkObjId).Nodup

/-- A call that overrules nodes overrules none that a thunk is pending for, makes none run again
whose shards were sent off, and starts nothing. -/
structure Fits (scope : Scope) (v : View) : Prop where
  tidy : scope.tidy
  apart : (∀ n, ¬ scope.overrides n ∧ ¬ scope.resets n) ∨
    ∀ n, ¬ scope.starts n ∧ ¬ scope.shards n
  idle : ∀ n, scope.overrides n → ∀ t ∈ v.thunks.items, t.nodeId ≠ n
  unsent : ∀ n, scope.resets n → ∀ s ∈ v.scheduled, s.thunkObjId.forEach? ≠ some n

section
variable {workflow : CompiledWorkflow} {v : View} {v' : View} {s : ScheduledThunk}

theorem Origin.mono (h : Origin workflow v s)
    (hattempts : ∀ n, (v.attempts.get? n).getD 0 ≤ (v'.attempts.get? n).getD 0)
    (hspent : ∀ n i, s.thunkObjId.forEach? = some n → workflow.isApply n = false → Spent v n i → Spent v' n i) :
    Origin workflow v' s := by
  cases h with
  | node node runId input attempt hnode hbuild hattempt =>
    exact .node node runId input attempt hnode hbuild (hattempt.trans (hattempts node.id))
  | shard n bodyStepId body runId index input attempt hbuild hn hs =>
    obtain ⟨funId,hscheduled⟩ := buildShardThunk_ok hbuild
    exact .shard n bodyStepId body runId index input attempt hbuild hn
      (hspent n index (by rw [hscheduled,forEach?_shard]) hn hs)

variable {n : String}

theorem Origin.of_forEach (h : Origin workflow v s) (hs : s.thunkObjId.forEach? = some n) :
    workflow.isApply n = false ∧ Begun v n := by
  cases h with
  | node node runId input attempt hnode hbuild hattempt =>
    obtain ⟨funId,hscheduled,-⟩ := buildThunk_ok hbuild
    rw [hscheduled,forEach?_node] at hs
    simp at hs
  | shard m bodyStepId body runId index input attempt hbuild hm hspent =>
    obtain ⟨funId,hscheduled⟩ := buildShardThunk_ok hbuild
    rw [hscheduled,forEach?_shard,some.injEq] at hs
    exact hs ▸ ⟨hm,hspent.1⟩

namespace Orderly
section
variable (h : Orderly workflow v)
include h

theorem setState {s : NodeRunState}
    (hrunning : s ≠ .running → ∀ t ∈ v.thunks.items, t.shardIndex = none → t.nodeId ≠ n)
    (hshard : ∀ scheduled ∈ v.scheduled, scheduled.thunkObjId.forEach? = some n → s ≠ .pending ∧ s ≠ .ready) :
    Orderly workflow {v with states := v.states.insert n s} := by
  refine {h with running := ?_, origin := ?_}
  · intro t ht htshard
    show (v.states.insert n s).get? t.nodeId = _
    rw [get?_insert]
    split_ifs with hid
    · by_contra hne
      exact hrunning (fun hs => hne (congrArg some hs)) t ht htshard hid
    · exact h.running t ht htshard
  · intro scheduled hscheduled
    refine (h.origin scheduled hscheduled).mono (fun _ => le_rfl) ?_
    rintro m i hm - ⟨hbegun,hmaps⟩
    refine ⟨?_,hmaps⟩
    show ∃ s', (v.states.insert n s).get? m = some s' ∧ _
    rw [get?_insert]
    split_ifs with hid
    · exact ⟨s,rfl,hshard scheduled hscheduled (hid ▸ hm)⟩
    · exact hbegun

theorem dropThunks {thunks : Registry PendingThunk.thunkObjId}
    (hsub : ∀ t ∈ thunks.items, t ∈ v.thunks.items) :
    Orderly workflow {v with thunks := thunks} where
  running t ht := h.running t (hsub t ht)
  apply t ht := h.apply t (hsub t ht)
  unique t ht t' ht' := h.unique t (hsub t ht) t' (hsub t' ht')
  pars := h.pars
  maps := h.maps
  origin s hs := (h.origin s hs).mono (fun _ => le_rfl) fun _ _ _ _ hspent => hspent
  fresh := h.fresh

theorem setMaps {maps : OrderedMap String MapState} (hkeys : ∀ n ∈ maps.keys, workflow.isApply n = false)
    (hspent : ∀ scheduled ∈ v.scheduled, ∀ n i, scheduled.thunkObjId.forEach? = some n → Spent v n i →
      ∀ state, maps.get? n = some state → state.shardStates[i]? ≠ some NodeRunState.pending) :
    Orderly workflow {v with maps := maps} := by
  refine {h with maps := hkeys, origin := ?_}
  intro scheduled hscheduled
  refine (h.origin scheduled hscheduled).mono (fun _ => le_rfl) ?_
  intro n i hn _ hs
  exact ⟨hs.1,hspent scheduled hscheduled n i hn hs⟩

theorem aside (hstates : v'.states = v.states) (hattempts : v'.attempts = v.attempts)
    (hthunks : v'.thunks = v.thunks) (hpars : v'.pars = v.pars) (hmaps : v'.maps = v.maps)
    (hscheduled : v'.scheduled = v.scheduled) : Orderly workflow v' := by
  have horigin : ∀ {s}, Origin workflow v s → Origin workflow v' s := fun hs =>
    hs.mono (fun n => by rw [hattempts]) fun n i _ _ hspent => by
      rw [Spent,Begun,hstates,hmaps]
      exact hspent
  exact ⟨by rw [hstates,hthunks]; exact h.running,by rw [hthunks]; exact h.apply,
    by rw [hthunks]; exact h.unique,by rw [hpars]; exact h.pars,by rw [hmaps]; exact h.maps,
    by rw [hscheduled]; exact fun s hs => horigin (h.origin s hs),by rw [hscheduled]; exact h.fresh⟩

theorem no_thunk (hn : v.states.get? n ≠ some .running ∨ n ∈ v.pars.keys ∨ n ∈ v.maps.keys) :
    ∀ t ∈ v.thunks.items, t.shardIndex = none → t.nodeId ≠ n := by
  rintro t ht htshard rfl
  rcases hn with hn | hn | hn
  · exact hn (h.running t ht htshard)
  · exact absurd (h.apply t ht htshard) (by simp [h.pars _ hn])
  · exact absurd (h.apply t ht htshard) (by simp [h.maps _ hn])

theorem place {s : NodeRunState} (hs : Admits workflow v n s)
    (hn : v.states.get? n ≠ some .running ∨ n ∈ v.pars.keys ∨ n ∈ v.maps.keys) :
    Orderly workflow {v with states := v.states.insert n s} := by
  refine h.setState (fun _ => h.no_thunk hn) ?_
  intro scheduled hscheduled hforEach
  obtain ⟨happly,s',hget,hpending,hready⟩ := (h.origin scheduled hscheduled).of_forEach hforEach
  constructor
  · rintro rfl
    rcases hs with hs | hs | hs
    · simp [hget] at hs
    · exact hready (some.inj (hget.symm.trans hs))
    · simp [happly] at hs
  · rintro rfl
    rcases hs with hs | hs
    · simp [hget] at hs
    · exact hpending (some.inj (hget.symm.trans hs))

end

variable {runId : String} {input : Json} {scheduled : ScheduledThunk}

section
variable (h : Orderly workflow v)
include h

variable {node body : CompiledNode} {bodyStepId : String} {index attempt : ℕ} {state : MapState}

/-- The next attempt of a node is a thunk that was never sent off. -/
theorem node_fresh
    (hbuild : buildThunk runId node input ((v.attempts.get? node.id).getD 0 + 1) = .ok scheduled) :
    scheduled.thunkObjId ∉ v.scheduled.map ScheduledThunk.thunkObjId := by
  intro hmem
  obtain ⟨old,hold,hid⟩ := mem_map.mp hmem
  obtain ⟨funId,hscheduled,-⟩ := buildThunk_ok hbuild
  cases h.origin old hold with
  | node node' runId' input' attempt' hnode' hbuild' hattempt' =>
    obtain ⟨funId',hold',-⟩ := buildThunk_ok hbuild'
    have howner := congrArg ObjectId.owner? hid
    have hattempt := congrArg (fun id => ObjectId.metadata? id "attempt") hid
    simp only [hold',hscheduled,owner?_node,attempt_node,some.injEq] at howner hattempt
    rw [howner,Json.ofNat_injective hattempt] at hattempt'
    omega
  | shard n bodyStepId body runId' index input' attempt' hbuild' =>
    obtain ⟨funId',hold'⟩ := buildShardThunk_ok hbuild'
    have hforEach := congrArg ObjectId.forEach? hid
    simp [hold',hscheduled] at hforEach

theorem shard_fresh (hmap : v.maps.get? n = some state)
    (hpending : state.shardStates[index]? = some .pending)
    (hbuild : buildShardThunk runId body n bodyStepId index input attempt = .ok scheduled) :
    scheduled.thunkObjId ∉ v.scheduled.map ScheduledThunk.thunkObjId := by
  intro hmem
  obtain ⟨old,hold,hid⟩ := mem_map.mp hmem
  obtain ⟨funId,hscheduled⟩ := buildShardThunk_ok hbuild
  have hforEach := congrArg ObjectId.forEach? hid
  cases h.origin old hold with
  | node node' runId' input' attempt' hnode' hbuild' hattempt' =>
    obtain ⟨funId',hold',-⟩ := buildThunk_ok hbuild'
    simp [hold',hscheduled] at hforEach
  | shard n' bodyStepId' body' runId' index' input' attempt' hbuild' hn' hspent' =>
    obtain ⟨funId',hold'⟩ := buildShardThunk_ok hbuild'
    have hshard := congrArg (fun id => ObjectId.metadata? id "shard") hid
    simp only [hold',hscheduled,forEach?_shard,shard_shard,some.injEq,Json.object.injEq,
      cons.injEq,Prod.mk.injEq,and_true,true_and] at hforEach hshard
    rw [hforEach,Json.ofNat_injective hshard] at hspent'
    exact hspent'.2 state hmap hpending

theorem addThunk {t : PendingThunk}
    (hfresh : scheduled.thunkObjId ∉ v.scheduled.map ScheduledThunk.thunkObjId)
    (horigin : Origin workflow v scheduled)
    (hnode : t.shardIndex = none → v.states.get? t.nodeId = some .running ∧
      workflow.isApply t.nodeId = true ∧ ∀ t' ∈ v.thunks.items, t'.shardIndex = none → t'.nodeId ≠ t.nodeId) :
    Orderly workflow {v with
      thunks := v.thunks.insert t
      scheduled := v.scheduled ++ [scheduled]} := by
  have hmem : ∀ {t'}, t' ∈ (v.thunks.insert t).items → t' = t ∨ t' ∈ v.thunks.items :=
    fun ht' => ((mem_insert _).mp ht').imp_right And.left
  have hgrow : ∀ {s}, Origin workflow v s → Origin workflow {v with
      thunks := v.thunks.insert t
      scheduled := v.scheduled ++ [scheduled]} s :=
    fun hs => hs.mono (fun _ => le_rfl) fun _ _ _ _ hspent => hspent
  refine ⟨?_,?_,?_,h.pars,h.maps,?_,?_⟩
  · intro t' ht' hshard
    rcases hmem ht' with rfl | ht'
    · exact (hnode hshard).1
    · exact h.running t' ht' hshard
  · intro t' ht' hshard
    rcases hmem ht' with rfl | ht'
    · exact (hnode hshard).2.1
    · exact h.apply t' ht' hshard
  · intro t₁ ht₁ t₂ ht₂ hshard₁ hshard₂ hsame
    rcases hmem ht₁ with heq₁ | hmem₁ <;> rcases hmem ht₂ with heq₂ | hmem₂
    · exact heq₁.trans heq₂.symm
    · subst heq₁
      exact absurd hsame.symm ((hnode hshard₁).2.2 t₂ hmem₂ hshard₂)
    · subst heq₂
      exact absurd hsame ((hnode hshard₂).2.2 t₁ hmem₁ hshard₁)
    · exact h.unique t₁ hmem₁ t₂ hmem₂ hshard₁ hshard₂ hsame
  · intro s hs
    rcases mem_append.mp hs with hs | hs
    · exact hgrow (h.origin s hs)
    · exact mem_singleton.mp hs ▸ hgrow horigin
  · show ((v.scheduled ++ [scheduled]).map ScheduledThunk.thunkObjId).Nodup
    rw [map_append,nodup_append]
    refine ⟨h.fresh,by simp,?_⟩
    rintro a ha b hb rfl
    rw [map_singleton,mem_singleton] at hb
    exact hfresh (hb ▸ ha)

theorem count (n : String) :
    Orderly workflow {v with attempts := v.attempts.upsert n 0 (· + 1)} := by
  refine {h with origin := ?_}
  intro s hs
  refine (h.origin s hs).mono ?_ fun _ _ _ _ hspent => hspent
  intro m
  show _ ≤ ((v.attempts.upsert n 0 (· + 1)).get? m).getD 0
  rw [getD_upsert]
  split_ifs with hm
  · rw [hm]
    omega
  · exact le_rfl

theorem dispatch (hnode : workflow.nodes.get? node.id = some node)
    (hidle : v.states.get? node.id ≠ some .running)
    (hbuild : buildThunk runId node input ((v.attempts.get? node.id).getD 0 + 1) = .ok scheduled) :
    Orderly workflow {v with
      states := v.states.insert node.id .running
      attempts := v.attempts.upsert node.id 0 (· + 1)
      thunks := v.thunks.insert ⟨node.id,scheduled.thunkObjId,(v.attempts.get? node.id).getD 0 + 1,none⟩
      scheduled := v.scheduled ++ [scheduled]} := by
  have hnone := h.no_thunk (.inl hidle)
  obtain ⟨funId,hscheduled,executor,params,mode,idempotent,stepType,guards,hexpr⟩ := buildThunk_ok hbuild
  have hrunning : Orderly workflow {v with states := v.states.insert node.id .running} :=
    h.setState (fun hne => absurd rfl hne) fun _ _ _ => by decide
  refine (hrunning.count node.id).addThunk (h.node_fresh hbuild) ?_ ?_
  · refine .node node runId input _ hnode hbuild ?_
    rw [getD_upsert,if_pos rfl]
  · intro _
    refine ⟨get?_insert_self _ _ _,?_,hnone⟩
    exact isApply_of_executor hnode (by rw [CompiledNode.executor?,hexpr])

theorem dispatchShard (hbegun : Begun v n) (happly : workflow.isApply n = false)
    (hmap : v.maps.get? n = some state) (hpending : state.shardStates[index]? = some .pending)
    (hbuild : buildShardThunk runId body n bodyStepId index input attempt = .ok scheduled) :
    Orderly workflow {v with
      thunks := v.thunks.insert ⟨n,scheduled.thunkObjId,attempt,some index⟩
      scheduled := v.scheduled ++ [scheduled]
      maps := v.maps.insert n (state.setShard index .running)} := by
  have hfresh := h.shard_fresh hmap hpending hbuild
  obtain ⟨funId,hscheduled⟩ := buildShardThunk_ok hbuild
  have hmaps : Orderly workflow {v with maps := v.maps.insert n (state.setShard index .running)} := by
    refine h.setMaps ?_ ?_
    · intro m hm
      rcases (mem_keys_insert _ _ _ _).mp hm with rfl | hm
      · exact happly
      · exact h.maps m hm
    · intro _ _ m i _ hspent state' hget
      rw [get?_insert] at hget
      split_ifs at hget with hm
      · obtain rfl := some.inj hget
        rw [hm] at hspent
        intro hi
        exact hspent.2 state hmap (keepsShards_setShard state index .running (by decide) i hi)
      · exact hspent.2 state' hget
  refine hmaps.addThunk hfresh ?_ fun hshard => by simp at hshard
  refine .shard n bodyStepId body runId index input attempt hbuild happly ⟨hbegun,?_⟩
  intro state' hget
  rw [show (v.maps.insert n (state.setShard index .running)).get? n =
    some (state.setShard index .running) from get?_insert_self _ _ _] at hget
  obtain rfl := some.inj hget
  rw [MapState.setShard,getElem?_set,if_pos rfl]
  split_ifs <;> simp

theorem abort (hnone : v.thunks.items = []) :
    Orderly workflow {v with
      states := v.states.mapValues (fun _ s => if s.live then .aborted else s)} := by
  refine {h with running := ?_, origin := ?_}
  · intro t ht
    have : t ∈ ([] : List PendingThunk) := hnone ▸ ht
    simp at this
  · intro scheduled hscheduled
    refine (h.origin scheduled hscheduled).mono (fun _ => le_rfl) ?_
    rintro n i - - ⟨⟨s,hget,hs⟩,hmaps⟩
    refine ⟨⟨if s.live then .aborted else s,?_,?_⟩,hmaps⟩
    · show (v.states.mapValues _).get? n = _
      rw [get?_mapValues,hget]
      rfl
    · split_ifs
      · decide
      · exact hs

end

end Orderly

variable {scope : Scope}

/-- Orderliness and what a scope has to fit with are kept by every move of the scope. -/
theorem Move.orderly (hmove : Move workflow scope v v') (h : Orderly workflow v)
    (hfits : Fits scope v) : Orderly workflow v' ∧ Fits scope v' := by
  have hsub : ∀ {w : View}, (∀ t ∈ w.thunks.items, t ∈ v.thunks.items) →
      w.scheduled = v.scheduled → Fits scope w :=
    fun hthunks hscheduled => ⟨hfits.tidy,hfits.apart,fun n hn t ht => hfits.idle n hn t (hthunks t ht),
      fun n hn s hs => hfits.unsent n hn s (hscheduled ▸ hs)⟩
  have hsame : ∀ {w : View}, w.thunks = v.thunks → w.scheduled = v.scheduled → Fits scope w :=
    fun hthunks => hsub fun t ht => hthunks ▸ ht
  have herase : ∀ id, ∀ t ∈ (v.thunks.erase id).items, t ∈ v.thunks.items :=
    fun id t ht => ((mem_erase _).mp ht).1
  cases hmove with
  | start n => exact ⟨h.setState (fun hne => absurd rfl hne) (fun _ _ _ => by decide),hsame rfl rfl⟩
  | place n s hs hn => exact ⟨h.place hs hn,hsame rfl rfl⟩
  | override n s hs hn hreset =>
    refine ⟨h.setState (fun _ t ht _ => hfits.idle n hn t ht) ?_,hsame rfl rfl⟩
    intro scheduled hscheduled hforEach
    exact ⟨fun hpending => hfits.unsent n (hreset hpending) scheduled hscheduled hforEach,hs.2⟩
  | abort hn =>
    refine ⟨h.abort ?_,hsame rfl rfl⟩
    rw [eq_nil_iff_forall_not_mem]
    exact fun t ht => hfits.idle _ (hn _) t ht rfl
  | count n => exact ⟨h.count n,hsame rfl rfl⟩
  | dispatch node runId input scheduled hnode hstart hidle hbuild =>
    refine ⟨h.dispatch hnode hidle hbuild,?_⟩
    rcases hfits.apart with hnone | hnone
    · exact ⟨hfits.tidy,hfits.apart,fun n hn => absurd hn (hnone n).1,fun n hn => absurd hn (hnone n).2⟩
    · exact absurd hstart (hnone _).1
  | dispatchShard n bodyStepId body runId index input attempt scheduled state hn hbegun happly hmap
      hpending hbuild =>
    refine ⟨h.dispatchShard (hbegun hfits.tidy) happly hmap hpending hbuild,?_⟩
    rcases hfits.apart with hnone | hnone
    · exact ⟨hfits.tidy,hfits.apart,fun n hn => absurd hn (hnone n).1,fun n hn => absurd hn (hnone n).2⟩
    · exact absurd hn (hnone _).2
  | unpend id => exact ⟨h.dropThunks (herase id),hsub (herase id) rfl⟩
  | finish t s hs ht hshard happly =>
    have hdrop := h.dropThunks (herase t.thunkObjId)
    have ht' := (find?_eq_some_iff _).mp ht
    refine ⟨hdrop.setState ?_ ?_,hsub (herase t.thunkObjId) rfl⟩
    · intro _ t' hmem hshard' hid
      obtain ⟨hmem',hne⟩ := (mem_erase _).mp hmem
      exact hne (congrArg PendingThunk.thunkObjId (h.unique t' hmem' t ht'.1 hshard' hshard hid))
    · intro scheduled hscheduled hforEach
      have hnot := ((h.origin scheduled hscheduled).of_forEach hforEach).1
      rw [happly] at hnot
      simp at hnot
  | requeue t ht =>
    have hmem : ∀ t' ∈ ((v.thunks.erase t.thunkObjId).insert t).items, t' ∈ v.thunks.items := by
      intro t' ht'
      rcases (mem_insert _).mp ht' with rfl | ⟨ht',-⟩
      · exact ((find?_eq_some_iff _).mp ht).1
      · exact herase _ t' ht'
    exact ⟨h.dropThunks hmem,hsub hmem rfl⟩
  | withdraw n s hs =>
    have hmem : ∀ t ∈ (v.thunks.filter fun t => !t.runs n).items, t ∈ v.thunks.items :=
      fun t ht => (mem_filter.mp ht).1
    refine ⟨(h.dropThunks hmem).setState ?_ (fun _ _ _ => ⟨hs.2.2,hs.2.1⟩),hsub hmem rfl⟩
    intro _ t ht hshard hid
    have hruns := (mem_filter.mp ht).2
    simp [PendingThunk.runs,hid,hshard] at hruns
  | openPar n state hn =>
    refine ⟨{h with pars := ?_, origin := ?_},hsame rfl rfl⟩
    · intro m hm
      rcases (mem_keys_insert _ _ _ _).mp hm with rfl | hm
      · exact hn
      · exact h.pars m hm
    · exact fun s hs => (h.origin s hs).mono (fun _ => le_rfl) fun _ _ _ _ hspent => hspent
  | closePar n =>
    refine ⟨{h with pars := ?_, origin := ?_},hsame rfl rfl⟩
    · exact fun m hm => h.pars m ((mem_keys_erase _ _ _).mp hm).2
    · exact fun s hs => (h.origin s hs).mono (fun _ => le_rfl) fun _ _ _ _ hspent => hspent
  | openMap n state hn hfresh =>
    refine ⟨h.setMaps ?_ ?_,hsame rfl rfl⟩
    · intro m hm
      rcases (mem_keys_insert _ _ _ _).mp hm with rfl | hm
      · exact hn
      · exact h.maps m hm
    · intro scheduled hscheduled m i hm hspent state' hget
      rw [get?_insert] at hget
      split_ifs at hget with hid
      · exact absurd (hid ▸ hm) (hfresh hfits.tidy scheduled hscheduled)
      · exact hspent.2 state' hget
  | adjustMap n state state' hmap hkeeps =>
    refine ⟨h.setMaps ?_ ?_,hsame rfl rfl⟩
    · intro m hm
      rcases (mem_keys_insert _ _ _ _).mp hm with rfl | hm
      · exact h.maps m ((mem_keys_iff _ _).mpr ⟨state,hmap⟩)
      · exact h.maps m hm
    · intro _ _ m i _ hspent state'' hget
      rw [get?_insert] at hget
      split_ifs at hget with hid
      · obtain rfl := some.inj hget
        rw [hid] at hspent
        exact fun hi => hspent.2 state hmap (hkeeps i hi)
      · exact hspent.2 state'' hget
  | closeMap n =>
    refine ⟨h.setMaps (fun m hm => h.maps m ((mem_keys_erase _ _ _).mp hm).2) ?_,hsame rfl rfl⟩
    intro _ _ m i _ hspent state hget
    rw [get?_erase] at hget
    split_ifs at hget
    exact hspent.2 state hget
  | put | invoke | report | keepAnswer | keepResult => exact ⟨h.aside rfl rfl rfl rfl rfl rfl,hsame rfl rfl⟩

theorem Reach.orderly (hreach : Reach workflow scope v v') (h : Orderly workflow v)
    (hfits : Fits scope v) : Orderly workflow v' ∧ Fits scope v' := by
  induction hreach with
  | refl => exact ⟨h,hfits⟩
  | tail _ hmove ih => exact hmove.orderly ih.1 ih.2

/-- A thunk that was sent off and is no longer awaited. -/
def Retired (v : View) (id : ObjectId) : Prop :=
  id ∈ v.scheduled.map ScheduledThunk.thunkObjId ∧ ∀ t ∈ v.thunks.items, t.thunkObjId ≠ id

/-- A retired thunk is never awaited again: every new thunk is one never sent off before. -/
theorem Move.retired (hmove : Move workflow scope v v') (h : Orderly workflow v) {id : ObjectId}
    (hid : Retired v id) : Retired v' id := by
  have hkeep : ∀ {w : View}, (∀ t ∈ w.thunks.items, t ∈ v.thunks.items) →
      w.scheduled = v.scheduled → Retired w id :=
    fun hthunks hscheduled => ⟨hscheduled ▸ hid.1,fun t ht => hid.2 t (hthunks t ht)⟩
  have hsend : ∀ {w : View} {t : PendingThunk} {scheduled : ScheduledThunk},
      w.thunks = v.thunks.insert t → w.scheduled = v.scheduled ++ [scheduled] →
      t.thunkObjId = scheduled.thunkObjId →
      scheduled.thunkObjId ∉ v.scheduled.map ScheduledThunk.thunkObjId → Retired w id := by
    intro w t scheduled hthunks hscheduled ht hfresh
    refine ⟨?_,?_⟩
    · rw [hscheduled,map_append]
      exact mem_append_left _ hid.1
    · intro t' ht'
      rw [hthunks] at ht'
      rcases (mem_insert _).mp ht' with rfl | ⟨ht',-⟩
      · rintro rfl
        exact hfresh (ht ▸ hid.1)
      · exact hid.2 t' ht'
  cases hmove with
  | dispatch node runId input scheduled hnode hstart hidle hbuild =>
    exact hsend rfl rfl rfl (h.node_fresh hbuild)
  | dispatchShard n bodyStepId body runId index input attempt scheduled state hn hbegun happly hmap
      hpending hbuild =>
    exact hsend rfl rfl rfl (h.shard_fresh hmap hpending hbuild)
  | unpend | finish => exact hkeep (fun t ht => ((mem_erase _).mp ht).1) rfl
  | requeue t ht =>
    refine hkeep ?_ rfl
    intro t' ht'
    rcases (mem_insert _).mp ht' with rfl | ⟨ht',-⟩
    · exact ((find?_eq_some_iff _).mp ht).1
    · exact ((mem_erase _).mp ht').1
  | withdraw n s hs => exact hkeep (fun t ht => (mem_filter.mp ht).1) rfl
  | _ => exact hkeep (fun _ ht => ht) rfl

theorem Reach.retired (hreach : Reach workflow scope v v') (h : Orderly workflow v)
    (hfits : Fits scope v) {id : ObjectId} (hid : Retired v id) : Retired v' id := by
  induction hreach with
  | refl => exact hid
  | tail hbefore hmove ih => exact hmove.retired (Reach.orderly hbefore h hfits).1 ih

theorem fits_tickScope (v : View) : Fits (tickScope True) v :=
  ⟨trivial,.inl (fun _ => ⟨id,id⟩),fun _ h => absurd h id,fun _ h => absurd h id⟩

theorem Orderly.unsent (h : Orderly workflow v)
    (hn : v.states.get? n = none ∨ v.states.get? n = some .pending) (hs : s ∈ v.scheduled) :
    s.thunkObjId.forEach? ≠ some n := by
  intro hforEach
  obtain ⟨state,hget,hstate,-⟩ := ((h.origin s hs).of_forEach hforEach).2
  rcases hn with hn | hn <;> rw [hn] at hget <;> simp_all

theorem Orderly.begun (h : Orderly workflow v) (htraced : Traced workflow v) {t : PendingThunk}
    (ht : t ∈ v.thunks.items) (hshard : t.shardIndex ≠ none) : Begun v t.nodeId := by
  obtain ⟨s,hs,hid⟩ := mem_map.mp (htraced.sent t ht)
  exact ((h.origin s hs).of_forEach (hid ▸ (htraced.shard ht hshard).1)).2

end

section Steps
variable (workflow : CompiledWorkflow)

def actionOf (run : WorkflowRun) : Operation → Option HumanAction
  | .humanAction action => some action
  | .taskData data =>
    match readTaskData run.runId data with
    | .ok (.act action) => some action
    | _ => none
  | _ => none

/-- A call that overrules no node a thunk is pending for, and makes no `for_each` run again whose
shards were sent off. -/
def Considerate (w : World) (operation : Operation) : Prop :=
  ∀ action ∈ actionOf w.run operation, ∀ n, supersedes workflow w.run action n = true →
    (∀ t ∈ w.run.pendingThunks.items, t.nodeId ≠ n) ∧
      (action.action = .retry ∨ action.action = .rollback →
        ∀ s ∈ w.scheduled, s.thunkObjId.forEach? ≠ some n)

variable {workflow}

theorem Considerate.fits {w : World} {operation : Operation} (h : Considerate workflow w operation) :
    Fits (callScope workflow True w operation) w.view := by
  have hscope : ∀ action ∈ actionOf w.run operation, Fits (actionScope workflow w.run action) w.view :=
    fun action haction => ⟨trivial,.inr (fun _ => ⟨id,id⟩),fun n hn => (h action haction n hn).1,
      fun n hn => (h action haction n hn.1).2 hn.2⟩
  have hnone : ∀ scope : Scope, scope.tidy → (∀ n, ¬ scope.overrides n ∧ ¬ scope.resets n) →
      Fits scope w.view := fun scope htidy hnone => ⟨htidy,.inl hnone,fun n hn => absurd hn (hnone n).1,
      fun n hn => absurd hn (hnone n).2⟩
  cases operation with
  | humanAction action => exact hscope action rfl
  | taskData data =>
    rw [callScope]
    split
    · rename_i action hread
      exact hscope action (by rw [actionOf,hread]; rfl)
    · exact hnone _ trivial fun _ => ⟨id,id⟩
  | _ => exact hnone _ trivial fun _ => ⟨id,id⟩

variable (env : Env) (hids : workflow.Keyed)

include hids

theorem step_orderly {w : World} {operation : Operation} (h : Orderly workflow w.view)
    (htraced : Traced workflow w.view) (hconsiderate : Considerate workflow w operation) :
    Orderly workflow (step env workflow w operation).2.view ∧ ∀ id, Retired w.view id →
      Retired (step env workflow w operation).2.view id := by
  have hmoves : Reach workflow (callScope workflow True w operation) w.view
      (step env workflow w operation).2.view := by
    refine step_reach env operation hids ?_ (fun t ht => htraced.filed hids ht fun _ => h.begun htraced ht)
    intro _ u hu n hn s hs
    exact (Reach.orderly hu h (fits_tickScope _)).1.unsent hn hs
  exact ⟨(hmoves.orderly h hconsiderate.fits).1,fun id hid => hmoves.retired h hconsiderate.fits hid⟩

end Steps

section Runs
variable (env : Env) (workflow : CompiledWorkflow)

theorem orderly_created (start : RunStart) : Orderly workflow (createdWorld env workflow start).view := by
  rw [createdWorld_view]
  have hthunks : ∀ t, t ∉ (Registry.empty : Registry PendingThunk.thunkObjId).items :=
    fun t ht => by simp [Registry.empty] at ht
  exact ⟨fun t ht => absurd ht (hthunks t),fun t ht => absurd ht (hthunks t),
    fun t ht => absurd ht (hthunks t),fun n hn => by simp [World.view,WorkflowRun.view,newRun] at hn,
    fun n hn => by simp [World.view,WorkflowRun.view,newRun] at hn,
    fun s hs => absurd hs not_mem_nil,nodup_nil⟩

/-- Every pending thunk of a node's own belongs to a running node, and to one that has no other. -/
def ThunksMatch (run : WorkflowRun) : Prop :=
  ∀ t ∈ run.pendingThunks.items, t.shardIndex = none →
    run.nodeStates.get? t.nodeId = some .running ∧
      ∀ t' ∈ run.pendingThunks.items, t'.shardIndex = none → t'.nodeId = t.nodeId → t' = t

/-- A thunk sent off for a node that a human action of the run overruled afterwards. -/
def Superseded (start : RunStart) (operations : List Operation) (id : ObjectId) : Prop :=
  ∃ before operation after, operations = before ++ operation :: after ∧
    ∃ action ∈ actionOf (reached env workflow start before).run operation,
      ∃ s ∈ (reached env workflow start before).scheduled, s.thunkObjId = id ∧
        ∃ n, id.owner? = some n ∧
          supersedes workflow (reached env workflow start before).run action n = true

variable {workflow}

theorem Orderly.thunksMatch {w : World} (h : Orderly workflow w.view) : ThunksMatch w.run :=
  fun t ht hshard => ⟨h.running t ht hshard,fun t' ht' hshard' hid => h.unique t' ht' t ht hshard'
    hshard hid⟩

theorem step_thunkResult_none {w : World} {result : ThunkExecutionResult}
    (h : w.run.pendingThunks.find? result.thunkObjId = none) : step env workflow w (.thunkResult result) =
      (.error (.missingPendingThunk result.thunkObjId),{w with events := []}) := by
  have hcall : handleThunkResult env workflow result {w with events := []} =
      (.error (.missingPendingThunk result.thunkObjId),{w with events := []}) := by
    have hread : readRun {w with events := []} = (.ok w.run,{w with events := []}) := rfl
    rw [handleThunkResult,bind_of_ok hread,h]
    rfl
  exact (bind_of_ok rfl).trans (bind_of_error hcall)

variable {env} (hids : workflow.Keyed)

include hids

variable {operations : List Operation}

theorem run_orderly {w : World} (h : Orderly workflow w.view) (htraced : Traced workflow w.view)
    (halong : Machine.Along (step env workflow) (Considerate workflow) w operations) :
    Orderly workflow (Machine.run (step env workflow) w operations).2.view ∧
      ∀ id, Retired w.view id → Retired (Machine.run (step env workflow) w operations).2.view id := by
  refine (Machine.run_invariant_along (I := fun w' => Traced workflow w'.view ∧
    Orderly workflow w'.view ∧ ∀ id, Retired w.view id → Retired w'.view id) ?_
      ⟨htraced,h,fun _ hid => hid⟩ halong).2
  rintro w' operation ⟨htraced,horderly,hretired⟩ hconsiderate
  obtain ⟨hnext,hkeeps⟩ := step_orderly env hids horderly htraced hconsiderate
  exact ⟨step_traced env hids htraced operation,hnext,fun id hid => hkeeps id (hretired id hid)⟩

theorem retired_of_superseded {start : RunStart}
    (halong : Machine.Along (step env workflow) (Considerate workflow) (createdWorld env workflow
      start) operations) {id : ObjectId} (hid : Superseded env workflow start operations id) :
    Retired (reached env workflow start operations).view id := by
  obtain ⟨before,operation,after,rfl,action,haction,s,hs,rfl,n,howner,hsupersedes⟩ := hid
  obtain ⟨hbefore,hrest⟩ := Machine.along_append.mp halong
  have htraced := reached_traced env hids start before
  have horderly := (run_orderly hids (orderly_created env workflow start)
    (traced_created env workflow start) hbefore).1
  have hretired : Retired (reached env workflow start before).view s.thunkObjId := by
    refine ⟨mem_map_of_mem hs,?_⟩
    intro t ht hsame
    have hnode : t.nodeId = n := by
      have := (htraced.owner t ht).1
      rw [hsame,howner] at this
      exact (some.inj this).symm
    exact (hrest.1 action haction n hsupersedes).1 t ht hnode
  rw [reached,Machine.run_append]
  exact (run_orderly hids horderly htraced hrest).2 _ hretired

end Runs

/-- In every run of considerate calls pending thunks match the running nodes, and a late report
about a superseded attempt changes nothing. -/
theorem run_thunksMatch {hashExecutor : String → String} {fuel : ℕ}
    {definition : WorkflowDefinition} {output : CompileOutput}
    (h : compileWorkflow hashExecutor fuel definition = some (.ok output)) (env : Env)
    (start : RunStart) {operations : List Operation}
    (halong : Machine.Along (step env output.workflow) (Considerate output.workflow)
      (createdWorld env output.workflow start) operations) :
    ThunksMatch (reached env output.workflow start operations).run ∧
      ∀ result, Superseded env output.workflow start operations result.thunkObjId →
        (step env output.workflow (reached env output.workflow start operations)
          (.thunkResult result)).2.run = (reached env output.workflow start operations).run := by
  have hids := (compiled_of_compileWorkflow h).1.keyed
  refine ⟨(run_orderly hids (orderly_created env _ start) (traced_created env _ start)
    halong).1.thunksMatch,?_⟩
  intro result hsuperseded
  have hretired := retired_of_superseded hids halong hsuperseded
  rw [step_thunkResult_none env]
  exact (find?_eq_none_iff _).mpr hretired.2

/-- What can be computed of a considerate call: no human action, or nothing pending and no shard
ever sent off. -/
def CalmCall (w : World) (operation : Operation) : Prop :=
  actionOf w.run operation = none ∨ w.run.pendingThunks.items = [] ∧
    ∀ s ∈ w.scheduled, s.thunkObjId.forEach? = none

instance (w : World) (operation : Operation) : Decidable (CalmCall w operation) :=
  inferInstanceAs (Decidable (_ ∨ _))

theorem CalmCall.considerate {workflow : CompiledWorkflow} {w : World} {operation : Operation}
    (h : CalmCall w operation) : Considerate workflow w operation := by
  intro action haction n _
  rcases h with hnone | ⟨hidle,hsent⟩
  · rw [hnone] at haction
    simp at haction
  · refine ⟨fun t ht => ?_,fun _ s hs => ?_⟩
    · rw [hidle] at ht
      simp at ht
    · rw [hsent s hs]
      simp

/-- A node is done, then skipped, then reported done again. -/
theorem run_thunksMatch_chain :
    ∃ output, compileWorkflow id 1 chainDefinition = some (.ok output) ∧
      ∃ t ∈ (worldAfter quietEnv output.workflow [.tick]).run.pendingThunks.items,
        ThunksMatch (worldAfter quietEnv output.workflow
          [.tick,done t .null,.humanAction skipFirst]).run ∧
        (step quietEnv output.workflow (worldAfter quietEnv output.workflow
          [.tick,done t .null,.humanAction skipFirst]) (done t .null)).2.run =
            (worldAfter quietEnv output.workflow [.tick,done t .null,.humanAction skipFirst]).run := by
  obtain ⟨output,hout,t,ht,halong,s,hs,hid,howner,hsupersedes⟩ :=
    exists_compiled chainDefinition (P := fun workflow =>
      ∃ t ∈ (worldAfter quietEnv workflow [.tick]).run.pendingThunks.items,
      Machine.Along (step quietEnv workflow) CalmCall (worldAfter quietEnv workflow [])
        [.tick,done t .null,.humanAction skipFirst] ∧
      ∃ s ∈ (worldAfter quietEnv workflow [.tick,done t .null]).scheduled,
        s.thunkObjId = t.thunkObjId ∧ t.thunkObjId.owner? = some "first" ∧
          supersedes workflow (worldAfter quietEnv workflow [.tick,done t .null]).run skipFirst "first" =
            true)
    (by decide +kernel)
  obtain ⟨hmatch,hlate⟩ := run_thunksMatch hout quietEnv ⟨"run",.empty,fun _ => none⟩
    (halong.mono fun _ _ => CalmCall.considerate)
  refine ⟨output,hout,t,ht,hmatch,hlate _ ?_⟩
  exact ⟨[.tick,done t .null],.humanAction skipFirst,[],rfl,skipFirst,rfl,s,hs,hid,"first",howner,
    hsupersedes⟩

/-- A skipped node whose thunk is still pending. -/
theorem skip_leaves_thunk :
    ∃ output, compileWorkflow id 1 chainDefinition = some (.ok output) ∧
      ∃ t ∈ (worldAfter quietEnv output.workflow
          [.tick,.humanAction skipFirst]).run.pendingThunks.items,
        t.shardIndex = none ∧ (worldAfter quietEnv output.workflow
          [.tick,.humanAction skipFirst]).run.nodeStates.get? t.nodeId = some .skipped :=
  exists_output (by decide +kernel)

end BuckyOS.Workflow
