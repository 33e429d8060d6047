import BuckyOS.KEvent.Ring

/-! Whole runs of the shared ring: what consumers return, what a drain returns while the producer is idle,
and when an event gets lost. -/
namespace BuckyOS.KEvent
open List Pool

section Runs
variable {system : System} {c : Consumer} {index : ℕ}

def WriteStage.resets : WriteStage → Bool
  | resetting _ => true
  | _ => false

structure SystemState (system : System) : Prop where
  known : ∀ c ∈ system.consumers, Known system.ring c
  wiped : ∀ stores, system.writer = .resetting stores → system.published = [] ∧ Wiped system.ring stores
  ring : system.writer.resets = false → RingState system.ring system.writer system.published
  consumers : system.writer.resets = false → ∀ c ∈ system.consumers, c.current system.ring = true →
    ConsumerState system.ring system.published c

theorem SystemState.move (h : SystemState system) {f : Consumer → Consumer}
    (hknown : ∀ c, Known system.ring c → Known system.ring (f c))
    (hstate : system.writer.resets = false → ∀ c ∈ system.consumers, (f c).current system.ring = true →
      ConsumerState system.ring system.published (f c)) : SystemState (system.move index f) :=
  ⟨forall_mem_modify h.known fun c hc => hknown c (h.known c (mem_of_getElem? hc)),h.wiped,h.ring,
    fun hlive => forall_mem_modify (h.consumers hlive) fun c hc => hstate hlive c (mem_of_getElem? hc)⟩

variable {ring : Ring} {writer : WriteStage} {published : List (List UInt8)}

theorem resets_advance (ring : Ring) (h : writer.resets = false) :
    (writer.advance ring).1.resets = false := by
  cases writer with
  | resetting stores => cases h
  | copying seq payload copied =>
    simp only [WriteStage.advance]
    split_ifs <;> rfl
  | _ => rfl

theorem Ring.reset_generation (ring : Ring) (stores : ℕ) :
    (ring.reset stores).generation = ring.generation := by
  cases stores with
  | zero => rfl
  | succ n =>
    simp only [Ring.reset]
    split_ifs <;> rfl

theorem SystemState.produce (h : SystemState system) : SystemState (system.step .produce).2 := by
  cases hwriter : system.writer with
  | resetting stores =>
    obtain ⟨hpublished,hwiped⟩ := h.wiped stores hwriter
    simp only [System.step,hwriter,WriteStage.advance]
    split_ifs with hmore
    · refine ⟨fun c hc => (h.known c hc).congr (Ring.reset_generation _ _),fun n hn => ?_,
        (fun hlive => by cases hlive),fun hlive => by cases hlive⟩
      obtain rfl := WriteStage.resetting.inj hn
      exact ⟨hpublished,hwiped.reset hmore⟩
    · refine ⟨fun c hc => (h.known c hc).reborn.1,(fun n hn => by cases hn),fun _ => ?_,
        fun _ c hc hcurrent => ?_⟩
      · rw [hpublished]
        exact hwiped.ringState (by omega)
      · rw [(h.known c hc).reborn.2] at hcurrent
        cases hcurrent
  | _ =>
    have hlive : system.writer.resets = false := by rw [hwriter]; rfl
    have hring := h.ring hlive
    have hnext := resets_advance system.ring hlive
    have hlater := hring.later
    refine ⟨fun c hc => (h.known c hc).congr hlater.generation,fun n hn => ?_,fun _ => hring.advance,
      fun _ c hc hcurrent => ?_⟩
    · rw [show (system.writer.advance system.ring).1 = _ from hn] at hnext
      cases hnext
    · exact (h.consumers hlive c hc (Consumer.current_congr hlater.generation ▸ hcurrent)).later hlater

theorem SystemState.step (h : SystemState system) (input : Input) : SystemState (system.step input).2 := by
  cases input with
  | activate =>
    refine ⟨fun c hc => (h.known c hc).congr rfl,fun n hn => ?_,(fun hlive => by cases hlive),
      fun hlive => by cases hlive⟩
    obtain rfl := WriteStage.resetting.inj hn
    exact ⟨rfl,fun h => absurd h (lt_irrefl 0),fun i _ hi => absurd hi (Nat.not_lt_zero _)⟩
  | publish payload =>
    cases hwriter : system.writer with
    | idle =>
      have hlive : system.writer.resets = false := by rw [hwriter]; rfl
      simp only [System.step,hwriter]
      split_ifs with haccept
      · simp only [System.accepts,Bool.and_eq_true,decide_eq_true_eq] at haccept
        refine ⟨h.known,(fun n hn => by cases hn),fun _ => ?_,fun _ c hc hcurrent => ?_⟩
        · exact (hwriter ▸ h.ring hlive).publish ⟨haccept.1.1.2,haccept.1.2⟩ haccept.2
        · refine (h.consumers hlive c hc hcurrent).later ⟨rfl,le_refl _,fun i p hp => ?_,fun _ _ _ _ => rfl⟩
          rw [List.getElem?_append_left (List.getElem?_eq_some_iff.mp hp).1,hp]
      · exact h
    | _ => simpa only [System.step,hwriter] using h
  | produce => exact h.produce
  | prime index =>
    refine h.move (fun c hc => ?_) fun hlive c hc => ?_ <;> split_ifs
    · exact hc
    · exact hc.move trivial
    · exact hc.primeDone
    · exact h.consumers hlive c hc
    all_goals exact fun hcurrent => (h.consumers hlive c hc hcurrent).stay rfl rfl rfl
  | drain index maxEvents =>
    refine h.move (fun c hc => ?_) fun hlive c hc => ?_ <;> split_ifs
    · exact hc.move trivial
    · exact hc
    · exact fun hcurrent => (h.consumers hlive c hc hcurrent).stay rfl rfl rfl
    · exact h.consumers hlive c hc
  | consume index =>
    exact h.move (fun c hc => hc.advance) fun hlive c hc hcurrent =>
      .advance (h.known c hc) (h.consumers hlive c hc) (h.ring hlive) hcurrent

def System.fresh (count : ℕ) : System := {consumers := List.replicate count {}}

theorem systemState_fresh (count : ℕ) : SystemState (System.fresh count) := by
  have hring : RingState {} .readying [] := ringState_of_wiped rfl fun _ => rfl
  refine ⟨fun c hc => ?_,(fun n hn => by cases hn),
    fun _ => ⟨hring.bounded,hring.sizes,rfl,hring.held,hring.placed,hring.recent,hring.lens⟩,
    fun _ c hc hcurrent => ?_⟩
  · rw [eq_of_mem_replicate hc]
    exact ⟨le_refl _,le_refl _,by simp,by simp,trivial⟩
  · rw [eq_of_mem_replicate hc] at hcurrent
    cases hcurrent

theorem systemState_after (count : ℕ) (inputs : List Input) :
    SystemState ((System.fresh count).after inputs) :=
  Machine.run_invariant (I := SystemState) (fun _ x hs => hs.step x) (systemState_fresh count) inputs

def WriteStage.remaining : WriteStage → ℕ
  | idle => 0
  | resetting stores => 2 * ringCapacity + 1 - stores + 2
  | readying => 1
  | loading payload => payload.length + 5
  | invalidating _ payload => payload.length + 4
  | copying _ payload copied => payload.length - copied + 3
  | committing _ => 2
  | advancing _ => 1

theorem remaining_advance (h : writer ≠ .idle) :
    (writer.advance ring).1.remaining < writer.remaining := by
  cases writer with
  | idle => exact absurd rfl h
  | resetting stores =>
    simp only [WriteStage.advance]
    split_ifs with hmore <;> simp only [WriteStage.remaining] <;> omega
  | copying seq payload copied =>
    simp only [WriteStage.advance]
    split_ifs with hmore <;> simp only [WriteStage.remaining] <;> omega
  | _ => simp [WriteStage.advance,WriteStage.remaining]

theorem settles (system : System) : ∃ k, (system.after (List.replicate k .produce)).writer = .idle := by
  induction hn : system.writer.remaining using Nat.strong_induction_on generalizing system with
  | _ n ih =>
    by_cases hidle : system.writer = .idle
    · exact ⟨0,hidle⟩
    · obtain ⟨k,hk⟩ := ih _ (hn ▸ remaining_advance hidle) (system.step .produce).2 rfl
      exact ⟨k + 1,hk⟩

def Reaches (ring : Ring) (c c' : Consumer) : Prop :=
  ∃ k, (Consumer.advance ring)^[k] c = c'

theorem reaches_refl (ring : Ring) (c : Consumer) : Reaches ring c c := ⟨0,rfl⟩

theorem Reaches.of_advance {c' : Consumer} (h : Reaches ring (c.advance ring) c') : Reaches ring c c' := by
  obtain ⟨k,hk⟩ := h
  exact ⟨k + 1,by rw [Function.iterate_succ_apply,hk]⟩

theorem Reaches.trans {c' c'' : Consumer} (h : Reaches ring c c') (h' : Reaches ring c' c'') :
    Reaches ring c c'' := by
  obtain ⟨k,rfl⟩ := h
  obtain ⟨k',rfl⟩ := h'
  exact ⟨k' + k,by rw [Function.iterate_add_apply]⟩

open Reaches (of_advance)

theorem reaches_copied {payload : List UInt8} {j : ℕ}
    (hstage : c.stage = .copying payload.length (payload.take j))
    (hholds : (ring.slot c.target).Holds payload) :
    Reaches ring c {c with stage := .copying payload.length payload} := by
  induction hd : payload.length - j generalizing j c with
  | zero =>
    rw [take_of_length_le (by omega)] at hstage
    rw [← hstage]
    exact reaches_refl ring c
  | succ d ih =>
    have hlength : (payload.take j).length = j := by
      rw [length_take]
      omega
    have hnext : c.advance ring = {c with stage := .copying payload.length (payload.take (j + 1))} := by
      have htake : payload.take j ++ [_] = _ := hholds.take_succ (by omega) (by rw [hlength])
      rw [hlength] at htake
      simp only [Consumer.advance,hstage,hlength,htake]
      rw [if_pos (by omega)]
    refine of_advance ?_
    rw [hnext]
    exact ih rfl hholds (by omega)

theorem reaches_taken (hring : RingState ring .idle published) (hstage : c.stage = .loadingSeq)
    (hlt : c.readSeq < ring.headSeq) (hnear : ring.headSeq ≤ c.readSeq + ringCapacity) :
    Reaches ring c (c.taken (published.getD c.readSeq [])) := by
  have hhead : ring.headSeq = published.length := hring.writing
  have htarget : c.target = c.readSeq + 1 := hring.target hlt
  have hseq := hring.recent (c.readSeq + 1) (by omega)
    (by simp only [WriteStage.committed]; omega) (by simp only [WriteStage.committed]; omega)
    (fun ho => by cases ho)
  obtain ⟨-,payload,hp,hholds⟩ := hring.held _ (by omega) hseq
  have hp' : published[c.readSeq]? = some payload := hp
  have hsize := hring.sizes payload (mem_of_getElem? hp)
  have hgetD : published.getD c.readSeq [] = payload := by simp [getD,hp']
  rw [← htarget] at hseq hholds
  have hlen : ¬ ((ring.slot c.target).len = 0 ∨ (ring.slot c.target).len > slotDataSize) := by
    rw [hholds.1]
    omega
  rw [hgetD]
  refine of_advance ?_
  have hfirst : c.advance ring = {c with stage := .loadingLen} := by
    simp only [Consumer.advance,hstage,hseq,if_true]
  rw [hfirst]
  refine of_advance ?_
  have hsecond : Consumer.advance ring {c with stage := .loadingLen} =
      {c with stage := .copying payload.length (payload.take 0)} := by
    rw [← hholds.1]
    exact if_neg (by simp only [Bool.or_eq_true,decide_eq_true_eq]; exact hlen)
  rw [hsecond]
  have hcopied : Reaches ring {c with stage := .copying payload.length (payload.take 0)}
      {c with stage := .copying payload.length payload} := reaches_copied rfl hholds
  refine hcopied.trans (of_advance ?_)
  have hlast : Consumer.advance ring {c with stage := .copying payload.length payload} =
      {c with
        readSeq := c.target
        returned := c.returned ++ [⟨c.generation,c.target,payload⟩]
        room := c.room - 1
        stage := if c.room ≤ 1 then .idle else .loadingHead} :=
    (if_neg (lt_irrefl _)).trans (if_pos hseq)
  rw [hlast,htarget]
  exact reaches_refl ring _

def eventsAfter (generation : ℕ) (published : List (List UInt8)) (seq count : ℕ) : List Delivery :=
  (List.range' (seq + 1) count).map (fun s => ⟨generation,s,published.getD (s - 1) []⟩)

def Drained (ring : Ring) (published : List (List UInt8)) (c c' : Consumer) : Prop :=
  c'.stage = .idle ∧ c'.readSeq = ring.headSeq ∧ c'.returned =
    c.returned ++ eventsAfter c.generation published c.readSeq (ring.headSeq - c.readSeq)

theorem advance_loadingHead (hring : RingState ring .idle published) (hstage : c.stage = .loadingHead)
    (hle : c.readSeq ≤ ring.headSeq) :
    c.advance ring = if c.readSeq = ring.headSeq then {c with stage := .idle}
      else {c with readSeq := max c.readSeq (ring.headSeq - ringCapacity), stage := .loadingSeq} := by
  simp only [Consumer.advance,hstage,hring.caughtUp hle]

theorem reaches_drained (hring : RingState ring .idle published) (hstage : c.stage = .loadingSeq)
    (hlt : c.readSeq < ring.headSeq) (hnear : ring.headSeq ≤ c.readSeq + ringCapacity)
    (hroom : ring.headSeq - c.readSeq ≤ c.room) :
    ∃ c', Reaches ring c c' ∧ Drained ring published c c' := by
  induction hd : ring.headSeq - c.readSeq generalizing c with
  | zero => omega
  | succ d ih =>
    have htaken := reaches_taken hring hstage hlt hnear
    set next := c.taken (published.getD c.readSeq [])
    have hreadSeq : next.readSeq = c.readSeq + 1 := rfl
    have hevents : c.returned ++ eventsAfter c.generation published c.readSeq (d + 1) =
        next.returned ++ eventsAfter next.generation published next.readSeq d := by
      simp [next,Consumer.taken,eventsAfter,range'_succ]
    simp only [Drained,hd,hevents]
    by_cases hone : c.room ≤ 1
    · refine ⟨next,htaken,if_pos hone,by omega,?_⟩
      rw [show d = 0 by omega]
      simp [eventsAfter]
    · have hadvance : next.advance ring = _ := advance_loadingHead hring (if_neg hone) (by omega)
      by_cases hlast : next.readSeq = ring.headSeq
      · rw [if_pos hlast] at hadvance
        have hend : Reaches ring next {next with stage := .idle} :=
          of_advance (by rw [hadvance]; exact reaches_refl ring _)
        refine ⟨_,htaken.trans hend,rfl,hlast,?_⟩
        rw [show d = 0 by omega]
        simp [eventsAfter]
      · rw [if_neg hlast,max_eq_left (by omega)] at hadvance
        obtain ⟨c',hreaches,hidle,hread,hreturned⟩ :=
          @ih {next with stage := .loadingSeq} rfl (by simp only; omega) (by simp only; omega)
            (show _ ≤ c.room - 1 by simp only; omega) (by simp only; omega)
        refine ⟨c',htaken.trans (of_advance (hadvance ▸ hreaches)),hidle,hread,?_⟩
        rw [hreturned]
        simp only
        rw [show ring.headSeq - next.readSeq = d by omega]

def Consumer.start (ring : Ring) (c : Consumer) : ℕ :=
  max (if c.current ring then c.readSeq else initialReadSeq ring.headSeq c.primed)
    (ring.headSeq - ringCapacity)

/-- The events after the cursor among those that still have a slot. -/
def Consumer.unread (ring : Ring) (published : List (List UInt8)) (c : Consumer) : List Delivery :=
  eventsAfter ring.generation published (c.start ring) (ring.headSeq - c.start ring)

theorem reaches_of_loadingHead (hring : RingState ring .idle published) (hstage : c.stage = .loadingHead)
    (hle : c.readSeq ≤ ring.headSeq)
    (hroom : ring.headSeq - max c.readSeq (ring.headSeq - ringCapacity) ≤ c.room) :
    ∃ c', Reaches ring c c' ∧ c'.stage = .idle ∧ c'.returned = c.returned ++
        eventsAfter c.generation published (max c.readSeq (ring.headSeq - ringCapacity))
          (ring.headSeq - max c.readSeq (ring.headSeq - ringCapacity)) := by
  have hadvance : c.advance ring = _ := advance_loadingHead hring hstage hle
  by_cases hend : c.readSeq = ring.headSeq
  · rw [if_pos hend] at hadvance
    refine ⟨{c with stage := .idle},of_advance ?_,rfl,?_⟩
    · rw [hadvance]
      exact reaches_refl ring _
    · rw [show ring.headSeq - max c.readSeq (ring.headSeq - ringCapacity) = 0 by omega]
      simp [eventsAfter]
  · rw [if_neg hend] at hadvance
    have hpos : 0 < ringCapacity := by decide
    obtain ⟨c',hreaches,hidle,-,hreturned⟩ := @reaches_drained
      {c with
        readSeq := max c.readSeq (ring.headSeq - ringCapacity), stage := .loadingSeq} ring
      published hring rfl (by simp only; omega) (by simp only; omega) hroom
    exact ⟨c',of_advance (hadvance ▸ hreaches),hidle,hreturned⟩

theorem reaches_of_begin (hring : RingState ring .idle published)
    (h : c.current ring = true → ConsumerState ring published c) {room : ℕ}
    (hroom : ring.headSeq - c.start ring ≤ room) :
    ∃ c', Reaches ring {c with room := room, stage := .loadingGeneration} c' ∧
      c'.stage = .idle ∧ c'.returned = c.returned ++ c.unread ring published := by
  have hbegin : Consumer.advance ring {c with room := room, stage := .loadingGeneration} = {c with
      room := room, stage := if c.current ring then .loadingHead else .opening ring.generation} := rfl
  by_cases hcurrent : c.current ring = true
  · have hstart : c.start ring = max c.readSeq (ring.headSeq - ringCapacity) := by
      simp [Consumer.start,hcurrent]
    have hgeneration := Consumer.generation_of_current hcurrent
    rw [if_pos hcurrent] at hbegin
    rw [hstart] at hroom
    rw [Consumer.unread,hstart]
    obtain ⟨c',hreaches,hrest⟩ := @reaches_of_loadingHead {c with room := room, stage := .loadingHead} ring
      published hring rfl (h hcurrent).behind hroom
    exact ⟨c',of_advance (hbegin ▸ hreaches),hgeneration ▸ hrest⟩
  · have hstart : c.start ring = max (initialReadSeq ring.headSeq c.primed) (ring.headSeq - ringCapacity) := by
      simp [Consumer.start,hcurrent]
    rw [if_neg hcurrent] at hbegin
    rw [hstart] at hroom
    rw [Consumer.unread,hstart]
    obtain ⟨c',hreaches,hrest⟩ := @reaches_of_loadingHead {c with
      opened := true, generation := ring.generation, readSeq := initialReadSeq ring.headSeq c.primed,
      room := room, stage := .loadingHead} ring published hring rfl (initialReadSeq_le _ _) hroom
    exact ⟨c',of_advance (hbegin ▸ of_advance hreaches),hrest⟩

theorem after_consume (h : system.consumers[index]? = some c) (k : ℕ) :
    (system.after (List.replicate k (.consume index))).consumers[index]? =
      some ((Consumer.advance system.ring)^[k] c) := by
  induction k generalizing system c with
  | zero => exact h
  | succ k ih =>
    have hget : ((system.step (.consume index)).2).consumers[index]? = some (c.advance system.ring) := by
      simp [System.step,System.move,h]
    exact ih hget

/-- Scheduled for long enough, a drain ends with the consumer in a state. -/
def System.DrainsTo (system : System) (index maxEvents : ℕ) (c' : Consumer) : Prop :=
  ∃ k, (system.after (.drain index maxEvents :: List.replicate k (.consume index))).consumers[index]? = some c'

theorem SystemState.drains (h : SystemState system) (hidle : system.writer = .idle)
    (hc : system.consumers[index]? = some c) (hstage : c.stage = .idle)
    (hready : system.ring.ready = true) {maxEvents : ℕ} (hmax : 0 < maxEvents)
    (hroom : system.ring.headSeq - c.start system.ring ≤ maxEvents) :
    ∃ c', system.DrainsTo index maxEvents c' ∧ c'.stage = .idle ∧
      c'.returned = c.returned ++ c.unread system.ring system.published := by
  have hlive : system.writer.resets = false := by rw [hidle]; rfl
  have hring := h.ring hlive
  rw [hidle] at hring
  obtain ⟨c',⟨k,hk⟩,hrest⟩ := reaches_of_begin hring (h.consumers hlive c (mem_of_getElem? hc)) hroom
  refine ⟨c',⟨k,?_⟩,hrest⟩
  have hget : ((system.step (.drain index maxEvents)).2).consumers[index]? = some {c with
      room := maxEvents, stage := .loadingGeneration} := by
    simp [System.step,System.move,hc,hstage,hready,hmax]
  have hafter := after_consume hget k
  rwa [show ((system.step (.drain index maxEvents)).2).ring = system.ring from rfl,hk] at hafter

/-- The producer comes to the end of its calls and then has all it has published in the ring; whatever a
consumer has returned in this life of the ring was published under the number its cursor then had, and in
order; and a drain while the producer is idle returns all events after the cursor among those that still have
a slot. -/
structure Intact (system : System) : Prop where
  settles : ∃ k, (system.after (List.replicate k .produce)).writer = .idle
  head : system.writer = .idle → system.ring.headSeq = system.published.length
  returned : system.writer.resets = false → ∀ c ∈ system.consumers, ∀ e ∈ c.returned,
    e.generation = system.ring.generation →
      1 ≤ e.seq ∧ system.published[e.seq - 1]? = some e.payload
  ordered : system.writer.resets = false → ∀ c ∈ system.consumers,
    ((c.returned.filter (·.generation = system.ring.generation)).map Delivery.seq).Pairwise (· < ·)
  drained : system.writer = .idle → system.ring.ready = true → ∀ index c maxEvents,
    system.consumers[index]? = some c → c.stage = .idle → 0 < maxEvents →
    system.ring.headSeq - c.start system.ring ≤ maxEvents →
    ∃ c', system.DrainsTo index maxEvents c' ∧ c'.stage = .idle ∧
      c'.returned = c.returned ++ c.unread system.ring system.published

/-- The ring is intact after any interleaving of its producer and any number of consumers. -/
theorem ring_intact (count : ℕ) (inputs : List Input) : Intact ((System.fresh count).after inputs) := by
  have h := systemState_after count inputs
  generalize (System.fresh count).after inputs = system at h
  have hfresh : ∀ c ∈ system.consumers, c.current system.ring ≠ true →
      ∀ e ∈ c.returned, e.generation ≠ system.ring.generation :=
    fun c hc hcurrent => (h.known c hc).fresh (Bool.eq_false_iff.mpr hcurrent)
  refine ⟨settles system,fun hidle => ?_,fun hlive c hc e he heq => ?_,fun hlive c hc => ?_,
    fun hidle hready index c maxEvents hc hstage hmax hroom =>
      h.drains hidle hc hstage hready hmax hroom⟩
  · have hring := h.ring (by rw [hidle]; rfl)
    rw [hidle] at hring
    exact hring.writing
  · by_cases hcurrent : c.current system.ring = true
    · obtain ⟨hpos,-,hp⟩ := (h.consumers hlive c hc hcurrent).returned e he heq
      exact ⟨hpos,hp⟩
    · exact absurd heq (hfresh c hc hcurrent e he)
  · by_cases hcurrent : c.current system.ring = true
    · exact (h.consumers hlive c hc hcurrent).ordered
    · rw [filter_eq_nil_iff.mpr fun e he => by simpa using hfresh c hc hcurrent e he]
      exact .nil

end Runs

section Losses
variable {system : System} {c : Consumer} {ring ring' : Ring}

/-- An event of this life of the ring was published after the cursors were primed. -/
def Consumer.expects (ring : Ring) (c : Consumer) (s : ℕ) : Prop :=
  1 ≤ s ∧ (c.since.1 < ring.generation ∨ c.since.2 < s)

def Consumer.delivered (c : Consumer) : List (ℕ × ℕ) := c.returned.map fun e => (e.generation,e.seq)

def Accounted (ring : Ring) (c : Consumer) : Prop :=
  c.primed = true → c.current ring = true → ∀ s, c.expects ring s → s ≤ c.readSeq →
    (ring.generation,s) ∈ c.delivered ∨ s + ringCapacity ≤ ring.headSeq

theorem Accounted.later (h : Accounted ring c) (hgeneration : ring'.generation = ring.generation)
    (hle : ring.headSeq ≤ ring'.headSeq) : Accounted ring' c := by
  intro hp hcurrent s hs hread
  simp only [Consumer.expects,hgeneration] at hs ⊢
  exact (h hp (Consumer.current_congr hgeneration ▸ hcurrent) s hs hread).imp_right fun hlost => hlost.trans hle

theorem Accounted.primeDone (h : Accounted ring c)
    (hbehind : c.current ring = true → c.readSeq ≤ ring.headSeq) :
    Accounted ring (c.primeDone ring) := by
  intro _ hcurrent s hs hread
  have hopened : c.opened = true := (Bool.and_eq_true_iff.mp hcurrent).1
  have hle : c.readSeq ≤ ring.headSeq := hbehind hcurrent
  cases hp : c.primed with
  | true =>
    simp only [Consumer.primeDone,Consumer.expects,hp,hopened,Bool.and_self,if_true] at hs
    exact h hp hcurrent s hs hread
  | false =>
    simp only [Consumer.primeDone,Consumer.expects,hp,Bool.false_and,Bool.false_eq_true,if_false] at hs hread
    omega

theorem Accounted.miss (h : Accounted ring c)
    (hle : c.current ring = true → (ring.slot c.target).seq ≤ c.target) :
    Accounted ring (c.miss (ring.slot c.target).seq) := by
  intro hp hcurrent
  simp only [Consumer.miss,if_neg (Nat.not_lt.mpr (hle hcurrent))]
  exact h hp hcurrent

theorem Accounted.advance {writer : WriteStage} {published : List (List UInt8)} (h : Accounted ring c)
    (hring : RingState ring writer published) (hknown : Known ring c)
    (hstate : c.current ring = true → ConsumerState ring published c)
    (hopening : ∀ g, c.stage = .opening g → c.primed = true → ring.headSeq ≤ 1)
    (hseq : c.stage = .loadingSeq → c.current ring = true → (ring.slot c.target).seq ≤ c.target)
    (hcopying : ∀ len bytes, c.stage = .copying len bytes → ¬ bytes.length < len → c.current ring = true →
      (ring.slot c.target).seq ≤ c.target) : Accounted ring (c.advance ring) := by
  cases hstage : c.stage with
  | idle =>
    simp only [Consumer.advance,hstage]
    exact h
  | primingGeneration =>
    simp only [Consumer.advance,hstage]
    split_ifs
    · exact h.primeDone fun hcurrent => (hstate hcurrent).behind
    · exact h
  | priming g =>
    have hfits := hknown.fits
    rw [hstage] at hfits
    intro _ _ s hs hread
    simp only [Consumer.advance,hstage,Consumer.primeDone,Consumer.expects,hfits.2,Bool.and_false,
      Bool.false_eq_true,if_false] at hs hread
    omega
  | loadingGeneration =>
    simp only [Consumer.advance,hstage]
    exact h
  | opening g =>
    intro hp _ s hs hread
    simp only [Consumer.advance,hstage,Consumer.expects,initialReadSeq] at hp hs hread
    have hhead := hopening g hstage hp
    rw [if_pos hp] at hread
    omega
  | loadingHead =>
    intro hp hcurrent s hs hread
    rw [Consumer.current_advance (by simp [hstage]) (by simp [hstage])] at hcurrent
    have hbehind := (hstate hcurrent).behind
    simp only [Consumer.advance,hstage,hring.caughtUp hbehind] at hp hs hread ⊢
    by_cases hpast : s ≤ c.readSeq
    · split_ifs at hp hs ⊢ <;> exact h hp hcurrent s hs hpast
    · split_ifs at hread ⊢
      · exact absurd hread hpast
      · exact .inr (by simp only at hread; omega)
  | loadingSeq =>
    simp only [Consumer.advance,hstage]
    split_ifs
    · exact h
    · exact h.miss (hseq hstage)
  | loadingLen =>
    simp only [Consumer.advance,hstage]
    split_ifs with hbad
    · intro hp hcurrent
      have hlt := (hstate hcurrent).reading (by rw [hstage]; rfl)
      have hlen := hring.lens (c.readSeq + 1) (by omega) (hlt.trans_le hring.committed_le.2.1)
      rw [← hring.target hlt] at hlen
      simp only [Bool.or_eq_true,decide_eq_true_eq] at hbad
      omega
    · exact h
  | copying len bytes =>
    simp only [Consumer.advance,hstage]
    by_cases hmore : bytes.length < len
    · rw [if_pos hmore]
      exact h
    rw [if_neg hmore]
    by_cases hsame : (ring.slot c.target).seq = c.target
    · rw [if_pos hsame]
      intro hp hcurrent s hs hread
      have hlt := (hstate hcurrent).reading (by rw [hstage]; rfl)
      have hgeneration : c.generation = _ := Consumer.generation_of_current hcurrent
      simp only [hring.target hlt,Consumer.delivered,map_append,mem_append] at hread ⊢
      by_cases hlast : s = c.readSeq + 1
      · exact .inl (.inr (by simp [hlast,hgeneration]))
      · exact (h hp hcurrent s hs (by omega)).imp_left .inl
    · rw [if_neg hsame]
      exact h.miss (hcopying len bytes hstage hmore)

end Losses
end BuckyOS.KEvent
