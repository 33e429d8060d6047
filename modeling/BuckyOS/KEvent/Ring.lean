import BuckyOS.Lib.Machine
import BuckyOS.Lib.Pool

/-! The shared ring of events: a producer that overwrites the oldest slot and consumers that read without
a lock, in one life of the ring after another. Each load, store and copy of a byte is one step. A producer
stops before its sequence numbers wrap around. -/
namespace BuckyOS.KEvent
open List Pool

section Model
def ringCapacity : ℕ := 512

def slotDataSize : ℕ := 2048

structure Slot where
  seq : ℕ := 0
  len : ℕ := 0
  payload : ℕ → UInt8 := fun _ => 0

/-- A ring with the state and the generation of its directory entry. -/
structure Ring where
  ready : Bool := false
  generation : ℕ := 0
  headSeq : ℕ := 0
  slots : ℕ → Slot := fun _ => {}

variable (ring : Ring)

def Ring.slot (seq : ℕ) : Slot := ring.slots (seq % ringCapacity)

def Ring.store (seq : ℕ) (slot : Slot) : Ring :=
  {ring with slots := Function.update ring.slots (seq % ringCapacity) slot}

def wrappingSub (a b : ℕ) : ℕ := (a + 2 ^ 64 - b) % 2 ^ 64

/-- The next access of a producer, or of the handle that activates the ring. -/
inductive WriteStage
  | idle
  | resetting (stores : ℕ)
  | readying
  | loading (payload : List UInt8)
  | invalidating (seq : ℕ) (payload : List UInt8)
  | copying (seq : ℕ) (payload : List UInt8) (copied : ℕ)
  | committing (seq : ℕ)
  | advancing (seq : ℕ)

def Ring.reset : ℕ → Ring
  | 0 => {ring with headSeq := 0}
  | n + 1 =>
    if n % 2 = 0 then ring.store (n / 2) {ring.slot (n / 2) with seq := 0}
    else ring.store (n / 2) {ring.slot (n / 2) with len := 0}

def WriteStage.advance : WriteStage → WriteStage × Ring
  | idle => (idle,ring)
  | resetting stores =>
    if stores ≤ 2 * ringCapacity then (resetting (stores + 1),ring.reset stores)
    else (readying,{ring with generation := ring.generation + 1})
  | readying => (idle,{ring with ready := true})
  | loading payload => (invalidating (ring.headSeq + 1) payload,ring)
  | invalidating seq payload => (copying seq payload 0,ring.store seq {ring.slot seq with seq := 0})
  | copying seq payload copied =>
    if copied < payload.length then
      (copying seq payload (copied + 1),ring.store seq {ring.slot seq with
        payload := Function.update (ring.slot seq).payload copied (payload.getD copied 0)})
    else (committing seq,ring.store seq {ring.slot seq with len := payload.length})
  | committing seq => (advancing seq,ring.store seq {ring.slot seq with seq := seq})
  | advancing seq => (idle,{ring with headSeq := seq})

inductive ReadStage
  | idle | primingGeneration
  | priming (generation : ℕ)
  | loadingGeneration
  | opening (generation : ℕ)
  | loadingHead | loadingSeq | loadingLen
  | copying (len : ℕ) (bytes : List UInt8)
  deriving DecidableEq

/-- An event that a drain has returned, with the generation and the number its cursor then had. -/
structure Delivery where
  generation : ℕ
  seq : ℕ
  payload : List UInt8
  deriving DecidableEq

/-- A consumer with its cursor, the events it still takes in this drain, all it has returned, and the
generation and the head of the ring when its cursors were primed. -/
structure Consumer where
  opened : Bool := false
  generation : ℕ := 0
  readSeq : ℕ := 0
  primed : Bool := false
  since : ℕ × ℕ := (0,0)
  stage : ReadStage := .idle
  room : ℕ := 0
  returned : List Delivery := []
  deriving DecidableEq

def initialReadSeq (headSeq : ℕ) (primedExistingRings : Bool) : ℕ :=
  if primedExistingRings then headSeq - 1 else headSeq

namespace Consumer
variable (ring : Ring) (c : Consumer)

def current : Bool := c.opened && c.generation = ring.generation

def target : ℕ := (c.readSeq + 1) % 2 ^ 64

/-- The slot of the next event is not the one expected: the cursor jumps if it is newer. -/
def miss (seq : ℕ) : Consumer :=
  {c with
    readSeq := if seq > c.target then seq - 1 else c.readSeq
    stage := .idle}

def primeDone : Consumer :=
  {c with
    primed := true
    since := if c.primed && c.opened then c.since else (ring.generation,ring.headSeq)
    stage := .idle}

def advance : Consumer :=
  let slot := ring.slot c.target
  match c.stage with
  | .idle => c
  | .primingGeneration =>
    if c.opened then c.primeDone ring else {c with stage := .priming ring.generation}
  | .priming generation =>
    {c.primeDone ring with opened := true, generation := generation, readSeq := ring.headSeq}
  | .loadingGeneration =>
    {c with stage := if c.current ring then .loadingHead else .opening ring.generation}
  | .opening generation =>
    {c with
      opened := true
      generation := generation
      readSeq := initialReadSeq ring.headSeq c.primed
      stage := .loadingHead}
  | .loadingHead =>
    if c.readSeq = ring.headSeq then {c with stage := .idle}
    else {c with
      readSeq := if wrappingSub ring.headSeq c.readSeq > ringCapacity
        then wrappingSub ring.headSeq ringCapacity else c.readSeq
      stage := .loadingSeq}
  | .loadingSeq =>
    if slot.seq = c.target then {c with stage := .loadingLen}
    else c.miss slot.seq
  | .loadingLen =>
    if slot.len = 0 || slot.len > slotDataSize then
      {c with readSeq := c.target, stage := .idle}
    else {c with stage := .copying slot.len []}
  | .copying len bytes =>
    if bytes.length < len then
      {c with stage := .copying len (bytes ++ [slot.payload bytes.length])}
    else if slot.seq = c.target then {c with
      readSeq := c.target
      returned := c.returned ++ [⟨c.generation,c.target,bytes⟩]
      room := c.room - 1
      stage := if c.room ≤ 1 then .idle else .loadingHead}
    else c.miss slot.seq

end Consumer

/-- A ring with its producer, what has been published in its present life, and its consumers. -/
structure System where
  ring : Ring := {}
  writer : WriteStage := .idle
  published : List (List UInt8) := []
  consumers : List Consumer

inductive Input
  | activate
  | publish (payload : List UInt8)
  | produce
  | prime (index : ℕ)
  | drain (index maxEvents : ℕ)
  | consume (index : ℕ)

variable (system : System)

def System.accepts (payload : List UInt8) : Bool :=
  system.ring.ready && 0 < payload.length && payload.length ≤ slotDataSize &&
    system.published.length + 1 < 2 ^ 64

def System.move (index : ℕ) (f : Consumer → Consumer) : System :=
  {system with consumers := system.consumers.modify index f}

/-- One access of a call, or the begin of a call of a handle that is not busy. A handle activates the ring
when no other owns it, wherever the last owner has stopped. -/
def System.step : Input → Unit × System
  | .activate =>
    ((),{system with
      ring := {system.ring with ready := false}, writer := .resetting 0, published := []})
  | .publish payload =>
    match system.writer with
    | .idle =>
      if system.accepts payload then
        ((),{system with writer := .loading payload, published := system.published ++ [payload]})
      else ((),system)
    | _ => ((),system)
  | .produce =>
    let next := system.writer.advance system.ring
    ((),{system with writer := next.1, ring := next.2})
  | .prime index =>
    ((),system.move index fun c =>
      if c.stage ≠ .idle then c
      else if system.ring.ready then {c with stage := .primingGeneration}
      else c.primeDone system.ring)
  | .drain index maxEvents =>
    ((),system.move index fun c =>
      if c.stage = .idle && system.ring.ready && 0 < maxEvents then
        {c with room := maxEvents, stage := .loadingGeneration}
      else c)
  | .consume index => ((),system.move index (Consumer.advance system.ring))

def System.after (inputs : List Input) : System :=
  (Machine.run System.step system inputs).2

end Model

section Writer
variable {ring ring' : Ring} {writer : WriteStage} {published published' : List (List UInt8)} {s t : ℕ}
variable {slot : Slot} {payload : List UInt8}

def Slot.Holds (slot : Slot) (payload : List UInt8) : Prop :=
  slot.len = payload.length ∧ ∀ j < payload.length, slot.payload j = payload.getD j 0

theorem Slot.Holds.take_succ (h : slot.Holds payload) {bytes : List UInt8}
    (hlt : bytes.length < payload.length) (hbytes : bytes = payload.take bytes.length) :
    bytes ++ [slot.payload bytes.length] = payload.take (bytes.length + 1) := by
  have hbyte : slot.payload bytes.length = payload[bytes.length] := by
    rw [h.2 _ hlt]
    simp [hlt]
  rw [hbyte,take_succ_eq_append_getElem hlt,← hbytes]

def WriteStage.committed (count : ℕ) : WriteStage → ℕ
  | idle | readying | advancing _ => count
  | _ => count - 1

def WriteStage.overwrites : WriteStage → Bool
  | copying _ _ _ | committing _ => true
  | _ => false

def Writing (ring : Ring) (published : List (List UInt8)) : WriteStage → Prop
  | .idle => ring.headSeq = published.length
  | .resetting _ => False
  | .readying => ring.headSeq = published.length
  | .loading payload =>
    ring.headSeq + 1 = published.length ∧ published[ring.headSeq]? = some payload
  | .invalidating seq payload => seq = published.length ∧ ring.headSeq + 1 = published.length ∧
    published[ring.headSeq]? = some payload
  | .copying seq payload copied => seq = published.length ∧ ring.headSeq + 1 = published.length ∧
    published[ring.headSeq]? = some payload ∧ (ring.slot seq).seq = 0 ∧
    ∀ j < copied, (ring.slot seq).payload j = payload.getD j 0
  | .committing seq => seq = published.length ∧ ring.headSeq + 1 = published.length ∧
    (ring.slot seq).seq = 0 ∧
    ∃ payload, published[ring.headSeq]? = some payload ∧ (ring.slot seq).Holds payload
  | .advancing seq => seq = published.length ∧ ring.headSeq + 1 = published.length

/-- What holds of the ring and its producer throughout a life of the ring. -/
structure RingState (ring : Ring) (writer : WriteStage) (published : List (List UInt8)) : Prop where
  bounded : published.length < 2 ^ 64
  sizes : ∀ payload ∈ published, 0 < payload.length ∧ payload.length ≤ slotDataSize
  writing : Writing ring published writer
  held : ∀ s, 1 ≤ s → (ring.slot s).seq = s → s ≤ writer.committed published.length ∧
    ∃ payload, published[s - 1]? = some payload ∧ (ring.slot s).Holds payload
  placed : ∀ s, (ring.slot s).seq ≠ 0 → (ring.slot s).seq % ringCapacity = s % ringCapacity
  recent : ∀ s, 1 ≤ s → s ≤ writer.committed published.length →
    writer.committed published.length < s + ringCapacity →
    (writer.overwrites = true → s + ringCapacity ≠ published.length) → (ring.slot s).seq = s
  lens : ∀ s, 1 ≤ s → s ≤ writer.committed published.length →
    0 < (ring.slot s).len ∧ (ring.slot s).len ≤ slotDataSize

theorem Ring.slot_store (ring : Ring) (s t : ℕ) (slot : Slot) :
    (ring.store s slot).slot t = if t % ringCapacity = s % ringCapacity then slot else ring.slot t := by
  simp only [Ring.slot,Ring.store,Function.update_apply]

@[simp] theorem Ring.slot_store_self (ring : Ring) (s : ℕ) (slot : Slot) :
    (ring.store s slot).slot s = slot := by
  rw [Ring.slot_store,if_pos rfl]

theorem Ring.slot_congr (ring : Ring) (h : s % ringCapacity = t % ringCapacity) :
    ring.slot s = ring.slot t := by
  rw [Ring.slot,Ring.slot,h]

theorem RingState.scribble (h : RingState ring writer published) {writer' : WriteStage}
    (hcount : 0 < published.length) (hold : writer.committed published.length = published.length - 1)
    (hnew : writer'.committed published.length = published.length - 1)
    (hoverwrites : writer'.overwrites = true) (hseq : slot.seq = 0)
    (hlen : ∀ s, 1 ≤ s → s ≤ published.length - 1 → s % ringCapacity = published.length % ringCapacity →
      0 < slot.len ∧ slot.len ≤ slotDataSize)
    (hwriting : Writing (ring.store published.length slot) published writer') :
    RingState (ring.store published.length slot) writer' published := by
  refine ⟨h.bounded,h.sizes,hwriting,fun s hs hseqs => ?_,fun s hne => ?_,fun s hs hle hlt hother => ?_,
    fun s hs hle => ?_⟩
  · rw [Ring.slot_store] at hseqs ⊢
    split_ifs at hseqs ⊢ with heq
    · omega
    · rw [hnew,← hold]
      exact h.held s hs hseqs
  · rw [Ring.slot_store] at hne ⊢
    split_ifs at hne ⊢ with heq
    · exact absurd hseq hne
    · exact h.placed s hne
  · rw [hnew] at hle hlt
    have hne : s % ringCapacity ≠ published.length % ringCapacity := by
      have := hother hoverwrites
      simp only [ringCapacity] at *
      omega
    rw [Ring.slot_store,if_neg hne]
    exact h.recent s hs (by omega) (by omega) (fun _ => hother hoverwrites)
  · rw [hnew] at hle
    rw [Ring.slot_store]
    split_ifs with heq
    · exact hlen s hs hle heq
    · exact h.lens s hs (by omega)

open WriteStage (committed)

theorem RingState.commit (h : RingState ring (.committing s) published) :
    RingState (ring.store s {ring.slot s with seq := s}) (.advancing s) published := by
  obtain ⟨rfl,hhead,hseq,payload,hpayload,hholds⟩ := h.writing
  have hsize := h.sizes payload (mem_of_getElem? hpayload)
  have hold : committed published.length (.committing published.length) = published.length - 1 := rfl
  have hpublished : published[published.length - 1]? = some payload := by
    rw [← hpayload]
    congr 1
    omega
  refine ⟨h.bounded,h.sizes,⟨rfl,hhead⟩,fun t ht hseqt => ?_,fun t hne => ?_,fun t ht hle hlt _ => ?_,
    fun t ht hle => ?_⟩
  · rw [Ring.slot_store] at hseqt ⊢
    split_ifs at hseqt ⊢ with heq
    · simp only at hseqt
      subst hseqt
      exact ⟨le_refl _,payload,hpublished,hholds⟩
    · obtain ⟨hle,hrest⟩ := h.held t ht hseqt
      exact ⟨hle.trans (by rw [hold]; exact Nat.sub_le _ _),hrest⟩
  · rw [Ring.slot_store] at hne ⊢
    split_ifs at hne ⊢ with heq
    · exact heq.symm
    · exact h.placed t hne
  · simp only [committed] at hle hlt
    by_cases heq : t = published.length
    · rw [heq,Ring.slot_store_self]
    · have hne : t % ringCapacity ≠ published.length % ringCapacity := by
        simp only [ringCapacity] at *
        omega
      rw [Ring.slot_store,if_neg hne]
      exact h.recent t ht (by rw [hold]; omega) (by rw [hold]; omega) (fun _ => by omega)
  · simp only [committed] at hle
    rw [Ring.slot_store]
    split_ifs with heq
    · exact ⟨by rw [hholds.1]; exact hsize.1,by rw [hholds.1]; exact hsize.2⟩
    · have hne : t ≠ published.length := fun hteq => heq (by rw [hteq])
      exact h.lens t ht (by rw [hold]; omega)

theorem RingState.advance (h : RingState ring writer published) :
    RingState (writer.advance ring).2 (writer.advance ring).1 published := by
  cases writer with
  | idle => exact h
  | resetting stores => exact h.writing.elim
  | readying => exact ⟨h.bounded,h.sizes,h.writing,h.held,h.placed,h.recent,h.lens⟩
  | loading payload =>
    obtain ⟨hhead,hpayload⟩ := h.writing
    exact ⟨h.bounded,h.sizes,⟨hhead,hhead,hpayload⟩,h.held,h.placed,h.recent,h.lens⟩
  | invalidating seq payload =>
    obtain ⟨rfl,hhead,hpayload⟩ := h.writing
    refine h.scribble (by omega) rfl rfl rfl rfl (fun s hs hle heq => ?_) ?_
    · rw [← Ring.slot_congr ring heq]
      exact h.lens s hs hle
    · exact ⟨rfl,hhead,hpayload,by simp,fun j hj => absurd hj (Nat.not_lt_zero j)⟩
  | copying seq payload copied =>
    obtain ⟨rfl,hhead,hpayload,hseq,hbytes⟩ := h.writing
    simp only [WriteStage.advance]
    split_ifs with hmore
    · refine h.scribble (by omega) rfl rfl rfl hseq (fun s hs hle heq => ?_) ?_
      · rw [← Ring.slot_congr ring heq]
        exact h.lens s hs hle
      · refine ⟨rfl,hhead,hpayload,by simpa using hseq,fun j hj => ?_⟩
        rw [Ring.slot_store_self]
        by_cases hjc : j = copied
        · simp [hjc]
        · simpa [Function.update_of_ne hjc] using hbytes j (by omega)
    · have hsize := h.sizes payload (mem_of_getElem? hpayload)
      refine h.scribble (by omega) rfl rfl rfl hseq (fun _ _ _ _ => hsize) ?_
      refine ⟨rfl,hhead,by simpa using hseq,payload,hpayload,by simp,fun j hj => ?_⟩
      rw [Ring.slot_store_self]
      exact hbytes j (by omega)
  | committing seq => exact h.commit
  | advancing seq =>
    obtain ⟨rfl,hhead⟩ := h.writing
    exact ⟨h.bounded,h.sizes,rfl,h.held,h.placed,fun s hs hle hlt _ => h.recent s hs hle hlt (fun ho => nomatch ho),
      h.lens⟩

theorem RingState.publish (h : RingState ring .idle published)
    (hsize : 0 < payload.length ∧ payload.length ≤ slotDataSize)
    (hroom : published.length + 1 < 2 ^ 64) :
    RingState ring (.loading payload) (published ++ [payload]) := by
  have hcount : committed (published ++ [payload]).length (.loading payload) =
      published.length := by simp [committed]
  have hhead : ring.headSeq = published.length := h.writing
  refine ⟨by simpa using hroom,forall_mem_concat h.sizes hsize,⟨by simp [hhead],by simp [hhead]⟩,fun s hs hseq => ?_,
    h.placed,fun s hs hle hlt _ => ?_,fun s hs hle => ?_⟩
  · obtain ⟨hle,p,hp,hholds⟩ := h.held s hs hseq
    refine ⟨hcount ▸ hle,p,?_,hholds⟩
    rw [List.getElem?_append_left (List.getElem?_eq_some_iff.mp hp).1,hp]
  · rw [hcount] at hle hlt
    exact h.recent s hs hle hlt (fun ho => nomatch ho)
  · rw [hcount] at hle
    exact h.lens s hs hle

/-- What a step of the producer means to a consumer. -/
structure Later (ring ring' : Ring) (published published' : List (List UInt8)) : Prop where
  generation : ring'.generation = ring.generation
  head : ring.headSeq ≤ ring'.headSeq
  published : ∀ (i : ℕ) (payload : List UInt8), published[i]? = some payload →
    published'[i]? = some payload
  slot : ∀ s, 1 ≤ s → s ≤ ring.headSeq → (ring'.slot s).seq = s → ring'.slot s = ring.slot s

theorem RingState.later (h : RingState ring writer published) :
    Later ring (writer.advance ring).2 published published := by
  have hwrite : ∀ (slot' : Slot) (n : ℕ), (slot'.seq = 0 ∨ ring.headSeq < slot'.seq) →
      Later ring (ring.store n slot') published published := by
    intro slot' n hseq
    refine ⟨rfl,le_refl _,fun _ _ hp => hp,fun s hs hle hslot => ?_⟩
    rw [Ring.slot_store] at hslot ⊢
    split_ifs at hslot ⊢ with heq
    · omega
    · rfl
  have hsame : Later ring ring published published := ⟨rfl,le_refl _,fun _ _ hp => hp,fun _ _ _ _ => rfl⟩
  cases writer with
  | idle | loading payload => exact hsame
  | resetting stores => exact h.writing.elim
  | readying => exact ⟨rfl,le_refl _,fun _ _ hp => hp,fun _ _ _ _ => rfl⟩
  | invalidating seq payload => exact hwrite _ _ (.inl rfl)
  | copying seq payload copied =>
    have hseq := h.writing.2.2.2.1
    simp only [WriteStage.advance]
    split_ifs
    · exact hwrite _ _ (.inl hseq)
    · exact hwrite _ _ (.inl hseq)
  | committing seq =>
    obtain ⟨hn,hhead,-⟩ := h.writing
    exact hwrite _ _ (.inr (by simp only; omega))
  | advancing seq =>
    obtain ⟨hn,hhead⟩ := h.writing
    exact ⟨rfl,by simp only [WriteStage.advance]; omega,fun _ _ hp => hp,fun _ _ _ _ => rfl⟩

/-- How far an activation has come after so many stores. -/
structure Wiped (ring : Ring) (stores : ℕ) : Prop where
  head : 0 < stores → ring.headSeq = 0
  seqs : ∀ i < ringCapacity, 2 * i + 1 < stores → (ring.slots i).seq = 0

theorem Wiped.reset {stores : ℕ} (h : Wiped ring stores) (hle : stores ≤ 2 * ringCapacity) :
    Wiped (ring.reset stores) (stores + 1) := by
  cases stores with
  | zero => exact ⟨fun _ => rfl,fun i _ hi => by omega⟩
  | succ n =>
    have hplace : n / 2 % ringCapacity = n / 2 := Nat.mod_eq_of_lt (by omega)
    simp only [Ring.reset]
    split_ifs with heven <;> refine ⟨fun _ => h.head (Nat.succ_pos n),fun i hi hlt => ?_⟩ <;>
      simp only [Ring.store,Ring.slot,hplace,Function.update_apply] <;> split_ifs with hin
    · rfl
    · exact h.seqs i hi (by omega)
    · exact hin ▸ h.seqs i hi (by omega)
    · exact h.seqs i hi (by omega)

theorem ringState_of_wiped (hhead : ring.headSeq = 0) (hseqs : ∀ s, (ring.slot s).seq = 0) :
    RingState ring .readying [] := by
  refine ⟨by simp,by simp,hhead,fun s hs hseq => ?_,fun s hne => absurd (hseqs s) hne,fun s hs hle => ?_,
    fun s hs hle => ?_⟩
  · rw [hseqs] at hseq
    omega
  · simp only [WriteStage.committed,length_nil] at hle
    omega
  · simp only [WriteStage.committed,length_nil] at hle
    omega

theorem Wiped.ringState {stores : ℕ} (h : Wiped ring stores) (hlt : 2 * ringCapacity < stores) :
    RingState {ring with generation := ring.generation + 1} .readying [] := by
  refine ringState_of_wiped (h.head (by omega)) fun s => ?_
  have hs : s % ringCapacity < ringCapacity := Nat.mod_lt s (by decide)
  exact h.seqs _ hs (by omega)

end Writer

section Reader
variable {ring ring' : Ring} {writer : WriteStage} {published published' : List (List UInt8)}
variable {c : Consumer}

def ReadStage.reads : ReadStage → Bool
  | loadingSeq | loadingLen | copying _ _ => true
  | _ => false

/-- What the stage of a consumer says of its cursor. -/
def ReadStage.Fits (ring : Ring) (c : Consumer) : ReadStage → Prop
  | idle | primingGeneration | loadingGeneration => True
  | priming g => g ≤ ring.generation ∧ c.opened = false
  | opening g => g ≤ ring.generation ∧ c.current ring = false
  | _ => c.opened = true

/-- What holds of a consumer in every life of the ring: nothing it has comes from a later one, and a cursor
that is not of this one has returned nothing in it. -/
structure Known (ring : Ring) (c : Consumer) : Prop where
  generation : c.generation ≤ ring.generation
  since : c.since.1 ≤ ring.generation
  labels : ∀ e ∈ c.returned, e.generation ≤ ring.generation
  fresh : c.current ring = false → ∀ e ∈ c.returned, e.generation ≠ ring.generation
  fits : c.stage.Fits ring c

theorem Consumer.current_eq_false :
    c.current ring = false ↔ c.opened = true → c.generation ≠ ring.generation := by
  simp [Consumer.current]

theorem Consumer.current_congr (h : ring'.generation = ring.generation) :
    c.current ring' = c.current ring := by
  simp only [Consumer.current,h]

theorem Known.congr (h : Known ring c) (hgeneration : ring'.generation = ring.generation) :
    Known ring' c := by
  have hcurrent : c.current ring' = c.current ring := Consumer.current_congr hgeneration
  have hfits : c.stage.Fits ring' c ↔ c.stage.Fits ring c := by
    unfold ReadStage.Fits
    rw [hcurrent,hgeneration]
  exact ⟨hgeneration ▸ h.generation,hgeneration ▸ h.since,hgeneration ▸ h.labels,
    by rw [hcurrent,hgeneration]; exact h.fresh,hfits.mpr h.fits⟩

theorem Known.reborn (h : Known ring c) : Known {ring with generation := ring.generation + 1} c ∧
    c.current {ring with generation := ring.generation + 1} = false := by
  have hle := Nat.le_succ ring.generation
  have hcurrent : c.current {ring with generation := ring.generation + 1} = false :=
    Consumer.current_eq_false.mpr fun _ => (Nat.lt_succ_of_le h.generation).ne
  have hfits := h.fits
  refine ⟨⟨h.generation.trans hle,h.since.trans hle,fun e he => (h.labels e he).trans hle,
    fun _ e he => (Nat.lt_succ_of_le (h.labels e he)).ne,?_⟩,hcurrent⟩
  cases hstage : c.stage <;> rw [hstage] at hfits
  case priming g => exact ⟨hfits.1.trans hle,hfits.2⟩
  case opening g => exact ⟨hfits.1.trans hle,hcurrent⟩
  all_goals exact hfits

theorem Known.move (h : Known ring c) {stage : ReadStage} {seq room : ℕ} (hfits : stage.Fits ring c) :
    Known ring {c with readSeq := seq, room := room, stage := stage} := by
  refine ⟨h.generation,h.since,h.labels,h.fresh,?_⟩
  cases stage <;> exact hfits

theorem Known.primeDone (h : Known ring c) : Known ring (c.primeDone ring) := by
  refine ⟨h.generation,?_,h.labels,h.fresh,trivial⟩
  simp only [Consumer.primeDone]
  split_ifs
  · exact h.since
  · exact le_refl _

theorem Known.reopen (h : Known ring c) (hcurrent : c.current ring = false) {c' : Consumer}
    (hgeneration : c'.generation ≤ ring.generation) (hsince : c'.since.1 ≤ ring.generation)
    (hreturned : c'.returned = c.returned) (hfits : c'.stage.Fits ring c') : Known ring c' :=
  ⟨hgeneration,hsince,hreturned ▸ h.labels,fun _ => hreturned ▸ h.fresh hcurrent,hfits⟩

theorem Consumer.current_of_unopened (h : c.opened = false) : c.current ring = false := by
  simp [Consumer.current,h]

theorem Known.advance (h : Known ring c) : Known ring (c.advance ring) := by
  have hfits := h.fits
  unfold Consumer.advance
  cases hstage : c.stage <;> rw [hstage] at hfits <;> simp only
  case idle => exact h
  case primingGeneration =>
    split_ifs with hopened
    · exact h.primeDone
    · exact h.move ⟨le_refl _,Bool.eq_false_iff.mpr hopened⟩
  case priming g =>
    exact h.reopen (Consumer.current_of_unopened hfits.2) hfits.1 h.primeDone.since rfl trivial
  case loadingGeneration =>
    split_ifs with hcurrent
    · exact h.move (Bool.and_eq_true_iff.mp hcurrent).1
    · exact h.move ⟨le_refl _,Bool.eq_false_iff.mpr hcurrent⟩
  case opening g => exact h.reopen hfits.2 hfits.1 h.since rfl rfl
  case loadingHead =>
    split_ifs
    · exact h.move trivial
    all_goals exact h.move hfits
  case loadingSeq =>
    split_ifs
    · exact h.move hfits
    · exact h.move trivial
  case loadingLen =>
    split_ifs
    · exact h.move trivial
    · exact h.move hfits
  case copying len bytes =>
    by_cases hmore : bytes.length < len
    · rw [if_pos hmore]
      exact h.move hfits
    rw [if_neg hmore]
    by_cases hsame : (ring.slot c.target).seq = c.target
    · rw [if_pos hsame]
      refine ⟨h.generation,h.since,forall_mem_concat h.labels h.generation,fun hcurrent => ?_,?_⟩
      · exact forall_mem_concat (h.fresh hcurrent) (Consumer.current_eq_false.mp hcurrent hfits)
      · split_ifs
        · trivial
        · exact hfits
    · rw [if_neg hsame]
      exact h.move trivial

/-- What holds of a consumer whose cursor belongs to this life of the ring. -/
structure ConsumerState (ring : Ring) (published : List (List UInt8)) (c : Consumer) : Prop where
  behind : c.readSeq ≤ ring.headSeq
  reading : c.stage.reads = true → c.readSeq < ring.headSeq
  copying : ∀ len bytes, c.stage = .copying len bytes →
    (ring.slot (c.readSeq + 1)).seq = c.readSeq + 1 →
    ∃ payload, published[c.readSeq]? = some payload ∧ len = payload.length ∧
      bytes = payload.take bytes.length
  returned : ∀ e ∈ c.returned, e.generation = ring.generation → 1 ≤ e.seq ∧ e.seq ≤ c.readSeq ∧
    published[e.seq - 1]? = some e.payload
  ordered : ((c.returned.filter (·.generation = ring.generation)).map Delivery.seq).Pairwise (· < ·)

theorem ConsumerState.later (h : ConsumerState ring published c)
    (hlater : Later ring ring' published published') : ConsumerState ring' published' c := by
  refine ⟨h.behind.trans hlater.head,fun hr => (h.reading hr).trans_le hlater.head,
    fun len bytes hstage hseq => ?_,fun e he hgeneration => ?_,hlater.generation ▸ h.ordered⟩
  · have hlt : c.readSeq < ring.headSeq := h.reading (by rw [hstage]; rfl)
    have hslot := hlater.slot (c.readSeq + 1) (by omega) hlt hseq
    rw [hslot] at hseq
    obtain ⟨payload,hp,hlen,hbytes⟩ := h.copying len bytes hstage hseq
    exact ⟨payload,hlater.published _ _ hp,hlen,hbytes⟩
  · obtain ⟨hpos,hle,hp⟩ := h.returned e he (hgeneration.trans hlater.generation)
    exact ⟨hpos,hle,hlater.published _ _ hp⟩

theorem ConsumerState.move (h : ConsumerState ring published c) {c' : Consumer}
    (hreturned : c'.returned = c.returned) (hle : c.readSeq ≤ c'.readSeq) (hseq : c'.readSeq ≤ ring.headSeq)
    (hreads : c'.stage.reads = true → c'.readSeq < ring.headSeq)
    (hcopying : ∀ len bytes, c'.stage ≠ .copying len bytes) : ConsumerState ring published c' := by
  refine ⟨hseq,hreads,fun len bytes hstage => absurd hstage (hcopying len bytes),
    fun e he hgeneration => ?_,hreturned ▸ h.ordered⟩
  obtain ⟨hpos,hle',hp⟩ := h.returned e (hreturned ▸ he) hgeneration
  exact ⟨hpos,hle'.trans hle,hp⟩

theorem ConsumerState.rest (h : ConsumerState ring published c) {c' : Consumer}
    (hreturned : c'.returned = c.returned) (hle : c.readSeq ≤ c'.readSeq) (hseq : c'.readSeq ≤ ring.headSeq)
    (hstage : c'.stage.reads = false) : ConsumerState ring published c' :=
  h.move hreturned hle hseq (fun hr => absurd hr (by simp [hstage])) fun len bytes hs => by
    rw [hs] at hstage
    cases hstage

theorem ConsumerState.stay (h : ConsumerState ring published c) {c' : Consumer}
    (hreturned : c'.returned = c.returned) (hread : c'.readSeq = c.readSeq)
    (hstage : c'.stage.reads = false) : ConsumerState ring published c' :=
  h.rest hreturned hread.ge (hread ▸ h.behind) hstage

theorem ConsumerState.of_fresh (hfresh : ∀ e ∈ c.returned, e.generation ≠ ring.generation)
    (hbehind : c.readSeq ≤ ring.headSeq) (hstage : c.stage.reads = false) :
    ConsumerState ring published c := by
  refine ⟨hbehind,fun hr => absurd hr (by simp [hstage]),fun len bytes hs => ?_,
    fun e he heq => absurd heq (hfresh e he),?_⟩
  · rw [hs] at hstage
    cases hstage
  · rw [filter_eq_nil_iff.mpr fun e he => by simpa using hfresh e he]
    exact .nil

theorem RingState.committed_le (hring : RingState ring writer published) :
    writer.committed published.length ≤ ring.headSeq + 1 ∧
      ring.headSeq ≤ writer.committed published.length ∧ ring.headSeq ≤ published.length := by
  have hw := hring.writing
  cases writer <;> simp only [Writing,WriteStage.committed] at hw ⊢ <;> omega

theorem RingState.target (hring : RingState ring writer published) (hlt : c.readSeq < ring.headSeq) :
    c.target = c.readSeq + 1 := by
  have hle := hring.committed_le.2.2
  have hbounded := hring.bounded
  exact Nat.mod_eq_of_lt (by omega)

theorem RingState.wrappingSub (hring : RingState ring writer published) {seq : ℕ} (hle : seq ≤ ring.headSeq) :
    wrappingSub ring.headSeq seq = ring.headSeq - seq := by
  have hhead := hring.committed_le.2.2
  have hbounded := hring.bounded
  unfold KEvent.wrappingSub
  omega

theorem RingState.caughtUp (hring : RingState ring writer published) (hle : c.readSeq ≤ ring.headSeq) :
    (if KEvent.wrappingSub ring.headSeq c.readSeq > ringCapacity
      then KEvent.wrappingSub ring.headSeq ringCapacity else c.readSeq) =
      max c.readSeq (ring.headSeq - ringCapacity) := by
  rw [hring.wrappingSub hle]
  split_ifs with hfar
  · rw [hring.wrappingSub (by omega)]
    omega
  · omega

theorem ConsumerState.miss (h : ConsumerState ring published c)
    (hring : RingState ring writer published) (hlt : c.readSeq < ring.headSeq) :
    ConsumerState ring published (c.miss (ring.slot (c.readSeq + 1)).seq) := by
  refine h.rest rfl ?_ ?_ rfl <;> simp only [Consumer.miss,hring.target hlt]
  · split_ifs <;> omega
  · split_ifs with hgt
    · have hne : (ring.slot (c.readSeq + 1)).seq ≠ 0 := by omega
      have hslot := Ring.slot_congr ring (hring.placed (c.readSeq + 1) hne)
      have hle := (hring.held _ (Nat.pos_of_ne_zero hne) (by rw [hslot])).1
      have := hring.committed_le
      omega
    · exact h.behind

def Consumer.taken (c : Consumer) (payload : List UInt8) : Consumer :=
  {c with
    readSeq := c.readSeq + 1
    returned := c.returned ++ [⟨c.generation,c.readSeq + 1,payload⟩]
    room := c.room - 1
    stage := if c.room ≤ 1 then .idle else .loadingHead}

theorem Consumer.generation_of_current (h : c.current ring = true) : c.generation = ring.generation := by
  simpa using (Bool.and_eq_true_iff.mp h).2

theorem ConsumerState.take (h : ConsumerState ring published c) (hcurrent : c.current ring = true)
    (hlt : c.readSeq < ring.headSeq) {payload : List UInt8} (hp : published[c.readSeq]? = some payload) :
    ConsumerState ring published (c.taken payload) := by
  have hgeneration := Consumer.generation_of_current hcurrent
  refine ⟨hlt,fun hr => ?_,fun len bytes hs => ?_,?_,?_⟩
  · simp only [Consumer.taken] at hr
    split_ifs at hr <;> cases hr
  · simp only [Consumer.taken] at hs
    split_ifs at hs
  · refine forall_mem_concat (fun e he heq => ?_) fun _ => ⟨Nat.le_add_left _ _,le_refl _,hp⟩
    obtain ⟨hpos,hle,hpub⟩ := h.returned e he heq
    exact ⟨hpos,hle.trans (Nat.le_succ _),hpub⟩
  · rw [Consumer.taken,filter_append,map_append,pairwise_append]
    refine ⟨h.ordered,by simp [hgeneration],fun a ha b hb => ?_⟩
    obtain ⟨e,he,rfl⟩ := mem_map.mp ha
    obtain ⟨hmem,heq⟩ := mem_filter.mp he
    obtain rfl : b = c.readSeq + 1 := by simpa [hgeneration] using hb
    exact Nat.lt_succ_of_le (h.returned e hmem (by simpa using heq)).2.1

theorem Consumer.current_advance (hopening : ∀ g, c.stage ≠ .opening g)
    (hpriming : ∀ g, c.stage ≠ .priming g) :
    (c.advance ring).current ring = c.current ring := by
  cases hstage : c.stage with
  | opening g => exact absurd hstage (hopening g)
  | priming g => exact absurd hstage (hpriming g)
  | _ =>
    simp only [Consumer.advance,hstage,Consumer.miss,Consumer.primeDone,Consumer.current]
    try split_ifs <;> rfl

theorem initialReadSeq_le (headSeq : ℕ) (primed : Bool) : initialReadSeq headSeq primed ≤ headSeq := by
  unfold initialReadSeq
  split_ifs <;> omega

theorem ConsumerState.advance (hknown : Known ring c)
    (h : c.current ring = true → ConsumerState ring published c)
    (hring : RingState ring writer published) (hcurrent : (c.advance ring).current ring = true) :
    ConsumerState ring published (c.advance ring) := by
  have hfits := hknown.fits
  have hkept : (∀ g, c.stage ≠ .opening g) → (∀ g, c.stage ≠ .priming g) → c.current ring = true :=
    fun hopening hpriming => Consumer.current_advance hopening hpriming ▸ hcurrent
  cases hstage : c.stage with
  | idle =>
    simp only [Consumer.advance,hstage] at hcurrent ⊢
    exact h hcurrent
  | primingGeneration =>
    simp only [Consumer.advance,hstage] at hcurrent ⊢
    split_ifs at hcurrent ⊢ with hopened
    · exact (h hcurrent).stay rfl rfl rfl
    · exact absurd (Bool.and_eq_true_iff.mp hcurrent).1 hopened
  | priming g =>
    rw [hstage] at hfits
    simp only [Consumer.advance,hstage]
    exact .of_fresh (hknown.fresh (Consumer.current_of_unopened hfits.2)) (le_refl _) rfl
  | loadingGeneration =>
    simp only [Consumer.advance,hstage] at hcurrent ⊢
    rw [if_pos (show c.current ring = true from hcurrent)]
    exact (h hcurrent).stay rfl rfl rfl
  | opening g =>
    rw [hstage] at hfits
    simp only [Consumer.advance,hstage]
    exact .of_fresh (hknown.fresh hfits.2) (initialReadSeq_le _ _) rfl
  | loadingHead =>
    have hstate := h (hkept (by simp [hstage]) (by simp [hstage]))
    have hbehind := hstate.behind
    simp only [Consumer.advance,hstage]
    split_ifs with hend hfar
    · exact hstate.stay rfl rfl rfl
    all_goals
      have hmax := hring.caughtUp hbehind
      simp only [hfar,if_true,if_false] at hmax
      have hpos : 0 < ringCapacity := by decide
      exact hstate.move rfl (by simp only; omega) (by simp only; omega) (fun _ => by simp only; omega) (by simp)
  | loadingSeq =>
    have hstate := h (hkept (by simp [hstage]) (by simp [hstage]))
    have hlt := hstate.reading (by rw [hstage]; rfl)
    simp only [Consumer.advance,hstage,hring.target hlt]
    split_ifs
    · exact hstate.move rfl (le_refl _) hlt.le (fun _ => hlt) (by simp)
    · exact hstate.miss hring hlt
  | loadingLen =>
    have hstate := h (hkept (by simp [hstage]) (by simp [hstage]))
    have hlt := hstate.reading (by rw [hstage]; rfl)
    simp only [Consumer.advance,hstage,hring.target hlt]
    split_ifs
    · exact hstate.rest rfl (Nat.le_succ _) hlt rfl
    · refine ⟨hstate.behind,fun _ => hlt,fun len bytes hs hseq => ?_,hstate.returned,hstate.ordered⟩
      obtain ⟨rfl,rfl⟩ := ReadStage.copying.inj hs
      obtain ⟨-,payload,hp,hholds⟩ := hring.held (c.readSeq + 1) (by omega) hseq
      exact ⟨payload,hp,hholds.1,by simp⟩
  | copying len bytes =>
    have hbefore := hkept (by simp [hstage]) (by simp [hstage])
    have hstate := h hbefore
    have hlt := hstate.reading (by rw [hstage]; rfl)
    simp only [Consumer.advance,hstage,hring.target hlt]
    by_cases hmore : bytes.length < len
    · rw [if_pos hmore]
      refine ⟨hstate.behind,fun _ => hlt,fun len' bytes' hs hseq => ?_,hstate.returned,hstate.ordered⟩
      obtain ⟨rfl,rfl⟩ := ReadStage.copying.inj hs
      obtain ⟨payload,hp,hlen,hbytes⟩ := hstate.copying len bytes hstage hseq
      obtain ⟨-,payload',hp',hholds⟩ := hring.held (c.readSeq + 1) (by omega) hseq
      obtain rfl : payload = payload' := Option.some.inj (hp.symm.trans hp')
      refine ⟨payload,hp,hlen,?_⟩
      rw [length_append,length_singleton]
      exact hholds.take_succ (hlen ▸ hmore) hbytes
    rw [if_neg hmore]
    by_cases hsame : (ring.slot (c.readSeq + 1)).seq = c.readSeq + 1
    · rw [if_pos hsame]
      obtain ⟨payload,hp,hlen,hbytes⟩ := hstate.copying len bytes hstage hsame
      have hfull : bytes = payload := by
        rw [hbytes]
        exact take_of_length_le (by omega)
      rw [hfull]
      exact hstate.take hbefore hlt hp
    · rw [if_neg hsame]
      exact hstate.miss hring hlt

end Reader
end BuckyOS.KEvent
