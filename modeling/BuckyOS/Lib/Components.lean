import Mathlib.Tactic

/-! Strongly connected components of a graph given by successor lists, by a depth-first search
with indices and low links. -/
namespace BuckyOS.Components
open List

variable {α : Type} [DecidableEq α]

/-- What the search keeps between visits. The stack has its top first. -/
structure State (α : Type) where
  index : ℕ
  indices : α → Option ℕ
  lowlinks : α → Option ℕ
  stack : List α
  onStack : α → Bool
  result : List (List α)

def State.init : State α where
  index := 0
  indices := fun _ => none
  lowlinks := fun _ => none
  stack := []
  onStack := fun _ => false
  result := []

variable (s : State α) (node : α) (successors : α → List α)

def State.enter : State α where
  index := s.index + 1
  indices := Function.update s.indices node (some s.index)
  lowlinks := Function.update s.lowlinks node (some s.index)
  stack := node :: s.stack
  onStack := Function.update s.onStack node true
  result := s.result

def State.lower (bound : ℕ) : State α :=
  {s with
    lowlinks :=
      Function.update s.lowlinks node ((s.lowlinks node).map (fun low => min low bound))}

def popTo (node : α) : List α → List α × List α
  | [] => ([],[])
  | item :: stack =>
    if item = node then ([item],stack)
    else
      let rest := popTo node stack
      (item :: rest.1,rest.2)

def State.close : State α :=
  let popped := popTo node s.stack
  {s with
    stack := popped.2
    onStack := fun a => if a ∈ popped.1 then false else s.onStack a
    result := s.result ++ [popped.1]}

def State.follow (visit : α → State α → State α) (node : α) (s : State α) (next : α) : State α :=
  if s.indices next = none then
    let s := visit next s
    s.lower node ((s.lowlinks next).getD 0)
  else if s.onStack next then s.lower node ((s.indices next).getD 0)
  else s

def strongConnect (successors : α → List α) : ℕ → α → State α → State α
  | 0, _, s => s
  | fuel + 1, node, s =>
    let visited := (successors node).foldl (State.follow (strongConnect successors fuel) node)
      (s.enter node)
    if visited.indices node = visited.lowlinks node then visited.close node else visited

/-- The components of the nodes of a list and of what they lead to. A node is entered once, so
visits are nested no deeper than the list is long, if it has all nodes. -/
def components (nodes : List α) : List (List α) :=
  (nodes.foldl (fun s node =>
    if s.indices node = none then strongConnect successors nodes.length node s else s)
    State.init).result

example : components (fun n => if n = 0 then [1,2] else if n = 1 then [0] else []) [0,1,2] =
    [[2],[1,0]] := by decide

namespace State
def num (s : State α) (a : α) : ℕ := (s.indices a).getD 0

def low (s : State α) (a : α) : ℕ := (s.lowlinks a).getD 0

def Visited (s : State α) (a : α) : Prop := (s.indices a).isSome

variable (s : State α) (node : α)

@[simp] theorem visited_enter (node a : α) : (s.enter node).Visited a ↔ a = node ∨ s.Visited a := by
  by_cases h : a = node
  · simp [Visited,enter,h]
  · simp [Visited,enter,h]

@[simp] theorem stack_enter : (s.enter node).stack = node :: s.stack := rfl

@[simp] theorem stack_lower (bound : ℕ) : (s.lower node bound).stack = s.stack := rfl

theorem lowlinks_lower_of_ne {node a : α} (bound : ℕ) (h : a ≠ node) :
    (s.lower node bound).lowlinks a = s.lowlinks a := Function.update_of_ne h _ _

theorem low_lower (bound : ℕ) (h : (s.lowlinks node).isSome) :
    (s.lower node bound).low node = min (s.low node) bound ∧ ((s.lower node bound).lowlinks node).isSome := by
  obtain ⟨l,hl⟩ := Option.isSome_iff_exists.mp h
  simp [low,lower,hl]

end State

abbrev Reaches : α → α → Prop :=
  Relation.ReflTransGen (fun a b => b ∈ successors a)

def SuccClosed (l : List α) : Prop :=
  ∀ a ∈ l, ∀ b ∈ successors a, b ∈ l

/-- What holds between visits: the stack lists entered nodes, latest first, those of no component
yet, each leading to those above it; the members of a component lead to each other, and the
components found up to any moment are closed under successors. -/
structure Inv (successors : α → List α) (s : State α) : Prop where
  num_lt : ∀ a, s.Visited a → s.num a < s.index
  onStack : ∀ a, s.onStack a = true ↔ a ∈ s.stack
  sorted : s.stack.Pairwise (fun a b => s.num b < s.num a)
  upward : s.stack.Pairwise (fun a b => Reaches successors b a)
  visited : ∀ a, s.Visited a ↔ a ∈ s.stack ∨ a ∈ s.result.flatten
  nodup : (s.stack ++ s.result.flatten).Nodup
  closed : ∀ found, found <+: s.result → SuccClosed successors found.flatten
  connected : ∀ component ∈ s.result, ∀ a ∈ component, ∀ b ∈ component, Reaches successors a b

/-- How a visit changes what it has not entered itself. -/
structure Extends (s s' : State α) : Prop where
  indices : ∀ a, s.Visited a → s'.indices a = s.indices a
  lowlinks : ∀ a, s.Visited a → s'.lowlinks a = s.lowlinks a

namespace Extends
variable {s s' s'' : State α}

omit [DecidableEq α] in
theorem refl (s : State α) : Extends s s := ⟨fun _ _ => rfl,fun _ _ => rfl⟩

omit [DecidableEq α] in
theorem visited (h : Extends s s') {a : α} (ha : s.Visited a) : s'.Visited a := by
  rw [State.Visited,h.indices a ha]
  exact ha

omit [DecidableEq α] in
theorem num (h : Extends s s') {a : α} (ha : s.Visited a) : s'.num a = s.num a := by
  rw [State.num,h.indices a ha]
  rfl

omit [DecidableEq α] in
theorem low (h : Extends s s') {a : α} (ha : s.Visited a) : s'.low a = s.low a := by
  rw [State.low,h.lowlinks a ha]
  rfl

omit [DecidableEq α] in
theorem trans (h : Extends s s') (h' : Extends s' s'') : Extends s s'' :=
  ⟨fun a ha => (h'.indices a (h.visited ha)).trans (h.indices a ha),
    fun a ha => (h'.lowlinks a (h.visited ha)).trans (h.lowlinks a ha)⟩

end Extends

variable {successors : α → List α}

attribute [local simp] State.enter State.init State.num State.Visited

omit [DecidableEq α] in
theorem inv_init : Inv successors (State.init : State α) where
  num_lt := by simp
  onStack := by simp
  sorted := by simp
  upward := by simp
  visited := by simp
  nodup := by simp
  closed := by
    intro found hfound
    simp only [State.init,prefix_nil] at hfound
    simp [hfound,SuccClosed]
  connected := by simp

variable {s : State α} {node : α}

theorem Inv.enter (h : Inv successors s) (hnode : ¬ s.Visited node)
    (hreach : ∀ a ∈ s.stack, Reaches successors a node) : Inv successors (s.enter node) where
  num_lt a ha := by
    by_cases hav : a = node
    · simp [hav]
    · have hold : s.Visited a := by simpa [hav] using ha
      have hlt := h.num_lt a hold
      have hnum : (s.enter node).num a = s.num a := by simp [hav]
      rw [hnum]
      exact Nat.lt_succ_of_lt hlt
  onStack a := by
    by_cases hav : a = node
    · simp [hav]
    · simp [hav,h.onStack]
  sorted := by
    have hne : ∀ a ∈ s.stack, a ≠ node := by
      rintro a ha rfl
      exact hnode ((h.visited a).mpr (.inl ha))
    have hnum : ∀ a ∈ s.stack, (s.enter node).num a = s.num a := by
      intro a ha
      simp [hne a ha]
    rw [State.stack_enter,pairwise_cons]
    constructor
    · intro a ha
      have hself : (s.enter node).num node = s.index := by simp
      rw [hnum a ha,hself]
      exact h.num_lt a ((h.visited a).mpr (.inl ha))
    · apply h.sorted.imp_of_mem
      intro a b ha hb hlt
      rwa [hnum a ha,hnum b hb]
  upward := by
    rw [State.stack_enter,pairwise_cons]
    exact ⟨hreach,h.upward⟩
  visited a := by
    rw [State.visited_enter,State.stack_enter,mem_cons,h.visited,or_assoc]
    rfl
  nodup := by
    rw [State.stack_enter,cons_append,nodup_cons]
    refine ⟨?_,h.nodup⟩
    rw [mem_append]
    exact fun hmem => hnode ((h.visited node).mpr hmem)
  closed := h.closed
  connected := h.connected

theorem Inv.lower (h : Inv successors s) (node : α) (bound : ℕ) : Inv successors (s.lower node bound) :=
  ⟨h.num_lt,h.onStack,h.sorted,h.upward,h.visited,h.nodup,h.closed,h.connected⟩

variable {part old : List α}

theorem popTo_append (h : node ∉ part) : popTo node (part ++ node :: old) = (part ++ [node],old) := by
  induction part with
  | nil => simp [popTo]
  | cons a part ih =>
    rw [mem_cons,not_or] at h
    rw [cons_append,popTo,if_neg (Ne.symm h.1),ih h.2]
    rfl

theorem Inv.close (h : Inv successors s) (hstack : s.stack = part ++ node :: old)
    (hreach : ∀ a ∈ part, Reaches successors a node)
    (hedges : ∀ a ∈ part ++ [node], ∀ b ∈ successors a, s.Visited b ∧ b ∉ old) :
    Inv successors (s.close node) ∧ (s.close node).stack = old := by
  have hfresh : node ∉ part := by
    have hnodup := h.nodup
    rw [hstack,append_assoc] at hnodup
    intro hmem
    exact (nodup_append.mp hnodup).2.2 node hmem node (by simp) rfl
  have hpop : popTo node (part ++ node :: old) = (part ++ [node],old) := popTo_append hfresh
  have hclose : s.close node =
      {s with
        stack := old
        onStack := fun a => if a ∈ part ++ [node] then false else s.onStack a
        result := s.result ++ [part ++ [node]]} := by
    rw [State.close,hstack,hpop]
  have hsplit : s.stack = (part ++ [node]) ++ old := by simp [hstack]
  have hnodup := h.nodup
  rw [hsplit] at hnodup
  have hdisjoint : ∀ a ∈ old, a ∉ part ++ [node] := by
    intro a ha hmem
    rw [append_assoc] at hnodup
    exact (nodup_append.mp hnodup).2.2 a hmem a (mem_append_left _ ha) rfl
  have hflatten : (s.result ++ [part ++ [node]]).flatten = s.result.flatten ++ (part ++ [node]) := by simp
  rw [hclose]
  refine ⟨⟨h.num_lt,?_,?_,?_,?_,?_,?_,?_⟩,rfl⟩
  · intro a
    change (if a ∈ part ++ [node] then false else s.onStack a) = true ↔ a ∈ old
    split_ifs with hmem
    · simp only [false_iff]
      exact fun hold => hdisjoint a hold hmem
    · rw [h.onStack,hsplit,mem_append,or_iff_right hmem]
  · have hsorted := h.sorted
    rw [hsplit] at hsorted
    exact (pairwise_append.mp hsorted).2.1
  · have hupward := h.upward
    rw [hsplit] at hupward
    exact (pairwise_append.mp hupward).2.1
  · intro a
    change s.Visited a ↔ a ∈ old ∨ a ∈ (s.result ++ [part ++ [node]]).flatten
    rw [h.visited,hsplit,hflatten]
    simp only [mem_append]
    tauto
  · change (old ++ (s.result ++ [part ++ [node]]).flatten).Nodup
    rw [hflatten]
    have hperm : (old ++ (s.result.flatten ++ (part ++ [node]))).Perm
        (part ++ [node] ++ old ++ s.result.flatten) := by
      rw [← append_assoc,append_assoc (part ++ [node])]
      exact perm_append_comm
    exact hperm.nodup_iff.mpr hnodup
  · intro found hfound
    rcases prefix_concat_iff.mp hfound with rfl | hprefix
    · intro a ha b hb
      rw [hflatten,mem_append] at ha ⊢
      rcases ha with ha | ha
      · exact .inl (h.closed s.result prefix_rfl a ha b hb)
      · obtain ⟨hvisited,hbelow⟩ := hedges a ha b hb
        rw [h.visited,hsplit,mem_append] at hvisited
        tauto
    · exact h.closed found hprefix
  · intro component hcomponent
    change component ∈ s.result ++ [part ++ [node]] at hcomponent
    rcases mem_append.mp hcomponent with hcomponent | hcomponent
    · exact h.connected component hcomponent
    · rw [mem_singleton.mp hcomponent]
      have hupward := h.upward
      rw [hstack,pairwise_append] at hupward
      have hto : ∀ a ∈ part ++ [node], Reaches successors a node := by
        intro a ha
        rcases mem_append.mp ha with ha | ha
        · exact hreach a ha
        · rw [mem_singleton.mp ha]
      have hfrom : ∀ a ∈ part ++ [node], Reaches successors node a := by
        intro a ha
        rcases mem_append.mp ha with ha | ha
        · exact hupward.2.2 a ha node (by simp)
        · rw [mem_singleton.mp ha]
      exact fun a ha b hb => (hto a ha).trans (hfrom b hb)

def remaining (nodes : List α) (s : State α) : ℕ :=
  (nodes.toFinset.filter (fun a => (s.indices a).isNone)).card

variable {nodes : List α}

theorem remaining_mono {s' : State α} (h : Extends s s') : remaining nodes s' ≤ remaining nodes s := by
  apply Finset.card_le_card
  intro a ha
  rw [Finset.mem_filter] at ha ⊢
  refine ⟨ha.1,?_⟩
  by_contra hvisited
  have hsome : s.Visited a := by simpa [State.Visited,Option.isSome_iff_ne_none] using hvisited
  have hsome' := h.visited hsome
  simp_all

theorem remaining_enter (hmem : node ∈ nodes) (hnode : ¬ s.Visited node) :
    remaining nodes (s.enter node) < remaining nodes s := by
  apply Finset.card_lt_card
  rw [Finset.ssubset_iff_of_subset]
  · refine ⟨node,?_,?_⟩
    · simp only [Finset.mem_filter,mem_toFinset]
      exact ⟨hmem,by simpa [State.Visited] using hnode⟩
    · simp
  · intro a ha
    simp only [Finset.mem_filter] at ha ⊢
    refine ⟨ha.1,?_⟩
    by_cases hav : a = node
    · simp [hav] at ha
    · simpa [State.enter,hav] using ha.2

theorem remaining_pos (hmem : node ∈ nodes) (hnode : ¬ s.Visited node) : 0 < remaining nodes s :=
  lt_of_le_of_lt (Nat.zero_le _) (remaining_enter hmem hnode)

/-- The state while the arcs of a node are followed: what is above it on the stack and the arcs
followed so far lead below the node only to nodes its low link accounts for. -/
structure Following (successors : α → List α) (base s : State α) (node : α) (done : List α) :
    Prop where
  inv : Inv successors s
  extends_base : Extends base s
  fresh : ¬ base.Visited node
  visited : s.Visited node
  num_ge : base.index ≤ s.num node
  lowlink : (s.lowlinks node).isSome
  low_le : s.low node ≤ s.num node
  attained : s.low node = s.num node ∨
    ∃ a ∈ base.stack, s.low node = s.num a ∧ Reaches successors node a
  reach : ∀ a ∈ s.stack, Reaches successors a node
  stack : ∃ part, s.stack = part ++ node :: base.stack ∧
    ∀ a ∈ part, ∀ b ∈ successors a, s.Visited b ∧ (b ∈ base.stack → s.low node ≤ s.num b)
  arcs : ∀ b ∈ done, s.Visited b ∧ (b ∈ base.stack → s.low node ≤ s.num b)

/-- What a visit does: it leaves on the stack either nothing of its own or nodes that lead below
it only to nodes the low link accounts for. -/
structure Visit (successors : α → List α) (base s : State α) (node : α) : Prop where
  inv : Inv successors s
  extends_base : Extends base s
  visited : s.Visited node
  num_ge : base.index ≤ s.num node
  attained : s.low node = s.num node ∨
    ∃ a ∈ base.stack, s.low node = s.num a ∧ Reaches successors node a
  reach : ∀ a ∈ s.stack, a ∈ base.stack ∨ Reaches successors a node
  root : s.low node = s.num node → s.stack = base.stack
  stack : ∃ new, s.stack = new ++ base.stack ∧
    ∀ a ∈ new, ∀ b ∈ successors a, s.Visited b ∧ (b ∈ base.stack → s.low node ≤ s.num b)

omit [DecidableEq α] in
theorem Inv.num_below (h : Inv successors s) (hstack : s.stack = part ++ node :: old) :
    (∀ a ∈ old, s.num a < s.num node) ∧ ∀ a ∈ part, s.num node < s.num a := by
  have hsorted := h.sorted
  rw [hstack,pairwise_append,pairwise_cons] at hsorted
  exact ⟨hsorted.2.1.1,fun a ha => hsorted.2.2 a ha node (by simp)⟩

omit [DecidableEq α] in
theorem Inv.visited_of_mem (h : Inv successors s) {a : α} (ha : a ∈ s.stack) :
    s.Visited a := (h.visited a).mpr (.inl ha)

theorem following_enter (h : Inv successors s) (hnode : ¬ s.Visited node)
    (hreach : ∀ a ∈ s.stack, Reaches successors a node) :
    Following successors s (s.enter node) node [] where
  inv := h.enter hnode hreach
  extends_base := by
    have hne : ∀ a, s.Visited a → a ≠ node := fun a ha hav => hnode (hav ▸ ha)
    exact ⟨fun a ha => Function.update_of_ne (hne a ha) _ _,fun a ha => Function.update_of_ne (hne a ha) _ _⟩
  fresh := hnode
  visited := by simp
  num_ge := by simp
  lowlink := by simp
  low_le := by simp [State.low]
  attained := .inl (by simp [State.low])
  reach := by
    intro a ha
    rcases mem_cons.mp ha with rfl | ha
    · exact .refl
    · exact hreach a ha
  stack := ⟨[],rfl,by simp⟩
  arcs := by simp

variable {base : State α} {done : List α}

theorem Following.lower {bound : ℕ} (h : Following successors base s node done)
    (hbound : s.num node ≤ bound ∨ ∃ a ∈ base.stack, bound = s.num a ∧ Reaches successors node a) :
    Following successors base (s.lower node bound) node done := by
  obtain ⟨hlow,hsome⟩ := s.low_lower node bound h.lowlink
  have hless : (s.lower node bound).low node ≤ s.low node := hlow ▸ min_le_left _ _
  have hlowlinks : ∀ a, base.Visited a → (s.lower node bound).lowlinks a = base.lowlinks a := by
    intro a ha
    have hne : a ≠ node := fun hav => h.fresh (hav ▸ ha)
    rw [s.lowlinks_lower_of_ne bound hne,h.extends_base.lowlinks a ha]
  refine ⟨h.inv.lower node bound,⟨h.extends_base.indices,hlowlinks⟩,h.fresh,h.visited,h.num_ge,
    hsome,hless.trans h.low_le,?_,h.reach,?_,?_⟩
  · rw [hlow]
    rcases le_total (s.low node) bound with hle | hle
    · rw [min_eq_left hle]
      exact h.attained
    · rw [min_eq_right hle]
      rcases hbound with hnum | hbelow
      · exact .inl (le_antisymm (hle.trans h.low_le) hnum)
      · exact .inr hbelow
  · obtain ⟨part,hstack,hpart⟩ := h.stack
    refine ⟨part,hstack,?_⟩
    intro a ha b hb
    exact ⟨(hpart a ha b hb).1,fun hbelow => hless.trans ((hpart a ha b hb).2 hbelow)⟩
  · intro b hb
    exact ⟨(h.arcs b hb).1,fun hbelow => hless.trans ((h.arcs b hb).2 hbelow)⟩

omit [DecidableEq α] in
theorem Following.arc {next : α} (h : Following successors base s node done)
    (hvisited : s.Visited next) (hlow : next ∈ base.stack → s.low node ≤ s.num next) :
    Following successors base s node (done ++ [next]) := by
  refine ⟨h.inv,h.extends_base,h.fresh,h.visited,h.num_ge,h.lowlink,h.low_le,h.attained,h.reach,h.stack,?_⟩
  intro b hb
  rcases mem_append.mp hb with hb | hb
  · exact h.arcs b hb
  · rw [mem_singleton.mp hb]
    exact ⟨hvisited,hlow⟩

theorem Following.visit {s' : State α} {next : α} (h : Following successors base s node done)
    (harc : next ∈ successors node) (hnext : ¬ s.Visited next) (hvisit : Visit successors s s' next) :
    Following successors base (s'.lower node (s'.low next)) node (done ++ [next]) := by
  obtain ⟨part,hstack,hpart⟩ := h.stack
  obtain ⟨new,hnew,hedges⟩ := hvisit.stack
  have hext := hvisit.extends_base
  have hnum := hext.num h.visited
  have hlow := hext.low h.visited
  have hbelow : ∀ a ∈ base.stack, a ∈ s.stack := by
    intro a ha
    rw [hstack]
    simp [ha]
  have hnumBelow : ∀ a ∈ base.stack, s'.num a = s.num a :=
    fun a ha => hext.num (h.inv.visited_of_mem (hbelow a ha))
  have hstack' : s'.stack = (new ++ part) ++ node :: base.stack := by rw [hnew,hstack,append_assoc]
  have hlowlinks : s'.lowlinks node = s.lowlinks node := hext.lowlinks node h.visited
  obtain ⟨hlower,hsome⟩ := s'.low_lower node (s'.low next) (hlowlinks ▸ h.lowlink)
  have hless : (s'.lower node (s'.low next)).low node ≤ s'.low next := hlower ▸ min_le_right _ _
  have hlowLess : (s'.lower node (s'.low next)).low node ≤ s.low node := by
    rw [hlower,← hlow]
    exact min_le_left _ _
  have hkept : ∀ b, s.Visited b ∧ (b ∈ base.stack → s.low node ≤ s.num b) →
      s'.Visited b ∧ (b ∈ base.stack → (s'.lower node (s'.low next)).low node ≤ s'.num b) := by
    rintro b ⟨hb,hle⟩
    refine ⟨hext.visited hb,?_⟩
    intro hmem
    rw [hnumBelow b hmem]
    exact hlowLess.trans (hle hmem)
  refine ⟨hvisit.inv.lower node _,⟨?_,?_⟩,h.fresh,hext.visited h.visited,hnum ▸ h.num_ge,hsome,
    ?_,?_,?_,⟨new ++ part,hstack',?_⟩,?_⟩
  · exact (h.extends_base.trans hext).indices
  · intro a ha
    have hne : a ≠ node := fun hav => h.fresh (hav ▸ ha)
    rw [s'.lowlinks_lower_of_ne _ hne]
    exact (h.extends_base.trans hext).lowlinks a ha
  · exact hlowLess.trans (h.low_le.trans_eq hnum.symm)
  · change (s'.lower node (s'.low next)).low node = s'.num node ∨
      ∃ a ∈ base.stack, (s'.lower node (s'.low next)).low node = s'.num a ∧ Reaches successors node a
    rw [hlower,hlow,hnum]
    rcases le_total (s.low node) (s'.low next) with hle | hle
    · rw [min_eq_left hle]
      rcases h.attained with hself | ⟨a,ha,hself,hpath⟩
      · exact .inl hself
      · exact .inr ⟨a,ha,hself.trans (hnumBelow a ha).symm,hpath⟩
    · rw [min_eq_right hle]
      obtain ⟨hbelowNum,haboveNum⟩ := hvisit.inv.num_below hstack'
      have hnode : s'.low next ≤ s'.num node := hle.trans (h.low_le.trans_eq hnum.symm)
      rcases hvisit.attained with hself | ⟨a,ha,hself,hpath⟩
      · have hlater := hvisit.num_ge
        have hearlier := h.inv.num_lt node h.visited
        omega
      · rw [hstack,mem_append,mem_cons] at ha
        rcases ha with ha | rfl | ha
        · have := haboveNum a (mem_append_right _ ha)
          omega
        · exact .inl (hself.trans hnum)
        · exact .inr ⟨a,ha,hself,.head harc hpath⟩
  · intro a ha
    rcases hvisit.reach a ha with hold | hpath
    · exact h.reach a hold
    · rcases hvisit.attained with hroot | ⟨b,hb,-,hback⟩
      · rw [State.stack_lower,hvisit.root hroot] at ha
        exact h.reach a ha
      · exact hpath.trans (hback.trans (h.reach b hb))
  · intro a ha b hb
    rcases mem_append.mp ha with ha | ha
    · obtain ⟨hvisited,hle⟩ := hedges a ha b hb
      exact ⟨hvisited,fun hmem => hless.trans (hle (hbelow b hmem))⟩
    · exact hkept b (hpart a ha b hb)
  · intro b hb
    rcases mem_append.mp hb with hb | hb
    · exact hkept b (h.arcs b hb)
    · rw [mem_singleton.mp hb]
      exact ⟨hvisit.visited,fun hmem => absurd (h.inv.visited_of_mem (hbelow next hmem)) hnext⟩

def Visits (successors : α → List α) (nodes : List α) (fuel : ℕ) (visit : α → State α → State α) :
    Prop :=
  ∀ node s, Inv successors s → ¬ s.Visited node → node ∈ nodes →
    (∀ a ∈ s.stack, Reaches successors a node) → remaining nodes s ≤ fuel →
    Visit successors s (visit node s) node

theorem Following.follow {fuel : ℕ} {visit : α → State α → State α}
    (hvisits : Visits successors nodes fuel visit) {next : α}
    (h : Following successors base s node done) (hnext : next ∈ nodes)
    (harc : next ∈ successors node) (hfuel : remaining nodes s ≤ fuel) :
    Following successors base (s.follow visit node next) node (done ++ [next]) ∧
      remaining nodes (s.follow visit node next) ≤ fuel := by
  rw [State.follow]
  split_ifs with hnew hon
  · have hunvisited : ¬ s.Visited next := by simp [hnew]
    have hvisit := hvisits next s h.inv hunvisited hnext (fun a ha => (h.reach a ha).tail harc) hfuel
    exact ⟨h.visit harc hunvisited hvisit,(remaining_mono hvisit.extends_base).trans hfuel⟩
  · have hvisited : s.Visited next := by
      rw [State.Visited,Option.isSome_iff_ne_none]
      exact hnew
    obtain ⟨part,hstack,-⟩ := h.stack
    obtain ⟨hbelow,habove⟩ := h.inv.num_below hstack
    have hmem := (h.inv.onStack next).mp hon
    rw [hstack,mem_append,mem_cons] at hmem
    have hbound : s.num node ≤ s.num next ∨
        ∃ a ∈ base.stack, s.num next = s.num a ∧ Reaches successors node a := by
      rcases hmem with hmem | rfl | hmem
      · exact .inl (habove next hmem).le
      · exact .inl le_rfl
      · exact .inr ⟨next,hmem,rfl,.single harc⟩
    have hlower := h.lower hbound
    refine ⟨hlower.arc hvisited ?_,hfuel⟩
    intro _
    rw [(s.low_lower node _ h.lowlink).1]
    exact min_le_right _ _
  · have hvisited : s.Visited next := by
      rw [State.Visited,Option.isSome_iff_ne_none]
      exact hnew
    refine ⟨h.arc hvisited ?_,hfuel⟩
    intro hmem
    obtain ⟨part,hstack,-⟩ := h.stack
    exact absurd ((h.inv.onStack next).mpr (by rw [hstack]; simp [hmem])) hon

theorem Following.follows {fuel : ℕ} {visit : α → State α → State α}
    (hvisits : Visits successors nodes fuel visit) (next : List α)
    (h : Following successors base s node done)
    (hnext : ∀ a ∈ next, a ∈ nodes ∧ a ∈ successors node) (hfuel : remaining nodes s ≤ fuel) :
    Following successors base (next.foldl (State.follow visit node) s) node (done ++ next) := by
  induction next generalizing s done with
  | nil => simpa using h
  | cons a next ih =>
    obtain ⟨hmem,harc⟩ := hnext a (by simp)
    obtain ⟨hfollow,hfuel'⟩ := h.follow hvisits hmem harc hfuel
    rw [append_cons]
    exact ih hfollow (fun b hb => hnext b (mem_cons_of_mem a hb)) hfuel'

theorem Following.finish (h : Following successors base s node (successors node)) :
    Visit successors base (if s.indices node = s.lowlinks node then s.close node else s) node := by
  obtain ⟨part,hstack,hpart⟩ := h.stack
  obtain ⟨hbelow,-⟩ := h.inv.num_below hstack
  have hedges : ∀ a ∈ part ++ [node], ∀ b ∈ successors a,
      s.Visited b ∧ (b ∈ base.stack → s.low node ≤ s.num b) := by
    intro a ha
    rcases mem_append.mp ha with ha | ha
    · exact hpart a ha
    · rw [mem_singleton.mp ha]
      exact h.arcs
  have hreach : ∀ a ∈ part, Reaches successors a node := fun a ha => h.reach a (by rw [hstack]; simp [ha])
  split_ifs with hroot
  · have hsame : s.num node = s.low node := by rw [State.num,State.low,hroot]
    obtain ⟨hinv,hold⟩ := h.inv.close hstack hreach fun a ha b hb => by
      obtain ⟨hvisited,hle⟩ := hedges a ha b hb
      refine ⟨hvisited,fun hmem => ?_⟩
      have := hle hmem
      have := hbelow b hmem
      omega
    exact ⟨hinv,⟨h.extends_base.indices,h.extends_base.lowlinks⟩,h.visited,h.num_ge,
      h.attained,fun a ha => .inl (hold ▸ ha),fun _ => hold,⟨[],by rw [hold,nil_append],by simp⟩⟩
  · refine ⟨h.inv,h.extends_base,h.visited,h.num_ge,h.attained,
      fun a ha => .inr (h.reach a ha),?_,⟨part ++ [node],by simp [hstack],hedges⟩⟩
    intro hsame
    obtain ⟨n,hn⟩ := Option.isSome_iff_exists.mp h.visited
    obtain ⟨l,hl⟩ := Option.isSome_iff_exists.mp h.lowlink
    rw [State.low,State.num,hn,hl,Option.getD_some,Option.getD_some] at hsame
    exact absurd (by rw [hn,hl,hsame]) hroot

theorem strongConnect_visits (hnodes : ∀ a ∈ nodes, ∀ b ∈ successors a, b ∈ nodes) (fuel : ℕ) :
    Visits successors nodes fuel (strongConnect successors fuel) := by
  induction fuel with
  | zero =>
    intro node s _ hnode hmem _ hfuel
    have hpos := remaining_pos hmem hnode
    omega
  | succ fuel ih =>
    intro node s hinv hnode hmem hreach hfuel
    have hfuel' : remaining nodes (s.enter node) ≤ fuel := by
      have hlt := remaining_enter hmem hnode
      omega
    exact ((following_enter hinv hnode hreach).follows ih (successors node)
      (fun a ha => ⟨hnodes node hmem a ha,ha⟩) hfuel').finish

def Within (nodes : List α) (s : State α) : Prop :=
  (∀ a, s.Visited a → a ∈ nodes) ∧ [] ∉ s.result

/-- Deeper visits than are needed make no difference. -/
theorem strongConnect_stable (hnodes : ∀ a ∈ nodes, ∀ b ∈ successors a, b ∈ nodes) (extra fuel : ℕ)
    (hinv : Inv successors s) (hnode : ¬ s.Visited node) (hmem : node ∈ nodes)
    (hreach : ∀ a ∈ s.stack, Reaches successors a node) (hfuel : remaining nodes s ≤ fuel) :
    strongConnect successors (fuel + extra) node s = strongConnect successors fuel node s ∧
      (Within nodes s → Within nodes (strongConnect successors fuel node s)) := by
  induction fuel generalizing node s with
  | zero =>
    have hpos := remaining_pos hmem hnode
    omega
  | succ fuel ih =>
    have hfollows : ∀ (next done : List α) (t : State α), Following successors s t node done →
        (∀ a ∈ next, a ∈ nodes ∧ a ∈ successors node) → remaining nodes t ≤ fuel →
        next.foldl (State.follow (strongConnect successors (fuel + extra)) node) t =
          next.foldl (State.follow (strongConnect successors fuel) node) t ∧ (Within nodes t →
          Within nodes (next.foldl (State.follow (strongConnect successors fuel) node) t)) := by
      intro next
      induction next with
      | nil => exact fun _ _ _ _ _ => ⟨rfl,id⟩
      | cons a next ihnext =>
        intro done t h hnext hfuel
        obtain ⟨ha,harc⟩ := hnext a mem_cons_self
        obtain ⟨hfollow,hfuel'⟩ := h.follow (strongConnect_visits hnodes fuel) ha harc hfuel
        have hstep : t.follow (strongConnect successors (fuel + extra)) node a =
              t.follow (strongConnect successors fuel) node a ∧
            (Within nodes t → Within nodes (t.follow (strongConnect successors fuel) node a)) := by
          rw [State.follow,State.follow]
          split_ifs with hnew hon
          · obtain ⟨hsame,hwithin⟩ := ih h.inv (by simp [hnew]) ha (fun b hb => (h.reach b hb).tail harc) hfuel
            exact ⟨by rw [hsame],hwithin⟩
          · exact ⟨rfl,id⟩
          · exact ⟨rfl,id⟩
        obtain ⟨hsame,hwithin⟩ := ihnext _ _ hfollow (fun b hb => hnext b (mem_cons_of_mem a hb)) hfuel'
        rw [foldl_cons,foldl_cons,hstep.1]
        exact ⟨hsame,fun ht => hwithin (hstep.2 ht)⟩
    have hfuel' : remaining nodes (s.enter node) ≤ fuel := by
      have hlt := remaining_enter hmem hnode
      omega
    have henter := following_enter hinv hnode hreach
    have harcs : ∀ a ∈ successors node, a ∈ nodes ∧ a ∈ successors node :=
      fun a ha => ⟨hnodes node hmem a ha,ha⟩
    obtain ⟨hsame,hwithin⟩ := hfollows _ _ _ henter harcs hfuel'
    obtain ⟨part,hstack,-⟩ := (henter.follows (strongConnect_visits hnodes fuel) _ harcs hfuel').stack
    rw [Nat.add_right_comm,strongConnect,strongConnect,hsame]
    refine ⟨rfl,fun hs => ?_⟩
    have hvisited := hwithin ⟨fun a ha => ?_,hs.2⟩
    · split_ifs
      · refine ⟨hvisited.1,?_⟩
        rw [State.close,hstack,mem_append,not_or]
        refine ⟨hvisited.2,?_⟩
        cases part <;> simp [popTo]
        split_ifs <;> simp
      · exact hvisited
    · rcases (s.visited_enter node a).mp ha with rfl | ha
      · exact hmem
      · exact hs.1 a ha

def search (successors : α → List α) (fuel : ℕ) (todo : List α) (s : State α) : State α :=
  todo.foldl (fun s node => if s.indices node = none then strongConnect successors fuel node s else s) s

theorem search_spec (hnodes : ∀ a ∈ nodes, ∀ b ∈ successors a, b ∈ nodes) (extra : ℕ)
    {todo : List α} (htodo : todo ⊆ nodes) (hinv : Inv successors s) (hstack : s.stack = [])
    (hwithin : Within nodes s) :
    let s' := search successors nodes.length todo s
    search successors (nodes.length + extra) todo s = s' ∧ Inv successors s' ∧ s'.stack = [] ∧
      Extends s s' ∧ Within nodes s' ∧ ∀ a ∈ todo, s'.Visited a := by
  induction todo generalizing s with
  | nil => exact ⟨rfl,hinv,hstack,Extends.refl s,hwithin,by simp⟩
  | cons node todo ih =>
    rw [cons_subset] at htodo
    rw [search,search,foldl_cons,foldl_cons]
    split_ifs with hnew
    · have hunvisited : ¬ s.Visited node := by simp [hnew]
      have hreach : ∀ a ∈ s.stack, Reaches successors a node := by simp [hstack]
      have hfuel : remaining nodes s ≤ nodes.length :=
        (Finset.card_filter_le _ _).trans (toFinset_card_le nodes)
      have hvisit := strongConnect_visits hnodes nodes.length node s hinv hunvisited htodo.1 hreach hfuel
      obtain ⟨hsame,hkept⟩ := strongConnect_stable hnodes extra _ hinv hunvisited htodo.1 hreach hfuel
      have hroot : (strongConnect successors nodes.length node s).low node =
          (strongConnect successors nodes.length node s).num node := by
        rcases hvisit.attained with hself | ⟨a,ha,-⟩
        · exact hself
        · simp [hstack] at ha
      obtain ⟨hrest,hinv',hstack',hext,hwithin',hall⟩ :=
        ih htodo.2 hvisit.inv ((hvisit.root hroot).trans hstack) (hkept hwithin)
      rw [hsame]
      exact ⟨hrest,hinv',hstack',hvisit.extends_base.trans hext,hwithin',
        forall_mem_cons.mpr ⟨hext.visited hvisit.visited,hall⟩⟩
    · obtain ⟨hrest,hinv',hstack',hext,hwithin',hall⟩ := ih htodo.2 hinv hstack hwithin
      exact ⟨hrest,hinv',hstack',hext,hwithin',
        forall_mem_cons.mpr ⟨hext.visited (Option.isSome_iff_ne_none.mpr hnew),hall⟩⟩

/-- The classes of mutual reachability among the nodes of a list, with each node once, a class
after the others it leads to. -/
structure Classes (successors : α → List α) (nodes : List α) (found : List (List α)) : Prop where
  cover : ∀ a, a ∈ found.flatten ↔ a ∈ nodes
  nodup : found.flatten.Nodup
  nonempty : [] ∉ found
  mem_iff : ∀ component ∈ found, ∀ a ∈ component, ∀ b,
    b ∈ component ↔ Reaches successors a b ∧ Reaches successors b a
  ordered : found.Pairwise (fun earlier later =>
    ∀ a ∈ earlier, ∀ b ∈ later, ¬ Reaches successors a b)

omit [DecidableEq α] in
theorem SuccClosed.reaches {l : List α} (h : SuccClosed successors l) {a b : α}
    (hpath : Reaches successors a b) (ha : a ∈ l) : b ∈ l := by
  induction hpath with
  | refl => exact ha
  | tail _ hstep ih => exact h _ ih _ hstep

omit [DecidableEq α] in
theorem pairwise_not_reaches {found : List (List α)} (hnodup : found.flatten.Nodup)
    (hclosed : ∀ front, front <+: found → SuccClosed successors front.flatten) :
    found.Pairwise (fun earlier later => ∀ a ∈ earlier, ∀ b ∈ later, ¬ Reaches successors a b) := by
  induction found using List.reverseRecOn with
  | nil => exact .nil
  | append_singleton found last ih =>
    rw [flatten_append,nodup_append] at hnodup
    refine pairwise_append.mpr ⟨ih hnodup.1 fun front hfront => hclosed front
      (hfront.trans (prefix_append _ _)),pairwise_singleton _ _,?_⟩
    intro earlier hearlier later hlater a ha b hb hpath
    have hreached := (hclosed found (prefix_append _ _)).reaches hpath (mem_flatten_of_mem hearlier ha)
    exact hnodup.2.2 b hreached b (by simpa using mem_singleton.mp hlater ▸ hb) rfl

/-- The components of a list that is closed under successors are its classes, and a depth of one
call a node is enough for the search. -/
theorem components_classes (hnodes : ∀ a ∈ nodes, ∀ b ∈ successors a, b ∈ nodes) :
    Classes successors nodes (components successors nodes) ∧ ∀ fuel, nodes.length ≤ fuel →
      (search successors fuel nodes State.init).result = components successors nodes := by
  have hsearch (extra : ℕ) := search_spec hnodes extra (Subset.refl nodes) inv_init rfl ⟨by simp,by simp⟩
  obtain ⟨-,hinv,hstack,-,hwithin,hall⟩ := hsearch 0
  have hvisited := hinv.visited
  have hnodup := hinv.nodup
  rw [hstack] at hvisited hnodup
  simp only [not_mem_nil,false_or] at hvisited
  have hcover : ∀ a, a ∈ (components successors nodes).flatten ↔ a ∈ nodes :=
    fun a => ⟨fun ha => hwithin.1 a ((hvisited a).mpr ha),fun ha => (hvisited a).mp (hall a ha)⟩
  have hordered : (components successors nodes).Pairwise _ := pairwise_not_reaches hnodup hinv.closed
  refine ⟨⟨hcover,hnodup,hwithin.2,fun component h a ha b => ⟨fun hb =>
    ⟨hinv.connected _ h a ha b hb,hinv.connected _ h b hb a ha⟩,?_⟩,hordered⟩,fun fuel hfuel => ?_⟩
  · rintro ⟨hab,hba⟩
    have hb := SuccClosed.reaches hnodes hab ((hcover a).mp (mem_flatten_of_mem h ha))
    obtain ⟨other,hother,hmem⟩ := mem_flatten.mp ((hcover b).mpr hb)
    obtain ⟨before,after,hsplit⟩ := append_of_mem h
    rw [hsplit] at hother hordered
    rw [pairwise_append,pairwise_cons] at hordered
    rcases mem_append.mp hother with hother | hother
    · exact absurd hba (hordered.2.2 other hother component (by simp) b hmem a ha)
    · rcases mem_cons.mp hother with rfl | hother
      · exact hmem
      · exact absurd hab (hordered.2.1.1 other hother a ha b hmem)
  · obtain ⟨extra,rfl⟩ := Nat.exists_eq_add_of_le hfuel
    rw [(hsearch extra).1]
    rfl

theorem mem_same_component (hnodes : ∀ a ∈ nodes, ∀ b ∈ successors a, b ∈ nodes) {a : α}
    (ha : a ∈ nodes) : ∃ component ∈ components successors nodes, ∀ b,
      Reaches successors a b → Reaches successors b a → b ∈ component := by
  obtain ⟨hclasses,-⟩ := components_classes hnodes
  obtain ⟨component,hcomponent,hmem⟩ := mem_flatten.mp ((hclasses.cover a).mpr ha)
  exact ⟨component,hcomponent,fun b hab hba =>
    (hclasses.mem_iff component hcomponent a hmem b).mpr ⟨hab,hba⟩⟩

section Walks
variable {R : α → α → Prop} {u v : α} {path : List α}

omit [DecidableEq α] in
theorem transGen_of_walk (h : List.IsChain R (u :: (path ++ [v]))) : Relation.TransGen R u v := by
  induction path generalizing u with
  | nil => exact .single (isChain_pair.mp h)
  | cons w path ih =>
    rw [cons_append,isChain_cons_cons] at h
    exact .head h.1 (ih h.2)

omit [DecidableEq α] in
theorem walk_reaches (h : List.IsChain R (u :: (path ++ [v]))) :
    ∀ x ∈ path, Relation.TransGen R u x ∧ Relation.TransGen R x v := by
  induction path generalizing u with
  | nil => simp
  | cons w path ih =>
    rw [cons_append,isChain_cons_cons] at h
    intro x hx
    rcases mem_cons.mp hx with rfl | hx
    · exact ⟨.single h.1,transGen_of_walk h.2⟩
    · obtain ⟨hbefore,hafter⟩ := ih h.2 x hx
      exact ⟨.head h.1 hbefore,hafter⟩

omit [DecidableEq α] in
theorem exists_walk (h : Relation.TransGen R u v) : ∃ path, List.IsChain R (u :: (path ++ [v])) := by
  induction h using Relation.TransGen.head_induction_on with
  | single harc => exact ⟨[],isChain_pair.mpr harc⟩
  | head harc _ ih =>
    obtain ⟨path,hpath⟩ := ih
    exact ⟨_ :: path,isChain_cons_cons.mpr ⟨harc,hpath⟩⟩

end Walks

/-- A graph has no cycle exactly if its components are single nodes without an arc to
themselves. -/
theorem acyclic_iff (hnodes : ∀ a, ∀ b ∈ successors a, b ∈ nodes) :
    (∀ a, ¬ Relation.TransGen (fun a b => b ∈ successors a) a a) ↔ ∀ component ∈ components successors nodes,
        component.length ≤ 1 ∧ ∀ a ∈ component, a ∉ successors a := by
  have hclosed : ∀ a ∈ nodes, ∀ b ∈ successors a, b ∈ nodes := fun a _ => hnodes a
  obtain ⟨hclasses,-⟩ := components_classes hclosed
  constructor
  · intro hacyclic component hcomponent
    refine ⟨?_,fun a _ hself => hacyclic a (.single hself)⟩
    by_contra hlong
    obtain ⟨a,b,rest,rfl⟩ : ∃ a b rest, component = a :: b :: rest := by
      match component,hlong with
      | [],h => exact absurd (Nat.zero_le _) h
      | [_],h => exact absurd le_rfl h
      | a :: b :: rest,_ => exact ⟨a,b,rest,rfl⟩
    have hne : a ≠ b := by
      have hpart := (nodup_flatten.mp hclasses.nodup).1 _ hcomponent
      intro hab
      rw [hab] at hpart
      simp at hpart
    obtain ⟨hab,hba⟩ := (hclasses.mem_iff _ hcomponent a (by simp) b).mp (by simp)
    rcases Relation.reflTransGen_iff_eq_or_transGen.mp hab with heq | hpath
    · exact hne heq.symm
    · exact hacyclic a (hpath.trans_left hba)
  · intro hsingle a hcycle
    obtain ⟨b,hab,hba⟩ := Relation.TransGen.head'_iff.mp hcycle
    obtain ⟨c,-,hca⟩ := Relation.TransGen.tail'_iff.mp hcycle
    obtain ⟨component,hcomponent,hmem⟩ := mem_same_component hclosed (hnodes c a hca)
    have hb := hmem b (.single hab) hba
    have ha := hmem a .refl .refl
    obtain ⟨hlength,hself⟩ := hsingle component hcomponent
    have heq : a = b := by
      match component,hlength,ha,hb with
      | [x],_,ha,hb => rw [mem_singleton.mp ha,mem_singleton.mp hb]
    exact hself a ha (heq ▸ hab)

end BuckyOS.Components
