import Mathlib.Tactic

/-! Computations that can fail, with and without a state, and the rules of pre- and postconditions
for them. What a computation did to the state before it failed stays done. -/
namespace BuckyOS
open List

variable {α β ε : Type} {f : α → Except ε β} {as : List α} {bs : List β}

attribute [local simp] Except.bind forall₂_cons_left_iff

theorem mapM_eq_ok_iff (f : α → Except ε β) (as : List α) (bs : List β) :
    as.mapM f = .ok bs ↔ List.Forall₂ (fun a b => f a = .ok b) as bs := by
  induction as generalizing bs with
  | nil => simp [pure,Except.pure,eq_comm]
  | cons a as ih =>
    rw [mapM_cons]
    cases ha : f a with
    | error e => simp [bind,ha]
    | ok b =>
      cases has : as.mapM f with
      | error e => simp [bind,ha,has,← ih]
      | ok bs => simp [bind,ha,has,← ih,pure,Except.pure,eq_comm]

theorem mem_of_mapM (h : as.mapM f = .ok bs) {b : β} : b ∈ bs ↔ ∃ a ∈ as, f a = .ok b := by
  rw [mapM_eq_ok_iff] at h
  induction h with
  | nil => simp
  | cons hfirst _ ih => rw [mem_cons,ih,exists_mem_cons_iff,hfirst,Except.ok.injEq,eq_comm]

theorem exists_of_mapM (h : as.mapM f = .ok bs) {a : α} (ha : a ∈ as) : ∃ b, f a = .ok b := by
  rw [mapM_eq_ok_iff] at h
  induction h with
  | nil => simp at ha
  | cons hfirst _ ih =>
    rcases mem_cons.mp ha with rfl | ha
    · exact ⟨_,hfirst⟩
    · exact ih ha

theorem map_of_mapM {α β γ ε : Type} {f : α → Except ε β} {as : List α} {bs : List β}
    (h : as.mapM f = .ok bs) {g : β → γ} {k : α → γ} (hg : ∀ a b, f a = .ok b → g b = k a) :
    bs.map g = as.map k := by
  rw [mapM_eq_ok_iff] at h
  induction h with
  | nil => rfl
  | cons hfirst _ ih => rw [map_cons,map_cons,hg _ _ hfirst,ih]

theorem bind_eq_ok_iff {x : Except ε α} {f : α → Except ε β} {b : β} :
    x >>= f = .ok b ↔ ∃ a, x = .ok a ∧ f a = .ok b := by
  cases x <;> simp [bind]

theorem ite_error_eq_ok {α ε : Type} {p : Prop} [Decidable p] {e : ε} {x : Except ε α} {a : α} :
    (if p then .error e else x) = .ok a ↔ ¬ p ∧ x = .ok a := by
  by_cases h : p <;> simp [h]

/-- A computation that reads and changes a state and may fail. -/
def Fallible (σ ε α : Type) : Type := σ → Except ε α × σ

namespace Fallible
variable {σ ε α β : Type}

instance : Monad (Fallible σ ε) where
  pure a := fun s => (.ok a,s)
  bind m f := fun s =>
    match m s with
    | (.ok a,s') => f a s'
    | (.error e,s') => (.error e,s')

variable {m : Fallible σ ε α} {s s' : σ}

theorem bind_of_ok {f : α → Fallible σ ε β} {a : α} (h : m s = (.ok a,s')) : (m >>= f) s = f a s' := by
  show (match m s with
    | (.ok a,s') => f a s'
    | (.error e,s') => (.error e,s')) = _
  rw [h]

theorem bind_of_error {f : α → Fallible σ ε β} {e : ε} (h : m s = (.error e,s')) :
    (m >>= f) s = (.error e,s') := by
  show (match m s with
    | (.ok a,s') => f a s'
    | (.error e,s') => (.error e,s')) = _
  rw [h]

def fail (e : ε) : Fallible σ ε α := fun s => (.error e,s)

def read (f : σ → α) : Fallible σ ε α := fun s => (.ok (f s),s)

def update (f : σ → σ) : Fallible σ ε Unit := fun s => (.ok (),f s)

def lift (r : Except ε α) : Fallible σ ε α := fun s => (r,s)

def visit (f : α → Fallible σ ε Unit) : List α → Fallible σ ε Unit
  | [] => pure ()
  | a :: as => do
    f a
    visit f as

/-- Weakest precondition: `Q` after success, `E` after failure. -/
def wp (m : Fallible σ ε α) (Q : α → σ → Prop) (E : ε → σ → Prop) (s : σ) : Prop :=
  match m s with
  | (.ok a,s') => Q a s'
  | (.error e,s') => E e s'

variable {Q Q' : α → σ → Prop} {E E' : ε → σ → Prop} {s : σ}

@[simp] theorem wp_pure (a : α) : wp (pure a) Q E s ↔ Q a s := Iff.rfl

@[simp] theorem wp_bind (m : Fallible σ ε β) (f : β → Fallible σ ε α) :
    wp (m >>= f) Q E s ↔ wp m (fun b => wp (f b) Q E) E s := by
  simp only [wp,bind]
  rcases m s with ⟨e | b,s'⟩ <;> rfl

@[simp] theorem wp_read (f : σ → α) : wp (read f) Q E s ↔ Q (f s) s := Iff.rfl

@[simp] theorem wp_update {Q : Unit → σ → Prop} (f : σ → σ) : wp (update f) Q E s ↔ Q () (f s) := Iff.rfl

theorem wp_lift {r : Except ε α} (hok : ∀ a, r = .ok a → Q a s) (herror : ∀ e, r = .error e → E e s) :
    wp (lift r) Q E s := by
  cases r with
  | ok a => exact hok a rfl
  | error e => exact herror e rfl

variable {f : α → Fallible σ ε Unit} {m : Fallible σ ε α} {P : σ → Prop}

theorem wp_mono (h : wp m Q E s) (hQ : ∀ a s', Q a s' → Q' a s')
    (hE : ∀ e s', E e s' → E' e s') : wp m Q' E' s := by
  revert h
  simp only [wp]
  rcases m s with ⟨e | a,s'⟩
  · exact hE e s'
  · exact hQ a s'

theorem wp_state : wp m (fun _ => P) (fun _ => P) s ↔ P (m s).2 := by
  simp only [wp]
  rcases m s with ⟨e | a,s'⟩ <;> rfl

theorem of_wp_ok (h : wp m Q E s) {a : α} (ha : (m s).1 = .ok a) : Q a (m s).2 := by
  revert h ha
  simp only [wp]
  rcases m s with ⟨e | b,s'⟩
  · intro _ ha
    cases ha
  · intro h ha
    cases ha
    exact h

/-- An invariant of the rest of the list, established by each element for what follows it. -/
theorem wp_visit {I : List α → σ → Prop} {E : ε → σ → Prop}
    (hstep : ∀ a as s, I (a :: as) s → wp (f a) (fun _ => I as) E s) {as : List α} {s : σ}
    (hs : I as s) : wp (visit f as) (fun _ => I []) E s := by
  induction as generalizing s with
  | nil => exact hs
  | cons a as ih =>
    rw [visit,wp_bind]
    exact wp_mono (hstep a as s hs) (fun _ s' hs' => ih hs') (fun _ _ h => h)

theorem wp_visit_keeps
    (hstep : ∀ a s, P s → wp (f a) (fun _ => P) (fun _ => P) s) (as : List α) {s : σ} (hs : P s) :
    wp (visit f as) (fun _ => P) (fun _ => P) s :=
  wp_visit (I := fun _ => P) (fun a _ s hs => hstep a s hs) hs

section Visits
variable {R C : α → σ → σ → Prop}

/-- Going through a list, each element by a relation of its own. -/
inductive Visits (R : α → σ → σ → Prop) : List α → σ → σ → Prop
  | nil (s : σ) : Visits R [] s s
  | cons {a : α} {as : List α} {s s' s'' : σ} (hfirst : R a s s') (hrest : Visits R as s' s'') :
    Visits R (a :: as) s s''

def VisitsCut (R C : α → σ → σ → Prop) (as : List α) (s s' : σ) : Prop :=
  ∃ before a after, as = before ++ a :: after ∧ ∃ s₁, Visits R before s s₁ ∧ C a s₁ s'

theorem Visits.induct {I : List α → σ → Prop} {as : List α} {s s' : σ} (h : Visits R as s s')
    (hstep : ∀ a as s s', I (a :: as) s → R a s s' → I as s') (hs : I as s) : I [] s' := by
  induction h with
  | nil => exact hs
  | cons hfirst _ ih => exact ih (hstep _ _ _ _ hs hfirst)

theorem Visits.keeps {I : σ → Prop} {as : List α} {s s' : σ} (h : Visits R as s s')
    (hstep : ∀ a ∈ as, ∀ s s', I s → R a s s' → I s') (hs : I s) : I s' := by
  induction h with
  | nil => exact hs
  | cons hfirst _ ih =>
    exact ih (fun a ha => hstep a (mem_cons_of_mem _ ha)) (hstep _ mem_cons_self _ _ hs hfirst)

theorem Visits.split {as bs : List α} {s s' : σ} (h : Visits R (as ++ bs) s s') :
    ∃ s₁, Visits R as s s₁ ∧ Visits R bs s₁ s' := by
  induction as generalizing s with
  | nil => exact ⟨s,.nil s,h⟩
  | cons a as ih =>
    cases h with
    | cons hfirst hrest =>
      obtain ⟨s₁,has,hbs⟩ := ih hrest
      exact ⟨s₁,.cons hfirst has,hbs⟩

theorem wp_visit_visits {f : α → Fallible σ ε Unit} {as : List α}
    (hf : ∀ a ∈ as, ∀ s, wp (f a) (fun _ => R a s) (fun _ => C a s) s) (s : σ) :
    wp (visit f as) (fun _ => Visits R as s) (fun _ => VisitsCut R C as s) s := by
  induction as generalizing s with
  | nil => exact .nil s
  | cons a as ih =>
    rw [visit,wp_bind]
    refine wp_mono (hf a mem_cons_self s) (fun _ s₁ hfirst => ?_) (fun _ s₁ hcut => ?_)
    · refine wp_mono (ih (fun a ha => hf a (mem_cons_of_mem _ ha)) s₁)
        (fun _ s' hrest => .cons hfirst hrest) ?_
      rintro _ s' ⟨before,b,after,rfl,s₂,hbefore,hcut⟩
      exact ⟨a :: before,b,after,rfl,s₂,.cons hfirst hbefore,hcut⟩
    · exact ⟨[],a,as,rfl,s,.nil s,hcut⟩

end Visits

def Keeps (I : σ → Prop) (m : Fallible σ ε α) : Prop := ∀ s, I s → I (m s).2

section Keeps
variable {I : σ → Prop}

theorem keeps_pure (a : α) : Keeps I (pure a : Fallible σ ε α) := fun _ h => h

theorem keeps_fail (e : ε) : Keeps I (fail e : Fallible σ ε α) := fun _ h => h

theorem keeps_read (f : σ → α) : Keeps I (read f : Fallible σ ε α) := fun _ h => h

theorem keeps_lift (r : Except ε α) : Keeps I (lift r : Fallible σ ε α) := fun _ h => h

theorem keeps_update {f : σ → σ} (h : ∀ s, I s → I (f s)) : Keeps I (update f : Fallible σ ε Unit) := h

theorem Keeps.bind {m : Fallible σ ε α} {f : α → Fallible σ ε β} (hm : Keeps I m)
    (hf : ∀ a, Keeps I (f a)) : Keeps I (m >>= f) := by
  intro s hs
  have hnext := hm s hs
  cases hrun : m s with
  | mk r s' =>
    rw [hrun] at hnext
    cases r with
    | ok a =>
      rw [bind_of_ok hrun]
      exact hf a s' hnext
    | error e =>
      rw [bind_of_error hrun]
      exact hnext

theorem keeps_ite {p : Prop} [Decidable p] {m m' : Fallible σ ε α} (hm : Keeps I m)
    (hm' : Keeps I m') : Keeps I (if p then m else m') := by
  split_ifs
  · exact hm
  · exact hm'

theorem keeps_visit {f : α → Fallible σ ε Unit} (hf : ∀ a, Keeps I (f a)) (as : List α) :
    Keeps I (visit f as) := by
  induction as with
  | nil => exact keeps_pure ()
  | cons a as ih => exact (hf a).bind (fun _ => ih)

end Keeps

def Total (m : Fallible σ ε α) : Prop := ∀ s, ∃ a, (m s).1 = .ok a

section Total
theorem total_pure (a : α) : Total (pure a : Fallible σ ε α) := fun _ => ⟨a,rfl⟩

theorem total_read (f : σ → α) : Total (read f : Fallible σ ε α) := fun s => ⟨f s,rfl⟩

theorem total_update (f : σ → σ) : Total (update f : Fallible σ ε Unit) := fun _ => ⟨(),rfl⟩

theorem Total.bind {m : Fallible σ ε α} {f : α → Fallible σ ε β} (hm : Total m)
    (hf : ∀ a, Total (f a)) : Total (m >>= f) := by
  intro s
  obtain ⟨a,ha⟩ := hm s
  have hrun : m s = (.ok a,(m s).2) := Prod.ext ha rfl
  rw [bind_of_ok hrun]
  exact hf a _

theorem total_ite {p : Prop} [Decidable p] {m m' : Fallible σ ε α} (hm : Total m) (hm' : Total m') :
    Total (if p then m else m') := by
  split_ifs
  · exact hm
  · exact hm'

theorem total_visit {f : α → Fallible σ ε Unit} (hf : ∀ a, Total (f a)) (as : List α) :
    Total (visit f as) := by
  induction as with
  | nil => exact total_pure ()
  | cons a as ih => exact (hf a).bind (fun _ => ih)

end Total
end Fallible
end BuckyOS
