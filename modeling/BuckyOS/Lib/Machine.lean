import Mathlib.Tactic

/-! Machines that answer each input and move to a next state: their runs, conditions
met at every step of a run, and the rules that carry a one-step fact to a whole run. -/
namespace BuckyOS.Machine
variable {σ τ ι ο : Type}

def run (step : σ → ι → ο × σ) : σ → List ι → List ο × σ
  | s, [] => ([],s)
  | s, x :: xs =>
    let rest := run step (step s x).2 xs
    ((step s x).1 :: rest.1,rest.2)

/-- A condition on the state and the input met at every step of a run. -/
def Along (step : σ → ι → ο × σ) (P : σ → ι → Prop) : σ → List ι → Prop
  | _, [] => True
  | s, x :: xs => P s x ∧ Along step P (step s x).2 xs

instance instDecidableAlong (step : σ → ι → ο × σ) (P : σ → ι → Prop) [∀ s x, Decidable (P s x)] :
    ∀ s xs, Decidable (Along step P s xs)
  | _, [] => inferInstanceAs (Decidable True)
  | s, x :: xs =>
    have := instDecidableAlong step P (step s x).2 xs
    inferInstanceAs (Decidable (P s x ∧ Along step P (step s x).2 xs))

variable (step : σ → ι → ο × σ) (s : σ)

@[simp] theorem run_nil : run step s [] = ([],s) := rfl

@[simp] theorem run_cons (x : ι) (xs : List ι) : run step s (x :: xs) =
      ((step s x).1 :: (run step (step s x).2 xs).1,(run step (step s x).2 xs).2) := rfl

theorem run_append (xs ys : List ι) : run step s (xs ++ ys) =
      ((run step s xs).1 ++ (run step (run step s xs).2 ys).1,(run step (run step s xs).2 ys).2) := by
  induction xs generalizing s with
  | nil => rfl
  | cons x xs ih => simp [ih]

theorem run_getElem? (xs : List ι) (i : ℕ) :
    (run step s xs).1[i]? = xs[i]?.map (fun x => (step (run step s (xs.take i)).2 x).1) := by
  induction xs generalizing s i with
  | nil => rfl
  | cons x xs ih =>
    cases i with
    | zero => rfl
    | succ i => simpa using ih (step s x).2 i

variable {xs : List ι}

theorem run_take_succ (step : σ → ι → ο × σ) (s : σ) {i : ℕ} {x : ι} (h : xs[i]? = some x) :
    (run step s (xs.take (i + 1))).2 = (step (run step s (xs.take i)).2 x).2 := by
  rw [List.take_add_one,h,run_append]
  rfl

variable {step : σ → ι → ο × σ} {I : σ → Prop} {s : σ}

theorem run_invariant (hstep : ∀ s x, I s → I (step s x).2) (hs : I s) (xs : List ι) :
    I (run step s xs).2 := by
  induction xs generalizing s with
  | nil => exact hs
  | cons x xs ih => exact ih (hstep s x hs)

variable {P : σ → ι → Prop}

/-- What every step that meets a condition keeps, a run that meets it throughout keeps. -/
theorem run_invariant_along (hstep : ∀ s x, I s → P s x → I (step s x).2) (hs : I s)
    (hxs : Along step P s xs) : I (run step s xs).2 := by
  induction xs generalizing s with
  | nil => exact hs
  | cons x xs ih => exact ih (hstep s x hs hxs.1) hxs.2

variable {Q : σ → ι → Prop} {spec : τ → ι → ο × τ} {R : σ → τ → Prop} {t : τ}

theorem Along.mono (h : ∀ s x, P s x → Q s x) (hxs : Along step P s xs) :
    Along step Q s xs := by
  induction xs generalizing s with
  | nil => trivial
  | cons x xs ih => exact ⟨h s x hxs.1,ih hxs.2⟩

theorem along_append {ys : List ι} :
    Along step P s (xs ++ ys) ↔ Along step P s xs ∧ Along step P (run step s xs).2 ys := by
  induction xs generalizing s with
  | nil => simp [Along]
  | cons x xs ih => simp [Along,ih,and_assoc]

theorem Along.take (h : Along step P s xs) (k : ℕ) : Along step P s (xs.take k) := by
  rw [← List.take_append_drop k xs,along_append] at h
  exact h.1

theorem Along.of_getElem? (h : Along step P s xs) {k : ℕ} {x : ι} (hx : xs[k]? = some x) :
    P (run step s (xs.take k)).2 x := by
  induction xs generalizing s k with
  | nil => cases hx
  | cons y xs ih =>
    cases k with
    | zero => exact Option.some.inj hx ▸ h.1
    | succ k => exact ih h.2 hx

/-- Lockstep simulation: related states answer an input alike, step by step and so run by
run. -/
theorem run_simulates {P : ι → Prop}
    (hstep : ∀ s t x, R s t → P x → (step s x).1 = (spec t x).1 ∧ R (step s x).2 (spec t x).2)
    (hst : R s t) (hxs : ∀ x ∈ xs, P x) :
    (run step s xs).1 = (run spec t xs).1 ∧ R (run step s xs).2 (run spec t xs).2 := by
  induction xs generalizing s t with
  | nil => exact ⟨rfl,hst⟩
  | cons x xs ih =>
    obtain ⟨hout,hnext⟩ := hstep s t x hst (hxs x (by simp))
    obtain ⟨houts,hlast⟩ := ih hnext (fun y hy => hxs y (List.mem_cons_of_mem x hy))
    exact ⟨by rw [run_cons,run_cons,hout,houts],hlast⟩

theorem run_simulates_along {P : τ → ι → Prop}
    (hstep : ∀ s t x, R s t → P t x → (step s x).1 = (spec t x).1 ∧ R (step s x).2 (spec t x).2)
    (hst : R s t) (hxs : Along spec P t xs) :
    (run step s xs).1 = (run spec t xs).1 ∧ R (run step s xs).2 (run spec t xs).2 := by
  induction xs generalizing s t with
  | nil => exact ⟨rfl,hst⟩
  | cons x xs ih =>
    obtain ⟨hout,hnext⟩ := hstep s t x hst hxs.1
    obtain ⟨houts,hlast⟩ := ih hnext hxs.2
    exact ⟨by rw [run_cons,run_cons,hout,houts],hlast⟩

/-- When every step that meets a condition keeps an invariant and every other step leads to a
bad state, a run passes only good states exactly if all its steps meet the condition. -/
theorem always_iff_along {good : σ → Prop} (hgood : ∀ s, I s → good s)
    (hkeep : ∀ s x, I s → P s x → Q s x → I (step s x).2)
    (hbreak : ∀ s x, I s → P s x → ¬ Q s x → ¬ good (step s x).2) (hs : I s)
    (hxs : Along step P s xs) : (∀ k, good (run step s (xs.take k)).2) ↔ Along step Q s xs := by
  induction xs generalizing s with
  | nil =>
    constructor
    · exact fun _ => trivial
    · intro _ k
      rw [List.take_nil]
      exact hgood s hs
  | cons x xs ih =>
    obtain ⟨hx,hrest⟩ := hxs
    by_cases hq : Q s x
    · have hnext := ih (hkeep s x hs hx hq) hrest
      constructor
      · intro hall
        exact ⟨hq,hnext.mp (fun k => hall (k + 1))⟩
      · rintro ⟨_,halong⟩ k
        cases k with
        | zero => exact hgood s hs
        | succ k => exact hnext.mpr halong k
    · constructor
      · intro hall
        have hone := hall 1
        rw [List.take_succ_cons,List.take_zero] at hone
        exact absurd hone (hbreak s x hs hx hq)
      · exact fun halong => absurd halong.1 hq

end BuckyOS.Machine
