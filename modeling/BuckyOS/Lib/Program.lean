import BuckyOS.Lib.Machine

/-! Programs that execute one statement after the other and may fail. -/
namespace BuckyOS
/-- A program over statements with the types of their answers: it has ended, or it executes a
statement and goes on with the answer. -/
inductive Program {S : Type} (A : S → Type) (ε α : Type) where
  | done (result : Except ε α)
  | call (stmt : S) (next : A stmt → Program A ε α)

namespace Program
variable {S : Type} {A : S → Type} {ε α β γ : Type}

def bind (p : Program A ε α) (f : α → Program A ε β) : Program A ε β :=
  match p with
  | done (.ok a) => f a
  | done (.error e) => done (.error e)
  | call stmt next => call stmt (fun answer => (next answer).bind f)

instance : Monad (Program A ε) where
  pure a := done (.ok a)
  bind := bind

def fail (e : ε) : Program A ε α := done (.error e)

def statement (stmt : S) : Program A ε (A stmt) := call stmt (fun answer => done (.ok answer))

def forEach : List β → (β → Program A ε Unit) → Program A ε Unit
  | [], _ => done (.ok ())
  | b :: bs, f => (f b).bind (fun _ => forEach bs f)

@[simp] theorem pure_eq (a : α) : (pure a : Program A ε α) = done (.ok a) := rfl

@[simp] theorem bind_eq (p : Program A ε α) (f : α → Program A ε β) : p >>= f = p.bind f := rfl

@[simp] theorem call_bind (stmt : S) (next : A stmt → Program A ε α) (f : α → Program A ε β) :
    (call stmt next).bind f = call stmt (fun answer => (next answer).bind f) := rfl

section Alone
variable {σ ι : Type} (exec : (stmt : S) → ι → σ → A stmt × σ)

/-- A program that nothing else comes between, with the inputs of its statements: its result and
the state it leaves. -/
def run : Program A ε α → (ℕ → ι) → σ → Except ε α × σ
  | done result, _, s => (result,s)
  | call stmt next, inputs, s =>
    (next (exec stmt (inputs 0) s).1).run (fun n => inputs (n + 1)) (exec stmt (inputs 0) s).2

theorem run_bind [Subsingleton ι] (p : Program A ε α) (f : α → Program A ε β) (inputs : ℕ → ι) (s : σ) :
    (p.bind f).run exec inputs s =
      match p.run exec inputs s with
      | (.ok a,s') => (f a).run exec inputs s'
      | (.error e,s') => (.error e,s') := by
  induction p generalizing s with
  | done result => cases result <;> rfl
  | call stmt next ih =>
    have hinputs : (fun n => inputs (n + 1)) = inputs := funext fun n => Subsingleton.elim _ _
    rw [call_bind,run,run,hinputs,ih]

variable {exec} {J : ι → Prop}

end Alone
end Program
end BuckyOS
