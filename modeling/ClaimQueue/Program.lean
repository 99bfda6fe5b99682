/-! Programs that ask their surroundings. A program is a tree: it is done, or it asks a question and
goes on with the answer. The same program runs against a simulated queue, a scripted broker or a
real one. Loops get a number of rounds; a program that used up its rounds has no result. -/

namespace ClaimQueue

/-- What may be asked, and with what each question is answered. -/
structure Interface where
  Request : Type
  Answer : Request → Type

inductive Program (I : Interface) (α : Type) where
  | done (a : α)
  | ask (q : I.Request) (next : I.Answer q → Program I α)
  /-- A loop has used up its rounds. -/
  | spent

namespace Program

variable {I J : Interface} {α β γ σ : Type}

def bind : Program I α → (α → Program I β) → Program I β
  | done a, f => f a
  | ask q next, f => ask q fun r => (next r).bind f
  | spent, _ => spent

instance : Monad (Program I) where
  pure := done
  bind := bind

def call (q : I.Request) : Program I (I.Answer q) := ask q done

theorem pure_eq (a : α) : (pure a : Program I α) = done a := rfl

theorem bind_eq (p : Program I α) (f : α → Program I β) : p >>= f = p.bind f := rfl

theorem bind_done (p : Program I α) : p.bind done = p := by
  induction p with
  | done a => rfl
  | ask q next ih => simp only [bind, ih]
  | spent => rfl

theorem bind_assoc (p : Program I α) (f : α → Program I β) (g : β → Program I γ) :
    (p.bind f).bind g = p.bind fun a => (f a).bind g := by
  induction p with
  | done a => rfl
  | ask q next ih => simp only [bind, ih]
  | spent => rfl

instance : LawfulMonad (Program I) :=
  LawfulMonad.mk' (Program I) (fun p => bind_done p) (fun _ _ => rfl) bind_assoc

/-- At most `rounds` rounds: `.inl` starts another, `.inr` is the result. -/
def loop (body : σ → Program I (σ ⊕ α)) : (rounds : Nat) → σ → Program I α
  | 0, _ => spent
  | rounds + 1, s => (body s).bind fun
    | .inl s => loop body rounds s
    | .inr a => done a

/-- The same for rounds that can fail: a failure ends the loop. -/
def tryLoop {ε : Type} (body : σ → ExceptT ε (Program I) (σ ⊕ α)) (rounds : Nat) (s : σ) :
    ExceptT ε (Program I) α :=
  ExceptT.mk (loop (fun s => (body s).run.bind fun
    | .ok (.inl s) => done (.inl s)
    | .ok (.inr a) => done (.inr (.ok a))
    | .error e => done (.inr (.error e))) rounds s)

/-- The same program, with each question answered by a program over another interface that carries a
state along. -/
def through (answer : (q : I.Request) → σ → Program J (I.Answer q × σ)) :
    Program I α → σ → Program J (α × σ)
  | done a, s => done (a, s)
  | ask q next, s => (answer q s).bind fun r => (next r.1).through answer r.2
  | spent, _ => spent

/-- The same program, with each question answered by a program over another interface. -/
def lower (answer : (q : I.Request) → Program J (I.Answer q)) : Program I α → Program J α
  | done a => done a
  | ask q next => (answer q).bind fun r => (next r).lower answer
  | spent => spent

/-- The result and the state left, in surroundings that answer at once. -/
def run (answer : (q : I.Request) → σ → I.Answer q × σ) : Program I α → σ → Option α × σ
  | done a, s => (some a, s)
  | ask q next, s => (next (answer q s).1).run answer (answer q s).2
  | spent, s => (none, s)

theorem run_bind (answer : (q : I.Request) → σ → I.Answer q × σ) (p : Program I α)
    (f : α → Program I β) (s : σ) :
    (p.bind f).run answer s =
      match p.run answer s with
      | (some a, s) => (f a).run answer s
      | (none, s) => (none, s) := by
  induction p generalizing s with
  | done a => rfl
  | ask q next ih => exact ih _ _
  | spent => rfl

end Program

end ClaimQueue
