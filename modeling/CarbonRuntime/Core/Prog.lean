import CarbonRuntime.Core.LTS

/-!
# Effect programs that may be cut short

A program over a signature `Sig` returns a value, raises an error, reads the
state, performs one atomic act on it, or hears an answer from outside. An act
is indivisible: a process that dies does so between two acts, and the state it
leaves is the one after the last act performed.

`Step` is the small-step semantics and `Steps` its closure; every program
state reached by `Steps` is one a death may leave behind. `Runs p s r s'` is a
whole run, ending in a value or an error. `finishWith` runs a program against given
answers to its end, `stepsWith` to where a death may cut it short, so that a
concrete run can be computed; `finishWith_runs` and `stepsWith_steps` say they
are runs.
-/
namespace CarbonRuntime.Core

/-- What a program runs against: states, acts and what they do, questions,
their answers, which answers the outside may give and what hearing one leaves,
and errors. -/
structure Sig where
  S : Type
  W : Type
  apply : W → S → S
  Q : Type
  A : Q → Type
  valid : (q : Q) → A q → S → Prop
  after : (q : Q) → A q → S → S
  E : Type

inductive Prog (𝔖 : Sig) (α : Type) : Type
  | ret (a : α)
  | throw (e : 𝔖.E)
  | read (k : 𝔖.S → Prog 𝔖 α)
  | act (w : 𝔖.W) (k : Prog 𝔖 α)
  | hear (q : 𝔖.Q) (k : 𝔖.A q → Prog 𝔖 α)

namespace Prog

variable {𝔖 : Sig} {α β γ : Type}

def bind : Prog 𝔖 α → (α → Prog 𝔖 β) → Prog 𝔖 β
  | ret a, f => f a
  | throw e, _ => throw e
  | read k, f => read fun s => (k s).bind f
  | act w k, f => act w (k.bind f)
  | hear q k, f => hear q fun a => (k a).bind f

instance : Monad (Prog 𝔖) where
  pure := ret
  bind := bind

/-- `try p catch h`. -/
def handle : Prog 𝔖 α → (𝔖.E → Prog 𝔖 α) → Prog 𝔖 α
  | ret a, _ => ret a
  | throw e, h => h e
  | read k, h => read fun s => (k s).handle h
  | act w k, h => act w (k.handle h)
  | hear q k, h => hear q fun a => (k a).handle h

/-- `try p finally q`: `q` runs whichever way `p` ends. -/
def andFinally (p : Prog 𝔖 α) (q : Prog 𝔖 Unit) : Prog 𝔖 α :=
  (p.handle fun e => q.bind fun _ => throw e).bind fun a => q.bind fun _ => ret a

def get : Prog 𝔖 𝔖.S := read ret

def perform (w : 𝔖.W) : Prog 𝔖 Unit := act w (ret ())

def ask (q : 𝔖.Q) : Prog 𝔖 (𝔖.A q) := hear q ret

/-- `for b of l`: the body on each element in order. -/
def each (f : β → Prog 𝔖 Unit) : List β → Prog 𝔖 Unit
  | [] => ret ()
  | b :: l => (f b).bind fun _ => each f l

/-- `for b of l` with a `break`: the rounds stop after one that answers `false`. -/
def eachWhile (f : β → Prog 𝔖 Bool) : List β → Prog 𝔖 Unit
  | [] => ret ()
  | b :: l => (f b).bind fun more => if more then eachWhile f l else ret ()

/-- A `for` loop that carries a value. -/
def fold (f : γ → β → Prog 𝔖 γ) : γ → List β → Prog 𝔖 γ
  | c, [] => ret c
  | c, b :: l => (f c b).bind fun c' => fold f c' l

theorem bind_eq (p : Prog 𝔖 α) (f : α → Prog 𝔖 β) : (p >>= f) = p.bind f := rfl

theorem pure_eq (a : α) : (pure a : Prog 𝔖 α) = ret a := rfl

@[simp] theorem bind_ret (p : Prog 𝔖 α) : p.bind ret = p := by
  induction p with
  | ret a => rfl
  | throw e => rfl
  | read k ih => simp only [bind, ih]
  | act w k ih => simp only [bind, ih]
  | hear q k ih => simp only [bind, ih]

@[simp] theorem bind_assoc (p : Prog 𝔖 α) (f : α → Prog 𝔖 β) (g : β → Prog 𝔖 γ) :
    (p.bind f).bind g = p.bind fun a => (f a).bind g := by
  induction p with
  | ret a => rfl
  | throw e => rfl
  | read k ih => simp only [bind, ih]
  | act w k ih => simp only [bind, ih]
  | hear q k ih => simp only [bind, ih]

theorem ite_bind {c : Prop} [Decidable c] (p q : Prog 𝔖 α) (f : α → Prog 𝔖 β) :
    (if c then p else q).bind f = if c then p.bind f else q.bind f := by
  split <;> rfl

/-! ## Small steps -/

inductive Step : Prog 𝔖 α × 𝔖.S → Prog 𝔖 α × 𝔖.S → Prop
  | read (k : 𝔖.S → Prog 𝔖 α) (s : 𝔖.S) : Step (.read k, s) (k s, s)
  | act (w : 𝔖.W) (k : Prog 𝔖 α) (s : 𝔖.S) : Step (.act w k, s) (k, 𝔖.apply w s)
  | hear (q : 𝔖.Q) (k : 𝔖.A q → Prog 𝔖 α) (s : 𝔖.S) (a : 𝔖.A q) :
      𝔖.valid q a s → Step (.hear q k, s) (k a, 𝔖.after q a s)

inductive Steps : Prog 𝔖 α × 𝔖.S → Prog 𝔖 α × 𝔖.S → Prop
  | refl (c : Prog 𝔖 α × 𝔖.S) : Steps c c
  | head {c c₁ c' : Prog 𝔖 α × 𝔖.S} : Step c c₁ → Steps c₁ c' → Steps c c'

theorem Steps.trans {c c₁ c' : Prog 𝔖 α × 𝔖.S} (h : Steps c c₁) (h' : Steps c₁ c') :
    Steps c c' := by
  induction h with
  | refl => exact h'
  | head hs _ ih => exact .head hs (ih h')

/-- How a program ends. -/
inductive Result (𝔖 : Sig) (α : Type)
  | ok (a : α)
  | error (e : 𝔖.E)

def Result.prog : Result 𝔖 α → Prog 𝔖 α
  | .ok a => ret a
  | .error e => throw e

/-- A whole run of `p` from `s`. -/
def Runs (p : Prog 𝔖 α) (s : 𝔖.S) (r : Result 𝔖 α) (s' : 𝔖.S) : Prop :=
  Steps (p, s) (r.prog, s')

/-! ## Running against given answers -/

/-- A whole run; the answer to the `n`-th question `q`, asked in state `s`, is `o n s q`. -/
def finishWith [∀ q a s, Decidable (𝔖.valid q a s)] (o : Nat → 𝔖.S → (q : 𝔖.Q) → 𝔖.A q) :
    Nat → Prog 𝔖 α → 𝔖.S → Option (Result 𝔖 α × 𝔖.S)
  | _, ret a, s => some (.ok a, s)
  | _, throw e, s => some (.error e, s)
  | n, read k, s => finishWith o n (k s) s
  | n, act w k, s => finishWith o n k (𝔖.apply w s)
  | n, hear q k, s =>
    if 𝔖.valid q (o n s q) s then
      finishWith o (n + 1) (k (o n s q)) (𝔖.after q (o n s q) s)
    else none

theorem finishWith_runs [∀ q a s, Decidable (𝔖.valid q a s)]
    {o : Nat → 𝔖.S → (q : 𝔖.Q) → 𝔖.A q} (p : Prog 𝔖 α) :
    ∀ {n : Nat} {s s' : 𝔖.S} {r : Result 𝔖 α}, finishWith o n p s = some (r, s') → Runs p s r s' := by
  induction p with
  | ret a => intro n s s' r h; cases h; exact .refl _
  | throw e => intro n s s' r h; cases h; exact .refl _
  | read k ih => intro n s s' r h; exact .head (.read k s) (ih s h)
  | act w k ih => intro n s s' r h; exact .head (.act w k s) (ih h)
  | hear q k ih =>
    intro n s s' r h
    simp only [finishWith] at h
    split at h
    · exact .head (.hear q k s _ ‹_›) (ih _ h)
    · cases h

/-- Where a run leads that ends and raises nothing. -/
def after [∀ q a s, Decidable (𝔖.valid q a s)] (o : Nat → 𝔖.S → (q : 𝔖.Q) → 𝔖.A q)
    (p : Prog 𝔖 α) (s : 𝔖.S) : Option 𝔖.S :=
  match finishWith o 0 p s with
  | some (.ok _, s') => some s'
  | _ => none

theorem after_runs [∀ q a s, Decidable (𝔖.valid q a s)] {o : Nat → 𝔖.S → (q : 𝔖.Q) → 𝔖.A q}
    {p : Prog 𝔖 Unit} {s s' : 𝔖.S} (h : after o p s = some s') : Runs p s (.ok ()) s' := by
  unfold after at h
  split at h
  · rename_i hf
    cases h
    exact finishWith_runs p hf
  · cases h

/-- What is left after at most `fuel` steps, with the number of questions asked. -/
def stepsWith [∀ q a s, Decidable (𝔖.valid q a s)] (o : Nat → 𝔖.S → (q : 𝔖.Q) → 𝔖.A q) :
    Nat → Nat → Prog 𝔖 α → 𝔖.S → Prog 𝔖 α × 𝔖.S
  | 0, _, p, s => (p, s)
  | _ + 1, _, ret a, s => (ret a, s)
  | _ + 1, _, throw e, s => (throw e, s)
  | fuel + 1, n, read k, s => stepsWith o fuel n (k s) s
  | fuel + 1, n, act w k, s => stepsWith o fuel n k (𝔖.apply w s)
  | fuel + 1, n, hear q k, s =>
    if 𝔖.valid q (o n s q) s then
      stepsWith o fuel (n + 1) (k (o n s q)) (𝔖.after q (o n s q) s)
    else (hear q k, s)

theorem stepsWith_steps [∀ q a s, Decidable (𝔖.valid q a s)]
    {o : Nat → 𝔖.S → (q : 𝔖.Q) → 𝔖.A q} (fuel : Nat) :
    ∀ (n : Nat) (p : Prog 𝔖 α) (s : 𝔖.S), Steps (p, s) (stepsWith o fuel n p s) := by
  induction fuel with
  | zero => intro n p s; exact .refl _
  | succ fuel ih =>
    intro n p s
    cases p with
    | ret a => exact .refl _
    | throw e => exact .refl _
    | read k => exact .head (.read k s) (ih n (k s) s)
    | act w k => exact .head (.act w k s) (ih n k _)
    | hear q k =>
      rw [stepsWith]
      split
      · exact .head (.hear q k s _ ‹_›) (ih _ _ _)
      · exact .refl _

end Prog

end CarbonRuntime.Core
