import CarbonRuntime.Core.Wp

/-!
# What a program comes to, as a function

A `Task` works on data of one type and may raise; what it did before it raised stands. A
program that asks nothing outside comes to what a task says of the part `π` of its state
(`Computes`), under any protocol its acts keep: the rules are one for each way programs are
put together, and `Computes.runs` reads the task off a whole run.
-/
namespace CarbonRuntime.Core

def Task (D E α : Type) := D → Except E α × D

namespace Task

variable {D E α β γ : Type}

def ret (a : α) : Task D E α := fun d => (.ok a, d)

def throw (e : E) : Task D E α := fun d => (.error e, d)

def lift (x : Except E α) : Task D E α := fun d => (x, d)

def bind (m : Task D E α) (f : α → Task D E β) : Task D E β := fun d =>
  match m d with
  | (.ok a, d') => f a d'
  | (.error e, d') => (.error e, d')

def get : Task D E D := fun d => (.ok d, d)

/-- `for b of l`. -/
def each (f : β → Task D E Unit) : List β → Task D E Unit
  | [] => ret ()
  | b :: l => (f b).bind fun _ => each f l

section
variable {m : Task D E α} {f : α → Task D E β} {d d' : D}

theorem bind_of_ok {a : α} (h : m d = (.ok a, d')) : m.bind f d = f a d' := by
  rw [bind, h]

theorem bind_of_error {e : E} (h : m d = (.error e, d')) : m.bind f d = (.error e, d') := by
  rw [bind, h]

/-- What returns has returned on the way. -/
theorem bind_ok {b : β} (h : m.bind f d = (.ok b, d')) :
    ∃ a d₁, m d = (.ok a, d₁) ∧ f a d₁ = (.ok b, d') := by
  unfold bind at h
  split at h
  · rename_i a d₁ hm
    exact ⟨a, d₁, hm, h⟩
  · cases h

/-- What the first part keeps and the second part keeps, whether they return or raise. -/
theorem bind_keeps {K : D → Prop} (hm : K (m d).2) (hf : ∀ a d', K d' → K (f a d').2) :
    K (m.bind f d).2 := by
  unfold bind
  split
  · rename_i a d₁ h
    rw [h] at hm
    exact hf a d₁ hm
  · rename_i e d₁ h
    rwa [h] at hm

end

section
variable {f : β → Task D E Unit}

theorem each_cons (b : β) (l : List β) : each f (b :: l) = (f b).bind fun _ => each f l := rfl

/-- What every round keeps, the loop keeps, whether it returns or raises. -/
theorem each_keeps {K : D → Prop} {l : List β} (hf : ∀ b ∈ l, ∀ d, K d → K (f b d).2) :
    ∀ d, K d → K (each f l d).2 := by
  induction l with
  | nil => exact fun d h => h
  | cons b l ih =>
    intro d h
    exact bind_keeps (hf b List.mem_cons_self d h) fun _ d' h' =>
      ih (fun c hc => hf c (List.mem_cons_of_mem _ hc)) d' h'

end

end Task

/-- Every run of `p` from `s` ends as `m` says of `π s`. -/
def Computes {𝔖 : Sig} {D α : Type} (P : Proto 𝔖) (π : 𝔖.S → D) (p : Prog 𝔖 α)
    (m : Task D 𝔖.E α) (s : 𝔖.S) : Prop :=
  Prog.wp P p (fun a s' => m (π s) = (.ok a, π s')) (fun e s' => m (π s) = (.error e, π s')) s

namespace Computes

variable {𝔖 : Sig} {D α β : Type} {P : Proto 𝔖} {π : 𝔖.S → D} {p : Prog 𝔖 α}
  {m : Task D 𝔖.E α} {s : 𝔖.S}

theorem ret (a : α) : Computes P π (.ret a) (.ret a) s := (Prog.wp_ret a).2 rfl

theorem throw (e : 𝔖.E) : Computes P π (.throw e : Prog 𝔖 α) (.throw e) s :=
  (Prog.wp_throw e).2 rfl

theorem bind {f : α → Prog 𝔖 β} {g : α → Task D 𝔖.E β} (h : Computes P π p m s)
    (hf : ∀ a s', m (π s) = (.ok a, π s') → Computes P π (f a) (g a) s') :
    Computes P π (p.bind f) (m.bind g) s := by
  rw [Computes, Prog.wp_bind']
  refine Prog.wp_mono _ h (fun a s' hm => ?_) fun e s' hm => Task.bind_of_error hm
  rw [Task.bind_of_ok hm]
  exact hf a s' hm

/-- `K` holds before each round that is made. -/
theorem each {β : Type} {K : D → Prop} {f : β → Prog 𝔖 Unit} {g : β → Task D 𝔖.E Unit}
    {l : List β} (hf : ∀ b ∈ l, ∀ s, K (π s) → Computes P π (f b) (g b) s)
    (hK : ∀ b ∈ l, ∀ d d', K d → g b d = (.ok (), d') → K d') :
    ∀ s, K (π s) → Computes P π (Prog.each f l) (Task.each g l) s := by
  induction l with
  | nil => exact fun s _ => .ret ()
  | cons b l ih =>
    intro s hs
    refine (hf b List.mem_cons_self s hs).bind fun _ s' hm => ?_
    exact ih (fun c hc => hf c (List.mem_cons_of_mem _ hc))
      (fun c hc => hK c (List.mem_cons_of_mem _ hc)) s' (hK b List.mem_cons_self _ _ hs hm)

theorem runs (hv : ∀ q a s, 𝔖.valid q a s → P.heard q a s) {r : Prog.Result 𝔖 α} {s' : 𝔖.S}
    (h : Prog.Runs p s r s') (hi : P.inv s) (hc : Computes P π p m s) :
    match r with
      | .ok a => m (π s) = (.ok a, π s')
      | .error e => m (π s) = (.error e, π s') := by
  have := (Prog.wp_runs hv h hi hc).2
  cases r <;> exact this

end Computes

end CarbonRuntime.Core
