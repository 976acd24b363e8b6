import CarbonRuntime.Core.Prog

/-!
# Weakest preconditions for programs that may be cut short

A `Proto` says what the acts of a program may do: an invariant `inv`, a guard
`ok` on each act, what is known of each answer (`heard`), and what others may
do to the state while the answer to a question is awaited (`rely`). `wp P p Q X s`
holds when every act `p` performs from `s` meets its guard, and `p` ends in `Q`
if it returns and in `X` if it raises; the invariant may be assumed after each
act and each answer.

Soundness is about every prefix of a run, so it speaks of the states a death
leaves behind: `wp_steps` keeps the invariant and `wp` itself along `Steps`,
`wp_waits` keeps them under what others do to a program that waits for an
answer, and `wp_runs` gives `Q` or `X` at the end of a whole run.

The rules are one for each way programs are put together: `wp_bind`,
`wp_handle`, `wp_andFinally`, `wp_each`, `wp_fold`; `wp_mono` weakens the
postconditions, and `Proto.both` strengthens a protocol by a property its acts
keep (`wp_both`).
-/
namespace CarbonRuntime.Core

structure Proto (𝔖 : Sig) where
  inv : 𝔖.S → Prop
  ok : 𝔖.W → 𝔖.S → Prop
  heard : (q : 𝔖.Q) → 𝔖.A q → 𝔖.S → Prop
  rely : 𝔖.Q → 𝔖.S → 𝔖.S → Prop
  act_inv : ∀ w s, inv s → ok w s → inv (𝔖.apply w s)
  hear_inv : ∀ q a s, inv s → heard q a s → inv (𝔖.after q a s)
  rely_inv : ∀ q s s', inv s → rely q s s' → inv s'
  rely_refl : ∀ q s, rely q s s
  rely_trans : ∀ q s s₁ s', rely q s s₁ → rely q s₁ s' → rely q s s'

namespace Prog

variable {𝔖 : Sig} {α β γ : Type}

def wp (P : Proto 𝔖) : Prog 𝔖 α → (α → 𝔖.S → Prop) → (𝔖.E → 𝔖.S → Prop) → 𝔖.S → Prop
  | ret a, Q, _, s => Q a s
  | throw e, _, X, s => X e s
  | read k, Q, X, s => wp P (k s) Q X s
  | act w k, Q, X, s => P.ok w s ∧ (P.inv (𝔖.apply w s) → wp P k Q X (𝔖.apply w s))
  | hear q k, Q, X, s =>
    ∀ s₁, P.rely q s s₁ → ∀ a, P.heard q a s₁ → P.inv (𝔖.after q a s₁) →
      wp P (k a) Q X (𝔖.after q a s₁)

section Rules
variable {P : Proto 𝔖} {Q : α → 𝔖.S → Prop} {X : 𝔖.E → 𝔖.S → Prop} {s : 𝔖.S}

@[simp] theorem wp_ret (a : α) : wp P (ret a) Q X s ↔ Q a s := Iff.rfl

@[simp] theorem wp_pure (a : α) : wp P (Pure.pure a) Q X s ↔ Q a s := Iff.rfl

@[simp] theorem wp_throw (e : 𝔖.E) : wp P (throw e : Prog 𝔖 α) Q X s ↔ X e s := Iff.rfl

@[simp] theorem wp_get {Q : 𝔖.S → 𝔖.S → Prop} : wp P get Q X s ↔ Q s s := Iff.rfl

@[simp] theorem wp_perform {Q : Unit → 𝔖.S → Prop} (w : 𝔖.W) :
    wp P (perform w) Q X s ↔ P.ok w s ∧ (P.inv (𝔖.apply w s) → Q () (𝔖.apply w s)) := Iff.rfl

theorem wp_read (k : 𝔖.S → Prog 𝔖 α) : wp P (read k) Q X s ↔ wp P (k s) Q X s := Iff.rfl

theorem wp_act (w : 𝔖.W) (k : Prog 𝔖 α) :
    wp P (act w k) Q X s ↔ P.ok w s ∧ (P.inv (𝔖.apply w s) → wp P k Q X (𝔖.apply w s)) := Iff.rfl

theorem wp_hear (q : 𝔖.Q) (k : 𝔖.A q → Prog 𝔖 α) :
    wp P (hear q k) Q X s ↔ ∀ s₁, P.rely q s s₁ → ∀ a, P.heard q a s₁ →
      P.inv (𝔖.after q a s₁) → wp P (k a) Q X (𝔖.after q a s₁) := Iff.rfl

@[simp] theorem wp_ask (q : 𝔖.Q) {Q : 𝔖.A q → 𝔖.S → Prop} :
    wp P (ask q) Q X s ↔ ∀ s₁, P.rely q s s₁ → ∀ a, P.heard q a s₁ →
      P.inv (𝔖.after q a s₁) → Q a (𝔖.after q a s₁) := Iff.rfl

theorem wp_bind' (p : Prog 𝔖 α) (f : α → Prog 𝔖 β) {Q : β → 𝔖.S → Prop} :
    wp P (p.bind f) Q X s ↔ wp P p (fun a s' => wp P (f a) Q X s') X s := by
  induction p generalizing s with
  | ret a => rfl
  | throw e => rfl
  | read k ih => exact ih s
  | act w k ih => exact and_congr_right fun _ => imp_congr_right fun _ => ih
  | hear q k ih =>
    exact forall₂_congr fun s₁ _ => forall₃_congr fun a _ _ => ih a

@[simp] theorem wp_bind (p : Prog 𝔖 α) (f : α → Prog 𝔖 β) {Q : β → 𝔖.S → Prop} :
    wp P (p >>= f) Q X s ↔ wp P p (fun a s' => wp P (f a) Q X s') X s := wp_bind' p f

@[simp] theorem wp_handle (p : Prog 𝔖 α) (h : 𝔖.E → Prog 𝔖 α) :
    wp P (p.handle h) Q X s ↔ wp P p Q (fun e s' => wp P (h e) Q X s') s := by
  induction p generalizing s with
  | ret a => rfl
  | throw e => rfl
  | read k ih => exact ih s
  | act w k ih => exact and_congr_right fun _ => imp_congr_right fun _ => ih
  | hear q k ih =>
    exact forall₂_congr fun s₁ _ => forall₃_congr fun a _ _ => ih a

@[simp] theorem wp_andFinally (p : Prog 𝔖 α) (q : Prog 𝔖 Unit) :
    wp P (p.andFinally q) Q X s ↔
      wp P p (fun a s' => wp P q (fun _ => Q a) X s')
        (fun e s' => wp P q (fun _ => X e) X s') s := by
  simp only [andFinally, wp_bind', wp_handle, wp_ret, wp_throw]

theorem wp_mono {Q' : α → 𝔖.S → Prop} {X' : 𝔖.E → 𝔖.S → Prop} (p : Prog 𝔖 α)
    (h : wp P p Q X s) (hQ : ∀ a s', Q a s' → Q' a s') (hX : ∀ e s', X e s' → X' e s') :
    wp P p Q' X' s := by
  induction p generalizing s with
  | ret a => exact hQ a s h
  | throw e => exact hX e s h
  | read k ih => exact ih s h
  | act w k ih => exact ⟨h.1, fun hi => ih (h.2 hi)⟩
  | hear q k ih => exact fun s₁ hr a ha hi => ih a (h s₁ hr a ha hi)

/-- `wp_mono` where the end also satisfies the invariant. -/
theorem wp_mono_inv {Q' : α → 𝔖.S → Prop} {X' : 𝔖.E → 𝔖.S → Prop} (p : Prog 𝔖 α)
    (hs : P.inv s) (h : wp P p Q X s) (hQ : ∀ a s', P.inv s' → Q a s' → Q' a s')
    (hX : ∀ e s', P.inv s' → X e s' → X' e s') : wp P p Q' X' s := by
  induction p generalizing s with
  | ret a => exact hQ a s hs h
  | throw e => exact hX e s hs h
  | read k ih => exact ih s hs h
  | act w k ih => exact ⟨h.1, fun hi => ih hi (h.2 hi)⟩
  | hear q k ih => exact fun s₁ hr a ha hi => ih a hi (h s₁ hr a ha hi)

/-- Loop rule: `J` of the elements still to come holds before each round. -/
theorem wp_each {J : List β → 𝔖.S → Prop} (f : β → Prog 𝔖 Unit)
    (hf : ∀ b l s, J (b :: l) s → wp P (f b) (fun _ => J l) X s) (l : List β) :
    ∀ s, J l s → wp P (each f l) (fun _ => J []) X s := by
  induction l with
  | nil => intro s h; exact h
  | cons b l ih =>
    intro s h
    rw [each, wp_bind']
    exact wp_mono _ (hf b l s h) (fun _ s' hj => ih s' hj) fun _ _ hx => hx

/-- With a `break`: `J` of nothing where the rounds were all made, else what
the last round made says of its end. -/
theorem wp_eachWhile {J : List β → 𝔖.S → Prop} {K : 𝔖.S → Prop} (f : β → Prog 𝔖 Bool)
    (hf : ∀ b l s, J (b :: l) s →
      wp P (f b) (fun more s' => if more = true then J l s' else K s') X s) (l : List β) :
    ∀ s, J l s → wp P (eachWhile f l) (fun _ s' => J [] s' ∨ K s') X s := by
  induction l with
  | nil => intro s h; exact .inl h
  | cons b l ih =>
    intro s h
    rw [eachWhile, wp_bind']
    refine wp_mono _ (hf b l s h) (fun more s' hj => ?_) fun _ _ hx => hx
    cases more with
    | true => exact ih s' hj
    | false => exact .inr hj

theorem wp_fold {J : γ → List β → 𝔖.S → Prop} (f : γ → β → Prog 𝔖 γ)
    (hf : ∀ c b l s, J c (b :: l) s → wp P (f c b) (fun c' => J c' l) X s) (l : List β) :
    ∀ c s, J c l s → wp P (fold f c l) (fun c' => J c' []) X s := by
  induction l with
  | nil => intro c s h; exact h
  | cons b l ih =>
    intro c s h
    rw [fold, wp_bind']
    exact wp_mono _ (hf c b l s h) (fun c' s' hj => ih c' s' hj) fun _ _ hx => hx

end Rules

/-! ## Soundness -/

variable {P : Proto 𝔖} {Q : α → 𝔖.S → Prop} {X : 𝔖.E → 𝔖.S → Prop}

theorem wp_step (hv : ∀ q a s, 𝔖.valid q a s → P.heard q a s) {c c' : Prog 𝔖 α × 𝔖.S}
    (h : Step c c') (hi : P.inv c.2) (hw : wp P c.1 Q X c.2) :
    P.inv c'.2 ∧ wp P c'.1 Q X c'.2 := by
  cases h with
  | read k s => exact ⟨hi, hw⟩
  | act w k s =>
    have hi' := P.act_inv w s hi hw.1
    exact ⟨hi', hw.2 hi'⟩
  | hear q k s a ha =>
    have hi' := P.hear_inv q a s hi (hv q a s ha)
    exact ⟨hi', hw s (P.rely_refl q s) a (hv q a s ha) hi'⟩

theorem wp_steps (hv : ∀ q a s, 𝔖.valid q a s → P.heard q a s) {c c' : Prog 𝔖 α × 𝔖.S}
    (h : Steps c c') (hi : P.inv c.2) (hw : wp P c.1 Q X c.2) :
    P.inv c'.2 ∧ wp P c'.1 Q X c'.2 := by
  induction h with
  | refl => exact ⟨hi, hw⟩
  | head hs _ ih =>
    obtain ⟨hi', hw'⟩ := wp_step hv hs hi hw
    exact ih hi' hw'

theorem wp_runs (hv : ∀ q a s, 𝔖.valid q a s → P.heard q a s) {p : Prog 𝔖 α} {s s' : 𝔖.S}
    {r : Result 𝔖 α} (h : Runs p s r s') (hi : P.inv s) (hw : wp P p Q X s) :
    P.inv s' ∧ match r with
      | .ok a => Q a s'
      | .error e => X e s' := by
  obtain ⟨hi', hw'⟩ := wp_steps hv h hi hw
  refine ⟨hi', ?_⟩
  cases r <;> exact hw'

end Prog

/-! ## Strengthening -/

variable {𝔖 : Sig}

/-- A property that the acts, the answers and the others keep. -/
structure Proto.Keeps (P : Proto 𝔖) (J : 𝔖.S → Prop) : Prop where
  act : ∀ w s, P.inv s → J s → P.ok w s → P.inv (𝔖.apply w s) → J (𝔖.apply w s)
  hear : ∀ q a s, P.inv s → J s → P.heard q a s → J (𝔖.after q a s)
  rely : ∀ q s s', P.inv s → J s → P.rely q s s' → J s'

/-- The protocol with `J` in its invariant. -/
def Proto.both (P : Proto 𝔖) (J : 𝔖.S → Prop) (hJ : P.Keeps J) : Proto 𝔖 where
  inv s := P.inv s ∧ J s
  ok := P.ok
  heard := P.heard
  rely := P.rely
  act_inv w s hi ho :=
    have hi' := P.act_inv w s hi.1 ho
    ⟨hi', hJ.act w s hi.1 hi.2 ho hi'⟩
  hear_inv q a s hi hh := ⟨P.hear_inv q a s hi.1 hh, hJ.hear q a s hi.1 hi.2 hh⟩
  rely_inv q s s' hi hr := ⟨P.rely_inv q s s' hi.1 hr, hJ.rely q s s' hi.1 hi.2 hr⟩
  rely_refl := P.rely_refl
  rely_trans := P.rely_trans

/-- What is shown against a protocol holds against the stronger one. -/
theorem Prog.wp_both {P : Proto 𝔖} {J : 𝔖.S → Prop} (hJ : P.Keeps J) {α : Type}
    {Q : α → 𝔖.S → Prop} {X : 𝔖.E → 𝔖.S → Prop} (p : Prog 𝔖 α) {s : 𝔖.S} (h : wp P p Q X s)
    (hs : (P.both J hJ).inv s) :
    wp (P.both J hJ) p (fun a s' => (P.both J hJ).inv s' ∧ Q a s')
      (fun e s' => (P.both J hJ).inv s' ∧ X e s') s := by
  induction p generalizing s with
  | ret a => exact ⟨hs, h⟩
  | throw e => exact ⟨hs, h⟩
  | read k ih => exact ih s h hs
  | act w k ih => exact ⟨h.1, fun hi' => ih (h.2 hi'.1) hi'⟩
  | hear q k ih => exact fun s₁ hr a ha hi' => ih a (h s₁ hr a ha hi'.1) hi'

-- From here on `wp` is read through its rules: the unifier is not to run programs.
attribute [irreducible] Prog.wp

end CarbonRuntime.Core
