import Mathlib.Order.Basic

/-!
# Labelled transition systems

States, labels, an initial predicate and a step relation. A `Run` is a finite
path with its labels; `Reachable` states are the ends of runs from initial
states. `Inductive I` packages the induction once: `I` holds initially and is
kept by every step, so it holds in every reachable state
(`Inductive.reachable`) and along every run (`Inductive.run`).
-/
namespace CarbonRuntime.Core

structure LTS (S L : Type*) where
  init : S → Prop
  step : S → L → S → Prop

namespace LTS

variable {S L : Type*}

inductive Run (T : LTS S L) : S → List L → S → Prop
  | nil (s : S) : Run T s [] s
  | cons {s s₁ s' : S} {l : L} {ls : List L} :
      T.step s l s₁ → Run T s₁ ls s' → Run T s (l :: ls) s'

def Reachable (T : LTS S L) (s : S) : Prop := ∃ s0 ls, T.init s0 ∧ T.Run s0 ls s

structure Inductive (T : LTS S L) (I : S → Prop) : Prop where
  init : ∀ s, T.init s → I s
  step : ∀ s l s', I s → T.step s l s' → I s'

theorem Inductive.run {T : LTS S L} {I : S → Prop} (h : T.Inductive I) {s s' : S} {ls : List L}
    (hr : T.Run s ls s') (hs : I s) : I s' := by
  induction hr with
  | nil => exact hs
  | cons hst _ ih => exact ih (h.step _ _ _ hs hst)

theorem Inductive.reachable {T : LTS S L} {I : S → Prop} (h : T.Inductive I) (s : S)
    (hr : T.Reachable s) : I s := by
  obtain ⟨s0, ls, h0, hr⟩ := hr
  exact h.run hr (h.init s0 h0)

/-- What each of these steps keeps, the run keeps. -/
theorem Run.keeps {T : LTS S L} {I : S → Prop} {s s' : S} {ls : List L} (hr : T.Run s ls s') (hs : I s)
    (h : ∀ s l s', l ∈ ls → I s → T.step s l s' → I s') : I s' := by
  induction hr with
  | nil => exact hs
  | cons hst _ ih =>
    exact ih (h _ _ _ (List.mem_cons_self ..) hs hst) fun s l s' hl => h s l s' (List.mem_cons_of_mem _ hl)

theorem Run.append {T : LTS S L} {s s₁ s' : S} {ls ls' : List L} (h : T.Run s ls s₁)
    (h' : T.Run s₁ ls' s') : T.Run s (ls ++ ls') s' := by
  induction h with
  | nil => exact h'
  | cons hst _ ih => exact .cons hst (ih h')

theorem Reachable.step {T : LTS S L} {s s' : S} {l : L} (h : T.Reachable s) (hst : T.step s l s') :
    T.Reachable s' := by
  obtain ⟨s0, ls, h0, hr⟩ := h
  exact ⟨s0, ls ++ [l], h0, hr.append (.cons hst (.nil _))⟩

/-! ## Systems that are computed -/

/-- A step is what `exec` computes; where it computes nothing there is none. -/
def ofExec (init : S → Prop) (exec : S → L → Option S) : LTS S L where
  init := init
  step s l s' := exec s l = some s'

/-- The steps one after the other. -/
def play (exec : S → L → Option S) : S → List L → Option S
  | s, [] => some s
  | s, l :: ls => (exec s l).bind fun s' => play exec s' ls

theorem run_of_play {init : S → Prop} {exec : S → L → Option S} {s s' : S} {ls : List L}
    (h : play exec s ls = some s') : (ofExec init exec).Run s ls s' := by
  induction ls generalizing s with
  | nil =>
    obtain rfl := Option.some.inj h
    exact .nil s
  | cons l ls ih =>
    obtain ⟨s₁, hst, hp⟩ := Option.bind_eq_some_iff.1 h
    exact .cons hst (ih hp)

theorem reachable_of_play {init : S → Prop} {exec : S → L → Option S} {s s' : S} {ls : List L}
    (h0 : init s) (h : play exec s ls = some s') : (ofExec init exec).Reachable s' :=
  ⟨s, ls, h0, run_of_play h⟩

end LTS

end CarbonRuntime.Core
