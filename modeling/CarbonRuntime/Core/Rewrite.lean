import Mathlib.Data.List.Basic

/-!
# Replacing what matches

`replaceAll` goes through a text once, from the left: where the matcher takes something off the
front, the replacement stands for it and the search goes on behind it. `untilStable` repeats that
until nothing changes.

**Results.** Where what is taken is longer than what replaces it a pass that changes something
shortens the text (`replaceAll_lt`), so the repetition ends (`untilStable_stable`).
-/
namespace CarbonRuntime.Core.Rewrite

variable {α : Type*}

/-- What is left of a text behind a match at its front. -/
abbrev Matcher (α : Type*) := List α → Option (List α)

/-- One pass, with so many units of the last match still to pass over. -/
def replaceFrom (m : Matcher α) (replacement : List α) : Nat → List α → List α
  | _, [] => []
  | skip + 1, _ :: t => replaceFrom m replacement skip t
  | 0, u :: t =>
    match m (u :: t) with
    | some rest => replacement ++ replaceFrom m replacement (t.length - rest.length) t
    | none => u :: replaceFrom m replacement 0 t

/-- `text.replace(pattern, replacement)` of a global pattern that takes something. -/
def replaceAll (m : Matcher α) (replacement text : List α) : List α :=
  replaceFrom m replacement 0 text

def stable [DecidableEq α] (pass : List α → List α) : Nat → List α → List α
  | 0, text => text
  | rounds + 1, text => if pass text = text then text else stable pass rounds (pass text)

/-- Passes until the text does not change. -/
def untilStable [DecidableEq α] (m : Matcher α) (replacement text : List α) : List α :=
  stable (replaceAll m replacement) text.length text

/-- What a match takes is longer than what replaces it. -/
def Shortens (m : Matcher α) (replacement : List α) : Prop :=
  ∀ t rest, m t = some rest → replacement.length + rest.length < t.length

variable {m : Matcher α} {replacement t : List α} {skip : Nat}

theorem replaceFrom_le (h : Shortens m replacement) (skip : Nat) (t : List α) :
    (replaceFrom m replacement skip t).length ≤ t.length - skip := by
  induction t generalizing skip with
  | nil => simp [replaceFrom]
  | cons u t ih =>
    cases skip with
    | succ skip =>
      have := ih skip
      simp only [replaceFrom, List.length_cons]
      omega
    | zero =>
      rw [replaceFrom]
      cases hm : m (u :: t) with
      | none =>
        have := ih 0
        simp only [List.length_cons]
        omega
      | some rest =>
        have hlen := h _ _ hm
        have := ih (t.length - rest.length)
        simp only [List.length_append, List.length_cons] at hlen ⊢
        omega

/-- A pass changes nothing, or shortens the text. -/
theorem replaceAll_lt (h : Shortens m replacement) (t : List α) :
    replaceAll m replacement t = t ∨ (replaceAll m replacement t).length < t.length := by
  unfold replaceAll
  induction t with
  | nil => exact .inl rfl
  | cons u t ih =>
    rw [replaceFrom]
    cases hm : m (u :: t) with
    | none =>
      rcases ih with ih | ih
      · exact .inl (congrArg (u :: ·) ih)
      · exact .inr (by simpa using ih)
    | some rest =>
      have hlen := h _ _ hm
      have := replaceFrom_le h (t.length - rest.length) t
      simp only [List.length_append, List.length_cons] at hlen ⊢
      exact .inr (by omega)

theorem stable_stable [DecidableEq α] (h : Shortens m replacement) {rounds : Nat}
    (hr : t.length ≤ rounds) :
    replaceAll m replacement (stable (replaceAll m replacement) rounds t) =
      stable (replaceAll m replacement) rounds t := by
  induction rounds generalizing t with
  | zero =>
    obtain rfl := List.length_eq_zero_iff.1 (Nat.le_zero.1 hr)
    rfl
  | succ rounds ih =>
    rw [stable]
    split
    · rename_i heq
      exact heq
    · rename_i hne
      have := (replaceAll_lt h t).resolve_left hne
      exact ih (by omega)

theorem untilStable_stable [DecidableEq α] (h : Shortens m replacement) (t : List α) :
    replaceAll m replacement (untilStable m replacement t) = untilStable m replacement t :=
  stable_stable h (Nat.le_refl _)

/-- Nothing matches anywhere, and nothing is replaced. -/
theorem replaceAll_none (h : ∀ a b, t = a ++ b → m b = none) : replaceAll m replacement t = t := by
  unfold replaceAll
  induction t with
  | nil => rfl
  | cons u t ih =>
    rw [replaceFrom, h [] (u :: t) rfl]
    exact congrArg (u :: ·) (ih fun a b hab => h (u :: a) b (by rw [hab]; rfl))

/-- Something matches, and the text is shortened. -/
theorem replaceAll_some (h : Shortens m replacement) {a b rest : List α} (hm : m b = some rest) :
    (replaceAll m replacement (a ++ b)).length < (a ++ b).length := by
  induction a with
  | nil =>
    cases b with
    | nil =>
      have := h _ _ hm
      simp at this
    | cons u t =>
      have hlen := h _ _ hm
      have := replaceFrom_le h (t.length - rest.length) t
      rw [List.nil_append, replaceAll, replaceFrom, hm]
      simp only [List.length_append, List.length_cons] at hlen ⊢
      omega
  | cons u a ih =>
    rw [List.cons_append, replaceAll, replaceFrom]
    cases hu : m (u :: (a ++ b)) with
    | none => simpa [replaceAll] using ih
    | some rest =>
      have hlen := h _ _ hu
      have := replaceFrom_le h ((a ++ b).length - rest.length) (a ++ b)
      simp only [List.length_append, List.length_cons] at hlen this ⊢
      omega

variable {q : α → Bool}

/-- What stands for a match has no more of the elements that `q` names than it. -/
def Thins (q : α → Bool) (m : Matcher α) (replacement : List α) : Prop :=
  ∀ t rest, m t = some rest → rest <:+ t ∧ replacement.countP q + rest.countP q ≤ t.countP q

theorem drop_of_suffix {u : α} {rest t : List α} (h : rest <:+ u :: t) (hne : rest ≠ u :: t) :
    t.drop (t.length - rest.length) = rest := by
  rcases List.suffix_cons_iff.1 h with rfl | ⟨a, rfl⟩
  · exact absurd rfl hne
  · rw [List.length_append, Nat.add_sub_cancel, List.drop_left]

theorem replaceFrom_countP (h : Thins q m replacement)
    (hlt : ∀ t rest, m t = some rest → rest ≠ t) (skip : Nat) (t : List α) :
    (replaceFrom m replacement skip t).countP q ≤ (t.drop skip).countP q := by
  induction t generalizing skip with
  | nil => simp [replaceFrom]
  | cons u t ih =>
    cases skip with
    | succ skip => exact ih skip
    | zero =>
      rw [replaceFrom, List.drop_zero]
      cases hm : m (u :: t) with
      | none =>
        have := ih 0
        simp only [List.countP_cons, List.drop_zero] at this ⊢
        omega
      | some rest =>
        obtain ⟨hs, hc⟩ := h _ _ hm
        have := ih (t.length - rest.length)
        rw [drop_of_suffix hs (hlt _ _ hm)] at this
        dsimp only
        rw [List.countP_append]
        omega

theorem replaceAll_countP (h : Thins q m replacement) (hlt : ∀ t rest, m t = some rest → rest ≠ t)
    (t : List α) : (replaceAll m replacement t).countP q ≤ t.countP q :=
  replaceFrom_countP h hlt 0 t

/-- Something matches that has more of them than what stands for it. -/
theorem replaceAll_thins (h : Thins q m replacement) (hlt : ∀ t rest, m t = some rest → rest ≠ t)
    {a b rest : List α} (hm : m b = some rest)
    (hfewer : ∀ t rest, m t = some rest → replacement.countP q + rest.countP q < t.countP q) :
    (replaceAll m replacement (a ++ b)).countP q < (a ++ b).countP q := by
  have hfirst : ∀ {u : α} {t rest : List α}, m (u :: t) = some rest →
      (replaceAll m replacement (u :: t)).countP q < (u :: t).countP q := by
    intro u t rest hm
    have hc := hfewer _ _ hm
    have := replaceFrom_countP h hlt (t.length - rest.length) t
    rw [drop_of_suffix (h _ _ hm).1 (hlt _ _ hm)] at this
    rw [replaceAll, replaceFrom, hm]
    dsimp only
    rw [List.countP_append]
    omega
  induction a with
  | nil =>
    cases b with
    | nil =>
      have := hfewer _ _ hm
      rw [List.countP_nil] at this
      omega
    | cons u b => exact hfirst hm
  | cons u a ih =>
    cases hu : m (u :: (a ++ b)) with
    | some rest => exact hfirst hu
    | none =>
      rw [List.cons_append, replaceAll, replaceFrom, hu]
      rw [replaceAll] at ih
      simp only [List.countP_cons]
      omega

end CarbonRuntime.Core.Rewrite
