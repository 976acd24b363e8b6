import Mathlib.Data.List.DropRight

/-!
# Cutting a sequence up

`trim p` drops what `p` names from both ends. A sequence is cut into `pieces` where it is those
pieces in their order with nothing but such elements before, between and after them (`Cut`).

**Results.** A part before a position and a cut of what stands after it are a cut of the whole, each
trimmed or not (`Cut.at_pos`); nothing but dropped elements is in the sequence and in no piece
(`Cut.mem`).
-/
namespace CarbonRuntime.Core.Cutting

variable {α : Type*} {p : α → Bool} {l l' gap : List α} {pieces : List (List α)}

/-- Without the elements at either end that `p` names. -/
def trim (p : α → Bool) (l : List α) : List α := (l.dropWhile p).rdropWhile p

/-- Every element is one that `p` names. -/
def Blank (p : α → Bool) (l : List α) : Prop := ∀ a ∈ l, p a

instance (p : α → Bool) (l : List α) : Decidable (Blank p l) := inferInstanceAs (Decidable (∀ a ∈ l, _))

@[simp] theorem blank_nil : Blank p ([] : List α) := by simp [Blank]

theorem blank_append : Blank p (l ++ l') ↔ Blank p l ∧ Blank p l' := by
  simp [Blank, or_imp, forall_and]

theorem blank_takeWhile : Blank p (l.takeWhile p) := fun _ h => List.mem_takeWhile_imp h

/-- What trimming leaves, between what it drops. -/
theorem trim_parts (p : α → Bool) (l : List α) :
    ∃ a b, Blank p a ∧ Blank p b ∧ l = a ++ trim p l ++ b := by
  refine ⟨l.takeWhile p, (l.dropWhile p).rtakeWhile p, blank_takeWhile, ?_, ?_⟩
  · intro a ha
    exact List.mem_rtakeWhile_imp ha
  · rw [List.append_assoc, trim, List.rdropWhile_append_rtakeWhile, List.takeWhile_append_dropWhile]

/-- What is blank in front is stripped. -/
theorem trim_cons {a : α} (h : p a = true) (l : List α) : trim p (a :: l) = trim p l := by
  rw [trim, List.dropWhile_cons_of_pos h, trim]

/-- What is blank behind is stripped. -/
theorem trim_append_blank {a : α} (h : p a = true) (l : List α) : trim p (l ++ [a]) = trim p l := by
  rw [trim, List.dropWhile_append]
  split
  · rename_i he
    have hnil : l.dropWhile p = [] := List.isEmpty_iff.1 he
    rw [List.dropWhile_cons_of_pos h, List.dropWhile_nil, trim, hnil]
  · rw [List.rdropWhile_concat_pos _ _ _ h, trim]

/-- What begins and ends with something that is not blank is not stripped. -/
theorem trim_eq_self {a b : α} (ha : p a = false) (hb : p b = false) (l : List α) :
    trim p (a :: (l ++ [b])) = a :: (l ++ [b]) := by
  rw [trim, List.dropWhile_cons_of_neg (by simp [ha]), ← List.cons_append,
    List.rdropWhile_concat_neg _ _ _ (by simp [hb])]

theorem length_trim_le : (trim p l).length ≤ l.length := by
  obtain ⟨a, b, -, -, h⟩ := trim_parts p l
  have := congrArg List.length h
  simp only [List.length_append] at this
  omega

theorem mem_of_mem_trim {a : α} (h : a ∈ trim p l) : a ∈ l := by
  obtain ⟨x, y, -, -, hl⟩ := trim_parts p l
  rw [hl]
  simp [h]

theorem blank_trim : Blank p (trim p l) ↔ Blank p l := by
  obtain ⟨a, b, ha, hb, hl⟩ := trim_parts p l
  constructor
  · intro h
    rw [hl]
    exact blank_append.2 ⟨blank_append.2 ⟨ha, h⟩, hb⟩
  · exact fun h x hx => h x (mem_of_mem_trim hx)

/-- A trimmed sequence starts with an element that stays. -/
theorem head_trim {a : α} (h : (trim p l).head? = some a) : p a = false := by
  obtain ⟨rest, hr⟩ : ∃ rest, trim p l = a :: rest := by
    cases ht : trim p l with
    | nil => simp [ht] at h
    | cons b rest => exact ⟨rest, by simpa [ht] using h⟩
  have hpre : trim p l <+: l.dropWhile p := List.rdropWhile_prefix p _
  cases hd : l.dropWhile p with
  | nil => simp [hd, hr] at hpre
  | cons b more =>
    have hb : a = b := by
      rw [hd, hr] at hpre
      exact (List.cons_prefix_cons.1 hpre).1
    have := List.head_dropWhile_not p (l := l) (by simp [hd])
    simp only [hd, List.head_cons] at this
    exact hb ▸ this

theorem trim_trim (l : List α) : trim p (trim p l) = trim p l := by
  rw [trim]
  have hdrop : (trim p l).dropWhile p = trim p l := by
    cases h : trim p l with
    | nil => rfl
    | cons a t =>
      have ha : p a = false := head_trim (l := l) (by rw [h, List.head?_cons])
      exact List.dropWhile_cons_of_neg (by simp [ha])
  rw [hdrop, trim, List.rdropWhile_idempotent]

/-! ## Cuts -/

/-- `pieces` in their order, and before, between and after them only what `p` names. -/
inductive Cut (p : α → Bool) : List α → List (List α) → Prop where
  | done {gap : List α} : Blank p gap → Cut p gap []
  | piece {gap piece rest : List α} {pieces : List (List α)} : Blank p gap → Cut p rest pieces →
      Cut p (gap ++ piece ++ rest) (piece :: pieces)

namespace Cut

theorem whole (l : List α) : Cut p l [l] := by
  have := @Cut.piece _ p [] l [] [] blank_nil (.done blank_nil)
  simpa using this

/-- A gap at the front is one that the first gap takes in. -/
theorem skip (hg : Blank p gap) (h : Cut p l pieces) : Cut p (gap ++ l) pieces := by
  cases h with
  | done hl => exact .done (blank_append.2 ⟨hg, hl⟩)
  | piece hl hr =>
    rw [← List.append_assoc, ← List.append_assoc]
    exact .piece (blank_append.2 ⟨hg, hl⟩) hr

theorem append_blank (h : Cut p l pieces) (hg : Blank p gap) : Cut p (l ++ gap) pieces := by
  induction h with
  | done hl => exact .done (blank_append.2 ⟨hl, hg⟩)
  | piece hl _ ih =>
    rw [List.append_assoc]
    exact .piece hl ih

theorem of_trim (h : Cut p (trim p l) pieces) : Cut p l pieces := by
  obtain ⟨a, b, ha, hb, hl⟩ := trim_parts p l
  rw [hl]
  exact (h.skip ha).append_blank hb

/-- Cut at a position: the trimmed part before it, and a cut of the trimmed rest. -/
theorem at_pos (n : Nat) (h : Cut p (trim p (l.drop n)) pieces) :
    Cut p l (trim p (l.take n) :: pieces) := by
  obtain ⟨a, b, ha, hb, hl⟩ := trim_parts p (l.take n)
  have hcut := @Cut.piece _ p a (trim p (l.take n)) _ _ ha (h.of_trim.skip hb)
  rwa [← List.append_assoc, ← hl, List.take_append_drop] at hcut

/-- An element that stays is in a piece. -/
theorem mem {a : α} (h : Cut p l pieces) (ha : a ∈ l) (hp : p a = false) : ∃ c ∈ pieces, a ∈ c := by
  induction h with
  | done hl => simp [hl a ha] at hp
  | piece hl _ ih =>
    rcases List.mem_append.1 ha with hm | hm
    · rcases List.mem_append.1 hm with hg | hc
      · simp [hl a hg] at hp
      · exact ⟨_, by simp, hc⟩
    · obtain ⟨c, hc, hac⟩ := ih hm
      exact ⟨c, by simp [hc], hac⟩

end Cut

end CarbonRuntime.Core.Cutting
