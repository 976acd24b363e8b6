import Mathlib.Data.List.Basic

/-!
# Splitting a text that comes in pieces

`splitOn` cuts a list at each separator. Only the last of what it gives is open: what follows the list goes
on with it (`splitOn_append`), so a reader that keeps the last one and gives the others on gives, piece by
piece, those of the whole (`complete_append`, `tail_append`).
-/

namespace CarbonRuntime.Core.Splitting

variable {α : Type*} [BEq α] {s : α} {a b l t : List α}

theorem splitOn_cons (c : α) (t : List α) : (c :: t).splitOn s =
    if c == s then [] :: t.splitOn s else (t.splitOn s).modifyHead (c :: ·) := by
  rw [List.splitOn, List.splitOnP_cons_eq_if_modifyHead]
  rfl

theorem splitOn_ne_nil (t : List α) : t.splitOn s ≠ [] := List.splitOnP_ne_nil _ _

theorem splitOn_append : (a ++ b).splitOn s =
    (a.splitOn s).dropLast ++ ((a.splitOn s).getLastD [] ++ b).splitOn s := by
  induction a with
  | nil => simp
  | cons c a ih =>
    rw [List.cons_append, splitOn_cons, splitOn_cons, ih]
    obtain ⟨l, ls, hl⟩ := List.exists_cons_of_ne_nil (splitOn_ne_nil (s := s) a)
    rw [hl]
    by_cases hc : (c == s) = true
    · rw [if_pos hc, if_pos hc]
      simp
    · rw [if_neg hc, if_neg hc]
      cases ls with
      | nil => simp [splitOn_cons, hc]
      | cons m ls => simp

/-! ## What is complete, and what is open -/

/-- What a separator stands behind. -/
def complete (s : α) (t : List α) : List (List α) := (t.splitOn s).dropLast

/-- What is behind the last separator. -/
def tail (s : α) (t : List α) : List α := (t.splitOn s).getLastD []

theorem splitOn_eq (t : List α) : t.splitOn s = complete s t ++ [tail s t] := by
  have hne := splitOn_ne_nil (s := s) t
  rw [complete, tail, List.getLastD_eq_getLast?, List.getLast?_eq_some_getLast hne, Option.getD_some,
    List.dropLast_append_getLast hne]

@[simp] theorem complete_nil : complete s ([] : List α) = [] := by simp [complete]

@[simp] theorem tail_nil : tail s ([] : List α) = [] := by simp [tail]

theorem complete_append : complete s (a ++ b) = complete s a ++ complete s (tail s a ++ b) := by
  rw [complete, splitOn_append, List.dropLast_append_of_ne_nil (splitOn_ne_nil _)]
  rfl

theorem tail_append : tail s (a ++ b) = tail s (tail s a ++ b) := by
  have h : (a ++ b).splitOn s = (a.splitOn s).dropLast ++ (tail s a ++ b).splitOn s := splitOn_append
  rw [splitOn_eq, splitOn_eq (tail s a ++ b), ← List.append_assoc] at h
  exact List.singleton_inj.1 (List.append_inj' h rfl).2

/-- A part is no longer than the whole. -/
theorem length_le_splitOn (h : l ∈ t.splitOn s) : l.length ≤ t.length := by
  induction t generalizing l with
  | nil =>
    obtain rfl : l = [] := by simpa using h
    exact Nat.le_refl _
  | cons c t ih =>
    obtain ⟨m, ls, hl⟩ := List.exists_cons_of_ne_nil (splitOn_ne_nil (s := s) t)
    rw [splitOn_cons] at h
    rw [hl] at ih h
    split at h
    · obtain rfl | h := List.mem_cons.1 h
      · exact Nat.zero_le _
      · exact Nat.le_succ_of_le (ih h)
    · obtain rfl | h := List.mem_cons.1 h
      · exact Nat.succ_le_succ (ih List.mem_cons_self)
      · exact Nat.le_succ_of_le (ih (List.mem_cons_of_mem _ h))

/-! ## The separator -/

variable [LawfulBEq α]

theorem not_mem_splitOn (h : l ∈ t.splitOn s) : s ∉ l := by
  induction t generalizing l with
  | nil =>
    obtain rfl : l = [] := by simpa using h
    simp
  | cons c t ih =>
    obtain ⟨m, ls, hl⟩ := List.exists_cons_of_ne_nil (splitOn_ne_nil (s := s) t)
    rw [splitOn_cons] at h
    rw [hl] at ih h
    split at h
    · obtain rfl | h := List.mem_cons.1 h
      · simp
      · exact ih h
    · rename_i hc
      have hc : s ≠ c := fun he => hc (by simp [he])
      obtain rfl | h := List.mem_cons.1 h
      · have := ih List.mem_cons_self
        simp [this, hc]
      · exact ih (List.mem_cons_of_mem _ h)

theorem splitOn_line (h : s ∉ l) : l.splitOn s = [l] :=
  List.splitOnP_eq_singleton fun c hc => by
    have : c ≠ s := fun he => h (he ▸ hc)
    simpa using this

/-- A part that goes on up to the next separator. -/
theorem splitOn_part (h : s ∉ l) : (l ++ t).splitOn s = (t.splitOn s).modifyHead (l ++ ·) := by
  induction l with
  | nil =>
    obtain ⟨m, ls, hl⟩ := List.exists_cons_of_ne_nil (splitOn_ne_nil (s := s) t)
    simp [hl]
  | cons c l ih =>
    simp only [List.mem_cons, not_or] at h
    rw [List.cons_append, splitOn_cons, if_neg (by simpa using Ne.symm h.1), ih h.2, List.modifyHead_modifyHead]
    rfl

theorem not_mem_tail (t : List α) : s ∉ tail s t := by
  refine not_mem_splitOn (t := t) ?_
  rw [splitOn_eq]
  exact List.mem_append_right _ List.mem_cons_self

theorem complete_open (h : s ∉ l) : complete s l = [] := by rw [complete, splitOn_line h]; rfl

theorem tail_open (h : s ∉ l) : tail s l = l := by rw [tail, splitOn_line h]; rfl

/-! ## The first separator, and the last one -/

omit [BEq α] [LawfulBEq α] in
theorem first_inj {c d : List α} (ha : s ∉ a) (hb : s ∉ b) :
    a ++ s :: c = b ++ s :: d ↔ a = b ∧ c = d := by
  constructor
  · intro h
    rcases List.append_eq_append_iff.1 h with ⟨m, rfl, hm⟩ | ⟨m, rfl, hm⟩
    · cases m with
      | nil => exact ⟨(List.append_nil a).symm, (List.cons.inj hm).2⟩
      | cons u m => exact absurd (by simp [(List.cons.inj hm).1]) hb
    · cases m with
      | nil => exact ⟨List.append_nil b, (List.cons.inj hm).2.symm⟩
      | cons u m => exact absurd (by simp [(List.cons.inj hm).1]) ha
  · rintro ⟨rfl, rfl⟩
    rfl

omit [BEq α] [LawfulBEq α] in
theorem last_inj {c d : List α} (hc : s ∉ c) (hd : s ∉ d) :
    a ++ s :: c = b ++ s :: d ↔ a = b ∧ c = d := by
  have hrev := first_inj (a := c.reverse) (b := d.reverse) (c := a.reverse) (d := b.reverse) (s := s)
    (by simpa using hc) (by simpa using hd)
  have hsides : ∀ x y : List α, (x ++ s :: y).reverse = y.reverse ++ s :: x.reverse := by simp
  rw [← hsides, ← hsides, List.reverse_inj, List.reverse_inj, List.reverse_inj] at hrev
  rw [hrev, and_comm]

end CarbonRuntime.Core.Splitting
