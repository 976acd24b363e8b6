import Mathlib.Data.List.Induction

/-!
# Numbering the editions of what is written

Items are written under keys, and an edited item is to be the next edition under its key. A
batch is numbered before any of it is written: the first edition of a batch after a count taken
off what was written before, a later one after the number a map holds under its slot, which keys
may share (`number`). Where no two keys of a batch share a slot, and no edited item is the first
under its key beside an unedited one, every item of the batch gets the number it is to get
(`Numbered.number`).
-/
namespace CarbonRuntime.Core.Numbering

/-- What was written, in order, with its numbers. -/
abbrev Log (α : Type) := List (α × Nat)

structure Scheme (α σ κ : Type) where
  slot : α → σ
  key : α → κ
  edited : α → Bool
  slot_of_key : ∀ x y, key x = key y → slot x = slot y

variable {α σ κ : Type} (N : Scheme α σ κ)

def under [DecidableEq κ] (k : κ) (log : Log α) : Log α := log.filter fun a => N.key a.1 = k

/-- One past the numbers that are taken. -/
def next (log : Log α) : Nat := (log.map (·.2 + 1)).foldr max 0

/-- Each edited item is the next under its key, and each other the first. -/
def Numbered [DecidableEq κ] (log : Log α) : Prop := ∀ l a m, log = l ++ a :: m →
  a.2 = if N.edited a.1 then next (under N (N.key a.1) l) else 0

def number [DecidableEq σ] (count : α → Nat) : List (σ × Nat) → List α → Log α
  | _, [] => []
  | counted, x :: items =>
    if N.edited x then
      let n := (counted.lookup (N.slot x)).getD (count x)
      (x, n) :: number count ((N.slot x, n + 1) :: counted) items
    else (x, 0) :: number count counted items

variable {N} {log l m : Log α} {a : α × Nat} {k : κ}

theorem number_items [DecidableEq σ] (count : α → Nat) : ∀ (items : List α) (counted : List (σ × Nat)),
    (number N count counted items).map (·.1) = items := by
  intro items
  induction items with
  | nil => exact fun _ => rfl
  | cons x items ih =>
    intro counted
    rw [number]
    split <;> simp [ih]

/-! ## Next -/

theorem next_append (l m : Log α) : next (l ++ m) = max (next l) (next m) := by
  induction l with
  | nil => simp [next]
  | cons a l ih =>
    simp only [next, List.cons_append, List.map_cons, List.foldr_cons] at ih ⊢
    rw [ih, Nat.max_assoc]

theorem next_singleton (a : α × Nat) : next [a] = a.2 + 1 := by simp [next]

theorem lt_next (h : a ∈ l) : a.2 < next l := by
  obtain ⟨s, t, rfl⟩ := List.append_of_mem h
  rw [next_append, ← List.singleton_append, next_append, next_singleton]
  omega

section
variable [DecidableEq κ]

theorem under_append (k : κ) (l m : Log α) : under N k (l ++ m) = under N k l ++ under N k m :=
  List.filter_append l m

theorem mem_under : a ∈ under N k log ↔ a ∈ log ∧ N.key a.1 = k := by simp [under]

theorem next_under_snoc (k : κ) (l : Log α) (a : α × Nat) : next (under N k (l ++ [a])) =
    if N.key a.1 = k then max (next (under N k l)) (a.2 + 1) else next (under N k l) := by
  rw [under_append, next_append]
  split
  · rename_i hk
    rw [show under N k [a] = [a] by simp [under, hk], next_singleton]
  · rename_i hk
    rw [show under N k [a] = [] by simp [under, hk]]
    simp [next]

/-! ## Numbered -/

theorem Numbered.nil : Numbered N [] := fun l a m h => by simp at h

theorem Numbered.snoc (h : Numbered N log)
    (ha : a.2 = if N.edited a.1 then next (under N (N.key a.1) log) else 0) :
    Numbered N (log ++ [a]) := by
  intro l b m he
  rcases List.eq_nil_or_concat m with rfl | ⟨m, c, rfl⟩
  · obtain ⟨rfl, hb⟩ := List.append_inj' he rfl
    cases hb
    exact ha
  · rw [List.concat_eq_append, ← List.cons_append, ← List.append_assoc] at he
    exact h l b m (List.append_inj' he rfl).1

theorem Numbered.init (h : Numbered N (log ++ m)) : Numbered N log :=
  fun l a t he => h l a (t ++ m) (by rw [he]; simp)

/-- No number is left out. -/
theorem Numbered.contiguous : ∀ {log : Log α}, Numbered N log → ∀ k i, i < next (under N k log) →
    ∃ a ∈ log, N.key a.1 = k ∧ a.2 = i := by
  intro log
  induction log using List.reverseRecOn with
  | nil => exact fun _ k i h => absurd h (Nat.not_lt_zero i)
  | append_singleton log a ih =>
    intro h k i hi
    have hbefore : i < next (under N k log) → ∃ b ∈ log ++ [a], N.key b.1 = k ∧ b.2 = i := by
      intro hi
      obtain ⟨b, hb, hk⟩ := ih h.init k i hi
      exact ⟨b, List.mem_append_left _ hb, hk⟩
    rw [next_under_snoc] at hi
    split at hi
    · rename_i hk
      by_cases hlt : i < next (under N k log)
      · exact hbefore hlt
      · refine ⟨a, by simp, hk, ?_⟩
        have ha := h log a [] rfl
        rw [hk] at ha
        split at ha <;> omega
    · exact hbefore hi

theorem Numbered.zero (h : Numbered N log) (ha : a ∈ log) (hn : N.edited a.1 = false) : a.2 = 0 := by
  obtain ⟨l, m, rfl⟩ := List.append_of_mem ha
  have := h l a m rfl
  rwa [hn, if_neg Bool.false_ne_true] at this

/-- An edited item has a number above all before it under its key. -/
theorem Numbered.above : ∀ {log : Log α}, Numbered N log →
    log.Pairwise fun b c => N.edited c.1 = true → N.key b.1 = N.key c.1 → b.2 < c.2 := by
  intro log
  induction log using List.reverseRecOn with
  | nil => exact fun _ => .nil
  | append_singleton log c ih =>
    intro h
    refine List.pairwise_append.2 ⟨ih h.init, List.pairwise_singleton _ _, fun b hb c' hc' he hk => ?_⟩
    rw [List.mem_singleton.1 hc'] at he hk ⊢
    have hc := h log c [] rfl
    rw [if_pos he] at hc
    rw [hc]
    exact lt_next (mem_under.2 ⟨hb, hk⟩)

end

/-! ## Numbering a batch -/

theorem Numbered.number [DecidableEq σ] [DecidableEq κ] {count : α → Nat} : ∀ {items : List α} {counted : List (σ × Nat)}
    {log : Log α}, Numbered N log →
    (∀ x ∈ items, N.edited x = true →
      (counted.lookup (N.slot x)).getD (count x) = next (under N (N.key x) log)) →
    (∀ x ∈ items, ∀ y ∈ items, N.edited x = true → N.edited y = true → N.slot x = N.slot y →
      N.key x = N.key y) →
    (∀ x ∈ items, ∀ y ∈ items, N.edited x = true → N.edited y = false → N.key x = N.key y →
      next (under N (N.key x) log) ≠ 0) →
    Numbered N (log ++ number N count counted items) := by
  intro items
  induction items with
  | nil =>
    intro counted log h _ _ _
    rwa [Numbering.number, List.append_nil]
  | cons y items ih =>
    intro counted log h hcount hapart halone
    have hy : y ∈ y :: items := List.mem_cons_self
    have hmem : ∀ x ∈ items, x ∈ y :: items := fun x => List.mem_cons_of_mem y
    rw [Numbering.number]
    -- What is taken under a key only grows.
    have hkept : ∀ (x : α) (n : Nat), next (under N (N.key x) log) ≠ 0 →
        next (under N (N.key x) (log ++ [(y, n)])) ≠ 0 := by
      intro x n hx
      rw [next_under_snoc]
      split <;> omega
    split
    · rename_i hedit
      rw [List.append_cons]
      have hn := hcount y hy hedit
      refine ih (h.snoc (by rw [if_pos hedit]; exact hn)) (fun x hx hex => ?_)
        (fun x hx z hz => hapart x (hmem x hx) z (hmem z hz))
        fun x hx z hz hex hez hk => hkept x _ (halone x (hmem x hx) z (hmem z hz) hex hez hk)
      rw [next_under_snoc, List.lookup_cons]
      by_cases hslot : N.slot x = N.slot y
      · have hkey := hapart x (hmem x hx) y hy hex hedit hslot
        rw [if_pos hkey.symm]
        simp only [hslot, BEq.rfl, Option.getD_some, hn, hkey]
        omega
      · have hkey : ¬ N.key y = N.key x := fun hk => hslot (N.slot_of_key _ _ hk).symm
        rw [if_neg hkey, beq_false_of_ne hslot]
        exact hcount x (hmem x hx) hex
    · rename_i hedit
      have hedit : N.edited y = false := by simpa using hedit
      rw [List.append_cons]
      refine ih (h.snoc (by simp [hedit])) (fun x hx hex => ?_)
        (fun x hx z hz => hapart x (hmem x hx) z (hmem z hz))
        fun x hx z hz hex hez hk => hkept x _ (halone x (hmem x hx) z (hmem z hz) hex hez hk)
      rw [hcount x (hmem x hx) hex, next_under_snoc]
      split
      · rename_i hk
        have := halone x (hmem x hx) y hy hex hedit hk.symm
        omega
      · rfl

end CarbonRuntime.Core.Numbering
