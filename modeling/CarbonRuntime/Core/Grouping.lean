import Mathlib.Data.List.Perm.Basic
import Mathlib.Data.List.Nodup
import Mathlib.Data.List.Induction

/-!
# Sorting by a comparison, gathering by a key

`sortBy below` is the stable sort by a strict comparison. Where the comparison
is a weak order (`WeakOrder`) the result is in order; where it also tells the
elements of the list apart, the result does not depend on the order they came in.

`gather` puts pairs of a key and a value into one group a key, the groups in the
order their keys are met and the values of each in the order they came. A group
holds the values of its key and no others (`mem_gather`), the keys are distinct
(`keys_gather`), and the groups hold what there was to gather (`flatten_gather`).
-/
namespace CarbonRuntime.Core

/-! ## Sorting -/

section Sorting
variable {α : Type*} (below : α → α → Bool)

/-- Stable insertion: `a` goes before the first element it is not above. -/
def insertBy (a : α) : List α → List α
  | [] => [a]
  | b :: l => if below b a then b :: insertBy a l else a :: b :: l

/-- `Array.prototype.sort`, which is stable: `below b a` says `b` sorts strictly
below `a`. -/
def sortBy : List α → List α
  | [] => []
  | a :: l => insertBy below a (sortBy l)

theorem insertBy_perm (a : α) (l : List α) : (insertBy below a l).Perm (a :: l) := by
  induction l with
  | nil => exact .refl _
  | cons b l ih =>
    rw [insertBy]
    split
    · exact ((List.Perm.cons b ih).trans (.swap a b l))
    · exact .refl _

theorem sortBy_perm (l : List α) : (sortBy below l).Perm l := by
  induction l with
  | nil => exact .refl _
  | cons a l ih => exact (insertBy_perm below a _).trans (.cons a ih)

/-- A comparison that orders classes of equal elements. -/
structure WeakOrder : Prop where
  asymm : ∀ a b, below a b = true → below b a = false
  split : ∀ a b c, below a c = true → below a b = true ∨ below b c = true

variable {below}

/-- What is not above `b` is not above what `b` is not above. -/
theorem WeakOrder.trans (h : WeakOrder below) {a b c : α} (hab : below b a = false)
    (hbc : below c b = false) : below c a = false := by
  by_contra hne
  rcases h.split c b a (by simpa using hne) with hcb | hba
  · rw [hbc] at hcb; cases hcb
  · rw [hab] at hba; cases hba

theorem insertBy_sorted (h : WeakOrder below) (a : α) {l : List α}
    (hl : l.Pairwise fun x y => below y x = false) :
    (insertBy below a l).Pairwise fun x y => below y x = false := by
  induction l with
  | nil => simp [insertBy]
  | cons b l ih =>
    rw [List.pairwise_cons] at hl
    rw [insertBy]
    split
    · rename_i hba
      refine List.pairwise_cons.2 ⟨fun y hy => ?_, ih hl.2⟩
      rcases List.mem_cons.1 ((insertBy_perm below a l).mem_iff.1 hy) with rfl | hy
      · exact h.asymm _ _ hba
      · exact hl.1 y hy
    · rename_i hba
      have hba : below b a = false := by simpa using hba
      refine List.pairwise_cons.2 ⟨fun y hy => ?_, List.pairwise_cons.2 hl⟩
      rcases List.mem_cons.1 hy with rfl | hy
      · exact hba
      · exact h.trans hba (hl.1 y hy)

theorem sortBy_sorted (h : WeakOrder below) (l : List α) :
    (sortBy below l).Pairwise fun x y => below y x = false := by
  induction l with
  | nil => exact .nil
  | cons a l ih => exact insertBy_sorted h a ih

/-- Sorting goes through a map that the comparison does. -/
theorem sortBy_map {β : Type*} {below' : β → β → Bool} (f : α → β)
    (hf : ∀ a b, below' (f a) (f b) = below a b) (l : List α) :
    sortBy below' (l.map f) = (sortBy below l).map f := by
  have hinsert : ∀ (a : α) (l : List α),
      insertBy below' (f a) (l.map f) = (insertBy below a l).map f := by
    intro a l
    induction l with
    | nil => rfl
    | cons b l ih =>
      rw [List.map_cons, insertBy, insertBy, hf]
      split
      · rw [List.map_cons, ih]
      · rfl
  induction l with
  | nil => rfl
  | cons a l ih => rw [List.map_cons, sortBy, sortBy, ih, hinsert]

/-- A comparison that tells the elements apart sorts them one way. -/
theorem sortBy_perm_eq (h : WeakOrder below) {l l' : List α} (hl : l.Perm l')
    (hstrict : ∀ a ∈ l, ∀ b ∈ l, below a b = false → below b a = false → a = b) :
    sortBy below l = sortBy below l' := by
  refine List.Perm.eq_of_pairwise (fun a b ha hb hba hab => ?_) (sortBy_sorted h l)
    (sortBy_sorted h l') ((sortBy_perm below l).trans (hl.trans (sortBy_perm below l').symm))
  exact hstrict a ((sortBy_perm below l).mem_iff.1 ha) b
    (hl.mem_iff.2 ((sortBy_perm below l').mem_iff.1 hb)) hab hba

end Sorting

/-! ## Gathering -/

section Gathering
variable {κ α : Type*} [DecidableEq κ]

/-- Put `a` into the group of `k`, or into a new group behind the others. -/
def addAt (k : κ) (a : α) : List (κ × List α) → List (κ × List α)
  | [] => [(k, [a])]
  | (j, as) :: groups => if j = k then (j, as ++ [a]) :: groups else (j, as) :: addAt k a groups

/-- One group a key, in the order the keys are met. -/
def gather (l : List (κ × α)) : List (κ × List α) :=
  l.foldl (fun groups p => addAt p.1 p.2 groups) []

theorem gather_concat (l : List (κ × α)) (p : κ × α) :
    gather (l ++ [p]) = addAt p.1 p.2 (gather l) := by
  simp [gather]

theorem keys_addAt (k : κ) (a : α) (groups : List (κ × List α)) :
    (addAt k a groups).map (·.1) =
      if k ∈ groups.map (·.1) then groups.map (·.1) else groups.map (·.1) ++ [k] := by
  induction groups with
  | nil => simp [addAt]
  | cons g groups ih =>
    obtain ⟨j, as⟩ := g
    by_cases h : j = k
    · simp [addAt, h]
    · have h' : k ≠ j := fun e => h e.symm
      simp only [addAt, h, if_false, List.map_cons, ih, List.mem_cons, h', false_or]
      split <;> simp

theorem keys_gather (l : List (κ × α)) : ((gather l).map (·.1)).Nodup := by
  induction l using List.reverseRecOn with
  | nil => exact List.nodup_nil
  | append_singleton l p ih =>
    rw [gather_concat, keys_addAt]
    split
    · exact ih
    · rename_i h
      refine List.nodup_append.2 ⟨ih, by simp, fun x hx y hy => ?_⟩
      rw [List.mem_singleton] at hy
      rintro rfl
      exact h (hy ▸ hx)

theorem mem_keys_gather {k : κ} (l : List (κ × α)) :
    k ∈ (gather l).map (·.1) ↔ k ∈ l.map (·.1) := by
  induction l using List.reverseRecOn with
  | nil => rfl
  | append_singleton l p ih =>
    rw [gather_concat, keys_addAt, List.map_append, List.mem_append, ← ih]
    split
    · rename_i hp
      refine ⟨.inl, fun h => h.elim id fun hk => ?_⟩
      obtain rfl : k = p.1 := by simpa using hk
      exact hp
    · rw [List.mem_append]
      rfl

theorem gather_eq_nil {l : List (κ × α)} : gather l = [] ↔ l = [] := by
  cases l with
  | nil => exact iff_of_true rfl rfl
  | cons p l =>
    refine iff_of_false (fun h => ?_) (List.cons_ne_nil _ _)
    have hmem := (@mem_keys_gather κ α _ p.1 (p :: l)).2 (by simp)
    rw [h] at hmem
    cases hmem

theorem flatten_addAt (k : κ) (a : α) (groups : List (κ × List α)) :
    ((addAt k a groups).flatMap (·.2)).Perm (groups.flatMap (·.2) ++ [a]) := by
  induction groups with
  | nil => simp [addAt]
  | cons g groups ih =>
    obtain ⟨j, as⟩ := g
    rw [addAt]
    split
    · simp only [List.flatMap_cons, List.append_assoc]
      exact List.Perm.append_left _ List.perm_append_comm
    · simp only [List.flatMap_cons, List.append_assoc]
      exact List.Perm.append_left _ ih

/-- The groups hold what there was to gather, and nothing twice. -/
theorem flatten_gather (l : List (κ × α)) :
    ((gather l).flatMap (·.2)).Perm (l.map (·.2)) := by
  induction l using List.reverseRecOn with
  | nil => exact .refl _
  | append_singleton l p ih =>
    rw [gather_concat, List.map_append]
    exact (flatten_addAt p.1 p.2 (gather l)).trans (ih.append_right _)

/-- The values of a group by its key. -/
def valuesAt (k : κ) : List (κ × List α) → List α
  | [] => []
  | (j, as) :: groups => if j = k then as else valuesAt k groups

/-- Of groups with different keys, the one of a key. -/
theorem filter_key {k : κ} {groups : List (κ × List α)}
    (h : (groups.map (·.1)).Nodup) (hk : k ∈ groups.map (·.1)) :
    (groups.filter fun g => g.1 = k) = [(k, valuesAt k groups)] := by
  induction groups with
  | nil => cases hk
  | cons g groups ih =>
    obtain ⟨j, as⟩ := g
    rw [List.map_cons, List.nodup_cons] at h
    by_cases hj : j = k
    · subst hj
      have hno : (groups.filter fun g => g.1 = j) = [] := by
        refine List.filter_eq_nil_iff.2 fun g hg he => h.1 ?_
        exact List.mem_map.2 ⟨g, hg, by simpa using he⟩
      simp [valuesAt, hno]
    · have hk' : k ∈ groups.map (·.1) := by simpa [Ne.symm hj] using hk
      simp [valuesAt, ih h.2 hk', hj]

theorem valuesAt_addAt (j k : κ) (a : α) (groups : List (κ × List α)) :
    valuesAt j (addAt k a groups) = valuesAt j groups ++ if k = j then [a] else [] := by
  induction groups with
  | nil => simp [addAt, valuesAt]
  | cons g groups ih =>
    obtain ⟨i, as⟩ := g
    by_cases hi : i = k
    · subst hi
      by_cases hj : i = j
      · simp [addAt, valuesAt, hj]
      · simp [addAt, valuesAt, hj]
    · by_cases hj : i = j
      · subst hj
        have hk : ¬ k = i := fun e => hi e.symm
        simp [addAt, valuesAt, hi, hk]
      · simp [addAt, valuesAt, hi, hj, ih]

theorem valuesAt_gather (k : κ) (l : List (κ × α)) :
    valuesAt k (gather l) = (l.filter fun p => p.1 = k).map (·.2) := by
  induction l using List.reverseRecOn with
  | nil => rfl
  | append_singleton l p ih =>
    rw [gather_concat, valuesAt_addAt, ih, List.filter_append, List.map_append]
    by_cases h : p.1 = k
    · simp [h]
    · simp [h]

theorem valuesAt_mem {groups : List (κ × List α)} (hnd : (groups.map (·.1)).Nodup)
    {g : κ × List α} (hg : g ∈ groups) : valuesAt g.1 groups = g.2 := by
  induction groups with
  | nil => cases hg
  | cons h groups ih =>
    obtain ⟨j, as⟩ := h
    rw [List.map_cons, List.nodup_cons] at hnd
    rcases List.mem_cons.1 hg with rfl | hg
    · simp [valuesAt]
    · have hne : ¬ j = g.1 := fun e => hnd.1 (List.mem_map.2 ⟨g, hg, e.symm⟩)
      rw [valuesAt, if_neg hne, ih hnd.2 hg]

/-- A group holds the values of its key, in the order they came. -/
theorem mem_gather {l : List (κ × α)} {g : κ × List α} (hg : g ∈ gather l) :
    g.2 = (l.filter fun p => p.1 = g.1).map (·.2) := by
  rw [← valuesAt_gather, valuesAt_mem (keys_gather l) hg]

end Gathering

end CarbonRuntime.Core
