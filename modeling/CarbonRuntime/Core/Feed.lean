import CarbonRuntime.Core.Grouping

/-!
# A change feed read page by page

Each key has one entry, its value and the cursor of its last change, and a change takes a cursor
nothing had before. A reader asks for the entries past the cursor it has reached, in their order
and at most so many, and goes on from the last one it was given (`IsPage`, `reached`).

**Results.** `Caught` says that what is at or below the reader's cursor was received as it is now.
A page keeps it (`Caught.page`), and so does a change past it (`Caught.change`); where a page comes
back empty the reader has every value (`Caught.all`). `isPage_pageOf`: sorting by cursor and cutting
is such a page, where no two entries share a cursor.
-/
namespace CarbonRuntime.Core

namespace Feed

variable {κ α : Type*}

/-- An entry as it is handed over. -/
structure Item (κ α : Type*) where
  key : κ
  cursor : Nat
  value : α

/-- The feed at a time: the cursor and the value of each key that has an entry. -/
abbrev Entries (κ α : Type*) := κ → Option (Nat × α)

/-- An entry past the cursor is in the page, or past all that is in it. There may be more in the
page. -/
def IsPage (entries : Entries κ α) (after : Nat) (page : List (Item κ α)) : Prop :=
  ∀ k c v, entries k = some (c, v) → after < c →
    ⟨k, c, v⟩ ∈ page ∨ page ≠ [] ∧ ∀ x ∈ page, x.cursor < c

/-- Where a reader goes on after a page. -/
def reached (after : Nat) (page : List (Item κ α)) : Nat :=
  (page.getLast?.map (·.cursor)).getD after

/-- What is not past the cursor was received as it is. -/
def Caught (entries : Entries κ α) (after : Nat) (received : List (κ × α)) : Prop :=
  ∀ k c v, entries k = some (c, v) → c ≤ after → (k, v) ∈ received

variable {entries : Entries κ α} {after : Nat} {received : List (κ × α)} {page : List (Item κ α)}

theorem caught_page (h : Caught entries after received) (hp : IsPage entries after page) :
    Caught entries (reached after page) (received ++ page.map fun x => (x.key, x.value)) := by
  intro k c v hk hc
  by_cases hle : c ≤ after
  · exact List.mem_append_left _ (h k c v hk hle)
  · rcases hp k c v hk (Nat.lt_of_not_le hle) with hm | ⟨hne, hall⟩
    · exact List.mem_append_right _ (List.mem_map.2 ⟨_, hm, rfl⟩)
    · obtain ⟨x, hx⟩ := Option.isSome_iff_exists.1 (List.getLast?_isSome.2 hne)
      have := hall x (List.mem_of_getLast? hx)
      rw [reached, hx] at hc
      simp only [Option.map_some, Option.getD_some] at hc
      omega

/-- Each entry was there as it is, or has changed past the reader's cursor. -/
theorem caught_change {entries' : Entries κ α} (h : Caught entries after received)
    (hc : ∀ k c v, entries' k = some (c, v) → entries k = some (c, v) ∨ after < c) :
    Caught entries' after received := by
  intro k c v hk hle
  rcases hc k c v hk with hk | hlt
  · exact h k c v hk hle
  · omega

/-- A reader that is given nothing has everything. -/
theorem caught_all (h : Caught entries after received) (hp : IsPage entries after []) {k : κ}
    {c : Nat} {v : α} (hk : entries k = some (c, v)) : (k, v) ∈ received := by
  by_cases hle : c ≤ after
  · exact h k c v hk hle
  · rcases hp k c v hk (Nat.lt_of_not_le hle) with hm | ⟨hne, _⟩
    · simp at hm
    · exact absurd rfl hne

theorem reached_le {n : Nat} (ha : after ≤ n) (hp : ∀ x ∈ page, x.cursor ≤ n) :
    reached after page ≤ n := by
  unfold reached
  cases hx : page.getLast? with
  | none => exact ha
  | some x => exact hp x (List.mem_of_getLast? hx)

/-! ## Sorting and cutting -/

/-- The items past the cursor in their order, cut. -/
def pageOf (items : List (Item κ α)) (after limit : Nat) : List (Item κ α) :=
  (sortBy (fun x y => decide (x.cursor < y.cursor))
    (items.filter fun x => decide (after < x.cursor))).take limit

theorem weakOrder_cursor : WeakOrder fun x y : Item κ α => decide (x.cursor < y.cursor) where
  asymm x y h := by
    simp only [decide_eq_true_eq, decide_eq_false_iff_not] at h ⊢
    omega
  split x y z h := by
    simp only [decide_eq_true_eq] at h ⊢
    omega

theorem mem_pageOf {items : List (Item κ α)} {limit : Nat} {x : Item κ α}
    (h : x ∈ pageOf items after limit) : x ∈ items ∧ after < x.cursor := by
  have h := (sortBy_perm _ _).mem_iff.1 (List.mem_of_mem_take h)
  simpa using h

theorem isPage_pageOf {items : List (Item κ α)} {limit : Nat} (hl : 0 < limit)
    (hi : ∀ k c v, entries k = some (c, v) → ⟨k, c, v⟩ ∈ items)
    (hc : ∀ x ∈ items, ∀ y ∈ items, x.cursor = y.cursor → x = y) :
    IsPage entries after (pageOf items after limit) := by
  intro k c v hk hlt
  let sorted := sortBy (fun x y : Item κ α => decide (x.cursor < y.cursor))
    (items.filter fun x => decide (after < x.cursor))
  have hsorted : sorted.Pairwise fun x y => x.cursor ≤ y.cursor := by
    refine (sortBy_sorted weakOrder_cursor _).imp fun h => ?_
    simpa using h
  have hx : (⟨k, c, v⟩ : Item κ α) ∈ sorted := by
    refine (sortBy_perm _ _).mem_iff.2 (List.mem_filter.2 ⟨hi k c v hk, ?_⟩)
    simpa using hlt
  have hpage : pageOf items after limit = sorted.take limit := rfl
  by_cases hin : (⟨k, c, v⟩ : Item κ α) ∈ sorted.take limit
  · exact .inl hin
  · refine .inr ⟨fun hnil => ?_, fun y hy => ?_⟩
    · rw [hpage] at hnil
      rcases List.take_eq_nil_iff.1 hnil with h | h
      · omega
      · rw [h] at hx
        simp at hx
    · have hdrop : (⟨k, c, v⟩ : Item κ α) ∈ sorted.drop limit := by
        rw [← List.take_append_drop limit sorted] at hx
        exact (List.mem_append.1 hx).resolve_left hin
      have hle : y.cursor ≤ c := by
        rw [← List.take_append_drop limit sorted, List.pairwise_append] at hsorted
        exact hsorted.2.2 y hy _ hdrop
      refine Nat.lt_of_le_of_ne hle fun he => hin ?_
      have := hc y (mem_pageOf hy).1 ⟨k, c, v⟩ (hi k c v hk) he
      rwa [← this]

end Feed

end CarbonRuntime.Core
