import Mathlib.Data.List.Nodup

/-!
# A table of rows, at most one a key

The rows of a directory whose file names are derived from what the files hold:
a row is written at its own key, writing at a key that is taken replaces the
row there, and taking a key away leaves every other row. That no two rows share a
key is a field, so a table with two rows at one key cannot be built.

**Results.** `find_put_self` and `find_put_other` say what a write changes, and
`find_erase` what taking away does; `mem_iff_find` reads the rows off the keys;
`find_put_isSome` is that a key once taken stays taken while nothing is taken away.
-/
namespace CarbonRuntime.Core

structure Table {α κ : Type*} (key : α → κ) where
  rows : List α
  nodup : (rows.map key).Nodup

namespace Table

variable {α κ : Type*} {key : α → κ}

def empty : Table key := ⟨[], List.nodup_nil⟩

instance [DecidableEq α] : DecidableEq (Table key) := fun t t' =>
  decidable_of_iff (t.rows = t'.rows) (by cases t; cases t'; simp)

theorem ext_rows {t t' : Table key} (h : t.rows = t'.rows) : t = t' := by
  cases t
  cases t'
  cases h
  rfl

theorem ext_key {t : Table key} {a b : α} (ha : a ∈ t.rows) (hb : b ∈ t.rows)
    (h : key a = key b) : a = b := List.inj_on_of_nodup_map t.nodup ha hb h

variable [DecidableEq κ]

def find (t : Table key) (k : κ) : Option α := t.rows.find? fun a => decide (key a = k)

/-- Replace the row at `a`'s key, or add `a` behind the rows. -/
def putRow (key : α → κ) (a : α) : List α → List α
  | [] => [a]
  | b :: l => if key b = key a then a :: l else b :: putRow key a l

theorem keys_putRow (a : α) (l : List α) :
    (putRow key a l).map key =
      if key a ∈ l.map key then l.map key else l.map key ++ [key a] := by
  induction l with
  | nil => simp [putRow]
  | cons b l ih =>
    by_cases h : key b = key a
    · simp [putRow, h]
    · have h' : key a ≠ key b := fun e => h e.symm
      simp only [putRow, h, if_false, List.map_cons, ih, List.mem_cons, h', false_or]
      split <;> simp

def put (t : Table key) (a : α) : Table key where
  rows := putRow key a t.rows
  nodup := by
    rw [keys_putRow]
    split
    · exact t.nodup
    · rename_i h
      exact List.nodup_append.2 ⟨t.nodup, by simp, by simpa using fun x hx e => h (by
        rw [← e]; exact List.mem_map_of_mem hx)⟩

theorem find?_putRow_self (a : α) (l : List α) :
    (putRow key a l).find? (fun b => decide (key b = key a)) = some a := by
  induction l with
  | nil => simp [putRow]
  | cons b l ih =>
    by_cases h : key b = key a
    · simp [putRow, h]
    · simp [putRow, h, ih]

theorem find?_putRow_other (a : α) {k : κ} (hk : k ≠ key a) (l : List α) :
    (putRow key a l).find? (fun b => decide (key b = k)) =
      l.find? fun b => decide (key b = k) := by
  have ha : key a ≠ k := fun e => hk e.symm
  induction l with
  | nil => simp [putRow, ha]
  | cons b l ih =>
    by_cases h : key b = key a
    · have hb : key b ≠ k := fun e => hk (e ▸ h)
      simp [putRow, h, ha]
    · by_cases hb : key b = k
      · simp [putRow, hb, hk]
      · simp [putRow, h, hb, ih]

@[simp] theorem find_put_self (t : Table key) (a : α) : (t.put a).find (key a) = some a :=
  find?_putRow_self a t.rows

theorem find_put_other (t : Table key) (a : α) {k : κ} (hk : k ≠ key a) :
    (t.put a).find k = t.find k := find?_putRow_other a hk t.rows

theorem find_put (t : Table key) (a : α) (k : κ) :
    (t.put a).find k = if k = key a then some a else t.find k := by
  split
  · rename_i h; rw [h, find_put_self]
  · rename_i h; exact find_put_other t a h

theorem find_key {t : Table key} {k : κ} {a : α} (h : t.find k = some a) : key a = k := by
  simpa using List.find?_some h

theorem find_mem {t : Table key} {k : κ} {a : α} (h : t.find k = some a) : a ∈ t.rows :=
  List.mem_of_find?_eq_some h

theorem mem_find {t : Table key} {a : α} (h : a ∈ t.rows) : t.find (key a) = some a := by
  have hs : (t.find (key a)).isSome := by
    rw [find, List.find?_isSome]
    exact ⟨a, h, by simp⟩
  obtain ⟨b, hb⟩ := Option.isSome_iff_exists.1 hs
  have hinj := List.inj_on_of_nodup_map t.nodup
  rw [hb, hinj (find_mem hb) h (find_key hb)]

theorem mem_iff_find {t : Table key} {a : α} : a ∈ t.rows ↔ t.find (key a) = some a :=
  ⟨mem_find, find_mem⟩

theorem mem_put {t : Table key} {a b : α} :
    b ∈ (t.put a).rows ↔ b = a ∨ b ∈ t.rows ∧ key b ≠ key a := by
  rw [mem_iff_find, find_put]
  split
  · rename_i h
    constructor
    · intro e; exact .inl (Option.some.inj e).symm
    · rintro (e | ⟨_, hn⟩)
      · rw [e]
      · exact absurd h hn
  · rename_i h
    rw [← mem_iff_find]
    constructor
    · exact fun hb => .inr ⟨hb, h⟩
    · rintro (e | ⟨hb, _⟩)
      · exact absurd (congrArg key e) h
      · exact hb

/-- A key once taken stays taken. -/
theorem find_put_isSome {t : Table key} {k : κ} (a : α) (h : (t.find k).isSome) :
    ((t.put a).find k).isSome := by
  rw [find_put]
  split
  · rfl
  · exact h

theorem find_none {t : Table key} {k : κ} : t.find k = none ↔ k ∉ t.rows.map key := by
  simp [find]

theorem putRow_new (a : α) {l : List α} (h : key a ∉ l.map key) : putRow key a l = l ++ [a] := by
  induction l with
  | nil => rfl
  | cons b l ih =>
    rw [List.map_cons, List.mem_cons, not_or] at h
    rw [putRow, if_neg (Ne.symm h.1), ih h.2, List.cons_append]

/-- What `f` reads of the rows stays where the row at the key reads the same. -/
theorem map_putRow {β : Type*} (f : α → β) {a : α} {l : List α} (h : key a ∈ l.map key)
    (hf : ∀ b ∈ l, key b = key a → f a = f b) : (putRow key a l).map f = l.map f := by
  induction l with
  | nil => simp at h
  | cons b l ih =>
    rw [putRow]
    split
    · rename_i hb
      rw [List.map_cons, List.map_cons, hf b List.mem_cons_self hb]
    · rename_i hb
      rw [List.map_cons, List.mem_cons] at h
      rw [List.map_cons, List.map_cons, ih (h.resolve_left (Ne.symm hb))
        fun c hc => hf c (List.mem_cons_of_mem _ hc)]

theorem rows_put_new {t : Table key} {a : α} (h : t.find (key a) = none) :
    (t.put a).rows = t.rows ++ [a] := putRow_new a (find_none.1 h)

theorem map_rows_put {β : Type*} (f : α → β) {t : Table key} {a b : α}
    (h : t.find (key a) = some b) (hf : f a = f b) : (t.put a).rows.map f = t.rows.map f := by
  have hb := find_mem h
  have hkey := find_key h
  refine map_putRow f (hkey ▸ List.mem_map_of_mem hb) fun c hc hk => ?_
  rw [ext_key hc hb (hk.trans hkey.symm), hf]

/-- A row that is not counted counts for no more than what it replaces. -/
theorem countP_put_le {p : α → Bool} {t : Table key} {a : α} (h : p a = false) :
    (t.put a).rows.countP p ≤ t.rows.countP p := by
  have hrow : ∀ l : List α, (putRow key a l).countP p ≤ l.countP p := by
    intro l
    induction l with
    | nil => simp [putRow, h]
    | cons b l ih =>
      rw [putRow]
      split
      · rw [List.countP_cons, List.countP_cons, h]
        simp
      · rw [List.countP_cons, List.countP_cons]
        exact Nat.add_le_add_right ih _
  exact hrow t.rows

/-- Take the row at the key away, if there is one. -/
def erase (t : Table key) (k : κ) : Table key where
  rows := t.rows.filter fun a => decide (key a ≠ k)
  nodup := t.nodup.sublist (List.filter_sublist.map key)

theorem mem_erase {t : Table key} {k : κ} {a : α} :
    a ∈ (t.erase k).rows ↔ a ∈ t.rows ∧ key a ≠ k := by
  simp [erase]

theorem find_erase (t : Table key) (k k' : κ) :
    (t.erase k).find k' = if k' = k then none else t.find k' := by
  by_cases h : k' = k
  · rw [if_pos h, find_none]
    intro hk
    obtain ⟨a, ha, rfl⟩ := List.mem_map.1 hk
    exact (mem_erase.1 ha).2 h
  · rw [if_neg h]
    cases hf : t.find k' with
    | none =>
      rw [find_none] at hf ⊢
      intro hk
      obtain ⟨a, ha, hka⟩ := List.mem_map.1 hk
      exact hf (List.mem_map.2 ⟨a, (mem_erase.1 ha).1, hka⟩)
    | some a =>
      have hka := find_key hf
      have ha : a ∈ (t.erase k).rows := mem_erase.2 ⟨find_mem hf, hka ▸ h⟩
      rw [← hka]
      exact mem_find ha

theorem find_erase_other (t : Table key) {k k' : κ} (h : k' ≠ k) : (t.erase k).find k' = t.find k' := by
  rw [find_erase, if_neg h]

theorem find_erase_some {t : Table key} {k k' : κ} {a : α} (h : (t.erase k).find k' = some a) :
    k' ≠ k ∧ t.find k' = some a := by
  rw [find_erase] at h
  split at h
  · cases h
  · exact ⟨by assumption, h⟩

/-- What was written at a key goes with it. -/
theorem erase_put (t : Table key) (a : α) : (t.put a).erase (key a) = t.erase (key a) := by
  have hrow : ∀ l : List α, (putRow key a l).filter (fun b => decide (key b ≠ key a)) =
      l.filter fun b => decide (key b ≠ key a) := by
    intro l
    induction l with
    | nil => simp [putRow]
    | cons b l ih =>
      rw [putRow]
      split
      · rename_i h
        rw [List.filter_cons_of_neg (by simp), List.filter_cons_of_neg (by simp [h])]
      · rename_i h
        rw [List.filter_cons_of_pos (by simp [h]), List.filter_cons_of_pos (by simp [h]), ih]
  exact ext_rows (hrow t.rows)

theorem length_put {t : Table key} {a : α} (h : (t.find (key a)).isSome) :
    (t.put a).rows.length = t.rows.length := by
  have hmem : key a ∈ t.rows.map key := by
    by_contra hno
    rw [find_none.2 hno] at h
    cases h
  have := congrArg List.length (@keys_putRow _ _ key _ a t.rows)
  rw [if_pos hmem, List.length_map, List.length_map] at this
  exact this

/-- The rows at the keys of `p`. -/
def restrict (t : Table key) (p : κ → Bool) : Table key where
  rows := t.rows.filter fun a => p (key a)
  nodup := t.nodup.sublist (List.filter_sublist.map key)

theorem find_restrict (t : Table key) (p : κ → Bool) (k : κ) :
    (t.restrict p).find k = if p k then t.find k else none := by
  by_cases h : p k = true
  · rw [if_pos h]
    cases hf : t.find k with
    | none =>
      rw [find_none] at hf ⊢
      intro hk
      obtain ⟨a, ha, hka⟩ := List.mem_map.1 hk
      exact hf (List.mem_map.2 ⟨a, List.mem_of_mem_filter ha, hka⟩)
    | some a =>
      have hka := find_key hf
      rw [← hka]
      exact mem_find (List.mem_filter.2 ⟨find_mem hf, hka ▸ h⟩)
  · rw [if_neg h, find_none]
    intro hk
    obtain ⟨a, ha, rfl⟩ := List.mem_map.1 hk
    exact h (List.mem_filter.1 ha).2

/-- Change every row, each at its key. -/
def mapRows (t : Table key) (f : α → α) (hf : ∀ a, key (f a) = key a) : Table key where
  rows := t.rows.map f
  nodup := by
    have hkey : key ∘ f = key := funext hf
    rw [List.map_map, hkey]
    exact t.nodup

theorem find_mapRows (t : Table key) (f : α → α) (hf : ∀ a, key (f a) = key a) (k : κ) :
    (t.mapRows f hf).find k = (t.find k).map f := by
  have hkey : (fun a => decide (key a = k)) ∘ f = fun a => decide (key a = k) :=
    funext fun a => by rw [Function.comp_apply, hf]
  rw [find, mapRows, List.find?_map, hkey]
  rfl

end Table

end CarbonRuntime.Core
