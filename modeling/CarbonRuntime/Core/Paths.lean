import CarbonRuntime.Core.Splitting
import CarbonRuntime.Core.Utf16

/-!
# Absolute paths

A normalised path is the names from the root on (`Path`); its text puts a slash before each. `walk` takes a
text's parts one by one, as `path.normalize` does: an empty part and a dot stay, two dots go up, and anything
else goes down. `path.resolve` starts over at a part that begins with a slash.

**Results.** A path is the normal form of its text (`ofText_text`). A path's text with a slash behind it
begins another's text exactly where the other is below it (`slash_prefix_iff`).
-/

namespace CarbonRuntime.Core.Paths

open Utf16 Splitting

def slash : UInt16 := 0x2f
def dot : UInt16 := 0x2e

/-- A part of a path that is the name of a file or of a directory. -/
def IsName (s : Text) : Prop := s ≠ [] ∧ slash ∉ s ∧ s ≠ [dot] ∧ s ≠ [dot, dot]

instance (s : Text) : Decidable (IsName s) := inferInstanceAs (Decidable (_ ∧ _ ∧ _ ∧ _))

structure Path where
  names : List Text
  valid : ∀ s ∈ names, IsName s
deriving DecidableEq

namespace Path

def root : Path := ⟨[], by simp⟩

def push (p : Path) (s : Text) (h : IsName s) : Path :=
  ⟨p.names ++ [s], fun t ht => (List.mem_append.1 ht).elim (p.valid t) fun hs => List.mem_singleton.1 hs ▸ h⟩

def up (p : Path) : Path := ⟨p.names.dropLast, fun s hs => p.valid s (List.dropLast_subset _ hs)⟩

def enter (p : Path) (s : Text) : Path :=
  if h : IsName s then p.push s h else if s = [dot, dot] then p.up else p

def walk (p : Path) (t : Text) : Path := (t.splitOn slash).foldl enter p

/-- The path a text names, read from the root. -/
def ofText (t : Text) : Path := root.walk t

/-- `path.resolve(p, ...components)` -/
def resolve (p : Path) (components : List Text) : Path :=
  components.foldl (fun p c => if c.head? = some slash then ofText c else p.walk c) p

def text (p : Path) : Text := if p.names = [] then [slash] else p.names.flatMap (slash :: ·)

/-- `path.join(dir, name)`, of an absolute `dir` -/
def join (dir name : Text) : Text := ((ofText dir).walk name).text

/-- Strictly below. -/
def Below (p q : Path) : Prop := ∃ s t, q.names = p.names ++ s :: t

variable {p q : Path} {s t : Text}

theorem ext_names (h : p.names = q.names) : p = q := by
  cases p
  cases q
  simpa using h

@[simp] theorem push_names (h : IsName s) : (p.push s h).names = p.names ++ [s] := rfl

theorem enter_name (h : IsName s) : p.enter s = p.push s h := dif_pos h

@[simp] theorem enter_nil : p.enter [] = p := by
  rw [enter, dif_neg fun h => h.1 rfl, if_neg (by simp)]

theorem walk_name (h : IsName s) : p.walk s = p.push s h := by
  rw [walk, splitOn_line h.2.1, List.foldl_cons, List.foldl_nil, enter_name h]

theorem resolve_names {l : List Text} (h : ∀ s ∈ l, IsName s) : (p.resolve l).names = p.names ++ l := by
  induction l generalizing p with
  | nil => simp [resolve]
  | cons s l ih =>
    have hs := h s List.mem_cons_self
    have hhead : s.head? ≠ some slash := fun hh => hs.2.1 (List.mem_of_mem_head? hh)
    have hstep : p.resolve (s :: l) = (p.push s hs).resolve l := by
      simp only [resolve, List.foldl_cons, if_neg hhead, walk_name hs]
    rw [hstep, ih fun t ht => h t (List.mem_cons_of_mem _ ht)]
    simp

theorem splitOn_slash (t : Text) : (slash :: t).splitOn slash = [] :: t.splitOn slash := by
  rw [splitOn_cons, if_pos (by simp)]

/-- The parts of names with a slash before each, and of what another slash begins. -/
theorem splitOn_names {names : List Text} (h : ∀ s ∈ names, slash ∉ s) (t : Text) :
    (names.flatMap (slash :: ·) ++ slash :: t).splitOn slash = [] :: names ++ t.splitOn slash := by
  induction names with
  | nil => exact splitOn_slash t
  | cons s names ih =>
    rw [List.flatMap_cons, List.append_assoc, List.cons_append, splitOn_slash,
      splitOn_part (h s List.mem_cons_self), ih fun s hs => h s (List.mem_cons_of_mem _ hs)]
    simp

theorem splitOn_flatMap {names : List Text} (h : ∀ s ∈ names, slash ∉ s) :
    (names.flatMap (slash :: ·)).splitOn slash = [] :: names := by
  induction names with
  | nil => simp
  | cons s names ih =>
    rw [List.flatMap_cons, List.cons_append, splitOn_slash, splitOn_part (h s List.mem_cons_self),
      ih fun s hs => h s (List.mem_cons_of_mem _ hs)]
    simp

theorem foldl_enter {names : List Text} (h : ∀ s ∈ names, IsName s) :
    (names.foldl enter p).names = p.names ++ names := by
  induction names generalizing p with
  | nil => simp
  | cons s names ih =>
    rw [List.foldl_cons, enter_name (h s List.mem_cons_self), ih fun t ht => h t (List.mem_cons_of_mem _ ht)]
    simp

theorem no_slash (p : Path) : ∀ s ∈ p.names, slash ∉ s := fun s hs => (p.valid s hs).2.1

/-- A path is the normal form of its text. -/
theorem ofText_text (p : Path) : ofText p.text = p := by
  refine ext_names ?_
  rw [ofText, walk, text]
  split
  · rename_i h
    rw [h]
    rfl
  · rw [splitOn_flatMap p.no_slash, List.foldl_cons, enter_nil, foldl_enter p.valid]
    rfl

theorem text_inj : p.text = q.text ↔ p = q :=
  ⟨fun h => by rw [← ofText_text p, ← ofText_text q, h], congrArg text⟩

theorem join_text (h : IsName s) : join p.text s = (p.push s h).text := by
  rw [join, ofText_text, walk_name h]

/-- The text of a path, a slash behind it, begins the texts of what is below it. -/
theorem slash_prefix_iff (hp : p ≠ root) : p.text ++ [slash] <+: q.text ↔ p.Below q := by
  have hne : p.names ≠ [] := fun h => hp (ext_names h)
  constructor
  · rintro ⟨t, ht⟩
    obtain ⟨s, l, hl⟩ := List.exists_cons_of_ne_nil (splitOn_ne_nil (s := slash) t)
    refine ⟨s, l, ?_⟩
    rw [text, if_neg hne, List.append_assoc, List.singleton_append] at ht
    have hsplit := splitOn_names p.no_slash t
    rw [ht, hl, text] at hsplit
    by_cases hq : q.names = []
    · rw [if_pos hq] at hsplit
      have hlength := congrArg List.length hsplit
      have := List.length_pos_iff.2 hne
      simp [splitOn_slash] at hlength
      omega
    · rw [if_neg hq, splitOn_flatMap q.no_slash] at hsplit
      exact (List.cons.inj hsplit).2
  · rintro ⟨s, l, h⟩
    have hq : q.names ≠ [] := by rw [h]; simp
    refine ⟨s ++ l.flatMap (slash :: ·), ?_⟩
    rw [text, text, if_neg hne, if_neg hq, h]
    simp

/-- No text of a path begins with two slashes. -/
theorem not_root_prefix : ¬ root.text ++ [slash] <+: q.text := by
  rintro ⟨t, ht⟩
  have hroot : root.text = [slash] := rfl
  rw [hroot, text] at ht
  split at ht
  · have := congrArg List.length ht
    simp at this
  · rename_i hq
    obtain ⟨s, l, hs⟩ := List.exists_cons_of_ne_nil hq
    have hvalid := q.valid s (by rw [hs]; exact List.mem_cons_self)
    obtain ⟨u, m, rfl⟩ := List.exists_cons_of_ne_nil hvalid.1
    rw [hs, List.flatMap_cons] at ht
    have hu : slash = u := (List.cons.inj (List.cons.inj ht).2).1
    exact hvalid.2.1 (by rw [hu]; exact List.mem_cons_self)

end Path

end CarbonRuntime.Core.Paths
