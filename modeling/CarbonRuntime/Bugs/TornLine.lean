import CarbonRuntime.Core.Splitting
import CarbonRuntime.Core.Torn
import CarbonRuntime.Import.Lines

/-!
# A code point across two blocks

`eachLine` decodes each block of a capture file on its own (import/outbound-sources.ts:38) and keeps only
the characters of the unfinished line. The bytes of a code point that lies across the end of a block
are broken sequences in both, and come out as replacement characters.

The lines are those of the file, and the items and counts with them, exactly where every block ends
where a code point does (`lines_iff`).

Counterexample: an `é`, read one byte at a time.
-/

open CarbonRuntime.Core Utf8 Splitting

namespace CarbonRuntime.Bugs.TornLine

open Import.Lines

variable {Json Item : Type} {S : Section Json Item} {counts : LineCounts} {blocks : List (List Nat)}
  {text rest a b : Text} {lines : List Text}

/-- The lines that are not empty. -/
def filled (lines : List Text) : List Text := lines.filter (· ≠ [])

theorem filled_append {lines' : List Text} : filled (lines ++ lines') = filled lines ++ filled lines' :=
  List.filter_append ..

theorem flatten_filled : (filled lines).flatten = lines.flatten := by
  induction lines with
  | nil => rfl
  | cons l lines ih => cases l <;> simp_all [filled]

/-! ## Blocks and lines -/

theorem flatten_splitOn (t : Text) : (t.splitOn '\n').flatten = inked t := by
  induction t with
  | nil => rfl
  | cons c t ih =>
    obtain ⟨l, ls, hl⟩ := List.exists_cons_of_ne_nil (@splitOn_ne_nil _ _ '\n' t)
    rw [splitOn_cons, inked, List.filter_cons]
    rw [hl] at ih ⊢
    by_cases hc : c = '\n' <;> simp_all [inked]

/-- The lines taken, but the empty ones, are those of the blocks' texts put together. -/
theorem filled_eachFrom (hne : ∀ block ∈ blocks, block ≠ []) (hrest : '\n' ∉ rest) :
    filled (eachFrom rest blocks) = filled ((rest ++ inChunks blocks).splitOn '\n') := by
  induction blocks generalizing rest with
  | nil =>
    rw [inChunks, List.flatMap_nil, List.append_nil, splitOn_line hrest, eachFrom]
    split <;> simp_all [filled]
  | cons block blocks ih =>
    cases block with
    | nil => exact absurd rfl (hne [] List.mem_cons_self)
    | cons b block =>
      have hlast : '\n' ∉ ((rest ++ decode (b :: block)).splitOn '\n').getLastD [] := by
        rw [List.getLastD_eq_getLast?, List.getLast?_eq_some_getLast (splitOn_ne_nil _)]
        exact not_mem_splitOn (List.getLast_mem _)
      rw [eachFrom, filled_append, ih (fun x hx => hne x (List.mem_cons_of_mem _ hx)) hlast, ← filled_append,
        ← splitOn_append, List.append_assoc]
      rfl

/-! ## The items of a file -/

theorem takeLine_nil (r : LineCounts × List Item) : takeLine S r [] = r := if_pos S.blank_nil

/-- Empty lines make no item and no count. -/
theorem foldl_filled (r : LineCounts × List Item) :
    (filled lines).foldl (takeLine S) r = lines.foldl (takeLine S) r := by
  induction lines generalizing r with
  | nil => rfl
  | cons line lines ih =>
    cases line with
    | nil => rw [List.foldl_cons, takeLine_nil, ← ih]; rfl
    | cons c line => exact ih _

/-- The lines of a file, and the items and counts with them, are those of its whole text. -/
def ReadAtOnce (text : Text) (blocks : List (List Nat)) : Prop :=
  filled (eachLine blocks) = filled (text.splitOn '\n') ∧
    ∀ (Json Item : Type) (S : Section Json Item) counts,
      readLines S counts blocks = (text.splitOn '\n').foldl (takeLine S) (counts, [])

/-- A file of UTF-8, read by any blocks, is read as it is at once exactly where each ends with a code
point. -/
theorem lines_iff (h : blocks.flatten = encode text) (hne : ∀ block ∈ blocks, block ≠ []) :
    ReadAtOnce text blocks ↔ Uncut text blocks := by
  have hlines : filled (eachLine blocks) = filled ((inChunks blocks).splitOn '\n') :=
    filled_eachFrom hne (by simp)
  constructor
  · rintro ⟨heq, -⟩
    refine (torn_iff h).1 fun ht => ?_
    have hlt := inChunks_more ht
    rw [h, decode_encode, ← flatten_splitOn, ← flatten_splitOn, ← @flatten_filled ((inChunks blocks).splitOn _),
      ← hlines, heq, flatten_filled] at hlt
    exact Nat.lt_irrefl _ hlt
  · intro hu
    rw [inChunks_uncut h hu] at hlines
    refine ⟨hlines, fun Json Item S counts => ?_⟩
    rw [readLines, ← foldl_filled, hlines, foldl_filled]

/-- A file of two lines, read whole. -/
theorem two_lines_read : ReadAtOnce ['a', '\n', 'é'] [[0x61, 0xa, 0xc3, 0xa9]] := by
  refine (lines_iff (by decide) (by simp)).2 fun before after h => ?_
  cases before with
  | nil => exact ⟨[], _, rfl, rfl⟩
  | cons block before =>
    obtain ⟨rfl, hnil⟩ := List.cons.inj h
    obtain ⟨rfl, -⟩ := List.append_eq_nil_iff.1 hnil.symm
    exact ⟨_, [], (List.append_nil _).symm, by decide⟩

/-- An `é` in two reads is two replacement characters. -/
theorem accent_torn : ∃ text blocks, blocks.flatten = encode text ∧ (∀ block ∈ blocks, block ≠ []) ∧
    ¬ReadAtOnce text blocks := by
  refine ⟨['é'], [[0xc3], [0xa9]], by decide, by simp, fun h => absurd h.1 ?_⟩
  decide

end CarbonRuntime.Bugs.TornLine
