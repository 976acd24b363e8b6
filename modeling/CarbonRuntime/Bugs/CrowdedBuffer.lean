import CarbonRuntime.Harness.Lines

/-!
# A limit on a line, and on what it comes with

`LineSplitter.push` tests the limit before it splits (harness/codex/protocol.ts:31-34), on the line it is in
and the whole chunk behind it. A chunk of many short lines is over the limit where none of them is, and what it
throws fails the connection with every request on it. Its message speaks of one line with no newline.

The lines and the error are those of the text, whatever the chunks, exactly where a chunk is over the limit
with the line it comes in only in a text with a line that is (`framed_iff`).

Counterexample: two lines of two characters in one chunk, and a limit of four.
-/

open CarbonRuntime.Core Splitting

namespace CarbonRuntime.Bugs.CrowdedBuffer

open Harness

variable {limit : Nat} {chunks : List Utf16.Text}

/-- The outcome of each push of a new splitter. -/
def outcomes (limit : Nat) (chunks : List Utf16.Text) : List (Except String (List Utf16.Text)) :=
  ({ limit } : LineSplitter).pushes chunks

/-- Some line of the text is over the limit. -/
def HasLong (limit : Nat) (text : Utf16.Text) : Prop := ∃ line ∈ text.splitOn lf, limit < line.length

/-- The lines that come back and the error are those of the whole text. -/
structure Framed (limit : Nat) (chunks : List Utf16.Text) : Prop where
  lines : throws (outcomes limit chunks) = false →
    returned (outcomes limit chunks) = trimmed (complete lf chunks.flatten)
  error : throws (outcomes limit chunks) = true ↔ HasLong limit chunks.flatten

/-- Some chunk is over the limit with the line it comes in. -/
def Crowded (limit : Nat) (chunks : List Utf16.Text) : Prop :=
  ∃ before chunk after, chunks = before ++ chunk :: after ∧
    limit < (tail lf before.flatten).length + chunk.length

theorem throws_crowded : throws (outcomes limit chunks) = true ↔ Crowded limit chunks := by
  rw [outcomes, throws_iff List.not_mem_nil]
  rfl

theorem framed_iff (limit : Nat) (chunks : List Utf16.Text) :
    Framed limit chunks ↔ (Crowded limit chunks → HasLong limit chunks.flatten) := by
  constructor
  · exact fun h hc => h.error.1 (throws_crowded.2 hc)
  · refine fun h => ⟨fun hno => ?_, fun ht => h (throws_crowded.1 ht), ?_⟩
    · exact pushes_all List.not_mem_nil hno
    · rintro ⟨line, hline, hlong⟩
      exact throws_of_long (Nat.zero_le _) hline hlong

/-- `"ab\ncd\n"` -/
def twoLines : Utf16.Text := [0x61, 0x62, 0xa, 0x63, 0x64, 0xa]

theorem twoLines_refused : ¬ Framed 4 [twoLines] := by
  intro h
  obtain ⟨line, hline, hlong⟩ := h.error.1 (by decide)
  have hshort : ∀ line ∈ ([twoLines].flatten).splitOn lf, line.length ≤ 4 := by decide
  exact absurd hlong (Nat.not_lt.2 (hshort line hline))

end CarbonRuntime.Bugs.CrowdedBuffer
