import CarbonRuntime.Core.Utf8

/-!
# Reading a capture file by blocks

`eachLine` reads a file a block at a time and gives the lines on, the last one where there is one
(import/outbound-sources.ts:30-46); `readLines` makes an item or a count of each (outbound-sources.ts:48-74).

What a line holds (`JSON.parse`, `valueAt`, `selects` and `itemFrom`, outbound-mapping.ts) is a parameter.
-/

open CarbonRuntime.Core Utf8

namespace CarbonRuntime.Import.Lines

/-- A text, as its code points. -/
abbrev Text := List Char

/-- The loop over the blocks that `readSync` answers; `rest` is the line it is in. A block of no
bytes is the end of the file. -/
def eachFrom (rest : Text) : List (List Nat) → List Text
  | [] => if rest ≠ [] then [rest] else []
  | [] :: _ => if rest ≠ [] then [rest] else []
  | (b :: block) :: blocks =>
    let lines := (rest ++ decode (b :: block)).splitOn '\n'
    lines.dropLast ++ eachFrom (lines.getLastD []) blocks

/-- The lines taken, in order. -/
def eachLine (blocks : List (List Nat)) : List Text := eachFrom [] blocks

structure LineCounts where
  lines : Nat := 0
  unparseable : Nat := 0
  withoutTheNamedRecord : Nat := 0
  withoutAnIdOrAChat : Nat := 0
  selected : Nat := 0
deriving DecidableEq

/-- What a section of the mapping reads off a line. -/
structure Section (Json Item : Type) where
  /-- `line.trim().length === 0` -/
  blank : Text → Bool
  blank_nil : blank [] = true
  parse : Text → Option Json
  /-- The record, or the whole, where it is an object. -/
  holder : Json → Option Json
  selects : Json → Bool
  itemFrom : Json → Item
  /-- It has an id and a chat. -/
  addressed : Item → Bool

variable {Json Item : Type}

def takeLine (S : Section Json Item) (r : LineCounts × List Item) (line : Text) : LineCounts × List Item :=
  if S.blank line then r
  else
    let counts := { r.1 with lines := r.1.lines + 1 }
    match S.parse line with
    | none => ({ counts with unparseable := counts.unparseable + 1 }, r.2)
    | some parsed =>
      match S.holder parsed with
      | none => ({ counts with withoutTheNamedRecord := counts.withoutTheNamedRecord + 1 }, r.2)
      | some holder =>
        if !S.selects holder then (counts, r.2)
        else
          let item := S.itemFrom holder
          if !S.addressed item then
            ({ counts with withoutAnIdOrAChat := counts.withoutAnIdOrAChat + 1 }, r.2)
          else ({ counts with selected := counts.selected + 1 }, r.2 ++ [item])

/-- The counts and items of a file, from these counts on. -/
def readLines (S : Section Json Item) (counts : LineCounts) (blocks : List (List Nat)) :
    LineCounts × List Item :=
  (eachLine blocks).foldl (takeLine S) (counts, [])

end CarbonRuntime.Import.Lines
