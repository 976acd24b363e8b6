import CarbonRuntime.Core.Utf16

/-!
# Tables written as CSV

How a table may stand in a text: a field bare or in quotes, a quote within quotes doubled, a comma
between fields, a line break between records and perhaps one at the end. `Strict` is RFC 4180's part
of it: what stands in quotes is the whole field, and a break is CRLF or LF. The rest is what a reader
may still take, bare text behind the closing quote and a CR alone for a break.
-/
namespace CarbonRuntime.Core.Csv

open Utf16

def quote : UInt16 := 0x22
def comma : UInt16 := 0x2c
def lf : UInt16 := 0x0a
def cr : UInt16 := 0x0d

/-- What a field may hold bare. -/
def Plain (u : UInt16) : Prop := u ≠ quote ∧ u ≠ comma ∧ u ≠ lf ∧ u ≠ cr

instance (u : UInt16) : Decidable (Plain u) := inferInstanceAs (Decidable (_ ∧ _))

/-- A field as it is written. -/
structure Cell where
  /-- What stands in quotes at its front. -/
  quoted : Option Text
  /-- What follows, or the field where it is not quoted. -/
  tail : Text
  bare : ∀ u ∈ tail, Plain u

inductive Break
  | crlf | lf | cr
deriving DecidableEq

/-- A record: it has a field. -/
structure Record where
  first : Cell
  others : List Cell

/-- The records a break ends, and the one at the end of the text. -/
structure Layout where
  ended : List (Record × Break)
  last : Option Record

/-- A quote is doubled. -/
def doubled : Text → Text
  | [] => []
  | u :: t => if u = quote then quote :: quote :: doubled t else u :: doubled t

namespace Cell

def value (c : Cell) : Text := c.quoted.getD [] ++ c.tail

def write (c : Cell) : Text :=
  match c.quoted with
  | none => c.tail
  | some t => quote :: doubled t ++ quote :: c.tail

end Cell

def Break.write : Break → Text
  | .crlf => [Csv.cr, Csv.lf]
  | .lf => [Csv.lf]
  | .cr => [Csv.cr]

namespace Record

def cells (r : Record) : List Cell := r.first :: r.others

def values (r : Record) : List Text := r.cells.map (·.value)

def write (r : Record) : Text := r.first.write ++ r.others.flatMap fun c => comma :: c.write

end Record

namespace Layout

/-- The table a text in this layout holds. -/
def table (L : Layout) : List (List Text) :=
  L.ended.map (·.1.values) ++ L.last.toList.map (·.values)

def write (L : Layout) : Text :=
  (L.ended.flatMap fun r => r.1.write ++ r.2.write) ++ L.last.toList.flatMap (·.write)

def records (L : Layout) : List Record := L.ended.map (·.1) ++ L.last.toList

/-- One of RFC 4180's layouts. A record that is one empty field is quoted where no break ends it:
bare it would be no text at all. -/
structure Strict (L : Layout) : Prop where
  some : L.records ≠ []
  cells : ∀ r ∈ L.records, ∀ c ∈ r.cells, c.quoted = none ∨ c.tail = []
  breaks : ∀ r ∈ L.ended, r.2 ≠ .cr
  empty : ∀ r ∈ L.last, r.write ≠ []

end Layout

theorem doubled_append {t t' : Text} : doubled (t ++ t') = doubled t ++ doubled t' := by
  induction t with
  | nil => rfl
  | cons u t ih => by_cases h : u = quote <;> simp [doubled, h, ih]

end CarbonRuntime.Core.Csv
