import CarbonRuntime.Core.Check
import CarbonRuntime.Core.Csv
import Mathlib.Data.Rat.Lemmas

/-!
# What of an evidence file is shown

`csv` reads a table off a file, and `resolveEvidenceFragment` answers a range of its rows, or of a
text's lines, with the lines around it as far as the limit goes (runtime/browser-evidence-
representation.ts:12-27 and 78-132). An answer that does not reach the end names the range to ask for next.

JSON and images, which are addressed by a pointer and a region and have no next range, are left out.
-/

open CarbonRuntime.Core Utf16

namespace CarbonRuntime.Runtime.Fragments

/-! ## Reading a table -/

inductive CsvError
  | invalidQuotedField
  | unclosedQuotedField
deriving DecidableEq

def toggleQuote (field : Text) (quoted : Bool) : Except CsvError Bool :=
  if field = [] ∨ quoted then .ok !quoted else .error .invalidQuotedField

structure Scan where
  rows : List (List Text)
  row : List Text
  field : Text
  quoted : Bool
deriving DecidableEq

/-- The loop over the text from here on. -/
def scan : Text → Scan → Except CsvError Scan
  | [], s => .ok s
  | c :: text, s =>
    if c = Csv.quote then
      if s.quoted ∧ text.head? = some Csv.quote then
        scan text.tail { s with field := s.field ++ [Csv.quote] }
      else do
        let quoted ← toggleQuote s.field s.quoted
        scan text { s with quoted }
    else if !s.quoted ∧ c = Csv.comma then
      scan text { s with row := s.row ++ [s.field], field := [] }
    else if !s.quoted ∧ (c = Csv.lf ∨ c = Csv.cr) then
      let text := if c = Csv.cr ∧ text.head? = some Csv.lf then text.tail else text
      scan text { s with rows := s.rows ++ [s.row ++ [s.field]], row := [], field := [] }
    else scan text { s with field := s.field ++ [c] }
termination_by text => text.length
decreasing_by
  all_goals try split
  all_goals simp only [List.length_cons, List.length_tail]
  all_goals omega

def csv (text : Text) : Except CsvError (List (List Text)) := do
  let s ← scan text ⟨[], [], [], false⟩
  check (!s.quoted) .unclosedQuotedField
  return if s.field ≠ [] ∨ s.row ≠ [] then s.rows ++ [s.row ++ [s.field]] else s.rows

/-! ## Answering a range -/

/-- What is kept of a file: an array has fewer than `2 ^ 32` elements. -/
inductive Representation
  | text (lines : List Text) (h : lines.length < 2 ^ 32)
  | table (columns : List Text) (rows : List (List Text)) (h : rows.length < 2 ^ 32)
  | file (limitation : Option String)
deriving DecidableEq

/-- A selector, its numbers as the caller gave them. -/
inductive Selector
  | lines (start stop : Rat)
  | rows (start stop : Rat)
  | field (pointer : Text)
  | region (x y width height : Rat)
  /-- Fields are missing or left over, or the kind is none of these. -/
  | malformed
deriving DecidableEq

structure Fragment where
  total : Nat
  start : Nat
  stop : Nat
  lines : List (Nat × Text)
  rows : List (Nat × List Text)
  columns : List Text
  hasMore : Bool
  nextSelector : Option Selector
deriving DecidableEq

inductive Answer
  | fragment (f : Fragment)
  | file (limitation : Option String)
deriving DecidableEq

/-- `EVIDENCE_SELECTOR_INVALID`, with the subject and the problem. -/
structure Refusal where
  subject : String
  problem : String
deriving DecidableEq

/-- `Number.isSafeInteger` -/
def isSafeInteger (n : Rat) : Bool := n.den = 1 ∧ -(2 ^ 53 - 1) ≤ n ∧ n ≤ 2 ^ 53 - 1

def boundsFault (name : String) (value : Rat) (least : Rat) : Except Refusal Unit :=
  check (isSafeInteger value && least ≤ value && value ≤ 1000) ⟨name, "expected an explicit bounded integer"⟩

def validateFragmentBounds (selector : Option Selector) (contextBefore contextAfter limit : Rat) :
    Except Refusal Unit := do
  check (selector ≠ some .malformed)
    ⟨"selector", "selector must carry exactly the fields for its declared kind"⟩
  boundsFault "contextBefore" contextBefore 0
  boundsFault "contextAfter" contextAfter 0
  boundsFault "limit" limit 1

def validRange (start stop : Rat) (total : Nat) : Bool :=
  isSafeInteger start && isSafeInteger stop && 1 ≤ start && start ≤ stop && stop ≤ total

/-- `kind` for a range of these numbers. -/
def Representation.selector (rep : Representation) (start stop : Rat) : Selector :=
  match rep with
  | .text .. => .lines start stop
  | _ => .rows start stop

/-- The numbers of a selector of this representation's kind. -/
def Representation.range (rep : Representation) : Selector → Option (Rat × Rat)
  | .lines start stop => match rep with | .text .. => some (start, stop) | _ => none
  | .rows start stop => match rep with | .text .. => none | _ => some (start, stop)
  | _ => none

def Representation.linesOf : Representation → List Text
  | .text lines _ => lines
  | _ => []

def Representation.rowsOf : Representation → List (List Text)
  | .table _ rows _ => rows
  | _ => []

def Representation.columnsOf : Representation → List Text
  | .table columns .. => columns
  | _ => []

def Representation.total : Representation → Nat
  | .text lines _ => lines.length
  | .table _ rows _ => rows.length
  | .file _ => 0

/-- `values.slice(start - 1, end)`, each under its number -/
def numbered {α : Type} (values : List α) (start stop : Nat) : List (Nat × α) :=
  ((values.take stop).drop (start - 1)).mapIdx fun i value => (start + i, value)

def rangeContent (rep : Representation) (start stop limit : Nat) : Fragment where
  total := rep.total
  start := start
  stop := stop
  lines := numbered rep.linesOf start stop
  rows := numbered rep.rowsOf start stop
  columns := rep.columnsOf
  hasMore := stop < rep.total
  nextSelector :=
    if stop < rep.total then some (rep.selector ↑(stop + 1) ↑(min rep.total (stop + limit))) else none

/-- `rangeFragment`, the contexts and the limit in their bounds; so are the numbers of the range once
it is valid. -/
def rangeFragment (rep : Representation) (selector : Option Selector)
    (contextBefore contextAfter limit : Nat) : Except Refusal Fragment := do
  let total := rep.total
  let range ← present (rep.range (selector.getD (rep.selector 1 ↑(min total limit))))
    ⟨"selector.kind", "selector does not address this representation"⟩
  if !validRange range.1 range.2 total then
    if total = 0 ∧ selector = none then .ok ⟨0, 0, 0, [], [], rep.columnsOf, false, none⟩
    else .error ⟨"selector", "selected range lies outside the retained representation"⟩
  else
    let first := range.1.num.toNat
    let last := range.2.num.toNat
    let start := max 1 (first - contextBefore)
    let stop := min (min total (last + contextAfter)) (start + limit - 1)
    check (last - first + 1 ≤ limit)
      ⟨"selector", "selected range exceeds the explicit fragment limit"⟩
    check (last ≤ stop)
      ⟨"contextBefore", "requested context would exclude the selected ending within the explicit limit"⟩
    return rangeContent rep start stop limit

def resolveEvidenceFragment (rep : Representation) (selector : Option Selector)
    (contextBefore contextAfter limit : Rat) : Except Refusal Answer := do
  validateFragmentBounds selector contextBefore contextAfter limit
  match rep with
  | .text .. | .table .. =>
    let fragment ← rangeFragment rep selector contextBefore.num.toNat contextAfter.num.toNat limit.num.toNat
    return .fragment fragment
  | .file limitation =>
    check (selector = none) ⟨"selector", "this file has no supported addressable representation"⟩
    return .file limitation

end CarbonRuntime.Runtime.Fragments
