import CarbonRuntime.Adapters.Chunks
import CarbonRuntime.Core.Utf16

/-!
# The check of a migration (records/check.ts)

`sqlSkeleton` goes through the SQL once and leaves out what is in comments and quotes; the checks look
for words in what is left. What it cannot close it refuses, and the migration with it.
-/

open CarbonRuntime.Core Utf16

namespace CarbonRuntime.Records

open Adapters.Chunks (isSpace)

/-- A code unit of ASCII. -/
def chr (c : Char) : UInt16 := .ofNat c.toNat

def lf : UInt16 := 0xa
def cr : UInt16 := 0xd

def isDigit (u : UInt16) : Bool := 0x30 ≤ u && u ≤ 0x39
def isLower (u : UInt16) : Bool := 0x61 ≤ u && u ≤ 0x7a

/-- `/[A-Za-z_]/` -/
def isLetter (u : UInt16) : Bool := isLower u || (0x41 ≤ u && u ≤ 0x5a) || u = chr '_'

/-- `/\w/` -/
def isWord (u : UInt16) : Bool := isLetter u || isDigit u

def lowerUnit (u : UInt16) : UInt16 := if 0x41 ≤ u ∧ u ≤ 0x5a then u + 0x20 else u

def lower (t : Text) : Text := t.map lowerUnit

/-! ## Closings -/

/-- Up to the quote that closes, that quote with it; two of them do not close. -/
def closeQuote (q : UInt16) : Text → Option (Text × Text)
  | [] => none
  | [u] => if u = q then some ([u], []) else none
  | u :: v :: t =>
    if u = q then
      if v = q then (closeQuote q t).map fun r => (u :: v :: r.1, r.2) else some ([u], v :: t)
    else (closeQuote q (v :: t)).map fun r => (u :: r.1, r.2)

/-- Up to the end of a comment that is so many deep. -/
def closeBlock : Nat → Text → Option (Text × Text)
  | 0, t => some ([], t)
  | _ + 1, [] => none
  | _ + 1, [_] => none
  | depth + 1, u :: v :: t =>
    if u = chr '/' ∧ v = chr '*' then
      (closeBlock (depth + 2) t).map fun r => (u :: v :: r.1, r.2)
    else if u = chr '*' ∧ v = chr '/' then (closeBlock depth t).map fun r => (u :: v :: r.1, r.2)
    else (closeBlock (depth + 1) (v :: t)).map fun r => (u :: r.1, r.2)

/-- `$name$` at the front, where the name is one of these. -/
def dollarTag (start more : UInt16 → Bool) : Text → Option Text
  | [] => none
  | u :: t =>
    let name := t.takeWhile more
    if u = chr '$' ∧ (name = [] ∨ name.head?.any start) ∧ (t.drop name.length).head? = some (chr '$')
    then some (u :: name ++ [chr '$']) else none

/-- Up to the end of the first occurrence. -/
def closeTag (tag : Text) : Text → Option (Text × Text)
  | [] => none
  | u :: t =>
    match (u :: t).dropPrefix? tag with
    | some rest => some (tag, rest)
    | none => (closeTag tag t).map fun r => (u :: r.1, r.2)

/-! ## The skeleton, check.ts:18-71 -/

/-- Nothing but its line feeds. -/
def blanked (t : Text) : Text := t.map fun u => if u = lf then lf else chr ' '

/-- `/^[a-z][a-z0-9_]*$/` -/
def simpleName (t : Text) : Bool :=
  t.head?.any isLower && t.all fun u => isLower u || isDigit u || u = chr '_'

/-- The message of the error it raises, check.ts:12-13 and tools/lib/fault.ts:29. -/
def invalidSql {α : Type} (message : String) : Except String α :=
  .error ("RECORDS_SQL_INVALID: migration SQL: " ++ message)

/-- mirrors check.ts:22-69, of at most so many steps; what is put for a quoted identifier is taken
back for its name -/
def skeletonFrom : Nat → Text → Except String Text
  | 0, _ => .ok []
  | _ + 1, [] => .ok []
  | rounds + 1, u :: t =>
    if u = chr '-' ∧ t.head? = some (chr '-') then do
      let comment := (u :: t).takeWhile (· ≠ lf)
      let rest ← skeletonFrom rounds ((u :: t).dropWhile (· ≠ lf))
      return blanked comment ++ rest
    else if u = chr '/' ∧ t.head? = some (chr '*') then
      match closeBlock 1 t.tail with
      | none => invalidSql "unterminated SQL block comment"
      | some (body, t) => do
        let rest ← skeletonFrom rounds t
        return chr ' ' :: chr ' ' :: blanked body ++ rest
    else if u = chr '\'' ∨ u = chr '"' then
      match closeQuote u t with
      | none => invalidSql "unterminated SQL quote"
      | some (body, t) =>
        if u = chr '"' then
          if simpleName body.dropLast then do
            let rest ← skeletonFrom rounds t
            return body.dropLast ++ rest
          else invalidSql "quoted SQL identifier must be a simple lower-case name"
        else do
          let rest ← skeletonFrom rounds t
          return chr ' ' :: blanked body ++ rest
    else
      match dollarTag isLetter isWord (u :: t) with
      | some tag =>
        match closeTag tag ((u :: t).drop tag.length) with
        | none => invalidSql "unterminated SQL dollar quote"
        | some (body, t) => do
          let rest ← skeletonFrom rounds t
          return blanked (tag ++ body) ++ rest
      | none => do
        let rest ← skeletonFrom rounds t
        return u :: rest

/-- mirrors check.ts:18-71 -/
def sqlSkeleton (source : Text) : Except String Text := skeletonFrom source.length source

/-! ## The checks, check.ts:100-124 -/

/-- A word, in any case, taken off the front. -/
def takeWord (word : String) (t : Text) : Option Text :=
  let word := ofString word
  if word.isPrefixOf (lower t) then some (t.drop word.length) else none

/-- `/\b/` at the front, behind a word. -/
def ended (t : Text) : Bool := !t.head?.any isWord

/-- Words at the front, white space between them, one of each list. -/
def phraseAt : List (List String) → Text → Bool
  | [], t => ended t
  | [words], t => words.any fun word => (takeWord word t).any ended
  | words :: more, t => words.any fun word =>
    (takeWord word t).any fun rest =>
      rest.head?.any isSpace && phraseAt more (rest.dropWhile isSpace)

/-- Somewhere in the text, behind what is read there. -/
def somewhere (behind : Option UInt16 → Bool) (found : Text → Bool) : Option UInt16 → Text → Bool
  | before, [] => behind before && found []
  | before, u :: t => (behind before && found (u :: t)) || somewhere behind found (some u) t

/-- Behind nothing or no unit of a word: `/\b/` before a word. -/
def atWord (before : Option UInt16) : Bool := !before.any isWord

/-- `/\bphrase\b/i` -/
def hasPhrase (phrase : List (List String)) (t : Text) : Bool :=
  somewhere atWord (phraseAt phrase) none t

/-- `/\bcarbon\s*\./i` -/
def namesCarbon (t : Text) : Bool :=
  somewhere atWord (fun t => (takeWord "carbon" t).any fun rest =>
    (rest.dropWhile isSpace).head? = some (chr '.')) none t

/-- `/^|;/m` -/
def atStatement (before : Option UInt16) : Bool :=
  !before.any fun u => u ∉ [lf, cr, 0x2028, 0x2029, chr ';']

def transactionWords : List String := ["begin", "commit", "rollback", "savepoint", "release"]

/-- `/(^|;)\s*(begin|commit|rollback|savepoint|release)\b/im` -/
def controlsTransaction (t : Text) : Bool :=
  somewhere atStatement (fun t => phraseAt [transactionWords] (t.dropWhile isSpace)) none t

/-- The checks of one migration; each fault behind its file's name. -/
def migrationFaults (name : String) (sql : Text) : List String :=
  let fault (text : String) := "records/migrations/" ++ name ++ ": " ++ text
  match sqlSkeleton sql with
  | .error message => [fault message]
  | .ok skeleton =>
    (if hasPhrase [["do", "call"]] skeleton ||
        hasPhrase [["create", "alter"], ["function", "procedure"]] skeleton ||
        hasPhrase [["create", "alter"], ["or"], ["replace"], ["function", "procedure"]] skeleton then
      [fault "executable DO, CALL and routine definitions are forbidden"] else []) ++
    (if hasPhrase [["drop", "truncate", "delete"]] skeleton then
      [fault "DROP, TRUNCATE and DELETE are forbidden; see agent-records-principles.md"] else []) ++
    (if namesCarbon sql ||
        hasPhrase [["create", "alter", "drop"], ["schema"], ["carbon"]] skeleton then
      [fault "carbon schema is reserved"] else []) ++
    (if controlsTransaction skeleton then
      [fault "transaction control belongs to Carbon's install step"] else []) ++
    (if hasPhrase [["enable", "force"], ["row"], ["level"], ["security"]] skeleton ||
        hasPhrase [["create"], ["policy"]] skeleton then
      [fault "row-level security prevents a complete backup read"] else [])

end CarbonRuntime.Records
