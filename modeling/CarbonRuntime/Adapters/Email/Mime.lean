import CarbonRuntime.Adapters.Chunks
import CarbonRuntime.Adapters.Email.Read
import CarbonRuntime.Core.Base64
import CarbonRuntime.Core.Rewrite
import CarbonRuntime.Core.Utf8
import Mathlib.Data.Option.Basic

/-!
# The MIME reader (adapters/email/mime.ts)

The lines of a mail, of which every unit is a byte as the transport decodes them or text as a
fixture has it: the headers unfolded and their encoded words read, the parts walked, the first text
part or the first HTML part without its tags as the body, and the attachments. What it cannot read
it says so of (`Thrown.unreadable`), and the adapter parks the message.

A pattern of the reader is a matcher of what it takes off the front of a text; none of them ignores
the case of anything but ASCII. `toLowerCase` and the decoders of the charsets are the platform's.

**Results.** `removals_end`: each removal of `stripHtml` ends, where it finds nothing more.
-/

open CarbonRuntime.Core CarbonRuntime.Stream Utf16 Rewrite

namespace CarbonRuntime.Adapters.Email.Mime

open Chunks (isSpace)

/-- What leaves the reader: its own error, or that of a conversion. -/
inductive Thrown
  | unreadable (reason : Text)
  | rangeError
deriving DecidableEq

structure Platform where
  toLowerCase : Text → Text
  /-- `new TextDecoder(label).decode`; a label it does not know is refused. -/
  textDecoder : Text → Option (List Nat → Text)

/-- A code unit of ASCII. -/
def chr (c : Char) : UInt16 := .ofNat c.toNat

def cr : UInt16 := 0xd
def lf : UInt16 := 0xa

def trim (t : Text) : Text := Cutting.trim isSpace t

/-- `text.indexOf(unit)` -/
def indexOf (u : UInt16) (t : Text) : Option Nat := t.findIdx? (· = u)

/-- `line.replace(/\r$/, '')` -/
def stripCr (line : Text) : Text := if line.getLast? = some cr then line.dropLast else line

/-! ## Headers, mime.ts:54-99 -/

structure EmailHeader where
  name : Text
  raw : Text
  value : Text
deriving DecidableEq

/-- mirrors mime.ts:54-58 -/
def splitHeaders (lines : List Text) : List Text × List Text :=
  match lines.findIdx? fun line => line = [] ∨ line = [cr] with
  | none => (lines, [])
  | some at_ => (lines.take at_, lines.drop (at_ + 1))

/-- A space or a tab at the front. -/
def folded (line : Text) : Bool := line.head? = some (chr ' ') || line.head? = some (chr '\t')

/-- mirrors mime.ts:61-69, with the last line so far in hand -/
def unfoldFrom (last : Text) : List Text → List Text
  | [] => [last]
  | line :: lines =>
    let text := stripCr line
    if folded text then unfoldFrom (last ++ chr ' ' :: trim text) lines
    else last :: unfoldFrom text lines

def unfold : List Text → List Text
  | [] => []
  | line :: lines => unfoldFrom (stripCr line) lines

/-! ## Encoded words, mime.ts:103-123, and transfer encodings, mime.ts:127-168 -/

/-- `Buffer.from(unit, 'utf8')` of one code unit. -/
def unitBytes (u : UInt16) : List Nat := Utf8.encodeChar (lone u)

/-- `Buffer.from(text, 'utf8')` -/
def utf8Bytes (t : Text) : List Nat := Utf8.encode (chars t)

/-- The value of a hexadecimal digit. -/
def hexDigit (u : UInt16) : Option Nat :=
  if 0x30 ≤ u ∧ u ≤ 0x39 then some (u.toNat - 0x30)
  else if 0x41 ≤ u ∧ u ≤ 0x46 then some (u.toNat - 0x41 + 10)
  else if 0x61 ≤ u ∧ u ≤ 0x66 then some (u.toNat - 0x61 + 10)
  else none

/-- `=` and two hexadecimal digits are a byte. -/
def quotedByte : Text → Option Nat
  | e :: h :: l :: _ => do
    guard (e = chr '=')
    return (← hexDigit h) * 16 + (← hexDigit l)
  | _ => none

/-- mirrors mime.ts:128-137, with so many units of the last byte still to pass over -/
def quotedBytes : Nat → Text → List Nat
  | _, [] => []
  | skip + 1, _ :: t => quotedBytes skip t
  | 0, u :: t =>
    match quotedByte (u :: t) with
    | some byte => byte :: quotedBytes 2 t
    | none => unitBytes u ++ quotedBytes 0 t

/-- `/=\r?\n/` -/
def softBreak : Matcher UInt16
  | e :: u :: t =>
    if e = chr '=' ∧ u = lf then some t
    else if e = chr '=' ∧ u = cr ∧ t.head? = some lf then some t.tail
    else none
  | _ => none

/-- mirrors mime.ts:125-138 -/
def decodeQuotedPrintable (text : Text) (single : Bool) : List Nat :=
  quotedBytes 0 (if single then text else replaceAll softBreak [] text)

/-- A quote at the front and one at the end are dropped. -/
def unquoted (t : Text) : Text :=
  let front := if t.head? = some (chr '"') then t.tail else t
  if front.getLast? = some (chr '"') then front.dropLast else front

variable (P : Platform)

/-- mirrors mime.ts:140-147 -/
def decodeText (bytes : List Nat) (charset : Option Text) : Text :=
  let charset := charset.getD []
  let name := unquoted (P.toLowerCase (if charset = [] then ofString "utf-8" else charset))
  match P.textDecoder name with
  | some decode => decode bytes
  | none => ofChars (Utf8.decode bytes)

/-- `/(\?=)\s+(=\?)/` -/
def betweenWords : Matcher UInt16 := fun t => do
  let t ← t.dropPrefix? (ofString "?=")
  let rest := t.dropWhile isSpace
  guard (rest.length < t.length)
  let rest ← rest.dropPrefix? (ofString "=?")
  return rest

/-- The pieces of an encoded word, and what is behind it. -/
structure EncodedWord where
  charset : Text
  base64 : Bool
  text : Text
  rest : Text

/-- `/=\?([^?]+)\?([bBqQ])\?([^?]*)\?=/` -/
def encodedWord (t : Text) : Option EncodedWord := do
  let t ← t.dropPrefix? (ofString "=?")
  let charset := t.takeWhile (· ≠ chr '?')
  guard (charset ≠ [])
  match t.drop (charset.length + 1) with
  | encoding :: q :: t =>
    guard (encoding ∈ ofString "bBqQ" ∧ q = chr '?')
    let text := t.takeWhile (· ≠ chr '?')
    let rest ← (t.drop text.length).dropPrefix? (ofString "?=")
    return ⟨charset, encoding ∈ ofString "bB", text, rest⟩
  | _ => none

/-- What an encoded word says. -/
def EncodedWord.decoded (w : EncodedWord) : Text :=
  let bytes := if w.base64 then Base64.decode w.text
    else decodeQuotedPrintable (w.text.map fun u => if u = chr '_' then chr ' ' else u) true
  decodeText P bytes (some w.charset)

/-- mirrors mime.ts:111-122, with so many units of the last word still to pass over -/
def wordsFrom : Nat → Text → Text
  | _, [] => []
  | skip + 1, _ :: t => wordsFrom skip t
  | 0, u :: t =>
    match encodedWord (u :: t) with
    | some w => w.decoded P ++ wordsFrom (t.length - w.rest.length) t
    | none => u :: wordsFrom 0 t

def includes (t needle : Text) : Bool := t.tails.any needle.isPrefixOf

/-- mirrors mime.ts:107-123 -/
def decodeWords (value : Text) : Text :=
  if includes value (ofString "=?") then
    wordsFrom P 0 (replaceAll betweenWords (ofString "?==?") value)
  else value

/-- mirrors mime.ts:73-79, one line -/
def parseHeader (line : Text) : Option EmailHeader :=
  match indexOf (chr ':') line with
  | none => none
  | some 0 => none
  | some colon =>
    let raw := trim (line.drop (colon + 1))
    some ⟨P.toLowerCase (trim (line.take colon)), raw, decodeWords P raw⟩

/-- mirrors mime.ts:71-81 -/
def parseHeaders (headerLines : List Text) : List EmailHeader :=
  (unfold headerLines).filterMap (parseHeader P)

def header (headers : List EmailHeader) (name : String) : Option Text :=
  (headers.find? (·.name = ofString name)).map (·.value)

def headerRaw (headers : List EmailHeader) (name : String) : Option Text :=
  (headers.find? (·.name = ofString name)).map (·.raw)

def known : List Text := ["7bit", "8bit", "binary", "base64", "quoted-printable", ""].map ofString

/-- `lines.join('\n')` -/
def joinLines : List Text → Text
  | [] => []
  | [line] => line
  | line :: lines => line ++ lf :: joinLines lines

/-- mirrors mime.ts:164-170 -/
def toBytes (text : Text) : List Nat :=
  if text.any (0xff < ·) then utf8Bytes text else text.map (·.toNat)

/-- mirrors mime.ts:149-158 -/
def decodeBody (bodyLines : List Text) (encoding : Option Text) (name : Text) :
    Except Thrown (List Nat) :=
  let kind := trim (P.toLowerCase (encoding.getD []))
  if kind ∉ known then
    .error (.unreadable (ofString "the part " ++ name ++
      ofString " declares the content transfer encoding \"" ++ encoding.getD [] ++
      ofString "\", which this reader does not decode"))
  else
    let text := joinLines (bodyLines.map stripCr)
    if kind = ofString "base64" then .ok (Base64.decode (text.filter fun u => !isSpace u))
    else if kind = ofString "quoted-printable" then .ok (decodeQuotedPrintable text false)
    else .ok (toBytes text)

/-! ## Parameters, mime.ts:172-206 -/

structure ParsedParameters where
  value : Text
  /-- The last one of a name first. -/
  params : List (Text × Text)

def ParsedParameters.param (p : ParsedParameters) (name : String) : Option Text :=
  (p.params.find? (·.1 = ofString name)).map (·.2)

/-- mirrors mime.ts:195-206, with the piece so far in reverse -/
def splitOnSemicolons : Bool → Text → Text → List Text
  | _, current, [] => [current.reverse]
  | quoted, current, u :: t =>
    let quoted := if u = chr '"' then !quoted else quoted
    if u = chr ';' && !quoted then current.reverse :: splitOnSemicolons quoted [] t
    else splitOnSemicolons quoted (u :: current) t

/-- A value in quotes ends at the next quote. -/
def parameterText (text : Text) : Text :=
  if text.head? = some (chr '"') then text.tail.takeWhile (· ≠ chr '"') else text

/-- mirrors mime.ts:180-190, one part -/
def parameter (part : Text) : Option (Text × Text) :=
  (indexOf (chr '=') part).map fun equals =>
    let name := P.toLowerCase (trim (part.take equals))
    let name := if name.getLast? = some (chr '*') then name.dropLast else name
    (name, decodeWords P (parameterText (trim (part.drop (equals + 1)))))

/-- mirrors mime.ts:175-193 -/
def parseParameters (raw : Text) : ParsedParameters :=
  match splitOnSemicolons false [] raw with
  | [] => ⟨[], []⟩
  | value :: parts => ⟨P.toLowerCase (trim value), (parts.filterMap (parameter P)).reverse⟩

/-! ## HTML, mime.ts:210-248 -/

/-- An ASCII letter in lower case. -/
def lowerUnit (u : UInt16) : UInt16 := if 0x41 ≤ u ∧ u ≤ 0x5a then u + 0x20 else u

/-- The word, in any case, taken off the front. -/
def dropWord (word : String) (t : Text) : Option Text :=
  let word := ofString word
  if word.isPrefixOf (t.map lowerUnit) then some (t.drop word.length) else none

/-- What is behind the first match. -/
def after (m : Matcher UInt16) : Text → Option Text
  | [] => m []
  | u :: t => (m (u :: t)).or (after m t)

def isDigit (u : UInt16) : Bool := 0x30 ≤ u && u ≤ 0x39

/-- `/[a-z0-9]/i` -/
def isAlphanumeric (u : UInt16) : Bool := isDigit u || (0x61 ≤ lowerUnit u && lowerUnit u ≤ 0x7a)

/-- `/\w/` -/
def isWord (u : UInt16) : Bool := isAlphanumeric u || u = chr '_'

/-- An element with its content, `/<name\b[^>]*>[\s\S]*?<\/name>/`. -/
def element (name : String) : Matcher UInt16 := fun t => do
  let t ← dropWord ("<" ++ name) t
  guard (!t.head?.any isWord)
  let t ← after (·.dropPrefix? [chr '>']) t
  after (dropWord ("</" ++ name ++ ">")) t

/-- `/<(script|style)\b[^>]*>[\s\S]*?<\/\1>/` -/
def script : Matcher UInt16 := fun t => (element "script" t).or (element "style" t)

/-- `/<!--[\s\S]*?-->/` -/
def comment : Matcher UInt16 := fun t => do
  let t ← t.dropPrefix? (ofString "<!--")
  after (·.dropPrefix? (ofString "-->")) t

/-- `>` behind white space. -/
def closed (t : Text) : Option Text :=
  match t.dropWhile isSpace with
  | u :: rest => if u = chr '>' then some rest else none
  | [] => none

def blocks : List String := ["p", "div", "tr", "h1", "h2", "h3", "h4", "h5", "h6", "li"]

/-- `/<\/(p|div|tr|h[1-6]|li)\s*>/` -/
def blockEnd : Matcher UInt16 := fun t =>
  blocks.findSome? fun name => (dropWord ("</" ++ name) t).bind closed

/-- `/<br\s*\/?>/` -/
def lineBreak : Matcher UInt16 := fun t => do
  let t ← dropWord "<br" t
  match t.dropWhile isSpace with
  | u :: v :: rest =>
    if u = chr '>' then some (v :: rest)
    else if u = chr '/' ∧ v = chr '>' then some rest else none
  | [u] => if u = chr '>' then some [] else none
  | [] => none

/-- `/<[^>]+>/` -/
def tag : Matcher UInt16 := fun t => do
  let t ← t.dropPrefix? [chr '<']
  let name := t.takeWhile (· ≠ chr '>')
  guard (name ≠ [])
  let rest ← (t.drop name.length).dropPrefix? [chr '>']
  return rest

/-- The text without scripts, comments and tags, mime.ts:230-234. -/
def untagged (html : Text) : Text :=
  let text := untilStable script [] html
  let text := untilStable comment [] text
  let text := untilStable blockEnd [lf] text
  let text := untilStable lineBreak [lf] text
  untilStable tag [] text

/-! ### The removals end -/

variable {t rest : Text} {m : Matcher UInt16} {word : String}

theorem dropWord_length (h : dropWord word t = some rest) :
    t.length = (ofString word).length + rest.length := by
  obtain ⟨hp, hrest⟩ := Option.ite_none_right_eq_some.1 h
  obtain rfl := Option.some.inj hrest
  have := (List.isPrefixOf_iff_prefix.1 hp).length_le
  rw [List.length_map] at this
  rw [List.length_drop]
  omega

theorem dropPrefix_length {p : Text} (h : t.dropPrefix? p = some rest) :
    t.length = p.length + rest.length := by
  obtain ⟨p', rfl, hp⟩ := List.dropPrefix?_eq_some_iff.1 h
  rw [List.length_append, eq_of_beq hp]

theorem after_length (hm : ∀ t rest, m t = some rest → rest.length ≤ t.length)
    (h : after m t = some rest) : rest.length ≤ t.length := by
  induction t with
  | nil => exact hm _ _ h
  | cons u t ih =>
    rw [after, Option.or_eq_some_iff] at h
    rcases h with h | ⟨-, h⟩
    · exact hm _ _ h
    · exact Nat.le_succ_of_le (ih h)

theorem element_length {name : String} (h : element name t = some rest) :
    rest.length < t.length := by
  simp only [element, bind, Option.bind_eq_some_iff] at h
  obtain ⟨t₁, h₁, -, -, t₂, h₂, h₃⟩ := h
  have hword : 0 < (ofString ("<" ++ name)).length := by
    simp [ofString, ofChars, unitsOf]
  have := dropWord_length h₁
  have := after_length (fun t rest h => by have := dropPrefix_length h; omega) h₂
  have := after_length (fun t rest h => by have := dropWord_length h; omega) h₃
  omega

theorem script_shortens : Shortens script [] := by
  intro t rest h
  rw [List.length_nil, Nat.zero_add]
  rcases Option.or_eq_some_iff.1 h with h | ⟨-, h⟩
  · exact element_length h
  · exact element_length h

theorem comment_shortens : Shortens comment [] := by
  intro t rest h
  simp only [comment, bind, Option.bind_eq_some_iff] at h
  obtain ⟨t₁, h₁, h₂⟩ := h
  have := dropPrefix_length h₁
  have hlen : (ofString "<!--").length = 4 := by decide
  have := after_length (fun t rest h => by have := dropPrefix_length h; omega) h₂
  rw [List.length_nil]
  omega

theorem closed_length (h : closed t = some rest) : rest.length < t.length := by
  unfold closed at h
  have hle := (List.dropWhile_suffix (l := t) isSpace).length_le
  split at h
  · rename_i u rest' hd
    obtain ⟨-, hrest⟩ := Option.ite_none_right_eq_some.1 h
    obtain rfl := Option.some.inj hrest
    rw [hd, List.length_cons] at hle
    exact hle
  · cases h

theorem blockEnd_shortens : Shortens blockEnd [lf] := by
  intro t rest h
  obtain ⟨name, hname, h⟩ := List.exists_of_findSome?_eq_some h
  obtain ⟨t₁, h₁, h₂⟩ := Option.bind_eq_some_iff.1 h
  have hlen : ∀ name ∈ blocks, 2 ≤ (ofString ("</" ++ name)).length := by decide
  have := hlen name hname
  have := dropWord_length h₁
  have := closed_length h₂
  rw [List.length_singleton]
  omega

theorem lineBreak_shortens : Shortens lineBreak [lf] := by
  intro t rest h
  simp only [lineBreak, bind, Option.bind_eq_some_iff] at h
  obtain ⟨t₁, h₁, h₂⟩ := h
  have hlen : (ofString "<br").length = 3 := by decide
  have := dropWord_length h₁
  have hle := (List.dropWhile_suffix (l := t₁) isSpace).length_le
  rw [List.length_singleton]
  split at h₂
  · rename_i hd
    rw [hd] at hle
    simp only [List.length_cons] at hle
    split at h₂
    · obtain rfl := Option.some.inj h₂
      simp only [List.length_cons]
      omega
    · obtain ⟨-, hrest⟩ := Option.ite_none_right_eq_some.1 h₂
      obtain rfl := Option.some.inj hrest
      omega
  · obtain ⟨-, hrest⟩ := Option.ite_none_right_eq_some.1 h₂
    obtain rfl := Option.some.inj hrest
    rw [List.length_nil]
    omega
  · cases h₂

theorem tag_shortens : Shortens tag [] := by
  intro t rest h
  simp only [tag, bind, Option.bind_eq_some_iff] at h
  obtain ⟨t₁, h₁, -, -, h₂⟩ := h
  have := dropPrefix_length h₁
  have := dropPrefix_length h₂
  rw [List.length_drop] at this
  rw [List.length_nil]
  simp only [List.length_singleton] at *
  omega

/-- Each removal of `stripHtml` ends, where it finds nothing more. -/
theorem removals_end (t : Text) :
    replaceAll script [] (untilStable script [] t) = untilStable script [] t ∧
    replaceAll comment [] (untilStable comment [] t) = untilStable comment [] t ∧
    replaceAll blockEnd [lf] (untilStable blockEnd [lf] t) = untilStable blockEnd [lf] t ∧
    replaceAll lineBreak [lf] (untilStable lineBreak [lf] t) = untilStable lineBreak [lf] t ∧
    replaceAll tag [] (untilStable tag [] t) = untilStable tag [] t :=
  ⟨untilStable_stable script_shortens t, untilStable_stable comment_shortens t,
    untilStable_stable blockEnd_shortens t, untilStable_stable lineBreak_shortens t,
    untilStable_stable tag_shortens t⟩

/-- The name of an entity at the front, between `&` and `;`, `/&(#?[a-z0-9]+);/`. -/
def entityName : Text → Option Text
  | [] => none
  | u :: t =>
    let hash := if t.head? = some (chr '#') then [chr '#'] else []
    let name := (t.drop hash.length).takeWhile isAlphanumeric
    let rest := (t.drop hash.length).dropWhile isAlphanumeric
    if u = chr '&' ∧ name ≠ [] ∧ rest.head? = some (chr ';') then some (hash ++ name) else none

/-- mirrors mime.ts:212, with the one property of a plain object that an entity can name -/
def entities : List (Text × Text) :=
  [("amp", "&"), ("lt", "<"), ("gt", ">"), ("quot", "\""), ("apos", "'"), ("nbsp", " "),
    ("#39", "'"), ("#160", " "), ("constructor", "function Object() \x7b [native code] \x7d")].map
    fun e => (ofString e.1, ofString e.2)

/-- `Number(digits)` -/
def number (digits : Text) : Nat := digits.foldl (fun n u => n * 10 + (u.toNat - 0x30)) 0

/-- The last code point. -/
def maxPoint : Nat := 0x10ffff

/-- `String.fromCodePoint`, halves of pairs included. -/
def fromCodePoint (n : Nat) : Except Thrown Text :=
  if maxPoint < n then .error .rangeError
  else if n < 0x10000 then .ok [.ofNat n]
  else .ok [.ofNat (0xd800 + (n - 0x10000) / 0x400), .ofNat (0xdc00 + (n - 0x10000) % 0x400)]

/-- The digits of a numeric entity's name, `/^#\d+$/`. -/
def numeric (name : Text) : Option Text :=
  match name with
  | u :: digits => if u = chr '#' ∧ digits ≠ [] ∧ digits.all isDigit then some digits else none
  | [] => none

/-- mirrors mime.ts:235-240 -/
def entityText (name : Text) : Except Thrown Text :=
  let key := name.map lowerUnit
  match entities.find? (·.1 = key) with
  | some entity => .ok entity.2
  | none =>
    match numeric key with
    | some digits => fromCodePoint (number digits)
    | none => .ok (chr '&' :: name ++ [chr ';'])

/-- The entities read, with so many units of the last one still to pass over. -/
def entitiesFrom : Nat → Text → Except Thrown Text
  | _, [] => .ok []
  | skip + 1, _ :: t => entitiesFrom skip t
  | 0, u :: t =>
    match entityName (u :: t) with
    | some name => do
      let text ← entityText name
      return text ++ (← entitiesFrom (name.length + 1) t)
    | none => return u :: (← entitiesFrom 0 t)

/-- `/[ \t]+\n/` -/
def lineEndSpace : Matcher UInt16 := fun t =>
  let rest := t.dropWhile fun u => u = chr ' ' ∨ u = chr '\t'
  if rest.length < t.length then rest.dropPrefix? [lf] else none

/-- `/\n{3,}/` -/
def emptyLines : Matcher UInt16 := fun t =>
  let rest := t.dropWhile (· = lf)
  if rest.length + 3 ≤ t.length then some rest else none

/-- mirrors mime.ts:229-245 -/
def stripHtml (html : Text) : Except Thrown Text := do
  let text ← entitiesFrom 0 (untagged html)
  return trim (replaceAll emptyLines [lf, lf] (replaceAll lineEndSpace [lf] text))

/-! ## The walk, mime.ts:252-320 -/

/-- mirrors mime.ts:254-264, with the part that is being read, if one is -/
def partsFrom (boundary : Text) : Option (List Text) → List Text → List (List Text)
  | current, [] => current.toList
  | current, line :: lines =>
    let text := stripCr line
    if text = ofString "--" ++ boundary then current.toList ++ partsFrom boundary (some []) lines
    else if text = ofString "--" ++ boundary ++ ofString "--" then
      current.toList ++ partsFrom boundary none lines
    else partsFrom boundary (current.map (· ++ [line])) lines

def splitMultipart (bodyLines : List Text) (boundary : Text) : List (List Text) :=
  partsFrom boundary none bodyLines

def startsWith (t : Text) (start : String) : Bool := (ofString start).isPrefixOf t

/-- mirrors mime.ts:266-270 -/
def isAttachment (disposition contentType : ParsedParameters) : Bool :=
  disposition.value = ofString "attachment" ||
    ((disposition.param "filename").isSome || (contentType.param "name").isSome) ||
    (!startsWith contentType.value "text/" && !startsWith contentType.value "multipart/")

/-- An attachment; above the cap it is recorded without its bytes, by their number and digest. -/
structure MimeAttachment where
  bytes : List Nat
  mime : Text
  filename : Option Text
  downloadFailed : Bool
deriving DecidableEq

structure CollectedParts where
  text : List Text := []
  html : List Text := []
  attachments : List MimeAttachment := []
deriving DecidableEq

def octetStream : Text := ofString "application/octet-stream"

/-- mirrors mime.ts:285-311: a part that is no multipart -/
def collect (maxAttachmentBytes : Nat) (headers : List EmailHeader) (contentType : ParsedParameters)
    (bodyLines : List Text) (collected : CollectedParts) : Except Thrown CollectedParts := do
  let disposition := parseParameters P ((headerRaw headers "content-disposition").getD [])
  let encoding := headerRaw headers "content-transfer-encoding"
  if isAttachment disposition contentType then
    let filename := (disposition.param "filename").or (contentType.param "name")
    let bytes ← decodeBody P bodyLines encoding (filename.getD contentType.value)
    let mime := if contentType.value = [] then octetStream else contentType.value
    return { collected with
      attachments := collected.attachments ++
        [⟨bytes, mime, filename, decide (maxAttachmentBytes < bytes.length)⟩] }
  else
    let bytes ← decodeBody P bodyLines encoding contentType.value
    let text := decodeText P bytes (contentType.param "charset")
    if contentType.value = ofString "text/html" then
      return { collected with html := collected.html ++ [text] }
    else return { collected with text := collected.text ++ [text] }

/-- How deep parts may be nested, the message itself included. -/
def maxDepth : Nat := 13

/-- mirrors mime.ts:274-311, for so many levels more -/
def walk (maxAttachmentBytes : Nat) :
    Nat → List Text → CollectedParts → Except Thrown CollectedParts
  | 0, _, _ => .error (.unreadable (ofString
      "the message nests parts deeper than this reader walks"))
  | levels + 1, lines, collected =>
    let (headerLines, bodyLines) := splitHeaders lines
    let headers := parseHeaders P headerLines
    let contentType := parseParameters P
      ((headerRaw headers "content-type").getD (ofString "text/plain"))
    if startsWith contentType.value "multipart/" then
      match contentType.param "boundary" with
      | none => .error (.unreadable (ofString "a multipart part names no boundary"))
      | some boundary => (splitMultipart bodyLines boundary).foldlM
          (fun collected part => walk maxAttachmentBytes levels part collected) collected
    else collect P maxAttachmentBytes headers contentType bodyLines collected

inductive BodyKind
  | none | textPlain | textHtml
deriving DecidableEq

structure MimeMessage where
  headers : List EmailHeader
  body : Text
  bodyKind : BodyKind
  attachments : List MimeAttachment
deriving DecidableEq

/-- mirrors mime.ts:327-332 -/
def bodyRead (collected : CollectedParts) : Except Thrown (Text × BodyKind) :=
  match collected.text, collected.html with
  | text :: _, _ => .ok (trim text, .textPlain)
  | [], html :: _ => return (← stripHtml html, .textHtml)
  | [], [] => .ok ([], .none)

/-- mirrors mime.ts:318-335 -/
def readMessage (lines : List Text) (maxAttachmentBytes : Option Nat) :
    Except Thrown MimeMessage := do
  match maxAttachmentBytes with
  | none => .error (.unreadable (ofString
      "readMessage needs maxAttachmentBytes; the reader guesses no cap"))
  | some cap =>
    let headers := parseHeaders P (splitHeaders lines).1
    let collected ← walk P cap maxDepth lines {}
    let (body, bodyKind) ← bodyRead collected
    return ⟨headers, body, bodyKind, collected.attachments⟩

/-! ## The item, adapters/email/index.ts:331-393 -/

/-- A text as the adapter keeps it. -/
def text (t : Text) : String := String.ofList (chars t)

/-- A message as the adapter reads it on; `held` are the attachments in the store. -/
def MimeMessage.read (held : MimeAttachment → Attachment) (m : MimeMessage) : Message where
  headers := m.headers.map fun h => ⟨text h.name, text h.value, text h.raw⟩
  body := text m.body
  attachments := m.attachments.map held

/-- mirrors index.ts:347-393: what the reader says it cannot read is parked -/
def readItem (held : MimeAttachment → Attachment) (M : Mail) (J : Js) (d : Disk)
    (x : Item) (rfc822 : List Text) (maxAttachmentBytes : Option Nat) :
    Except Thrown ReadResult :=
  match readMessage P rfc822 maxAttachmentBytes with
  | .ok message => .ok (Email.readItem M J d { x with message := .ok (message.read held) })
  | .error (.unreadable reason) =>
    .ok (Email.readItem M J d { x with message := .error (text reason) })
  | .error .rangeError => .error .rangeError

end CarbonRuntime.Adapters.Email.Mime
