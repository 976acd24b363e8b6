import CarbonRuntime.Core.Bytes
import CarbonRuntime.Core.Utf8
import CarbonRuntime.Stream.Record

/-!
# Reading an export

The zip reader (import/zip.ts): `entries` finds the end record from behind, follows it to the central
directory and reads as many headers as it counts; `readEntry` reads one entry's bytes, and `open` asks of
each name whether it may be there. A read outside the buffer throws a `RangeError`, and bytes that do not
inflate throw an error of `zlib`; neither is a `ZipFault`.
-/

open CarbonRuntime.Core CarbonRuntime.Stream

namespace CarbonRuntime.Import.Zip

open Core.Bytes

abbrev Buffer := List UInt8

/-- What the reader throws. -/
inductive Thrown
  | zip (faults : List Fault)
  | range
  | inflate
deriving DecidableEq

def EOCD : Nat := 0x06054b50
def EOCD64 : Nat := 0x06064b50
def EOCD64_LOCATOR : Nat := 0x07064b50
def CENTRAL : Nat := 0x02014b50
def LOCAL : Nat := 0x04034b50

structure ZipEntry where
  name : String
  method : Nat
  crc : Nat
  compressedSize : Nat
  size : Nat
  localOffset : Nat
deriving DecidableEq

/-! ## Names, zip.ts:49-61 -/

inductive EntryKind
  | messages | directory | media
deriving DecidableEq

def MESSAGES_ENTRY : List Char := "messages.json".toList
def MEDIA_PREFIX : List Char := "media/".toList

def isControl (c : Char) : Bool := c.toNat ≤ 0x1f || c.toNat = 0x7f

def hasDrive : List Char → Bool
  | c :: ':' :: _ => c.isAlpha
  | _ => false

def entryKind (name : String) : Option EntryKind :=
  let name := name.toList
  if name = [] then none
  else if name.contains '\\' then none
  else if name.head? = some '/' then none
  else if hasDrive name then none
  else if name.any isControl then none
  else if (name.splitOn '/').any fun part => part = ['.'] || part = ['.', '.'] then none
  else if name = MESSAGES_ENTRY then some .messages
  else if name = MEDIA_PREFIX then some .directory
  else if name.getLast? = some '/' then none
  else if MEDIA_PREFIX.isPrefixOf name ∧ MEDIA_PREFIX.length < name.length then some .media
  else none

/-! ## The checksum, zip.ts:63-81 -/

def crcBit (value : UInt32) : UInt32 :=
  if value &&& 1 = 1 then (value >>> 1) ^^^ 0xedb88320 else value >>> 1

/-- `CRC_TABLE[i]` -/
def crcTable (i : UInt32) : UInt32 := (List.range 8).foldl (fun value _ => crcBit value) i

def crc32 (buffer : Buffer) : Nat :=
  let crc := buffer.foldl (fun (crc : UInt32) byte => (crc >>> 8) ^^^ crcTable ((crc ^^^ byte.toUInt32) &&& 0xff))
    0xffffffff
  (crc ^^^ 0xffffffff).toNat

/-! ## The directory, zip.ts:83-149 -/

def readUInt (n : Nat) (buffer : Buffer) (pos : Nat) : Except Thrown Nat :=
  if pos + n ≤ buffer.length then .ok (number buffer pos n) else .error .range

def readUInt16LE : Buffer → Nat → Except Thrown Nat := readUInt 2
def readUInt32LE : Buffer → Nat → Except Thrown Nat := readUInt 4
def readBigUInt64LE : Buffer → Nat → Except Thrown Nat := readUInt 8

/-- The loop of `findEndOfCentralDirectory`, down to `earliest`. -/
def findFrom (buffer : Buffer) (earliest : Nat) : Nat → Except Thrown (Option Nat)
  | 0 =>
    if 0 < earliest then .ok none else do
      let signature ← readUInt32LE buffer 0
      if signature = EOCD then .ok (some 0) else .ok none
  | pos + 1 =>
    if pos + 1 < earliest then .ok none else do
      let signature ← readUInt32LE buffer (pos + 1)
      if signature = EOCD then .ok (some (pos + 1)) else findFrom buffer earliest pos

def findEndOfCentralDirectory (buffer : Buffer) : Except Thrown (Option Nat) :=
  if buffer.length < 22 then .ok none else findFrom buffer (buffer.length - 66000) (buffer.length - 22)

def unreadable (subject problem fix : String) : Thrown := .zip [⟨"ZIP_UNREADABLE", subject, problem, fix⟩]

/-- The 64-bit record that a locator before the end record leads to. -/
def directory64Of (buffer : Buffer) (eocd : Nat) : Except Thrown (Nat × Nat) :=
  let absent := unreadable "the export"
    "the archive claims more entries than its directory can name and carries no 64-bit directory"
    "produce the export again with a tool that writes a 64-bit central directory"
  if eocd < 20 then .error absent else do
    let locator := eocd - 20
    let signature ← readUInt32LE buffer locator
    if signature ≠ EOCD64_LOCATOR then .error absent else
    let pos ← readBigUInt64LE buffer (locator + 8)
    let signature ← readUInt32LE buffer pos
    if signature ≠ EOCD64 then
      .error (unreadable "the export" "the 64-bit directory the archive points at is not there"
        "produce the export again")
    else
      let count ← readBigUInt64LE buffer (pos + 32)
      let offset ← readBigUInt64LE buffer (pos + 48)
      .ok (count, offset)

def directoryOf (buffer : Buffer) : Except Thrown (Nat × Nat) := do
  match ← findEndOfCentralDirectory buffer with
  | none =>
    .error (unreadable "the export" "the file does not end with a zip central directory"
      "pass the zip the export tool produced, not an extracted directory or a part of one")
  | some eocd =>
    let count ← readUInt16LE buffer (eocd + 10)
    let offset ← readUInt32LE buffer (eocd + 16)
    if count = 0xffff ∨ offset = 0xffffffff then directory64Of buffer eocd else .ok (count, offset)

/-- `buffer.toString('utf8', ...)`, of what the buffer has of it. -/
def textOf (buffer : Buffer) (pos n : Nat) : String :=
  String.ofList (Utf8.decode ((slice buffer pos n).map (·.toNat)))

/-- The loop of `entries`: this many headers, from the `i`-th on. -/
def readHeaders (buffer : Buffer) : Nat → Nat → Nat → Except Thrown (List ZipEntry)
  | 0, _, _ => .ok []
  | n + 1, i, pos => do
    let signature ← readUInt32LE buffer pos
    if signature ≠ CENTRAL then
      .error (unreadable s!"entry {i + 1}" "the central directory ends before it names every entry it claims"
        "the export is truncated; produce it again")
    else
      let nameLength ← readUInt16LE buffer (pos + 28)
      let extraLength ← readUInt16LE buffer (pos + 30)
      let commentLength ← readUInt16LE buffer (pos + 32)
      let method ← readUInt16LE buffer (pos + 10)
      let crc ← readUInt32LE buffer (pos + 16)
      let compressedSize ← readUInt32LE buffer (pos + 20)
      let size ← readUInt32LE buffer (pos + 24)
      let localOffset ← readUInt32LE buffer (pos + 42)
      let found ← readHeaders buffer n (i + 1) (pos + (46 + nameLength + extraLength + commentLength))
      .ok ({ name := textOf buffer (pos + 46) nameLength, method, crc, compressedSize, size, localOffset } :: found)

def entries (buffer : Buffer) : Except Thrown (List ZipEntry) := do
  let (count, offset) ← directoryOf buffer
  readHeaders buffer count 0 offset

/-! ## One entry, zip.ts:151-177 -/

section
variable (inflateRawSync : Buffer → Option Buffer)

def dataOf (entry : ZipEntry) (raw : Buffer) : Except Thrown Buffer :=
  if entry.method = 0 then .ok raw
  else if entry.method = 8 then
    match inflateRawSync raw with
    | some data => .ok data
    | none => .error .inflate
  else
    .error (.zip [⟨"ZIP_METHOD_UNSUPPORTED", entry.name,
      s!"the entry is compressed with method {entry.method}, and this reader knows stored and deflated",
      "produce the export with the export tool, which writes both"⟩])

def readEntry (buffer : Buffer) (entry : ZipEntry) : Except Thrown Buffer := do
  let signature ← readUInt32LE buffer entry.localOffset
  if signature ≠ LOCAL then
    .error (unreadable entry.name "the entry does not begin where the directory says it does"
      "the export is damaged; produce it again")
  else
    let nameLength ← readUInt16LE buffer (entry.localOffset + 26)
    let extraLength ← readUInt16LE buffer (entry.localOffset + 28)
    let start := entry.localOffset + 30 + nameLength + extraLength
    let data ← dataOf inflateRawSync entry (slice buffer start entry.compressedSize)
    if entry.crc ≠ 0 ∧ crc32 data ≠ entry.crc then
      .error (.zip [⟨"ZIP_ENTRY_CORRUPT", entry.name,
        "the entry does not match the checksum the archive recorded for it",
        "the export is damaged in transit; copy it again"⟩])
    else .ok data

end

/-! ## The whole export, zip.ts:181-212 -/

structure Export where
  messages : ZipEntry
  media : List ZipEntry

/-- `media.set(entry.name, entry)` -/
def setMedia (entry : ZipEntry) (media : List ZipEntry) : List ZipEntry :=
  if media.any (·.name = entry.name) then media.map fun other => if other.name = entry.name then entry else other
  else media ++ [entry]

structure Sorted where
  refused : List Fault := []
  messages : Option ZipEntry := none
  media : List ZipEntry := []

def sortEntry (sorted : Sorted) (entry : ZipEntry) : Sorted :=
  match entryKind entry.name with
  | none => { sorted with refused := sorted.refused ++ [⟨"ZIP_ENTRY_OUTSIDE_MEDIA", entry.name,
      "the entry is neither the export's messages file nor a file under media/",
      "an export holds messages.json and media/; an entry naming anything else is not read"⟩] }
  | some .messages => { sorted with messages := some entry }
  | some .media => { sorted with media := setMedia entry sorted.media }
  | some .directory => sorted

def openExport (buffer : Buffer) : Except Thrown Export := do
  let all ← entries buffer
  let sorted := all.foldl sortEntry {}
  if sorted.refused ≠ [] then .error (.zip sorted.refused) else
  match sorted.messages with
  | none =>
    .error (.zip [⟨"ZIP_MESSAGES_MISSING", String.ofList MESSAGES_ENTRY, "the export carries no messages file",
      "export again with media included; an export without media is a plain JSON file and not a zip"⟩])
  | some messages => .ok ⟨messages, sorted.media⟩

end CarbonRuntime.Import.Zip
