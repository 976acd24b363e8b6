import CarbonRuntime.Adapters.Chunks
import CarbonRuntime.Core.Paths
import CarbonRuntime.Core.Utf8
import CarbonRuntime.Stream.Record

/-!
# Identifiers as names of files

An identifier of a remote sender is refused (`componentFaults`) or spelled byte by byte (`encodeComponent`,
stream/encode.ts:44-117). Its bytes are those of its code points, and a half of a pair without the other is
no code point: it is encoded as the replacement character.

**Results.** A spelled identifier has neither a dot nor a slash and is no hash (`spell_plain`,
`spell_not_hashed`), and reads back as the identifier with such halves replaced (`decodeComponent_spell`).
Two identifiers have one name exactly where they agree up to that (`encodeComponent_inj`), the hash being free
of collisions.
-/

open CarbonRuntime.Core Utf16 Paths

namespace CarbonRuntime.Stream.Encode

/-- What the language makes of texts: a text in quotes, and the hexadecimal digest of bytes. -/
structure Crypto where
  stringify : Text → String
  sha256 : List Nat → Text
  sha256_hex : ∀ bytes, ∀ u ∈ sha256 bytes, (0x30 ≤ u ∧ u ≤ 0x39) ∨ (0x61 ≤ u ∧ u ≤ 0x66)

/-- For identifiers that are not hashed: a digit for each byte stands for the digest. -/
def digits : Crypto where
  stringify _ := ""
  sha256 bytes := bytes.map fun b => .ofNat (0x30 + b % 10)
  sha256_hex bytes u hu := by
    obtain ⟨b, -, rfl⟩ := List.mem_map.1 hu
    refine .inl ⟨?_, ?_⟩ <;> rw [UInt16.le_iff_toNat_le, UInt16.toNat_ofNat_of_lt' (by show _ < 65536; omega)]
    · show 48 ≤ 0x30 + b % 10
      omega
    · show 0x30 + b % 10 ≤ 57
      omega

variable (K : Crypto)

/-- `Buffer.from(raw, 'utf8')` -/
def bytesOf (raw : Text) : List Nat := Utf8.encode (chars raw)

def isSafeByte (byte : Nat) : Bool :=
  0x41 ≤ byte && byte ≤ 0x5a || 0x61 ≤ byte && byte ≤ 0x7a || 0x30 ≤ byte && byte ≤ 0x39 ||
    byte = 0x5f || byte = 0x2d

/-- The part occurs in the text. -/
def includes (raw part : Text) : Bool := raw.tails.any part.isPrefixOf

/-- Every reason an identifier may not become a path component. -/
def componentFaults (subject : String) (raw : Text) : List Fault :=
  if raw = [] then
    [⟨"IDENTIFIER_EMPTY", subject,
      "an identifier used as a path component must be a non-empty string",
      "give " ++ subject ++ " a value"⟩]
  else
    (if slash ∈ raw ∨ 0x5c ∈ raw then
      [⟨"IDENTIFIER_HAS_SEPARATOR", subject, K.stringify raw ++ " carries a path separator",
        "strip the separator at the adapter, or key the record on an identifier that has none"⟩]
    else []) ++
    (if raw = [dot] ∨ includes raw [dot, dot] then
      [⟨"IDENTIFIER_HAS_DOT_SEGMENT", subject, K.stringify raw ++ " carries a dot segment",
        "key the record on an identifier that names something; a dot segment is shaped like an " ++
        "escape, so it is reported rather than quietly encoded"⟩]
    else []) ++
    (match (bytesOf raw).find? fun byte => byte < 0x20 ∨ byte = 0x7f with
    | some byte =>
      [⟨"IDENTIFIER_HAS_CONTROL_BYTE", subject,
        K.stringify raw ++ " carries the control byte 0x" ++
          (if byte < 16 then "0" else "") ++ String.ofList (Nat.toDigits 16 byte),
        "strip control bytes at the adapter before the record is built"⟩]
    | none => []) ++
    (if raw.length > 1024 then
      [⟨"IDENTIFIER_TOO_LONG", subject,
        toString raw.length ++ " characters is beyond the 1024 an identifier may have",
        "key the record on the channel identifier, not on its content"⟩]
    else [])

/-! ## The encoding -/

def tilde : UInt16 := 0x7e

/-- `n.toString(16).toUpperCase()` of one digit -/
def hexDigit (n : Nat) : UInt16 := .ofNat (if n < 10 then 0x30 + n else 0x37 + n)

def encodeByte (byte : Nat) : Text :=
  if isSafeByte byte then [.ofNat byte] else [tilde, hexDigit (byte / 16), hexDigit (byte % 16)]

/-- The identifier byte by byte. -/
def spell (raw : Text) : Text := (bytesOf raw).flatMap encodeByte

/-- `'~h'`, which begins a hash. -/
def hashMark : Text := [tilde, 0x68]

def encodeComponent (raw : Text) : Text :=
  if (spell raw).length > 200 then hashMark ++ K.sha256 (bytesOf raw) else spell raw

/-! ## The inverse -/

/-- The value of a hexadecimal digit. -/
def hexValue (u : UInt16) : Option Nat :=
  if 0x30 ≤ u ∧ u ≤ 0x39 then some (u.toNat - 0x30)
  else if 0x41 ≤ u ∧ u ≤ 0x46 then some (u.toNat - 0x37)
  else if 0x61 ≤ u ∧ u ≤ 0x66 then some (u.toNat - 0x57)
  else none

/-- The digits up to the first unit that is none. -/
def readHex : Nat → Text → Nat
  | n, [] => n
  | n, u :: t => match hexValue u with
    | some d => readHex (n * 16 + d) t
    | none => n

/-- The byte that `Buffer.from` makes of `parseInt(t, 16)`; no number is 0. -/
def parseHex (t : Text) : Nat :=
  let t := t.dropWhile Adapters.Chunks.isSpace
  let negative := t.head? = some 0x2d
  let t := if t.head? = some 0x2d ∨ t.head? = some 0x2b then t.tail else t
  let t := if t.take 2 = [0x30, 0x78] ∨ t.take 2 = [0x30, 0x58] then t.drop 2 else t
  let n := readHex 0 t % 256
  if negative then (256 - n) % 256 else n

def readBytes : Text → List Nat
  | [] => []
  | u :: t =>
    if u = tilde then parseHex (t.take 2) :: readBytes (t.drop 2) else u.toNat % 256 :: readBytes t
termination_by t => t.length
decreasing_by all_goals simp only [List.length_cons, List.length_drop]; omega

/-- `none` where it throws. -/
def decodeComponent (encoded : Text) : Option Text :=
  if hashMark <+: encoded then none else some (ofChars (Utf8.decode (readBytes encoded)))

/-! ## What a spelled identifier is made of -/

variable {K} {raw s t : Text}

theorem bytesOf_lt : ∀ b ∈ bytesOf raw, b < 256 := Utf8.encode_lt _

theorem bytesOf_inj : bytesOf s = bytesOf t ↔ chars s = chars t := by
  refine ⟨fun h => ?_, fun h => by rw [bytesOf, h, bytesOf]⟩
  rw [← Utf8.decode_encode (chars s), ← Utf8.decode_encode (chars t)]
  exact congrArg Utf8.decode h

/-- A byte is written in safe units, begins no hash and reads back. -/
def writesByte (b : Nat) : Bool :=
  ((encodeByte b).all fun u => u == tilde || isSafeByte u.toNat) &&
    (if isSafeByte b then UInt16.ofNat b != tilde else hexDigit (b / 16) != 0x68) &&
    parseHex [hexDigit (b / 16), hexDigit (b % 16)] == b

theorem bytes_written : (List.range 256).all writesByte = true := by decide +kernel

theorem byte_written (b : Fin 256) : writesByte b = true :=
  List.all_eq_true.1 bytes_written b (List.mem_range.2 b.isLt)

theorem encodeByte_plain (b : Fin 256) : ∀ u ∈ encodeByte b, u = tilde ∨ isSafeByte u.toNat = true := by
  have h := byte_written b
  simp only [writesByte, Bool.and_eq_true] at h
  intro u hu
  simpa using List.all_eq_true.1 h.1.1 u hu

theorem safe_ne_tilde (b : Fin 256) (h : isSafeByte b = true) : UInt16.ofNat b ≠ tilde := by
  have hb := byte_written b
  simp only [writesByte, h, Bool.and_eq_true] at hb
  simpa using hb.1.2

theorem spell_plain {u : UInt16} (h : u ∈ spell raw) : u = tilde ∨ isSafeByte u.toNat = true := by
  obtain ⟨b, hb, hu⟩ := List.mem_flatMap.1 h
  exact encodeByte_plain ⟨b, bytesOf_lt b hb⟩ u hu

theorem encodeByte_not_hashed : ∀ b : Fin 256, ∃ u l, encodeByte b = u :: l ∧
    (u ≠ tilde ∨ ∃ v m, l = v :: m ∧ v ≠ 0x68) := by
  intro b
  by_cases h : isSafeByte b = true
  · exact ⟨_, [], by rw [encodeByte, if_pos h], .inl (safe_ne_tilde b h)⟩
  · have hb := byte_written b
    simp only [writesByte, h, Bool.and_eq_true] at hb
    exact ⟨_, _, by rw [encodeByte, if_neg h], .inr ⟨_, _, rfl, by simpa using hb.1.2⟩⟩

theorem spell_not_hashed : ¬ hashMark <+: spell raw := by
  rintro ⟨rest, h⟩
  rw [spell] at h
  cases hbytes : bytesOf raw with
  | nil => simp [hbytes, hashMark] at h
  | cons b bytes =>
    obtain ⟨u, l, hu, hne⟩ := encodeByte_not_hashed ⟨b, bytesOf_lt b (by rw [hbytes]; exact List.mem_cons_self)⟩
    simp only at hu
    rw [hbytes, List.flatMap_cons, hu] at h
    obtain ⟨hfirst, hrest⟩ := List.cons.inj h
    rcases hne with hne | ⟨v, m, rfl, hne⟩
    · exact hne hfirst.symm
    · exact hne (List.cons.inj hrest).1.symm

/-! ## The round trip -/

theorem parseHex_digits (b : Fin 256) : parseHex [hexDigit (b / 16), hexDigit (b % 16)] = b := by
  have h := byte_written b
  simp only [writesByte, Bool.and_eq_true] at h
  exact eq_of_beq h.2

theorem readBytes_encodeByte {b : Nat} (hb : b < 256) (t : Text) :
    readBytes (encodeByte b ++ t) = b :: readBytes t := by
  unfold encodeByte
  split
  · rename_i h
    have hu : (UInt16.ofNat b).toNat = b := UInt16.toNat_ofNat_of_lt' (by show b < 65536; omega)
    rw [List.singleton_append, readBytes, if_neg (safe_ne_tilde ⟨b, hb⟩ h), hu, Nat.mod_eq_of_lt hb]
  · rw [List.cons_append, readBytes, if_pos rfl]
    exact congrArg (· :: readBytes t) (parseHex_digits ⟨b, hb⟩)

theorem readBytes_flatMap {bytes : List Nat} (h : ∀ b ∈ bytes, b < 256) :
    readBytes (bytes.flatMap encodeByte) = bytes := by
  induction bytes with
  | nil => rw [List.flatMap_nil, readBytes]
  | cons b bytes ih =>
    rw [List.flatMap_cons, readBytes_encodeByte (h b List.mem_cons_self),
      ih fun c hc => h c (List.mem_cons_of_mem _ hc)]

theorem decodeComponent_spell (raw : Text) : decodeComponent (spell raw) = some (replaced raw) := by
  rw [decodeComponent, if_neg spell_not_hashed, spell, readBytes_flatMap bytesOf_lt, bytesOf,
    Utf8.decode_encode, replaced]

theorem spell_inj : spell s = spell t ↔ chars s = chars t := by
  refine ⟨fun h => ?_, fun h => by rw [spell, bytesOf, h, spell, bytesOf]⟩
  rw [← bytesOf_inj, ← readBytes_flatMap (@bytesOf_lt s),
    ← readBytes_flatMap (@bytesOf_lt t)]
  exact congrArg readBytes h

/-! ## Names -/

/-- No collision between the two. -/
def Free (K : Crypto) (s t : Text) : Prop :=
  K.sha256 (bytesOf s) = K.sha256 (bytesOf t) → bytesOf s = bytesOf t

theorem encodeComponent_inj (hfree : Free K s t) :
    encodeComponent K s = encodeComponent K t ↔ chars s = chars t := by
  have hmark : ∀ a b : Text, hashMark ++ K.sha256 (bytesOf a) ≠ spell b := fun a b h =>
    spell_not_hashed ⟨_, h⟩
  constructor
  · intro h
    unfold encodeComponent at h
    split at h <;> split at h
    · exact bytesOf_inj.1 (hfree (List.append_cancel_left h))
    · exact absurd h (hmark s t)
    · exact absurd h.symm (hmark t s)
    · exact spell_inj.1 h
  · intro h
    rw [encodeComponent, encodeComponent, spell_inj.2 h, bytesOf_inj.2 h]

/-- Identifiers of whole code points have names of their own. -/
theorem encodeComponent_ofString {a b : String} (hfree : Free K (ofString a) (ofString b)) :
    encodeComponent K (ofString a) = encodeComponent K (ofString b) ↔ a = b := by
  rw [encodeComponent_inj hfree, ofString, ofString, chars_ofChars, chars_ofChars, String.toList_inj]

theorem encodeComponent_plain {u : UInt16} (h : u ∈ encodeComponent K raw) : u ≠ dot ∧ u ≠ slash := by
  have hspell : ∀ {v : UInt16}, v = tilde ∨ isSafeByte v.toNat = true → v ≠ dot ∧ v ≠ slash := by
    rintro v hv
    constructor <;> rintro rfl <;> revert hv <;> decide
  unfold encodeComponent at h
  split at h
  · rcases List.mem_append.1 h with h | h
    · rcases List.mem_cons.1 h with rfl | h
      · decide
      · rw [List.mem_singleton.1 h]
        decide
    · have := K.sha256_hex _ u h
      simp only [UInt16.le_iff_toNat_le] at this
      constructor <;> rintro rfl <;> revert this <;> decide
  · exact hspell (spell_plain h)

theorem encodeComponent_ne_nil (h : raw ≠ []) : encodeComponent K raw ≠ [] := by
  have hchars : chars raw ≠ [] := by
    intro hc
    cases raw with
    | nil => exact h rfl
    | cons u t =>
      cases t with
      | nil => simp [chars] at hc
      | cons v t =>
        rw [chars] at hc
        split at hc <;> cases hc
  have hspell : spell raw ≠ [] := fun hs => hchars (spell_inj.1 (hs.trans (show [] = spell [] from rfl)))
  unfold encodeComponent
  split
  · simp [hashMark]
  · exact hspell

/-- A name, with a suffix or without one. -/
theorem encodeComponent_name (h : raw ≠ []) : IsName (encodeComponent K raw) := by
  refine ⟨encodeComponent_ne_nil h, fun hm => (encodeComponent_plain hm).2 rfl, fun he => ?_, fun he => ?_⟩ <;>
    exact (@encodeComponent_plain K raw dot (by rw [he]; simp)).1 rfl

theorem ne_nil_of_accepted {subject : String} (h : componentFaults K subject raw = []) : raw ≠ [] := by
  rintro rfl
  cases h

end CarbonRuntime.Stream.Encode
