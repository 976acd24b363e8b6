import CarbonRuntime.Core.Utf16

/-!
# Base64

Three bytes are four digits, the last group padded. The decoder takes both alphabets, stops at the
first padding and passes over what is no digit.

**Results.** What is encoded is decoded to the bytes it was (`decode_encode`), and is made of digits
and padding (`mem_encode`). Decoding gives no more bytes than there are units (`length_decode_le`).
-/
namespace CarbonRuntime.Core.Base64

open Utf16

/-- The digit of six bits. -/
def digit (n : Nat) : UInt16 :=
  if n < 26 then .ofNat (0x41 + n)
  else if n < 52 then .ofNat (0x61 + (n - 26))
  else if n < 62 then .ofNat (0x30 + (n - 52))
  else if n = 62 then 0x2b else 0x2f

/-- The six bits of a digit of either alphabet. -/
def bits (u : UInt16) : Option Nat :=
  if 0x41 ≤ u ∧ u ≤ 0x5a then some (u.toNat - 0x41)
  else if 0x61 ≤ u ∧ u ≤ 0x7a then some (u.toNat - 0x61 + 26)
  else if 0x30 ≤ u ∧ u ≤ 0x39 then some (u.toNat - 0x30 + 52)
  else if u = 0x2b ∨ u = 0x2d then some 62
  else if u = 0x2f ∨ u = 0x5f then some 63
  else none

def padding : UInt16 := 0x3d

def encode : List Nat → Text
  | [] => []
  | [a] => [digit (a / 4), digit (a % 4 * 16), padding, padding]
  | [a, b] => [digit (a / 4), digit (a % 4 * 16 + b / 16), digit (b % 16 * 4), padding]
  | a :: b :: c :: rest =>
    digit (a / 4) :: digit (a % 4 * 16 + b / 16) :: digit (b % 16 * 4 + c / 64) ::
      digit (c % 64) :: encode rest

/-- The bytes of the digits, an incomplete byte dropped. -/
def bytesOf : List Nat → List Nat
  | a :: b :: c :: d :: rest =>
    (a * 4 + b / 16) :: (b % 16 * 16 + c / 4) :: (c % 4 * 64 + d) :: bytesOf rest
  | [a, b, c] => [a * 4 + b / 16, b % 16 * 16 + c / 4]
  | [a, b] => [a * 4 + b / 16]
  | _ => []

/-- `Buffer.from(text, 'base64')` -/
def decode (text : Text) : List Nat := bytesOf ((text.takeWhile (· ≠ padding)).filterMap bits)

/-- A digit, or padding. -/
def Unit (u : UInt16) : Prop := (bits u).isSome ∨ u = padding

variable {n : Nat} {bytes : List Nat} {text : Text}

theorem bits_digit (h : n < 64) : bits (digit n) = some n := by
  decide +revert

theorem digit_ne (h : n < 64) : digit n ≠ padding := by
  decide +revert

theorem unit_digit (h : n < 64) : Unit (digit n) := .inl (by rw [bits_digit h]; rfl)

theorem mem_encode (h : ∀ b ∈ bytes, b < 256) : ∀ u ∈ encode bytes, Unit u := by
  induction bytes using encode.induct with
  | case1 => simp [encode]
  | case2 a =>
    have ha := h a (by simp)
    simp only [encode, List.mem_cons, List.not_mem_nil, or_false]
    rintro u (rfl | rfl | rfl | rfl)
    · exact unit_digit (by omega)
    · exact unit_digit (by omega)
    · exact .inr rfl
    · exact .inr rfl
  | case3 a b =>
    have ha := h a (by simp)
    have hb := h b (by simp)
    simp only [encode, List.mem_cons, List.not_mem_nil, or_false]
    rintro u (rfl | rfl | rfl | rfl)
    · exact unit_digit (by omega)
    · exact unit_digit (by omega)
    · exact unit_digit (by omega)
    · exact .inr rfl
  | case4 a b c rest ih =>
    have ha := h a (by simp)
    have hb := h b (by simp)
    have hc := h c (by simp)
    simp only [encode, List.mem_cons]
    rintro u (rfl | rfl | rfl | rfl | hu)
    · exact unit_digit (by omega)
    · exact unit_digit (by omega)
    · exact unit_digit (by omega)
    · exact unit_digit (by omega)
    · exact ih (fun b hb => h b (by simp [hb])) u hu

/-- A digit is read and what follows it after. -/
theorem digits_cons (h : n < 64) (text : Text) :
    ((digit n :: text).takeWhile (· ≠ padding)).filterMap bits =
      n :: (text.takeWhile (· ≠ padding)).filterMap bits := by
  rw [List.takeWhile_cons_of_pos (by simpa using digit_ne h),
    List.filterMap_cons_some (bits_digit h)]

theorem digits_padding (text : Text) :
    ((padding :: text).takeWhile (· ≠ padding)).filterMap bits = [] := by
  rw [List.takeWhile_cons_of_neg (by simp)]
  rfl

theorem decode_encode (h : ∀ b ∈ bytes, b < 256) : decode (encode bytes) = bytes := by
  induction bytes using encode.induct with
  | case1 => rfl
  | case2 a =>
    have ha := h a (by simp)
    rw [decode, encode, digits_cons (by omega), digits_cons (by omega), digits_padding, bytesOf]
    refine congrArg (· :: []) ?_
    omega
  | case3 a b =>
    have ha := h a (by simp)
    have hb := h b (by simp)
    rw [decode, encode, digits_cons (by omega), digits_cons (by omega), digits_cons (by omega),
      digits_padding, bytesOf]
    have h1 : a / 4 * 4 + (a % 4 * 16 + b / 16) / 16 = a := by omega
    have h2 : (a % 4 * 16 + b / 16) % 16 * 16 + b % 16 * 4 / 4 = b := by omega
    rw [h1, h2]
  | case4 a b c rest ih =>
    have ha := h a (by simp)
    have hb := h b (by simp)
    have hc := h c (by simp)
    rw [decode, encode, digits_cons (by omega), digits_cons (by omega), digits_cons (by omega),
      digits_cons (by omega), bytesOf]
    have h1 : a / 4 * 4 + (a % 4 * 16 + b / 16) / 16 = a := by omega
    have h2 : (a % 4 * 16 + b / 16) % 16 * 16 + (b % 16 * 4 + c / 64) / 4 = b := by omega
    have h3 : (b % 16 * 4 + c / 64) % 4 * 64 + c % 64 = c := by omega
    rw [h1, h2, h3]
    exact congrArg (a :: b :: c :: ·) (ih fun b hb => h b (by simp [hb]))

theorem length_bytesOf_le (digits : List Nat) : (bytesOf digits).length ≤ digits.length := by
  induction digits using bytesOf.induct with
  | case1 a b c d rest ih =>
    simp only [bytesOf, List.length_cons]
    omega
  | case2 => simp [bytesOf]
  | case3 => simp [bytesOf]
  | case4 l h1 h2 h3 =>
    rw [bytesOf]
    · exact Nat.zero_le _
    · exact h1
    · exact h2
    · exact h3

theorem length_decode_le (text : Text) : (decode text).length ≤ text.length :=
  calc (decode text).length
    _ ≤ ((text.takeWhile (· ≠ padding)).filterMap bits).length := length_bytesOf_le _
    _ ≤ (text.takeWhile (· ≠ padding)).length := List.length_filterMap_le _ _
    _ ≤ text.length := (List.takeWhile_sublist _).length_le

end CarbonRuntime.Core.Base64
