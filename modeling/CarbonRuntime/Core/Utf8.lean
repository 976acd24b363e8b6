import Mathlib.Data.Char

/-!
# Texts in bytes

A text of code points is encoded in UTF-8 (`encode`). `decode` is the decoder that never fails: a
byte no sequence goes on with ends the sequence it stands in, and what was read of it, or a byte no
sequence starts with, comes out as one replacement character.

**Results.** Decoding an encoded text gives it back (`decode_encode_append`). A part of a code
point's bytes is one replacement character (`decode_take`).
-/
namespace CarbonRuntime.Core.Utf8

/-- The bytes of a code point. -/
def encodeChar (c : Char) : List Nat :=
  let v := c.toNat
  if v < 0x80 then [v]
  else if v < 0x800 then [0xc0 + v / 0x40, 0x80 + v % 0x40]
  else if v < 0x10000 then [0xe0 + v / 0x1000, 0x80 + v / 0x40 % 0x40, 0x80 + v % 0x40]
  else [0xf0 + v / 0x40000, 0x80 + v / 0x1000 % 0x40, 0x80 + v / 0x40 % 0x40, 0x80 + v % 0x40]

/-- The bytes of a text. -/
def encode (text : List Char) : List Nat := text.flatMap encodeChar

/-- `U+FFFD` -/
def replacement : Char := '\uFFFD'

/-- A sequence begun: the bytes it still needs, the code point so far, and where the next byte has
to lie. -/
structure Pending where
  needed : Nat
  point : Nat
  lower : Nat := 0x80
  upper : Nat := 0xbf
deriving DecidableEq

/-- The first byte of a sequence. -/
def first (b : Nat) : List Char × Option Pending :=
  if b < 0x80 then ([Char.ofNat b], none)
  else if 0xc2 ≤ b ∧ b ≤ 0xdf then ([], some { needed := 1, point := b - 0xc0 })
  else if b = 0xe0 then ([], some { needed := 2, point := 0, lower := 0xa0 })
  else if b = 0xed then ([], some { needed := 2, point := 0xd, upper := 0x9f })
  else if 0xe1 ≤ b ∧ b ≤ 0xef then ([], some { needed := 2, point := b - 0xe0 })
  else if b = 0xf0 then ([], some { needed := 3, point := 0, lower := 0x90 })
  else if b = 0xf4 then ([], some { needed := 3, point := 4, upper := 0x8f })
  else if 0xf1 ≤ b ∧ b ≤ 0xf3 then ([], some { needed := 3, point := b - 0xf0 })
  else ([replacement], none)

/-- One byte: what comes out, and the sequence that is open after it. -/
def step : Option Pending → Nat → List Char × Option Pending
  | none, b => first b
  | some p, b =>
    if p.lower ≤ b ∧ b ≤ p.upper then
      let point := p.point * 0x40 + (b - 0x80)
      if p.needed = 1 then ([Char.ofNat point], none)
      else ([], some { needed := p.needed - 1, point })
    else (replacement :: (first b).1, (first b).2)

/-- The bytes from an open sequence on. -/
def decodeFrom : Option Pending → List Nat → List Char
  | open?, [] => if open?.isSome then [replacement] else []
  | open?, b :: bytes => (step open? b).1 ++ decodeFrom (step open? b).2 bytes

/-- `bytes.toString('utf8')` -/
def decode (bytes : List Nat) : List Char := decodeFrom none bytes

@[simp] theorem encode_nil : encode [] = [] := rfl
@[simp] theorem encode_cons (c : Char) (t : List Char) : encode (c :: t) = encodeChar c ++ encode t :=
  rfl
@[simp] theorem encode_append (t u : List Char) : encode (t ++ u) = encode t ++ encode u :=
  List.flatMap_append

theorem encodeChar_length (c : Char) : 0 < (encodeChar c).length ∧ (encodeChar c).length ≤ 4 := by
  unfold encodeChar
  dsimp only
  split_ifs <;> simp

variable {c : Char} {t : List Char} {bytes : List Nat}

theorem decodeFrom_cons (p : Option Pending) (b : Nat) (bytes : List Nat) :
    decodeFrom p (b :: bytes) = (step p b).1 ++ decodeFrom (step p b).2 bytes := rfl

/-! ## The bytes of one code point -/

theorem encodeChar_lt (c : Char) : ∀ b ∈ encodeChar c, b < 256 := by
  have hv : c.toNat < 0xd800 ∨ 0xdfff < c.toNat ∧ c.toNat < 0x110000 := c.valid
  unfold encodeChar
  dsimp only
  split_ifs <;> simp only [List.mem_cons, List.not_mem_nil, or_false] <;> rintro b hb <;> omega

theorem encode_lt (t : List Char) : ∀ b ∈ encode t, b < 256 := by
  intro b hb
  obtain ⟨c, -, hc⟩ := List.mem_flatMap.1 hb
  exact encodeChar_lt c b hc

/-- A byte inside a code point. -/
def Tail (b : Nat) : Prop := 0x80 ≤ b ∧ b ≤ 0xbf

/-- The sequence needs so many more bytes, the next one may be `b`, and with those bytes it is the
code point `v`. -/
def Leads (p : Pending) (tail : List Nat) (v : Nat) : Prop :=
  p.needed = tail.length ∧ (∀ b ∈ tail.head?, p.lower ≤ b ∧ b ≤ p.upper) ∧ (∀ b ∈ tail, Tail b) ∧
    tail.foldl (fun point b => point * 0x40 + (b - 0x80)) p.point = v

theorem decodeFrom_leads {p : Pending} {tail : List Nat} {v : Nat} (hne : tail ≠ [])
    (h : Leads p tail v) (bytes : List Nat) :
    decodeFrom (some p) (tail ++ bytes) = Char.ofNat v :: decodeFrom none bytes := by
  induction tail generalizing p with
  | nil => exact absurd rfl hne
  | cons b tail ih =>
    obtain ⟨hn, hb, ht, hv⟩ := h
    rw [List.cons_append, decodeFrom_cons, step, if_pos (hb b rfl)]
    cases tail with
    | nil =>
      simp only [List.foldl_cons, List.foldl_nil] at hv
      simp only [hn, List.length_singleton, if_true, List.nil_append, List.singleton_append, hv]
    | cons b' tail =>
      rw [if_neg (by simp only [List.length_cons] at hn; omega)]
      refine ih (by simp) ⟨?_, fun b hb => ht b ?_, fun b hb => ht b (by simp [hb]),
        by simpa only [List.foldl_cons] using hv⟩
      · simp only [List.length_cons] at hn ⊢
        omega
      · obtain rfl : b' = b := by simpa using hb
        simp

/-- A code point is one byte, or a byte that begins a sequence and the bytes it leads to. -/
theorem encodeChar_cases (c : Char) : (c.toNat < 0x80 ∧ encodeChar c = [c.toNat]) ∨
    ∃ b p tail, encodeChar c = b :: tail ∧ first b = ([], some p) ∧ tail ≠ [] ∧
      Leads p tail c.toNat := by
  have hv : c.toNat < 0xd800 ∨ 0xdfff < c.toNat ∧ c.toNat < 0x110000 := c.valid
  unfold encodeChar
  dsimp only
  by_cases h1 : c.toNat < 0x80
  · exact .inl ⟨h1, if_pos h1⟩
  right
  rw [if_neg h1]
  by_cases h2 : c.toNat < 0x800
  · rw [if_pos h2]
    refine ⟨_, { needed := 1, point := c.toNat / 0x40 }, _, rfl, ?_, by simp, rfl, ?_⟩
    · rw [first, if_neg (by omega), if_pos (by omega)]
      simp
    · simp [Tail]
      omega
  rw [if_neg h2]
  by_cases h3 : c.toNat < 0x10000
  · rw [if_pos h3]
    refine ⟨_, ⟨2, c.toNat / 0x1000, if c.toNat / 0x1000 = 0 then 0xa0 else 0x80,
      if c.toNat / 0x1000 = 0xd then 0x9f else 0xbf⟩, _, rfl, ?_, by simp, rfl, ?_⟩
    · rw [first, if_neg (by omega), if_neg (by omega)]
      by_cases h0 : c.toNat / 0x1000 = 0
      · rw [if_pos (by omega), h0]
        rfl
      rw [if_neg (by omega)]
      by_cases hd : c.toNat / 0x1000 = 0xd
      · rw [if_pos (by omega), hd]
        rfl
      rw [if_neg (by omega), if_pos (by omega), if_neg h0, if_neg hd]
      simp
    · simp [Tail]
      refine ⟨?_, ?_, ?_⟩
      · split_ifs <;> omega
      · omega
      · omega
  · rw [if_neg h3]
    refine ⟨_, ⟨3, c.toNat / 0x40000, if c.toNat / 0x40000 = 0 then 0x90 else 0x80,
      if c.toNat / 0x40000 = 4 then 0x8f else 0xbf⟩, _, rfl, ?_, by simp, rfl, ?_⟩
    · rw [first, if_neg (by omega), if_neg (by omega), if_neg (by omega), if_neg (by omega),
        if_neg (by omega)]
      by_cases h0 : c.toNat / 0x40000 = 0
      · rw [if_pos (by omega), h0]
        rfl
      rw [if_neg (by omega)]
      by_cases hd : c.toNat / 0x40000 = 4
      · rw [if_pos (by omega), hd]
        rfl
      rw [if_neg (by omega), if_pos (by omega), if_neg h0, if_neg hd]
      simp
    · simp [Tail]
      refine ⟨?_, ?_, ?_⟩
      · split_ifs <;> omega
      · omega
      · omega

theorem decode_char (c : Char) (bytes : List Nat) :
    decodeFrom none (encodeChar c ++ bytes) = c :: decodeFrom none bytes := by
  rcases encodeChar_cases c with ⟨hlt, h⟩ | ⟨b, p, tail, h, hf, hne, hl⟩
  · rw [h, List.cons_append, decodeFrom_cons, step, first, if_pos hlt, Char.ofNat_toNat]
    rfl
  · rw [h, List.cons_append, decodeFrom_cons, step, hf, List.nil_append,
      decodeFrom_leads hne hl, Char.ofNat_toNat]

theorem decode_encode_append (t : List Char) (bytes : List Nat) :
    decode (encode t ++ bytes) = t ++ decode bytes := by
  induction t with
  | nil => rfl
  | cons c t ih =>
    rw [encode_cons, List.append_assoc, decode, decode_char]
    exact congrArg (c :: ·) ih

theorem decode_encode (t : List Char) : decode (encode t) = t := by
  have := decode_encode_append t []
  simpa [decode, decodeFrom] using this

/-! ## A code point cut in two -/

theorem decodeFrom_short {p : Pending} {tail : List Nat} {v n : Nat} (h : Leads p tail v)
    (hn : n < tail.length) : decodeFrom (some p) (tail.take n) = [replacement] := by
  induction n generalizing p tail with
  | zero => rfl
  | succ n ih =>
    cases tail with
    | nil => simp at hn
    | cons b tail =>
      obtain ⟨hp, hb, ht, hv⟩ := h
      simp only [List.length_cons] at hp hn
      rw [List.take_succ_cons, decodeFrom_cons, step, if_pos (hb b rfl), if_neg (by omega)]
      refine ih ⟨?_, fun b hb => ht b ?_, fun b hb => ht b (by simp [hb]),
        by simpa only [List.foldl_cons] using hv⟩ (by omega)
      · simp only
        omega
      · exact List.mem_cons_of_mem _ (List.mem_of_mem_head? hb)

/-- Some of a code point's bytes, and not all, are one replacement character. -/
theorem decode_take {n : Nat} (h0 : 0 < n) (hn : n < (encodeChar c).length) :
    decode ((encodeChar c).take n) = [replacement] := by
  rcases encodeChar_cases c with ⟨-, h⟩ | ⟨b, p, tail, h, hf, -, hl⟩
  · rw [h, List.length_singleton] at hn
    omega
  · obtain ⟨n, rfl⟩ : ∃ m, n = m + 1 := ⟨n - 1, by omega⟩
    rw [h, List.length_cons] at hn
    rw [h, List.take_succ_cons, decode, decodeFrom_cons, step, hf, List.nil_append,
      decodeFrom_short hl (by omega)]

/-- `Buffer.byteLength(text, 'utf8')` -/
def size (t : List Char) : Nat := (encode t).length

@[simp] theorem size_nil : size [] = 0 := rfl

@[simp] theorem size_append (t u : List Char) : size (t ++ u) = size t + size u := by simp [size]

@[simp] theorem size_cons (c : Char) (t : List Char) :
    size (c :: t) = (encodeChar c).length + size t := by simp [size]

theorem size_eq_zero : size t = 0 ↔ t = [] := by
  cases t with
  | nil => simp
  | cons c t =>
    have := (encodeChar_length c).1
    simp only [size_cons, reduceCtorEq, iff_false]
    omega

/-- A code point ends at so many bytes. -/
def Boundary (t : List Char) (n : Nat) : Prop := ∃ a b, t = a ++ b ∧ size a = n

/-- A byte position in a text is between two code points or inside one. -/
theorem boundary_or {n : Nat} (h : n ≤ size t) : Boundary t n ∨
    ∃ a c b, t = a ++ c :: b ∧ size a < n ∧ n < size a + (encodeChar c).length := by
  induction t generalizing n with
  | nil => exact .inl ⟨[], [], rfl, by simp only [size_nil] at *; omega⟩
  | cons c t ih =>
    rw [size_cons] at h
    by_cases h0 : n = 0
    · exact .inl ⟨[], c :: t, rfl, h0.symm⟩
    by_cases hlt : n < (encodeChar c).length
    · exact .inr ⟨[], c, t, rfl, by simp only [size_nil]; omega, by simpa using hlt⟩
    rcases ih (n := n - (encodeChar c).length) (by omega) with ⟨a, b, rfl, ha⟩ | ⟨a, d, b, rfl, ha, hb⟩
    · exact .inl ⟨c :: a, b, rfl, by rw [size_cons, ha]; omega⟩
    · exact .inr ⟨c :: a, d, b, rfl, by rw [size_cons]; omega, by rw [size_cons]; omega⟩

/-- No position inside a code point is between two. -/
theorem not_boundary {a b : List Char} {n : Nat} (ha : size a < n)
    (hb : n < size a + (encodeChar c).length) : ¬ Boundary (a ++ c :: b) n := by
  rintro ⟨a', b', h, hn⟩
  rcases List.append_eq_append_iff.1 h with ⟨m, hm, hc⟩ | ⟨m, hm, -⟩
  · cases m with
    | nil =>
      rw [hm, List.append_nil] at hn
      omega
    | cons d m =>
      obtain rfl : c = d := (List.cons.inj hc).1
      rw [hm, size_append, size_cons] at hn
      omega
  · rw [hm, size_append] at ha
    omega

theorem boundary_append {a b : List Char} {n : Nat} : Boundary (a ++ b) (size a + n) ↔ Boundary b n := by
  constructor
  · rintro ⟨a', b', h, hn⟩
    rcases List.append_eq_append_iff.1 h with ⟨m, rfl, rfl⟩ | ⟨m, rfl, rfl⟩
    · exact ⟨m, b', rfl, by rw [size_append] at hn; omega⟩
    · rw [size_append] at hn
      obtain rfl := size_eq_zero.1 (show size m = 0 by omega)
      exact ⟨[], b, rfl, by simp only [size_nil] at *; omega⟩
  · rintro ⟨a', b', rfl, hn⟩
    exact ⟨a ++ a', b', by simp, by rw [size_append, hn]⟩

/-- The bytes up to a position inside a code point: what stands before it, and a replacement. -/
theorem decode_inside {a b : List Char} {n : Nat} (ha : size a < n)
    (hb : n < size a + (encodeChar c).length) :
    decode ((encode (a ++ c :: b)).take n) = a ++ [replacement] := by
  obtain ⟨k, rfl⟩ : ∃ k, n = (encode a).length + k := ⟨n - size a, by simp only [size] at *; omega⟩
  have hk : k < (encodeChar c).length := by simp only [size] at hb; omega
  rw [encode_append, List.take_length_add_append, encode_cons, List.take_append_of_le_length (Nat.le_of_lt hk),
    decode_encode_append, decode_take (by simp only [size] at ha; omega) hk]

end CarbonRuntime.Core.Utf8
