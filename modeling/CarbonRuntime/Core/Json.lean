import CarbonRuntime.Core.Utf16
import Mathlib.Data.List.Infix
import Mathlib.Data.Option.Basic

/-!
# JSON as it is spelled

A reader of JSON texts that keeps of every string the pieces it is spelled in: a code unit, and what
of the text it was written as. `stringify` writes a string as the language does.

**Results.** Every string of a document that is read stands in the text as it is spelled
(`parse_within`). The reader is given rounds to read with, and the length of the text is enough of
them (`value_rounds`).
-/
namespace CarbonRuntime.Core.Json

open Utf16

/-- A code unit of a string, and how it is written. -/
structure Piece where
  spelled : Text
  unit : UInt16
deriving DecidableEq

/-- A string as it is spelled. -/
abbrev Literal := List Piece

def Literal.text (l : Literal) : Text := l.map (·.unit)

def Literal.spelled (l : Literal) : Text := l.flatMap (·.spelled)

inductive Value
  | null
  | bool (b : Bool)
  | number (literal : Text)
  | string (literal : Literal)
  | array (items : List Value)
  | object (fields : List (Literal × Value))

/-- The value of a field, the last one of its name. -/
def Value.field (name : Text) : Value → Option Value
  | .object fields => (fields.reverse.find? (·.1.text = name)).map (·.2)
  | _ => none

/-! ## Reading -/

/-- A code unit of ASCII. -/
def chr (c : Char) : UInt16 := .ofNat c.toNat

def isBlank (u : UInt16) : Bool := u = 0x20 || u = 0x9 || u = 0xa || u = 0xd

def skip (t : Text) : Text := t.dropWhile isBlank

/-- A unit, behind blanks. -/
def expect (u : UInt16) (t : Text) : Option Text :=
  match skip t with
  | v :: t => if v = u then some t else none
  | [] => none

def isDigit (u : UInt16) : Bool := 0x30 ≤ u && u ≤ 0x39

/-- What is behind the digits, of which there is one at least. -/
def digits : Text → Option Text
  | u :: t => if isDigit u then some (t.dropWhile isDigit) else none
  | [] => none

def integer : Text → Option Text
  | u :: t => if u = chr '0' then some t else digits (u :: t)
  | [] => none

def fraction : Text → Option Text
  | u :: t => if u = chr '.' then digits t else some (u :: t)
  | [] => some []

def unsigned : Text → Text
  | u :: t => if u = chr '+' ∨ u = chr '-' then t else u :: t
  | [] => []

def exponent : Text → Option Text
  | u :: t => if u = chr 'e' ∨ u = chr 'E' then digits (unsigned t) else some (u :: t)
  | [] => some []

def positive : Text → Text
  | u :: t => if u = chr '-' then t else u :: t
  | [] => []

/-- What is behind a number. -/
def number (t : Text) : Option Text := do
  let t ← integer (positive t)
  let t ← fraction t
  exponent t

def short (u : UInt16) : Option UInt16 :=
  if u = chr '"' ∨ u = chr '\\' ∨ u = chr '/' then some u
  else if u = chr 'b' then some 0x8
  else if u = chr 'f' then some 0xc
  else if u = chr 'n' then some 0xa
  else if u = chr 'r' then some 0xd
  else if u = chr 't' then some 0x9
  else none

def hexDigit (u : UInt16) : Option Nat :=
  if isDigit u then some (u.toNat - 0x30)
  else if 0x41 ≤ u ∧ u ≤ 0x46 then some (u.toNat - 0x41 + 10)
  else if 0x61 ≤ u ∧ u ≤ 0x66 then some (u.toNat - 0x61 + 10)
  else none

/-- What a backslash starts. -/
def escaped : Text → Option (Piece × Text)
  | e :: t =>
    match short e with
    | some unit => some (⟨[chr '\\', e], unit⟩, t)
    | none =>
      match t with
      | a :: b :: c :: d :: t =>
        if e = chr 'u' then do
          let n := ((← hexDigit a) * 16 + (← hexDigit b)) * 256 + (← hexDigit c) * 16 + (← hexDigit d)
          some (⟨[chr '\\', e, a, b, c, d], .ofNat n⟩, t)
        else none
      | _ => none
  | [] => none

/-- The next code unit of a string. -/
def piece : Text → Option (Piece × Text)
  | u :: t =>
    if u = chr '"' ∨ u < 0x20 then none
    else if u = chr '\\' then escaped t
    else some (⟨[u], u⟩, t)
  | [] => none

/-- A string from behind its first quote, of at most so many code units. -/
def pieces : Nat → Text → Option (Literal × Text)
  | 0, _ => none
  | rounds + 1, t =>
    if t.head? = some (chr '"') then some ([], t.tail)
    else do
      let (p, t) ← piece t
      let (l, t) ← pieces rounds t
      some (p :: l, t)

def string (t : Text) : Option (Literal × Text) := pieces t.length t

section
variable (read : Text → Option (Value × Text))

/-- The items of an array from the first on, of which there are at most so many. -/
def items : Nat → Text → Option (List Value × Text)
  | 0, _ => none
  | rounds + 1, t => do
    let (v, t) ← read t
    match skip t with
    | u :: t =>
      if u = chr ',' then do
        let (vs, t) ← items rounds t
        some (v :: vs, t)
      else if u = chr ']' then some ([v], t)
      else none
    | [] => none

/-- A name, a colon and a value. -/
def member (t : Text) : Option ((Literal × Value) × Text) := do
  let (name, t) ← string (← expect (chr '"') t)
  let (v, t) ← read (← expect (chr ':') t)
  some ((name, v), t)

/-- The fields of an object from the first on, of which there are at most so many. -/
def members : Nat → Text → Option (List (Literal × Value) × Text)
  | 0, _ => none
  | rounds + 1, t => do
    let (m, t) ← member read t
    match skip t with
    | u :: t =>
      if u = chr ',' then do
        let (ms, t) ← members rounds t
        some (m :: ms, t)
      else if u = chr '\x7d' then some ([m], t)
      else none
    | [] => none

end

def words : List (Text × Value) :=
  [(ofString "true", .bool true), (ofString "false", .bool false), (ofString "null", .null)]

/-- `true`, `false` or `null`. -/
def word (t : Text) : Option (Value × Text) :=
  words.findSome? fun w => (t.dropPrefix? w.1).map (w.2, ·)

/-- A value that is nested in at most so many others. -/
def value : Nat → Text → Option (Value × Text)
  | 0, _ => none
  | rounds + 1, t =>
    match skip t with
    | [] => none
    | u :: t =>
      if u = chr '\x7b' then
        match expect (chr '\x7d') t with
        | some t => some (.object [], t)
        | none => (members (value rounds) rounds t).map fun r => (.object r.1, r.2)
      else if u = chr '[' then
        match expect (chr ']') t with
        | some t => some (.array [], t)
        | none => (items (value rounds) rounds t).map fun r => (.array r.1, r.2)
      else if u = chr '"' then (string t).map fun r => (.string r.1, r.2)
      else (word (u :: t)).or
        ((number (u :: t)).map fun rest =>
          (.number ((u :: t).take ((u :: t).length - rest.length)), rest))

/-- `JSON.parse(text)`, or nothing where it raises. -/
def parse (t : Text) : Option Value := do
  let (v, t) ← value (t.length + 1) t
  guard (skip t = [])
  return v

/-! ## Writing -/

/-- Four hexadecimal digits. -/
def hex4 (u : UInt16) : Text :=
  let digit (n : Nat) : UInt16 := .ofNat (if n % 16 < 10 then 0x30 + n % 16 else 0x61 + n % 16 - 10)
  [digit (u.toNat / 0x1000), digit (u.toNat / 0x100), digit (u.toNat / 0x10), digit u.toNat]

def unicode (u : UInt16) : Text := chr '\\' :: chr 'u' :: hex4 u

/-- A code unit that is no half of a pair. -/
def escape (u : UInt16) : Text :=
  if u = chr '"' ∨ u = chr '\\' then [chr '\\', u]
  else if u = 0x8 then [chr '\\', chr 'b']
  else if u = 0xc then [chr '\\', chr 'f']
  else if u = 0xa then [chr '\\', chr 'n']
  else if u = 0xd then [chr '\\', chr 'r']
  else if u = 0x9 then [chr '\\', chr 't']
  else if u < 0x20 then unicode u
  else [u]

def escapeLone (u : UInt16) : Text := if isHigh u || isLow u then unicode u else escape u

/-- `JSON.stringify(text).slice(1, -1)` -/
def stringify : Text → Text
  | [] => []
  | [u] => escapeLone u
  | u :: v :: t =>
    if isHigh u && isLow v then u :: v :: stringify t else escapeLone u ++ stringify (v :: t)

variable {t rest : Text} {v : Value} {l : Literal} {rounds : Nat}

/-! ## What is read stands in the text -/

/-- Every string in the value stands in the text as it is spelled. -/
inductive Within (t : Text) : Value → Prop
  | null : Within t .null
  | bool (b : Bool) : Within t (.bool b)
  | number (literal : Text) : Within t (.number literal)
  | string {l : Literal} : l.spelled <:+: t → Within t (.string l)
  | array {vs : List Value} : (∀ v ∈ vs, Within t v) → Within t (.array vs)
  | object {fs : List (Literal × Value)} : (∀ f ∈ fs, Within t f.2) → Within t (.object fs)

theorem Within.mono {t' : Text} (h : Within t v) (ht : t <:+: t') : Within t' v := by
  induction h with
  | null => exact .null
  | bool b => exact .bool b
  | number literal => exact .number literal
  | string hl => exact .string (hl.trans ht)
  | array _ ih => exact .array ih
  | object _ ih => exact .object ih

theorem Within.field {name : Text} {w : Value} (h : Within t v) (hf : v.field name = some w) :
    Within t w := by
  cases h with
  | object hall =>
    obtain ⟨f, hfind, rfl⟩ := Option.map_eq_some_iff.1 hf
    exact hall f (List.mem_reverse.1 (List.mem_of_find?_eq_some hfind))
  | _ => cases hf

/-- A reader takes what it reads off the front, and what it reads stands there. -/
def Reads (read : Text → Option (Value × Text)) : Prop :=
  ∀ t v rest, read t = some (v, rest) → rest <:+ t ∧ rest.length < t.length ∧ Within t v

theorem skip_suffix (t : Text) : skip t <:+ t := List.dropWhile_suffix _

theorem expect_some {u : UInt16} (h : expect u t = some rest) : u :: rest <:+ t := by
  unfold expect at h
  split at h
  · rename_i hs
    obtain ⟨hu, he⟩ := Option.ite_none_right_eq_some.1 h
    rw [← hu, ← Option.some.inj he, ← hs]
    exact skip_suffix t
  · cases h

theorem escaped_some {p : Piece} (h : escaped t = some (p, rest)) :
    chr '\\' :: t = p.spelled ++ rest ∧ p.spelled ≠ [] := by
  unfold escaped at h
  split at h
  · split at h
    · obtain ⟨rfl, rfl⟩ := Prod.mk.inj (Option.some.inj h)
      exact ⟨rfl, List.cons_ne_nil _ _⟩
    · split at h
      · split at h
        · simp only [bind, Option.bind_eq_some_iff] at h
          obtain ⟨_, _, _, _, _, _, _, _, h⟩ := h
          obtain ⟨rfl, rfl⟩ := Prod.mk.inj (Option.some.inj h)
          exact ⟨rfl, List.cons_ne_nil _ _⟩
        · cases h
      · cases h
  · cases h

theorem piece_some {p : Piece} (h : piece t = some (p, rest)) :
    t = p.spelled ++ rest ∧ p.spelled ≠ [] := by
  unfold piece at h
  split at h
  · split_ifs at h with h1 h2
    · rw [h2]
      exact escaped_some h
    · obtain ⟨rfl, rfl⟩ := Prod.mk.inj (Option.some.inj h)
      exact ⟨rfl, List.cons_ne_nil _ _⟩
  · cases h

theorem head_tail {u : UInt16} (h : t.head? = some u) : t = u :: t.tail := by
  cases t with
  | nil => cases h
  | cons v t => rw [Option.some.inj h, List.tail_cons]

theorem pieces_some (h : pieces rounds t = some (l, rest)) :
    t = l.spelled ++ chr '"' :: rest := by
  induction rounds generalizing t l with
  | zero => cases h
  | succ rounds ih =>
    rw [pieces] at h
    split at h
    · rename_i hq
      obtain ⟨rfl, rfl⟩ := Prod.mk.inj (Option.some.inj h)
      exact head_tail hq
    · simp only [bind, Option.bind_eq_some_iff, Prod.exists] at h
      obtain ⟨p, t₁, hp, l', t₂, hl, h⟩ := h
      obtain ⟨rfl, rfl⟩ := Prod.mk.inj (Option.some.inj h)
      rw [(piece_some hp).1, ih hl]
      simp [Literal.spelled]

theorem string_some (h : string t = some (l, rest)) :
    rest <:+ t ∧ rest.length < t.length ∧ l.spelled <:+: t := by
  have hsplit := pieces_some h
  refine ⟨⟨l.spelled ++ [chr '"'], by rw [hsplit]; simp⟩, ?_, ?_⟩
  · rw [hsplit, List.length_append, List.length_cons]
    omega
  · exact ⟨[], chr '"' :: rest, by rw [hsplit]; simp⟩

theorem suffix_lt {a b : Text} {u : UInt16} (h : u :: a <:+ b) : a <:+ b ∧ a.length < b.length := by
  have := h.length_le
  exact ⟨(List.suffix_cons u a).trans h, this⟩

section
variable {read : Text → Option (Value × Text)}

theorem member_some (hr : Reads read) {m : Literal × Value} (h : member read t = some (m, rest)) :
    rest <:+ t ∧ rest.length < t.length ∧ Within t m.2 := by
  simp only [member, bind, Option.bind_eq_some_iff, Prod.exists] at h
  obtain ⟨t₁, h₁, name, t₂, h₂, t₃, h₃, v, t₄, h₄, h⟩ := h
  obtain ⟨rfl, rfl⟩ := Prod.mk.inj (Option.some.inj h)
  obtain ⟨hs₁, hl₁⟩ := suffix_lt (expect_some h₁)
  obtain ⟨hs₂, hl₂, -⟩ := string_some h₂
  obtain ⟨hs₃, hl₃⟩ := suffix_lt (expect_some h₃)
  obtain ⟨hs₄, hl₄, hin⟩ := hr _ _ _ h₄
  have hs := hs₃.trans (hs₂.trans hs₁)
  exact ⟨hs₄.trans hs, by omega, hin.mono hs.isInfix⟩

theorem items_some (hr : Reads read) {vs : List Value} (h : items read rounds t = some (vs, rest)) :
    rest <:+ t ∧ rest.length < t.length ∧ ∀ v ∈ vs, Within t v := by
  induction rounds generalizing t vs with
  | zero => cases h
  | succ rounds ih =>
    simp only [items, bind, Option.bind_eq_some_iff, Prod.exists] at h
    obtain ⟨v, t₁, h₁, h⟩ := h
    obtain ⟨hs₁, hl₁, hin⟩ := hr _ _ _ h₁
    split at h
    · rename_i u t₂ hskip
      obtain ⟨hs₂, hl₂⟩ := suffix_lt (hskip ▸ skip_suffix t₁)
      split_ifs at h with hcomma hend
      · simp only [Option.bind_eq_some_iff, Prod.exists] at h
        obtain ⟨vs', t₃, h₃, h⟩ := h
        obtain ⟨rfl, rfl⟩ := Prod.mk.inj (Option.some.inj h)
        obtain ⟨hs₃, hl₃, hall⟩ := ih h₃
        refine ⟨hs₃.trans (hs₂.trans hs₁), by omega, fun w hw => ?_⟩
        rcases List.mem_cons.1 hw with rfl | hw
        · exact hin
        · exact (hall w hw).mono (hs₂.trans hs₁).isInfix
      · obtain ⟨rfl, rfl⟩ := Prod.mk.inj (Option.some.inj h)
        exact ⟨hs₂.trans hs₁, by omega, fun w hw => List.mem_singleton.1 hw ▸ hin⟩
    · cases h

theorem members_some (hr : Reads read) {ms : List (Literal × Value)}
    (h : members read rounds t = some (ms, rest)) :
    rest <:+ t ∧ rest.length < t.length ∧ ∀ m ∈ ms, Within t m.2 := by
  induction rounds generalizing t ms with
  | zero => cases h
  | succ rounds ih =>
    simp only [members, bind, Option.bind_eq_some_iff, Prod.exists] at h
    obtain ⟨name, v, t₁, h₁, h⟩ := h
    obtain ⟨hs₁, hl₁, hin⟩ := member_some hr h₁
    split at h
    · rename_i u t₂ hskip
      obtain ⟨hs₂, hl₂⟩ := suffix_lt (hskip ▸ skip_suffix t₁)
      split_ifs at h with hcomma hend
      · simp only [Option.bind_eq_some_iff, Prod.exists] at h
        obtain ⟨ms', t₃, h₃, h⟩ := h
        obtain ⟨rfl, rfl⟩ := Prod.mk.inj (Option.some.inj h)
        obtain ⟨hs₃, hl₃, hall⟩ := ih h₃
        refine ⟨hs₃.trans (hs₂.trans hs₁), by omega, fun m hm => ?_⟩
        rcases List.mem_cons.1 hm with rfl | hm
        · exact hin
        · exact (hall m hm).mono (hs₂.trans hs₁).isInfix
      · obtain ⟨rfl, rfl⟩ := Prod.mk.inj (Option.some.inj h)
        exact ⟨hs₂.trans hs₁, by omega, fun m hm => List.mem_singleton.1 hm ▸ hin⟩
    · cases h

end

theorem word_some (h : word t = some (v, rest)) :
    rest <:+ t ∧ rest.length < t.length ∧ Within t v := by
  obtain ⟨w, hw, h⟩ := List.exists_of_findSome?_eq_some h
  obtain ⟨r, hr, hv⟩ := Option.map_eq_some_iff.1 h
  obtain ⟨rfl, rfl⟩ := Prod.mk.inj hv
  obtain ⟨p, rfl, hp⟩ := List.dropPrefix?_eq_some_iff.1 hr
  rw [eq_of_beq hp]
  refine ⟨List.suffix_append _ _, ?_, ?_⟩
  · have hne : ∀ l ∈ words.map (·.1), 0 < l.length := by decide
    have := hne w.1 (List.mem_map_of_mem hw)
    rw [List.length_append]
    omega
  · simp only [words, List.mem_cons, List.not_mem_nil, or_false] at hw
    rcases hw with rfl | rfl | rfl
    · exact .bool true
    · exact .bool false
    · exact .null

theorem digits_some (h : digits t = some rest) : rest <:+ t ∧ rest.length < t.length := by
  unfold digits at h
  split at h
  · rename_i u t
    obtain ⟨-, h⟩ := Option.ite_none_right_eq_some.1 h
    obtain rfl := Option.some.inj h
    have hs : t.dropWhile isDigit <:+ t := List.dropWhile_suffix _
    exact ⟨hs.trans (List.suffix_cons u t), Nat.lt_succ_of_le hs.length_le⟩
  · cases h

theorem integer_some (h : integer t = some rest) : rest <:+ t ∧ rest.length < t.length := by
  unfold integer at h
  split at h
  · split_ifs at h
    · obtain rfl := Option.some.inj h
      exact suffix_lt (List.suffix_refl _)
    · exact digits_some h
  · cases h

theorem fraction_some (h : fraction t = some rest) : rest <:+ t := by
  unfold fraction at h
  split at h
  · rename_i u t
    split_ifs at h
    · exact (digits_some h).1.trans (List.suffix_cons u t)
    · exact Option.some.inj h ▸ List.suffix_refl _
  · exact Option.some.inj h ▸ List.suffix_refl _

theorem unsigned_suffix (t : Text) : unsigned t <:+ t := by
  unfold unsigned
  split
  · split_ifs
    · exact List.suffix_cons _ _
    · exact List.suffix_refl _
  · exact List.suffix_refl _

theorem exponent_some (h : exponent t = some rest) : rest <:+ t := by
  unfold exponent at h
  split at h
  · rename_i u t
    split_ifs at h
    · exact (digits_some h).1.trans ((unsigned_suffix t).trans (List.suffix_cons u t))
    · exact Option.some.inj h ▸ List.suffix_refl _
  · exact Option.some.inj h ▸ List.suffix_refl _

theorem positive_suffix (t : Text) : positive t <:+ t := by
  unfold positive
  split
  · split_ifs
    · exact List.suffix_cons _ _
    · exact List.suffix_refl _
  · exact List.suffix_refl _

theorem number_some (h : number t = some rest) : rest <:+ t ∧ rest.length < t.length := by
  simp only [number, bind, Option.bind_eq_some_iff] at h
  obtain ⟨t₁, h₁, t₂, h₂, h₃⟩ := h
  obtain ⟨hs₁, hl₁⟩ := integer_some h₁
  have hs := (exponent_some h₃).trans (fraction_some h₂)
  have hp := positive_suffix t
  exact ⟨hs.trans (hs₁.trans hp), hs.length_le.trans_lt (hl₁.trans_le hp.length_le)⟩

theorem value_reads (rounds : Nat) : Reads (value rounds) := by
  induction rounds with
  | zero => exact fun _ _ _ h => nomatch h
  | succ rounds ih =>
    intro t v rest h
    unfold value at h
    split at h
    · cases h
    · rename_i u t₁ hskip
      have hs := skip_suffix t
      rw [hskip] at hs
      obtain ⟨hs₁, hl₁⟩ := suffix_lt hs
      split_ifs at h with hobject harray hstring
      · split at h
        · rename_i t₂ h₂
          obtain ⟨rfl, rfl⟩ := Prod.mk.inj (Option.some.inj h)
          obtain ⟨hs₂, hl₂⟩ := suffix_lt (expect_some h₂)
          exact ⟨hs₂.trans hs₁, by omega, .object fun _ h => nomatch h⟩
        · obtain ⟨⟨ms, t₂⟩, h₂, he⟩ := Option.map_eq_some_iff.1 h
          obtain ⟨rfl, rfl⟩ := Prod.mk.inj he
          obtain ⟨hs₂, hl₂, hall⟩ := members_some ih h₂
          exact ⟨hs₂.trans hs₁, by dsimp only; omega,
            .object fun m hm => (hall m hm).mono hs₁.isInfix⟩
      · split at h
        · rename_i t₂ h₂
          obtain ⟨rfl, rfl⟩ := Prod.mk.inj (Option.some.inj h)
          obtain ⟨hs₂, hl₂⟩ := suffix_lt (expect_some h₂)
          exact ⟨hs₂.trans hs₁, by omega, .array fun _ h => nomatch h⟩
        · obtain ⟨⟨vs, t₂⟩, h₂, he⟩ := Option.map_eq_some_iff.1 h
          obtain ⟨rfl, rfl⟩ := Prod.mk.inj he
          obtain ⟨hs₂, hl₂, hall⟩ := items_some ih h₂
          exact ⟨hs₂.trans hs₁, by dsimp only; omega,
            .array fun v hv => (hall v hv).mono hs₁.isInfix⟩
      · obtain ⟨⟨l, t₂⟩, h₂, he⟩ := Option.map_eq_some_iff.1 h
        obtain ⟨rfl, rfl⟩ := Prod.mk.inj he
        obtain ⟨hs₂, hl₂, hin⟩ := string_some h₂
        exact ⟨hs₂.trans hs₁, by dsimp only; omega, .string (hin.trans hs₁.isInfix)⟩
      · rcases Option.or_eq_some_iff.1 h with h | ⟨-, h⟩
        · obtain ⟨hs₂, hl₂, hin⟩ := word_some h
          exact ⟨hs₂.trans hs, hl₂.trans_le hs.length_le, hin.mono hs.isInfix⟩
        · obtain ⟨r, h₂, he⟩ := Option.map_eq_some_iff.1 h
          obtain ⟨rfl, rfl⟩ := Prod.mk.inj he
          obtain ⟨hs₂, hl₂⟩ := number_some h₂
          exact ⟨hs₂.trans hs, hl₂.trans_le hs.length_le, .number _⟩

/-- Every string of a document stands in the text as it is spelled. -/
theorem parse_within (h : parse t = some v) : Within t v := by
  simp only [parse, bind, Option.bind_eq_some_iff, Prod.exists] at h
  obtain ⟨v', rest, hv, -, -, h⟩ := h
  obtain rfl := Option.some.inj h
  exact (value_reads _ _ _ _ hv).2.2

/-! ## Rounds -/

section
variable {read read' : Text → Option (Value × Text)} {k n m : Nat}

theorem items_rounds (hr : Reads read) (heq : ∀ s, s.length ≤ k → read s = read' s)
    (hk : t.length ≤ k) (hn : t.length < n) (hm : t.length < m) :
    items read n t = items read' m t := by
  induction n generalizing m t with
  | zero => omega
  | succ n ih =>
    obtain ⟨m, rfl⟩ := Nat.exists_eq_succ_of_ne_zero (Nat.ne_of_gt (Nat.zero_lt_of_lt hm))
    rw [items, items, ← heq t hk]
    cases hread : read t with
    | none => rfl
    | some r =>
      obtain ⟨v, t₁⟩ := r
      obtain ⟨-, hl₁, -⟩ := hr _ _ _ hread
      simp only [bind, Option.bind_some]
      split
      · rename_i u t₂ hskip
        have hl₂ := (suffix_lt (hskip ▸ skip_suffix t₁)).2
        rw [ih (m := m) (by omega) (by omega) (by omega)]
      · rfl

theorem member_rounds (heq : ∀ s, s.length ≤ k → read s = read' s) (hk : t.length ≤ k) :
    member read t = member read' t := by
  unfold member
  cases h₁ : expect (chr '"') t with
  | none => rfl
  | some t₁ =>
    have hl₁ := (suffix_lt (expect_some h₁)).2
    simp only [bind, Option.bind_some]
    cases h₂ : string t₁ with
    | none => rfl
    | some r =>
      obtain ⟨name, t₂⟩ := r
      have hl₂ := (string_some h₂).2.1
      simp only [Option.bind_some]
      cases h₃ : expect (chr ':') t₂ with
      | none => rfl
      | some t₃ =>
        have hl₃ := (suffix_lt (expect_some h₃)).2
        simp only [Option.bind_some]
        rw [heq t₃ (by omega)]

theorem members_rounds (hr : Reads read) (heq : ∀ s, s.length ≤ k → read s = read' s)
    (hk : t.length ≤ k) (hn : t.length < n) (hm : t.length < m) :
    members read n t = members read' m t := by
  induction n generalizing m t with
  | zero => omega
  | succ n ih =>
    obtain ⟨m, rfl⟩ := Nat.exists_eq_succ_of_ne_zero (Nat.ne_of_gt (Nat.zero_lt_of_lt hm))
    rw [members, members, ← member_rounds heq hk]
    cases hread : member read t with
    | none => rfl
    | some r =>
      obtain ⟨f, t₁⟩ := r
      obtain ⟨-, hl₁, -⟩ := member_some hr hread
      simp only [bind, Option.bind_some]
      split
      · rename_i u t₂ hskip
        have hl₂ := (suffix_lt (hskip ▸ skip_suffix t₁)).2
        rw [ih (m := m) (by omega) (by omega) (by omega)]
      · rfl

/-- As many rounds as the text is long, and one, are enough. -/
theorem value_rounds (hn : t.length < n) (hm : t.length < m) : value n t = value m t := by
  induction n generalizing m t with
  | zero => omega
  | succ n ih =>
    obtain ⟨m, rfl⟩ := Nat.exists_eq_succ_of_ne_zero (Nat.ne_of_gt (Nat.zero_lt_of_lt hm))
    rw [value, value]
    split
    · rfl
    · rename_i u t₁ hskip
      have hl := (suffix_lt (hskip ▸ skip_suffix t)).2
      have heq : ∀ s, s.length ≤ t₁.length → value n s = value m s := fun s hs =>
        ih (by omega) (by omega)
      rw [members_rounds (m := m) (value_reads n) heq (Nat.le_refl _) (by omega) (by omega),
        items_rounds (m := m) (value_reads n) heq (Nat.le_refl _) (by omega) (by omega)]

end

end CarbonRuntime.Core.Json
