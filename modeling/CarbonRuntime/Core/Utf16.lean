import CarbonRuntime.Core.Cutting

/-!
# Texts in code units

A text is its 16-bit code units. It is of whole code points (`Whole`) where every high surrogate is
followed by a low one and every low one follows a high one.

**Results.** A text of whole code points, cut at a position, is of whole code points before it
exactly where the position is not between the halves of a pair (`whole_take`), and then after it too
(`whole_drop`). Units that are no halves may be dropped at either end (`whole_trim`). A text of code
points, in code units, reads back (`chars_ofChars`). A text is the code units of its code points exactly
where it is of whole ones (`replaced_eq_iff`).
-/
namespace CarbonRuntime.Core.Utf16

open Cutting

/-- A text as its code units. -/
abbrev Text := List UInt16

instance : LawfulBEq Text := inferInstance

/-- The first half of a pair. -/
def isHigh (u : UInt16) : Bool := 0xd800 ≤ u && u < 0xdc00

/-- The second half of a pair. -/
def isLow (u : UInt16) : Bool := 0xdc00 ≤ u && u < 0xe000

/-- What is left of a text is of whole code points, where a second half is owed or is not. -/
def wholeFrom : Bool → Text → Bool
  | owed, [] => !owed
  | owed, u :: t => isLow u == owed && wholeFrom (isHigh u) t

/-- Of whole code points: no half of a pair without the other. -/
def Whole (t : Text) : Prop := wholeFrom false t = true

/-- In a text of whole code points the position stands between the halves of a pair. -/
def Halves (t : Text) (n : Nat) : Prop := ∃ u ∈ t[n]?, isLow u = true

instance (t : Text) : Decidable (Whole t) := inferInstanceAs (Decidable (_ = true))
instance (t : Text) (n : Nat) : Decidable (Halves t n) :=
  inferInstanceAs (Decidable (∃ u ∈ t[n]?, _))

@[simp] theorem whole_nil : Whole [] := rfl

variable {t l m : Text} {b : Bool}

theorem wholeFrom_append (hl : wholeFrom b l = true) :
    wholeFrom b (l ++ m) = wholeFrom false m := by
  induction l generalizing b with
  | nil =>
    have hb : b = false := by simpa [wholeFrom] using hl
    rw [hb, List.nil_append]
  | cons u l ih =>
    simp only [wholeFrom, Bool.and_eq_true] at hl
    simp [wholeFrom, hl.1, ih hl.2]

/-- What stands before a unit is of whole code points where the unit is no second half. -/
theorem wholeFrom_before {u : UInt16} (h : wholeFrom b (l ++ u :: m) = true) :
    wholeFrom b l = true ↔ isLow u = false := by
  induction l generalizing b with
  | nil =>
    simp only [List.nil_append, wholeFrom, Bool.and_eq_true, beq_iff_eq] at h
    simp [wholeFrom, h.1]
  | cons v l ih =>
    simp only [List.cons_append, wholeFrom, Bool.and_eq_true] at h
    simp [wholeFrom, h.1, ih h.2]

theorem whole_append (hl : Whole l) : Whole (l ++ m) ↔ Whole m := by
  rw [Whole, wholeFrom_append hl, Whole]

theorem whole_take (ht : Whole t) (n : Nat) : Whole (t.take n) ↔ ¬ Halves t n := by
  by_cases hn : n < t.length
  · have hsplit : t.take n ++ t[n] :: t.drop (n + 1) = t := by
      rw [← List.drop_eq_getElem_cons hn, List.take_append_drop]
    rw [Whole, wholeFrom_before (m := t.drop (n + 1)) (u := t[n]) (by rw [hsplit]; exact ht)]
    simp [Halves, List.getElem?_eq_getElem hn]
  · simp [Halves, List.take_of_length_le (Nat.le_of_not_lt hn), List.getElem?_eq_none
      (Nat.le_of_not_lt hn), ht]

theorem whole_drop (ht : Whole t) {n : Nat} (hn : ¬ Halves t n) : Whole (t.drop n) := by
  have := whole_append (m := t.drop n) ((whole_take ht n).2 hn)
  rw [List.take_append_drop] at this
  exact this.1 ht

theorem whole_of_blank {p : UInt16 → Bool} (hp : ∀ u, p u = true → isLow u = false ∧ isHigh u = false)
    (hl : Blank p l) : Whole l := by
  induction l with
  | nil => rfl
  | cons u l ih =>
    obtain ⟨hlow, hhigh⟩ := hp u (hl u (by simp))
    simp only [Whole, wholeFrom, hlow, hhigh, Bool.and_eq_true, beq_self_eq_true, true_and]
    exact ih fun v hv => hl v (by simp [hv])

/-- What is dropped at either end are code points of their own. -/
theorem whole_trim {p : UInt16 → Bool} (hp : ∀ u, p u = true → isLow u = false ∧ isHigh u = false) :
    Whole (trim p t) ↔ Whole t := by
  obtain ⟨a, b, ha, hb, ht⟩ := trim_parts p t
  have hwhole : Whole t ↔ Whole (trim p t ++ b) := by
    conv_lhs => rw [ht, List.append_assoc]
    exact whole_append (whole_of_blank hp ha)
  rw [hwhole]
  constructor
  · exact fun h => (whole_append h).2 (whole_of_blank hp hb)
  · intro h
    cases b with
    | nil => simpa using h
    | cons u b => exact (wholeFrom_before h).2 (hp u (hb u (by simp))).1

/-! ## Texts of code points -/

/-- The code units of a code point. -/
def unitsOf (c : Char) : Text :=
  let v := c.toNat
  if v < 0x10000 then [.ofNat v]
  else [.ofNat (0xd800 + (v - 0x10000) / 0x400), .ofNat (0xdc00 + (v - 0x10000) % 0x400)]

def ofChars (text : List Char) : Text := text.flatMap unitsOf

def ofString (s : String) : Text := ofChars s.toList

/-- A code unit that stands alone: a half is no code point. -/
def lone (u : UInt16) : Char := if isHigh u || isLow u then '\uFFFD' else Char.ofNat u.toNat

/-- The code point of a pair. -/
def paired (u v : UInt16) : Char :=
  Char.ofNat (0x10000 + (u.toNat - 0xd800) * 0x400 + (v.toNat - 0xdc00))

/-- The code points, halves without the other replaced. -/
def chars : Text → List Char
  | [] => []
  | [u] => [lone u]
  | u :: v :: t => if isHigh u && isLow v then paired u v :: chars t else lone u :: chars (v :: t)

@[simp] theorem ofChars_nil : ofChars [] = [] := rfl
@[simp] theorem ofChars_cons (c : Char) (t : List Char) : ofChars (c :: t) = unitsOf c ++ ofChars t :=
  rfl
@[simp] theorem ofChars_append (t u : List Char) : ofChars (t ++ u) = ofChars t ++ ofChars u :=
  List.flatMap_append

theorem isHigh_eq (u : UInt16) : isHigh u = decide (0xd800 ≤ u.toNat ∧ u.toNat < 0xdc00) := by
  simp [isHigh, UInt16.le_iff_toNat_le, UInt16.lt_iff_toNat_lt]

theorem isLow_eq (u : UInt16) : isLow u = decide (0xdc00 ≤ u.toNat ∧ u.toNat < 0xe000) := by
  simp [isLow, UInt16.le_iff_toNat_le, UInt16.lt_iff_toNat_lt]

theorem chars_lone {u : UInt16} (h : isHigh u = false) (t : Text) :
    chars (u :: t) = lone u :: chars t := by
  cases t with
  | nil => rfl
  | cons v t => simp [chars, h]

theorem chars_paired {u v : UInt16} (hu : isHigh u = true) (hv : isLow v = true) (t : Text) :
    chars (u :: v :: t) = paired u v :: chars t := by
  simp [chars, hu, hv]

theorem chars_unitsOf (c : Char) (t : Text) : chars (unitsOf c ++ t) = c :: chars t := by
  have hv : c.toNat < 0xd800 ∨ 0xdfff < c.toNat ∧ c.toNat < 0x110000 := c.valid
  unfold unitsOf
  dsimp only
  split
  · rename_i hlt
    have hu : (UInt16.ofNat c.toNat).toNat = c.toNat := UInt16.toNat_ofNat_of_lt' hlt
    have hhigh : isHigh (.ofNat c.toNat) = false := by
      rw [isHigh_eq, hu, decide_eq_false_iff_not]
      omega
    have hlow : isLow (.ofNat c.toNat) = false := by
      rw [isLow_eq, hu, decide_eq_false_iff_not]
      omega
    rw [List.singleton_append, chars_lone hhigh, lone, hhigh, hlow, hu]
    simp
  · rename_i hge
    have hu : (UInt16.ofNat (0xd800 + (c.toNat - 0x10000) / 0x400)).toNat =
        0xd800 + (c.toNat - 0x10000) / 0x400 := UInt16.toNat_ofNat_of_lt' (by
          show _ < 65536
          omega)
    have hw : (UInt16.ofNat (0xdc00 + (c.toNat - 0x10000) % 0x400)).toNat =
        0xdc00 + (c.toNat - 0x10000) % 0x400 := UInt16.toNat_ofNat_of_lt' (by
          show _ < 65536
          omega)
    have hhigh : isHigh (.ofNat (0xd800 + (c.toNat - 0x10000) / 0x400)) = true := by
      rw [isHigh_eq, hu, decide_eq_true_eq]
      omega
    have hlow : isLow (.ofNat (0xdc00 + (c.toNat - 0x10000) % 0x400)) = true := by
      rw [isLow_eq, hw, decide_eq_true_eq]
      omega
    rw [List.cons_append, List.singleton_append, chars_paired hhigh hlow, paired, hu, hw]
    have hpoint : 0x10000 + (0xd800 + (c.toNat - 0x10000) / 0x400 - 0xd800) * 0x400 +
        (0xdc00 + (c.toNat - 0x10000) % 0x400 - 0xdc00) = c.toNat := by omega
    rw [hpoint, Char.ofNat_toNat]

theorem chars_ofChars (t : List Char) : chars (ofChars t) = t := by
  induction t with
  | nil => rfl
  | cons c t ih => rw [ofChars_cons, chars_unitsOf, ih]

theorem ofChars_inj {t u : List Char} (h : ofChars t = ofChars u) : t = u := by
  rw [← chars_ofChars t, h, chars_ofChars]

theorem toNat_ofNat {n : Nat} (h : n.isValidChar) : (Char.ofNat n).toNat = n := by
  rw [Char.ofNat, dif_pos h]
  rfl

/-! ## Halves without the other -/

/-- The text, a half without the other replaced. -/
def replaced (t : Text) : Text := ofChars (chars t)

theorem replaced_inj {s t : Text} : replaced s = replaced t ↔ chars s = chars t :=
  ⟨ofChars_inj, congrArg ofChars⟩

theorem unitsOf_lone {u : UInt16} (hhigh : isHigh u = false) (hlow : isLow u = false) :
    unitsOf (lone u) = [u] := by
  rw [lone, hhigh, hlow, Bool.or_false, if_neg Bool.false_ne_true]
  simp only [isHigh_eq, isLow_eq, decide_eq_false_iff_not] at hhigh hlow
  have hlt := u.toNat_lt
  have hn : (Char.ofNat u.toNat).toNat = u.toNat := toNat_ofNat (by rw [Nat.isValidChar]; omega)
  unfold unitsOf
  simp only [hn]
  rw [if_pos hlt, UInt16.ofNat_toNat]

theorem unitsOf_paired {u v : UInt16} (hu : isHigh u = true) (hv : isLow v = true) :
    unitsOf (paired u v) = [u, v] := by
  simp only [isHigh_eq, isLow_eq, decide_eq_true_eq] at hu hv
  have hn : (paired u v).toNat = 0x10000 + (u.toNat - 0xd800) * 0x400 + (v.toNat - 0xdc00) := by
    rw [paired, toNat_ofNat (by rw [Nat.isValidChar]; omega)]
  unfold unitsOf
  simp only [hn]
  rw [if_neg (by omega)]
  have h1 : 0xd800 + (0x10000 + (u.toNat - 0xd800) * 0x400 + (v.toNat - 0xdc00) - 0x10000) / 0x400 =
      u.toNat := by omega
  have h2 : 0xdc00 + (0x10000 + (u.toNat - 0xd800) * 0x400 + (v.toNat - 0xdc00) - 0x10000) % 0x400 =
      v.toNat := by omega
  rw [h1, h2, UInt16.ofNat_toNat, UInt16.ofNat_toNat]

theorem not_low_of_high {u : UInt16} (h : isHigh u = true) : isLow u = false := by
  simp only [isHigh_eq, isLow_eq, decide_eq_true_eq, decide_eq_false_iff_not] at h ⊢
  omega

theorem whole_unitsOf (c : Char) (t : Text) : Whole (unitsOf c ++ t) ↔ Whole t := by
  have hv : c.toNat < 0xd800 ∨ 0xdfff < c.toNat ∧ c.toNat < 0x110000 := c.valid
  refine whole_append ?_
  unfold unitsOf
  dsimp only
  split
  · rename_i hlt
    have hu : (UInt16.ofNat c.toNat).toNat = c.toNat := UInt16.toNat_ofNat_of_lt' hlt
    have hhigh : isHigh (.ofNat c.toNat) = false := by
      rw [isHigh_eq, hu, decide_eq_false_iff_not]
      omega
    have hlow : isLow (.ofNat c.toNat) = false := by
      rw [isLow_eq, hu, decide_eq_false_iff_not]
      omega
    simp [Whole, wholeFrom, hhigh, hlow]
  · rename_i hge
    have hhigh : isHigh (.ofNat (0xd800 + (c.toNat - 0x10000) / 0x400)) = true := by
      rw [isHigh_eq, UInt16.toNat_ofNat_of_lt' (by show _ < 65536; omega), decide_eq_true_eq]
      omega
    have hlow : isLow (.ofNat (0xdc00 + (c.toNat - 0x10000) % 0x400)) = true := by
      rw [isLow_eq, UInt16.toNat_ofNat_of_lt' (by show _ < 65536; omega), decide_eq_true_eq]
      omega
    have hlast : isHigh (.ofNat (0xdc00 + (c.toNat - 0x10000) % 0x400)) = false := by
      by_contra h
      rw [Bool.not_eq_false] at h
      rw [not_low_of_high h] at hlow
      exact Bool.false_ne_true hlow
    simp only [Whole, wholeFrom, hhigh, hlow, hlast, not_low_of_high hhigh, beq_self_eq_true, Bool.not_false,
      Bool.and_self]

theorem whole_ofChars (cs : List Char) : Whole (ofChars cs) := by
  induction cs with
  | nil => rfl
  | cons c cs ih => exact (whole_unitsOf c _).2 ih

/-- Nothing is replaced in a text of whole code points, and in no other. -/
theorem replaced_eq_iff {t : Text} : replaced t = t ↔ Whole t := by
  refine ⟨fun h => h ▸ whole_ofChars _, fun h => ?_⟩
  rw [replaced]
  induction t using chars.induct with
  | case1 => rfl
  | case2 u =>
    simp only [Whole, wholeFrom, Bool.and_eq_true, beq_iff_eq, Bool.not_eq_true'] at h
    rw [chars, ofChars_cons, unitsOf_lone h.2 h.1]
    rfl
  | case3 u v t hpair ih =>
    simp only [Bool.and_eq_true] at hpair
    simp only [Whole, wholeFrom, Bool.and_eq_true, beq_iff_eq, hpair.1] at h
    have hv : isHigh v = false := by
      by_contra hv
      rw [Bool.not_eq_false] at hv
      rw [not_low_of_high hv] at hpair
      exact Bool.false_ne_true hpair.2
    rw [chars_paired hpair.1 hpair.2, ofChars_cons, unitsOf_paired hpair.1 hpair.2, ih (by rw [hv] at h; exact h.2.2)]
    rfl
  | case4 u v t hpair ih =>
    simp only [Whole, wholeFrom, Bool.and_eq_true, beq_iff_eq] at h
    have hu : isHigh u = false := by
      by_contra hu
      rw [Bool.not_eq_false] at hu
      exact hpair (by rw [Bool.and_eq_true]; exact ⟨hu, h.2.1.trans hu⟩)
    rw [hu] at h
    rw [chars_lone hu, ofChars_cons, unitsOf_lone hu h.1, ih (by
      simpa only [Whole, wholeFrom, Bool.and_eq_true, beq_iff_eq] using h.2)]
    rfl

/-! ## ASCII -/

/-- An ASCII unit is one of the text where its character is one of the code points. -/
theorem mem_ofChars {u : UInt16} (hu : u < 0x80) {cs : List Char} :
    u ∈ ofChars cs ↔ Char.ofNat u.toNat ∈ cs := by
  have hlt : u.toNat < 0x80 := by simpa [UInt16.lt_iff_toNat_lt] using hu
  have hchar : (Char.ofNat u.toNat).toNat = u.toNat := toNat_ofNat (by rw [Nat.isValidChar]; omega)
  have hunits : ∀ c : Char, u ∈ unitsOf c ↔ Char.ofNat u.toNat = c := by
    intro c
    have hv : c.toNat < 0xd800 ∨ 0xdfff < c.toNat ∧ c.toNat < 0x110000 := c.valid
    have hiff : Char.ofNat u.toNat = c ↔ u.toNat = c.toNat := by
      constructor
      · intro h
        rw [← h, hchar]
      · intro h
        rw [h, Char.ofNat_toNat]
    rw [hiff]
    unfold unitsOf
    dsimp only
    split
    · rename_i h
      rw [List.mem_singleton, ← UInt16.toNat_inj, UInt16.toNat_ofNat_of_lt' h]
    · rename_i h
      simp only [List.mem_cons, List.not_mem_nil, or_false, ← UInt16.toNat_inj]
      rw [UInt16.toNat_ofNat_of_lt' (by show _ < 65536; omega),
        UInt16.toNat_ofNat_of_lt' (by show _ < 65536; omega)]
      omega
  rw [ofChars, List.mem_flatMap]
  simp only [hunits, exists_eq_right']

theorem lone_ascii {c : Char} {u : UInt16} (hc : c.toNat < 0x80) (h : c = lone u) :
    u.toNat = c.toNat := by
  unfold lone at h
  split at h
  · rw [h] at hc
    exact absurd hc (by decide)
  · rename_i hu
    simp only [isHigh_eq, isLow_eq, Bool.or_eq_true, decide_eq_true_eq, not_or] at hu
    have hlt := u.toNat_lt
    rw [h, toNat_ofNat (by rw [Nat.isValidChar]; omega)]

/-- A character of ASCII among the code points is one among the units. -/
theorem mem_of_mem_chars {u : UInt16} (hu : u < 0x80) (h : Char.ofNat u.toNat ∈ chars t) :
    u ∈ t := by
  have hlt : u.toNat < 0x80 := by simpa [UInt16.lt_iff_toNat_lt] using hu
  have hchar : (Char.ofNat u.toNat).toNat = u.toNat := toNat_ofNat (by rw [Nat.isValidChar]; omega)
  have hlone : ∀ v, Char.ofNat u.toNat = lone v → u = v := by
    intro v hv
    have := lone_ascii (by omega) hv
    rw [hchar] at this
    exact (UInt16.toNat_inj.1 this).symm
  induction t using chars.induct with
  | case1 => cases h
  | case2 v =>
    rw [chars, List.mem_singleton] at h
    rw [List.mem_singleton, hlone v h]
  | case3 v w t hpair ih =>
    simp only [Bool.and_eq_true] at hpair
    rw [chars_paired hpair.1 hpair.2, List.mem_cons] at h
    rcases h with h | h
    · simp only [isHigh_eq, isLow_eq, decide_eq_true_eq] at hpair
      rw [h, paired, toNat_ofNat (by rw [Nat.isValidChar]; omega)] at hchar
      omega
    · exact List.mem_cons_of_mem _ (List.mem_cons_of_mem _ (ih h))
  | case4 v w t hpair ih =>
    simp only [chars, hpair, Bool.false_eq_true, if_false, List.mem_cons] at h
    rcases h with h | h
    · rw [hlone v h]
      exact List.mem_cons_self
    · exact List.mem_cons_of_mem _ (ih h)

/-- Texts of ASCII compare by their units as they do by their code points. -/
theorem ofChars_lt_iff {s t : List Char} (hs : ∀ c ∈ s, c.toNat < 0x80) (ht : ∀ c ∈ t, c.toNat < 0x80) :
    ofChars s < ofChars t ↔ s < t := by
  have hunits : ∀ c : Char, c.toNat < 0x80 → unitsOf c = [.ofNat c.toNat] := fun c hc => if_pos (by omega)
  induction s generalizing t with
  | nil =>
    cases t with
    | nil => simp
    | cons d t => simp [hunits d (ht d List.mem_cons_self)]
  | cons c s ih =>
    cases t with
    | nil => simp
    | cons d t =>
      have hc := hs c List.mem_cons_self
      have hd := ht d List.mem_cons_self
      have hof : ∀ n, n < 0x80 → (UInt16.ofNat n).toNat = n := fun n hn =>
        UInt16.toNat_ofNat_of_lt' (by show n < 65536; omega)
      have hlt : UInt16.ofNat c.toNat < .ofNat d.toNat ↔ c < d := by
        rw [UInt16.lt_iff_toNat_lt, hof _ hc, hof _ hd]
        exact Iff.rfl
      have heq : UInt16.ofNat c.toNat = .ofNat d.toNat ↔ c = d := by
        rw [← UInt16.toNat_inj, hof _ hc, hof _ hd, Char.toNat_inj]
      have hrest : ofChars s < ofChars t ↔ s < t :=
        ih (fun c hc => hs c (List.mem_cons_of_mem _ hc)) fun c hc => ht c (List.mem_cons_of_mem _ hc)
      rw [ofChars_cons, ofChars_cons, hunits c hc, hunits d hd, List.singleton_append, List.singleton_append,
        List.cons_lt_cons_iff, List.cons_lt_cons_iff, hlt, heq, hrest]

end CarbonRuntime.Core.Utf16
