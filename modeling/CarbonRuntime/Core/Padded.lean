import Mathlib.Algebra.GroupWithZero.Nat
import Mathlib.Data.Nat.Basic

/-!
# Numbers as texts that sort like them

A number padded with zeros to a width it fits in is its decimal digits, most significant
first (`pad_eq`), and texts of one width compare as the numbers do (`pad_lt_iff`). Texts that
share a length at the front compare there first (`append_lt_iff`), so a position put together
from padded numbers compares part by part.
-/
namespace CarbonRuntime.Core.Padded

/-- The `w` last digits of `n`, the most significant first. -/
def digits : Nat → Nat → List Char
  | 0, _ => []
  | w + 1, n => digits w (n / 10) ++ [Nat.digitChar (n % 10)]

/-- `String(n).padStart(w, '0')` -/
def pad (w n : Nat) : String :=
  String.ofList (List.replicate (w - (Nat.toDigits 10 n).length) '0' ++ Nat.toDigits 10 n)

@[simp] theorem length_digits (w : Nat) : ∀ n, (digits w n).length = w := by
  induction w with
  | zero => exact fun _ => rfl
  | succ w ih => intro n; simp [digits, ih]

theorem digits_zero (w : Nat) : digits w 0 = List.replicate w '0' := by
  induction w with
  | zero => rfl
  | succ w ih => rw [digits, ih, List.replicate_succ']; rfl

theorem padded_digits (w : Nat) : ∀ n, n < 10 ^ w →
    List.replicate (w - (Nat.toDigits 10 n).length) '0' ++ Nat.toDigits 10 n = digits w n ∨ w = 0 := by
  induction w with
  | zero => exact fun _ _ => .inr rfl
  | succ w ih =>
    intro n hn
    refine .inl ?_
    by_cases h : n < 10
    · rw [Nat.toDigits_of_lt_base h, digits, Nat.div_eq_of_lt h, Nat.mod_eq_of_lt h, digits_zero]
      simp
    · have hlt : n / 10 < 10 ^ w := by
        rw [Nat.pow_succ] at hn
        omega
      rcases ih (n / 10) hlt with hd | rfl
      · rw [Nat.toDigits_of_base_le (by omega) (by omega), digits, ← hd]
        simp
      · simp at hn
        omega

theorem pad_eq {w n : Nat} (hw : 0 < w) (hn : n < 10 ^ w) : pad w n = String.ofList (digits w n) := by
  rcases padded_digits w n hn with h | h
  · rw [pad, h]
  · omega

/-- The digits before the last `b`, and the last `b`. -/
theorem digits_append (a b : Nat) : ∀ n, digits (a + b) n = digits a (n / 10 ^ b) ++ digits b n := by
  induction b with
  | zero => intro n; simp [digits]
  | succ b ih =>
    intro n
    rw [← Nat.add_assoc, digits, ih, digits, Nat.div_div_eq_div_mul, Nat.pow_succ, Nat.mul_comm 10,
      List.append_assoc]

theorem digits_succ (w n : Nat) :
    digits (w + 1) n = Nat.digitChar (n / 10 ^ w % 10) :: digits w n := by
  rw [Nat.add_comm, digits_append]
  rfl

/-! ## Order -/

/-- Texts that are of one length at the front compare there first. -/
theorem append_lt_iff {l l' m m' : List Char} (h : l.length = l'.length) :
    l ++ m < l' ++ m' ↔ l < l' ∨ l = l' ∧ m < m' := by
  induction l generalizing l' with
  | nil =>
    cases l' with
    | nil => simp
    | cons b l' => simp at h
  | cons a l ih =>
    cases l' with
    | nil => simp at h
    | cons b l' =>
      simp only [List.length_cons, Nat.add_right_cancel_iff] at h
      simp only [List.cons_append, List.cons_lt_cons_iff, ih h, List.cons.injEq]
      constructor
      · rintro (hlt | ⟨rfl, hlt | ⟨rfl, hlt⟩⟩)
        · exact .inl (.inl hlt)
        · exact .inl (.inr ⟨rfl, hlt⟩)
        · exact .inr ⟨⟨rfl, rfl⟩, hlt⟩
      · rintro ((hlt | ⟨rfl, hlt⟩) | ⟨⟨rfl, rfl⟩, hlt⟩)
        · exact .inl hlt
        · exact .inr ⟨rfl, .inl hlt⟩
        · exact .inr ⟨rfl, .inr ⟨rfl, hlt⟩⟩

theorem digitChar_lt_iff {a b : Nat} (ha : a < 10) (hb : b < 10) :
    Nat.digitChar a < Nat.digitChar b ↔ a < b := by
  have h : ∀ a b : Fin 10, Nat.digitChar a < Nat.digitChar b ↔ a.val < b.val := by decide
  exact h ⟨a, ha⟩ ⟨b, hb⟩

theorem digitChar_inj {a b : Nat} (ha : a < 10) (hb : b < 10)
    (h : Nat.digitChar a = Nat.digitChar b) : a = b := by
  have h' : ∀ a b : Fin 10, Nat.digitChar a = Nat.digitChar b → a.val = b.val := by decide
  exact h' ⟨a, ha⟩ ⟨b, hb⟩ h

theorem digits_inj {w : Nat} : ∀ {n m : Nat}, n < 10 ^ w → m < 10 ^ w →
    digits w n = digits w m → n = m := by
  induction w with
  | zero =>
    intro n m hn hm _
    simp at hn hm
    omega
  | succ w ih =>
    intro n m hn hm h
    rw [Nat.pow_succ] at hn hm
    rw [digits, digits] at h
    obtain ⟨hinit, hlast⟩ := List.append_inj h (by simp)
    have := ih (by omega) (by omega) hinit
    have := digitChar_inj (Nat.mod_lt n (by omega)) (Nat.mod_lt m (by omega)) (by simpa using hlast)
    omega

/-- Digits of one width compare as the numbers do. -/
theorem digits_lt_iff {w : Nat} : ∀ {n m : Nat}, n < 10 ^ w → m < 10 ^ w →
    (digits w n < digits w m ↔ n < m) := by
  induction w with
  | zero =>
    intro n m hn hm
    simp at hn hm
    simp [digits, hn, hm]
  | succ w ih =>
    intro n m hn hm
    rw [Nat.pow_succ] at hn hm
    rw [digits, digits, append_lt_iff (by simp), ih (by omega) (by omega)]
    have hlast : [Nat.digitChar (n % 10)] < [Nat.digitChar (m % 10)] ↔ n % 10 < m % 10 := by
      simp [List.cons_lt_cons_iff, digitChar_lt_iff (Nat.mod_lt n (by omega : 10 > 0))
        (Nat.mod_lt m (by omega : 10 > 0))]
    rw [hlast]
    constructor
    · rintro (h | ⟨heq, h⟩)
      · omega
      · have := digits_inj (by omega : n / 10 < 10 ^ w) (by omega) heq
        omega
    · intro h
      by_cases hdiv : n / 10 < m / 10
      · exact .inl hdiv
      · have : n / 10 = m / 10 := by omega
        exact .inr ⟨by rw [this], by omega⟩

theorem pad_lt_iff {w n m : Nat} (hw : 0 < w) (hn : n < 10 ^ w) (hm : m < 10 ^ w) :
    pad w n < pad w m ↔ n < m := by
  rw [pad_eq hw hn, pad_eq hw hm, ← digits_lt_iff hn hm]
  show (String.ofList _).toList < (String.ofList _).toList ↔ _
  rw [String.toList_ofList, String.toList_ofList]

/-! ## What a padded number is made of -/

theorem digits_ascii (w : Nat) : ∀ n, ∀ c ∈ digits w n, c.toNat < 0x80 := by
  induction w with
  | zero => exact fun _ _ hc => absurd hc List.not_mem_nil
  | succ w ih =>
    intro n c hc
    have hdigit : ∀ d : Fin 10, (Nat.digitChar d).toNat < 0x80 := by decide
    rcases List.mem_append.1 hc with hc | hc
    · exact ih _ c hc
    · rw [List.mem_singleton.1 hc]
      exact hdigit ⟨n % 10, Nat.mod_lt n (by omega)⟩

/-! ## Reading back -/

/-- `Number(text)` of decimal digits. -/
def number (text : String) : Option Nat :=
  if text.toList ≠ [] ∧ text.toList.all Char.isDigit then
    some (text.toList.foldl (fun n c => 10 * n + (c.toNat - '0'.toNat)) 0)
  else none

theorem foldl_digits (w : Nat) : ∀ n, n < 10 ^ w →
    (digits w n).foldl (fun n c => 10 * n + (c.toNat - '0'.toNat)) 0 = n := by
  induction w with
  | zero => intro n hn; simp at hn; simp [digits, hn]
  | succ w ih =>
    intro n hn
    rw [Nat.pow_succ] at hn
    have hdigit : ∀ d : Fin 10, (Nat.digitChar d).toNat - '0'.toNat = d.val := by decide
    have := hdigit ⟨n % 10, Nat.mod_lt n (by omega)⟩
    rw [digits, List.foldl_append, ih _ (by omega), List.foldl_cons, List.foldl_nil]
    simp only at this
    omega

theorem digits_isDigit (w : Nat) : ∀ n, (digits w n).all Char.isDigit = true := by
  induction w with
  | zero => exact fun _ => rfl
  | succ w ih =>
    intro n
    have hdigit : ∀ d : Fin 10, (Nat.digitChar d).isDigit = true := by decide
    rw [digits, List.all_append, ih, Bool.true_and, List.all_cons, List.all_nil, Bool.and_true]
    exact hdigit ⟨n % 10, Nat.mod_lt n (by omega)⟩

theorem number_pad {w n : Nat} (hw : 0 < w) (hn : n < 10 ^ w) : number (pad w n) = some n := by
  have hne : digits w n ≠ [] := fun h => by
    have := length_digits w n
    rw [h] at this
    simp at this
    omega
  rw [pad_eq hw hn, number, String.toList_ofList, if_pos ⟨hne, digits_isDigit w n⟩,
    foldl_digits w n hn]

end CarbonRuntime.Core.Padded
