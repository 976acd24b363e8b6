import Mathlib.Algebra.GroupWithZero.Nat
import Mathlib.Data.Nat.Basic
import Mathlib.Tactic.Common

/-!
# Numbers in a buffer

Numbers of a fixed width, least byte first, and where they are in a buffer. `At b pos rest` says what the
buffer has from a place on, so that a record that is laid out field by field is read field by field: each
`At.number` takes what stands there and each `At.skip` goes past it.
-/
namespace CarbonRuntime.Core.Bytes

/-- The `n` bytes of a number. -/
def le : Nat → Nat → List UInt8
  | 0, _ => []
  | n + 1, v => UInt8.ofNat v :: le n (v / 256)

def value : List UInt8 → Nat
  | [] => 0
  | byte :: bytes => byte.toNat + 256 * value bytes

def slice (b : List UInt8) (pos n : Nat) : List UInt8 := (b.drop pos).take n

/-- The number of `n` bytes at a place, or of as many as the buffer still has. -/
def number (b : List UInt8) (pos n : Nat) : Nat := value (slice b pos n)

/-- From `pos` on the buffer is `rest`. -/
def At (b : List UInt8) (pos : Nat) (rest : List UInt8) : Prop := ∃ front, b = front ++ rest ∧ front.length = pos

variable {b rest x y : List UInt8} {pos n v : Nat}

@[simp] theorem length_le (n v : Nat) : (le n v).length = n := by
  induction n generalizing v with
  | zero => rfl
  | succ n ih => simp [le, ih]

theorem value_le (h : v < 256 ^ n) : value (le n v) = v := by
  induction n generalizing v with
  | zero => simp at h; simp [le, value, h]
  | succ n ih =>
    have hdiv : v / 256 < 256 ^ n := by
      rw [Nat.div_lt_iff_lt_mul (by decide)]
      rwa [Nat.pow_succ] at h
    rw [le, value, ih hdiv, UInt8.toNat_ofNat']
    omega

theorem value_lt (x : List UInt8) : value x < 256 ^ x.length := by
  induction x with
  | nil => simp [value]
  | cons byte x ih =>
    have := byte.toNat_lt
    rw [value, List.length_cons, Nat.pow_succ]
    omega

theorem le_value (x : List UInt8) : le x.length (value x) = x := by
  induction x with
  | nil => rfl
  | cons byte x ih =>
    have hlt := byte.toNat_lt
    have hhead : UInt8.ofNat (byte.toNat + 256 * value x) = byte := by
      apply UInt8.toNat_inj.1
      rw [UInt8.toNat_ofNat']
      omega
    have htail : (byte.toNat + 256 * value x) / 256 = value x := by omega
    rw [List.length_cons, le, value, hhead, htail, ih]

theorem number_lt (b : List UInt8) (pos n : Nat) : number b pos n < 256 ^ n :=
  Nat.lt_of_lt_of_le (value_lt _) (Nat.pow_le_pow_right (by decide) (List.length_take_le _ _))

theorem At.zero (b : List UInt8) : At b 0 b := ⟨[], rfl, rfl⟩

theorem At.mk (x y : List UInt8) : At (x ++ y) x.length y := ⟨x, rfl, rfl⟩

theorem At.length (h : At b pos rest) : pos + rest.length = b.length := by
  obtain ⟨front, rfl, rfl⟩ := h
  exact List.length_append.symm

theorem At.skip (h : At b pos (x ++ rest)) : At b (pos + x.length) rest := by
  obtain ⟨front, rfl, rfl⟩ := h
  exact ⟨front ++ x, (List.append_assoc _ _ _).symm, List.length_append⟩

theorem At.skip_eq (h : At b pos (x ++ rest)) {k : Nat} (hk : pos + x.length = k) : At b k rest := hk ▸ h.skip

theorem At.append (h : At b pos rest) (y : List UInt8) : At (b ++ y) pos (rest ++ y) := by
  obtain ⟨front, rfl, rfl⟩ := h
  exact ⟨front, List.append_assoc _ _ _, rfl⟩

theorem At.slice (h : At b pos (x ++ rest)) : slice b pos x.length = x := by
  obtain ⟨front, rfl, rfl⟩ := h
  rw [Bytes.slice, List.drop_left, List.take_left]

theorem At.number (h : At b pos (le n v ++ rest)) (hv : v < 256 ^ n) : number b pos n = v := by
  have := h.slice
  rw [length_le] at this
  rw [Bytes.number, this, value_le hv]

/-- What is in the buffer is some bytes and those behind them. -/
theorem At.split (h : At b pos rest) (hn : pos + n ≤ b.length) :
    ∃ x more, rest = x ++ more ∧ x.length = n ∧ At b (pos + n) more := by
  have hlen := h.length
  obtain ⟨front, rfl, rfl⟩ := h
  refine ⟨rest.take n, rest.drop n, (List.take_append_drop n rest).symm, ?_, front ++ rest.take n, ?_, ?_⟩
  · rw [List.length_take]
    omega
  · rw [List.append_assoc, List.take_append_drop]
  · rw [List.length_append, List.length_take]
    omega

/-- And a number is the one that is read. -/
theorem At.split_number (h : At b pos rest) (hn : pos + n ≤ b.length) :
    ∃ more, rest = le n (Bytes.number b pos n) ++ more ∧ At b (pos + n) more := by
  obtain ⟨x, more, rfl, rfl, hmore⟩ := h.split hn
  exact ⟨more, by rw [Bytes.number, h.slice, le_value], hmore⟩

end CarbonRuntime.Core.Bytes
