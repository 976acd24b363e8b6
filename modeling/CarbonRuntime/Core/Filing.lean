import Mathlib.Data.List.Infix

/-!
# Filing items under keys that depend on what is filed

A shelf holds values under keys, and what is filed under a key stays. A batch of items is read
off the shelf as it was before the batch, each under the key it is read as or not at all, and
then filed in order. Where no item is read differently once earlier ones of its list are filed
(`Steady`), it makes no difference how the list is cut into batches (`batches_eq`).
-/
namespace CarbonRuntime.Core.Filing

abbrev Shelf (κ ν : Type) := List (κ × ν)

variable {κ ν α : Type} [DecidableEq κ]

def keys (S : Shelf κ ν) : List κ := S.map (·.1)

def put (S : Shelf κ ν) (i : κ) (v : ν) : Shelf κ ν := if i ∈ keys S then S else S ++ [(i, v)]

/-- How items are read: the key off a shelf, and the value. -/
structure Reader (κ ν α : Type) where
  key : Shelf κ ν → α → Option κ
  val : α → ν

variable (R : Reader κ ν α)

/-- `x`, read off `S`, is filed on `T`. -/
def file (S T : Shelf κ ν) (x : α) : Shelf κ ν :=
  match R.key S x with
  | none => T
  | some i => put T i (R.val x)

def fileAll (S : Shelf κ ν) (items : List α) (T : Shelf κ ν) : Shelf κ ν :=
  items.foldl (file R S) T

def batch (S : Shelf κ ν) (items : List α) : Shelf κ ν := fileAll R S items S

def batches (S : Shelf κ ν) (cut : List (List α)) : Shelf κ ν := cut.foldl (batch R) S

variable {R} {S S' T : Shelf κ ν}

/-! ## What is filed -/

theorem mem_keys_put {i j : κ} {v : ν} : j ∈ keys (put S i v) ↔ j = i ∨ j ∈ keys S := by
  unfold put
  split
  · constructor
    · exact .inr
    · rintro (rfl | h)
      · assumption
      · exact h
  · simp [keys, or_comm]

theorem mem_keys_file {i : κ} {x : α} :
    i ∈ keys (file R S T x) ↔ R.key S x = some i ∨ i ∈ keys T := by
  unfold file
  cases h : R.key S x with
  | none => simp
  | some j => simp [mem_keys_put, eq_comm]

theorem mem_keys_fileAll {i : κ} {items : List α} :
    i ∈ keys (fileAll R S items T) ↔ (∃ x ∈ items, R.key S x = some i) ∨ i ∈ keys T := by
  induction items generalizing T with
  | nil => simp [fileAll]
  | cons x items ih =>
    rw [fileAll, List.foldl_cons, ← fileAll, ih, mem_keys_file]
    simp only [List.mem_cons, exists_eq_or_imp]
    rw [← or_assoc, or_comm (b := R.key S x = some i)]

theorem fileAll_append (l m : List α) :
    fileAll R S (l ++ m) T = fileAll R S m (fileAll R S l T) := List.foldl_append

theorem fileAll_congr {items : List α} (h : ∀ x ∈ items, R.key S x = R.key S' x) :
    fileAll R S items T = fileAll R S' items T := by
  induction items generalizing T with
  | nil => rfl
  | cons x items ih =>
    have hx : file R S T x = file R S' T x := by rw [file, file, h x List.mem_cons_self]
    rw [fileAll, List.foldl_cons, hx]
    exact ih fun y hy => h y (List.mem_cons_of_mem _ hy)

/-- A shelf keeps its keys. -/
theorem mem_keys_batches {i : κ} (h : i ∈ keys S) (cut : List (List α)) :
    i ∈ keys (batches R S cut) := by
  induction cut generalizing S with
  | nil => exact h
  | cons piece cut ih => exact ih (mem_keys_fileAll.2 (.inr h))

/-! ## Cutting a list into batches -/

/-- Each item of the list is read as it would be at first, however many of those before it are
filed. -/
def Steady (R : Reader κ ν α) (S : Shelf κ ν) (items : List α) : Prop :=
  ∀ l x m, items = l ++ x :: m → ∀ done, done <+: l → R.key (fileAll R S done S) x = R.key S x

theorem Steady.batches {items : List α} (h : Steady R S items) (cut : List (List α)) :
    ∀ done, done ++ cut.flatten = items →
      batches R (fileAll R S done S) cut = fileAll R S items S := by
  induction cut with
  | nil =>
    intro done hd
    rw [← hd, List.flatten_nil, List.append_nil]
    rfl
  | cons piece cut ih =>
    intro done hd
    have hpiece : batch R (fileAll R S done S) piece = fileAll R S (done ++ piece) S := by
      rw [batch, fileAll_append]
      refine fileAll_congr fun x hx => ?_
      obtain ⟨a, b, rfl⟩ := List.append_of_mem hx
      refine h (done ++ a) x (b ++ cut.flatten) ?_ done (List.prefix_append done a)
      rw [← hd]
      simp
    rw [Filing.batches, List.foldl_cons, hpiece]
    exact ih (done ++ piece) (by rw [← hd]; simp)

theorem batches_eq {cut : List (List α)} (h : Steady R S cut.flatten) :
    batches R S cut = batch R S cut.flatten := h.batches cut [] rfl

/-- A prefix of the list is as steady. -/
theorem Steady.init {items more : List α} (h : Steady R S (items ++ more)) : Steady R S items :=
  fun l x m he => h l x (m ++ more) (by rw [he]; simp)

end CarbonRuntime.Core.Filing
