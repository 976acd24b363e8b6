import Mathlib.Data.List.Basic

/-!
# Sparse updates of a value

A value is nothing, a leaf, or a plain object, whose fields are the writes to it, a later one in
front of an earlier one of the same key. `mergeSparse` puts an update over a value: what the update
lacks is unknown and not gone.

**Results.** At any depth, where an update has an object that lacks a field the value keeps what it
knows there (`mergeSparse_keeps`).
-/
namespace CarbonRuntime.Core.Sparse

inductive Value
  | undefined
  | null
  | leaf (text : String)
  | plain (fields : List (String × Value))

namespace Value

/-- `fields[key]` -/
def field (fields : List (String × Value)) (key : String) : Value :=
  (fields.lookup key).getD .undefined

/-- Neither `null` nor `undefined`. -/
def known : Value → Bool
  | .undefined => false
  | .null => false
  | .leaf _ => true
  | .plain _ => true

/-- What stands at a path of keys. -/
def at? : List String → Value → Value
  | [], v => v
  | key :: path, .plain fields => at? path (field fields key)
  | _ :: _, _ => .undefined

end Value

open Value

mutual

/-- The update over the value. -/
def mergeSparse : Value → Value → Value
  | previous, .undefined => previous
  | previous, .null => previous
  | _, .leaf text => .leaf text
  | .plain fields, .plain updates => .plain (mergeFields fields updates ++ fields)
  | _, .plain updates => .plain updates

/-- The fields of the update, each over what the value has there. -/
def mergeFields (fields : List (String × Value)) : List (String × Value) → List (String × Value)
  | [] => []
  | (key, update) :: updates =>
    (key, mergeSparse (field fields key) update) :: mergeFields fields updates

end

variable {previous update : Value} {fields updates : List (String × Value)} {key : String}
  {path : List String}

theorem mergeSparse_unknown (h : update.known = false) : mergeSparse previous update = previous := by
  cases update with
  | undefined => rw [mergeSparse]
  | null => rw [mergeSparse]
  | leaf text => cases h
  | plain fields => cases h

theorem lookup_mergeFields : (mergeFields fields updates).lookup key =
    (updates.lookup key).map (mergeSparse (field fields key)) := by
  induction updates with
  | nil => rfl
  | cons u updates ih =>
    obtain ⟨k, v⟩ := u
    rw [mergeFields, List.lookup_cons, List.lookup_cons]
    by_cases hk : (key == k) = true
    · obtain rfl : key = k := by simpa using hk
      simp
    · simp [hk, ih]

/-- A field of the merged object is the update's over the value's. -/
theorem field_merged : field (mergeFields fields updates ++ fields) key =
    mergeSparse (field fields key) (field updates key) := by
  rw [field, List.lookup_append, lookup_mergeFields]
  cases hu : updates.lookup key with
  | none =>
    rw [show field updates key = .undefined by rw [field, hu]; rfl, mergeSparse]
    rfl
  | some v =>
    rw [show field updates key = v by rw [field, hu]; rfl]
    rfl

theorem at?_cons_known (h : (Value.at? (key :: path) previous).known = true) :
    ∃ fields, previous = .plain fields ∧ (Value.at? path (field fields key)).known = true := by
  cases previous with
  | plain fields => exact ⟨fields, rfl, h⟩
  | _ => cases h

/-- What an object of the update lacks stays known as it was, at any depth. -/
theorem mergeSparse_keeps (hu : Value.at? path update = .plain updates)
    (hk : (field updates key).known = false)
    (hp : (Value.at? (path ++ [key]) previous).known = true) :
    Value.at? (path ++ [key]) (mergeSparse previous update) = Value.at? (path ++ [key]) previous := by
  induction path generalizing previous update with
  | nil =>
    obtain ⟨fields, rfl, -⟩ := at?_cons_known hp
    obtain rfl : update = .plain updates := hu
    rw [mergeSparse]
    simp only [List.nil_append, Value.at?]
    rw [field_merged, mergeSparse_unknown hk]
  | cons k path ih =>
    obtain ⟨fields, rfl, hp'⟩ := at?_cons_known hp
    cases update with
    | plain us =>
      rw [mergeSparse]
      simp only [List.cons_append, Value.at?]
      rw [field_merged]
      exact ih hu hp'
    | _ => cases hu

end CarbonRuntime.Core.Sparse
