import Mathlib.Data.List.Forall2
import Mathlib.Data.Rat.Defs

/-!
# JSON as a program holds it

What `JSON.parse` answers, over a type of strings: an object is its own fields, in the order a loop
over them takes, and a number is a rational. `undefined` is not among the values; a field that is not
there reads as `none`.
-/
namespace CarbonRuntime.Core

inductive Value (S : Type)
  | null
  | bool (b : Bool)
  | number (n : Rat)
  | string (s : S)
  | array (items : List (Value S))
  | object (fields : List (S × Value S))

namespace Value

variable {S : Type} [DecidableEq S]

/-- The field of a name, of these. -/
def own (name : S) (fields : List (S × Value S)) : Option (Value S) :=
  (fields.find? (·.1 = name)).map (·.2)

/-- `value.name`, where it is its own. -/
def field (name : S) : Value S → Option (Value S)
  | .object fields => own name fields
  | _ => none

/-- `Object.hasOwn(value, name)` -/
def hasOwn (name : S) (v : Value S) : Bool := (v.field name).isSome

end Value

/-- A loop in which every element has something goes through. -/
theorem exists_mapM {α β : Type} {f : α → Option β} {l : List α} (h : ∀ a ∈ l, ∃ b, f a = some b) :
    ∃ bs, l.mapM f = some bs ∧ List.Forall₂ (fun a b => f a = some b) l bs := by
  induction l with
  | nil => exact ⟨[], rfl, .nil⟩
  | cons a l ih =>
    obtain ⟨b, hb⟩ := h a List.mem_cons_self
    obtain ⟨bs, hbs, hall⟩ := ih fun a ha => h a (List.mem_cons_of_mem _ ha)
    exact ⟨b :: bs, by rw [List.mapM_cons, hb, hbs]; rfl, .cons hb hall⟩

end CarbonRuntime.Core
