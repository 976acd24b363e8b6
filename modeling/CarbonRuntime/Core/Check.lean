import Mathlib.Data.List.Basic

/-!
# Checks before a write

A call that checks its arguments and its state and then writes: a chain of `check`s and of
lookups that may be refused, in `Except`. `ok_bind` and `ok_check` read off a call that went
through what each link of the chain found, `ok_mapM` off a loop of such calls.
-/
namespace CarbonRuntime.Core

variable {ε α β : Type}

/-- Refused unless the check holds. -/
def check (holds : Bool) (fault : ε) : Except ε Unit := if holds then .ok () else .error fault

/-- The value, refused where there is none. -/
def present (value : Option α) (fault : ε) : Except ε α :=
  match value with
  | none => .error fault
  | some a => .ok a

theorem ok_bind {m : Except ε α} {f : α → Except ε β} {b : β} :
    m >>= f = .ok b ↔ ∃ a, m = .ok a ∧ f a = .ok b := by
  cases m with
  | error e => simp [bind, Except.bind]
  | ok a => simp [bind, Except.bind]

@[simp] theorem ok_check {holds : Bool} {fault : ε} {u : Unit} :
    check holds fault = .ok u ↔ holds = true := by
  cases holds <;> simp [check]

theorem ok_check_bind {holds : Bool} {fault : ε} {f : Unit → Except ε β} {b : β} :
    check holds fault >>= f = .ok b ↔ holds = true ∧ f () = .ok b := by
  rw [ok_bind]
  constructor
  · rintro ⟨_, hc, hf⟩
    exact ⟨ok_check.1 hc, hf⟩
  · rintro ⟨hc, hf⟩
    exact ⟨(), ok_check.2 hc, hf⟩

@[simp] theorem ok_present {value : Option α} {fault : ε} {a : α} :
    present value fault = .ok a ↔ value = some a := by
  cases value <;> simp [present]

/-- A loop that went through found something for every element. -/
theorem ok_mapM {f : α → Except ε β} : ∀ {l : List α} {bs : List β}, l.mapM f = .ok bs →
    (∀ a ∈ l, ∃ b ∈ bs, f a = .ok b) ∧ ∀ b ∈ bs, ∃ a ∈ l, f a = .ok b
  | [], bs, h => by
    rw [List.mapM_nil] at h
    cases h
    simp
  | a :: l, bs, h => by
    rw [List.mapM_cons, ok_bind] at h
    obtain ⟨b, hb, h⟩ := h
    obtain ⟨bs', hbs, h⟩ := ok_bind.1 h
    cases h
    obtain ⟨hl, hr⟩ := ok_mapM hbs
    constructor
    · intro a' ha'
      rcases List.mem_cons.1 ha' with rfl | ha'
      · exact ⟨b, List.mem_cons_self, hb⟩
      · obtain ⟨b', hb', hf⟩ := hl a' ha'
        exact ⟨b', List.mem_cons_of_mem _ hb', hf⟩
    · intro b' hb'
      rcases List.mem_cons.1 hb' with rfl | hb'
      · exact ⟨a, List.mem_cons_self, hb⟩
      · obtain ⟨a', ha', hf⟩ := hr b' hb'
        exact ⟨a', List.mem_cons_of_mem _ ha', hf⟩

/-- A call that is not refused. -/
def Goes (m : Except ε α) : Prop := ∃ a, m = .ok a

@[simp] theorem goes_ok {a : α} : Goes (.ok a : Except ε α) := ⟨a, rfl⟩

@[simp] theorem goes_pure {a : α} : Goes (pure a : Except ε α) := ⟨a, rfl⟩

@[simp] theorem goes_error {e : ε} : ¬ Goes (.error e : Except ε α) := by
  rintro ⟨a, h⟩
  cases h

/-- Where whether the rest goes does not turn on what came before. -/
theorem goes_bind {m : Except ε α} {f : α → Except ε β} {rest : Prop} (h : ∀ a, Goes (f a) ↔ rest) :
    Goes (m >>= f) ↔ Goes m ∧ rest := by
  constructor
  · rintro ⟨b, hb⟩
    obtain ⟨a, ha, hf⟩ := ok_bind.1 hb
    exact ⟨⟨a, ha⟩, (h a).1 ⟨b, hf⟩⟩
  · rintro ⟨⟨a, ha⟩, hrest⟩
    obtain ⟨b, hb⟩ := (h a).2 hrest
    exact ⟨b, ok_bind.2 ⟨a, ha, hb⟩⟩

theorem goes_bind_pure {m : Except ε α} {f : α → β} : Goes (m >>= fun a => pure (f a)) ↔ Goes m := by
  exact (goes_bind fun a => iff_true_intro goes_pure).trans (by rw [and_true])

end CarbonRuntime.Core
