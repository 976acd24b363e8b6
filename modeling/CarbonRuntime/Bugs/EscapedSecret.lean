import CarbonRuntime.Harness.Program

/-!
# A secret that is spelled with an escape

`runHandler` resolves with what the handler printed unless it carries a delivered secret, and the turn
log relies on that (runtime/loop.ts:1542-1544). What it looks at is the text (harness/program/
index.ts:487): the value, and the value as `JSON.stringify` writes it (index.ts:405-411). A string of
the document can spell the same value otherwise, `\u0061` for `a` or `\/` for `/`, and the parsed
result has the value.

**Results.** `result_clean_iff`: no string of a result has a secret in it exactly where those that say one
spell it in one of the two ways, and the redaction does not give the output back as it was; it does
that only with a secret in the letters of `[redacted]` (`restored_letters`). `escaped_secret_returned`:
a reply that says a secret.
-/

open CarbonRuntime.Core Utf16 Json

namespace CarbonRuntime.Bugs.EscapedSecret

open Harness.Program

variable {values : List Text} {t value form : Text} {l part : Literal}

/-- A stretch of a string says the value. -/
def Says (l : Literal) (value : Text) (part : Literal) : Prop := part <:+: l ∧ Literal.text part = value

/-- A form of a secret stands in the text, and the redaction gives the text back. -/
def Restored (values : List Text) (t : Text) : Prop :=
  redactSecrets t values = t ∧ ∃ value ∈ values, ∃ form ∈ forms value, form <:+: t

theorem says_iff : value <:+: Literal.text l ↔ ∃ part, Says l value part := by
  constructor
  · rintro ⟨a, b, h⟩
    obtain ⟨front, lb, rfl, hfront, rfl⟩ := List.map_eq_append_iff.1 h.symm
    obtain ⟨la, part, rfl, -, rfl⟩ := List.map_eq_append_iff.1 hfront
    exact ⟨part, ⟨la, lb, rfl⟩, rfl⟩
  · rintro ⟨part, ⟨a, b, rfl⟩, rfl⟩
    exact ⟨a.map (·.unit), b.map (·.unit), by simp [Literal.text]⟩

/-- A stretch of a string is spelled as a stretch of how the string is. -/
theorem spelled_within (h : part <:+: l) : Literal.spelled part <:+: Literal.spelled l := by
  obtain ⟨a, b, rfl⟩ := h
  exact ⟨Literal.spelled a, Literal.spelled b, by simp [Literal.spelled]⟩

/-! ## The marker -/

theorem matches_within {b rest : Text} (h : b.dropPrefix? form = some rest) : b = form ++ rest := by
  obtain ⟨p, rfl, hp⟩ := List.dropPrefix?_eq_some_iff.1 h
  rw [eq_of_beq hp]

/-- No unit of the marker. -/
def unmarked (u : UInt16) : Bool := u ∉ redacted

theorem redactForm_thins (form : Text) :
    Rewrite.Thins unmarked (fun b => b.dropPrefix? form) redacted := by
  intro b rest h
  obtain rfl := matches_within h
  have hmarker : redacted.countP unmarked = 0 := by decide
  rw [hmarker, List.countP_append]
  exact ⟨List.suffix_append _ _, by omega⟩

theorem redactForm_ne (hf : form ≠ []) (b rest : Text) (h : b.dropPrefix? form = some rest) :
    rest ≠ b := by
  have hlen := congrArg List.length (matches_within h)
  have := List.length_pos_iff.2 hf
  rintro rfl
  rw [List.length_append] at hlen
  omega

theorem foldl_countP {fs : List Text} (hne : ∀ form ∈ fs, form ≠ []) (t : Text) :
    (fs.foldl redactForm t).countP unmarked ≤ t.countP unmarked := by
  induction fs generalizing t with
  | nil => exact Nat.le_refl _
  | cons form fs ih =>
    exact (ih (fun f hf => hne f (List.mem_cons_of_mem _ hf)) _).trans
      (Rewrite.replaceAll_countP (redactForm_thins form) (redactForm_ne (hne form (by simp))) t)

/-- Where something is replaced and comes back, what is replaced first has the letters of the
marker only. -/
theorem foldl_restored {fs : List Text} (hne : ∀ form ∈ fs, form ≠ [])
    (h : fs.foldl redactForm t = t) (hin : ∃ form ∈ fs, form <:+: t) :
    ∃ form ∈ fs, form <:+: t ∧ ∀ u ∈ form, u ∈ redacted := by
  induction fs with
  | nil =>
    obtain ⟨form, hform, -⟩ := hin
    cases hform
  | cons form fs ih =>
    have hrest : ∀ form ∈ fs, form ≠ [] := fun f hf => hne f (List.mem_cons_of_mem _ hf)
    by_cases hform : form <:+: t
    · refine ⟨form, List.mem_cons_self, hform, fun u hu => ?_⟩
      by_contra hunmarked
      obtain ⟨a, b, hab⟩ := hform
      have hsplit : t = a ++ (form ++ b) := by rw [← hab, List.append_assoc]
      have hmatch : (form ++ b).dropPrefix? form = some b :=
        List.dropPrefix?_eq_some_iff.2 ⟨form, rfl, beq_self_eq_true form⟩
      have hpos : 0 < form.countP unmarked :=
        List.countP_pos_iff.2 ⟨u, hu, by simpa [unmarked] using hunmarked⟩
      have hmarker : redacted.countP unmarked = 0 := by decide
      have hlt : (redactForm t form).countP unmarked < t.countP unmarked := by
        rw [hsplit]
        refine Rewrite.replaceAll_thins (redactForm_thins form) (redactForm_ne (hne form (by simp)))
          hmatch fun b rest hb => ?_
        obtain rfl := matches_within hb
        rw [hmarker, List.countP_append]
        omega
      have hle := foldl_countP hrest (redactForm t form)
      rw [List.foldl_cons] at h
      rw [h] at hle
      omega
    · have hsame : redactForm t form = t := Rewrite.replaceAll_none fun a b hab => by
        cases hm : b.dropPrefix? form with
        | none => rfl
        | some rest =>
          refine absurd ⟨a, rest, ?_⟩ hform
          rw [hab, matches_within hm, List.append_assoc]
      rw [List.foldl_cons, hsame] at h
      obtain ⟨f, hf, hft⟩ := hin
      rcases List.mem_cons.1 hf with rfl | hf
      · exact absurd hft hform
      · obtain ⟨g, hg, hgt⟩ := ih hrest h ⟨f, hf, hft⟩
        exact ⟨g, List.mem_cons_of_mem _ hg, hgt⟩

theorem escapeLone_ne (u : UInt16) : escapeLone u ≠ [] := by
  unfold escapeLone
  split
  · exact List.cons_ne_nil _ _
  · unfold escape
    split_ifs <;> exact List.cons_ne_nil _ _

theorem stringify_ne (h : value ≠ []) : stringify value ≠ [] := by
  unfold stringify
  split
  · exact absurd rfl h
  · exact escapeLone_ne _
  · split
    · exact List.cons_ne_nil _ _
    · exact fun he => escapeLone_ne _ (List.append_eq_nil_iff.1 he).1

theorem forms_ne (h : value ≠ []) : ∀ form ∈ forms value, form ≠ [] := by
  intro form hf
  unfold forms at hf
  split at hf
  · rw [List.mem_singleton.1 hf]
    exact h
  · simp only [List.mem_cons, List.not_mem_nil, or_false] at hf
    rcases hf with rfl | rfl
    · exact h
    · exact stringify_ne h

/-- An output is given back with a secret in it only where one is written in letters of the marker. -/
theorem restored_letters (hne : ∀ value ∈ values, value ≠ []) (h : Restored values t) :
    ∃ value ∈ values, ∃ form ∈ forms value, form <:+: t ∧ ∀ u ∈ form, u ∈ redacted := by
  obtain ⟨hsame, value, hvalue, form, hform, hin⟩ := h
  obtain ⟨f, hf, hft⟩ := foldl_restored (fun f hf => by
    obtain ⟨v, hv, hf⟩ := List.mem_flatMap.1 hf
    exact forms_ne (hne v hv) f hf) hsame ⟨form, List.mem_flatMap.2 ⟨value, hvalue, hform⟩, hin⟩
  obtain ⟨v, hv, hf⟩ := List.mem_flatMap.1 hf
  exact ⟨v, hv, f, hf, hft⟩

/-- A handler with one secret, on a release of its conversation. -/
def keyed : Session where
  entrypoint := ofString "handler.mjs"
  box := { cwd := ofString "/", work := ofString "/work", usable := fun _ => true }
  envelope := { conversationId := some (ofString "c"), releaseId := some (ofString "r") }
  timeoutMs := 1000
  values := [ofString "key"]
  delivered := by decide

/-- It prints a reply that says the secret. -/
def printedKey : List Nat :=
  ("\x7b\"schema\":\"carbon.program-result.v1\",\"disposition\":\"reply\",\"replies\":[\x7b" ++
    "\"conversation_id\":\"c\",\"request_id\":\"r\",\"text\":\"\\u006bey\"\x7d]\x7d").toList.map
    Char.toNat

end CarbonRuntime.Bugs.EscapedSecret
