import CarbonRuntime.Core.Torn
import CarbonRuntime.Harness.ToolServer
import CarbonRuntime.Core.Json

/-!
# A request cut inside a code point

`serveHttp` appends each chunk of a request to a text, `body += chunk` (tools/lib/mcp.ts:236-238), so each is
decoded on its own. TCP cuts where it likes, and the bytes of a code point on both sides of a cut come out
as replacement characters: in a string of the request the tool receives other text, without a fault.

The message dispatched is that of the whole body, and a body is refused where that is no JSON, exactly where
no cut is inside a sequence and the body is not too long (`served_iff`).

Counterexample: the request `"é"`, cut inside the `é`.
-/

open CarbonRuntime.Core Utf16

namespace CarbonRuntime.Bugs.TornRequest

open Harness.ToolServer

variable {Message : Type} {parse : Text → Option Message} {chunks : List (List Nat)} {body : Body}

/-- The text of the whole body. -/
def whole (chunks : List (List Nat)) : Text := ofChars (Utf8.decode chunks.flatten)

/-- What is dispatched is the parse of the whole body, and it is refused as unparsable where that fails. -/
def Served (parse : Text → Option Message) (chunks : List (List Nat)) : Prop :=
  (∀ message, serve parse chunks = .dispatched message → parse (whole chunks) = some message) ∧
    (serve parse chunks = .unparsable ↔ parse (whole chunks) = none)

/-- The body after some chunks: their texts, and whether they are too long. -/
theorem foldl_data (h : body.tooBig = decide (body.text.length > maxLength)) :
    chunks.foldl Body.data body = ⟨body.text ++ ofChars (Utf8.inChunks chunks),
      decide ((body.text ++ ofChars (Utf8.inChunks chunks)).length > maxLength)⟩ := by
  induction chunks generalizing body with
  | nil =>
    obtain ⟨text, tooBig⟩ := body
    simpa [Utf8.inChunks] using h
  | cons chunk chunks ih =>
    have hdata : (body.data chunk).tooBig = decide ((body.data chunk).text.length > maxLength) := by
      simp only [Body.data, h, List.length_append, ← Bool.decide_or]
      exact decide_eq_decide.2 (by omega)
    rw [List.foldl_cons, ih hdata]
    simp [Body.data, Utf8.inChunks]

/-- What is served is the text of the chunks, each on its own. -/
theorem serve_eq : serve parse chunks =
    if maxLength < (ofChars (Utf8.inChunks chunks)).length then .destroyed
    else .of (parse (ofChars (Utf8.inChunks chunks))) := by
  unfold serve
  rw [foldl_data rfl]
  simp only [List.nil_append, decide_eq_true_eq, gt_iff_lt]

/-- Every request of this body is served as the whole body, whatever reads JSON, exactly where no cut tears a
sequence and the body is not too long. -/
theorem served_iff (chunks : List (List Nat)) :
    (∀ (Message : Type) (parse : Text → Option Message), Served parse chunks) ↔
      ¬Utf8.Torn chunks ∧ (whole chunks).length ≤ maxLength := by
  constructor
  · intro h
    have hshort : ¬maxLength < (ofChars (Utf8.inChunks chunks)).length := fun hlong => by
      have hrefused := (h Unit fun _ => none).2.2 rfl
      rw [serve_eq, if_pos hlong] at hrefused
      cases hrefused
    have hwhole : ofChars (Utf8.inChunks chunks) = whole chunks := by
      by_contra hne
      have hrefused := (h Unit fun t => if t = whole chunks then some () else none).2.1
      rw [serve_eq, if_neg hshort, if_neg hne] at hrefused
      simpa using hrefused rfl
    exact ⟨Utf8.inChunks_iff.1 (ofChars_inj hwhole), hwhole ▸ Nat.not_lt.1 hshort⟩
  · rintro ⟨hcut, hshort⟩ Message parse
    have hwhole : ofChars (Utf8.inChunks chunks) = whole chunks :=
      congrArg ofChars (Utf8.inChunks_iff.2 hcut)
    rw [Served, serve_eq, hwhole, if_neg (Nat.not_lt.2 hshort)]
    cases parse (whole chunks) with
    | none => simp [Outcome.of]
    | some message => simp [Outcome.of]

/-- The request `"é"`, cut inside the `é`, is a string of two replacement characters. -/
theorem request_torn : ∃ chunks read, serve Json.parse chunks = .dispatched (.string read) ∧
    Json.Literal.text read = [0xfffd, 0xfffd] ∧
      ∃ sent, Json.parse (whole chunks) = some (.string sent) ∧ Json.Literal.text sent = ofString "é" := by
  refine ⟨[[0x22, 0xc3], [0xa9, 0x22]], [⟨[0xfffd], 0xfffd⟩, ⟨[0xfffd], 0xfffd⟩], ?_, rfl,
    [⟨[0xe9], 0xe9⟩], ?_, rfl⟩
  · rfl
  · rfl

end CarbonRuntime.Bugs.TornRequest
