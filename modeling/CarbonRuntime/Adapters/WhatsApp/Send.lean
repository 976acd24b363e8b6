import CarbonRuntime.Adapters.Chunks
import CarbonRuntime.Outside

/-!
# Sending a reply on WhatsApp

`send` of adapters/whatsapp/index.ts:395-444: the chunks go out one after another, each id that the socket
returns is kept, and an error ends the send. What the error means depends on what went out before it.
-/

open CarbonRuntime.Core

namespace CarbonRuntime.Adapters.WhatsApp

/-- What comes of one chunk: a message with this id, which the socket returned or not, or an error with its
status code. -/
inductive Answer
  | accepted (id : String) (returned : Bool := true)
  | refused (code : Option Nat)
deriving DecidableEq

/-- mirrors index.ts:437-444; `other` is `failed`. -/
def outcomeOf (code : Option Nat) (sentSoFar : Nat) : SendStatus :=
  if 0 < sentSoFar then .unknown else if code = some 428 ∨ code = some 440 then .other else .unknown

section
variable (answer : Nat → Answer)

/-- `sendLive` from the `i`-th chunk on, with the ids so far. -/
def sendFrom : List Utf16.Text → Nat → List String → SendOutcome
  | [], _, ids => { status := .sent, chunkIds := ids }
  | _ :: chunks, i, ids =>
    match answer i with
    | .accepted id returned => sendFrom chunks (i + 1) (if returned then ids ++ [id] else ids)
    | .refused code => { status := outcomeOf code i, chunkIds := ids }

def sendLive (chunks : List Utf16.Text) : SendOutcome := sendFrom answer chunks 0 []

/-- The messages that a send leaves on the channel, from the `i`-th chunk on, and whether each id was returned. -/
def acceptedFrom : List Utf16.Text → Nat → List (String × Bool)
  | [], _ => []
  | _ :: chunks, i =>
    match answer i with
    | .accepted id returned => (id, returned) :: acceptedFrom chunks (i + 1)
    | .refused _ => []

def accepted (chunks : List Utf16.Text) : List (String × Bool) := acceptedFrom answer chunks 0

variable {answer}

/-- The ids that come back are those that were returned. -/
theorem sendFrom_ids {chunks : List Utf16.Text} {i : Nat} {ids : List String} :
    (sendFrom answer chunks i ids).chunkIds =
      ids ++ ((acceptedFrom answer chunks i).filter (·.2)).map (·.1) := by
  induction chunks generalizing i ids with
  | nil => simp [sendFrom, acceptedFrom]
  | cons chunk chunks ih =>
    rw [sendFrom, acceptedFrom]
    cases answer i with
    | accepted id returned => cases returned <;> simp [ih]
    | refused code => simp

theorem sendLive_ids (chunks : List Utf16.Text) : (sendLive answer chunks).chunkIds =
    ((accepted answer chunks).filter (·.2)).map (·.1) := by
  rw [sendLive, sendFrom_ids, List.nil_append, accepted]

end

end CarbonRuntime.Adapters.WhatsApp
