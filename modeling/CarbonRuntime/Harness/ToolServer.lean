import CarbonRuntime.Core.Utf16
import CarbonRuntime.Core.Utf8

/-!
# The body of a tool request

A tool server takes one JSON-RPC message from each POST (tools/lib/mcp.ts:206-252): the chunks that come are
appended to a text, and at the end the text is parsed. A body of more than four MiB is given up.

`JSON.parse` is a parameter. What precedes the body (host, origin, path and method) and what the handler
answers are left out.
-/

open CarbonRuntime.Core Utf16

namespace CarbonRuntime.Harness.ToolServer

inductive Outcome (Message : Type)
  /-- `request.destroy()` -/
  | destroyed
  /-- 400, the body is not JSON. -/
  | unparsable
  | dispatched (message : Message)
deriving DecidableEq

structure Body where
  text : Text
  tooBig : Bool
deriving DecidableEq

def maxLength : Nat := 4 * 1024 * 1024

/-- `request.on('data')`; a chunk of bytes comes into the text by its own `toString()`. -/
def Body.data (body : Body) (chunk : List Nat) : Body :=
  let text := body.text ++ ofChars (Utf8.decode chunk)
  ⟨text, body.tooBig || text.length > maxLength⟩

/-- What becomes of a parse. -/
def Outcome.of {Message : Type} : Option Message → Outcome Message
  | none => .unparsable
  | some message => .dispatched message

/-- `request.on('end')` after these chunks. -/
def serve {Message : Type} (parse : Text → Option Message) (chunks : List (List Nat)) : Outcome Message :=
  let body := chunks.foldl Body.data ⟨[], false⟩
  if body.tooBig then .destroyed else .of (parse body.text)

end CarbonRuntime.Harness.ToolServer
