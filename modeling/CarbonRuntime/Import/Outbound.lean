import CarbonRuntime.Core.Grouping
import CarbonRuntime.Core.Utf16
import CarbonRuntime.Stream.Record
import Mathlib.Data.Rat.Defs

/-!
# Joining what an agent said

`joinOutbound` makes one send of the marks that events, turns and audit rows left of it
(import/outbound-link.ts). The events are the sends to begin with; a turn, and after the turns an audit row,
goes to the nearest send of its conversation that has no mark of its kind, or is a send of its own.
-/

open CarbonRuntime.Core CarbonRuntime.Stream

namespace CarbonRuntime.Import.Outbound

inductive SourceKind
  | event | turn | audit
deriving DecidableEq

/-- What an outbound source is read into, with the conversation it landed in. -/
structure OutboundItem where
  kind : SourceKind
  messageId : String
  conversationId : String
  chatKey : String := ""
  timestamp : Option String
  text : String := ""
  replyTo : Option String := none
  answersRefs : List String := []
  senderJid : Option String := none
  senderName : Option String := none
deriving DecidableEq

structure Link where
  method : String
  deltaMs : Option Nat := none
  toleranceMs : Option Rat := none
  candidates : Option Nat := none
  joinedId : Option String := none
deriving DecidableEq

/-- `Partial<Record<SourceKind, T>>`; no event is ever attached. -/
structure Attached where
  turn : Option OutboundItem := none
  audit : Option OutboundItem := none
deriving DecidableEq

def Attached.get (attached : Attached) : SourceKind → Option OutboundItem
  | .event => none
  | .turn => attached.turn
  | .audit => attached.audit

def Attached.set (attached : Attached) (kind : SourceKind) (item : OutboundItem) : Attached :=
  match kind with
  | .event => attached
  | .turn => { attached with turn := some item }
  | .audit => { attached with audit := some item }

structure Send where
  item : OutboundItem
  attached : Attached := {}
  links : List (SourceKind × Link)
deriving DecidableEq

section
variable (J : Js)

def millisOf (item : OutboundItem) : Option Int := J.parse (item.timestamp.getD "")

/-- Earliest first, and the source's own id breaks a tie. -/
def earlier (one other : OutboundItem) : Bool :=
  let time (item : OutboundItem) : Int := (millisOf J item).getD 0
  if time one = time other then J.localeCompare one.messageId other.messageId == .lt
  else time one < time other

def ordered (items : List OutboundItem) : List OutboundItem := sortBy (earlier J) items

def sendFor (item : OutboundItem) (method : String) : Send :=
  { item, links := [(item.kind, { method })] }

/-- The distance of a send that may take the mark. -/
def deltaOf (send : Send) (item : OutboundItem) (kind : SourceKind) (tolerance : Rat) : Option Nat :=
  match millisOf J item, millisOf J send.item with
  | some time, some theirs =>
    let delta := (theirs - time).natAbs
    if send.item.conversationId ≠ item.conversationId ∨ send.item.kind = kind ∨
      (send.attached.get kind).isSome ∨ tolerance < delta then none
    else some delta
  | _, _ => none

structure Best where
  index : Nat
  send : Send
  delta : Nat

/-- Strictly nearer, or as near and of a smaller id. -/
def beats (send : Send) (delta : Nat) (best : Option Best) : Bool :=
  match best with
  | none => true
  | some best => delta < best.delta ∨ (delta = best.delta ∧
      Utf16.ofString send.item.messageId < Utf16.ofString best.send.item.messageId)

/-- The loop over the sends from this position on: the best so far, and how many might do. -/
def nearestFrom (item : OutboundItem) (kind : SourceKind) (tolerance : Rat) :
    Nat → List Send → Option Best × Nat → Option Best × Nat
  | _, [], found => found
  | index, send :: pool, (best, candidates) =>
    match deltaOf J send item kind tolerance with
    | none => nearestFrom item kind tolerance (index + 1) pool (best, candidates)
    | some delta =>
      nearestFrom item kind tolerance (index + 1) pool
        (if beats send delta best then some ⟨index, send, delta⟩ else best, candidates + 1)

def nearestSend (pool : List Send) (item : OutboundItem) (kind : SourceKind) (tolerance : Rat) :
    Option (Best × Nat) :=
  match nearestFrom J item kind tolerance 0 pool (none, 0) with
  | (none, _) => none
  | (some best, candidates) => some (best, candidates)

structure KindCounts where
  seen : Nat := 0
  joined : Nat := 0
  alone : Nat := 0
deriving DecidableEq

structure Joining where
  pool : List Send
  turn : KindCounts := {}
  audit : KindCounts := {}
deriving DecidableEq

def attach (send : Send) (kind : SourceKind) (item : OutboundItem) (link : Link) : Send :=
  { send with attached := send.attached.set kind item, links := send.links ++ [(kind, link)] }

/-- One turn or audit row, and its counts. -/
def placeOne (kind : SourceKind) (tolerance : Rat) (pool : List Send) (counts : KindCounts) (item : OutboundItem) :
    List Send × KindCounts :=
  match nearestSend J pool item kind tolerance with
  | none =>
    (pool ++ [sendFor item "none: no send was recorded elsewhere in this conversation inside the tolerance"],
      { counts with seen := counts.seen + 1, alone := counts.alone + 1 })
  | some (best, candidates) =>
    (pool.set best.index (attach best.send kind item
        { method := "conversation and time", deltaMs := some best.delta, toleranceMs := some tolerance
          candidates := some candidates, joinedId := some item.messageId }),
      { counts with seen := counts.seen + 1, joined := counts.joined + 1 })

/-- All items of a kind. -/
def placeAll (kind : SourceKind) (tolerance : Rat) (items : List OutboundItem) (pool : List Send) :
    List Send × KindCounts :=
  items.foldl (fun r item => placeOne J kind tolerance r.1 r.2 item) (pool, {})

def ofKind (kind : SourceKind) (items : List OutboundItem) : List OutboundItem := items.filter (·.kind = kind)

def joinOutbound (items : List OutboundItem) (tolerance : Rat) : Joining :=
  let events := (ordered J (ofKind .event items)).map
    (sendFor · "the platform message id the capture carries")
  let turns := placeAll J .turn tolerance (ordered J (ofKind .turn items)) events
  let audits := placeAll J .audit tolerance (ordered J (ofKind .audit items)) turns.1
  ⟨audits.1, turns.2, audits.2⟩

end

end CarbonRuntime.Import.Outbound
