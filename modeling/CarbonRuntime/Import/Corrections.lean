import CarbonRuntime.Core.Grouping

/-!
# Where the corrections of a ledger land

The import of a ledger keeps an index from the ledger's message ids to the records they became
(import/carbon-ledger-sqlite.ts:257-270), and a correction is written beside the conversations of the
messages it names (import/ledger-corrections.ts:109-144).

The conversation an item lands in is a parameter (`placeOf`); of a correction what only goes through to the
file is left out.
-/

open CarbonRuntime.Core

namespace CarbonRuntime.Import.Corrections

structure LedgerItem where
  messageId : String
  chatJid : String
deriving DecidableEq

/-- What a ledger id became. -/
structure Found where
  conversationId : String
  messageId : String
deriving DecidableEq

abbrev MessageIndex := String → Option Found

def foundOf (placeOf : LedgerItem → String) (item : LedgerItem) : Found :=
  ⟨placeOf item, placeOf item ++ ":" ++ item.messageId⟩

def messageIndexOf (placeOf : LedgerItem → String) (items : List LedgerItem) : MessageIndex :=
  items.foldl (fun index item ref => if ref = item.messageId then some (foundOf placeOf item) else index ref)
    fun _ => none

structure Correction where
  correctionId : Option String
  kind : String
  at? : Option String
  messageRefs : List String
  actor : Option String := none
  action : Option String := none
  note : Option String := none
  chatKey : Option String := none
deriving DecidableEq

structure PlacedCorrection where
  correction : Correction
  messageIds : List String
deriving DecidableEq

structure Grouped where
  byConversation : List (String × List PlacedCorrection)
  unlinked : List PlacedCorrection

/-- The conversations of the messages it names, or else of the chat it names. -/
def placementsOf (index : MessageIndex) (chatToConversation : Option String → Option String)
    (correction : Correction) : List (String × List String) :=
  let placed := gather (correction.messageRefs.filterMap fun ref =>
    (index ref).map fun found => (found.conversationId, found.messageId))
  if placed ≠ [] then placed
  else
    match chatToConversation correction.chatKey with
    | some named => [(named, [])]
    | none => []

def groupOne (index : MessageIndex) (chatToConversation : Option String → Option String) (grouped : Grouped)
    (correction : Correction) : Grouped :=
  let placed := placementsOf index chatToConversation correction
  if placed = [] then { grouped with unlinked := grouped.unlinked ++ [⟨correction, []⟩] }
  else
    { grouped with
      byConversation := placed.foldl (fun groups p => addAt p.1 ⟨correction, p.2⟩ groups) grouped.byConversation }

def groupCorrections (corrections : List Correction) (index : MessageIndex)
    (chatToConversation : Option String → Option String) : Grouped :=
  corrections.foldl (groupOne index chatToConversation) ⟨[], []⟩

end CarbonRuntime.Import.Corrections
