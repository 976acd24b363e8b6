import CarbonRuntime.Stream.Capture

/-!
# Importing history

The three importers build a record each in their own words and write it alike
(import/carbon-capture-whatsapp.ts:103-184, import/carbon-ledger-sqlite.ts:168-246,
import/carbon-ledger-outbound.ts:155-221): the attachments first, the raw payload only where
the record is not there yet, and the disposition as a step of its own.
-/

open CarbonRuntime.Core CarbonRuntime.Stream

namespace CarbonRuntime.Import

open Store

inductive Source
  | capture | ledgerSqlite | ledgerOutbound
deriving DecidableEq

/-- `SOURCE` -/
def Source.text : Source → String
  | .capture => "import:carbon-capture"
  | .ledgerSqlite => "import:ledger-sqlite"
  | .ledgerOutbound => "import:ledger-outbound"

/-- What an importer reads off one row, and what it is refused for. -/
structure Entry where
  source : Source
  agent : String
  account : String
  conversationId : String
  conversationKind : String
  platformMessageId : String
  direction : Direction
  role : Role
  senderId : String
  senderName : Option String := none
  receivedAt : String
  body : String
  replyTo : Option String := none
  adapterFields : AdapterFields := {}
  attachments : List Attachment := []
  /-- Bytes of attachments come with it. -/
  bytes : Bool := false
  typeFaults : List Fault := []
  raw : String

/-- The record of a row. -/
def Entry.record (e : Entry) : MessageRecord :=
  { agent := e.agent, source := e.source.text, account := e.account
    conversationId := e.conversationId, conversationKind := e.conversationKind
    messageId := e.conversationId ++ ":" ++ e.platformMessageId
    platformMessageId := e.platformMessageId, revision := 0, direction := e.direction
    role := e.role, senderId := e.senderId, senderName := e.senderName
    receivedAt := e.receivedAt
    sentAt := if e.receivedAt = "" then none else some e.receivedAt
    body := e.body, attachments := e.attachments, historical := true, disposition := .captured
    adapterFields := e.adapterFields, replyTo := e.replyTo }

variable (L : Loop)

/-- mirrors `alreadyCaptured`, carbon-capture-whatsapp.ts:186-193 -/
def alreadyCaptured (i : Identity) : Program L Bool :=
  Prog.handle (𝔖 := sig L) (do
    let onDisk ← read L i
    pure onDisk.isSome) fun _ => pure false

/-- One round of `writeBatch`. -/
def writeEntry (e : Entry) : Program L MessageRecord := do
  if e.bytes then refuse L (pathFaults L.js e.record.id)
  let already ← alreadyCaptured L e.record.id
  capture L e.record none e.typeFaults (some e.record.disposition)
    (if already then none else some e.raw)

/-- mirrors carbon-capture-whatsapp.ts:159-184 -/
def writeBatch (entries : List Entry) : Program L Unit :=
  Prog.each (𝔖 := sig L) (fun e => do
    let _ ← writeEntry L e
    pure ()) entries

/-! ## What the steps of a write leave -/

variable {L} {s : World}

theorem wp_alreadyCaptured (i : Identity) {X : Err → World → Prop} :
    Prog.wp (tracking L fun _ _ => True) (alreadyCaptured L i) (fun _ s' => s' = s) X s := by
  simp only [alreadyCaptured, Prog.wp_handle, Store.read, Prog.wp_bind, wp_refuse, wp_fetch, Prog.wp_pure]
  exact ⟨fun _ => trivial, fun _ => trivial⟩

theorem wp_published (r : MessageRecord) (merged : Bool) {Q : World → Prop}
    (hQ : ∀ s', s'.disk = s.disk → Q s') {X : Err → World → Prop} :
    Prog.wp (tracking L fun _ _ => True) (do
      if !merged then acceptBrowserInput L r
      pure r : Program L MessageRecord) (fun _ => Q) X s := by
  cases merged with
  | true => exact (Prog.wp_pure _).2 (hQ s rfl)
  | false =>
    simp only [Bool.not_false, if_true, Prog.wp_bind]
    exact Prog.wp_mono _ (wp_acceptBrowserInput r trivial (X := fun _ _ => False))
      (fun _ s' h => (Prog.wp_pure _).2 (hQ s' h)) fun _ _ (h : False) => h.elim

end CarbonRuntime.Import
