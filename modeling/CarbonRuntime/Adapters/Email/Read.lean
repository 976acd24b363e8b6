import CarbonRuntime.Core.Padded
import CarbonRuntime.Stream.Capture
import CarbonRuntime.Stream.Teachings

/-!
# Reading mail

What the email adapter reads off one item (adapters/email/index.ts): the ids and addresses in
a header, the root of the References chain a message belongs to, whether it corrects a message
that is on disk. An item carries the message as mime.ts reads it, or why it cannot be
read.

`Mail` is the context of one mailbox: the agent, the account, the declared block with its
defaults, and what the reader takes of the language and of mime.ts without looking into it,
`toLowerCase` and `decodeWords`.
-/

open CarbonRuntime.Core CarbonRuntime.Stream

namespace CarbonRuntime.Adapters.Email

open Store Teachings

/-- `EmailHeader`: the name in lower case, the text with its encoded words read, the text as it
came. -/
structure Header where
  name : String
  value : String
  raw : String
deriving DecidableEq

/-- `MimeMessage`; the attachments as they stand once put in the store. -/
structure Message where
  headers : List Header := []
  body : String := ""
  attachments : List Attachment := []
deriving DecidableEq

/-- What a poll hands over. -/
structure Item where
  mailbox : Option String := none
  mailboxPosition : Option String := none
  uidvalidity : Option Nat := none
  uid : Option Nat := none
  position : String
  /-- The lines of the mail, joined. -/
  raw : String := ""
  /-- `readMessage(item.rfc822)`, mime.ts:305-320. -/
  message : Except String Message
  agentmailAttachments : Option (List Attachment) := none
deriving DecidableEq

/-- The declared block under `DEFAULTS`, index.ts:188-206, 214-223. -/
structure EmailChannel where
  mailbox : String := "INBOX"
  inbound : Option String := none
  addresses : List String := []
  /-- `hold.release_after_ms`; absent where it is declared so. -/
  releaseAfterMs : Option Nat := some 3600000
deriving DecidableEq

structure Mail where
  agent : String
  account : String
  channel : EmailChannel := {}
  lower : String → String := String.toLower
  decodeWords : String → String := id

/-! ## Headers, mime.ts:82-94 -/

def header (headers : List Header) (name : String) : Option String :=
  (headers.find? (·.name = name)).map (·.value)

def headerRaw (headers : List Header) (name : String) : Option String :=
  (headers.find? (·.name = name)).map (·.raw)

def headersAll (headers : List Header) (name : String) : List String :=
  (headers.filter (·.name = name)).map (·.value)

/-! ## Identifiers, index.ts:248-305 -/

/-- The texts between `<` and the next `>`, where no `<` stands between. -/
def bracketed : Option (List Char) → List Char → List String
  | _, [] => []
  | cur, c :: cs =>
    if c = '<' then bracketed (some []) cs
    else if c = '>' then
      match cur with
      | some acc => String.ofList acc.reverse :: bracketed none cs
      | none => bracketed none cs
    else bracketed (cur.map (c :: ·)) cs

def idsIn (value : String) : List String :=
  ((bracketed none value.toList).map trim).filter (· ≠ "")

/-- `value.split(sep)`. -/
def splitOn (sep : Char) : List Char → List Char → List String
  | acc, [] => [String.ofList acc.reverse]
  | acc, c :: cs =>
    if c = sep then String.ofList acc.reverse :: splitOn sep [] cs else splitOn sep (c :: acc) cs

variable (M : Mail)

def addressesIn (value : String) : List String :=
  (splitOn ',' [] value.toList).filterMap fun piece =>
    let angled := (bracketed none piece.toList).find? (· ≠ "")
    let address := trim (angled.getD piece)
    if includes address "@" then some (M.lower address) else none

/-- A quote at the front and one at the end are dropped. -/
def unquoted (text : List Char) : List Char :=
  let front := if text.head? = some '"' then text.tail else text
  if front.getLast? = some '"' then front.dropLast else front

def displayName (value : String) : Option String :=
  if value.toList.head? = some '<' || !value.toList.contains '<' then none
  else
    let before := trim (String.ofList (value.toList.takeWhile (· ≠ '<')))
    let name := trim (M.decodeWords (String.ofList (unquoted before.toList)))
    if name = "" then none else some name

/-- The conversation is the root of the References chain. -/
def threadRoot (headers : List Header) (ownId : String) : String :=
  match idsIn ((headerRaw headers "references").getD "") with
  | root :: _ => root
  | [] =>
    match idsIn ((headerRaw headers "in-reply-to").getD "") with
    | parent :: _ => parent
    | [] => ownId

def declaredAddresses : List String :=
  ((M.account :: M.channel.addresses).filter (· ≠ "")).map M.lower

def pad (value : Nat) : String := Padded.pad 10 value

def positionOf (uidvalidity uid : Nat) : String := pad uidvalidity ++ ":" ++ pad uid

def agentmailApi : String := "agentmail-api"

def watermarkConversation (mailbox : String) : String := M.account ++ ":mailbox:" ++ mailbox

def pollWatermarkConversation (mailbox : String) : String :=
  if M.channel.inbound = some agentmailApi then watermarkConversation M mailbox ++ ":agentmail-api"
  else watermarkConversation M mailbox

/-! ## Reading one item, index.ts:331-407 -/

/-- `ParkedRead` and `ReadableRead`. -/
structure ReadResult where
  conversationId : String
  messageId : String
  platformMessageId : String
  revision : Nat := 0
  cursorKind : CursorKind := .message
  headers : List Header := []
  /-- The message, or why it is parked. -/
  content : Except String Message
deriving DecidableEq

def ReadResult.id (read : ReadResult) : Identity :=
  ⟨read.conversationId, read.messageId, read.revision⟩

def ownIdOf (headers : List Header) : Option String :=
  (idsIn ((headerRaw headers "message-id").getD "")).head?

def supersededBy (headers : List Header) : Option String :=
  (idsIn ((headerRaw headers "supersedes").getD "")).head?

def numberText (n : Option Nat) : String := (n.map toString).getD "undefined"

def uidText (x : Item) : String := "uid-" ++ numberText x.uidvalidity ++ "-" ++ numberText x.uid

def unreadable (x : Item) (reason : String) (headers : List Header) : ReadResult :=
  let ownId := ownIdOf headers
  match ownId with
  | some own =>
    let conversationId := M.account ++ ":" ++ threadRoot headers own
    { conversationId, messageId := conversationId ++ ":" ++ own, platformMessageId := own, headers
      content := .error reason }
  | none =>
    let conversationId := M.account ++ ":unreadable"
    { conversationId, messageId := conversationId ++ ":" ++ uidText x
      platformMessageId := uidText x, headers, content := .error reason }

/-- `recordsIn`, or nothing where it would raise. -/
def recordsOf (J : Js) (d : Disk) (conversationId : String) : List MessageRecord :=
  if componentFaults J "conversation_id" conversationId = [] then
    d.records.rows.filter (·.conversationId = conversationId)
  else []

def existingRevisions (J : Js) (d : Disk) (conversationId messageId : String) : List Nat :=
  ((recordsOf J d conversationId).filter (·.messageId = messageId)).map (·.revision)

def noMessageId : String :=
  "the message carries no Message-ID, so it has no identity to key a record on"

/-- `Math.max(...existing)`. -/
def maxOf (revisions : List Nat) : Nat := revisions.foldl max 0

/-- The message of an item, with the attachments the provider served apart. -/
def Item.with_ (x : Item) (message : Message) : Message :=
  { message with attachments := x.agentmailAttachments.getD message.attachments }

/-- What a message with an id of its own is read as, where it corrects nothing. -/
def plainRead (message : Message) (ownId : String) : ReadResult :=
  let conversationId := M.account ++ ":" ++ threadRoot message.headers ownId
  { conversationId, messageId := conversationId ++ ":" ++ ownId, platformMessageId := ownId
    headers := message.headers, content := .ok message }

/-- A correction of what is on disk at `existing` is the next revision of it. -/
def revisedRead (read : ReadResult) (supersedes : String) (existing : List Nat) : ReadResult :=
  match existing with
  | [] => read
  | existing =>
    { read with
      messageId := read.conversationId ++ ":" ++ supersedes
      revision := maxOf existing + 1
      cursorKind := .revision }

/-- mirrors index.ts:331-387 -/
def readItem (J : Js) (d : Disk) (x : Item) : ReadResult :=
  match x.message with
  | .error reason => unreadable M x reason []
  | .ok message =>
    let message := x.with_ message
    match ownIdOf message.headers with
    | none => unreadable M x noMessageId message.headers
    | some ownId =>
      let read := plainRead M message ownId
      match supersededBy message.headers with
      | none => read
      | some supersedes =>
        revisedRead read supersedes
          (existingRevisions J d read.conversationId (read.conversationId ++ ":" ++ supersedes))

section
variable {M} {J : Js} {d : Disk} {x : Item} {message : Message} {ownId : String}

theorem readItem_plain (hm : x.message = .ok message) (hid : ownIdOf message.headers = some ownId)
    (hs : supersededBy message.headers = none) :
    readItem M J d x = plainRead M (x.with_ message) ownId := by
  have hid : ownIdOf (x.with_ message).headers = some ownId := hid
  have hs : supersededBy (x.with_ message).headers = none := hs
  simp only [readItem, hm, hid, hs]

theorem readItem_correction (hm : x.message = .ok message)
    (hid : ownIdOf message.headers = some ownId) {supersedes : String}
    (hs : supersededBy message.headers = some supersedes) :
    readItem M J d x = revisedRead (plainRead M (x.with_ message) ownId) supersedes
      (existingRevisions J d (plainRead M (x.with_ message) ownId).conversationId
        ((plainRead M (x.with_ message) ownId).conversationId ++ ":" ++ supersedes)) := by
  have hid : ownIdOf (x.with_ message).headers = some ownId := hid
  have hs : supersededBy (x.with_ message).headers = some supersedes := hs
  simp only [readItem, hm, hid, hs]

@[simp] theorem revisedRead_conversation (read : ReadResult) (s : String) (existing : List Nat) :
    (revisedRead read s existing).conversationId = read.conversationId := by
  unfold revisedRead
  split <;> rfl

theorem revisedRead_some {read : ReadResult} {s : String} {existing : List Nat}
    (h : existing ≠ []) : revisedRead read s existing =
      { read with
        messageId := read.conversationId ++ ":" ++ s
        revision := maxOf existing + 1
        cursorKind := .revision } := by
  unfold revisedRead
  split
  · exact absurd rfl h
  · rfl

/-! ### Readable messages -/

/-- The message is read, and carries a Message-ID. -/
def Readable (x : Item) : Prop :=
  ∃ message ownId, x.message = .ok message ∧ ownIdOf message.headers = some ownId

/-- What the message names in `Supersedes`. -/
def supersedes (x : Item) : Option String :=
  match x.message with
  | .ok message => supersededBy message.headers
  | .error _ => none

def bodyOf (x : Item) : String :=
  match x.message with
  | .ok message => message.body
  | .error _ => ""

/-- The conversation of a readable message, and its own id. -/
def keyOf (M : Mail) (x : Item) : Option (String × String) :=
  match x.message with
  | .ok message =>
    (ownIdOf message.headers).map fun own => (M.account ++ ":" ++ threadRoot message.headers own, own)
  | .error _ => none

theorem readable_of_keyOf {k : String × String} (h : keyOf M x = some k) : Readable x := by
  unfold keyOf at h
  split at h
  · rename_i message hm
    obtain ⟨own, hid, -⟩ := Option.map_eq_some_iff.1 h
    exact ⟨message, own, hm, hid⟩
  · cases h

/-- Wherever it is filed, it is read in its conversation and under its own id. -/
theorem readItem_key {k : String × String} (h : keyOf M x = some k) :
    ((readItem M J d x).conversationId, (readItem M J d x).platformMessageId) = k := by
  obtain ⟨message, ownId, hm, hid⟩ := readable_of_keyOf h
  simp only [keyOf, hm, hid, Option.map_some, Option.some.injEq] at h
  rw [← h]
  cases hs : supersededBy message.headers with
  | none => rw [readItem_plain hm hid hs]; rfl
  | some s =>
    rw [readItem_correction hm hid hs]
    dsimp only [revisedRead]
    split <;> rfl

theorem readItem_content (h : Readable x) : ∃ message, x.message = .ok message ∧
    (readItem M J d x).content = .ok (x.with_ message) := by
  obtain ⟨message, ownId, hm, hid⟩ := h
  refine ⟨message, hm, ?_⟩
  cases hs : supersededBy message.headers with
  | none => rw [readItem_plain hm hid hs]; rfl
  | some s =>
    rw [readItem_correction hm hid hs]
    dsimp only [revisedRead]
    split <;> rfl

end

end CarbonRuntime.Adapters.Email
