import CarbonRuntime.Core.Wp
import CarbonRuntime.Browser.Packet
import CarbonRuntime.Stream.Capture
import Mathlib.Algebra.Group.Int.Defs

/-!
# The bridge of a browser and the files in its custody (runtime/browser.ts, runtime/browser-files.ts)

A call of the bridge is a program over what the store keeps for it: the record files, the thread records with their
`browser_files`, and the bytes retained. It ends before anything else of the process runs, and a death may fall between
any two of its writes. It asks the outside only in what order a directory is listed and what the evidence says of the
references of a submission (browser-evidence.ts).

Not modelled: symbolic links in the custody's paths, the ids that name a member of `Object.prototype`, and who is told
of a capture.
-/

open CarbonRuntime.Core CarbonRuntime.Stream

namespace CarbonRuntime.Browser

/-! ## What is kept -/

/-- mirrors browser-files.ts:10; `actor_id` and `kind` of a staged file repeat its actor -/
structure Staged where
  file : String
  mime : String
  bytes : Nat
  sha256 : String
  filename : String
  attachmentId : String
  uploadId : String
  actor : Consultant
  boundMessageId : Option String := none
deriving DecidableEq

structure Thread extends ThreadRecord where
  /-- `browser_files` -/
  files : Table Staged.attachmentId := Table.empty

def Thread.unit (t : Thread) : String := t.unitId

structure Blob where
  file : String
  content : List Nat
deriving DecidableEq

structure Custody (ρ : Type) where
  seq : Nat := 0
  raws : List (Identity × String) := []
  records : Table (BrowserRecord.id (ρ := ρ)) := Table.empty
  index : List IndexEntry := []
  cursors : Table Cursors.conversationId := Table.empty
  threads : Table Thread.unit := Table.empty
  blobs : Table Blob.file := Table.empty

/-- One write of a file, each of them atomic. -/
inductive Act (ρ : Type)
  | seq (n : Nat)
  | raw (i : Identity) (text : String)
  | record (r : BrowserRecord ρ)
  | index (e : IndexEntry)
  | cursor (c : Cursors)
  | thread (t : Thread)
  | blob (b : Blob)

variable {ρ G : Type}

def Act.apply : Act ρ → Custody ρ → Custody ρ
  | .seq n, d => { d with seq := n }
  | .raw i text, d => { d with raws := d.raws ++ [(i, text)] }
  | .record r, d => { d with records := d.records.put r }
  | .index e, d => { d with index := d.index ++ [e] }
  | .cursor c, d => { d with cursors := d.cursors.put c }
  | .thread t, d => { d with threads := d.threads.put t }
  | .blob b, d => { d with blobs := d.blobs.put b }

inductive Question (ρ : Type)
  | listing
  /-- `validateEvidenceReferences` -/
  | evidence (conversationId : String) (references : List ρ)

@[reducible] def Question.Answer : Question ρ → Type
  | .listing => List (BrowserRecord ρ)
  | .evidence _ _ => List Fault

@[reducible] def sig (ρ : Type) : Sig where
  S := Custody ρ
  W := Act ρ
  apply := Act.apply
  Q := Question ρ
  A := Question.Answer
  valid
    | .listing, l, d => l.Perm d.records.rows
    | .evidence _ _, _, _ => True
  after _ _ d := d
  E := List Fault

abbrev Program (ρ : Type) (α : Type) := Prog (sig ρ) α

/-- `grant` operations that the bridge checks -/
inductive Operation
  | submit | read
deriving DecidableEq

/-- A bridge as it is created, and what it takes from the language and the store's layout. -/
structure Bridge (ρ G : Type) where
  js : Js
  /-- sha256 of bytes -/
  digest : List Nat → String
  /-- `Store.paths(i).attachments` and `.raw` -/
  attachments : Identity → String
  rawFile : Identity → String
  /-- `JSON.stringify(packet)` -/
  packetText : BrowserPacket ρ → String
  agent : String
  account : String
  authorize : G → String → Operation → Bool
  /-- `grant.consultant.id` -/
  actorOf : G → Option String

/-! ## The effects, by name -/

section effects
variable {α : Type}

def fetch : Program ρ (Custody ρ) := Prog.get

def write (a : Act ρ) : Program ρ Unit := Prog.perform (𝔖 := sig ρ) a

def raise (faults : List Fault) : Program ρ α := .throw faults

/-- `if (faults.length) throw new StreamFault(faults)` -/
def refuse (faults : List Fault) : Program ρ Unit := if faults = [] then pure () else raise faults

/-- Refused unless it holds. -/
def require (holds : Bool) (f : Fault) : Program ρ Unit := if holds then pure () else raise [f]

def lift : Except Fault α → Program ρ α
  | .ok a => pure a
  | .error f => raise [f]

def listing : Program ρ (List (BrowserRecord ρ)) := Prog.ask (𝔖 := sig ρ) .listing

def evidence (conversationId : String) (references : List ρ) : Program ρ (List Fault) :=
  Prog.ask (𝔖 := sig ρ) (.evidence conversationId references)

end effects

variable (K : Bridge ρ G)

/-! ## The store -/

/-- mirrors store.ts:470-475, of revision 0 -/
def read (conversationId messageId : String) : Program ρ (Option (BrowserRecord ρ)) := do
  refuse (pathFaults K.js ⟨conversationId, messageId, 0⟩)
  let d ← fetch
  pure (d.records.find ⟨conversationId, messageId, 0⟩)

/-- mirrors store.ts:499-507 -/
def recordsIn (conversationId : String) : Program ρ (List (BrowserRecord ρ)) := do
  refuse (componentFaults K.js "conversation_id" conversationId)
  let records ← listing
  pure (records.filter (·.conversationId = conversationId))

/-- mirrors store.ts:802-816 -/
def merged (old r : BrowserRecord ρ) : BrowserRecord ρ :=
  { old with toMessageRecord := Store.mergeRecords old.toMessageRecord r.toMessageRecord }

/-- mirrors store.ts:306-321 -/
def captureWrite [DecidableEq ρ] (r : BrowserRecord ρ) (seq : Nat) : Program ρ (BrowserRecord ρ) := do
  let d ← fetch
  match d.records.find r.id with
  | some old =>
    if old.source ≠ r.source && !Store.merges r.source then
      raise [Store.messageIdClaimed r.toMessageRecord old.toMessageRecord]
    else if merged old r ≠ old then do
      write (.record (merged old r))
      pure (merged old r)
    else pure old
  | none => do
    write (.record r)
    write (.index ⟨seq, r.id⟩)
    pure r

/-- mirrors store.ts:522-547, of the message cursor -/
def advanceCursor (conversationId position : String) : Program ρ Unit := do
  refuse (componentFaults K.js "conversation_id" conversationId)
  let d ← fetch
  let current := (d.cursors.find conversationId).getD { conversationId }
  if current.message.any fun held => decide (position ≤ held) then pure ()
  else write (.cursor { current with message := some position })

/-- mirrors store.ts:293-328 -/
def capture [DecidableEq ρ] (r : BrowserRecord ρ) (raw position : String) : Program ρ (BrowserRecord ρ) := do
  refuse (validate K.js r.toMessageRecord)
  refuse (pathFaults K.js r.id)
  let d ← fetch
  write (.seq (d.seq + 1))
  Prog.andFinally (𝔖 := sig ρ) (do
    write (.raw r.id raw)
    captureWrite { r with raw := some (K.rawFile r.id) } (d.seq + 1))
    (advanceCursor K r.conversationId position)

/-- mirrors store.ts:395-414; bytes that are there are not written again -/
def putAttachment (i : Identity) (bytes : List Nat) (filename mime : String) : Program ρ Attachment := do
  refuse (pathFaults K.js i)
  let d ← fetch
  let file := K.attachments i ++ "/" ++ K.digest bytes
  if (d.blobs.find file).isNone then write (.blob ⟨file, bytes⟩)
  pure
    { file, mime, bytes := bytes.length, sha256 := K.digest bytes
      filename := if filename = "" then none else some filename }

/-! ## The files of a conversation -/

def Custody.filesOf (d : Custody ρ) (conversationId : String) : Table Staged.attachmentId :=
  ((d.threads.find conversationId).map (·.files)).getD Table.empty

/-- mirrors browser-files.ts:20-23 -/
def fileMap (conversationId : String) : Program ρ (Table Staged.attachmentId) := do
  refuse (componentFaults K.js "unit_id" conversationId)
  let d ← fetch
  pure (d.filesOf conversationId)

def Custody.withFiles (d : Custody ρ) (conversationId : String) (files : Table Staged.attachmentId) : Thread :=
  { (d.threads.find conversationId).getD { unitId := conversationId } with files }

/-- `store.writeThread(conversationId, { ...store.readThread(conversationId), browser_files })` -/
def writeFiles (conversationId : String) (files : Table Staged.attachmentId) : Program ρ Unit := do
  refuse (componentFaults K.js "unit_id" conversationId)
  let d ← fetch
  write (.thread (d.withFiles conversationId files))

def fileFault (code subject problem : String) : Fault :=
  ⟨code, subject, problem, "use the authenticated ticket identity and a valid bounded file"⟩

/-- mirrors browser-files.ts:16-19 -/
def validateBrowserFilename (filename : String) : Except Fault Unit :=
  check (filename ≠ "" && filename.utf8ByteSize ≤ 255 && filename ≠ "." && filename ≠ ".." &&
      !(filename.toList.any fun c => c = '\\' || c = '/' || isControl c))
    (fileFault "BROWSER_FILE_NAME_INVALID" "filename"
      "a file name must be a bounded plain name without path components or controls")

structure StageInput where
  actor : Consultant
  uploadId : String
  filename : String
  mime : String
  bytes : List Nat
  maxBytes : Int
deriving DecidableEq

/-- mirrors browser-files.ts:30-33 -/
def validateStagingActor (actor : Consultant) : Except Fault Unit :=
  check (actor.id ≠ "" && utf16Length actor.id ≤ 1024 && actor.name ≠ "" && utf16Length actor.name ≤ 1024)
    (fileFault "BROWSER_FILE_ACTOR_INVALID" "actor" "a staged file needs its authenticated sender")

/-- mirrors browser-files.ts:34-39 -/
def validateStagingFields (i : StageInput) : Except Fault Unit := do
  validateStagingActor i.actor
  check (i.mime ≠ "" && utf16Length i.mime ≤ 255 && !(i.mime.toList.any fun c => c = ' ' || isControl c))
    (fileFault "BROWSER_FILE_MIME_INVALID" "mime"
      "a file media type must be a bounded string without whitespace or controls")
  check (0 < i.maxBytes && i.maxBytes < 2 ^ 53 && (i.bytes.length : Int) ≤ i.maxBytes)
    (fileFault "BROWSER_FILE_SIZE_REFUSED" "bytes"
      "file bytes exceed the declared positive deployment limit or are malformed")

/-- `file-${digest(JSON.stringify([conversationId, uploadId]))}` -/
def attachmentIdOf (conversationId uploadId : String) : String :=
  "file-" ++ K.js.sha256 ("[" ++ K.js.stringify conversationId ++ "," ++ K.js.stringify uploadId ++ "]")

/-- What a lookup answers: a staged file, or an attachment of an accepted output. -/
structure Held where
  attachment : Attachment
  attachmentId : String
  boundMessageId : Option String
  actor : Option Consultant
deriving DecidableEq

def Staged.attachment (f : Staged) : Attachment where
  file := f.file
  mime := f.mime
  bytes := f.bytes
  sha256 := f.sha256
  filename := some f.filename
  attachmentId := some f.attachmentId

def Staged.held (f : Staged) : Held := ⟨f.attachment, f.attachmentId, f.boundMessageId, some f.actor⟩

inductive Kind
  | input | artifact
deriving DecidableEq

structure Metadata where
  attachmentId : String
  filename : String
  mime : String
  bytes : Nat
  sha256 : String
  actorId : Option String
  boundMessageId : Option String
  kind : Kind
deriving DecidableEq

/-- mirrors browser-files.ts:24-28 -/
def metadata (h : Held) : Metadata where
  attachmentId := h.attachmentId
  filename := h.attachment.filename.getD "attachment"
  mime := h.attachment.mime
  bytes := h.attachment.bytes
  sha256 := h.attachment.sha256
  actorId := h.actor.map (·.id)
  boundMessageId := h.boundMessageId
  kind := if h.actor.isSome then .input else .artifact

def fileMissing (sha256 : String) : Fault :=
  fileFault "BROWSER_FILE_MISSING" sha256 "retained attachment bytes are currently unavailable"

/-- mirrors browser-files.ts:61-73 -/
def readBytes (a : Attachment) : Program ρ (List Nat) := do
  let d ← fetch
  match d.blobs.find a.file with
  | none => raise [fileMissing a.sha256]
  | some b => do
    require (b.content.length = a.bytes && K.digest b.content = a.sha256)
      (fileFault "BROWSER_FILE_INTEGRITY_FAILED" a.sha256
        "stored attachment bytes do not match their retained size and digest")
    pure b.content

/-! ## Binding a file to the message that carries it -/

def BrowserRecord.carries (r : BrowserRecord ρ) (id : String) : Bool :=
  r.attachments.any fun a => a.attachmentId = some id

/-- mirrors browser-files.ts:143-146 -/
def capturedFileReferences (r : Option (BrowserRecord ρ)) (actorId : String) (ids : List String) : Bool :=
  r.any fun r => r.direction = .inbound && r.senderId = actorId && ids.all r.carries

def filesInvalid : Fault :=
  fileFault "BROWSER_FILES_INVALID" "attachment_ids"
    "file references must be a bounded list of distinct staged identities"

def bindOne (messageId : String) (files : Table Staged.attachmentId) (id : String) : Table Staged.attachmentId :=
  match files.find id with
  | some f => files.put { f with boundMessageId := f.boundMessageId <|> some messageId }
  | none => files

/-- mirrors browser-files.ts:147-160 -/
def bindBrowserAttachments (conversationId actorId : String) (ids : List String) (messageId : String) :
    Program ρ Unit :=
  if ids = [] then pure () else do
  require (boundedIds ids) filesInvalid
  let files ← fileMap K conversationId
  match ids.find? fun id => !(files.find id).any (·.actor.id = actorId) with
  | some id => raise [fileFault "BROWSER_FILE_ACTOR_REFUSED" id "a file binding must match its retained sender"]
  | none => do
    let record ← read K conversationId messageId
    require (capturedFileReferences record actorId ids) (fileFault "BROWSER_FILE_BINDING_REFUSED" messageId
      "files bind only after their sender's input and exact attachment references are durably captured")
    if ids.all fun id => (files.find id).any (·.boundMessageId.isSome) then pure ()
    else writeFiles K conversationId (ids.foldl (bindOne messageId) files)

/-- mirrors browser-files.ts:74-76 -/
def acceptedBrowserOutput (r : BrowserRecord ρ) : Bool :=
  r.source = "browser" && r.direction = .outbound && r.status ≠ some .failed && r.disposition ≠ .parked

/-- The message of its sender that carries a staged file. -/
def carriesStaged (f : Staged) (r : BrowserRecord ρ) : Bool :=
  r.source = "browser" && r.direction = .inbound && r.senderId = f.actor.id && r.carries f.attachmentId

/-- The attachment of this id on the first accepted output that carries it. -/
def outputOf (attachmentId : String) (records : List (BrowserRecord ρ)) : Option Held :=
  records.findSome? fun r => if acceptedBrowserOutput r then
    (r.attachments.find? fun a => a.attachmentId = some attachmentId).map fun a =>
      ⟨a, attachmentId, some r.messageId, none⟩
  else none

/-- mirrors browser-files.ts:77-98; a file whose message was captured and that a death left unbound is bound here -/
def attachmentIn (conversationId attachmentId : String) : Program ρ Held := do
  refuse (componentFaults K.js "conversation_id" conversationId ++
    componentFaults K.js "attachment_id" attachmentId)
  let files ← fileMap K conversationId
  match files.find attachmentId with
  | some staged =>
    if staged.boundMessageId.isSome then pure staged.held else do
    let records ← recordsIn K conversationId
    match records.find? (carriesStaged staged) with
    | some bound => do
      bindBrowserAttachments K conversationId staged.actor.id [attachmentId] bound.messageId
      let files ← fileMap K conversationId
      pure ((files.find attachmentId).getD staged).held
    | none => pure staged.held
  | none => do
    let records ← recordsIn K conversationId
    lift (present (outputOf attachmentId records) (fileFault "BROWSER_FILE_NOT_FOUND" attachmentId
      "no accepted file with this identity belongs to this conversation"))

/-! ## Staging, reading and resolving -/

/-- The earlier upload under this identity is the same. -/
def sameUpload (f : Staged) (i : StageInput) : Bool :=
  f.uploadId = i.uploadId && f.filename = i.filename && f.mime = i.mime && f.sha256 = K.digest i.bytes &&
    f.bytes = i.bytes.length && f.actor.id = i.actor.id && f.actor.name = i.actor.name

def stagedOf (conversationId : String) (i : StageInput) (a : Attachment) : Staged where
  file := a.file
  mime := a.mime
  bytes := a.bytes
  sha256 := a.sha256
  filename := i.filename
  attachmentId := attachmentIdOf K conversationId i.uploadId
  uploadId := i.uploadId
  actor := i.actor

/-- mirrors browser-files.ts:40-60 -/
def stageBrowserAttachment (conversationId : String) (i : StageInput) : Program ρ (Metadata × Bool) := do
  refuse (componentFaults K.js "conversation_id" conversationId ++ componentFaults K.js "upload_id" i.uploadId)
  lift (validateBrowserFilename i.filename)
  lift (validateStagingFields i)
  let id := attachmentIdOf K conversationId i.uploadId
  let files ← fileMap K conversationId
  match files.find id with
  | some previous => do
    require (sameUpload K previous i) (fileFault "BROWSER_UPLOAD_ID_CONFLICT" i.uploadId
      "this upload identity already belongs to different bytes, metadata or sender")
    let _ ← readBytes K previous.attachment
    let held ← attachmentIn K conversationId id
    pure (metadata held, true)
  | none => do
    let attachment ← putAttachment K ⟨conversationId, "file-" ++ i.uploadId, 0⟩ i.bytes i.filename i.mime
    let files ← fileMap K conversationId
    writeFiles K conversationId (files.put (stagedOf K conversationId i attachment))
    pure (metadata (stagedOf K conversationId i attachment).held, false)

inductive Presence
  | available | missing
deriving DecidableEq

structure Reading where
  metadata : Metadata
  state : Presence
  bytes : Option (List Nat)
deriving DecidableEq

/-- The bytes, or where they are not wanted that a file of their size is there, browser-files.ts:117-123. -/
def readWanted (h : Held) (includeBytes : Bool) : Program ρ (Option (List Nat)) :=
  if includeBytes then do
    let bytes ← readBytes K h.attachment
    pure (some bytes)
  else do
    let d ← fetch
    match d.blobs.find h.attachment.file with
    | none => raise [fileMissing h.attachment.sha256]
    | some b => do
      require (b.content.length = h.attachment.bytes)
        (fileFault "BROWSER_FILE_INTEGRITY_FAILED" h.attachment.sha256
          "stored attachment is not a file with its retained byte count")
      pure none

/-- mirrors browser-files.ts:113-132; bytes that are gone are an answer, and no other fault is -/
def readBrowserAttachment (conversationId attachmentId : String) (includeBytes : Bool) : Program ρ Reading := do
  let h ← attachmentIn K conversationId attachmentId
  (readWanted K h includeBytes >>= fun bytes => pure ⟨metadata h, .available, bytes⟩).handle fun faults =>
    if faults.map (·.code) = ["BROWSER_FILE_MISSING"] then pure ⟨metadata h, .missing, none⟩ else raise faults

/-- One file of a submission, browser-files.ts:136-141. -/
def resolveOne (conversationId actorId attachmentId : String) : Program ρ Attachment := do
  let files ← fileMap K conversationId
  match files.find attachmentId with
  | none => raise [actorRefused attachmentId]
  | some f => do
    require (f.actor.id = actorId) (actorRefused attachmentId)
    let _ ← readBytes K f.attachment
    pure f.attachment
where
  actorRefused (attachmentId : String) : Fault := fileFault "BROWSER_FILE_ACTOR_REFUSED" attachmentId
    "a submission may attach only files staged by its authenticated sender in this conversation"

/-- mirrors browser-files.ts:133-142 -/
def resolveBrowserAttachments (conversationId actorId : String) (ids : List String) : Program ρ (List Attachment) := do
  require (boundedIds ids) filesInvalid
  Prog.fold (𝔖 := sig ρ) (fun found id => do
    let a ← resolveOne K conversationId actorId id
    pure (found ++ [a])) [] ids

/-! ## The calls of the bridge -/

def bridgeFault (code subject problem : String) : Fault :=
  ⟨code, subject, problem, "repair the server grant or exact submitted value before retrying"⟩

/-- mirrors browser.ts:37-41 -/
def checkGrant (grant : G) (key : String) (operation : Operation) : Program ρ String := do
  let conversation ← lift (browserConversationId K.account key)
  require (K.authorize grant key operation)
    (bridgeFault "BROWSER_ACCESS_DENIED" key "current grant does not permit this operation")
  pure conversation

/-- mirrors browser.ts:28-33 -/
def sameBrowserSubmission [DecidableEq ρ] (prior record : BrowserRecord ρ) (p : BrowserPacket ρ) : Bool :=
  prior.body = record.body && prior.senderId = record.senderId && prior.senderName = record.senderName &&
    prior.requestKind = p.requestKind && prior.adapterFields.inputKind = p.inputKind &&
    prior.attachmentIds = p.attachmentIds.getD [] && prior.references = p.references.getD []

def submissionConflict (submissionId : String) : Fault :=
  bridgeFault "BROWSER_SUBMISSION_CONFLICT" submissionId
    "accepted identity was reused with changed body, actor or request kind"

/-- mirrors browser.ts:51-68 -/
def submit [DecidableEq ρ] (grant : G) (candidate : BrowserPacket ρ) : Program ρ (BrowserRecord ρ × Bool) := do
  let p ← lift (browserPacket K.js candidate)
  let conversationId ← checkGrant K grant p.ticketKey .submit
  require (p.account = K.account)
    (bridgeFault "BROWSER_ACCESS_DENIED" p.account "packet account differs from configured account")
  let r := record K.agent K.account p
  let prior ← read K conversationId r.messageId
  match prior with
  | some prior => do
    require (sameBrowserSubmission prior r p) (submissionConflict p.submissionId)
    bindBrowserAttachments K conversationId p.consultant.id (p.attachmentIds.getD []) prior.messageId
    pure (prior, true)
  | none => do
    let faults ← evidence conversationId (p.references.getD [])
    refuse faults
    let attachments ← resolveBrowserAttachments K conversationId p.consultant.id (p.attachmentIds.getD [])
    let accepted ← capture K { r with attachments } (K.packetText p) p.position
    bindBrowserAttachments K conversationId p.consultant.id (p.attachmentIds.getD []) r.messageId
    pure (accepted, false)

/-- mirrors browser.ts:69-72 -/
def stageAttachment (grant : G) (key : String) (i : StageInput) : Program ρ (Metadata × Bool) := do
  let conversationId ← checkGrant K grant key .submit
  stageBrowserAttachment K conversationId i

/-- mirrors browser.ts:73-80 -/
def readAttachment (grant : G) (key attachmentId : String) (includeBytes : Bool) : Program ρ Reading := do
  let conversationId ← checkGrant K grant key .read
  let result ← readBrowserAttachment K conversationId attachmentId includeBytes
  require (!(result.metadata.boundMessageId.isNone && result.metadata.actorId.isSome &&
      result.metadata.actorId ≠ K.actorOf grant))
    (bridgeFault "BROWSER_FILE_ACTOR_REFUSED" attachmentId
      "unsubmitted bytes belong only to their authenticated staging actor")
  pure result

end CarbonRuntime.Browser
