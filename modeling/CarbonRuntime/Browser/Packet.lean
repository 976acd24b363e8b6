import Mathlib.Data.List.TakeDrop
import CarbonRuntime.Core.Check
import CarbonRuntime.Core.Splitting
import CarbonRuntime.Stream.Teachings

/-!
# What a browser submits (adapters/browser/index.ts)

A packet names its ticket, its submission and the consultant the server attributes it to. `browserPacket` checks it and
`record` is the message record it is captured as. References are compared and stored as JSON values and are `ρ` here.

`messageId_inj`: two packets of an account are captured under one message id only where ticket and submission are the
same.
-/

open CarbonRuntime.Core CarbonRuntime.Stream
open CarbonRuntime.Teachings (trim)

namespace CarbonRuntime.Browser

structure Consultant where
  id : String
  name : String
deriving DecidableEq

structure BrowserPacket (ρ : Type) where
  account : String
  ticketKey : String
  submissionId : String
  consultant : Consultant
  requestKind : Option String := none
  inputKind : Option String := none
  attachmentIds : Option (List String) := none
  references : Option (List ρ) := none
  body : String
  acceptedAt : String
  position : String
deriving DecidableEq

/-- A message record with the `adapter_fields` that only the browser reads. -/
structure BrowserRecord (ρ : Type) extends MessageRecord where
  requestKind : Option String := none
  attachmentIds : List String := []
  references : List ρ := []
deriving DecidableEq

variable {ρ : Type}

def BrowserRecord.id (r : BrowserRecord ρ) : Identity := r.toMessageRecord.id

def packetInvalid (subject problem : String) : Fault :=
  ⟨"BROWSER_PACKET_INVALID", subject, problem,
    "supply a validated server-attributed browser packet; see adapters/browser/README.md"⟩

/-! ## Identities -/

/-- mirrors index.ts:25-27 -/
def identifier (value name : String) : Except Fault Unit :=
  check (value ≠ "" && utf16Length value ≤ 256 &&
      !(value.toList.any fun c => c = '/' || c = '\\' || isControl c) && value ≠ "." && value ≠ "..")
    (packetInvalid name "identifier is absent or unsafe")

/-- `/^[A-Z][A-Z0-9_]*-[1-9][0-9]*$/` -/
def isTicketKey (key : String) : Bool :=
  match key.toList.span (· ≠ '-') with
  | (p :: ps, _ :: n :: ns) =>
    p.isUpper && ps.all (fun c => c.isUpper || c.isDigit || c = '_') && n.isDigit && n ≠ '0' && ns.all (·.isDigit)
  | _ => false

def conversationOf (account ticketKey : String) : String := account ++ ":ticket:" ++ ticketKey

/-- mirrors index.ts:28-32 -/
def browserConversationId (account ticketKey : String) : Except Fault String := do
  identifier account "account"
  check (isTicketKey ticketKey) (packetInvalid "ticket_key" "ticket key is not canonical")
  pure (conversationOf account ticketKey)

def messageOf (account ticketKey submissionId : String) : String :=
  conversationOf account ticketKey ++ ":" ++ submissionId

/-- mirrors index.ts:33-36 -/
def browserMessageId (account ticketKey submissionId : String) : Except Fault String := do
  identifier submissionId "submission_id"
  let conversation ← browserConversationId account ticketKey
  pure (conversation ++ ":" ++ submissionId)

/-! ## The packet -/

def requestKinds : List String := ["investigate", "follow_up", "copy_draft"]

def inputKinds : List String := ["start", "message"]

/-- At most 100 and each once, as it is asked of every list of files. -/
def boundedIds (ids : List String) : Bool := ids.length ≤ 100 && decide ids.Nodup

/-- mirrors index.ts:48-51 -/
def validateBrowserFileIds (p : BrowserPacket ρ) : Except Fault Unit := do
  check (p.attachmentIds.all boundedIds)
    (packetInvalid "attachment_ids" "attachment identities are malformed or duplicated")
  (p.attachmentIds.getD []).forM fun id => identifier id "attachment_ids"

/-- mirrors index.ts:45-47 -/
def validateBrowserBody (p : BrowserPacket ρ) : Except Fault Unit :=
  let empty := trim p.body = "" && p.inputKind ≠ some "start" && p.attachmentIds.all (·.isEmpty) &&
    p.references.all (·.isEmpty)
  check (!empty && p.body.utf8ByteSize ≤ 128 * 1024) (packetInvalid "body" "message is empty or exceeds 128 KiB")

/-- mirrors index.ts:37-44 -/
def validateBrowserContent (p : BrowserPacket ρ) : Except Fault Unit := do
  check (p.inputKind.isSome || p.requestKind.any (requestKinds.contains ·))
    (packetInvalid "request_kind" "unknown request kind")
  check (p.inputKind.all (inputKinds.contains ·)) (packetInvalid "input_kind" "unknown input kind")
  check (p.inputKind.isNone || p.requestKind.isNone)
    (packetInvalid "request_kind" "ordinary chat must not carry a legacy request kind")
  validateBrowserFileIds p
  check (p.references.all (·.length ≤ 100)) (packetInvalid "references" "references must be a bounded list")
  validateBrowserBody p

/-- mirrors index.ts:52-67; what is returned is a copy of the declared fields -/
def browserPacket (J : Js) (p : BrowserPacket ρ) : Except Fault (BrowserPacket ρ) := do
  let _ ← browserMessageId p.account p.ticketKey p.submissionId
  identifier p.consultant.id "consultant.id"
  check (p.consultant.name ≠ "" && utf16Length p.consultant.name ≤ 256)
    (packetInvalid "consultant.name" "authenticated display name is absent or too long")
  validateBrowserContent p
  check (J.parse p.acceptedAt).isSome (packetInvalid "accepted_at" "server acceptance time is invalid")
  check (p.position.length = 20 && p.position.toList.all (·.isDigit))
    (packetInvalid "position" "server cursor must be a twenty-digit ordinal")
  pure p

/-- mirrors index.ts:79-94 -/
def record (agent account : String) (p : BrowserPacket ρ) : BrowserRecord ρ where
  agent
  source := "browser"
  account
  conversationId := conversationOf account p.ticketKey
  conversationKind := "thread"
  messageId := messageOf account p.ticketKey p.submissionId
  platformMessageId := p.submissionId
  direction := .inbound
  role := .operator
  senderId := p.consultant.id
  senderName := some p.consultant.name
  receivedAt := p.acceptedAt
  body := p.body
  adapterFields := {
    inputKind := p.inputKind
    other := [(["ticket_key"], p.ticketKey), (["submission_id"], p.submissionId)] }
  requestKind := p.requestKind
  attachmentIds := p.attachmentIds.getD []
  references := p.references.getD []

/-! ## Results -/

theorem browserPacket_ok {J : Js} {p q : BrowserPacket ρ} (h : browserPacket J p = .ok q) :
    q = p ∧ isTicketKey p.ticketKey = true ∧ boundedIds (p.attachmentIds.getD []) = true := by
  unfold browserPacket at h
  obtain ⟨m, hm, h⟩ := ok_bind.1 h
  obtain ⟨_, _, h⟩ := ok_bind.1 h
  obtain ⟨-, h⟩ := ok_check_bind.1 h
  obtain ⟨_, hc, h⟩ := ok_bind.1 h
  obtain ⟨-, h⟩ := ok_check_bind.1 h
  obtain ⟨-, h⟩ := ok_check_bind.1 h
  refine ⟨(Except.ok.inj h).symm, ?_, ?_⟩
  · unfold browserMessageId browserConversationId at hm
    obtain ⟨_, _, hm⟩ := ok_bind.1 hm
    obtain ⟨_, hm, -⟩ := ok_bind.1 hm
    obtain ⟨_, _, hm⟩ := ok_bind.1 hm
    exact (ok_check_bind.1 hm).1
  · unfold validateBrowserContent at hc
    obtain ⟨-, hc⟩ := ok_check_bind.1 hc
    obtain ⟨-, hc⟩ := ok_check_bind.1 hc
    obtain ⟨-, hc⟩ := ok_check_bind.1 hc
    obtain ⟨_, hids, -⟩ := ok_bind.1 hc
    unfold validateBrowserFileIds at hids
    have hall := (ok_check_bind.1 hids).1
    cases hp : p.attachmentIds with
    | none => rfl
    | some ids => simpa [hp] using hall

theorem not_colon_of_key {key : String} (h : isTicketKey key = true) : ':' ∉ key.toList := by
  have hspan : (key.toList.span (· ≠ '-')).1 ++ (key.toList.span (· ≠ '-')).2 = key.toList := by
    rw [List.span_eq_takeWhile_dropWhile, List.takeWhile_append_dropWhile]
  have hhead := List.head?_dropWhile_not (fun c : Char => decide (c ≠ '-')) key.toList
  rw [List.span_eq_takeWhile_dropWhile] at hspan
  unfold isTicketKey at h
  rw [List.span_eq_takeWhile_dropWhile] at h
  rw [← hspan]
  split at h
  · rename_i hparts
    obtain ⟨hfst, hsnd⟩ := Prod.mk.inj hparts
    simp only [Bool.and_eq_true, List.all_eq_true, Bool.or_eq_true, decide_eq_true_eq] at h
    obtain ⟨⟨⟨⟨hp, hps⟩, hn⟩, -⟩, hns⟩ := h
    rw [hsnd] at hhead
    simp only [List.head?_cons, decide_eq_false_iff_not, not_not] at hhead
    rw [hfst, hsnd]
    simp only [List.cons_append, List.mem_cons, List.mem_append, not_or]
    refine ⟨?_, fun hm => ?_, ?_, ?_, fun hm => ?_⟩
    · rintro rfl
      exact absurd hp (by decide)
    · rcases hps _ hm with (hc | hc) | hc <;> exact absurd hc (by decide)
    · subst hhead
      decide
    · rintro rfl
      exact absurd hn (by decide)
    · exact absurd (hns _ hm) (by decide)
  · cases h

theorem messageOf_toList (account key submission : String) : (messageOf account key submission).toList =
    (account.toList ++ ":ticket:".toList) ++ (key.toList ++ ':' :: submission.toList) := by
  simp [messageOf, conversationOf]

/-- One message id of an account is one submission on one ticket. -/
theorem messageId_inj {account key key' submission submission' : String} (hk : isTicketKey key = true)
    (hk' : isTicketKey key' = true) (h : messageOf account key submission = messageOf account key' submission') :
    key = key' ∧ submission = submission' := by
  have hl := congrArg String.toList h
  rw [messageOf_toList, messageOf_toList, List.append_cancel_left_eq] at hl
  obtain ⟨hkey, hsub⟩ := (Splitting.first_inj (not_colon_of_key hk) (not_colon_of_key hk')).1 hl
  exact ⟨String.toList_inj.1 hkey, String.toList_inj.1 hsub⟩

end CarbonRuntime.Browser
