import CarbonRuntime.Adapters.Email.Build
import Mathlib.Data.List.Sort

/-!
# The poll over IMAP

`poll` reads a mailbox from its watermark up (adapters/email/index.ts:781-844), one curl run a command
(curl.ts:86-220): the STATUS, the search, the set of unseen messages, a fetch for each message, and the
STORE that takes the `\Seen` flag off those that did not have it.

The server is the mailbox, a flag for each uid. Any command may fail; what a failed command did to the
flags before it failed is left open.
-/

open CarbonRuntime.Core CarbonRuntime.Stream Utf16

namespace CarbonRuntime.Adapters.Email.Poll

open Mime

/-! ## The server -/

structure Letter where
  uid : Nat
  seen : Bool
deriving DecidableEq

abbrev Mailbox := Table Letter.uid

/-- The flag of these messages is set, or taken off. -/
def flagged (box : Mailbox) (p : Nat → Bool) (seen : Bool) : Mailbox :=
  box.mapRows (fun x => if p x.uid then { x with seen } else x) fun x => by split <;> rfl

def seenOf (box : Mailbox) (uid : Nat) : Option Bool := (box.find uid).map (·.seen)

/-- The messages of the range; a server names the last one whether it is in it or not. -/
def inRange (box : Mailbox) (fromUid : Nat) : List Nat :=
  let uids := box.rows.map (·.uid)
  match uids.filter (fromUid ≤ ·) with
  | [] => uids.filter fun uid => uids.all (· ≤ uid)
  | found => found

def unseen (box : Mailbox) : List Nat := (box.rows.filter (!·.seen)).map (·.uid)

/-! ## The commands -/

/-- How a curl run fails. -/
inductive Failure
  /-- There is no curl. -/
  | absent
  | exited (code : Int) (stderr : String) (timedOut : Bool)
deriving DecidableEq

/-- What becomes of each command of a poll. -/
structure Outcomes where
  /-- The UIDVALIDITY the STATUS of an attempt names. -/
  status : Nat → Except Failure (Option Nat)
  search : Option Failure
  unseen : Option Failure
  fetch : Nat → Option Failure
  /-- A fetch that failed had set the flag. -/
  marked : Nat → Bool
  /-- The message as the server sends it. -/
  content : Nat → Text
  store : Option Failure
  /-- A STORE that failed had taken the flag off. -/
  restored : Nat → Bool

structure Where where
  host : String
  mailbox : String

/-- What a poll throws. -/
inductive Error
  | transport (faults : List Fault)
  | mime (thrown : Thrown)
deriving DecidableEq

def curlMissing : Fault :=
  ⟨"CURL_MISSING", "curl",
    "the email adapter speaks imaps and smtps through curl, and there is no curl at this name",
    "install curl, or name one in CARBON_EMAIL_CURL"⟩

/-- mirrors curl.ts:100-110 -/
def readFailed (subject what : String) : Failure → Fault
  | .absent => curlMissing
  | .exited code stderr _ =>
    ⟨"IMAP_READ_FAILED", subject,
      "curl exited " ++ toString code ++ " while " ++ what ++
        (if stderr = "" then "" else ": " ++ stderr),
      "check the host, the port and the netrc file the declaration names; a login denial is exit 67"⟩

variable (W : Where) (O : Outcomes)

def statusAttempts : Nat := 3

/-- The attempt ended by its time. -/
def Failure.timesOut : Failure → Bool
  | absent => false
  | exited code _ timedOut => code = 28 || timedOut

def statusUnreadable : Fault :=
  ⟨"IMAP_STATUS_UNREADABLE", W.host ++ " " ++ W.mailbox,
    "the STATUS response names no UIDVALIDITY, so there is no watermark to hold",
    "check that the mailbox exists under this name; the name is case-sensitive"⟩

/-- mirrors index.ts:781-794: the attempts that are left, and the error of the last one -/
def initialStatus : Nat → Nat → Except Error Nat
  | 0, attempt =>
    .error (.transport (match O.status attempt with
      | .error failure => [readFailed (W.host ++ " " ++ W.mailbox) "reading the mailbox status" failure]
      | .ok _ => []))
  | left + 1, attempt =>
    match O.status (attempt + 1) with
    | .ok (some uidvalidity) => .ok uidvalidity
    | .ok none => .error (.transport [statusUnreadable W])
    | .error failure =>
      if failure.timesOut then initialStatus left (attempt + 1)
      else .error (.transport
        [readFailed (W.host ++ " " ++ W.mailbox) "reading the mailbox status" failure])

/-- mirrors curl.ts:149-167 -/
def searchUids (box : Mailbox) (fromUid : Nat) : Except Error (List Nat) :=
  match O.search with
  | some failure => .error (.transport
      [readFailed (W.host ++ " " ++ W.mailbox) "searching for new messages" failure])
  | none => .ok (((inRange box fromUid).filter (fromUid ≤ ·)).insertionSort (· ≤ ·))

/-- mirrors curl.ts:171-182 -/
def unseenUids (box : Mailbox) : Except Error (List Nat) :=
  match O.unseen with
  | some failure => .error (.transport
      [readFailed (W.host ++ " " ++ W.mailbox) "reading which messages are unread" failure])
  | none => .ok (unseen box)

/-- What a fetch leaves of the flags: it sets the message's, also where it fails after that. -/
def fetched (box : Mailbox) (uid : Nat) : Mailbox :=
  match O.fetch uid with
  | none => flagged box (· = uid) true
  | some .absent => box
  | some (.exited ..) => if O.marked uid then flagged box (· = uid) true else box

/-- A message that was fetched. -/
structure Fetch where
  item : Item
  rfc822 : List Text

/-- The items of `uids.map`, index.ts:829-836, and the mailbox as they leave it. -/
def fetchAll (uidvalidity : Nat) : List Nat → Mailbox → Except Error (List Fetch) × Mailbox
  | [], box => (.ok [], box)
  | uid :: uids, box =>
    let box := fetched O box uid
    match O.fetch uid with
    | some failure =>
      (.error (.transport [readFailed (W.host ++ " " ++ W.mailbox ++ " uid " ++ toString uid)
        ("fetching uid " ++ toString uid) failure]), box)
    | none =>
      let item : Item :=
        { mailbox := some W.mailbox, uidvalidity := some uidvalidity, uid := some uid
          position := positionOf uidvalidity uid, message := .error "" }
      let (rest, box) := fetchAll uidvalidity uids box
      (rest.map (⟨item, fetchMessage (O.content uid)⟩ :: ·), box)

def joinUids (uids : List Nat) : String := ",".intercalate (uids.map toString)

def unreadFlagNotRestored (uids : List Nat) (code : Int) : Fault :=
  ⟨"UNREAD_FLAG_NOT_RESTORED", W.mailbox ++ " " ++ joinUids uids,
    "reading these messages marked them read and curl exited " ++ toString code ++
      " putting the flag back",
    "a person reading this mailbox will see them as read; nothing was lost from the store"⟩

/-- mirrors curl.ts:208-220 -/
def restoreUnseen (uids : List Nat) (box : Mailbox) : Except Error (List Fault) × Mailbox :=
  if uids = [] then (.ok [], box)
  else match O.store with
  | none => (.ok [], flagged box (uids.contains ·) false)
  | some .absent => (.error (.transport [curlMissing]), box)
  | some (.exited code _ _) =>
    (.ok [unreadFlagNotRestored W uids code], flagged box (fun uid => uids.contains uid && O.restored uid) false)

/-! ## The poll -/

/-- `ImapPollResult`; the items with the lines that were fetched. -/
structure Result where
  items : List Fetch
  uidvalidity : Nat
  rescanned : Bool
  fromUid : Nat
  faults : List Fault

/-- The watermark: a UIDVALIDITY and a uid. -/
structure Watermark where
  validity : Nat
  uid : Nat

def wentBackwards (validity live : Nat) : Fault :=
  ⟨"UIDVALIDITY_WENT_BACKWARDS", W.mailbox ++ " " ++ toString live,
    "the mailbox reports a UIDVALIDITY below the one the watermark holds (" ++ toString validity ++
      "), which a server never does by itself",
    "this is a different mailbox behind the same name, or a restored backup; a person decides before the " ++
      "agent reads it"⟩

/-- Where the reading starts, and whether it starts anew, index.ts:810-823. -/
def startOf (held : Option Watermark) (live : Nat) : Except Error (Nat × Bool) :=
  match held with
  | none => .ok (1, false)
  | some w =>
    if w.validity = live then .ok (w.uid + 1, false)
    else if live < w.validity then .error (.transport [wentBackwards W w.validity live])
    else .ok (1, true)

/-- What is read, before anything is fetched: the messages to fetch, and which are unseen. -/
structure Plan where
  uidvalidity : Nat
  fromUid : Nat
  rescanned : Bool
  uids : List Nat
  unseen : List Nat

/-- mirrors index.ts:808-828 -/
def plan (held : Option Watermark) (box : Mailbox) : Except Error Plan := do
  let live ← initialStatus W O statusAttempts 0
  let (fromUid, rescanned) ← startOf W held live
  let uids ← searchUids W O box fromUid
  let unseen ← if uids = [] then .ok [] else unseenUids W O box
  return ⟨live, fromUid, rescanned, uids, unseen⟩

/-- How items are read: each is read or parked, or what the reader throws. -/
abbrev Reader := Item → List Text → Except Thrown ReadResult

/-- mirrors index.ts:799-844, from the reading of the watermark on -/
def poll (read : Reader) (held : Option Watermark) (box : Mailbox) : Except Error Result × Mailbox :=
  match plan W O held box with
  | .error e => (.error e, box)
  | .ok p =>
    match fetchAll W O p.uidvalidity p.uids box with
    | (.error e, box) => (.error e, box)
    | (.ok items, box) =>
      match items.mapM fun x => read x.item x.rfc822 with
      | .error e => (.error (.mime e), box)
      | .ok _ =>
        match restoreUnseen W O (p.uids.filter (p.unseen.contains ·)) box with
        | (.error e, box) => (.error e, box)
        | (.ok faults, box) => (.ok ⟨items, p.uidvalidity, p.rescanned, p.fromUid, faults⟩, box)

/-- The adapter's own reader. -/
def reader (P : Platform) (stored : MimeAttachment → Attachment) (M : Mail) (J : Js) (d : Disk)
    (cap : Option Nat) : Reader :=
  fun x lines => Mime.readItem P stored M J d x lines cap

end CarbonRuntime.Adapters.Email.Poll
