import CarbonRuntime.Core.Check
import CarbonRuntime.Core.Json
import CarbonRuntime.Core.Rewrite
import CarbonRuntime.Core.Utf8

/-!
# The program harness (harness/program/index.ts)

A turn runs the handler in its sandbox with the declared secrets in its environment. What it prints
is refused where `redactSecrets` finds a delivered secret in it, and is read as one result document
otherwise. A result keeps its strings as the handler spelled them.

**Results.** `step_settled`: the first outcome stands. `run_ok`: what `runHandler` resolves with was
read from an output in which no secret was found. `parse_spelled`: every string of a result stands in the
output as it is spelled.
-/

open CarbonRuntime.Core Utf16 Json

namespace CarbonRuntime.Harness.Program

structure ProgramFault where
  code : String
  subject : Text
  problem : Text
  fix : String
deriving DecidableEq

/-! ## The result document, index.ts:24-34, 109-207 -/

inductive Disposition
  | reply | noReply | missingCase
deriving DecidableEq

structure ProgramReply where
  conversationId : Option Literal
  requestId : Option Literal
  text : Literal
  attachments : Option (List Literal) := none
  aboutJob : Option Literal := none
  aboutMove : Option Literal := none
deriving DecidableEq

structure ProgramBody where
  disposition : Disposition
  /-- The string it was read from. -/
  said : Literal
  replies : List ProgramReply
  observations : List (Literal × Literal)
  /-- A name, and a number as it is spelled. -/
  timings : List (Literal × Text)
deriving DecidableEq

/-- What the turn is of: `undefined` where the envelope has no such field. -/
structure Envelope where
  conversationId : Option Text
  releaseId : Option Text

structure Box where
  /-- The directory the process runs in, and the work directory as it is given. -/
  cwd : Text
  work : Text
  /-- The number so spelled is finite and not below zero. -/
  usable : Text → Bool

/-- mirrors index.ts:109-112 -/
def invalid (subject problem : String) : ProgramFault :=
  ⟨"PROGRAM_RESPONSE_INVALID", ofString subject, ofString problem,
    "print one carbon.program-result.v1 JSON document on stdout and exit 0"⟩

/-! ### Paths -/

/-- `text.split('/')` -/
def splitSlash : Text → List Text
  | [] => [[]]
  | u :: t =>
    if u = chr '/' then [] :: splitSlash t
    else match splitSlash t with
      | part :: parts => (u :: part) :: parts
      | [] => [[u]]

/-- The parts of a path without `.` and `..`, the last one first. -/
def climbed : List Text → List Text → List Text
  | at_, [] => at_
  | at_, part :: parts =>
    if part = [] ∨ part = ofString "." then climbed at_ parts
    else if part = ofString ".." then climbed at_.tail parts
    else climbed (part :: at_) parts

def isAbsolute (p : Text) : Bool := p.head? = some (chr '/')

/-- `path.resolve(p)`, as the parts of the path. -/
def resolve (cwd p : Text) : List Text :=
  (climbed [] (splitSlash (if isAbsolute p then p else cwd ++ chr '/' :: p))).reverse

/-- mirrors index.ts:53-56 -/
def contained (root candidate : List Text) : Bool :=
  match candidate.dropPrefix? root with
  | some (part :: _) => !(ofString "..").isPrefixOf part
  | some [] => true
  | none => false

/-- mirrors index.ts:114-118 -/
def underWork (box : Box) (given : Text) : Bool :=
  contained (resolve box.cwd box.work) (resolve box.cwd given)

/-! ### Fields -/

/-- A string that is there. -/
def asString : Option Value → Option Literal
  | some (.string l) => some l
  | _ => none

/-- A string of so many characters. -/
def bounded (least most : Nat) (v : Option Value) : Option Literal :=
  (asString v).bind fun l => if least ≤ l.length ∧ l.length ≤ most then some l else none

/-- The items of a list of at most so many. -/
def listed (most : Nat) : Value → Option (List Value)
  | .array items => if items.length ≤ most then some items else none
  | _ => none

def isRecord : Value → Bool
  | .object _ => true
  | _ => false

/-- `typeof item === 'object'` of what is not null. -/
def isObject : Value → Bool
  | .object _ | .array _ => true
  | _ => false

/-- mirrors index.ts:120-128 -/
def validateAttachments (box : Box) (v : Value) : Except ProgramFault (List Literal) := do
  let items ← present (listed 100 v) (invalid "replies[0].attachments"
    "attachments is a list of at most 100 absolute work paths")
  items.mapM fun item => present
    ((asString (some item)).bind fun l =>
      if isAbsolute l.text && underWork box l.text then some l else none)
    (invalid "replies[0].attachments" "each attachment is an absolute path inside the work directory")

/-- mirrors index.ts:130-134 -/
def optionalString (item : Value) (key : String) : Except ProgramFault (Option Literal) :=
  match item.field (ofString key) with
  | none => .ok none
  | some v => do
    let l ← present (asString (some v))
      (invalid ("replies[0]." ++ key) (key ++ " is a string when the handler sends one"))
    return some l

/-- The field is what the turn says, or missing as it is there. -/
def expected (item : Value) (key : String) (given : Option Text) : Option (Option Literal) :=
  match item.field (ofString key) with
  | none => if given = none then some none else none
  | some v => (asString (some v)).bind fun l => if given = some l.text then some (some l) else none

/-- mirrors index.ts:136-159 -/
def validateReply (box : Box) (envelope : Envelope) (reply : Value) :
    Except ProgramFault ProgramReply := do
  check (isRecord reply) (invalid "replies[0]" "a reply is one object")
  let conversationId ← present (expected reply "conversation_id" envelope.conversationId)
    (invalid "replies[0].conversation_id" "conversation_id must be the conversation on this release")
  let requestId ← present (expected reply "request_id" envelope.releaseId)
    (invalid "replies[0].request_id" "request_id must be the release id the runtime fenced")
  let text ← present (bounded 1 10000 (reply.field (ofString "text")))
    (invalid "replies[0].text" "reply text is a string of 1 to 10000 characters")
  let attachments ← (reply.field (ofString "attachments")).mapM (validateAttachments box)
  let aboutJob ← optionalString reply "about_job"
  let aboutMove ← optionalString reply "about_move"
  return { conversationId, requestId, text, attachments, aboutJob, aboutMove }

/-- mirrors index.ts:161-170, one item -/
def validateObservation (item : Value) : Except ProgramFault (Literal × Literal) := do
  check (isObject item) (invalid "observations" "each observation is an object")
  let name ← present (bounded 1 64 (item.field (ofString "name")))
    (invalid "observations.name" "an observation name is 1 to 64 characters")
  let detail ← present (bounded 0 500 (item.field (ofString "detail")))
    (invalid "observations.detail" "an observation detail is at most 500 characters")
  return (name, detail)

/-- A number that can be a time. -/
def usableNumber (box : Box) : Option Value → Option Text
  | some (.number literal) => if box.usable literal then some literal else none
  | _ => none

/-- mirrors index.ts:172-181, one item -/
def validateTiming (box : Box) (item : Value) : Except ProgramFault (Literal × Text) := do
  check (isObject item) (invalid "timings" "each timing is an object")
  let name ← present (bounded 1 64 (item.field (ofString "name")))
    (invalid "timings.name" "a timing name is 1 to 64 characters")
  let ms ← present (usableNumber box (item.field (ofString "ms")))
    (invalid "timings.ms" "a timing ms is a finite number of zero or more")
  return (name, ms)

/-- `field ?? []` -/
def orEmpty : Option Value → Value
  | none | some .null => .array []
  | some v => v

def validateObservations (v : Value) : Except ProgramFault (List (Literal × Literal)) := do
  let items ← present (listed 32 v)
    (invalid "observations" "observations is a list of at most 32 \x7bname, detail\x7d records")
  items.mapM validateObservation

def validateTimings (box : Box) (v : Value) : Except ProgramFault (List (Literal × Text)) := do
  let items ← present (listed 32 v)
    (invalid "timings" "timings is a list of at most 32 \x7bname, ms\x7d records")
  items.mapM (validateTiming box)

def dispositions : List (Text × Disposition) :=
  [(ofString "reply", .reply), (ofString "no_reply", .noReply),
    (ofString "missing_case", .missingCase)]

/-- A string that names a disposition. -/
def dispositionOf (v : Option Value) : Option (Disposition × Literal) := do
  let l ← asString v
  let d ← dispositions.find? (·.1 = l.text)
  return (d.2, l)

def arrayOf : Option Value → Option (List Value)
  | some (.array items) => some items
  | _ => none

/-- mirrors index.ts:183-207 -/
def parseProgramResult (box : Box) (envelope : Envelope) (text : Text) :
    Except ProgramFault ProgramBody := do
  let doc ← present (parse text) (invalid "stdout" "the handler stdout is not one JSON document")
  check (isRecord doc) (invalid "stdout" "the handler result is not one object")
  check ((asString (doc.field (ofString "schema"))).map Literal.text =
      some (ofString "carbon.program-result.v1"))
    (invalid "schema" "schema must be carbon.program-result.v1")
  let (disposition, said) ← present (dispositionOf (doc.field (ofString "disposition")))
    (invalid "disposition" "disposition is reply, no_reply, or missing_case")
  let replies ← present (arrayOf (doc.field (ofString "replies")))
    (invalid "replies" "replies is an array")
  check (replies.length = if disposition = .reply then 1 else 0) (invalid "replies"
    "disposition reply carries exactly one reply and the other dispositions carry none")
  let replies ← replies.mapM (validateReply box envelope)
  let observations ← validateObservations (orEmpty (doc.field (ofString "observations")))
  let timings ← validateTimings box (orEmpty (doc.field (ofString "timings")))
  return { disposition, said, replies, observations, timings }

/-! ## Secrets, index.ts:405-411 -/

def redacted : Text := ofString "[redacted]"

/-- A value, and how `JSON.stringify` writes it where that is another text. -/
def forms (value : Text) : List Text :=
  if stringify value = value then [value] else [value, stringify value]

/-- `text.split(form).join('[redacted]')` -/
def redactForm (text form : Text) : Text := Rewrite.replaceAll (·.dropPrefix? form) redacted text

/-- mirrors index.ts:405-411 -/
def redactSecrets (text : Text) (values : List Text) : Text :=
  (values.flatMap forms).foldl redactForm text

/-! ## A run of the handler, index.ts:428-495 -/

def outputCap : Nat := 1024 * 1024
def stderrTail : Nat := 500
def stderrWindow : Nat := 8192

inductive Event
  | stdout (chunk : List Nat)
  | stderr (chunk : List Nat)
  | timeout
  | error (message : Text)
  /-- `none` where a signal ended the child. -/
  | close (code : Option Nat)

structure Session where
  entrypoint : Text
  box : Box
  envelope : Envelope
  timeoutMs : Nat
  /-- The values of the delivered secrets; an empty one is refused as it is loaded. -/
  values : List Text
  delivered : ∀ value ∈ values, value ≠ []

structure Handler where
  stdout : List Nat := []
  stderr : List Nat := []
  stderrCut : Bool := false
  outcome : Option (Except ProgramFault ProgramBody) := none

variable (S : Session)

def clean (text : Text) : Text := redactSecrets text S.values

/-- `buffer.toString('utf8')` -/
def decoded (bytes : List Nat) : Text := ofChars (Utf8.decode bytes)

/-- The first outcome stands. -/
def Handler.settle (h : Handler) (outcome : Except ProgramFault ProgramBody) : Handler :=
  { h with outcome := h.outcome.or (some outcome) }

/-- mirrors index.ts:477-479: what is shown of the standard error -/
def tailOf (h : Handler) : Text :=
  let drop := if h.stderrCut then
    (S.values.map fun value => (Utf8.encode (chars value)).length).foldl max 0 else 0
  let tail := clean S (decoded (h.stderr.drop drop))
  tail.drop (tail.length - stderrTail)

def exited (problem : Text) (fix : String) : ProgramFault :=
  ⟨"PROGRAM_HANDLER_EXITED", S.entrypoint, problem, fix⟩

/-- mirrors index.ts:473-492: what the end of the child comes to -/
def closed (h : Handler) (code : Option Nat) : Except ProgramFault ProgramBody :=
  if code ≠ some 0 then
    let tail := tailOf S h
    .error (exited S (ofString ("the handler exited " ++ (code.map toString).getD "null") ++
      if tail = [] then [] else ofString ": " ++ tail)
      "fix the entrypoint; a program turn does not fall back to Codex")
  else
    let text := decoded h.stdout
    if clean S text ≠ text then
      .error (invalid "stdout" "the handler result carries a delivered secret value")
    else parseProgramResult S.box S.envelope text

def step (h : Handler) : Event → Handler
  | .stdout chunk =>
    let h := { h with stdout := h.stdout ++ chunk }
    if outputCap < h.stdout.length then
      h.settle (.error ⟨"PROGRAM_OUTPUT_TOO_LARGE", S.entrypoint,
        ofString ("the handler wrote more than " ++ toString outputCap ++ " bytes on stdout"),
        "write one result document and nothing else"⟩)
    else h
  | .stderr chunk =>
    let joined := h.stderr ++ chunk
    { h with
      stderr := joined.drop (joined.length - stderrWindow)
      stderrCut := h.stderrCut || decide (stderrWindow < joined.length) }
  | .timeout => h.settle (.error ⟨"PROGRAM_TURN_TIMED_OUT", S.entrypoint,
      ofString ("the program handler exceeded " ++ toString S.timeoutMs ++ " ms and was killed"),
      "make the handler finish within limits.max_turn_ms, or raise that limit"⟩)
  | .error message => h.settle (.error (exited S (clean S message)
      "the entrypoint must be runnable by node"))
  | .close code => h.settle (closed S h code)

def run (events : List Event) : Handler := events.foldl (step S) {}

/-! ## What a result says -/

def ProgramReply.literals (r : ProgramReply) : List Literal :=
  r.conversationId.toList ++ r.requestId.toList ++ [r.text] ++ r.attachments.getD [] ++
    r.aboutJob.toList ++ r.aboutMove.toList

/-- Every string of a result. -/
def ProgramBody.literals (b : ProgramBody) : List Literal :=
  [b.said] ++ b.replies.flatMap ProgramReply.literals ++
    b.observations.flatMap (fun o => [o.1, o.2]) ++ b.timings.map (·.1)

variable {t : Text} {v : Value} {l : Literal}

theorem asString_some {v : Option Value} (h : asString v = some l) : v = some (.string l) := by
  unfold asString at h
  split at h
  · rw [Option.some.inj h]
  · cases h

/-- A string stands in the text as it is spelled. -/
theorem within_string (h : Within t (.string l)) : l.spelled <:+: t := by
  cases h with
  | string hin => exact hin

theorem asString_spelled {name : Text} (h : Within t v) (hf : asString (v.field name) = some l) :
    l.spelled <:+: t := within_string (h.field (asString_some hf))

theorem bounded_spelled {least most : Nat} {name : Text} (h : Within t v)
    (hb : bounded least most (v.field name) = some l) : l.spelled <:+: t := by
  obtain ⟨l', hl, hi⟩ := Option.bind_eq_some_iff.1 hb
  obtain ⟨-, hi⟩ := Option.ite_none_right_eq_some.1 hi
  obtain rfl := Option.some.inj hi
  exact asString_spelled h hl

theorem listed_within {most : Nat} {vs : List Value} (h : Within t v) (hl : listed most v = some vs) :
    ∀ w ∈ vs, Within t w := by
  unfold listed at hl
  split at hl
  · obtain ⟨-, hl⟩ := Option.ite_none_right_eq_some.1 hl
    obtain rfl := Option.some.inj hl
    cases h with
    | array hall => exact hall
  · cases hl

theorem expected_spelled {key : String} {given : Option Text} {o : Option Literal} (h : Within t v)
    (he : expected v key given = some o) : ∀ l ∈ o, l.spelled <:+: t := by
  unfold expected at he
  split at he
  · obtain ⟨-, he⟩ := Option.ite_none_right_eq_some.1 he
    obtain rfl := Option.some.inj he
    exact fun _ hl => nomatch hl
  · rename_i w hf
    obtain ⟨l', hl', he⟩ := Option.bind_eq_some_iff.1 he
    obtain ⟨-, he⟩ := Option.ite_none_right_eq_some.1 he
    obtain rfl := Option.some.inj he
    intro l hl
    rw [← Option.some.inj hl]
    exact asString_spelled h (hf ▸ hl')

theorem optionalString_spelled {key : String} {o : Option Literal} (h : Within t v)
    (he : optionalString v key = .ok o) : ∀ l ∈ o, l.spelled <:+: t := by
  unfold optionalString at he
  split at he
  · obtain rfl := Except.ok.inj he
    exact fun _ hl => nomatch hl
  · rename_i w hf
    obtain ⟨l', hl', he⟩ := ok_bind.1 he
    obtain rfl := Except.ok.inj he
    intro l hl
    rw [← Option.some.inj hl]
    exact asString_spelled h (hf ▸ ok_present.1 hl')

theorem validateAttachments_spelled {box : Box} {ls : List Literal} (h : Within t v)
    (he : validateAttachments box v = .ok ls) : ∀ l ∈ ls, l.spelled <:+: t := by
  obtain ⟨items, hitems, he⟩ := ok_bind.1 he
  intro l hl
  obtain ⟨item, hitem, hok⟩ := (ok_mapM he).2 l hl
  obtain ⟨l', hl', hp⟩ := Option.bind_eq_some_iff.1 (ok_present.1 hok)
  obtain ⟨-, hp⟩ := Option.ite_none_right_eq_some.1 hp
  obtain rfl := Option.some.inj hp
  have hin := listed_within h (ok_present.1 hitems) item hitem
  rw [Option.some.inj (asString_some hl')] at hin
  exact within_string hin

theorem validateReply_spelled {box : Box} {envelope : Envelope} {r : ProgramReply}
    (h : Within t v) (he : validateReply box envelope v = .ok r) :
    ∀ l ∈ r.literals, l.spelled <:+: t := by
  unfold validateReply at he
  obtain ⟨-, he⟩ := ok_check_bind.1 he
  obtain ⟨conversationId, hconv, he⟩ := ok_bind.1 he
  obtain ⟨requestId, hreq, he⟩ := ok_bind.1 he
  obtain ⟨text, htext, he⟩ := ok_bind.1 he
  obtain ⟨attachments, hatt, he⟩ := ok_bind.1 he
  obtain ⟨aboutJob, hjob, he⟩ := ok_bind.1 he
  obtain ⟨aboutMove, hmove, he⟩ := ok_bind.1 he
  obtain rfl := Except.ok.inj he
  have hattachments : ∀ l ∈ attachments.getD [], l.spelled <:+: t := by
    cases hf : v.field (ofString "attachments") with
    | none =>
      rw [hf] at hatt
      obtain rfl := Except.ok.inj hatt
      exact fun _ hl => nomatch hl
    | some w =>
      rw [hf] at hatt
      obtain ⟨ls, hls, hatt⟩ := ok_bind.1 hatt
      obtain rfl := Except.ok.inj hatt
      exact validateAttachments_spelled (h.field hf) hls
  intro l hl
  simp only [ProgramReply.literals, List.mem_append, Option.mem_toList, List.mem_singleton] at hl
  rcases hl with ((((hl | hl) | rfl) | hl) | hl) | hl
  · exact expected_spelled h (ok_present.1 hconv) l hl
  · exact expected_spelled h (ok_present.1 hreq) l hl
  · exact bounded_spelled h (ok_present.1 htext)
  · exact hattachments l hl
  · exact optionalString_spelled h hjob l hl
  · exact optionalString_spelled h hmove l hl

theorem orEmpty_within {name : Text} (h : Within t v) : Within t (orEmpty (v.field name)) := by
  unfold orEmpty
  split
  · exact .array fun _ hw => nomatch hw
  · exact .array fun _ hw => nomatch hw
  · rename_i w _ hf
    exact h.field hf

theorem arrayOf_within {name : Text} {vs : List Value} (h : Within t v)
    (hf : arrayOf (v.field name) = some vs) : ∀ w ∈ vs, Within t w := by
  unfold arrayOf at hf
  split at hf
  · rename_i items hitems
    obtain rfl := Option.some.inj hf
    cases h.field hitems with
    | array hall => exact hall
  · cases hf

theorem validateObservation_spelled {o : Literal × Literal} (h : Within t v)
    (he : validateObservation v = .ok o) : o.1.spelled <:+: t ∧ o.2.spelled <:+: t := by
  unfold validateObservation at he
  obtain ⟨-, he⟩ := ok_check_bind.1 he
  obtain ⟨name, hname, he⟩ := ok_bind.1 he
  obtain ⟨detail, hdetail, he⟩ := ok_bind.1 he
  obtain rfl := Except.ok.inj he
  exact ⟨bounded_spelled h (ok_present.1 hname), bounded_spelled h (ok_present.1 hdetail)⟩

theorem validateTiming_spelled {box : Box} {o : Literal × Text} (h : Within t v)
    (he : validateTiming box v = .ok o) : o.1.spelled <:+: t := by
  unfold validateTiming at he
  obtain ⟨-, he⟩ := ok_check_bind.1 he
  obtain ⟨name, hname, he⟩ := ok_bind.1 he
  obtain ⟨ms, -, he⟩ := ok_bind.1 he
  obtain rfl := Except.ok.inj he
  exact bounded_spelled h (ok_present.1 hname)

/-- Every string of a result stands in the output as it is spelled. -/
theorem parse_spelled {box : Box} {envelope : Envelope} {body : ProgramBody}
    (h : parseProgramResult box envelope t = .ok body) : ∀ l ∈ body.literals, l.spelled <:+: t := by
  unfold parseProgramResult at h
  obtain ⟨doc, hdoc, h⟩ := ok_bind.1 h
  obtain ⟨-, h⟩ := ok_check_bind.1 h
  obtain ⟨-, h⟩ := ok_check_bind.1 h
  obtain ⟨⟨disposition, said⟩, hdisposition, h⟩ := ok_bind.1 h
  obtain ⟨replies, hreplies, h⟩ := ok_bind.1 h
  obtain ⟨-, h⟩ := ok_check_bind.1 h
  obtain ⟨replies', hreplies', h⟩ := ok_bind.1 h
  obtain ⟨observations, hobservations, h⟩ := ok_bind.1 h
  obtain ⟨timings, htimings, h⟩ := ok_bind.1 h
  obtain rfl := Except.ok.inj h
  have hin : Within t doc := parse_within (ok_present.1 hdoc)
  intro l hl
  simp only [ProgramBody.literals, List.mem_append, List.mem_singleton, List.mem_flatMap,
    List.mem_map] at hl
  rcases hl with ((rfl | ⟨r, hr, hl⟩) | ⟨o, ho, hl⟩) | ⟨o, ho, rfl⟩
  · obtain ⟨l', hl', hd⟩ := Option.bind_eq_some_iff.1 (ok_present.1 hdisposition)
    obtain ⟨d, -, hd⟩ := Option.bind_eq_some_iff.1 hd
    obtain rfl := (Prod.mk.inj (Option.some.inj hd)).2
    exact asString_spelled hin hl'
  · obtain ⟨w, hw, hok⟩ := (ok_mapM hreplies').2 r hr
    exact validateReply_spelled (arrayOf_within hin (ok_present.1 hreplies) w hw) hok l hl
  · obtain ⟨items, hitems, hrows⟩ := ok_bind.1 hobservations
    obtain ⟨w, hw, hok⟩ := (ok_mapM hrows).2 o ho
    have := validateObservation_spelled
      (listed_within (orEmpty_within hin) (ok_present.1 hitems) w hw) hok
    simp only [List.mem_cons, List.not_mem_nil, or_false] at hl
    rcases hl with rfl | rfl
    · exact this.1
    · exact this.2
  · obtain ⟨items, hitems, hrows⟩ := ok_bind.1 htimings
    obtain ⟨w, hw, hok⟩ := (ok_mapM hrows).2 o ho
    exact validateTiming_spelled (listed_within (orEmpty_within hin) (ok_present.1 hitems) w hw) hok

/-! ## What a run comes to -/

variable {S : Session} {h : Handler} {outcome : Except ProgramFault ProgramBody}

theorem settle_some (ho : h.outcome = some outcome) (other : Except ProgramFault ProgramBody) :
    (h.settle other).outcome = some outcome := by
  rw [Handler.settle, ho]
  rfl

theorem step_settled (ho : h.outcome = some outcome) (e : Event) :
    (step S h e).outcome = some outcome := by
  cases e with
  | stdout chunk =>
    rw [step]
    split
    · exact settle_some (h := { h with stdout := h.stdout ++ chunk }) ho _
    · exact ho
  | stderr chunk =>
    rw [step]
    exact ho
  | timeout => exact settle_some ho _
  | error message => exact settle_some ho _
  | close code => exact settle_some ho _

/-- The first outcome stands. -/
theorem steps_settled (ho : h.outcome = some outcome) (events : List Event) :
    (events.foldl (step S) h).outcome = some outcome := by
  induction events generalizing h with
  | nil => exact ho
  | cons e events ih => exact ih (step_settled ho e)

/-- What is printed while nothing has settled. -/
def printed : List Event → List Nat
  | [] => []
  | .stdout chunk :: events => chunk ++ printed events
  | .stderr _ :: events => printed events
  | .timeout :: _ | .error _ :: _ | .close _ :: _ => []

theorem settle_none (ho : h.outcome = none) (other : Except ProgramFault ProgramBody) :
    (h.settle other).outcome = some other := by
  rw [Handler.settle, ho]
  rfl

/-- What goes to the standard error changes nothing else. -/
theorem step_stderr (h : Handler) (chunk : List Nat) : ∃ tail cut,
    step S h (.stderr chunk) = { h with stderr := tail, stderrCut := cut } := ⟨_, _, rfl⟩

/-- A result is read from all that was printed, and in that no secret was found. -/
theorem steps_ok {body : ProgramBody} (events : List Event) (ho : h.outcome = none)
    (hb : (events.foldl (step S) h).outcome = some (.ok body)) :
    clean S (decoded (h.stdout ++ printed events)) = decoded (h.stdout ++ printed events) ∧
      parseProgramResult S.box S.envelope (decoded (h.stdout ++ printed events)) = .ok body := by
  induction events generalizing h with
  | nil =>
    rw [List.foldl_nil, ho] at hb
    cases hb
  | cons e events ih =>
    rw [List.foldl_cons] at hb
    cases e with
    | stdout chunk =>
      rw [step] at hb
      split at hb
      · rw [steps_settled (settle_none (h := { h with stdout := h.stdout ++ chunk }) ho _)] at hb
        cases hb
      · have := ih (h := { h with stdout := h.stdout ++ chunk }) ho hb
        rwa [printed, ← List.append_assoc]
    | stderr chunk =>
      obtain ⟨tail, cut, hstep⟩ := step_stderr (S := S) h chunk
      rw [hstep] at hb
      exact ih (h := { h with stderr := tail, stderrCut := cut }) ho hb
    | timeout =>
      rw [step, steps_settled (settle_none ho _)] at hb
      cases hb
    | error message =>
      rw [step, steps_settled (settle_none ho _)] at hb
      cases hb
    | close code =>
      rw [step, steps_settled (settle_none ho _), Option.some.injEq, closed] at hb
      rw [printed, List.append_nil]
      split at hb
      · cases hb
      · dsimp only at hb
        split at hb
        · cases hb
        · rename_i hclean
          exact ⟨not_not.1 hclean, hb⟩

/-- What `runHandler` resolves with was read from an output in which no secret was found. -/
theorem run_ok {events : List Event} {body : ProgramBody}
    (h : (run S events).outcome = some (.ok body)) :
    clean S (decoded (printed events)) = decoded (printed events) ∧
      parseProgramResult S.box S.envelope (decoded (printed events)) = .ok body :=
  steps_ok events rfl h

end CarbonRuntime.Harness.Program
