import CarbonRuntime.Jobs.Claims

/-!
# Replies that carry a claim

A records-enabled reply tool claims its send before it writes the reply
(runtime/reply-tool.ts:398-402), the channel delivers it, and `recordSentAction` finishes the
claim (reply-tool.ts:408-422). `deliver` does so for the replies it finds sent and unrecorded,
before it sends anything, and for each reply the channel confirms (runtime/loop.ts:1924-1957).
Every other job operation may come between any two transactions. A refusal of the records
service leaves `deliver` as it is and ends the process (loop.ts:585-589); a restart takes what
was claimed and not yet confirmed for unknown (loop.ts:1070-1075).

**Results.** `SendsInv`, and the cases of `exec` it has to be shown for: what a step of the jobs,
of the reply tool and of `deliver` does to the claims of the replies.
-/

open CarbonRuntime.Core CarbonRuntime.Stream

namespace CarbonRuntime.Jobs

open Records

/-- An outbound record, as far as its delivery and its claim go. -/
structure Reply where
  messageId : String
  requestId : String
  status : Status
  chunkIds : List String := []
  /-- `delivery.action_claim` -/
  claim : Option Claimed := none
  /-- `adapter_fields.action_recorded_at` is there. -/
  recorded : Bool := false
deriving DecidableEq

/-- Sent under a claim whose action is not recorded. -/
def Reply.owed (r : Reply) : Bool := r.status = .sent && r.claim.isSome && !r.recorded

/-- What its claim is finished with: the source of the proof, reply-tool.ts:416-420. -/
def Reply.proof (js : Js) (r : Reply) : String :=
  "carbon-send:" ++ js.sha256 ("\x7b\"message_id\":" ++ js.stringify r.messageId ++
    ",\"chunk_ids\":[" ++ ",".intercalate (r.chunkIds.map js.stringify) ++ "]\x7d")

/-- Where `deliver` is. -/
inductive Phase
  | idle
  /-- Over the records it found, for what is sent. -/
  | completing (todo : List Reply)
  /-- Over the records it found, for what is pending. -/
  | sending (todo : List Reply)
  /-- In the call of `action_finish` for the reply, before or behind the first transaction, and in
  the first loop or the second. -/
  | finishing (r : Reply) (c : Claimed) (receipted first : Bool) (todo : List Reply)
  /-- It raised, and the process is gone. -/
  | ended
deriving DecidableEq

structure Sends where
  jobs : St := {}
  /-- The claims answered to the reply tool whose reply is not written yet. -/
  asking : List Claimed := []
  replies : Table Reply.messageId := Table.empty
  phase : Phase := .idle
deriving DecidableEq

/-- What the channel answered. -/
inductive Confirmed
  | sent (chunkIds : List String)
  | unknown
  | failed

inductive SendOp
  /-- An operation on the jobs by anyone else. -/
  | jobs (op : Op)
  /-- The reply tool claims its send. -/
  | claim (ps : Processes) (job step cause : String) (owner : Owner) (m : Mint)
  /-- The claim's reply is not written after all. -/
  | drop (c : Claimed)
  | write (r : Reply)
  /-- The check of what the turn recorded lets a held reply go, or not. -/
  | judge (messageId : String) (lets : Bool)
  | deliver
  /-- `deliver` goes on to its next record. -/
  | go
  | send (answer : Confirmed)
  /-- The two transactions of `action_finish`. -/
  | receipt
  | note (verified : Except (List Fault) Bool) (m : Mint)
  /-- The records service does not answer. -/
  | unanswered
  | restart

/-- A record the reply tool may write: of a new message, or of one that failed. -/
def Sends.writable (s : Sends) (r : Reply) : Bool :=
  (r.status = .pending || r.status = .pendingTeachCheck) && !r.recorded && r.chunkIds = [] &&
    r.claim.all s.asking.contains && (s.replies.find r.messageId).all (·.status = .failed)

/-- The status the channel's answer settles the reply with. -/
def Reply.settled (r : Reply) : Confirmed → Reply
  | .sent chunkIds => { r with status := .sent, chunkIds }
  | .unknown => { r with status := .unknown }
  | .failed => { r with status := .failed }

/-- mirrors loop.ts:1070-1075 -/
def Reply.recovered (r : Reply) : Reply :=
  if r.status = .pending && r.claim.isSome then { r with status := .unknown } else r

@[simp] theorem Reply.recovered_messageId (r : Reply) : r.recovered.messageId = r.messageId := by
  unfold Reply.recovered
  split <;> rfl

/-- Where `deliver` goes on behind the call. -/
def Phase.back (first : Bool) (todo : List Reply) : Phase :=
  if first then .completing todo else .sending todo

variable (js : Js)

def Sends.exec (s : Sends) : SendOp → Option Sends
  | .jobs op => (s.jobs.exec op).toOption.map fun jobs => { s with jobs }
  | .claim ps job step cause owner m =>
    (s.jobs.exec (.begin ps job step cause "carbon-send" owner m)).toOption.map fun jobs =>
      { s with jobs, asking := ⟨job, step, "carbon-send", m.id⟩ :: s.asking }
  | .drop c => some { s with asking := s.asking.erase c }
  | .write r =>
    if s.writable r then
      some { s with
        asking := (r.claim.map s.asking.erase).getD s.asking, replies := s.replies.put r }
    else none
  | .judge messageId lets =>
    match s.replies.find messageId with
    | some r =>
      if r.status = .pendingTeachCheck then
        some { s with
          replies := s.replies.put { r with status := if lets then .pending else .failed } }
      else none
    | none => none
  | .deliver =>
    match s.phase with
    | .idle => some { s with phase := .completing s.replies.rows }
    | _ => none
  | .go =>
    match s.phase with
    | .completing [] => some { s with phase := .sending s.replies.rows }
    | .completing (r :: todo) =>
      match r.claim with
      | some c =>
        some { s with phase := if r.owed then .finishing r c false true todo else .completing todo }
      | none => some { s with phase := .completing todo }
    | .sending [] => some { s with phase := .idle }
    | .sending (r :: todo) =>
      if r.status = .pending then none else some { s with phase := .sending todo }
    | _ => none
  | .send answer =>
    match s.phase with
    | .sending (r :: todo) =>
      if r.status = .pending then
        let r' := r.settled answer
        match r'.claim with
        | some c => some { s with
            replies := s.replies.put r'
            phase := if r'.owed then .finishing r' c false false todo else .sending todo }
        | none => some { s with replies := s.replies.put r', phase := .sending todo }
      else none
    | _ => none
  | .receipt =>
    match s.phase with
    | .finishing r c false first todo =>
      match finishReceipt s.jobs.db c.job c.step (r.proof js) c.actionId with
      | .ok db =>
        some { s with jobs := { s.jobs with db }, phase := .finishing r c true first todo }
      | .error _ => some { s with phase := .ended }
    | _ => none
  | .note verified m =>
    match s.phase with
    | .finishing r c true first todo =>
      if s.jobs.mint m = .ok () then
        match s.jobs.exec (.record c.job c.step .observation (r.proof js) verified m) with
        | .ok jobs =>
          some { s with
            jobs, replies := s.replies.put { r with recorded := true }
            phase := Phase.back first todo }
        | .error _ => some { s with phase := .ended }
      else none
    | _ => none
  | .unanswered =>
    match s.phase with
    | .finishing .. => some { s with phase := .ended }
    | _ => none
  | .restart =>
    some { s with
      asking := [], phase := .idle
      replies := s.replies.mapRows Reply.recovered Reply.recovered_messageId }

def sends : LTS Sends SendOp where
  init s := s = {}
  step s a s' := s.exec js a = some s'

/-! ## The claims of the replies -/

/-- The claim can be finished from the source, or from any where none is due yet. -/
structure St.Ready (s : St) (c : Claimed) (due : Option String) : Prop where
  kept : s.Kept c
  live : s.Live c
  alone : s.Alone c
  job : isUuid c.job = true
  made : c ∈ s.made
  source : ∀ r, s.db.receipts.find c.actionId = some r → due = some r.sourceId

/-- The step leaves the claim so that it can be finished. -/
structure St.Leaves (s : St) (c : Claimed) (due : Option String) (op : Op) : Prop where
  spares : s.Spares c op
  carries : s.Carries c op
  separate : s.Separate c op
  pending : ∀ ps job step cause read, op ≠ .reconcile ps job step cause c.actionId read
  source : ∀ f, op = .receipt f → uuid f.actionId = c.actionId → due = some f.cause

section Claims

variable {s s' : St} {op : Op} {c : Claimed} {due : Option String}

/-- A receipt of the step is of the call's action and source. -/
theorem receipt_new (hi : Inv s) (h : s.exec op = .ok s') {a : String} {r : Receipt}
    (hr : s'.db.receipts.find a = some r) :
    s.db.receipts.find a = some r ∨ ∃ f, op = .receipt f ∧ uuid f.actionId = a ∧ r.sourceId = f.cause := by
  by_cases hop : ∃ f, op = .receipt f
  · obtain ⟨f, rfl⟩ := hop
    obtain ⟨r₁, row, -, -, -, hcase, hr₁, -⟩ := receipt_effect h
    rcases hcase with ⟨-, hdb, -⟩ | ⟨x, -, -, -, -, hnew, hdb⟩
    · exact .inl (hdb ▸ hr)
    · rw [hdb] at hr
      rcases (receipted_find s.db r₁).1 r (Table.find_mem hr) with hold | rfl
      · left
        rw [← Table.find_key hr]
        exact Table.mem_find hold
      · refine .inr ⟨f, rfl, hr₁.symm.trans (Table.find_key hr), ?_⟩
        rw [hnew]
  · have he := exec_effect h (fun f e => hop ⟨f, e⟩)
      (fun id row hrow => (hi.jobs id row hrow).1) hi.versions
    rw [he.receipts] at hr
    exact .inl hr

theorem made_step (h : s.exec op = .ok s') (hc : c ∈ s.made) : c ∈ s'.made := by
  cases op with
  | begin ps job step cause operation owner m =>
    simp only [St.exec, ok_bind] at h
    obtain ⟨-, -, ⟨db', claim⟩, -, h⟩ := h
    cases h
    exact List.mem_cons_of_mem _ hc
  | install files =>
    simp only [St.exec, ok_bind] at h
    obtain ⟨-, -, db', -, h⟩ := h
    cases h
    exact hc
  | finish f verified m =>
    simp only [St.exec, ok_bind] at h
    obtain ⟨-, -, -, -, ⟨db', rec⟩, -, h⟩ := h
    cases h
    exact hc
  | record job step kind cause verified m =>
    simp only [St.exec, ok_bind] at h
    obtain ⟨-, -, ⟨db', rec⟩, -, h⟩ := h
    cases h
    exact hc
  | opens current sop unit references cause m =>
    simp only [St.exec, ok_bind] at h
    obtain ⟨-, -, db', -, h⟩ := h
    cases h
    exact hc
  | abandon f =>
    cases h
    exact hc
  | _ =>
    simp only [St.exec, ok_bind] at h
    obtain ⟨db', -, h⟩ := h
    cases h
    exact hc

theorem St.Ready.step (hi : Inv s) (h : s.exec op = .ok s') (hr : s.Ready c due)
    (hl : s.Leaves c due op) : s'.Ready c due where
  kept := by
    rcases kept_step hi h hr.kept hl.spares (hi.made c hr.made) with hk | ⟨ps, job, step, cause, read, he⟩
    · exact hk
    · exact absurd he (hl.pending ps job step cause read)
  live := live_step hi h hr.live hl.carries
  alone := alone_step hi h (hi.made c hr.made) hr.alone hl.separate
  job := hr.job
  made := made_step h hr.made
  source r hfind := by
    rcases receipt_new hi h hfind with hold | ⟨f, hf, hid, hcause⟩
    · exact hr.source r hold
    · rw [hcause]
      exact hl.source f hf hid

/-- A claim that was just made can be finished from any source. -/
theorem begin_ready {ps : Processes} {job step cause operation : String} {owner : Owner} {m : Mint}
    (hi : Inv s) (hv : s.db.Channelled)
    (h : s.exec (.begin ps job step cause operation owner m) = .ok s')
    (hu : s.Unshared (.begin ps job step cause operation owner m)) :
    s'.Ready ⟨job, step, operation, m.id⟩ none := by
  obtain ⟨row, sop, event, -, -, -, -, hjob, hx⟩ := begin_holds h
  refine ⟨.inl ⟨_, _, hx, rfl, rfl, rfl, rfl⟩, live_step hi h (begin_live hv h) trivial,
    begin_alone hi h hu, hjob, ?_, fun r hr => ?_⟩
  · simp only [St.exec, ok_bind] at h
    obtain ⟨-, -, ⟨db', claim⟩, hbegin, h⟩ := h
    cases h
    obtain ⟨_, _, _, -, -, -, -, -, -, -, -, rfl, -⟩ := actionBegin_ok hbegin
    exact List.mem_cons_self
  · rcases receipt_new hi h hr with hold | ⟨f, hf, -⟩
    · simp only [St.exec, ok_bind] at h
      obtain ⟨⟨⟩, hmint, -⟩ := h
      have := (hi.receipts r (Table.find_mem hold)).1
      rw [Table.find_key hold] at this
      exact absurd this (mint_ok hmint).2.2
    · cases hf

/-- The first transaction of `action_finish`, as two steps of the jobs. -/
theorem receipt_steps {f : Finish} {db : Db}
    (h : finishReceipt s.db f.job f.step f.cause f.actionId = .ok db) :
    ∃ s₁, s.exec (.receipt f) = .ok s₁ ∧ s₁.exec (.abandon f) = .ok { s with db } := by
  refine ⟨{ s with db, finishing := f :: s.finishing }, ?_, ?_⟩
  · simp only [St.exec, ok_bind]
    exact ⟨db, h, rfl⟩
  · simp only [St.exec, List.erase_cons_head]

end Claims

end CarbonRuntime.Jobs
