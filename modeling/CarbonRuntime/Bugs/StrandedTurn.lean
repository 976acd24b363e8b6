import CarbonRuntime.Harness.Turns

/-!
# A turn on a connection that has failed

What ends a connection rejects every request on it (harness/codex/protocol.ts:178-184). A call of `turn` that
was answered waits for a notification, and is rejected by the end of the child or by its timer, not by the
connection (turn.ts:91-107): where the stream closes and the child does not exit, or a line is over the limit and
nothing is read any more, it waits on. Items notified behind a completion, or twice, are missing from
what it returns or in it twice, and a completion that names two turns is taken for either.

A run in which none of this happens keeps every promise of the claim (`turns_kept`): a connection that ends
leaves no call waiting exactly where the child is gone or none waited (`closing_iff`).

Counterexample: turn/start is answered, and a line is one over the limit.
-/

open CarbonRuntime.Core Utf16

namespace CarbonRuntime.Bugs.StrandedTurn

open Harness Session

variable {parse : Text → Option Message} {answer : Text → Option Message → Option Message} {s s' : Session}
  {i : Input} {c : Call} {problem : String}

/-! ## What is to be kept -/

/-- No completion is waited for. -/
def Free (s : Session) : Prop := ∀ c ∈ s.calls, isWaiting c = false

structure TurnsKept (s : Session) : Prop where
  requests : Kept s.connection
  returned : ∀ c ∈ s.calls, ∀ r, c.phase = .returned r →
    Answered s.connection c.request r.turnId ∧ r.threadId = c.options.threadId ∧
      ∃ e ∈ s.events, e.kind = .turnCompleted ∧ e.threadId = .string r.threadId ∧ e.turnId = r.turnId ∧
        turnIn e.params = some r.completed ∧
        if isFull r.completed then r.items = carried r.completed
        else r.items = (forTurn s.events (.string r.threadId) r.turnId).filterMap itemOf ∧ r.items.Nodup
  closed : s.connection.closed.isSome → s.connection.pending = [] ∧ Free s

/-! ## When it is -/

/-- The step ends the connection. -/
def Closes (s : Session) : Input → Prop
  | .data chunk => s.connection.splitter.limit < (s.connection.splitter.buffer ++ chunk).length
  | .close => True
  | _ => False

/-- What ends the connection comes after the child has exited, or while no completion is waited for; and the
notifications so far are orderly. -/
structure Meets (s : Session) (i : Input) (s' : Session) : Prop where
  closes : Closes s i → s.exited = true ∨ Free s
  orderly : Orderly s'.events

def met (parse : Text → Option Message) (answer : Text → Option Message → Option Message) : LTS Session Input where
  init := (session parse answer).init
  step s i s' := (session parse answer).step s i s' ∧ Meets s i s'

/-- The call has come to its end. -/
def isOver (c : Call) : Bool :=
  match c.phase with
  | .returned _ => true
  | .failed _ => true
  | _ => false

theorem isOver_waiting (h : isOver c = true) : isWaiting c = false := by
  obtain ⟨options, request, phase⟩ := c
  cases phase with
  | waiting turnId => cases h
  | _ => rfl

theorem hear_over {e : Event} (h : isOver c = true) : hear e c = c := by
  obtain ⟨options, request, phase⟩ := c
  cases phase with
  | waiting turnId => cases h
  | _ => rfl

theorem resume_over (h : isOver c = true) : s.resume c = c := by
  obtain ⟨options, request, phase⟩ := c
  cases phase with
  | starting => cases h
  | resolved turnId completed => cases h
  | _ => rfl

theorem giveUp_over {why : Failure} (h : isOver c = true) : isOver (giveUp why c) = true := by
  rw [giveUp, if_neg (by simp [isOver_waiting h])]
  exact h

/-- Where no request is waited for and no completion, every call is at its end. -/
theorem over_of_settled (h : Settled s c) (hpending : s.connection.pending = []) (hfree : isWaiting c = false) :
    isOver c = true := by
  obtain ⟨options, request, phase⟩ := c
  cases phase with
  | starting =>
    obtain ⟨method, hmem⟩ := h
    rw [hpending] at hmem
    cases hmem
  | waiting turnId => cases hfree
  | resolved turnId completed => cases h
  | _ => rfl

/-! ## The end of a connection -/

/-- What ends a connection ends the calls whose turn/start is not answered, and leaves a call that waits. -/
theorem resume_fail (h : Sound s) (hc : c ∈ s.calls) :
    if isWaiting c then (s.fail problem).resume c = c else isOver ((s.fail problem).resume c) = true := by
  have hsettled := h.calls c hc
  obtain ⟨options, request, phase⟩ := c
  cases phase with
  | starting =>
    obtain ⟨method, hmem⟩ := hsettled
    have hkey : request ∈ s.connection.pending.map (·.1) := List.mem_map.2 ⟨_, hmem, rfl⟩
    have hfailed : (s.fail problem).connection.settled =
        s.connection.settled ++ s.connection.pending.map fun p => (p.1, Outcome.closed problem) := rfl
    have hout : (s.fail problem).connection.outcome request = some (.closed problem) := by
      cases hout : (s.fail problem).connection.outcome request with
      | none =>
        refine absurd ?_ (outcome_none hout)
        rw [hfailed, List.map_append]
        exact List.mem_append_right _ (List.mem_map.2 ⟨(request, .closed problem),
          List.mem_map.2 ⟨_, hmem, rfl⟩, rfl⟩)
      | some o =>
        have hin := outcome_some hout
        rw [hfailed] at hin
        rcases List.mem_append.1 hin with hin | hin
        · exact absurd rfl ((List.nodup_append.1 h.kept.once).2.2 request hkey request
            (List.mem_map.2 ⟨_, hin, rfl⟩))
        · obtain ⟨p, -, hp⟩ := List.mem_map.1 hin
          rw [← (Prod.mk.inj hp).2]
    change isOver _ = true
    unfold Session.resume
    simp only [hout]
    rfl
  | resolved turnId completed => cases hsettled
  | _ => rfl

/-- The state after the connection has ended, with all that follows it. -/
theorem closed_exec (he : s.exec parse answer i = some s') (hi : Closes s i) :
    ∃ problem, s'.calls = s.calls.map (s.fail problem).resume ∧ s'.connection.closed.isSome ∧
      s'.connection.pending = [] ∧ s'.events = s.events := by
  cases i with
  | data chunk =>
    unfold exec at he
    dsimp only at he
    split at he
    · cases he
    · obtain rfl := Option.some.inj he
      have hread : s.read parse answer chunk = Session.fail { s with connection := { s.connection with
          splitter := { s.connection.splitter with buffer := s.connection.splitter.buffer ++ chunk } } }
          (tooLong s.connection.splitter.limit) := by
        have hpush : s.connection.splitter.push chunk = (.error (tooLong s.connection.splitter.limit),
            { s.connection.splitter with buffer := s.connection.splitter.buffer ++ chunk }) := if_pos hi
        unfold Session.read
        rw [hpush]
      rw [hread]
      exact ⟨tooLong s.connection.splitter.limit, rfl, rfl, rfl, rfl⟩
  | close =>
    unfold exec at he
    dsimp only at he
    split at he
    · cases he
    · obtain rfl := Option.some.inj he
      exact ⟨_, rfl, rfl, rfl, rfl⟩
  | _ => cases hi

/-- A connection that ends leaves no completion waited for where the child is gone, or none was; and nowhere else. -/
theorem closing_iff (h : Sound s) (he : s.exec parse answer i = some s') (hi : Closes s i) :
    Free s' ↔ s.exited = true ∨ Free s := by
  obtain ⟨problem, hcalls, -⟩ := closed_exec he hi
  unfold Free
  rw [hcalls]
  constructor
  · refine fun hfree => .inr fun c hc => ?_
    have hres := @resume_fail s c problem h hc
    by_contra hwaiting
    rw [if_pos (by simpa using hwaiting)] at hres
    have := hfree _ (List.mem_map.2 ⟨c, hc, hres⟩)
    exact hwaiting this
  · intro hor c' hc'
    obtain ⟨c, hc, rfl⟩ := List.mem_map.1 hc'
    have hfree : isWaiting c = false := by
      rcases hor with hexited | hfree
      · exact h.exited_waiting hexited c hc
      · exact hfree c hc
    have hres := @resume_fail s c problem h hc
    rw [if_neg (by simp [hfree])] at hres
    exact isOver_waiting hres

/-! ## Over runs -/

/-- As `Sound`, with orderly notifications and every call over where the connection has ended. -/
structure Quiet (s : Session) : Prop where
  sound : Sound s
  orderly : Orderly s.events
  settled : s.connection.closed.isSome → ∀ c ∈ s.calls, isOver c = true

theorem resumed_over (h : ∀ c ∈ s.calls, isOver c = true) : ∀ c ∈ s.resumed.calls, isOver c = true := by
  intro c hc
  obtain ⟨c', hc', rfl⟩ := List.mem_map.1 hc
  rw [resume_over (h c' hc')]
  exact h c' hc'

theorem receive_over (h : ∀ c ∈ s.calls, isOver c = true) (m : Classified) :
    ∀ c ∈ (s.receive answer m).calls, isOver c = true := by
  unfold Session.receive
  cases m with
  | serverNotification method params =>
    unfold Session.accept
    dsimp only
    split
    · exact h
    · intro c hc
      obtain ⟨c', hc', rfl⟩ := List.mem_map.1 hc
      rw [hear_over (h c' hc')]
      exact h c' hc'
  | _ => exact h

theorem receive_closed (m : Classified) : (s.receive answer m).connection.closed = s.connection.closed := by
  unfold Session.receive
  cases m with
  | serverNotification method params =>
    unfold Session.accept
    dsimp only
    split <;> exact (receive_same s.connection _).2
  | _ => exact (receive_same s.connection _).2

/-- The lines of a chunk neither end the connection nor wake a call that is over. -/
theorem lines_over (lines : List Text) (h : s.connection.closed.isSome → ∀ c ∈ s.calls, isOver c = true) :
    (lines.foldl (line parse answer) s).connection.closed.isSome →
      ∀ c ∈ (lines.foldl (line parse answer) s).calls, isOver c = true := by
  induction lines generalizing s with
  | nil => exact h
  | cons text lines ih =>
    refine ih fun hclosed => ?_
    unfold Session.line at hclosed ⊢
    split at hclosed
    · rename_i hparse
      exact h hclosed
    · rename_i message hparse
      rw [receive_closed] at hclosed
      exact receive_over (h hclosed) _

theorem Quiet.step (h : Quiet s) (he : s.exec parse answer i = some s') (hm : Meets s i s') : Quiet s' := by
  refine ⟨h.sound.exec he, hm.orderly, ?_⟩
  by_cases hi : Closes s i
  · obtain ⟨problem, hcalls, -, hpending, -⟩ := closed_exec he hi
    have hfree := (closing_iff h.sound he hi).2 (hm.closes hi)
    exact fun _ c hc => over_of_settled ((h.sound.exec he).calls c hc) hpending (hfree c hc)
  · cases i with
    | request method params =>
      obtain rfl := Option.some.inj he
      unfold Session.request
      split
      · exact h.settled
      · rename_i hopen
        exact fun hclosed => absurd hclosed hopen
    | turn options =>
      obtain rfl := Option.some.inj he
      have hadd : ∀ why, s.connection.closed.isSome →
          ∀ c ∈ s.calls ++ [⟨options, 0, .failed why⟩], isOver c = true := by
        intro why hclosed c hc
        rcases List.mem_append.1 hc with hc | hc
        · exact h.settled hclosed c hc
        · rw [List.mem_singleton.1 hc]
          rfl
      unfold Session.turn
      split
      · exact hadd _
      · split
        · exact hadd _
        · rename_i hopen
          intro hclosed
          rw [show (s.connection.request _ _).closed = s.connection.closed from rfl, hopen] at hclosed
          cases hclosed
    | data chunk =>
      unfold exec at he
      dsimp only at he
      split at he
      · cases he
      · obtain rfl := Option.some.inj he
        have hpush : s.connection.splitter.push chunk = _ := if_neg hi
        unfold Session.read
        rw [hpush]
        exact fun hclosed => resumed_over (lines_over _ h.settled hclosed)
    | close => exact absurd trivial hi
    | exit =>
      unfold exec at he
      dsimp only at he
      split at he
      · cases he
      · obtain rfl := Option.some.inj he
        intro hclosed c hc
        obtain ⟨c', hc', rfl⟩ := List.mem_map.1 hc
        exact giveUp_over (h.settled hclosed c' hc')
    | timeout n =>
      obtain rfl := Option.some.inj he
      intro hclosed c hc
      obtain ⟨k, hk, rfl⟩ := List.mem_mapIdx.1 hc
      have hold := h.settled hclosed _ (List.getElem_mem hk)
      split
      · exact giveUp_over hold
      · exact hold

theorem quiet_inductive : (met parse answer).Inductive Quiet := by
  constructor
  · rintro s ⟨experimentalApi, rfl⟩
    exact ⟨(@sound_inductive parse answer).init _ ⟨experimentalApi, rfl⟩, ⟨(fun e he => nomatch he), .nil⟩, fun h => nomatch h⟩
  · exact fun s i s' hs hst => hs.step hst.1 hst.2

/-- In every run whose steps meet the condition, every state keeps what is promised. -/
theorem turns_kept (h : (met parse answer).Reachable s) : TurnsKept s := by
  have hs := quiet_inductive.reachable s h
  refine ⟨hs.sound.kept, fun c hc r hr => ?_, fun hclosed => ⟨hs.sound.kept.closed hclosed, fun c hc =>
    isOver_waiting (hs.settled hclosed c hc)⟩⟩
  have hcall := hs.sound.calls c hc
  unfold Settled Standing at hcall
  rw [hr] at hcall
  obtain ⟨hanswered, hthread, hfinished⟩ := hcall
  rw [hthread]
  exact ⟨hanswered, rfl, hfinished.items hs.orderly⟩

/-! ## A turn that is started, and a line too long -/

def text (s : String) : Message := .string (ofString s)

def object (fields : List (String × Message)) : Message := .object (fields.map fun f => (ofString f.1, f.2))

/-- The answer to the first request: the turn `u`. -/
def started : Message := object [("id", .number 1), ("result", object [("turn", object [("id", text "u")])])]

def startedLine : Text := ofString "\x7b\"id\":1,\"result\":\x7b\"turn\":\x7b\"id\":\"u\"\x7d\x7d\x7d"

/-- The turn ends with the full view of its items, of which there are none. -/
def ended : Message :=
  object [("method", text "turn/completed"), ("params", object [("threadId", text "t"),
    ("turn", object [("id", text "u"), ("status", text "completed"), ("items", .array []),
      ("itemsView", text "full")])])]

def endedLine : Text :=
  ofString ("\x7b\"method\":\"turn/completed\",\"params\":\x7b\"threadId\":\"t\",\"turn\":\x7b\"id\":\"u\"," ++
    "\"status\":\"completed\",\"items\":[],\"itemsView\":\"full\"\x7d\x7d\x7d")

/-- `JSON.parse` of the two lines. -/
def parseLines (line : Text) : Option Message :=
  if line = startedLine then some started else if line = endedLine then some ended else none

def readOnlyTurn : TurnOptions :=
  { threadId := ofString "t", input := text "hello"
    sandboxPolicy := some (object [("type", text "readOnly"), ("networkAccess", .bool false)]) }

/-- The program answers no request of the harness. -/
def silent : Text → Option Message → Option Message := fun _ _ => none

def begun : List Input := [.turn readOnlyTurn, .data (startedLine ++ [lf])]

theorem begun_waits : ∃ s, LTS.play (exec parseLines silent) { connection := .new } begun = some s ∧
    s.connection.ended = false ∧ s.connection.splitter.limit = Connection.limit ∧
    ∃ c ∈ s.calls, isWaiting c = true :=
  ⟨_, rfl, rfl, rfl, _, List.mem_cons_self, rfl⟩

/-- The next line is one over the limit: the connection has ended, and the turn waits on. -/
theorem overlong_strands : ¬ ∀ s, (session parseLines silent).Reachable s → s.connection.closed.isSome → Free s := by
  intro h
  obtain ⟨s, hplay, hended, hlimit, c, hc, hwaiting⟩ := begun_waits
  have hrun : (session parseLines silent).Run { connection := .new } begun s := LTS.run_of_play hplay
  have hreach : (session parseLines silent).Reachable s := ⟨_, _, ⟨false, rfl⟩, hrun⟩
  have hsound := sound_inductive.reachable s hreach
  have hexec : s.exec parseLines silent (.data (List.replicate (Connection.limit + 1) 0x61)) = some _ :=
    if_neg (by simp [hended])
  have hcloses : Closes s (.data (List.replicate (Connection.limit + 1) 0x61)) := by
    rw [Closes, hlimit, List.length_append, List.length_replicate]
    omega
  obtain ⟨problem, -, hclosed, -⟩ := closed_exec hexec hcloses
  have hfree := h _ (hreach.step hexec) hclosed
  rcases (closing_iff hsound hexec hcloses).1 hfree with hexited | hfree
  · rw [hsound.exited_waiting hexited c hc] at hwaiting
    cases hwaiting
  · rw [hfree c hc] at hwaiting
    cases hwaiting

/-- The turn was asked for; it was started; it has ended. -/
def asked : Session := ({ connection := .new } : Session).turn readOnlyTurn

def startedTurn : Session := (asked.read parseLines silent (startedLine ++ [lf])).resumed

def endedTurn : Session := (startedTurn.read parseLines silent (endedLine ++ [lf])).resumed

theorem orderly_one {e : Event} (h : ∀ v, get "id" (turnIn e.params) = some v → e.turnId = v) : Orderly [e] := by
  refine ⟨fun f hf _ v hv => ?_, List.pairwise_singleton _ _⟩
  rw [List.mem_singleton.1 hf] at hv ⊢
  exact h v hv

set_option maxRecDepth 4000 in
/-- Where the turn ends first, it is returned with the items of its full view. -/
theorem ended_returned : TurnsKept endedTurn ∧ ∃ c ∈ endedTurn.calls, isOver c = true := by
  have hempty : Orderly [] := ⟨(fun e he => nomatch he), .nil⟩
  have hlong : ∀ s : Session, s.connection.splitter = { limit := Connection.limit } → ∀ chunk : Text,
      chunk.length ≤ Connection.limit → ¬ Closes s (.data chunk) := by
    intro s hs chunk hchunk
    rw [Closes, hs]
    exact Nat.not_lt.2 hchunk
  have hasked : (met parseLines silent).step { connection := .new } (.turn readOnlyTurn) asked :=
    ⟨rfl, (fun h => nomatch h), hempty⟩
  have hstarted : (met parseLines silent).step asked (.data (startedLine ++ [lf])) startedTurn :=
    ⟨rfl, (fun h => absurd h (hlong asked rfl _ (by decide +kernel))), hempty⟩
  have hended : (met parseLines silent).step startedTurn (.data (endedLine ++ [lf])) endedTurn :=
    ⟨rfl, (fun h => absurd h (hlong startedTurn rfl _ (by decide +kernel))),
      orderly_one fun v hv => Option.some.inj hv⟩
  exact ⟨turns_kept ⟨_, _, ⟨false, rfl⟩, .cons hasked (.cons hstarted (.cons hended (.nil _)))⟩,
    _, List.mem_cons_self, rfl⟩

end CarbonRuntime.Bugs.StrandedTurn
