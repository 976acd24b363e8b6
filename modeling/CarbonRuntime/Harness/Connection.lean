import CarbonRuntime.Core.Value
import CarbonRuntime.Harness.Lines

/-!
# A connection to the harness (harness/codex/protocol.ts:44-203)

JSON-RPC over two streams. `classify` says what a message is; `Connection` gives each request the next id, and
settles it by the answer that carries that id, or by what ends the connection.

`JSON.parse` and what the program answers to a request of the harness are parameters. `settled` has every call
of a `resolve` and a `reject`, and `history` what was sent and what came, for statements only.

**Results.** `Kept`: each id was given once and is either waited for or settled, once; a request is settled by the
first message that carries its id after it was sent, or by what ended the connection.
-/

open CarbonRuntime.Core Utf16

namespace CarbonRuntime.Harness

/-- A message of the harness, or a part of one. -/
abbrev Message := Value Text

/-! ## Values as the program compares them -/

/-- Neither `null` nor `undefined`. -/
def given : Option Message → Bool
  | none => false
  | some .null => false
  | _ => true

/-- `a ?? b` -/
def coalesce (a b : Option Message) : Option Message := if given a then a else b

/-- `a === b` of two parsed values; no two objects are the same. -/
def same : Message → Message → Bool
  | .null, .null => true
  | .bool a, .bool b => a == b
  | .number a, .number b => a == b
  | .string a, .string b => a == b
  | _, _ => false

def truthy : Message → Bool
  | .null => false
  | .bool b => b
  | .number n => n ≠ 0
  | .string s => s ≠ []
  | _ => true

/-- `value?.name` -/
def get (name : String) (v : Option Message) : Option Message := v.bind (·.field (ofString name))

theorem same_eq {a b : Message} (h : same a b = true) : a = b := by
  unfold same at h
  split at h
  · rfl
  · rw [beq_iff_eq.1 h]
  · rw [beq_iff_eq.1 h]
  · rw [beq_iff_eq.1 h]
  · cases h

/-! ## Messages -/

inductive Classified
  | malformed (message : Message)
  | serverRequest (id : Message) (method : Text) (params : Option Message)
  | serverNotification (method : Text) (params : Option Message)
  | error (id error : Message)
  | response (id : Message) (result : Option Message)

/-- mirrors protocol.ts:53-65 -/
def classify (message : Message) : Classified :=
  let field name := get name (some message)
  let hasId := (field "id").filter fun id => given (some id)
  match hasId, field "method", field "error" with
  | some id, some (.string method), _ => .serverRequest id method (field "params")
  | none, some (.string method), _ => .serverNotification method (field "params")
  | some id, _, some error => .error id error
  | some id, _, none => .response id (field "result")
  | none, _, _ => .malformed message

/-- How a promise is settled. -/
inductive Outcome
  | resolved (result : Option Message)
  /-- `RpcError` -/
  | refused (method : Text) (error : Message)
  | closed (problem : String)

/-- What is written. -/
inductive Sent
  | request (id : Nat) (method : Text) (params : Message)
  /-- `none` where the harness is told that the program does not answer the method. -/
  | answer (id : Message) (result : Option Message)

inductive Entry
  | sent (id : Nat)
  | got (message : Classified)

structure Connection where
  nextId : Nat := 1
  pending : List (Nat × Text) := []
  splitter : LineSplitter
  closed : Option String := none
  /-- The stream that is read has closed. -/
  ended : Bool := false
  sent : List Sent := []
  settled : List (Nat × Outcome) := []
  history : List Entry := []

/-! ## The connection -/

variable (parse : Text → Option Message) (answer : Text → Option Message → Option Message)

namespace Connection

def limit : Nat := 64 * 1024 * 1024

def new : Connection := { splitter := { limit } }

/-- `pending.get(id)` -/
def waiter (c : Connection) (id : Message) : Option (Nat × Text) :=
  c.pending.find? fun p => same id (.number p.1)

/-- `pending.delete`, and the promise of the request. -/
def settle (c : Connection) (id : Nat) (o : Outcome) : Connection :=
  { c with pending := c.pending.filter (·.1 ≠ id), settled := c.settled ++ [(id, o)] }

/-- mirrors protocol.ts:147-176; a notification goes to the session -/
def dispatch (c : Connection) : Classified → Connection
  | .response id result =>
    match c.waiter id with
    | some (k, _) => c.settle k (.resolved result)
    | none => c
  | .error id error =>
    match c.waiter id with
    | some (k, method) => c.settle k (.refused method error)
    | none => c
  | .serverRequest id method params => { c with sent := c.sent ++ [.answer id (answer method params)] }
  | .serverNotification _ _ => c
  | .malformed _ => c

/-- What the promise of a request came to. -/
def outcome (c : Connection) (k : Nat) : Option Outcome := (c.settled.find? fun e => e.1 = k).map (·.2)

/-- A message comes. -/
def receive (c : Connection) (m : Classified) : Connection :=
  dispatch answer { c with history := c.history ++ [.got m] } m

/-- mirrors protocol.ts:178-184 -/
def fail (c : Connection) (problem : String) : Connection :=
  { c with
    closed := some problem
    pending := []
    settled := c.settled ++ c.pending.map fun p => (p.1, .closed problem) }

/-- mirrors protocol.ts:196-203, on a connection that is not closed -/
def request (c : Connection) (method : Text) (params : Message) : Connection :=
  { c with
    nextId := c.nextId + 1
    pending := c.pending ++ [(c.nextId, method)]
    sent := c.sent ++ [.request c.nextId method params]
    history := c.history ++ [.sent c.nextId] }

end Connection

/-! ## What settles a request -/

/-- A message answers the request `k`, or refuses it. -/
def Classified.carries (k : Nat) : Classified → Bool
  | .response id _ => same id (.number k)
  | .error id _ => same id (.number k)
  | _ => false

/-- The outcome is the one the message brings. -/
inductive Classified.Brings : Classified → Outcome → Prop
  | response (id : Message) (result : Option Message) : Brings (.response id result) (.resolved result)
  | error (id error : Message) (method : Text) : Brings (.error id error) (.refused method error)

/-- No answer has come since the request was sent. -/
def Unanswered (history : List Entry) (k : Nat) : Prop :=
  ∃ before since, history = before ++ .sent k :: since ∧ ∀ m, .got m ∈ since → m.carries k = false

/-- The first answer since the request was sent has the outcome. -/
def AnsweredWith (history : List Entry) (k : Nat) (o : Outcome) : Prop :=
  ∃ before since m rest, history = before ++ .sent k :: (since ++ .got m :: rest) ∧
    (∀ m, .got m ∈ since → m.carries k = false) ∧ m.carries k = true ∧ m.Brings o

/-- Every request is waited for or settled, once; what is waited for has no answer yet, and what is settled has
the outcome of its answer, or of the end of the connection. -/
structure Kept (c : Connection) : Prop where
  pos : 1 ≤ c.nextId
  once : (c.pending.map (·.1) ++ c.settled.map (·.1)).Nodup
  all : ∀ k, k ∈ c.pending.map (·.1) ++ c.settled.map (·.1) ↔ 1 ≤ k ∧ k < c.nextId
  pending : ∀ p ∈ c.pending, Unanswered c.history p.1
  settled : ∀ e ∈ c.settled, AnsweredWith c.history e.1 e.2 ∨
    (c.closed.isSome ∧ ∃ problem, e.2 = .closed problem)
  closed : c.closed.isSome → c.pending = []

variable {parse answer} {c : Connection} {history : List Entry} {m : Classified} {k : Nat} {o : Outcome}

theorem Unanswered.got (h : Unanswered history k) (hm : m.carries k = false) :
    Unanswered (history ++ [.got m]) k := by
  obtain ⟨before, since, rfl, hno⟩ := h
  refine ⟨before, since ++ [.got m], by simp, fun m' hm' => ?_⟩
  rcases List.mem_append.1 hm' with hm' | hm'
  · exact hno m' hm'
  · cases List.mem_singleton.1 hm'
    exact hm

theorem Unanswered.sent (h : Unanswered history k) (j : Nat) : Unanswered (history ++ [.sent j]) k := by
  obtain ⟨before, since, rfl, hno⟩ := h
  refine ⟨before, since ++ [.sent j], by simp, fun m' hm' => ?_⟩
  rcases List.mem_append.1 hm' with hm' | hm'
  · exact hno m' hm'
  · cases List.mem_singleton.1 hm'

theorem Unanswered.answered (h : Unanswered history k) (hm : m.carries k = true) (ho : m.Brings o) :
    AnsweredWith (history ++ [.got m]) k o := by
  obtain ⟨before, since, rfl, hno⟩ := h
  exact ⟨before, since, m, [], by simp, hno, hm, ho⟩

theorem AnsweredWith.more (h : AnsweredWith history k o) (more : List Entry) :
    AnsweredWith (history ++ more) k o := by
  obtain ⟨before, since, m, rest, rfl, hm⟩ := h
  exact ⟨before, since, m, rest ++ more, by simp, hm⟩

theorem carries_number {id : Message} {j : Nat} (hk : same id (.number k) = true) (hj : same id (.number j) = true) :
    k = j := by
  have := (same_eq hk).symm.trans (same_eq hj)
  simpa using this

theorem kept_new : Kept Connection.new := by
  constructor <;> simp [Connection.new]
  omega

namespace Kept

/-- A message that nothing waits for. -/
theorem ignore (h : Kept c) (hm : ∀ p ∈ c.pending, m.carries p.1 = false) :
    Kept { c with history := c.history ++ [.got m] } where
  pos := h.pos
  once := h.once
  all := h.all
  pending p hp := (h.pending p hp).got (hm p hp)
  settled e he := (h.settled e he).imp_left (·.more _)
  closed := h.closed

/-- A message that the request `k` waits for. -/
theorem settle (h : Kept c) {method : Text} (hk : (k, method) ∈ c.pending) (hm : m.carries k = true)
    (hother : ∀ j, m.carries j = true → j = k) (ho : m.Brings o) :
    Kept (Connection.settle { c with history := c.history ++ [.got m] } k o) := by
  have hpend : k ∈ c.pending.map (·.1) := List.mem_map.2 ⟨_, hk, rfl⟩
  obtain ⟨hp, hs, hps⟩ := List.nodup_append.1 h.once
  have hsettled : k ∉ c.settled.map (·.1) := fun hin => hps k hpend k hin rfl
  have hfilter : ∀ j, j ∈ (c.pending.filter (·.1 ≠ k)).map (·.1) ↔ j ∈ c.pending.map (·.1) ∧ j ≠ k := by
    intro j
    simp only [List.mem_map, List.mem_filter, decide_eq_true_eq]
    constructor
    · rintro ⟨p, ⟨hp, hne⟩, rfl⟩
      exact ⟨⟨p, hp, rfl⟩, hne⟩
    · rintro ⟨⟨p, hp, rfl⟩, hne⟩
      exact ⟨p, ⟨hp, hne⟩, rfl⟩
  constructor
  · exact h.pos
  · dsimp only [Connection.settle]
    rw [List.map_append, List.map_singleton]
    refine List.nodup_append.2 ⟨hp.sublist (List.filter_sublist.map _), ?_, ?_⟩
    · exact List.nodup_append.2 ⟨hs, by simp, fun a ha b hb => by
        obtain rfl := List.mem_singleton.1 hb
        rintro rfl
        exact hsettled ha⟩
    · intro a ha b hb
      obtain ⟨ha, hne⟩ := (hfilter a).1 ha
      rcases List.mem_append.1 hb with hb | hb
      · exact hps a ha b hb
      · rw [List.mem_singleton.1 hb]
        exact hne
  · intro j
    dsimp only [Connection.settle]
    rw [← h.all j, List.map_append, List.map_singleton, List.mem_append, List.mem_append, List.mem_append, hfilter,
      List.mem_singleton]
    by_cases hj : j = k
    · subst hj
      simp [hpend]
    · simp [hj]
  · intro p hp
    obtain ⟨hp, hne⟩ := List.mem_filter.1 hp
    refine (h.pending p hp).got ?_
    by_contra hc
    exact (of_decide_eq_true hne) (hother p.1 (by simpa using hc))
  · intro e he
    rcases List.mem_append.1 he with he | he
    · exact (h.settled e he).imp_left (·.more _)
    · rw [List.mem_singleton.1 he]
      exact .inl ((h.pending _ hk).answered hm ho)
  · intro hc
    rw [Connection.settle]
    simp only [h.closed hc, List.filter_nil]

theorem waiter_some {id : Message} {method : Text} (h : c.waiter id = some (k, method)) :
    (k, method) ∈ c.pending ∧ same id (.number k) = true :=
  ⟨List.mem_of_find?_eq_some h, by simpa using List.find?_some h⟩

theorem waiter_none {id : Message} (h : c.waiter id = none) : ∀ p ∈ c.pending, same id (.number p.1) = false :=
  fun p hp => by simpa using List.find?_eq_none.1 h p hp

theorem receive (h : Kept c) (m : Classified) : Kept (c.receive answer m) := by
  unfold Connection.receive
  cases m with
  | response id result =>
    rw [Connection.dispatch]
    split
    · rename_i hw
      obtain ⟨hmem, hid⟩ := waiter_some hw
      exact h.settle hmem hid (fun j hj => carries_number hj hid) (.response id result)
    · rename_i hw
      exact h.ignore (waiter_none hw)
  | error id error =>
    rw [Connection.dispatch]
    split
    · rename_i method hw
      obtain ⟨hmem, hid⟩ := waiter_some hw
      exact h.settle hmem hid (fun j hj => carries_number hj hid) (.error id error method)
    · rename_i hw
      exact h.ignore (waiter_none hw)
  | serverRequest id method params => exact { h.ignore (m := .serverRequest id method params) fun _ _ => rfl with }
  | serverNotification method params => exact h.ignore fun _ _ => rfl
  | malformed message => exact h.ignore fun _ _ => rfl

theorem fail (h : Kept c) (problem : String) : Kept (c.fail problem) := by
  have hmap : (c.pending.map fun p => (p.1, Outcome.closed problem)).map (·.1) = c.pending.map (·.1) := by
    rw [List.map_map]
    rfl
  constructor
  · exact h.pos
  · dsimp only [Connection.fail]
    rw [List.map_append, hmap, List.map_nil, List.nil_append]
    exact (List.perm_append_comm.nodup_iff).1 h.once
  · intro k
    dsimp only [Connection.fail]
    rw [List.map_append, hmap, ← h.all k]
    simp [or_comm]
  · exact fun p hp => nomatch hp
  · intro e he
    rcases List.mem_append.1 he with he | he
    · exact (h.settled e he).imp_right fun hc => ⟨rfl, hc.2⟩
    · obtain ⟨p, -, rfl⟩ := List.mem_map.1 he
      exact .inr ⟨rfl, problem, rfl⟩
  · exact fun _ => rfl

theorem request (h : Kept c) (hopen : c.closed = none) (method : Text) (params : Message) :
    Kept (c.request method params) := by
  have hnew : c.nextId ∉ c.pending.map (·.1) ++ c.settled.map (·.1) := fun hin =>
    Nat.lt_irrefl _ ((h.all _).1 hin).2
  have hpos := h.pos
  constructor
  · exact Nat.le_succ_of_le h.pos
  · dsimp only [Connection.request]
    rw [List.map_append, List.map_singleton, List.append_assoc]
    exact List.perm_middle.nodup_iff.2 (List.nodup_cons.2 ⟨hnew, h.once⟩)
  · intro k
    dsimp only [Connection.request]
    have := h.all k
    rw [List.mem_append] at this
    rw [List.map_append, List.map_singleton, List.mem_append, List.mem_append, List.mem_singleton]
    constructor
    · rintro ((hk | rfl) | hk)
      · have := this.1 (.inl hk)
        omega
      · omega
      · have := this.1 (.inr hk)
        omega
    · intro hk
      by_cases he : k = c.nextId
      · exact .inl (.inr he)
      · rcases this.2 (by omega) with hk | hk
        · exact .inl (.inl hk)
        · exact .inr hk
  · intro p hp
    rcases List.mem_append.1 hp with hp | hp
    · exact (h.pending p hp).sent _
    · rw [List.mem_singleton.1 hp]
      exact ⟨c.history, [], rfl, fun m hm => nomatch hm⟩
  · exact fun e he => (h.settled e he).imp_left (·.more _)
  · intro hc
    rw [show (c.request method params).closed = c.closed from rfl, hopen] at hc
    cases hc

end Kept

end CarbonRuntime.Harness
