import CarbonRuntime.Runtime.SafePass

/-!
# What holds in every state a process reaches

`Lasting` is the rule: a property of the world that every move keeps, and a death
and an install as well, is kept along every run of the process; where it holds
of a store nothing was released from it holds in every reachable state.
`Phased` is the same with one property while the process is down or starts and
another once it is up.

`Act.logs` is what an act adds to the history; `World.hist_apply` says it adds
nothing else, so a property of the history's entries is kept entry by entry.
-/

open CarbonRuntime.Core CarbonRuntime.Stream

namespace CarbonRuntime

/-- What an act adds to the history. -/
def Act.logs : Act → World → Option Event
  | .record r, w => writeEvents (w.disk.records.find r.id) r
  | .mark e, _ => some e
  | .take releaseIds, _ => some (.reissuing releaseIds)
  | .hand records releaseId reissue, _ => some (.handed records releaseId reissue)
  | _, _ => none

theorem World.hist_apply (a : Act) (w : World) :
    (a.apply w).hist =
      ((a.logs w).map fun e => ⟨e, (a.apply w).disk, w.clock⟩).toList ++ w.hist := by
  cases a with
  | record r => exact World.putRecord_hist w r
  | mark e => rfl
  | take releaseIds => rfl
  | hand records releaseId reissue => rfl
  | seq | raw | index | request | teaching | cursor | thread | poll | latch | mem => rfl

theorem World.mem_hist_apply {a : Act} {w : World} {t : Entry} (h : t ∈ (a.apply w).hist) :
    t ∈ w.hist ∨ ∃ e, a.logs w = some e ∧ t = ⟨e, (a.apply w).disk, w.clock⟩ := by
  rw [World.hist_apply, List.mem_append, Option.mem_toList, Option.map_eq_some_iff] at h
  rcases h with ⟨e, he, rfl⟩ | h
  · exact .inr ⟨e, he, rfl⟩
  · exact .inl h

theorem World.suffix_apply (a : Act) (w : World) : w.hist <:+ (a.apply w).hist := by
  rw [World.hist_apply]
  exact List.suffix_append _ _

namespace Moves

open Pass

variable {L : Loop} {J K : World → Prop}

/-- A property that every move and every reading of the clock keep. -/
theorem keeps (hact : ∀ a s, base L s → J s → Move L True a s → J (a.apply s))
    (hclock : ∀ s t, J s → J { s with clock := t }) : (moves L True).Keeps J where
  act a s hs hj hm _ := hact a s hs hj hm
  hear q a s _ hj _ := by
    cases q with
    | now => exact hclock s a hj
    | _ => exact hj
  rely q s s' _ hj hr := by
    have := Safe.follows hr
    rw [this.alone trivial]
    exact hj

theorem base_start {s : World} (hm : s.mem = {}) (hg : s.ghost = {}) : base L s where
  group r hr := by
    rw [hm] at hr
    cases hr
  browserActive _ := by rw [hm]
  recovering _ := by rw [hm]; rfl
  reissuing _ := by rw [hg]
  owing _ := by rw [hg]

theorem base_tend {s s' : World} (hs : base L s) (h : tend s s') : base L s' := by
  rw [h]
  exact ⟨fun r hr => (hs.group r hr).mono ⟨fun i x hx => ⟨x, hx, .refl x, id⟩, fun R hR => hR⟩ rfl,
    hs.browserActive, hs.recovering, hs.reissuing, hs.owing⟩

/-- What is known while the process is down. -/
structure Down (L : Loop) (J : World → Prop) (s : World) : Prop where
  base : base L s
  ghost : s.ghost = {}
  mem : s.mem = {}
  keeps : J s

/-- What is known between two jobs. -/
structure Resting (L : Loop) (K : World → Prop) (s : World) : Prop where
  base : base L s
  idle : Idle s
  keeps : K s

/-- `J` while the process is down or starts, `K` once it is up. -/
structure Phased (L : Loop) (J K : World → Prop) : Prop where
  boots : (moves L True).Keeps J
  runs : (moves L True).Keeps K
  tend : ∀ s s', J s → tend s s' → J s'
  booted : ∀ s, Down L J s → Prog.wp ((moves L True).both J boots) (boot L)
    (fun _ s' => Idle s' ∧ K s') (fun _ _ => True) s
  dies : ∀ s, J s → J (lose s)
  falls : ∀ s, K s → J (lose s)

/-- The state of a process, with what is known of it. -/
def Good (h : Phased L J K) : Service.State (sig L) → Prop :=
  Service.Good ((moves L True).both J h.boots) ((moves L True).both K h.runs) (Down L J)
    (Resting L K) (fun _ _ => True) fun _ _ => True

theorem job_wp (h : Phased L J K) (j : Job) (s : World) (hs : Resting L K s) :
    Prog.wp ((moves L True).both K h.runs) (job L j) (fun _ => Resting L K) (fun _ _ => True) s := by
  have hin : ((moves L True).both K h.runs).inv s := ⟨hs.base, hs.keeps⟩
  cases j with
  | pass =>
    exact Prog.wp_mono _ (Prog.wp_both h.runs _ (Safe.pass_wp hs.base hs.idle) hin)
      (fun _ _ h' => ⟨h'.1.1, h'.2.1, h'.1.2⟩) fun _ _ _ => trivial
  | calls calls =>
    exact Prog.wp_mono _ (Prog.wp_both h.runs _ (Safe.between (F := Moves.quiet L True) calls
      hs.idle.replying s hs.base (.refl s)) hin)
      (fun _ _ h' => ⟨h'.1.1, hs.idle.quiet h'.2, h'.1.2⟩) fun _ _ _ => trivial

theorem Phased.step (h : Phased L J K) {c c' : Service.State (sig L)} {l : Service.Label Job}
    (hst : (process L).step c l c') (hc : Good h c) : Good h c' := by
  refine Service.rule (service L) (B := (moves L True).both J h.boots)
    (U := (moves L True).both K h.runs) (moves_valid L True) (moves_valid L True)
    (fun s s' hs ht => ?_) (fun s hs => ?_) (fun j s hs => ?_) (fun s hs => ?_) (fun s hs => ?_)
    (fun s hs => ?_) hst hc
  · exact ⟨base_tend hs.base ht, by rw [ht]; exact hs.ghost, by rw [ht]; exact hs.mem,
      h.tend s s' hs.keeps ht⟩
  · refine ⟨⟨hs.base, hs.keeps⟩, ?_⟩
    exact Prog.wp_mono_inv _ ⟨hs.base, hs.keeps⟩ (h.booted s hs)
      (fun _ s' hi h' => ⟨hi.1, h'.1, h'.2⟩) fun _ _ _ _ => trivial
  · exact ⟨⟨hs.base, hs.keeps⟩, job_wp h j s hs⟩
  · exact ⟨base_start rfl rfl, rfl, rfl, h.dies s hs.2⟩
  · exact ⟨base_start rfl rfl, rfl, rfl, h.falls s hs.keeps⟩
  · exact ⟨base_start rfl rfl, rfl, rfl, h.falls s hs.2⟩

/-- Whether the process is up. -/
def up : Service.Phase (sig L) → Bool
  | .idle | .running _ => true
  | .down | .booting _ => false

theorem Good.known {h : Phased L J K} {c : Service.State (sig L)} (hc : Good h c) :
    base L c.st ∧ if up c.phase = true then K c.st else J c.st := by
  obtain ⟨ph, s⟩ := c
  cases ph with
  | down => exact ⟨Down.base hc, Down.keeps hc⟩
  | idle => exact ⟨Resting.base hc, Resting.keeps hc⟩
  | booting p => exact ⟨hc.1.1, hc.1.2⟩
  | running p => exact ⟨hc.1.1, hc.1.2⟩

/-- What is known of a state is known of every state a run leads to. -/
theorem Phased.run (h : Phased L J K) {c c' : Service.State (sig L)}
    {ls : List (Service.Label Job)} (hr : (process L).Run c ls c') (hc : Good h c) : Good h c' := by
  induction hr with
  | nil => exact hc
  | cons hst _ ih => exact ih (h.step hst hc)

theorem Phased.reachable (h : Phased L J K) (hinit : ∀ s, fresh L s → J s)
    {c : Service.State (sig L)} (hc : (process L).Reachable c) : Good h c := by
  obtain ⟨⟨ph, s⟩, ls, ⟨hph, hs⟩, hr⟩ := hc
  simp only at hph
  subst hph
  obtain ⟨_, hm, hg, _⟩ := id hs
  exact h.run hr ⟨base_start hm hg, hg, hm, hinit s hs⟩

/-- A property every move keeps, and a death and an install as well. -/
structure Lasting (L : Loop) (J : World → Prop) : Prop where
  act : ∀ a s, base L s → J s → Move L True a s → J (a.apply s)
  clock : ∀ s t, J s → J { s with clock := t }
  tend : ∀ s s', J s → tend s s' → J s'
  dies : ∀ s, J s → J (lose s)

theorem Lasting.phased (h : Lasting L J) : Phased L J J where
  boots := keeps h.act h.clock
  runs := keeps h.act h.clock
  tend := h.tend
  booted _ hs := Prog.wp_mono _ (Prog.wp_both (keeps h.act h.clock) _
    (Safe.boot_wp hs.ghost hs.mem) ⟨hs.base, hs.keeps⟩) (fun _ _ h' => ⟨h'.2, h'.1.2⟩)
    fun _ _ _ => trivial
  dies := h.dies
  falls := h.dies

theorem Lasting.known (h : Lasting L J) {c : Service.State (sig L)} (hc : Good h.phased c) :
    J c.st := by
  have := (Good.known hc).2
  split at this <;> exact this

theorem Lasting.reachable (h : Lasting L J) (hinit : ∀ s, fresh L s → J s)
    {c : Service.State (sig L)} (hc : (process L).Reachable c) : J c.st :=
  h.known (h.phased.reachable hinit hc)

/-- What is known of every idle process. -/
theorem resting {s : World} (hc : (process L).Reachable ⟨.idle, s⟩) : base L s ∧ Idle s := by
  have h : Lasting L fun _ => True :=
    ⟨fun _ _ _ _ _ => trivial, fun _ _ _ => trivial, fun _ _ _ _ => trivial, fun _ _ => trivial⟩
  have hr : Resting L (fun _ => True) s := h.phased.reachable (fun _ _ => trivial) hc
  exact ⟨hr.base, hr.idle⟩

/-- A property that holds of an idle process lasts along its runs. -/
theorem Lasting.run (h : Lasting L J) {s : World} {c : Service.State (sig L)}
    {ls : List (Service.Label Job)} (hs : (process L).Reachable ⟨.idle, s⟩) (hj : J s)
    (hr : (process L).Run ⟨.idle, s⟩ ls c) : J c.st :=
  h.known (h.phased.run hr ⟨(resting hs).1, (resting hs).2, hj⟩)

end Moves

/-! ## Answers given beforehand

What a run of concrete episodes hears: a store lists its files in the order they
were written, and each other answer is the same each time it is asked for. -/

/-- The answers of one episode. -/
structure Given where
  clock : Int := 0
  stopping : Bool := false
  batch : Batch := {}
  poll : Except Err (Option Nat) := .ok (some 0)
  servers : ToolStatus := { names := ["carbon-reply"] }
  /-- Whether the provider proxy answers. -/
  proxy : Bool := true
  turn : String → Awaited TurnResult := fun _ => { result := .ok { status := .completed } }
  send : Except Err (Option SendOutcome) := .ok (some { status := .sent })
  /-- The calls that reach the process while a claim is finished. -/
  finish : Awaited Unit := { result := .ok () }

def Given.answer (g : Given) (_ : Nat) (w : World) : (q : Ask) → q.Answer
  | .now => g.clock
  | .listing => w.disk.records.rows
  | .stopping => g.stopping
  | .sandbox | .render | .afterTurn => .ok ()
  | .payload => .ok g.batch
  | .poll => { result := g.poll }
  | .thread _ _ => { result := .ok "thread" }
  | .toolStatus => { result := .ok g.servers }
  | .probe _ => { result := .ok g.proxy }
  | .turn _ clientUserMessageId => g.turn clientUserMessageId
  | .send _ => { result := g.send }
  | .finish _ => g.finish
  | .collect _ _ _ | .beginTurn _ _ _ | .endTurn _ | .join _ | .prepare _ | .readThread _ | .settle =>
    { result := .ok () }

/-- A date is its number of milliseconds, an empty string is no date, and texts compare
by code units. -/
def plainJs : Js where
  parse text := if text = "" then none else some (text.toNat?.getD 0)
  iso t := toString t
  localeCompare a b := if a < b then .lt else if a = b then .eq else .gt
  sha256 _ := "0000000000000000000000000000000000000000000000000000000000000000"
  stringify text := "\"" ++ text ++ "\""

/-- A loop of one channel, whose outside may give any answer. -/
def oneLoop (channel : Channel) (declaration : Declaration) : Loop :=
  { js := plainJs, declaration, channel, agent := "agent" }

instance (channel : Channel) (declaration : Declaration) (q : Ask) (a : q.Answer) (w : World) :
    Decidable ((oneLoop channel declaration).outside q a w) := inferInstanceAs (Decidable True)

/-- A message of the conversation `c`, as an adapter captures it. -/
def inboundMessage (channel : Channel) (messageId receivedAt : String) : MessageRecord :=
  { agent := "agent", source := channel.kind, account := channel.account, conversationId := "c"
    conversationKind := "thread", messageId, platformMessageId := messageId, direction := .inbound
    role := .contact, senderId := "client@example.org", receivedAt, body := messageId }

theorem Logged.of_take {s s' : World} {P : Event → Prop} (h : Moves.Logged s s' P) :
    ∃ t ∈ s'.hist.take (s'.hist.length - s.hist.length), P t.event := by
  obtain ⟨new, hn, t, ht, hP⟩ := h
  refine ⟨t, ?_, hP⟩
  rw [hn, List.length_append, Nat.add_sub_cancel, List.take_left']
  exact ht
  rfl

/-- An idle process that was played from an empty store is reached. -/
theorem played_idle {L : Loop} [∀ q a w, Decidable (L.outside q a w)]
    {script : List (Service.Episode (sig L) Pass.Job)} {s : World}
    (h : (Pass.service L).play (false, {}) script = some (true, s)) :
    (Pass.process L).Reachable ⟨.idle, s⟩ :=
  Service.play_reachable script h ⟨⟨.down, {}⟩, [], ⟨rfl, rfl, rfl, rfl, rfl, by simp [Table.empty]⟩,
    .nil _⟩

/-- What was played from an empty store is reached. -/
theorem played {L : Loop} [∀ q a w, Decidable (L.outside q a w)] (check : World → Bool)
    (script : List (Service.Episode (sig L) Pass.Job))
    (h : ((Pass.service L).play (false, {}) script).any (fun c => check c.2) = true) :
    ∃ c, (Pass.process L).Reachable c ∧ check c.st = true := by
  obtain ⟨⟨b, s⟩, hs, hc⟩ := (Option.any_eq_true _ _).1 h
  refine ⟨_, Service.play_reachable script hs ⟨⟨.down, {}⟩, [], ⟨rfl, ?_⟩, .nil _⟩, hc⟩
  exact ⟨rfl, rfl, rfl, rfl, by simp [Table.empty]⟩

end CarbonRuntime
