import CarbonRuntime.Runtime.Process

/-!
# A release id that was to be re-issued is forgotten

`recover` answers the release ids to re-issue and `pass` takes them up once:
`this.recovering = null` stands before `releasePass` (runtime/loop.ts:2039-2041). A pass that the
poll holds returns before it; a pass that a tool server, the provider proxy
or the records action service holds does not, and drops what it took up.
`releaseDecision` refuses the records ever after, as released already.

Counterexample: a message is released, the process dies while the turn runs, and
the first pass of the next process finds the provider proxy down. The second
pass finds nothing that holds, and the message is not taken up.
-/

open CarbonRuntime.Core CarbonRuntime.Stream

namespace CarbonRuntime.Bugs.ForgottenReissue

open Moves Pass

/-- A pass takes up what the start answered to re-issue, or the process dies. -/
def TakesUp (e : Event) : Prop := (∃ ids, e = .reissuing ids) ∨ ∃ replying, e = .died replying

/-- What was owed in `s` is owed in `w`, and no record was released or completed since. -/
structure Owed (s : World) (ids : List String) (w : World) : Prop where
  recovering : w.mem.recovering = some ids
  release : ∀ i x x', s.disk.records.find i = some x → w.disk.records.find i = some x' →
    x'.release = x.release

/-- Since `s` the release ids were taken up, or they are owed still. -/
structure Since (s : World) (ids : List String) (w : World) : Prop where
  grows : Grows s.disk w.disk
  hist : s.hist <:+ w.hist
  owed : Logged s w TakesUp ∨ Owed s ids w

variable {L : Loop} {s w : World} {ids : List String}

theorem Owed.owing (h : Owed s ids w) : Owing w := .inl (by rw [h.recovering]; simp)

/-- A write of a record file neither releases nor completes anything that is owed. -/
theorem Owed.record {r : MessageRecord} (hb : L.browser = false) (hw : base L w)
    (hg : Grows s.disk w.disk) (h : Owed s ids w) (hm : RecordMove L True w r) :
    Owed s ids ((Act.record r).apply w) where
  recovering := by
    rw [Act.apply, World.putRecord_mem]
    exact h.recovering
  release i x x' hx hx' := by
    obtain ⟨y, hy, _⟩ := hg.records i x hx
    have hold := h.release i x y hx hy
    rw [Act.apply, World.putRecord_disk] at hx'
    simp only [Table.find_put] at hx'
    split at hx'
    · rename_i hi
      cases hx'
      subst hi
      cases hm with
      | captured hnone | refused _ hnone | replied _ hnone =>
        rw [hnone] at hy
        cases hy
      | rewritten old hfind _ hr =>
        rw [hfind] at hy
        cases hy
        exact (Safe.release_rewrite hw hr hb h.owing).trans hold
    · rw [hy] at hx'
      cases hx'
      exact hold

theorem since_lasts (hb : L.browser = false) (s : World) (ids : List String) :
    Lasting L (Since s ids) where
  act a w hw hj hm := by
    refine ⟨hj.grows.trans (Move.grows hm), hj.hist.trans (World.suffix_apply a w), ?_⟩
    rcases hj.owed with hlog | howed
    · exact .inl (hlog.later (World.suffix_apply a w))
    cases a with
    | record r => exact .inr (howed.record hb hw hj.grows hm)
    | mem m =>
      refine .inr ⟨?_, howed.release⟩
      rcases hm.recovering with he | ⟨_, _, hno, _⟩
      · exact he.trans howed.recovering
      · exact absurd howed.owing hno
    | take releaseIds =>
      exact .inl (Logged.earlier (⟨[_], rfl, _, .head _, .inl ⟨releaseIds, rfl⟩⟩ :
        Logged w ((Act.take releaseIds).apply w) TakesUp) hj.hist)
    | hand => exact absurd howed.owing hm.owing
    | seq | raw | index | request | teaching | cursor | thread | poll | latch | mark =>
      exact .inr ⟨howed.recovering, howed.release⟩
  clock w t hj := ⟨hj.grows, hj.hist, hj.owed.imp id fun h => ⟨h.recovering, h.release⟩⟩
  tend w w' hj ht := by
    subst ht
    exact ⟨⟨hj.grows.records, hj.grows.requests⟩, hj.hist,
      hj.owed.imp id fun h => ⟨h.recovering, h.release⟩⟩
  dies w hj := by
    refine ⟨hj.grows, hj.hist.trans (List.suffix_cons _ _), .inl ?_⟩
    exact (Logged.mark (s := w) (e := .died w.ghost.replying) (.inr ⟨_, rfl⟩)).earlier hj.hist

abbrev mail : Channel :=
  { kind := "email", account := "agent@example.org", pollFailuresBeforeHold := some 1 }

abbrev mailLoop : Loop := oneLoop mail
  { channels := [mail], apiKeyVia := some "proxy"
    toolServers := [{ name := "proxy", url := some "http://127.0.0.1:7000" }] }

/-- The first process dies in the turn of the client's message; the second starts. -/
def restarted : List (Service.Episode (sig mailLoop) Job) :=
  [.boot (Given.answer {}),
    .cut .pass 60 (Given.answer { batch := { entries := [{ record := inboundMessage mail "client" "1" }] } }),
    .boot (Given.answer {})]

def proxyDown : Given := { proxy := false }

def pollDown : Given := { poll := .error (.thrown "ECONNREFUSED") }

/-- Two passes after the restart: the first with these answers, the second with
nothing that holds. -/
def twoPasses (first : Given) : Option (World × World × World) :=
  match (service mailLoop).play (false, {}) restarted with
  | some (true, s) => do
    let s₁ ← Prog.after first.answer (pass mailLoop) s
    let s₂ ← Prog.after (Given.answer {}) (pass mailLoop) s₁
    pure (s, s₁, s₂)
  | _ => none

/-- The client's message is released and not completed, and owed by the restart. -/
def OwedInbound (s : World) : Prop :=
  s.mem.recovering = some ["release-client-0"] ∧ ∃ x ∈ s.disk.records.rows,
    x.direction = .inbound ∧ x.openRelease = some "release-client-0"

instance (s : World) : Decidable (OwedInbound s) := by
  unfold OwedInbound
  infer_instance

def newer (s s' : World) : List Entry := s'.hist.take (s'.hist.length - s.hist.length)

def hindered (s s' : World) : Bool :=
  (newer s s').any fun t => t.event = .holds || t.event = .stops || t.event = .faulted

def takesUp (s s' : World) : Bool :=
  (newer s s').any fun t => match t.event with
    | .reissuing _ | .died _ => true
    | _ => false

theorem not_hindered (h : hindered s w = false) : ¬ Logged s w Hinders := by
  intro hlog
  obtain ⟨t, ht, hP⟩ := Logged.of_take hlog
  have := List.any_eq_false.1 h t ht
  rcases hP with he | he | he <;> simp [he] at this

theorem not_takesUp (h : takesUp s w = false) : ¬ Logged s w TakesUp := by
  intro hlog
  obtain ⟨t, ht, hP⟩ := Logged.of_take hlog
  have := List.any_eq_false.1 h t ht
  rcases hP with ⟨_, he⟩ | ⟨_, he⟩ <;> simp [he] at this

/-- What two passes come to is what the process runs through. -/
theorem twoPasses_runs {first : Given} {s s₁ s₂ : World}
    (h : twoPasses first = some (s, s₁, s₂)) :
    (process mailLoop).Reachable ⟨.idle, s⟩ ∧ Prog.Runs (pass mailLoop) s (.ok ()) s₁ ∧
      Prog.Runs (pass mailLoop) s₁ (.ok ()) s₂ := by
  unfold twoPasses at h
  split at h
  · rename_i hplay
    simp only [Option.bind_eq_bind, Option.bind_eq_some_iff, Option.pure_def, Option.some.injEq,
      Prod.mk.injEq] at h
    obtain ⟨_, h₁, _, h₂, rfl, rfl, rfl⟩ := h
    exact ⟨played_idle hplay, Prog.after_runs h₁, Prog.after_runs h₂⟩
  · cases h

/-- What the two passes come to with the proxy down, and with the poll down. -/
theorem twoPasses_run :
    (twoPasses proxyDown).any (fun (s, s₁, s₂) => decide (OwedInbound s) &&
      !hindered s₁ s₂ && s₂.hist.all fun t => match t.event with
        | .handed _ "release-client-0" true => false
        | _ => true) = true ∧
    (twoPasses pollDown).any (fun (s, s₁, s₂) => decide (OwedInbound s) &&
      !takesUp s s₁ && !hindered s₁ s₂) = true := by decide +kernel

end CarbonRuntime.Bugs.ForgottenReissue
