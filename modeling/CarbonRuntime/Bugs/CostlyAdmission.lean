import CarbonRuntime.Runtime.Admission
import CarbonRuntime.Runtime.Closing

/-!
# An admission that costs a turn

`syncCollectedOrHold` holds a release while the records service does not answer
(runtime/loop.ts:1152-1170). The admission of its turn is asked for after the release was
written, and outside that hold (loop.ts:1488-1496): a service that is gone by then ends the
process. Its end is asked for in a `finally` (loop.ts:1513-1519): a service that restarted
meanwhile has no context of the release, refuses, and the refusal takes the place of what
the turn came to, so that a turn the model completed is neither judged nor closed. And a
runtime that died in its turn left its context behind: the same release, re-issued before
the service's timer has noticed, is refused as active (records-tool.ts:89-91).

Counterexamples: one for each.
-/

open CarbonRuntime.Core CarbonRuntime.Stream

namespace CarbonRuntime.Bugs.CostlyAdmission

open Store Calls Turn Release Records Beside

variable {L : Loop} {me : Owner} {s s' : World} {b b' : Box}

/-- What `syncCollectedOrHold` does with what the collection throws. -/
def heldBack (L : Loop) (e : Err) : Program L Bool :=
  match unavailable e with
  | none => raise L e
  | some faults => do
    setMem L fun m => { m with recordsFaults := faults }
    pure false

/-- Where a collection finds the service away, the release is held. -/
theorem sync_away {records : List MessageRecord} {r : Prog.Result (sig L) Bool}
    (h : Ends (service L me) (syncCollectedOrHold L records) s b t r s' b') :
    ∀ e ∈ t, away (resultOf e.q e.answer) = true → r = .ok false := by
  intro e he haway
  obtain ⟨err, href, hun⟩ : ∃ err, refusal e = some err ∧ (unavailable err).isSome = true := by
    unfold away at haway
    unfold refusal
    split at haway
    · exact ⟨_, rfl, haway⟩
    · cases haway
  have hbody : Firm (service L me) refusal (do
      syncCollected L records
      setMem L fun m => { m with recordsFaults := [] }
      pure true) :=
    (syncCollected_firm records).bind fun _ =>
      Firm.bind (quiet_firm (unheard_setMem fun _ => rfl)) fun _ => quiet_firm inferInstance
  rcases Ends.handle_inv h with ⟨err', s₁, b₁, t₁, t₂, h₁, h₂, rfl⟩ | ⟨a, rfl, h₁⟩
  · obtain ⟨faults, hf⟩ := Option.isSome_iff_exists.1 hun
    have hfaults : ∀ faults, Unheard served (fun _ => True)
        (setMem L fun m => { m with recordsFaults := faults }) :=
      fun _ => unheard_setMem fun _ => rfl
    have hquiet : ∀ err', Unheard served (fun _ => True) (heldBack L err') := fun err' => by
      unfold heldBack
      split <;> infer_instance
    obtain ⟨rfl, -⟩ := (hquiet err').ends h₂ trivial
    rw [List.append_nil] at he
    cases hbody _ _ _ _ _ _ h₁ e he err href
    rw [hf] at h₂
    have hend : Prog.wp (plain L) (do
        setMem L fun m => { m with recordsFaults := faults }
        pure false) (fun x _ => x = false) (fun _ _ => False) s₁ := by
      simp only [setMem, Prog.wp_bind, wp_fetch, wp_write, Prog.wp_pure]
      exact ⟨trivial, fun _ => trivial⟩
    have := plain_runs h₂.runs hend
    cases r with
    | ok x => exact congrArg Prog.Result.ok this
    | error => exact this.elim
  · cases hbody _ _ _ _ _ _ h₁ e he err href

/-! ## What a release costs -/

/-- The run of a release passes the end of its turn: `taken` is the turn, `t₂` what is served
after it, and `y` how the rest ends. -/
def Took (L : Loop) (me : Owner) (record : MessageRecord) (records : List MessageRecord)
    (reissue : Bool) (R : String) (unitId : Option String) (s : World) (b : Box)
    (t : List (Peer.Served (service L me))) (s' : World) (b' : Box) (taken : Taken) (s₂ : World)
    (t₂ : List (Peer.Served (service L me))) (y : Prog.Result (sig L) Unit) : Prop :=
  ∃ u θ s₁ b₁ b₂ t₀ t₁,
    Ends (service L me) (opening L record records unitId) s b t₀ (.ok (some (u, θ))) s₁ b₁ ∧
    Ends (service L me) (takeAdmitted L records reissue u θ R) s₁ b₁ t₁ (.ok taken) s₂ b₂ ∧
    Ends (service L me) (leave L record R taken) s₂ b₂ t₂ y s' b' ∧ t = t₀ ++ t₁ ++ t₂

/-- A release costs no turn: it is held where the service is not there before its turn, it is
admitted where the service is there, and a turn that was completed is judged and closed
whatever the service says to its end. -/
structure Costless (L : Loop) (me : Owner) (record : MessageRecord) (records : List MessageRecord)
    (reissue : Bool) (R : String) (unitId : Option String) (s : World) (b : Box)
    (t : List (Peer.Served (service L me))) (x : Prog.Result (sig L) Bool) (s' : World)
    (b' : Box) : Prop where
  held : ∀ e ∈ t, beforeTurn e.q = true → away (resultOf e.q e.answer) = true → x = .ok false
  admitted : ∀ e ∈ t, beforeTurn e.q = true → isCollect e.q = false →
    away (resultOf e.q e.answer) = false → resultOf e.q e.answer = .ok ()
  judged : ∀ taken s₂ t₂ y, Took L me record records reissue R unitId s b t s' b' taken s₂ t₂ y →
    taken.result.status = .completed →
    (∀ e ∈ t₂, ∀ err, refusal e = some err → y ≠ .error err) ∧
    (∃ s₃ b₃ t₃, Ends (service L me)
      (closeTurn L record taken.unitId taken.threadId R taken.result taken.completedAt)
      s₃ b₃ t₃ y s' b') ∧
    (L.browser = false → y = .ok () → ∀ one ∈ records, one.uncertain = false → Closed one.id s')

/-- At a request for an admission the service is there, has no context that clashes and
stays; at the end of a turn it has its context still. -/
def Meets (L : Loop) (me : Owner) (e : Peer.Served (service L me)) : Prop :=
  match e.q with
  | .beginTurn R u ids => Ready L.js ⟨R, u, ids, me⟩ e.before e.after
  | .endTurn R => Has L.js R e.before e.after
  | _ => True

instance (e : Peer.Served (service L me)) : Decidable (Meets L me e) := by
  unfold Meets
  split <;> infer_instance

def Met (L : Loop) (me : Owner) (t : List (Peer.Served (service L me))) : Prop :=
  ∀ e ∈ t, Meets L me e

instance : Decidable (Met L me t) := List.decidableBAll (Meets L me) t

theorem Met.answered (hmet : Met L me t) {e : Peer.Served (service L me)} (he : e ∈ t)
    (hserved : answers L.js me e.q e.before e.answer e.after) (hl : Live me e.before.processes)
    (hq : served e.q = true) (hc : isCollect e.q = false) : resultOf e.q e.answer = .ok () := by
  obtain ⟨q, b₀, a, b₁⟩ := e
  have hme := hmet _ he
  cases q with
  | beginTurn R u ids => exact Ready.admitted hme hl hserved
  | endTurn R => exact Has.ended hme hserved
  | collect => cases hc
  | _ => cases hq

/-- Where the service is found away, the program answers that something holds. -/
def Gives (L : Loop) (me : Owner) {α : Type} (p : Program L (Option α)) : Prop :=
  ∀ s b t r s' b', Ends (service L me) p s b t r s' b' →
    ∀ e ∈ t, away (resultOf e.q e.answer) = true → r = .ok none

theorem Gives.quiet {α : Type} {p : Program L (Option α)} (hp : Unheard served (fun _ => True) p) :
    Gives L me p := by
  intro s b t r s' b' h e he
  rw [(hp.ends h trivial).1] at he
  cases he

theorem Gives.after {α β : Type} {p : Program L β} {f : β → Program L (Option α)}
    (hp : Unheard served (fun _ => True) p) (hf : ∀ x, Gives L me (f x)) :
    Gives L me (p >>= f) := by
  intro s b t r s' b' h e he haway
  rcases Ends.bind_inv h with ⟨x, s₁, b₁, t₁, t₂, h₁, h₂, rfl⟩ | ⟨err, rfl, h₁⟩
  · rw [(hp.ends h₁ trivial).1] at he
    exact hf x _ _ _ _ _ _ h₂ e he haway
  · rw [(hp.ends h₁ trivial).1] at he
    cases he

theorem opening_gives (record : MessageRecord) (records : List MessageRecord)
    (unitId : Option String) : Gives L me (opening L record records unitId) := by
  refine .after (p := ready L record unitId) inferInstance fun o => ?_
  cases o with
  | none => exact .quiet (inferInstanceAs (Unheard served _ (pure none : Program L _)))
  | some opened =>
    intro s b t r s' b' h e he haway
    rcases Ends.bind_inv h with ⟨x, s₁, b₁, t₁, t₂, h₁, h₂, rfl⟩ | ⟨err, rfl, h₁⟩
    · have hlast : Unheard served (fun _ => True) (if !x then do
          mark L .holds
          pure none
        else pure (some opened)) := inferInstance
      rw [(hlast.ends h₂ trivial).1, List.append_nil] at he
      cases sync_away h₁ e he haway
      have hend : Prog.wp (plain L) (do
          mark L .holds
          pure (none : Option (String × String))) (fun x _ => x = none) (fun _ _ => False) s₁ := by
        simp only [Prog.wp_bind, wp_mark, Prog.wp_pure]
        exact ⟨trivial, fun _ => trivial⟩
      have := plain_runs h₂.runs hend
      cases r with
      | ok x => exact congrArg Prog.Result.ok this
      | error => exact this.elim
    · cases sync_away h₁ e he haway

/-- Told that its turn ended, a service that has the release still says nothing against it. -/
theorem told_kept {R : String} {y : Prog.Result (sig L) Unit} (hl : Live me b.processes)
    (hmet : Met L me t) (h : Ends (service L me) (told L R) s b t y s' b') :
    y = .ok () ∧ ∀ e ∈ t, refusal e = none := by
  cases hrec : L.declaration.records with
  | false =>
    rw [told, hrec] at h
    obtain ⟨rfl, -, rfl⟩ := Ends.ret_inv h
    exact ⟨rfl, fun e he => by cases he⟩
  | true =>
    rw [told, hrec, if_pos rfl] at h
    have hserved := Steps.served h
    have hlive := (served_live h hl).2
    obtain ⟨a, b₀, b₁, rfl, hout⟩ := ask_inv rfl (fun _ => inferInstance) h
    have hok := hmet.answered (List.mem_singleton_self _)
      (hserved _ (List.mem_singleton_self _)).2 (hlive _ (List.mem_singleton_self _)) rfl rfl
    have hy := outcome_runs hout
    have hok : a.result = .ok () := hok
    rw [hok] at hy
    refine ⟨hy, fun e he => ?_⟩
    rw [List.mem_singleton] at he
    subst he
    rw [refusal, resultOf, hok]

/-- A turn is completed and told to the service: what is left is to judge and close it. -/
theorem leave_judged {record : MessageRecord} {records : List MessageRecord} {R : String}
    {taken : Taken} {y : Prog.Result (sig L) Unit} (hres : taken.result.status = .completed)
    (hg : s.mem.group = records) (hl : Live me b.processes) (hmet : Met L me t)
    (h : Ends (service L me) (leave L record R taken) s b t y s' b') :
    (∀ e ∈ t, ∀ err, refusal e = some err → y ≠ .error err) ∧
    (∃ s₃ b₃ t₃, Ends (service L me)
      (closeTurn L record taken.unitId taken.threadId R taken.result taken.completedAt)
      s₃ b₃ t₃ y s' b') ∧
    (L.browser = false → y = .ok () → ∀ one ∈ records, one.uncertain = false → Closed one.id s') := by
  rcases Ends.bind_inv h with ⟨_, s₃, b₃, t₁, t₂, h₁, h₂, rfl⟩ | ⟨e, rfl, h₁⟩
  · have hmet₁ : Met L me t₁ := fun e he => hmet e (List.mem_append_left _ he)
    obtain ⟨-, hquiet⟩ := told_kept hl hmet₁ h₁
    have hclose : Unheard served (fun _ => True)
        (closeTurn L record taken.unitId taken.threadId R taken.result taken.completedAt) :=
      inferInstance
    obtain ⟨rfl, -⟩ := hclose.ends h₂ trivial
    refine ⟨fun e he err href => ?_, ⟨s₃, b₃, [], h₂⟩, fun hb hy one hone hu => ?_⟩
    · rw [List.append_nil] at he
      rw [hquiet e he] at href
      cases href
    · subst hy
      have htold : Unheard nobody (· = records) (told L R) := by
        have hend : Unheard nobody (· = records) (ask L (.endTurn R)) :=
          unheard_other rfl fun _ _ => rfl
        infer_instance
      have hgroup : s₃.mem.group = records := (htold.steps h₁ hg).2
      have hruns := h₂.runs
      rw [closeTurn, hb] at hruns
      have hclosed := plain_runs hruns (Q := fun _ s' =>
        ∀ one ∈ records, one.uncertain = false → Closed one.id s') (X := fun _ _ => True) (by
          simp only [Bool.false_eq_true, if_false, Prog.wp_bind, wp_fetch, hgroup]
          exact closeGroup_closed hres s₃)
      exact hclosed one hone hu
  · obtain ⟨he, -⟩ := told_kept hl hmet h₁
    cases he

variable {record : MessageRecord} {records : List MessageRecord} {reissue : Bool}
variable {releaseId unitId : Option String} {x : Prog.Result (sig L) Bool}

/-- A release whose collection finds the service away is held. -/
theorem collect_held
    (h : Ends (service L me) (releaseOne L record records reissue releaseId unitId) s b t x s' b')
    {e : Peer.Served (service L me)} (he : e ∈ t) (hc : isCollect e.q = true)
    (haway : away (resultOf e.q e.answer) = true) : x = .ok false := by
  rw [releaseOne_eq] at h
  rcases Ends.bind_inv h with ⟨o, s₁, b₁, t₁, t₂, h₁, h₂, rfl⟩ | ⟨err, rfl, h₁⟩
  · have hin : e ∈ t₁ := by
      refine (List.mem_append.1 he).resolve_right fun he => ?_
      have hrest : Unheard isCollect (fun _ => True)
        (proceed L record records reissue (releaseId.getD (releaseIdFor record)) o) := inferInstance
      rw [(hrest.steps h₂ trivial).1 e he] at hc
      cases hc
    cases opening_gives record records unitId _ _ _ _ _ _ h₁ e hin haway
    exact (Ends.ret_inv h₂).1
  · cases opening_gives record records unitId _ _ _ _ _ _ h₁ e he haway

/-- Where the service is there at the admission, with no context that clashes, and still has
the context when the turn ends, a release costs no turn. -/
theorem turn_kept (hl : Live me b.processes) (hg : s.mem.group = records)
    (h : Ends (service L me) (releaseOne L record records reissue releaseId unitId) s b t x s' b')
    (hmet : Met L me t) :
    Costless L me record records reissue (releaseId.getD (releaseIdFor record)) unitId
      s b t x s' b' := by
  have hanswered : ∀ e ∈ t, isCollect e.q = false → resultOf e.q e.answer = .ok () := fun e he =>
    hmet.answered he (Steps.served h e he).2 ((served_live h hl).2 e he) (Steps.served h e he).1
  refine ⟨fun e he _ haway => ?_, fun e he _ hc _ => hanswered e he hc, ?_⟩
  · cases hc : isCollect e.q with
    | true => exact collect_held h he hc haway
    | false =>
      rw [hanswered e he hc] at haway
      cases haway
  · rintro taken s₂ t₂ y ⟨u, θ, s₁, b₁, b₂, t₀, t₁, h₀, h₁, h₂, rfl⟩ hres
    have hopen : Unheard nobody (· = records) (opening L record records unitId) := inferInstance
    have htake : Unheard nobody (· = records)
      (takeAdmitted L records reissue u θ (releaseId.getD (releaseIdFor record))) := inferInstance
    have hg₂ : s₂.mem.group = records := (htake.steps h₁ (hopen.steps h₀ hg).2).2
    have hl₂ : Live me b₂.processes := (served_live h₁ (served_live h₀ hl).1).1
    exact leave_judged hres hg₂ hl₂ (fun e he => hmet e (List.mem_append_right _ he)) h₂

/-- The release ends the process with this fault, and costs a turn. -/
def Fails (me : Owner) (r : MessageRecord) (reissue : Bool) (s : World) (b : Box) (err : Err) :
    Prop :=
  ∃ t s' b', Ends (service chatLoop me) (releasing r reissue) s b t (.error err) s' b' ∧
    ¬ Costless chatLoop me r [r] reissue (releaseIdFor r) (if reissue then none else some "c") s b t
      (.error err) s' b'

/-- The service stops after it collected the message. -/
def stopped (w : World) (r : MessageRecord) :
    Option (Config (service chatLoop first) Bool × List (Peer.Served (service chatLoop first))) :=
  play first (some 9) false 100 (releasing r false) (handed r false w) (up first)

theorem stopped_fails {w : World} {r : MessageRecord}
    {c : Config (service chatLoop first) Bool} {t : List (Peer.Served (service chatLoop first))}
    (h : stopped w r = some (c, t))
    (hx : thrown c.result = some (actionUnavailable "fetch failed"))
    (ht : (t.any fun e => isBegin e.q && away (resultOf e.q e.answer)) = true) :
    Fails first r false (handed r false w) (up first) (actionUnavailable "fetch failed") := by
  refine ⟨t, c.st, c.peer, play_ends h (thrown_eq hx), fun hcost => ?_⟩
  obtain ⟨e, he, hcheck⟩ := List.any_eq_true.1 ht
  rw [Bool.and_eq_true] at hcheck
  have := hcost.held e he (isBegin_before hcheck.1).1 hcheck.2
  cases this

/-- The service restarts while the turn is taken. -/
structure Restarted where
  unitId : String
  threadId : String
  taken : Taken
  opened : Config (service chatLoop first) (Option (String × String))
  collected : List (Peer.Served (service chatLoop first))
  turned : Config (service chatLoop first) Taken
  admitted : List (Peer.Served (service chatLoop first))
  left : Config (service chatLoop first) Unit
  ended : List (Peer.Served (service chatLoop first))

def restarted (w : World) (r : MessageRecord) : Option Restarted := do
  let (opened, collected) ←
    play first none false 100 (opening chatLoop r [r] (some "c")) (handed r false w) (up first)
  match opened.result with
  | some (.ok (some (unitId, threadId))) =>
    let (turned, admitted) ← play first none false 100
      (takeAdmitted chatLoop [r] false unitId threadId (releaseIdFor r)) opened.st opened.peer
    match turned.result with
    | some (.ok taken) =>
      let (left, ended) ← play first (some 0) true 100 (leave chatLoop r (releaseIdFor r) taken) turned.st turned.peer
      pure { unitId, threadId, taken, opened, collected, turned, admitted, left, ended }
    | _ => none
  | _ => none

theorem restarted_fails {w : World} {r : MessageRecord} {x : Restarted} {err : Err}
    (h : restarted w r = some x) (hx : thrown x.left.result = some err)
    (hres : x.taken.result.status = .completed)
    (ht : (x.ended.any fun e => decide (refusal e = some err)) = true) :
    Fails first r false (handed r false w) (up first) err := by
  simp only [restarted, Option.bind_eq_bind, Option.bind_eq_some_iff] at h
  obtain ⟨⟨opened, collected⟩, h₀, h⟩ := h
  dsimp only at h
  split at h
  · rename_i unitId threadId ho
    obtain ⟨⟨turned, admitted⟩, h₁, h⟩ := Option.bind_eq_some_iff.1 h
    dsimp only at h
    split at h
    · rename_i taken htaken
      obtain ⟨⟨left, ended⟩, h₂, h⟩ := Option.bind_eq_some_iff.1 h
      cases h
      have hopen := play_ends h₀ ho
      have htake := play_ends h₁ htaken
      have hleave := play_ends h₂ (thrown_eq hx)
      refine ⟨collected ++ (admitted ++ ended), left.st, left.peer, ?_, fun hcost => ?_⟩
      · rw [releasing, releaseOne_eq]
        refine Ends.bind hopen (Ends.bind_error ?_)
        rw [releaseTurn_eq]
        exact Ends.bind htake hleave
      · obtain ⟨e, he, href⟩ := List.any_eq_true.1 ht
        have htook : Took chatLoop first r [r] false (releaseIdFor r) (some "c") (handed r false w) (up first)
            (collected ++ (admitted ++ ended)) left.st left.peer taken turned.st ended
            (.error err) :=
          ⟨unitId, threadId, _, _, _, _, _, hopen, htake, hleave, (List.append_assoc _ _ _).symm⟩
        exact (hcost.judged _ _ _ _ htook hres).1 e he err (of_decide_eq_true href) rfl
    · cases h
  · cases h

/-- The runtime dies in its turn, its message is released again by the one started next. -/
structure Reissued where
  opened : Config (service chatLoop first) Bool
  admitted : List (Peer.Served (service chatLoop first))
  booted : World
  record : MessageRecord
  again : Config (service chatLoop second) Bool
  refused : List (Peer.Served (service chatLoop second))

def reissued (w : World) (r : MessageRecord) : Option Reissued := do
  let (opened, admitted) ←
    play first none false 12 (releasing r false) (handed r false w) (up first)
  let booted ← Prog.after (Given.answer {}) (Pass.boot chatLoop) (Pass.lose opened.st)
  let record ← booted.disk.records.rows.head?
  let (again, refused) ← play second none false 100 (releasing record true)
    (handed record true booted) { opened.peer with processes := alone second }
  pure { opened, admitted, booted, record, again, refused }

/-- A runtime that dies in its turn and is started again has its release refused. -/
def Refused (w : World) (r : MessageRecord) : Prop :=
  ∃ c t w' r', Steps (service chatLoop first) ⟨releasing r false, handed r false w, up first⟩ t c ∧
    Prog.Runs (Pass.boot chatLoop) (Pass.lose c.st) (.ok ()) w' ∧
    w'.mem.recovering = some [releaseIdFor r'] ∧
    r' ∈ w'.disk.records.rows ∧
    Fails second r' true (handed r' true w') { c.peer with processes := alone second }
      (.tool [turnActive (releaseIdFor r')])

theorem reissued_refused {w : World} {r : MessageRecord} {x : Reissued}
    (h : reissued w r = some x)
    (hx : thrown x.again.result = some (.tool [turnActive (releaseIdFor x.record)]))
    (hrec : x.booted.mem.recovering = some [releaseIdFor x.record])
    (ht : (x.refused.any fun e => isBegin e.q && !away (resultOf e.q e.answer) &&
      decide (refusal e = some (.tool [turnActive (releaseIdFor x.record)]))) = true) :
    Refused w r := by
  simp only [reissued, Option.bind_eq_bind, Option.bind_eq_some_iff] at h
  obtain ⟨⟨opened, admitted⟩, h₀, booted, h₁, record, h₂, ⟨again, refused⟩, h₃, h⟩ := h
  cases h
  refine ⟨opened, admitted, booted, record, play_steps h₀, Prog.after_runs h₁, hrec,
    List.mem_of_head? h₂, refused, again.st, again.peer, play_ends h₃ (thrown_eq hx), ?_⟩
  intro hcost
  obtain ⟨e, he, hcheck⟩ := List.any_eq_true.1 ht
  simp only [Bool.and_eq_true, Bool.not_eq_true', decide_eq_true_eq] at hcheck
  obtain ⟨⟨hbegin, hthere⟩, href⟩ := hcheck
  have hok := hcost.admitted e he (isBegin_before hbegin).1 (isBegin_before hbegin).2 hthere
  rw [refusal, hok] at href
  cases href

/-- The service that stops after it collected a message, one that restarts in the turn of
the message, and one that was not restarted when the runtime was: each ends the process. -/
theorem outages_cost : ∃ w r, (Pass.process chatLoop).Reachable ⟨.idle, w⟩ ∧
    Fails first r false (handed r false w) (up first) (actionUnavailable "fetch failed") ∧
    Fails first r false (handed r false w) (up first)
      (.tool [contextMismatch (releaseIdFor r)]) ∧ Refused w r := by
  have hrun : (atRest "client").any (fun (w, r) => ((stopped w r).any fun (c, t) =>
        decide (thrown c.result = some (actionUnavailable "fetch failed")) &&
          t.any fun e => isBegin e.q && away (resultOf e.q e.answer)) &&
      ((restarted w r).any fun x =>
        decide (thrown x.left.result = some (.tool [contextMismatch (releaseIdFor r)])) &&
          decide (x.taken.result.status = .completed) && x.ended.any fun e =>
            decide (refusal e = some (.tool [contextMismatch (releaseIdFor r)]))) &&
      (reissued w r).any fun x =>
        decide (thrown x.again.result = some (.tool [turnActive (releaseIdFor x.record)])) &&
          decide (x.booted.mem.recovering = some [releaseIdFor x.record]) &&
          x.refused.any fun e => isBegin e.q && !away (resultOf e.q e.answer) &&
            decide (refusal e = some (.tool [turnActive (releaseIdFor x.record)]))) = true := by
    decide +kernel
  obtain ⟨⟨w, r⟩, hw, hcheck⟩ := (Option.any_eq_true _ _).1 hrun
  simp only [Bool.and_eq_true] at hcheck
  obtain ⟨⟨hstop, hrestart⟩, hreissue⟩ := hcheck
  obtain ⟨⟨c, t⟩, h₁, hstop⟩ := (Option.any_eq_true _ _).1 hstop
  obtain ⟨x, h₂, hrestart⟩ := (Option.any_eq_true _ _).1 hrestart
  obtain ⟨y, h₃, hreissue⟩ := (Option.any_eq_true _ _).1 hreissue
  simp only [Bool.and_eq_true, decide_eq_true_eq] at hstop hrestart hreissue
  exact ⟨w, r, atRest_reachable hw, stopped_fails h₁ hstop.1 hstop.2,
    restarted_fails h₂ hrestart.1.1 hrestart.1.2 hrestart.2,
    reissued_refused h₃ hreissue.1.1 hreissue.1.2 hreissue.2⟩

/-- The service is there all along. -/
def served' (w : World) (r : MessageRecord) :
    Option (Config (service chatLoop first) Bool × List (Peer.Served (service chatLoop first))) :=
  play first none false 100 (releasing r false) (handed r false w) (up first)

/-- A message is released with the service there: its turn is admitted, told to have ended
and closed. -/
theorem turn_kept_run : ∃ w r t s' b', (Pass.process chatLoop).Reachable ⟨.idle, w⟩ ∧
    Ends (service chatLoop first) (releasing r false) (handed r false w) (up first) t (.ok true)
      s' b' ∧
    (∃ e ∈ t, isBegin e.q = true) ∧
    (∃ x ∈ s'.disk.records.rows, x.id = r.id ∧ (x.release.bind (·.completedAt)).isSome = true) ∧
    Costless chatLoop first r [r] false (releaseIdFor r) (some "c") (handed r false w) (up first) t (.ok true)
      s' b' := by
  have hrun : (atRest "client").any (fun (w, r) => (served' w r).any fun (c, t) =>
      cameTrue c.result && decide (Met chatLoop first t) &&
        (t.any fun e => isBegin e.q) && c.st.disk.records.rows.any fun x =>
          decide (x.id = r.id) && (x.release.bind (·.completedAt)).isSome) = true := by
    decide +kernel
  obtain ⟨⟨w, r⟩, hw, hcheck⟩ := (Option.any_eq_true _ _).1 hrun
  obtain ⟨⟨c, t⟩, hplay, hcheck⟩ := (Option.any_eq_true _ _).1 hcheck
  simp only [Bool.and_eq_true, decide_eq_true_eq, List.any_eq_true] at hcheck
  obtain ⟨⟨⟨hx, hmet⟩, hbegin⟩, hclosed⟩ := hcheck
  unfold cameTrue at hx
  split at hx
  · rename_i x hresult
    subst hx
    have hends := play_ends hplay hresult
    have hgroup : (handed r false w).mem.group = [r] := rfl
    have hlive : Live first (up first).processes := alone_live (by decide)
    have hkept := turn_kept hlive hgroup hends hmet
    exact ⟨w, r, t, c.st, c.peer, atRest_reachable hw, hends, hbegin, hclosed, hkept⟩
  · cases hx

end CarbonRuntime.Bugs.CostlyAdmission
