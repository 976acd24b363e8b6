import CarbonRuntime.Runtime.Admission

/-!
# A message the records service refuses

The store takes an identifier of 1024 characters (stream/encode.ts:34, 81-85); the records
service takes a source id of 512 without outer blanks (records/job-tools.ts:14, 27-33) and a
request of 16 KiB (runtime/records-action-http.ts:19, 42-48). `syncCollected` asks for every
message that was captured, and the admission of a turn names every message of its group: what
the service refuses there ends the process, and so does every start after it, since the store
is as it was.

Counterexample: a message whose id, which its sender chose, ends in a blank.
-/

open CarbonRuntime.Core CarbonRuntime.Stream

namespace CarbonRuntime.Bugs.RefusedRequest

open Store Calls Turn Release Records Beside

variable {L : Loop} {me : Owner} {s s' : World} {b b' : Box}
variable {t : List (Peer.Served (service L me))}

/-! ## What the service takes -/

/-- The service is up and stays, and no other turn is admitted. -/
structure Free (b b' : Box) : Prop where
  turns : ∃ t, b.turns = some t ∧ t.accepting = true ∧ t.contexts = []
  database : b.database = true
  stays : b'.listens = true

def Undisturbed (L : Loop) (me : Owner) (t : List (Peer.Served (service L me))) : Prop :=
  ∀ e ∈ t, beforeTurn e.q = true → Free e.before e.after

theorem Undisturbed.left {t₁ t₂ : List (Peer.Served (service L me))}
    (h : Undisturbed L me (t₁ ++ t₂)) : Undisturbed L me t₁ :=
  fun e he => h e (List.mem_append_left _ he)

theorem Undisturbed.right {t₁ t₂ : List (Peer.Served (service L me))}
    (h : Undisturbed L me (t₁ ++ t₂)) : Undisturbed L me t₂ :=
  fun e he => h e (List.mem_append_right _ he)

/-- The collection asks for the message. -/
def collectable (r : MessageRecord) : Bool :=
  !(r.direction ≠ .inbound || r.historical || !isSourceName r.source)

/-- The message's id and its unit are what the service takes, and small enough. -/
def Fits (L : Loop) (r : MessageRecord) : Prop :=
  collectable r = true → ∀ unit, Policy.unitIdFor L.js L.declaration r = .ok unit →
    isSourceId r.messageId = true ∧ blank unit = false ∧
      (collectBody L.js r.messageId r.source unit).utf8ByteSize ≤ maxBody

/-- The turn of these messages is complete and small enough. -/
def Starts (L : Loop) (me : Owner) (R unitId : String) (records : List MessageRecord) : Prop :=
  let c : TurnContext := ⟨R, unitId, records.map (·.messageId), me⟩
  c.complete = true ∧ (turnStartBody L.js c).utf8ByteSize ≤ maxBody

/-- The messages a release collects: those of its group, and once after a start all. -/
def collected (L : Loop) (s : World) (records : List MessageRecord) : List MessageRecord :=
  if L.declaration.records then
    if s.mem.collectedSynced then records else s.disk.records.rows
  else []

theorem received_ok {α : Type} {body : String} {x : Except (List Fault) α} {a : α} :
    received body x = .ok a ↔ body.utf8ByteSize ≤ maxBody ∧ x = .ok a := by
  unfold received
  split
  · constructor
    · exact fun h => by cases h
    · exact fun h => absurd h.1 (by omega)
  · exact ⟨fun h => ⟨by omega, h⟩, fun h => h.2⟩

theorem received_error {α : Type} {body : String} {x : Except (List Fault) α} {faults : List Fault}
    (h : received body x = .error faults) : faults = [bodyLarge] ∨ x = .error faults := by
  unfold received at h
  split at h
  · cases h
    exact .inl rfl
  · exact .inr h

theorem actionCollect_ok {sourceId channel unit : String} (hc : isSourceName channel = true) :
    actionCollect sourceId channel unit = .ok () ↔
      isSourceId sourceId = true ∧ blank unit = false := by
  unfold actionCollect
  rw [hc]
  cases isSourceId sourceId <;> cases blank unit <;> simp

theorem actionCollect_error {sourceId channel unit : String} {faults : List Fault}
    (h : actionCollect sourceId channel unit = .error faults) :
    unavailable (.tool faults) = none := by
  unfold actionCollect at h
  split at h
  · cases h
    simp [unavailable, sourceIdInvalid]
  · split at h
    · cases h
      simp [unavailable, channelInvalid]
    · split at h
      · cases h
        simp [unavailable, unitInvalid]
      · cases h

/-- What an undisturbed service answers to a collection. -/
theorem collects_free {sourceId channel unit : String} {x : Except Err Unit} (hf : Free b b')
    (hc : isSourceName channel = true) (h : Collects L.js sourceId channel unit b x b') :
    (x = .ok () ∧ isSourceId sourceId = true ∧ blank unit = false ∧
      (collectBody L.js sourceId channel unit).utf8ByteSize ≤ maxBody) ∨
    (∃ faults, x = .error (.tool faults) ∧ unavailable (.tool faults) = none) ∧
      ¬ (isSourceId sourceId = true ∧ blank unit = false ∧
        (collectBody L.js sourceId channel unit).utf8ByteSize ≤ maxBody) := by
  obtain ⟨t, ht, ha, -⟩ := hf.turns
  cases h with
  | unreached m hno => simp [Box.listens, ht, ha] at hno
  | broken m => exact absurd hf.stays (by simp [Box.listens])
  | refused t' faults _ hrec =>
    refine .inr ⟨⟨faults, rfl, ?_⟩, ?_⟩
    · rcases received_error hrec with rfl | hx
      · simp [unavailable, bodyLarge]
      · exact actionCollect_error hx
    · rintro ⟨hid, hu, hsize⟩
      rw [(received_ok (a := ())).2 ⟨hsize, (actionCollect_ok hc).2 ⟨hid, hu⟩⟩] at hrec
      cases hrec
  | failed _ _ _ _ hdown =>
    rw [hf.database] at hdown
    cases hdown
  | collected t' _ _ hrec =>
    obtain ⟨hsize, hx⟩ := received_ok.1 hrec
    obtain ⟨hid, hu⟩ := (actionCollect_ok hc).1 hx
    exact .inl ⟨rfl, hid, hu, hsize⟩

theorem start_complete {ps : Processes} {tu tu' : Turns} {c : TurnContext}
    (h : tu.start ps c = .ok tu') : c.complete = true := by
  unfold Turns.start at h
  split at h
  · cases h
  · cases hc : c.complete with
    | true => rfl
    | false => simp [validateTurnContext, hc, bind, Except.bind] at h

/-- What an undisturbed service answers to an admission. -/
theorem begins_free {c : TurnContext} {x : Except Err Unit} (hf : Free b b')
    (hl : Live c.owner b.processes) (h : Begins L.js me c b x b') :
    (x = .ok () ∧ c.complete = true ∧ (turnStartBody L.js c).utf8ByteSize ≤ maxBody) ∨
    (∃ faults, x = .error (.tool faults)) ∧
      ¬ (c.complete = true ∧ (turnStartBody L.js c).utf8ByteSize ≤ maxBody) := by
  obtain ⟨t, ht, ha, hnone⟩ := hf.turns
  by_cases hfit : c.complete = true ∧ (turnStartBody L.js c).utf8ByteSize ≤ maxBody
  · have hready : Ready L.js c b b' :=
      ⟨⟨t, ht, ha, fun o ho => by rw [hnone] at ho; cases ho⟩, hf.stays, hfit.1, hfit.2⟩
    exact .inl ⟨hready.admitted hl h, hfit⟩
  · refine .inr ⟨?_, hfit⟩
    have hno : ∀ t', received (turnStartBody L.js c) (t.start b.processes c) ≠ .ok t' := by
      intro t' hok
      obtain ⟨hsize, hstart⟩ := received_ok.1 hok
      exact hfit ⟨start_complete hstart, hsize⟩
    cases h with
    | unreached m hno => simp [Box.listens, ht, ha] at hno
    | broken m => exact absurd hf.stays (by simp [Box.listens])
    | refused t' faults _ _ => exact ⟨faults, rfl⟩
    | admitted t₁ t' ht₁ _ hrec =>
      rw [ht] at ht₁
      cases ht₁
      exact absurd hrec (hno t')
    | waits _ t₁ t' _ ht₁ _ hrec _ =>
      rw [ht] at ht₁
      cases ht₁
      exact absurd hrec (hno t')

/-! ## What a refusal comes to -/

/-- The service took all there was to take, or refused something and that is the end of it. -/
def Verdict (fit : Prop) (t : List (Peer.Served (service L me))) (x : Prog.Result (sig L) Unit) :
    Prop :=
  (fit ∧ x = .ok () ∧ ∀ e ∈ t, refusal e = none) ∨
    ¬ fit ∧ ∃ faults, x = .error (.tool faults) ∧ unavailable (.tool faults) = none ∧
      ∃ e ∈ t, beforeTurn e.q = true ∧ refusal e = some (.tool faults)

theorem Verdict.quiet {fit : Prop} (h : fit) :
    Verdict fit ([] : List (Peer.Served (service L me))) (.ok ()) :=
  .inl ⟨h, rfl, fun e he => by cases he⟩

/-- The collection of one message. -/
theorem collect_verdict {r : MessageRecord} {x : Prog.Result (sig L) Unit}
    (h : Ends (service L me) (do
      if r.direction ≠ .inbound || r.historical || !isSourceName r.source then pure ()
      else match Policy.unitIdFor L.js L.declaration r with
        | .error _ => pure ()
        | .ok unit => do
          let a ← ask L (.collect r.messageId r.source unit)
          outcome L a) s b t x s' b') (hfree : Undisturbed L me t) : Verdict (Fits L r) t x := by
  by_cases hskip : (r.direction ≠ .inbound || r.historical || !isSourceName r.source) = true
  · rw [if_pos hskip] at h
    obtain ⟨rfl, -, rfl⟩ := Ends.ret_inv h
    refine .quiet fun hc => ?_
    rw [collectable, hskip] at hc
    cases hc
  · rw [if_neg hskip] at h
    have hname : isSourceName r.source = true := by
      rw [Bool.not_eq_true] at hskip
      simp only [Bool.or_eq_false_iff, Bool.not_eq_false'] at hskip
      exact hskip.2
    split at h
    · rename_i e hu
      obtain ⟨rfl, -, rfl⟩ := Ends.ret_inv h
      refine .quiet fun _ unit hunit => ?_
      rw [hu] at hunit
      cases hunit
    · rename_i unit hu
      have hserved := Steps.served h
      obtain ⟨a, b₀, b₁, rfl, hout⟩ := ask_inv rfl (fun _ => inferInstance) h
      have hin := List.mem_singleton_self (⟨.collect r.messageId r.source unit, b₀, a, b₁⟩ :
        Peer.Served (service L me))
      have hx := outcome_runs hout
      rcases collects_free (hfree _ hin rfl) hname (hserved _ hin).2 with
        ⟨hok, hfits⟩ | ⟨⟨faults, herr, hun⟩, hno⟩
      · rw [hok] at hx
        refine .inl ⟨fun _ u hu' => ?_, hx, fun e he => ?_⟩
        · rw [hu] at hu'
          cases hu'
          exact hfits
        · rw [List.mem_singleton] at he
          rw [he, refusal, resultOf, hok]
      · rw [herr] at hx
        refine .inr ⟨fun hfit => hno (hfit ?_ unit hu), faults, hx, hun, _, hin, rfl, ?_⟩
        · rw [Bool.not_eq_true] at hskip
          rw [collectable, hskip]
          rfl
        · rw [refusal, resultOf, herr]

theorem each_verdict {f : MessageRecord → Program L Unit}
    (hf : ∀ r {s s' : World} {b b' : Box} {t : List (Peer.Served (service L me))}
      {x : Prog.Result (sig L) Unit}, Ends (service L me) (f r) s b t x s' b' →
      Undisturbed L me t → Verdict (Fits L r) t x) (l : List MessageRecord) :
    ∀ {s b t} {x : Prog.Result (sig L) Unit},
      Ends (service L me) (Prog.each (𝔖 := sig L) f l) s b t x s' b' → Undisturbed L me t →
      Verdict (∀ r ∈ l, Fits L r) t x := by
  induction l with
  | nil =>
    intro s b t x h _
    obtain ⟨rfl, -, rfl⟩ := Ends.ret_inv h
    exact .quiet fun r hr => by cases hr
  | cons r l ih =>
    intro s b t x h hfree
    rcases Ends.bind_inv h with ⟨_, s₁, b₁, t₁, t₂, h₁, h₂, rfl⟩ | ⟨err, rfl, h₁⟩
    · rcases hf r h₁ hfree.left with ⟨hfit, -, hquiet⟩ | ⟨-, faults, herr, -⟩
      · rcases ih h₂ hfree.right with ⟨hall, hx, hquiet'⟩ | ⟨hno, faults, hx, hun, e, he, hrest⟩
        · refine .inl ⟨List.forall_mem_cons.2 ⟨hfit, hall⟩, hx, fun e he => ?_⟩
          exact (List.mem_append.1 he).elim (hquiet e) (hquiet' e)
        · exact .inr ⟨fun hall => hno (List.forall_mem_cons.1 hall).2, faults, hx, hun, e,
            List.mem_append_right _ he, hrest⟩
      · cases herr
    · rcases hf r h₁ hfree with ⟨-, hok, -⟩ | ⟨hno, hrest⟩
      · cases hok
      · exact .inr ⟨fun hall => hno (List.forall_mem_cons.1 hall).1, hrest⟩

/-- What follows without asking the service leaves the verdict, where it does not raise. -/
theorem Verdict.after {fit : Prop} {p q : Program L Unit} {x : Prog.Result (sig L) Unit}
    (hp : ∀ {s' b' t} {x : Prog.Result (sig L) Unit}, Ends (service L me) p s b t x s' b' →
      Undisturbed L me t → Verdict fit t x)
    (hq : Unheard served (fun _ => True) q) (hend : ∀ s s' x, Prog.Runs q s x s' → x = .ok ())
    (h : Ends (service L me) (p.bind fun _ => q) s b t x s' b') (hfree : Undisturbed L me t) :
    Verdict fit t x := by
  rcases Ends.bind_inv h with ⟨_, s₁, b₁, t₁, t₂, h₁, h₂, rfl⟩ | ⟨err, rfl, h₁⟩
  · obtain ⟨rfl, -⟩ := hq.ends h₂ trivial
    rw [hend _ _ _ h₂.runs, List.append_nil]
    exact hp h₁ hfree.left
  · exact hp h₁ hfree

theorem sync_verdict {records : List MessageRecord} {x : Prog.Result (sig L) Unit}
    (h : Ends (service L me) (syncCollected L records) s b t x s' b')
    (hfree : Undisturbed L me t) : Verdict (∀ r ∈ collected L s records, Fits L r) t x := by
  have hend : ∀ l : List MessageRecord, ∀ {s b t} {x : Prog.Result (sig L) Unit},
      Ends (service L me) (do
        Prog.each (𝔖 := sig L) (fun r => do
          if r.direction ≠ .inbound || r.historical || !isSourceName r.source then pure ()
          else match Policy.unitIdFor L.js L.declaration r with
            | .error _ => pure ()
            | .ok unit => do
              let a ← ask L (.collect r.messageId r.source unit)
              outcome L a) l
        setMem L fun m => { m with collectedSynced := true }) s b t x s' b' →
      Undisturbed L me t → Verdict (∀ r ∈ l, Fits L r) t x := by
    intro l s b t x h hfree
    exact .after (q := setMem L fun m => { m with collectedSynced := true })
      (fun h hfree => each_verdict (fun r => collect_verdict) l h hfree)
      (unheard_setMem fun _ => rfl) (fun _ _ _ => setMem_runs) h hfree
  unfold syncCollected at h
  unfold collected
  split at h
  · rename_i hrec
    rw [if_pos hrec]
    have h := fetch_inv h
    dsimp only at h
    by_cases hsynced : s.mem.collectedSynced = true
    · rw [if_pos hsynced] at h ⊢
      exact hend records h hfree
    · rw [if_neg hsynced] at h ⊢
      have hquiet : Unheard served (fun _ => True) (rebuild L) := inferInstance
      rcases Ends.bind_inv h with ⟨l, s₁, b₁, t₁, t₂, h₁, h₂, rfl⟩ | ⟨err, rfl, h₁⟩
      · obtain ⟨l', hl', hperm⟩ := rebuild_perm h₁.runs
        cases hl'
        obtain ⟨rfl, -⟩ := hquiet.ends h₁ trivial
        have := hend l h₂ hfree
        simp only [hperm.mem_iff] at this
        exact this
      · obtain ⟨l', hl', -⟩ := rebuild_perm h₁.runs
        cases hl'
  · rename_i hrec
    rw [if_neg hrec]
    obtain ⟨rfl, -, rfl⟩ := Ends.ret_inv h
    exact .quiet fun r hr => by cases hr

variable {record : MessageRecord} {records : List MessageRecord} {reissue : Bool} {R : String}

/-- A refusal ended the run. -/
def Refused {α : Type} (t : List (Peer.Served (service L me))) (x : Prog.Result (sig L) α) : Prop :=
  ∃ e ∈ t, beforeTurn e.q = true ∧ ∃ faults, refusal e = some (.tool faults) ∧
    x = .error (.tool faults)

/-- The collection before a turn goes on, or its refusal is raised. -/
theorem hold_verdict {x : Prog.Result (sig L) Bool}
    (h : Ends (service L me) (syncCollectedOrHold L records) s b t x s' b')
    (hfree : Undisturbed L me t) :
    ((∀ r ∈ collected L s records, Fits L r) ∧ x = .ok true ∧ ∀ e ∈ t, refusal e = none) ∨
      ¬ (∀ r ∈ collected L s records, Fits L r) ∧ Refused t x := by
  have hfaults : Unheard served (fun _ => True)
      (setMem L fun m => { m with recordsFaults := [] }) := unheard_setMem fun _ => rfl
  have hquiet : Unheard served (fun _ => True) (do
      setMem L fun m => { m with recordsFaults := [] }
      pure true) := inferInstance
  have hend : ∀ {s s' : World} {x : Prog.Result (sig L) Bool}, Prog.Runs (do
      setMem L fun m => { m with recordsFaults := [] }
      pure true) s x s' → x = .ok true := by
    intro s s' x h
    have := plain_runs (Q := fun x _ => x = true) (X := fun _ _ => False) h (by
      simp only [setMem, Prog.wp_bind, wp_fetch, wp_write, Prog.wp_pure]
      exact ⟨trivial, fun _ => trivial⟩)
    cases x with
    | ok a => exact congrArg Prog.Result.ok this
    | error => exact this.elim
  rcases Ends.handle_inv h with ⟨err, s₁, b₁, t₁, t₂, h₁, h₂, rfl⟩ | ⟨a, rfl, h₁⟩
  · rcases Ends.bind_inv h₁ with ⟨_, s₂, b₂, t₃, t₄, h₃, h₄, rfl⟩ | ⟨err', herr', h₃⟩
    · cases hend h₄.runs
    · cases herr'
      rcases sync_verdict h₃ hfree.left with ⟨-, hok, -⟩ | ⟨hno, faults, herr, hun, e, he, hb, href⟩
      · cases hok
      · cases herr
        rw [hun] at h₂
        obtain ⟨rfl, -, rfl⟩ := Ends.throw_inv h₂
        exact .inr ⟨hno, e, List.mem_append_left _ he, hb, faults, href, rfl⟩
  · rcases Ends.bind_inv h₁ with ⟨_, s₂, b₂, t₃, t₄, h₃, h₄, rfl⟩ | ⟨err', herr', h₃⟩
    · obtain ⟨rfl, -⟩ := hquiet.ends h₄ trivial
      rw [List.append_nil] at hfree ⊢
      rcases sync_verdict h₃ hfree with ⟨hall, -, hnone⟩ | ⟨-, faults, herr, -⟩
      · exact .inl ⟨hall, hend h₄.runs, hnone⟩
      · cases herr
    · cases herr'

/-- What asks the service nothing but the admission of a turn. -/
instance : Heard isBegin := ⟨fun q h => by cases q <;> first | rfl | cases h⟩

/-- The admission of a turn, and what is refused to it. -/
theorem takeAdmitted_verdict {u θ : String} {x : Prog.Result (sig L) Taken}
    (h : Ends (service L me) (takeAdmitted L records reissue u θ R) s b t x s' b')
    (hfree : Undisturbed L me t) (hl : Live me b.processes) :
    (∀ e ∈ t, isBegin e.q = true → Starts L me R u records ∧ refusal e = none) ∨
      ¬ Starts L me R u records ∧ Refused t x := by
  have hwritten : Unheard served (fun _ => True) (written L records reissue θ R) := inferInstance
  have htold : Unheard isBegin (fun _ => True) (told L R) := by
    have hend : Unheard isBegin (fun _ => True) (ask L (.endTurn R)) :=
      unheard_other rfl fun _ _ => rfl
    unfold told
    infer_instance
  have hturn : Unheard isBegin (fun _ => True) (turnTaken L records u θ R) :=
    turnTaken_unheard records u θ R htold
  have hnone : ∀ {t : List (Peer.Served (service L me))}, t = [] →
      ∀ e ∈ t, isBegin e.q = true → Starts L me R u records ∧ refusal e = none :=
    fun ht e he => by rw [ht] at he; cases he
  rcases Ends.bind_inv h with ⟨_, s₁, b₁, t₁, t₂, h₁, h₂, rfl⟩ | ⟨err, rfl, h₁⟩
  · obtain ⟨rfl, -⟩ := hwritten.ends h₁ trivial
    have hl₁ : Live me b₁.processes := (served_live h₁ hl).1
    have hadmitted : ∀ {t s' b'} {x : Prog.Result (sig L) Unit},
        Ends (service L me) (admitted L records u R) s₁ b₁ t x s' b' → Undisturbed L me t →
        (∀ e ∈ t, isBegin e.q = true → Starts L me R u records ∧ refusal e = none) ∨
          ¬ Starts L me R u records ∧ ∃ e ∈ t, beforeTurn e.q = true ∧ ∃ faults,
            refusal e = some (.tool faults) ∧ x = .error (.tool faults) := by
      intro t s' b' x h hfree
      unfold admitted at h
      split at h
      · have hserved := Steps.served h
        have hlive := (served_live h hl₁).2
        obtain ⟨a, b₂, b₃, rfl, hout⟩ := ask_inv rfl (fun _ => inferInstance) h
        have hin := List.mem_singleton_self
          (⟨.beginTurn R u (records.map (·.messageId)), b₂, a, b₃⟩ : Peer.Served (service L me))
        have hx := outcome_runs hout
        rcases begins_free (hfree _ hin rfl) (hlive _ hin) (hserved _ hin).2 with
          ⟨hok, hstarts⟩ | ⟨⟨faults, herr⟩, hno⟩
        · refine .inl fun e he _ => ⟨hstarts, ?_⟩
          rw [List.mem_singleton] at he
          rw [he, refusal, resultOf, hok]
        · rw [herr] at hx
          refine .inr ⟨hno, _, hin, rfl, faults, ?_, hx⟩
          rw [refusal, resultOf, herr]
      · obtain ⟨-, -, ht⟩ := Ends.ret_inv h
        exact .inl (hnone ht)
    rw [List.nil_append] at hfree ⊢
    rcases Ends.bind_inv h₂ with ⟨_, s₂, b₂, t₃, t₄, h₃, h₄, rfl⟩ | ⟨err, rfl, h₃⟩
    · rcases hadmitted h₃ hfree.left with hgood | ⟨-, e, -, -, faults, -, herr⟩
      · refine .inl fun e he hbegin => (List.mem_append.1 he).elim (fun he => hgood e he hbegin) ?_
        intro he
        rw [(hturn.steps h₄ trivial).1 e he] at hbegin
        cases hbegin
      · cases herr
    · rcases hadmitted h₃ hfree with hgood | ⟨hno, e, he, hb, faults, href, herr⟩
      · exact .inl hgood
      · cases herr
        exact .inr ⟨hno, e, he, hb, faults, href, rfl⟩
  · exact .inl (hnone (hwritten.ends h₁ trivial).1)

theorem beforeTurn_iff {q : Ask} :
    beforeTurn q = true ↔ isCollect q = true ∨ isBegin q = true := by
  cases q <;> simp [beforeTurn, isCollect, isBegin]

theorem Refused.cast {α β : Type} {err : Err}
    (h : Refused t (.error err : Prog.Result (sig L) α)) :
    Refused t (.error err : Prog.Result (sig L) β) := by
  obtain ⟨e, he, hb, faults, href, herr⟩ := h
  cases herr
  exact ⟨e, he, hb, faults, href, rfl⟩

theorem Refused.left {α : Type} {x : Prog.Result (sig L) α}
    {t₁ t₂ : List (Peer.Served (service L me))} (h : Refused t₁ x) : Refused (t₁ ++ t₂) x := by
  obtain ⟨e, he, hrest⟩ := h
  exact ⟨e, List.mem_append_left _ he, hrest⟩

theorem Refused.right {α : Type} {x : Prog.Result (sig L) α}
    {t₁ t₂ : List (Peer.Served (service L me))} (h : Refused t₂ x) : Refused (t₁ ++ t₂) x := by
  obtain ⟨e, he, hrest⟩ := h
  exact ⟨e, List.mem_append_right _ he, hrest⟩

/-- All that was asked before the turn was taken. -/
def Accepted (t : List (Peer.Served (service L me))) : Prop :=
  ∀ e ∈ t, beforeTurn e.q = true → refusal e = none

/-- Where a turn is asked for, it can start. -/
def Startable (records : List MessageRecord) (R u : String)
    (t : List (Peer.Served (service L me))) : Prop :=
  (∃ e ∈ t, isBegin e.q = true) → Starts L me R u records

theorem Accepted.append {t₁ t₂ : List (Peer.Served (service L me))} (h₁ : Accepted t₁)
    (h₂ : Accepted t₂) : Accepted (t₁ ++ t₂) :=
  fun e he => (List.mem_append.1 he).elim (h₁ e) (h₂ e)

/-- What asks for no turn has none refused. -/
theorem accepted_of_unasked (h : ∀ e ∈ t, isCollect e.q = false ∧ isBegin e.q = false) :
    Accepted t ∧ ∀ e ∈ t, isBegin e.q = false := by
  refine ⟨fun e he hb => ?_, fun e he => (h e he).2⟩
  rcases beforeTurn_iff.1 hb with hc | hb
  · rw [(h e he).1] at hc
    cases hc
  · rw [(h e he).2] at hb
    cases hb

theorem turn_verdict {u θ : String} {x : Prog.Result (sig L) Unit}
    (h : Ends (service L me) (releaseTurn L record records u θ reissue R) s b t x s' b')
    (hfree : Undisturbed L me t) (hl : Live me b.processes) :
    Startable records R u t ∧ Accepted t ∨ ¬ Startable records R u t ∧ Refused t x := by
  rw [releaseTurn_eq] at h
  have htake : ∀ {t s' b'} {x : Prog.Result (sig L) Taken},
      Ends (service L me) (takeAdmitted L records reissue u θ R) s b t x s' b' →
      Undisturbed L me t →
      Startable records R u t ∧ Accepted t ∨ ¬ Startable records R u t ∧ Refused t x := by
    intro t s' b' x h hfree
    have hcollect : Unheard isCollect (fun _ => True)
      (takeAdmitted L records reissue u θ R) := inferInstance
    have hbegin : ∀ e ∈ t, beforeTurn e.q = true → isBegin e.q = true := by
      intro e he hb
      refine (beforeTurn_iff.1 hb).resolve_left fun hc => ?_
      rw [(hcollect.steps h trivial).1 e he] at hc
      cases hc
    rcases takeAdmitted_verdict h hfree hl with hgood | ⟨hno, href⟩
    · exact .inl ⟨fun ⟨e, he, hb⟩ => (hgood e he hb).1,
        fun e he hb => (hgood e he (hbegin e he hb)).2⟩
    · obtain ⟨e, he, hb, hrest⟩ := href
      exact .inr ⟨fun hs => hno (hs ⟨e, he, hbegin e he hb⟩), e, he, hb, hrest⟩
  rcases Ends.bind_inv h with ⟨taken, s₁, b₁, t₁, t₂, h₁, h₂, rfl⟩ | ⟨err, rfl, h₁⟩
  · have hleave : Unheard isBegin (fun _ => True) (leave L record R taken) := by
      have hend : Unheard isBegin (fun _ => True) (ask L (.endTurn R)) :=
        unheard_other rfl fun _ _ => rfl
      unfold leave told
      infer_instance
    have hcollect : Unheard isCollect (fun _ => True) (leave L record R taken) := inferInstance
    obtain ⟨hacc, hnone⟩ := accepted_of_unasked fun e he =>
      ⟨(hcollect.steps h₂ trivial).1 e he, (hleave.steps h₂ trivial).1 e he⟩
    rcases htake h₁ hfree.left with ⟨hstart, hacc₁⟩ | ⟨-, e, -, -, faults, -, herr⟩
    · refine .inl ⟨fun ⟨e, he, hb⟩ => ?_, hacc₁.append hacc⟩
      rcases List.mem_append.1 he with he | he
      · exact hstart ⟨e, he, hb⟩
      · rw [hnone e he] at hb
        cases hb
    · cases herr
  · exact (htake h₁ hfree).imp_right fun h => ⟨h.1, h.2.cast⟩

variable {unitId : Option String} {x : Prog.Result (sig L) Bool}

theorem proceed_verdict {u θ : String}
    (h : Ends (service L me) ((collecting L records (some (u, θ))).bind
      (proceed L record records reissue R)) s b t x s' b')
    (hfree : Undisturbed L me t) (hl : Live me b.processes) :
    ((∀ r ∈ collected L s records, Fits L r) ∧ Startable records R u t) ∧ Accepted t ∨
      ¬ ((∀ r ∈ collected L s records, Fits L r) ∧ Startable records R u t) ∧ Refused t x := by
  -- The collection, with what it hands on.
  have hcollect : ∀ {t s' b'} {y : Prog.Result (sig L) (Option (String × String))},
      Ends (service L me) (collecting L records (some (u, θ))) s b t y s' b' →
      Undisturbed L me t →
      ((∀ r ∈ collected L s records, Fits L r) ∧ y = .ok (some (u, θ)) ∧ Accepted t ∧
        ∀ e ∈ t, isBegin e.q = false) ∨
      ¬ (∀ r ∈ collected L s records, Fits L r) ∧ Refused t y := by
    intro t s' b' y h hfree
    have hsync : Unheard isBegin (fun _ => True) (syncCollectedOrHold L records) :=
      sync_unheard (fun _ _ _ => rfl) records
    rcases Ends.bind_inv h with ⟨synced, s₁, b₁, t₁, t₂, h₁, h₂, rfl⟩ | ⟨err, rfl, h₁⟩
    · rcases hold_verdict h₁ hfree.left with ⟨hall, hsynced, hnone⟩ | ⟨-, e, -, -, faults, -, herr⟩
      · cases hsynced
        obtain ⟨rfl, -, rfl⟩ := Ends.ret_inv (a := some (u, θ)) h₂
        rw [List.append_nil]
        exact .inl ⟨hall, rfl, fun e he _ => hnone e he, (hsync.steps h₁ trivial).1⟩
      · cases herr
    · rcases hold_verdict h₁ hfree with ⟨-, hok, -⟩ | ⟨hno, href⟩
      · cases hok
      · exact .inr ⟨hno, href.cast⟩
  rcases Ends.bind_inv h with ⟨o, s₁, b₁, t₁, t₂, h₁, h₂, rfl⟩ | ⟨err, rfl, h₁⟩
  · rcases hcollect h₁ hfree.left with ⟨hall, ho, hacc, hunasked⟩ | ⟨-, e, -, -, faults, -, herr⟩
    · cases ho
      have hl₁ : Live me b₁.processes := (served_live h₁ hl).1
      have hstartable : ∀ {t : List (Peer.Served (service L me))},
          Startable records R u t ↔ Startable records R u (t₁ ++ t) := by
        intro t
        refine imp_congr_left ⟨fun ⟨e, he, hb⟩ => ⟨e, List.mem_append_right _ he, hb⟩, ?_⟩
        rintro ⟨e, he, hb⟩
        rcases List.mem_append.1 he with he | he
        · rw [hunasked e he] at hb
          cases hb
        · exact ⟨e, he, hb⟩
      have hturn : ∀ {t s' b'} {y : Prog.Result (sig L) Unit},
          Ends (service L me) (releaseTurn L record records u θ reissue R) s₁ b₁ t y s' b' →
          Undisturbed L me t →
          ((∀ r ∈ collected L s records, Fits L r) ∧ Startable records R u (t₁ ++ t)) ∧
            Accepted (t₁ ++ t) ∨
          ¬ ((∀ r ∈ collected L s records, Fits L r) ∧ Startable records R u (t₁ ++ t)) ∧
            Refused (t₁ ++ t) y := by
        intro t s' b' y h hfree
        rcases turn_verdict h hfree hl₁ with ⟨hstart, hacc₁⟩ | ⟨hno, href⟩
        · exact .inl ⟨⟨hall, hstartable.1 hstart⟩, hacc.append hacc₁⟩
        · exact .inr ⟨fun hgood => hno (hstartable.2 hgood.2), href.right⟩
      rcases Ends.bind_inv h₂ with ⟨_, s₂, b₂, t₃, t₄, h₃, h₄, rfl⟩ | ⟨err, rfl, h₃⟩
      · obtain ⟨-, -, rfl⟩ := Ends.ret_inv h₄
        rw [List.append_nil] at hfree ⊢
        rcases hturn h₃ hfree.right with hgood | ⟨-, e, -, -, faults, -, herr⟩
        · exact .inl hgood
        · cases herr
      · exact (hturn h₃ hfree.right).imp_right fun h => ⟨h.1, h.2.cast⟩
    · cases herr
  · rcases hcollect h₁ hfree with ⟨-, hok, -⟩ | ⟨hno, href⟩
    · cases hok
    · exact .inr ⟨fun hgood => hno hgood.1, href.cast⟩

/-! ## The release -/

/-- The run of the release passes what may hold it, and comes to the collection in `s₁` with
this unit. -/
def Reaches (L : Loop) (me : Owner) (record : MessageRecord) (records : List MessageRecord)
    (reissue : Bool) (R : String) (unitId : Option String) (s : World) (b : Box)
    (t : List (Peer.Served (service L me))) (x : Prog.Result (sig L) Bool) (s' : World) (b' : Box)
    (u : String) (s₁ : World) : Prop :=
  ∃ θ b₁, Ends (service L me) (ready L record unitId) s b [] (.ok (some (u, θ))) s₁ b₁ ∧
    Ends (service L me) ((collecting L records (some (u, θ))).bind
      (proceed L record records reissue R)) s₁ b₁ t x s' b'

instance : Decidable (Free b b') :=
  decidable_of_iff ((b.turns.any fun t => t.accepting && t.contexts.isEmpty) = true ∧
      b.database = true ∧ b'.listens = true)
    ⟨fun ⟨hturns, hdata, hstays⟩ => ⟨by simpa [Option.any_eq_true] using hturns, hdata, hstays⟩,
      fun h => ⟨by simpa [Option.any_eq_true] using h.turns, h.database, h.stays⟩⟩

instance : Decidable (Undisturbed L me t) :=
  List.decidableBAll (fun e : Peer.Served (service L me) =>
    beforeTurn e.q = true → Free e.before e.after) t

/-- A message of this id is released beside a service that is up. -/
def released (messageId : String) : Option (World × MessageRecord ×
    Config (service chatLoop first) Bool × List (Peer.Served (service chatLoop first))) := do
  let (w, r) ← atRest messageId
  let (c, t) ← play first none false 100 (releasing r false) (handed r false w) (up first)
  pure (w, r, c, t)

theorem released_ends {messageId : String} {w : World} {r : MessageRecord}
    {c : Config (service chatLoop first) Bool} {t : List (Peer.Served (service chatLoop first))}
    {x : Prog.Result (sig chatLoop) Bool} (h : released messageId = some (w, r, c, t))
    (hx : c.result = some x) : (Pass.process chatLoop).Reachable ⟨.idle, w⟩ ∧
      Ends (service chatLoop first) (releasing r false) (handed r false w) (up first) t x
        c.st c.peer := by
  simp only [released, Option.bind_eq_bind, Option.bind_eq_some_iff] at h
  obtain ⟨⟨w, r⟩, hw, ⟨c, t⟩, hplay, h⟩ := h
  cases h
  exact ⟨atRest_reachable hw, play_ends hplay hx⟩

/-- The service refuses the id, and the process ends. -/
def idRefused (messageId : String) : Bool :=
  (released messageId).any fun (_, r, c, t) =>
    decide (r.messageId = messageId) && decide (Undisturbed chatLoop first t) &&
      decide (thrown c.result = some (.tool [sourceIdInvalid])) &&
      t.any fun e => beforeTurn e.q && decide (refusal e = some (.tool [sourceIdInvalid]))

/-- The store took the id, the service does not: the process ends. -/
def EndedBy (messageId : String) : Prop :=
  ∃ w r t x s' b', (Pass.process chatLoop).Reachable ⟨.idle, w⟩ ∧ r.messageId = messageId ∧
    Ends (service chatLoop first) (releasing r false) (handed r false w) (up first) t x s' b' ∧
    Undisturbed chatLoop first t ∧ Refused t x

theorem endedBy_of_refused {messageId : String} (h : idRefused messageId = true) :
    EndedBy messageId := by
  obtain ⟨⟨w, r, c, t⟩, hplay, hcheck⟩ := (Option.any_eq_true _ _).1 h
  simp only [Bool.and_eq_true, decide_eq_true_eq, List.any_eq_true] at hcheck
  obtain ⟨⟨⟨hid, hfree⟩, hx⟩, e, he, hb, href⟩ := hcheck
  obtain ⟨hw, hends⟩ := released_ends hplay (thrown_eq hx)
  exact ⟨w, r, t, _, _, _, hw, hid, hends, hfree, e, he, hb, _, href, rfl⟩

end CarbonRuntime.Bugs.RefusedRequest
