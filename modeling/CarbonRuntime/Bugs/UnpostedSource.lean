import CarbonRuntime.Runtime.Admission

/-!
# A source that is not collected

The first collection of a process posts every message in the store; each later one is given the
records of the group that is released (runtime/loop.ts:1127-1150, 1435), though its parameter is
called `captured`. A message that is captured after the first collection and joins no released group,
an operator's message, one that is held or dropped by policy, is posted by no collection until the
process is started again: up to then an observation from it is refused as unverified
(records/job-tools.ts:344-351).

`turns_complete`: a run in which every message that comes to the store between two collections is
of the group that is released next, and none comes between a release's collection and its turns,
has posted at every turn all that a collection of the whole store would.

Counterexample: a message that is held, and one in another conversation after it.
-/

open CarbonRuntime.Core CarbonRuntime.Stream

namespace CarbonRuntime.Bugs.UnpostedSource

open Store Calls Turn Release Records Beside

variable {L : Loop} {s s' : World} {r : MessageRecord} {records : List MessageRecord}

/-! ## What is posted -/

/-- `recordCollectedEvent` of one message. -/
structure Post where
  sourceId : String
  channel : String
  unit : String
deriving DecidableEq

/-- What a collection posts of a record. -/
def due (L : Loop) (r : MessageRecord) : Option Post :=
  if r.direction ≠ .inbound || r.historical || !isSourceName r.source then none
  else match Policy.unitIdFor L.js L.declaration r with
    | .error _ => none
    | .ok unit => some ⟨r.messageId, r.source, unit⟩

/-- What these records owe the service. -/
def dues (L : Loop) (records : List MessageRecord) : List Post := records.filterMap (due L)

/-- Whoever answers the collections, in any way. -/
@[reducible] def service (L : Loop) : Peer (sig L) where
  St := Unit
  serves := isCollect
  answers _ _ _ _ := True
  moves _ _ := False

def posted : (q : Ask) → q.Answer → Option Post
  | .collect sourceId channel unit, a =>
    match a.result with
    | .ok _ => some ⟨sourceId, channel, unit⟩
    | .error _ => none
  | _, _ => none

/-- What was posted, of what was asked. -/
def posts (t : List (Peer.Served (service L))) : List Post := t.filterMap fun e => posted e.q e.answer

variable {t t₁ t₂ : List (Peer.Served (service L))} {b b' : Unit}

theorem posts_append : posts (t₁ ++ t₂) = posts t₁ ++ posts t₂ := List.filterMap_append

theorem collect_posts {sourceId channel unit : String} (h : Ends (service L) (do
    let a ← ask L (.collect sourceId channel unit)
    outcome L a) s b t (.ok ()) s' b') : ⟨sourceId, channel, unit⟩ ∈ posts t := by
  obtain ⟨a, b₀, b₁, rfl, hout⟩ := ask_inv rfl (fun _ => inferInstance) h
  have hres := outcome_runs hout
  cases ha : a.result with
  | ok x => simp [posts, posted, ha]
  | error e =>
    rw [ha] at hres
    cases hres

/-- A collection that comes to its end has posted all it was to. -/
theorem each_posts (h : Ends (service L) (Prog.each (𝔖 := sig L) (fun r => do
      if r.direction ≠ .inbound || r.historical || !isSourceName r.source then pure ()
      else match Policy.unitIdFor L.js L.declaration r with
        | .error _ => pure ()
        | .ok unit => do
          let a ← ask L (.collect r.messageId r.source unit)
          outcome L a) records) s b t (.ok ()) s' b') : dues L records ⊆ posts t := by
  induction records generalizing s b t with
  | nil => exact List.nil_subset _
  | cons r records ih =>
    rcases Ends.bind_inv h with ⟨_, s₁, b₁, t₁, t₂, h₁, h₂, rfl⟩ | ⟨err, herr, -⟩
    · rw [posts_append]
      intro p hp
      obtain ⟨r', hr', hdue⟩ := List.mem_filterMap.1 hp
      rcases List.mem_cons.1 hr' with rfl | hr'
      · unfold due at hdue
        split at hdue
        · cases hdue
        · rename_i hgoes
          dsimp only at h₁
          rw [if_neg hgoes] at h₁
          cases hu : Policy.unitIdFor L.js L.declaration r' with
          | error e =>
            rw [hu] at hdue
            cases hdue
          | ok unit =>
            rw [hu] at hdue h₁
            cases hdue
            exact List.mem_append_left _ (collect_posts h₁)
      · exact List.mem_append_right _ (ih h₂ (List.mem_filterMap.2 ⟨r', hr', hdue⟩))
    · cases herr

/-- What a collection goes over. -/
def candidates (s : World) (records : List MessageRecord) : List MessageRecord :=
  if s.mem.collectedSynced then records else s.disk.records.rows

theorem sync_posts (hrec : L.declaration.records = true)
    (h : Ends (service L) (syncCollected L records) s b t (.ok ()) s' b') :
    dues L (candidates s records) ⊆ posts t := by
  have hall : ∀ {l : List MessageRecord} {s b t}, Ends (service L) (do
      Prog.each (𝔖 := sig L) (fun r => do
        if r.direction ≠ .inbound || r.historical || !isSourceName r.source then pure ()
        else match Policy.unitIdFor L.js L.declaration r with
          | .error _ => pure ()
          | .ok unit => do
            let a ← ask L (.collect r.messageId r.source unit)
            outcome L a) l
      setMem L fun m => { m with collectedSynced := true }) s b t (.ok ()) s' b' →
      dues L l ⊆ posts t := by
    intro l s b t h
    rcases Ends.bind_inv h with ⟨_, s₁, b₁, t₁, t₂, h₁, h₂, rfl⟩ | ⟨err, herr, -⟩
    · rw [posts_append]
      exact fun p hp => List.mem_append_left _ (each_posts h₁ hp)
    · cases herr
  unfold syncCollected at h
  rw [if_pos hrec] at h
  have h := fetch_inv h
  dsimp only at h
  unfold candidates
  by_cases hsynced : s.mem.collectedSynced = true
  · rw [if_pos hsynced] at h ⊢
    exact hall h
  · rw [if_neg hsynced] at h ⊢
    rcases Ends.bind_inv h with ⟨l, s₁, b₁, t₁, t₂, h₁, h₂, rfl⟩ | ⟨err, herr, -⟩
    · obtain ⟨l', hl', hperm⟩ := rebuild_perm h₁.runs
      cases hl'
      rw [posts_append]
      intro p hp
      obtain ⟨r, hr, hdue⟩ := List.mem_filterMap.1 hp
      exact List.mem_append_right _ (hall h₂ (List.mem_filterMap.2 ⟨r, hperm.mem_iff.2 hr, hdue⟩))
    · cases herr

/-- A release goes on only after a collection that came to its end. -/
theorem hold_posts (hrec : L.declaration.records = true)
    (h : Ends (service L) (syncCollectedOrHold L records) s b t (.ok true) s' b') :
    dues L (candidates s records) ⊆ posts t := by
  rcases Ends.handle_inv h with ⟨err, s₁, b₁, t₁, t₂, h₁, h₂, rfl⟩ | ⟨a, ha, h₁⟩
  -- Where the collection fails, the release is held or the fault goes on.
  · split at h₂
    · obtain ⟨hr, -, -⟩ := Ends.throw_inv h₂
      cases hr
    · have hend : ∀ {x : Prog.Result (sig L) Bool} {s s' : World}, Prog.Runs (do
          setMem L fun m => { m with recordsFaults := ‹List Fault› }
          pure false) s x s' → x = .ok false := by
        intro x s s' h
        have := plain_runs (Q := fun x _ => x = false) (X := fun _ _ => False) h (by
          simp only [setMem, Prog.wp_bind, wp_fetch, wp_write, Prog.wp_pure]
          exact ⟨trivial, fun _ => trivial⟩)
        cases x with
        | ok a => exact congrArg Prog.Result.ok this
        | error => exact this.elim
      cases hend h₂.runs
  · rcases Ends.bind_inv h₁ with ⟨_, s₂, b₂, t₃, t₄, h₃, h₄, rfl⟩ | ⟨err, herr, -⟩
    · rw [posts_append]
      exact fun p hp => List.mem_append_left _ (sync_posts hrec h₃ hp)
    · cases herr

/-! ## A process -/

structure State where
  world : World
  /-- What was posted since the process started. -/
  posted : List Post
  /-- A release is under way whose collection came to its end. -/
  turning : Bool
  /-- The records that were in the store at the last collection that came to its end. -/
  seen : List MessageRecord

/-- A collection that ended with `true`: the release goes on. -/
def goesOn : Prog.Result (sig L) Bool → Bool
  | .ok synced => synced
  | .error _ => false

/-- What a collection leaves that ends with `x` in the world `w`. -/
def State.collected (c : State) (t : List (Peer.Served (service L))) (x : Prog.Result (sig L) Bool)
    (w : World) : State :=
  { world := w
    posted := c.posted ++ posts t
    turning := goesOn x
    seen := if goesOn x then c.world.disk.records.rows else c.seen }

inductive Label
  | change
  | collect (records : List MessageRecord)
  | turn
  | done

/-- A process, from its start on. Whatever else it does, captures, holds and releases among it,
changes its world in any way; but only a collection notes that the store was collected. -/
inductive Step (L : Loop) : State → Label → State → Prop
  | change {c : State} (w : World) : w.mem.collectedSynced = c.world.mem.collectedSynced →
      Step L c .change { c with world := w }
  | collect {c : State} {records : List MessageRecord} {t : List (Peer.Served (service L))}
      {x : Prog.Result (sig L) Bool} {w : World} :
      Ends (service L) (syncCollectedOrHold L records) c.world () t x w () →
      Step L c (.collect records) (c.collected t x w)
  /-- A turn of the release that is under way starts. -/
  | turn {c : State} : c.turning = true → Step L c .turn c
  /-- The release is over. -/
  | done (c : State) : Step L c .done { c with turning := false }

def process (L : Loop) : LTS State Label where
  init c := c.world.mem.collectedSynced = false ∧ c.posted = [] ∧ c.turning = false ∧ c.seen = []
  step := Step L

/-- All that a collection of the whole store would post was posted. -/
def Complete (L : Loop) (c : State) : Prop := dues L c.world.disk.records.rows ⊆ c.posted

/-- Whenever a turn starts, all was posted. -/
def Incremental (L : Loop) : Prop :=
  ∀ c c', (process L).Reachable c → (process L).step c .turn c' → Complete L c

/-- Nothing comes to be due from the one store to the other. -/
def Quiet (L : Loop) (w w' : World) : Prop :=
  dues L w'.disk.records.rows ⊆ dues L w.disk.records.rows

/-- What has come since the last collection is of the group that is collected; nothing comes
while it is, nor before its turns. -/
def Gathered (L : Loop) (c : State) (l : Label) (c' : State) : Prop :=
  match l with
  | .change => c.turning = true → Quiet L c.world c'.world
  | .collect records => Quiet L c.world c'.world ∧ (c.world.mem.collectedSynced = true →
      dues L c.world.disk.records.rows ⊆ dues L c.seen ++ dues L records)
  | .turn | .done => True

/-- The runs whose steps gather what has come. -/
def gathering (L : Loop) : LTS State Label where
  init := (process L).init
  step c l c' := (process L).step c l c' ∧ Gathered L c l c'

structure Known (L : Loop) (c : State) : Prop where
  seen : dues L c.seen ⊆ c.posted
  turning : c.turning = true → Complete L c

theorem known_step (hrec : L.declaration.records = true) {c c' : State} {l : Label}
    (hk : Known L c) (h : (gathering L).step c l c') : Known L c' := by
  obtain ⟨hst, hgathered⟩ := h
  cases hst with
  | change w => exact ⟨hk.seen, fun hturning p hp => hk.turning hturning (hgathered hturning hp)⟩
  | @collect records t x w hends =>
    obtain ⟨hquiet, hgroup⟩ := hgathered
    have hseen : dues L c.seen ⊆ c.posted ++ posts t := fun p hp => List.mem_append_left _ (hk.seen hp)
    -- What the store owed is posted, where the collection came to its end.
    have hall : x = .ok true → dues L c.world.disk.records.rows ⊆ c.posted ++ posts t := by
      rintro rfl p hp
      have hposts := hold_posts hrec hends
      unfold candidates at hposts
      by_cases hsynced : c.world.mem.collectedSynced = true
      · rw [if_pos hsynced] at hposts
        rcases List.mem_append.1 (hgroup hsynced hp) with hp | hp
        · exact hseen hp
        · exact List.mem_append_right _ (hposts hp)
      · rw [if_neg hsynced] at hposts
        exact List.mem_append_right _ (hposts hp)
    cases x with
    | error e => exact ⟨hseen, nofun⟩
    | ok synced =>
      cases synced with
      | false => exact ⟨hseen, nofun⟩
      | true => exact ⟨hall rfl, fun _ p hp => hall rfl (hquiet hp)⟩
  | turn => exact hk
  | done => exact ⟨hk.seen, nofun⟩

theorem turns_complete (hrec : L.declaration.records = true) {c c' : State}
    (hc : (gathering L).Reachable c) (hturn : (process L).step c .turn c') : Complete L c := by
  have hinv : (gathering L).Inductive (Known L) := by
    refine ⟨fun c ⟨_, _, hturning, hseen⟩ => ?_, fun c l c' hk hst => known_step hrec hk hst⟩
    exact ⟨by simp [hseen, dues], by simp [hturning]⟩
  cases hturn with
  | turn hturning => exact (hinv.reachable c hc).turning hturning

/-! ## A held message -/

instance (c : State) : Decidable (Complete L c) := inferInstanceAs (Decidable (∀ p ∈ dues L _, p ∈ c.posted))

instance (w w' : World) : Decidable (Quiet L w w') :=
  inferInstanceAs (Decidable (∀ p ∈ dues L _, p ∈ dues L _))

instance (c : State) (records : List MessageRecord) :
    Decidable (dues L c.world.disk.records.rows ⊆ dues L c.seen ++ dues L records) :=
  inferInstanceAs (Decidable (∀ p ∈ dues L _, p ∈ _))

/-- A service that takes whatever is posted. -/
def reply : (q : Ask) → Unit → Option (q.Answer × Unit)
  | .collect _ _ _, b => some ({ result := .ok () }, b)
  | _, _ => none

def start : State := ⟨{}, [], false, []⟩

/-- A message comes to the store. -/
def captured (r : MessageRecord) (c : State) : State :=
  { c with world := { c.world with
      disk := { c.world.disk with records := c.world.disk.records.put r } } }

/-- A release's collection, as the process plays it. -/
def collected (records : List MessageRecord) (c : State) : Option State :=
  match playBeside (service chatLoop) given.answer (fun _ b => b) reply 100 0
      (syncCollectedOrHold chatLoop records) c.world () with
  | some (cfg, t) => cfg.result.map fun x => c.collected t x cfg.st
  | none => none

theorem collected_step {c c' : State} (h : collected records c = some c') :
    (process chatLoop).step c (.collect records) c' := by
  unfold collected at h
  split at h
  · rename_i cfg t hplay
    obtain ⟨x, hx, rfl⟩ := Option.map_eq_some_iff.1 h
    refine .collect ?_
    have hsteps := playBeside_steps (fun _ _ => .refl) (fun _ _ _ _ _ => trivial) _ hplay
    rw [Ends, ← Config.prog_result hx]
    exact hsteps
  · cases h

theorem captured_step (r : MessageRecord) (c : State) :
    (process chatLoop).step c .change (captured r c) := .change _ rfl

def message (messageId : String) : MessageRecord := inboundMessage chats messageId "1"

def ended (c : State) : State := { c with turning := false }

def first : Option State := collected [message "a"] (captured (message "a") start)

/-- A message is released, and a second one after it. -/
def followed (c : State) : Option State := collected [message "b"] (captured (message "b") (ended c))

theorem followed_gathered : ∃ c ∈ first, ∃ c' ∈ followed c, c'.turning = true ∧
    Quiet chatLoop (captured (message "a") start).world c.world ∧
    Quiet chatLoop (captured (message "b") (ended c)).world c'.world ∧
    dues chatLoop (captured (message "b") (ended c)).world.disk.records.rows ⊆
      dues chatLoop c.seen ++ dues chatLoop [message "b"] := by
  have h : first.any (fun c => (followed c).any fun c' => c'.turning &&
      decide (Quiet chatLoop (captured (message "a") start).world c.world) &&
      decide (Quiet chatLoop (captured (message "b") (ended c)).world c'.world) &&
      decide (dues chatLoop (captured (message "b") (ended c)).world.disk.records.rows ⊆
        dues chatLoop (captured (message "b") (ended c)).seen ++ dues chatLoop [message "b"])) = true := by
    decide +kernel
  obtain ⟨c, hc, h⟩ := (Option.any_eq_true _ _).1 h
  obtain ⟨c', hc', h⟩ := (Option.any_eq_true _ _).1 h
  simp only [Bool.and_eq_true, decide_eq_true_eq] at h
  exact ⟨c, hc, c', hc', h.1.1.1, h.1.1.2, h.1.2, h.2⟩

theorem turns_complete_followed : ∃ c, (gathering chatLoop).Reachable c ∧ c.turning = true ∧
    Complete chatLoop c := by
  obtain ⟨c, hc, c', hc', hturning, hquiet, hquiet', hgroup⟩ := followed_gathered
  have hreach : (gathering chatLoop).Reachable c' :=
    ⟨start, _, ⟨rfl, rfl, rfl, rfl⟩, .cons ⟨captured_step (message "a") start, nofun⟩
      (.cons ⟨collected_step hc, hquiet, nofun⟩ (.cons ⟨.done c, trivial⟩
        (.cons ⟨captured_step (message "b") (ended c), nofun⟩
          (.cons ⟨collected_step hc', hquiet', fun _ => hgroup⟩ (.nil _)))))⟩
  exact ⟨c', hreach, hturning, turns_complete rfl hreach (.turn hturning)⟩

/-- An operator's message. -/
def noted : MessageRecord := { message "o" with role := .operator }

/-- Between the two an operator writes. -/
def missed (c : State) : Option State :=
  collected [message "b"] (captured (message "b") (captured noted (ended c)))

theorem missed_incomplete : ∃ c ∈ first, ∃ c' ∈ missed c, c'.turning = true ∧
    ¬ Complete chatLoop c' := by
  have h : first.any (fun c => (missed c).any fun c' =>
      c'.turning && !decide (Complete chatLoop c')) = true := by decide +kernel
  obtain ⟨c, hc, h⟩ := (Option.any_eq_true _ _).1 h
  obtain ⟨c', hc', h⟩ := (Option.any_eq_true _ _).1 h
  rw [Bool.and_eq_true, Bool.not_eq_true', decide_eq_false_iff_not] at h
  exact ⟨c, hc, c', hc', h⟩

/-- The operator's message is never posted. -/
theorem operator_unposted : ¬ ∀ L : Loop, L.declaration.records = true → Incremental L := by
  intro hall
  obtain ⟨c, hc, c', hc', hturning, hmissing⟩ := missed_incomplete
  refine hmissing (hall chatLoop rfl c' c' ?_ (.turn hturning))
  exact ⟨start, _, ⟨rfl, rfl, rfl, rfl⟩, .cons (captured_step (message "a") start)
    (.cons (collected_step hc) (.cons (.done c) (.cons (captured_step noted (ended c))
      (.cons (captured_step (message "b") _) (.cons (collected_step hc') (.nil _))))))⟩

end CarbonRuntime.Bugs.UnpostedSource
