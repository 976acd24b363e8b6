import CarbonRuntime.Jobs.SopFile

/-!
# A SOP file that throws

The check of a SOP file collects its faults and goes on, and goes over the tracks once more at the end
(records/sop-definition.ts:103-107). That loop goes over `track.positions` of every track, also of
those it has reported: a track without a list of positions, or a position that is `null`, throws where
a list of faults is due. So does a value it puts in a fault, where it has no text: in JSON an object
with a `toString` of its own.

`positions_declared_iff`: a file is answered with faults, and with none only where every job of it
keeps to declared positions, exactly where the file as a whole has a fault or is clear of the two.

Counterexample: a track whose positions are missing.
-/

open CarbonRuntime.Core CarbonRuntime.Stream

namespace CarbonRuntime.Bugs.UnlistedPositions

open Jobs

variable {P : Spelling} {v t m e p : Json} {track step id fileSop : String} {ts ms es ps : List Json}
  {seen tracks : List (String × List String)} {ids seenIds live : List String}

/-! ## What a file throws at -/

/-- A property that has a text, or is not there. -/
def Shows (v : Option Json) : Prop := ∀ w ∈ v, hasText w = true

/-- A track the last loop can go over. -/
def Walks : Json → Prop
  | .object fields =>
    match Value.own "positions" fields with
    | some (.array ps) => ∀ p ∈ ps, p ≠ .null
    | some (.string _) => True
    | _ => False
  | _ => False

/-- What a fault of a move may name has a text. -/
def MoveShows (tracks : List (String × List String)) (m : Json) : Prop :=
  match (filled (m.field "track")).bind (positionsIn tracks) with
  | none => Shows (m.field "track")
  | some _ => (∀ items, listOf (m.field "from") = some items → ∀ x ∈ items, hasText x = true) ∧
    Shows (m.field "to")

/-- What the last fault of a position may name has a text. -/
def ChasingShows (live : List String) (t p : Json) : Prop :=
  ∀ step, (p.field "on_deadline").filter truthy = some step → has live (some step) = false →
    Shows (t.field "id") ∧ Shows (p.field "id") ∧ hasText step = true

/-- What the fault of a track may name has a text. -/
def InitialShows (t : Json) : Prop :=
  (objectId t).isSome = true → ∀ p ps, listOf (t.field "positions") = some (p :: ps) →
    Shows (t.field "initial")

def StepShows (tracks : List (String × List String)) (e : Json) : Prop :=
  (objectId e).isSome = true → ∀ ms, listOf (e.field "moves") = some ms → ∀ m ∈ ms, MoveShows tracks m

/-- The tracks can be gone over, and whatever a fault names has a text. -/
structure Clear (ts es : List Json) : Prop where
  walks : ∀ t ∈ ts, Walks t
  initial : ∀ t ∈ ts, InitialShows t
  steps : ∀ e ∈ es, StepShows (declaredTracks ts) e
  chasing : ∀ t ∈ ts, ∀ ps, walked t = .ok ps → ∀ p ∈ ps, ChasingShows (liveSteps es) t p

/-! ## Each of the loops -/

mutual

theorem text_goes (P : Spelling) : ∀ v : Json, Goes (text P v) ↔ hasText v = true
  | .null => by simp [text, hasText]
  | .bool b => by simp [text, hasText]
  | .number n => by simp [text, hasText]
  | .string s => by simp [text, hasText]
  | .array items => by
    rw [text, hasText, goes_bind_pure]
    exact texts_go P items
  | .object fields => by
    rw [text, hasText]
    by_cases h : fields.any (·.1 = "toString") = true
    · simp only [h, if_true, goes_error, Bool.not_true, Bool.false_eq_true]
    · rw [if_neg h, Bool.not_eq_true] at *
      simp only [h, Bool.not_false, goes_ok]

theorem texts_go (P : Spelling) : ∀ items : List Json, Goes (texts P items) ↔ haveTexts items = true
  | [] => by simp [texts, haveTexts]
  | item :: items => by
    have hrest := texts_go P items
    have hitem := text_goes P item
    cases item with
    | null =>
      rw [texts, haveTexts, goes_bind_pure, hrest]
      simp [hasText]
    | _ =>
      rw [texts, haveTexts, Bool.and_eq_true, ← hrest, ← hitem]
      · exact goes_bind fun _ => goes_bind_pure
      · exact nofun

end

theorem textOf_goes {v : Option Json} : Goes (textOf P v) ↔ Shows v := by
  cases v with
  | none => simp [textOf, Shows]
  | some v => simp [textOf, Shows, text_goes]

/-- A position is a string. -/
theorem shows_of_has {v : Option Json} (h : has ids v = true) : Shows v := by
  unfold has at h
  split at h
  · simp [Shows, hasText]
  · cases h

theorem initialFaults_go {initial : Option Json} :
    Goes (initialFaults P track ids initial) ↔ Shows initial := by
  unfold initialFaults
  split
  · rename_i h
    exact iff_of_true goes_ok (shows_of_has h)
  · rw [goes_bind_pure, textOf_goes]

theorem strangers_go {front : String} {vs : List (Option Json)} :
    Goes (strangers P ids front vs) ↔ ∀ v ∈ vs, Shows v := by
  induction vs with
  | nil => simp [strangers]
  | cons v vs ih =>
    rw [strangers, List.forall_mem_cons, ← ih]
    split
    · rename_i h
      exact (and_iff_right (shows_of_has h)).symm
    · rw [goes_bind fun _ => goes_bind_pure, textOf_goes]

theorem tracksFaultsOf_go : Goes (tracksFaultsOf P seen ts) ↔ ∀ t ∈ ts, InitialShows t := by
  induction ts generalizing seen with
  | nil => simp [tracksFaultsOf]
  | cons t ts ih =>
    rw [tracksFaultsOf, List.forall_mem_cons]
    split
    · rename_i hid
      rw [goes_bind_pure, ih]
      exact (and_iff_right fun h => absurd h (by simp [hid])).symm
    · rename_i id hid
      dsimp only
      have hother : (∀ p ps, listOf (t.field "positions") ≠ some (p :: ps)) →
          ((∀ t ∈ ts, InitialShows t) ↔ InitialShows t ∧ ∀ t ∈ ts, InitialShows t) := fun h =>
        (and_iff_right fun _ p ps hps => absurd hps (h p ps)).symm
      split
      · rename_i hlist
        rw [goes_bind_pure, ih]
        exact hother fun p ps h => by cases hlist.symm.trans h
      · rename_i hlist
        rw [goes_bind_pure, ih]
        exact hother fun p ps h => by cases hlist.symm.trans h
      · rename_i p ps hlist
        rw [goes_bind fun _ => goes_bind_pure, initialFaults_go, ih]
        refine and_congr_left fun _ => ⟨fun h _ _ _ _ => h, fun h => h (by simp [hid]) p ps hlist⟩

theorem fromFaults_go : Goes (fromFaults P ids step m) ↔
    ∀ items, listOf (m.field "from") = some items → ∀ x ∈ items, hasText x = true := by
  unfold fromFaults
  split
  · rename_i h
    simp [h]
  · rename_i h
    simp [h]
  · rename_i p ps h
    rw [strangers_go]
    simp [h, Shows]

theorem moveFaultsOf_go : Goes (moveFaultsOf P tracks step m) ↔ MoveShows tracks m := by
  unfold moveFaultsOf MoveShows
  cases (filled (m.field "track")).bind (positionsIn tracks) with
  | none =>
    dsimp only
    rw [goes_bind_pure, textOf_goes]
  | some positions =>
    dsimp only
    rw [goes_bind fun _ => goes_bind_pure, fromFaults_go, strangers_go]
    simp

theorem movesFaultsOf_go : Goes (movesFaultsOf P tracks step ms) ↔ ∀ m ∈ ms, MoveShows tracks m := by
  induction ms with
  | nil => simp [movesFaultsOf]
  | cons m ms ih =>
    rw [movesFaultsOf, goes_bind fun _ => goes_bind_pure, moveFaultsOf_go, ih, List.forall_mem_cons]

theorem stepsFaultsOf_go {channels : Json} :
    Goes (stepsFaultsOf P channels tracks seenIds es) ↔ ∀ e ∈ es, StepShows tracks e := by
  induction es generalizing seenIds with
  | nil => simp [stepsFaultsOf]
  | cons e es ih =>
    rw [stepsFaultsOf, List.forall_mem_cons]
    split
    · rename_i hid
      rw [goes_bind_pure, ih]
      exact (and_iff_right fun h => absurd h (by simp [hid])).symm
    · rename_i id hid
      have hstep : Goes (stepFaults P channels tracks id e) ↔ StepShows tracks e := by
        unfold stepFaults
        dsimp only
        split
        · rename_i hlist
          exact iff_of_true goes_pure fun _ ms h => by rw [hlist] at h; cases h
        · rename_i ms hlist
          rw [goes_bind_pure, movesFaultsOf_go]
          exact ⟨fun h _ ms' h' => by rw [hlist] at h'; cases h'; exact h,
            fun h => h (by simp [hid]) ms hlist⟩
      rw [goes_bind fun _ => goes_bind_pure, hstep, ih]

theorem chasingFault_goes : Goes (chasingFault P live t p) ↔ p ≠ .null ∧ ChasingShows live t p := by
  unfold chasingFault
  split
  · simp
  · rename_i hnull
    rw [and_iff_right hnull]
    unfold ChasingShows
    cases hd : (p.field "on_deadline").filter truthy with
    | none => simp
    | some step =>
      dsimp only
      split
      · rename_i hlive
        exact iff_of_true goes_ok fun s hs hno => by cases hs; rw [hlive] at hno; cases hno
      · rename_i hlive
        rw [goes_bind fun _ => goes_bind fun _ => goes_bind_pure, textOf_goes, textOf_goes, text_goes]
        refine ⟨fun h s hs _ => by cases hs; exact h, fun h => h step rfl (by simpa using hlive)⟩

theorem chasingFaultsIn_go :
    Goes (chasingFaultsIn P live t ps) ↔ ∀ p ∈ ps, p ≠ .null ∧ ChasingShows live t p := by
  induction ps with
  | nil => simp [chasingFaultsIn]
  | cons p ps ih =>
    rw [chasingFaultsIn, goes_bind fun _ => goes_bind_pure, chasingFault_goes, ih, List.forall_mem_cons]

/-- A track can be gone over where there is a list of positions, and none of them is `null`. -/
theorem walks_iff : Walks t ↔ ∃ ps, walked t = .ok ps ∧ ∀ p ∈ ps, p ≠ .null := by
  cases t with
  | object fields =>
    unfold Walks walked
    dsimp only
    cases Value.own "positions" fields with
    | none => simp
    | some v =>
      cases v with
      | array ps => simp
      | string s =>
        refine iff_of_true trivial ⟨_, rfl, fun p hp => ?_⟩
        obtain ⟨c, -, rfl⟩ := List.mem_map.1 hp
        nofun
      | _ => simp
  | _ => simp [Walks, walked]

theorem chasingFaultsOf_go : Goes (chasingFaultsOf P live ts) ↔ ∀ t ∈ ts,
    Walks t ∧ ∀ ps, walked t = .ok ps → ∀ p ∈ ps, ChasingShows live t p := by
  induction ts with
  | nil => simp [chasingFaultsOf]
  | cons t ts ih =>
    rw [chasingFaultsOf, List.forall_mem_cons, ← ih, walks_iff]
    cases hw : walked t with
    | error x =>
      simp [bind, Except.bind]
    | ok ps =>
      have hrest : Goes (Except.ok ps >>= fun ps => chasingFaultsIn P live t ps >>= fun faults =>
          chasingFaultsOf P live ts >>= fun rest => pure (faults ++ rest)) ↔
          Goes (chasingFaultsIn P live t ps) ∧ Goes (chasingFaultsOf P live ts) :=
        goes_bind (m := chasingFaultsIn P live t ps) fun _ => goes_bind_pure
      rw [hrest, chasingFaultsIn_go]
      simp [forall_and]

/-! ## The whole file -/

def tracksOf (v : Json) : List Json := (listOf (v.field "tracks")).getD []

def eventsOf (v : Json) : List Json := (listOf (v.field "events")).getD []

theorem validateFile_goes :
    Goes (validateFile P v fileSop) ↔ headFaults v fileSop ≠ [] ∨ Clear (tracksOf v) (eventsOf v) := by
  unfold validateFile
  split
  · rename_i fields
    dsimp only
    split
    · rename_i hhead
      exact iff_of_true goes_ok (.inl hhead)
    · rename_i hhead
      rw [or_iff_right hhead, goes_bind fun _ => goes_bind fun _ => goes_bind_pure, tracksFaultsOf_go,
        stepsFaultsOf_go, chasingFaultsOf_go]
      exact ⟨fun ⟨h₁, h₂, h₃⟩ => ⟨fun t ht => (h₃ t ht).1, h₁, h₂, fun t ht => (h₃ t ht).2⟩,
        fun h => ⟨h.initial, h.steps, fun t ht => ⟨h.walks t ht, h.chasing t ht⟩⟩⟩
  · rename_i hno
    refine iff_of_true goes_ok (.inl ?_)
    have hfield : v.field "sop" = none := by
      unfold Value.field
      split
      · rename_i fields
        exact absurd rfl (hno fields)
      · rfl
    simp [headFaults, hfield, isString]

/-- The file is answered with a list of faults, and where that is empty it is a SOP, and of every job
of it whatever is observed each track has a position it declares, there is no other, and the views and
the allowed intents are answered. -/
def Upholds (P : Spelling) (v : Json) (fileSop : String) : Prop :=
  ∃ faults, validateFile P v fileSop = .ok faults ∧ (faults = [] → ∃ s, sopOf P v = some s ∧
    ∀ positions, (observing s).Reachable positions → s.Placed positions ∧
      (∀ since, ∃ views, positionViews s positions since = .ok views) ∧
      ∀ id ∈ allowedIntents s positions, ∃ e, stepOf s id = .ok e ∧ legality e positions = [])

/-- A file is answered, and a job of one that is accepted keeps to declared positions, exactly where the
file as a whole has a fault, or every track can be gone over and all that a fault names has a text. -/
theorem positions_declared_iff (P : Spelling) (v : Json) (fileSop : String) :
    Upholds P v fileSop ↔ headFaults v fileSop ≠ [] ∨ Clear (tracksOf v) (eventsOf v) := by
  rw [← validateFile_goes (P := P)]
  constructor
  · rintro ⟨faults, h, -⟩
    exact ⟨faults, h⟩
  · rintro ⟨faults, h⟩
    refine ⟨faults, h, ?_⟩
    rintro rfl
    obtain ⟨s, hs, hdeclared⟩ := validateFile_accepts h
    refine ⟨s, hs, fun positions hr => ?_⟩
    have hplaced := placed_reachable hdeclared hr
    exact ⟨hplaced, positionViews_ok hplaced.every, fun id hid => allowedIntents_live hdeclared hid⟩

/-! ## A track without positions -/

/-- `{"sop": "tow", "version": "1", "tracks": [{"id": "quote", "label": "Quote"}], "events": [],
"collected_channels": {"agent_action": {}}}` -/
def unlisted : Json :=
  .object [("sop", .string "tow"), ("version", .string "1"),
    ("tracks", .array [.object [("id", .string "quote"), ("label", .string "Quote")]]),
    ("events", .array []), ("collected_channels", .object [("agent_action", .object [])])]

def spelling : Spelling where
  number _ := "0"
  json _ := "{}"

/-- **Counterexample**: the fault of the track is found, and the check throws. -/
theorem unlisted_throws : validateFile spelling unlisted "tow" = .error {} ∧
    tracksFaultsOf spelling [] (tracksOf unlisted) =
      .ok ["track quote: positions must be a nonempty list"] ∧
    ¬ Upholds spelling unlisted "tow" := by
  have h : validateFile spelling unlisted "tow" = .error {} := by decide +kernel
  refine ⟨h, by decide +kernel, ?_⟩
  rintro ⟨faults, hok, -⟩
  rw [h] at hok
  cases hok

end CarbonRuntime.Bugs.UnlistedPositions
