import CarbonRuntime.Runtime.Records

/-!
# SOPs

A SOP defines one kind of work: tracks, each with the positions a job can have on it, and
steps that move a job (records/sop-definition.ts). A job's positions are a plain object, one
position a track.

A `Sop` is a value that already has the shape of the type; what `validateSop` reports of the
shape itself (a list, an object or a boolean that is none) is not here.

**Results.** `validateSop_tracks`: no two tracks of a valid SOP share an id, which is what the
lookups by id of an upgrade and of a view rest on.
-/

open CarbonRuntime.Core CarbonRuntime.Stream

namespace CarbonRuntime.Jobs

open Records

/-- A plain object: its own entries. -/
abbrev Entries (V : Type) := Table (Prod.fst : String × V → String)

/-- `entries[name]` -/
def Entries.get {V : Type} (e : Entries V) (name : String) : Option V :=
  (e.find name).map (·.2)

@[simp] theorem Entries.get_put {V : Type} (e : Entries V) (name : String) (v : V) (k : String) :
    Entries.get (e.put (name, v)) k = if k = name then some v else e.get k := by
  unfold Entries.get
  rw [Table.find_put]
  split <;> rfl

@[simp] theorem Entries.get_erase {V : Type} (e : Entries V) (name k : String) :
    Entries.get (e.erase name) k = if k = name then none else e.get k := by
  unfold Entries.get
  rw [Table.find_erase]
  split <;> rfl

/-! ## The definition -/

structure Position where
  id : String
  label : String
  means : String
  doHere : String
  waitingOn : String
  terminal : Option Bool := none
  deadline : Option String := none
  onDeadline : Option String := none
  renamedFrom : Option String := none
deriving DecidableEq

structure Track where
  id : String
  label : String
  initial : String
  positions : List Position
deriving DecidableEq

structure Move where
  track : String
  /-- `from` -/
  froms : List String
  /-- `to` -/
  dest : String
deriving DecidableEq

inductive Kind
  | intent | observation
deriving DecidableEq

/-- What a step says of the tool that acts it: its operation, or an object that names the
tool or the operation. -/
inductive Action
  | operation (name : String)
  | mapped (tool operation : Option String)
deriving DecidableEq

structure Step where
  id : String
  kind : Kind
  mover : String
  observedVia : String
  moves : List Move
  requires : List (String × String) := []
  action : Option Action := none
  retired : Bool := false
deriving DecidableEq

structure Sop where
  sop : String
  version : String
  tracks : List Track
  events : List Step
  /-- The names in `collected_channels`. -/
  collectedChannels : List String
deriving DecidableEq

/-! ## `validateSop` -/

/-- `ID`, sop-definition.ts:19. -/
def isId (s : String) : Bool :=
  s.toList.head?.any (fun c => 'a' ≤ c && c ≤ 'z') &&
    s.toList.all fun c => ('a' ≤ c && c ≤ 'z') || ('0' ≤ c && c ≤ '9') || c = '_' || c = '-'

/-- A fault where the check fails. -/
def orFault (ok : Bool) (fault : String) : List String := if ok then [] else [fault]

@[simp] theorem orFault_eq_nil {ok : Bool} {fault : String} : orFault ok fault = [] ↔ ok = true := by
  cases ok <;> simp [orFault]

/-- mirrors sop-definition.ts:54-63 -/
def Position.faults (track : String) (p : Position) : List String :=
  let at' := "track " ++ track ++ "." ++ p.id ++ ": "
  orFault (!blank p.label) (at' ++ "label is missing") ++
    orFault (!blank p.means) (at' ++ "means is missing") ++
    orFault (!blank p.doHere) (at' ++ "do_here is missing") ++
    orFault (!blank p.waitingOn) (at' ++ "waiting_on is missing") ++
    orFault p.terminal.isSome (at' ++ "terminal must be boolean") ++
    orFault (p.deadline.isNone || p.onDeadline.any (!blank ·))
      (at' ++ "deadline has no chasing step") ++
    orFault (p.renamedFrom.all isId) (at' ++ "renamed_from is not a position id")

/-- The positions of a track in turn, `seen` those before, sop-definition.ts:48-64. -/
def positionsFaults (track : String) : List String → List Position → List String
  | _, [] => []
  | seen, p :: ps =>
    if isId p.id then
      orFault (!seen.contains p.id) ("track " ++ track ++ ": duplicate position " ++ p.id) ++
        p.faults track ++ positionsFaults track (p.id :: seen) ps
    else ("track " ++ track ++ ": a position has no valid id") :: positionsFaults track seen ps

/-- The set `positions` of a track. -/
def Track.ids (t : Track) : List String := (t.positions.map (·.id)).filter isId

/-- The tracks in turn, `seen` the map `tracks` so far, sop-definition.ts:39-66. -/
def tracksFaults : List (String × List String) → List Track → List String
  | _, [] => []
  | seen, t :: ts =>
    if !isId t.id then "a track has no valid id" :: tracksFaults seen ts
    else
      orFault (!seen.any (·.1 = t.id)) ("duplicate track " ++ t.id) ++
        orFault (!blank t.label) ("track " ++ t.id ++ ": label is missing") ++
        if t.positions = [] then
          ("track " ++ t.id ++ ": positions must be a nonempty list") :: tracksFaults seen ts
        else
          positionsFaults t.id [] t.positions ++
            orFault (t.ids.contains t.initial)
              ("track " ++ t.id ++ ": initial " ++ t.initial ++ " is not a position") ++
            tracksFaults ((t.id, t.ids) :: seen) ts

/-- The map `tracks` behind the loop: of two tracks with one id, the later. -/
def Sop.declared (s : Sop) : List (String × List String) :=
  ((s.tracks.filter fun t => isId t.id && t.positions != []).map fun t => (t.id, t.ids)).reverse

def Sop.positionsOf (s : Sop) (track : String) : Option (List String) :=
  (s.declared.find? (·.1 = track)).map (·.2)

/-- mirrors sop-definition.ts:85-93 -/
def moveFaults (s : Sop) (step : String) (m : Move) : List String :=
  match s.positionsOf m.track with
  | none => ["step " ++ step ++ ": unknown track " ++ m.track]
  | some positions =>
    (if m.froms = [] then ["step " ++ step ++ ": from must name a position"]
      else m.froms.flatMap fun p =>
        orFault (positions.contains p) ("step " ++ step ++ ": unknown from position " ++ p)) ++
      orFault (positions.contains m.dest) ("step " ++ step ++ ": unknown to position " ++ m.dest)

/-- mirrors sop-definition.ts:73-101 -/
def Step.faults (s : Sop) (e : Step) : List String :=
  let at' := "step " ++ e.id ++ ": "
  orFault (!blank e.mover) (at' ++ "mover is missing") ++
    orFault (!blank e.observedVia && s.collectedChannels.contains e.observedVia)
      (at' ++ "observed_via is not a collected channel") ++
    orFault (e.kind ≠ .intent || e.observedVia = "agent_action")
      (at' ++ "intent needs the agent_action channel") ++
    orFault (e.kind ≠ .intent || e.action.isSome) (at' ++ "intent has no action") ++
    e.moves.flatMap (moveFaults s e.id) ++
    e.requires.flatMap fun r =>
      orFault ((s.positionsOf r.1).any (·.contains r.2)) (at' ++ "requires names an unknown position")

/-- The steps in turn, `seen` those before, sop-definition.ts:68-102. -/
def stepsFaults (s : Sop) : List String → List Step → List String
  | _, [] => []
  | seen, e :: es =>
    if isId e.id then
      orFault (!seen.contains e.id) ("duplicate step " ++ e.id) ++ e.faults s ++
        stepsFaults s (e.id :: seen) es
    else "a step has no valid id" :: stepsFaults s seen es

/-- mirrors sop-definition.ts:103-107 -/
def Sop.chasingFaults (s : Sop) : List String :=
  s.tracks.flatMap fun t => t.positions.flatMap fun p =>
    match p.onDeadline.filter (· ≠ "") with
    | none => []
    | some step =>
      orFault (s.events.any (fun e => isId e.id && e.id = step) &&
          !s.events.any fun e => isId e.id && e.id = step && e.retired)
        ("track " ++ t.id ++ "." ++ p.id ++ ": chasing step " ++ step ++ " is absent or retired")

/-- mirrors sop-definition.ts:24-109 -/
def validateSop (s : Sop) (fileSop : String) : List String :=
  let faults :=
    orFault (s.sop = fileSop) ("sop must match filename " ++ fileSop) ++
      orFault (!blank s.version) "version must be a nonempty string" ++
      orFault (s.tracks != []) "tracks must be a nonempty list" ++
      orFault (s.collectedChannels.contains "agent_action")
        "collected_channels must include agent_action"
  if faults ≠ [] then faults
  else tracksFaults [] s.tracks ++ stepsFaults s [] s.events ++ s.chasingFaults

/-- No two tracks, among them and those seen, share an id. -/
theorem tracksFaults_nodup : ∀ {seen : List (String × List String)} {ts : List Track},
    tracksFaults seen ts = [] →
    (ts.map (·.id)).Nodup ∧ ∀ t ∈ ts, ∀ p ∈ seen, p.1 ≠ t.id
  | _, [], _ => ⟨List.nodup_nil, by simp⟩
  | seen, t :: ts, h => by
    unfold tracksFaults at h
    split at h
    · simp at h
    · split at h
      · simp at h
      · simp only [List.append_eq_nil_iff, orFault_eq_nil, Bool.not_eq_true',
          List.any_eq_false, decide_eq_true_eq] at h
        obtain ⟨⟨hnew, _⟩, _, hrest⟩ := h
        obtain ⟨hnodup, hapart⟩ := tracksFaults_nodup hrest
        refine ⟨List.nodup_cons.2 ⟨?_, hnodup⟩, ?_⟩
        · intro hmem
          obtain ⟨t', ht', hid⟩ := List.mem_map.1 hmem
          exact hapart t' ht' (t.id, t.ids) List.mem_cons_self hid.symm
        · intro t' ht' p hp
          rcases List.mem_cons.1 ht' with rfl | ht'
          · exact hnew p hp
          · exact hapart t' ht' p (List.mem_cons_of_mem _ hp)

/-- No two tracks of a valid SOP share an id. -/
theorem validateSop_tracks {s : Sop} {fileSop : String} (h : validateSop s fileSop = []) :
    (s.tracks.map (·.id)).Nodup := by
  unfold validateSop at h
  dsimp only at h
  split at h
  · rename_i hne
    exact absurd h hne
  · exact (tracksFaults_nodup (List.append_eq_nil_iff.1 (List.append_eq_nil_iff.1 h).1).1).1

/-! ## Steps and positions -/

/-- mirrors sop-definition.ts:111-115; of two tracks with one id the later one stands. -/
def initialPositions (s : Sop) : Entries String :=
  s.tracks.foldl (fun e t => e.put (t.id, t.initial)) Table.empty

def stepInvalid (s : Sop) (id : String) : Fault :=
  ⟨"SOP_STEP_INVALID", id, "SOP " ++ s.sop ++ " has no active step " ++ id,
    "use a live step from the installed SOP"⟩

/-- mirrors sop-definition.ts:117-122 -/
def stepOf (s : Sop) (id : String) : Except (List Fault) Step :=
  match s.events.find? (·.id = id) with
  | none => .error [stepInvalid s id]
  | some step => if step.retired then .error [stepInvalid s id] else .ok step

theorem stepOf_ok {s : Sop} {step : String} {event : Step} (h : stepOf s step = .ok event) :
    event ∈ s.events ∧ event.id = step ∧ event.retired = false := by
  unfold stepOf at h
  split at h
  · cases h
  · rename_i e he
    split at h
    · cases h
    · rename_i hlive
      cases h
      exact ⟨List.mem_of_find?_eq_some he, by simpa using List.find?_some he, by simpa using hlive⟩

/-- What an absent position reads as in a message. -/
def shown (p : Option String) : String := p.getD "undefined"

/-- `moves[0]?.track` -/
def Step.primary (e : Step) : Option String := e.moves.head?.map (·.track)

/-- The `why` of `legality`, sop-definition.ts:124-135. -/
def legality (e : Step) (positions : Entries String) : List String :=
  (e.requires.filter fun r => positions.get r.1 ≠ some r.2).map
      (fun r => r.1 ++ " must be " ++ r.2 ++ "; it is " ++ shown (positions.get r.1)) ++
    match e.primary with
    | none => []
    | some primary =>
      let froms := (e.moves.filter (·.track = primary)).flatMap (·.froms)
      orFault ((positions.get primary).any froms.contains)
        (primary ++ " is " ++ shown (positions.get primary) ++ ", not " ++
          " or ".intercalate froms)

/-- mirrors sop-definition.ts:137-140 -/
def allowedIntents (s : Sop) (positions : Entries String) : List String :=
  (s.events.filter fun e => e.kind = .intent && !e.retired && legality e positions = []).map (·.id)

/-- The loop over the moves, sop-definition.ts:146-149: the first move of a track whose
`from` admits the old position takes it. -/
def applyMoves (old : Entries String) :
    List Move → Entries String × List String → Entries String × List String
  | [], s => s
  | m :: ms, (next, moved) =>
    if moved.contains m.track then applyMoves old ms (next, moved)
    else if (old.get m.track).any m.froms.contains then
      applyMoves old ms (next.put (m.track, m.dest), m.track :: moved)
    else applyMoves old ms (next, moved)

/-- What an observation leaves: the positions, and whether the model admits it. -/
structure Applied where
  positions : Entries String
  offModel : Bool

/-- mirrors sop-definition.ts:142-156 -/
def applyObservation (e : Step) (positions : Entries String) : Applied :=
  let unmet := e.requires.any fun r => positions.get r.1 ≠ some r.2
  let (next, moved) := applyMoves positions e.moves (positions, [])
  match e.primary with
  | none => ⟨next, unmet⟩
  | some primary =>
    if moved.contains primary then ⟨next, unmet⟩
    else
      match ((e.moves.filter (·.track = primary)).getLast?).map (·.dest) with
      | none => ⟨next, true⟩
      | some dest => ⟨next.put (primary, dest), true⟩

structure PositionView where
  track : String
  position : Position
  since : Option String

def positionInvalid (track : String) (position : Option String) : Fault :=
  ⟨"SOP_POSITION_INVALID", track, "job has unknown " ++ track ++ " position " ++ shown position,
    "repair the job position against its installed SOP"⟩

/-- mirrors sop-definition.ts:158-168 -/
def positionViews (s : Sop) (positions since : Entries String) :
    Except (List Fault) (List PositionView) :=
  s.tracks.mapM fun t =>
    match t.positions.find? fun p => positions.get t.id = some p.id with
    | none => .error [positionInvalid t.id (positions.get t.id)]
    | some p => .ok ⟨t.id, p, since.get t.id⟩

end CarbonRuntime.Jobs
