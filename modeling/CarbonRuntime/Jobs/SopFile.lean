import CarbonRuntime.Core.Check
import CarbonRuntime.Core.Value
import CarbonRuntime.Jobs.Positions

/-!
# The check of a SOP file

`validateSop` over any JSON value (records/sop-definition.ts:24-109), as far as it goes and where it
throws instead: at a property of `null`, at a loop over what is no list, and at a value put in a text
that has no text. `sopOf` is the SOP that a value of its type is.

What the text of a number is, and the JSON of a deadline, is taken from outside.

**Results.** `validateFile_accepts`: what is accepted without a fault is a SOP, and its tracks and
moves name positions there are.
-/

open CarbonRuntime.Core CarbonRuntime.Stream

namespace CarbonRuntime.Jobs

open Records

structure Spelling where
  /-- `String(n)` -/
  number : Rat → String
  /-- `JSON.stringify(value)` -/
  json : Value String → String

/-- What is thrown. -/
structure TypeError
deriving DecidableEq

abbrev Json := Value String

/-! ## The text of a value -/

mutual

/-- `String(value)`: an object with a `toString` of its own, which in JSON is no function, has none. -/
def text (P : Spelling) : Json → Except TypeError String
  | .null => .ok "null"
  | .bool b => .ok (if b then "true" else "false")
  | .number n => .ok (P.number n)
  | .string s => .ok s
  | .array items => do
    let parts ← texts P items
    return ",".intercalate parts
  | .object fields =>
    if fields.any (·.1 = "toString") then .error {} else .ok "[object Object]"

/-- The parts of a list's text, where `null` has an empty one. -/
def texts (P : Spelling) : List Json → Except TypeError (List String)
  | [] => .ok []
  | .null :: items => do
    let parts ← texts P items
    return "" :: parts
  | item :: items => do
    let part ← text P item
    let parts ← texts P items
    return part :: parts

end

/-- Of a property that may be absent. -/
def textOf (P : Spelling) : Option Json → Except TypeError String
  | none => .ok "undefined"
  | some v => text P v

mutual

/-- Whether a value has a text. -/
def hasText : Json → Bool
  | .array items => haveTexts items
  | .object fields => !fields.any (·.1 = "toString")
  | _ => true

def haveTexts : List Json → Bool
  | [] => true
  | item :: items => hasText item && haveTexts items

end

/-! ## What a property is -/

/-- `text(value)`: a string that is not blank. -/
def filled : Option Json → Option String
  | some (.string s) => if blank s then none else some s
  | _ => none

/-- The id of an object that has a valid one. -/
def objectId (v : Json) : Option String := (filled (v.field "id")).filter isId

def truthy : Json → Bool
  | .null => false
  | .bool b => b
  | .number n => n ≠ 0
  | .string s => s ≠ ""
  | .array _ | .object _ => true

/-- `set.has(value)` -/
def has (set : List String) : Option Json → Bool
  | some (.string s) => set.contains s
  | _ => false

def isString (s : String) : Option Json → Bool
  | some (.string t) => t = s
  | _ => false

def listOf : Option Json → Option (List Json)
  | some (.array items) => some items
  | _ => none

/-! ## `validateSop` -/

/-- mirrors sop-definition.ts:54-63 -/
def positionFaults (track id : String) (p : Json) : List String :=
  let at' := "track " ++ track ++ "." ++ id ++ ": "
  (["label", "means", "do_here", "waiting_on"].flatMap fun name =>
      orFault (filled (p.field name)).isSome (at' ++ name ++ " is missing")) ++
    orFault (p.field "terminal" matches some (.bool _)) (at' ++ "terminal must be boolean") ++
    orFault ((p.field "deadline").isNone || (filled (p.field "on_deadline")).isSome)
      (at' ++ "deadline has no chasing step") ++
    orFault ((p.field "renamed_from").isNone || ((filled (p.field "renamed_from")).any isId))
      (at' ++ "renamed_from is not a position id")

/-- The positions of a track in turn, sop-definition.ts:48-64. -/
def positionsFaultsOf (track : String) : List String → List Json → List String
  | _, [] => []
  | seen, p :: ps =>
    match objectId p with
    | none => ("track " ++ track ++ ": a position has no valid id") :: positionsFaultsOf track seen ps
    | some id =>
      orFault (!seen.contains id) ("track " ++ track ++ ": duplicate position " ++ id) ++
        positionFaults track id p ++ positionsFaultsOf track (id :: seen) ps

/-- mirrors sop-definition.ts:65 -/
def initialFaults (P : Spelling) (track : String) (positions : List String) (initial : Option Json) :
    Except TypeError (List String) :=
  if has positions initial then .ok []
  else do
    let shown ← textOf P initial
    return ["track " ++ track ++ ": initial " ++ shown ++ " is not a position"]

/-- The tracks in turn, sop-definition.ts:39-66. -/
def tracksFaultsOf (P : Spelling) : List (String × List String) → List Json →
    Except TypeError (List String)
  | _, [] => .ok []
  | seen, t :: ts =>
    match objectId t with
    | none => do
      let rest ← tracksFaultsOf P seen ts
      return "a track has no valid id" :: rest
    | some id => do
      let head := orFault (!seen.any (·.1 = id)) ("duplicate track " ++ id) ++
        orFault (filled (t.field "label")).isSome ("track " ++ id ++ ": label is missing")
      match listOf (t.field "positions") with
      | none | some [] => do
        let rest ← tracksFaultsOf P seen ts
        return head ++ ("track " ++ id ++ ": positions must be a nonempty list") :: rest
      | some (p :: ps) => do
        let ids := (p :: ps).filterMap objectId
        let initial ← initialFaults P id ids (t.field "initial")
        let rest ← tracksFaultsOf P ((id, ids) :: seen) ts
        return head ++ positionsFaultsOf id [] (p :: ps) ++ initial ++ rest

/-- The map `tracks` behind the loop. -/
def declaredTracks (ts : List Json) : List (String × List String) :=
  (ts.filterMap fun t =>
    match objectId t, listOf (t.field "positions") with
    | some id, some (p :: ps) => some (id, (p :: ps).filterMap objectId)
    | _, _ => none).reverse

/-- `tracks.get(name)` -/
def positionsIn (tracks : List (String × List String)) (name : String) : Option (List String) :=
  (tracks.find? (·.1 = name)).map (·.2)

/-- One text for every value that is not among the positions. -/
def strangers (P : Spelling) (positions : List String) (front : String) :
    List (Option Json) → Except TypeError (List String)
  | [] => .ok []
  | v :: vs =>
    if has positions v then strangers P positions front vs
    else do
      let shown ← textOf P v
      let rest ← strangers P positions front vs
      return (front ++ shown) :: rest

/-- mirrors sop-definition.ts:90-91 -/
def fromFaults (P : Spelling) (positions : List String) (step : String) (m : Json) :
    Except TypeError (List String) :=
  match listOf (m.field "from") with
  | none | some [] => .ok ["step " ++ step ++ ": from must name a position"]
  | some (p :: ps) =>
    strangers P positions ("step " ++ step ++ ": unknown from position ") ((p :: ps).map some)

/-- mirrors sop-definition.ts:85-93 -/
def moveFaultsOf (P : Spelling) (tracks : List (String × List String)) (step : String) (m : Json) :
    Except TypeError (List String) :=
  match (filled (m.field "track")).bind (positionsIn tracks) with
  | none => do
    let shown ← textOf P (m.field "track")
    return ["step " ++ step ++ ": unknown track " ++ shown]
  | some positions => do
    let froms ← fromFaults P positions step m
    let dest ← strangers P positions ("step " ++ step ++ ": unknown to position ") [m.field "to"]
    return froms ++ dest

def movesFaultsOf (P : Spelling) (tracks : List (String × List String)) (step : String) :
    List Json → Except TypeError (List String)
  | [] => .ok []
  | m :: ms => do
    let faults ← moveFaultsOf P tracks step m
    let rest ← movesFaultsOf P tracks step ms
    return faults ++ rest

/-- mirrors sop-definition.ts:97-99: two entries, a track and a position of it. -/
def isRequired (tracks : List (String × List String)) (r : Json) : Bool :=
  match r with
  | .array [.string track, position] => (positionsIn tracks track).any fun ids => has ids (some position)
  | _ => false

/-- mirrors sop-definition.ts:95-101 -/
def requiresFaults (tracks : List (String × List String)) (step : String) (e : Json) : List String :=
  match e.field "requires" with
  | none => []
  | some (.array rs) => rs.flatMap fun r =>
    orFault (isRequired tracks r) ("step " ++ step ++ ": requires names an unknown position")
  | some _ => ["step " ++ step ++ ": requires must be a list"]

/-- mirrors sop-definition.ts:73-101 -/
def stepFaults (P : Spelling) (channels : Json) (tracks : List (String × List String)) (id : String)
    (e : Json) : Except TypeError (List String) := do
  let at' := "step " ++ id ++ ": "
  let intent := isString "intent" (e.field "kind")
  let head :=
    orFault (intent || isString "observation" (e.field "kind"))
        (at' ++ "kind must be intent or observation") ++
      orFault (filled (e.field "mover")).isSome (at' ++ "mover is missing") ++
      orFault ((filled (e.field "observed_via")).any fun name => channels.hasOwn name)
        (at' ++ "observed_via is not a collected channel") ++
      orFault (!intent || isString "agent_action" (e.field "observed_via"))
        (at' ++ "intent needs the agent_action channel") ++
      orFault (!intent || (e.field "action").any fun v => !(v matches .null))
        (at' ++ "intent has no action")
  match listOf (e.field "moves") with
  | none => return head ++ [at' ++ "moves must be a list"]
  | some ms => do
    let moves ← movesFaultsOf P tracks id ms
    return head ++ moves ++ requiresFaults tracks id e

/-- The steps in turn, sop-definition.ts:68-102. -/
def stepsFaultsOf (P : Spelling) (channels : Json) (tracks : List (String × List String)) :
    List String → List Json → Except TypeError (List String)
  | _, [] => .ok []
  | seen, e :: es =>
    match objectId e with
    | none => do
      let rest ← stepsFaultsOf P channels tracks seen es
      return "a step has no valid id" :: rest
    | some id => do
      let faults ← stepFaults P channels tracks id e
      let rest ← stepsFaultsOf P channels tracks (id :: seen) es
      return orFault (!seen.contains id) ("duplicate step " ++ id) ++ faults ++ rest

/-- `track.positions` as the last loop goes over it: of a string, its characters. -/
def walked : Json → Except TypeError (List Json)
  | .object fields =>
    match Value.own "positions" fields with
    | some (.array ps) => .ok ps
    | some (.string s) => .ok (s.toList.map fun c => .string c.toString)
    | _ => .error {}
  | _ => .error {}

/-- The chasing step of a position is none of the steps that are not retired. -/
def chasingFault (P : Spelling) (live : List String) (track p : Json) :
    Except TypeError (List String) :=
  match p with
  | .null => .error {}
  | p =>
    match (p.field "on_deadline").filter truthy with
    | none => .ok []
    | some step =>
      if has live (some step) then .ok []
      else do
        let trackId ← textOf P (track.field "id")
        let id ← textOf P (p.field "id")
        let shown ← text P step
        return ["track " ++ trackId ++ "." ++ id ++ ": chasing step " ++ shown ++
          " is absent or retired"]

def chasingFaultsIn (P : Spelling) (live : List String) (track : Json) :
    List Json → Except TypeError (List String)
  | [] => .ok []
  | p :: ps => do
    let faults ← chasingFault P live track p
    let rest ← chasingFaultsIn P live track ps
    return faults ++ rest

/-- mirrors sop-definition.ts:103-107 -/
def chasingFaultsOf (P : Spelling) (live : List String) : List Json → Except TypeError (List String)
  | [] => .ok []
  | t :: ts => do
    let positions ← walked t
    let faults ← chasingFaultsIn P live t positions
    let rest ← chasingFaultsOf P live ts
    return faults ++ rest

/-- The steps that are there and not retired. -/
def liveSteps (es : List Json) : List String :=
  let retired := (es.filter fun e => e.field "retired" matches some (.bool true)).filterMap objectId
  (es.filterMap objectId).filter (!retired.contains ·)

/-- The faults of the file as a whole, sop-definition.ts:27-34. -/
def headFaults (v : Json) (fileSop : String) : List String :=
  orFault (isString fileSop (v.field "sop")) ("sop must match filename " ++ fileSop) ++
    orFault (filled (v.field "version")).isSome "version must be a nonempty string" ++
    orFault ((listOf (v.field "tracks")).any (· ≠ [])) "tracks must be a nonempty list" ++
    orFault (listOf (v.field "events")).isSome "events must be a list" ++
    orFault ((v.field "collected_channels").any (·.hasOwn "agent_action"))
      "collected_channels must include agent_action"

/-- mirrors sop-definition.ts:24-109 -/
def validateFile (P : Spelling) (v : Json) (fileSop : String) : Except TypeError (List String) :=
  match v with
  | .object fields =>
    let v : Json := .object fields
    let ts := (listOf (v.field "tracks")).getD []
    let es := (listOf (v.field "events")).getD []
    let tracks := declaredTracks ts
    if headFaults v fileSop ≠ [] then .ok (headFaults v fileSop)
    else do
      let inTracks ← tracksFaultsOf P [] ts
      let inSteps ← stepsFaultsOf P ((v.field "collected_channels").getD .null) tracks [] es
      let chasing ← chasingFaultsOf P (liveSteps es) ts
      return inTracks ++ inSteps ++ chasing
  | _ => .ok ["the SOP file must hold one JSON object"]

/-! ## The SOP of a value of its type -/

def kindOf (v : Option Json) : Option Kind :=
  if isString "intent" v then some .intent
  else if isString "observation" v then some .observation else none

def stringOf : Option Json → Option String
  | some (.string s) => some s
  | _ => none

def positionOf (P : Spelling) (p : Json) : Option Position := do
  let id ← objectId p
  let label ← filled (p.field "label")
  let means ← filled (p.field "means")
  let doHere ← filled (p.field "do_here")
  let waitingOn ← filled (p.field "waiting_on")
  return {
    id, label, means, doHere, waitingOn
    terminal := match p.field "terminal" with
      | some (.bool b) => some b
      | _ => none
    deadline := (p.field "deadline").map P.json
    onDeadline := stringOf (p.field "on_deadline")
    renamedFrom := stringOf (p.field "renamed_from") }

def trackOf (P : Spelling) (t : Json) : Option Track := do
  let id ← objectId t
  let label ← filled (t.field "label")
  let initial ← stringOf (t.field "initial")
  let ps ← listOf (t.field "positions")
  let positions ← ps.mapM (positionOf P)
  return { id, label, initial, positions }

def moveOf (m : Json) : Option Move := do
  let track ← filled (m.field "track")
  let items ← listOf (m.field "from")
  let froms ← items.mapM fun v => stringOf (some v)
  let dest ← stringOf (m.field "to")
  return { track, froms, dest }

def pairOf : Json → Option (String × String)
  | .array [.string track, .string position] => some (track, position)
  | _ => none

def actionOf : Option Json → Option Action
  | none | some .null => none
  | some (.string name) => some (.operation name)
  | some v => some (.mapped (stringOf (v.field "tool")) (stringOf (v.field "operation")))

/-- `step.requires ?? []` -/
def requiredBy (e : Json) : Option (List Json) :=
  match e.field "requires" with
  | none => some []
  | some (.array rs) => some rs
  | some _ => none

def stepIn (e : Json) : Option Step := do
  let id ← objectId e
  let kind ← kindOf (e.field "kind")
  let mover ← filled (e.field "mover")
  let observedVia ← filled (e.field "observed_via")
  let ms ← listOf (e.field "moves")
  let moves ← ms.mapM moveOf
  let rs ← requiredBy e
  let requires ← rs.mapM pairOf
  return {
    id, kind, mover, observedVia, moves, requires
    action := actionOf (e.field "action")
    retired := (e.field "retired").any truthy }

/-- `Object.keys(value)` -/
def namesIn : Json → List String
  | .object fields => fields.map (·.1)
  | _ => []

/-- `value as Sop`, where it is one. -/
def sopOf (P : Spelling) (v : Json) : Option Sop := do
  let sop ← stringOf (v.field "sop")
  let version ← filled (v.field "version")
  let ts ← listOf (v.field "tracks")
  let tracks ← ts.mapM (trackOf P)
  let es ← listOf (v.field "events")
  let events ← es.mapM stepIn
  let channels ← v.field "collected_channels"
  return {
    sop, version, tracks, events
    collectedChannels := namesIn channels }

/-! ## What is accepted -/

variable {P : Spelling} {v : Json} {track step fileSop : String} {ps ts ms es : List Json}
  {seen : List (String × List String)} {ids seenIds : List String}

theorem filled_isSome {v : Option Json} (h : (filled v).isSome = true) : ∃ s, filled v = some s :=
  Option.isSome_iff_exists.1 h

theorem has_string {v : Option Json} (h : has ids v = true) : ∃ s ∈ ids, stringOf v = some s := by
  unfold has at h
  split at h
  · rename_i s
    exact ⟨s, by simpa using h, rfl⟩
  · cases h

theorem positionOf_ok {id : String} {p : Json} (hid : objectId p = some id)
    (h : positionFaults track id p = []) : ∃ q, positionOf P p = some q ∧ q.id = id := by
  simp only [positionFaults, List.append_eq_nil_iff, List.flatMap_cons, List.flatMap_nil,
    orFault_eq_nil] at h
  obtain ⟨⟨⟨⟨hlabel, hmeans, hdo, hwaiting, -⟩, -⟩, -⟩, -⟩ := h
  obtain ⟨label, hlabel⟩ := filled_isSome hlabel
  obtain ⟨means, hmeans⟩ := filled_isSome hmeans
  obtain ⟨doHere, hdo⟩ := filled_isSome hdo
  obtain ⟨waitingOn, hwaiting⟩ := filled_isSome hwaiting
  simp only [positionOf, hid, hlabel, hmeans, hdo, hwaiting, bind, Option.bind, pure]
  exact ⟨_, rfl, rfl⟩

theorem positionsOf_ok (h : positionsFaultsOf track seenIds ps = []) :
    ∃ positions, ps.mapM (positionOf P) = some positions ∧
      ps.filterMap objectId = positions.map (·.id) := by
  induction ps generalizing seenIds with
  | nil => exact ⟨[], rfl, rfl⟩
  | cons p ps ih =>
    rw [positionsFaultsOf] at h
    split at h
    · cases h
    · rename_i id hid
      simp only [List.append_eq_nil_iff] at h
      obtain ⟨⟨-, hp⟩, hrest⟩ := h
      obtain ⟨positions, hmap, hids⟩ := ih hrest
      obtain ⟨q, hq, rfl⟩ := positionOf_ok (P := P) hid hp
      exact ⟨q :: positions, by rw [List.mapM_cons, hq, hmap]; rfl,
        by rw [List.filterMap_cons_some hid, hids, List.map_cons]⟩

/-- The tracks that are accepted, and the map of them. -/
theorem tracksOf_ok (h : tracksFaultsOf P seen ts = .ok []) :
    ∃ tracks, ts.mapM (trackOf P) = some tracks ∧ (tracks.map (·.id)).Nodup ∧
      (∀ t ∈ tracks, ∀ q ∈ seen, q.1 ≠ t.id) ∧
      (∀ t ∈ tracks, ∃ q ∈ t.positions, q.id = t.initial) ∧
      declaredTracks ts = (tracks.map fun t => (t.id, t.positions.map (·.id))).reverse := by
  induction ts generalizing seen with
  | nil => exact ⟨[], rfl, List.nodup_nil, by simp, by simp, rfl⟩
  | cons t ts ih =>
    rw [tracksFaultsOf] at h
    split at h
    · obtain ⟨rest, -, h⟩ := ok_bind.1 h
      cases h
    · rename_i id hid
      dsimp only at h
      split at h
      · obtain ⟨rest, -, h⟩ := ok_bind.1 h
        simp [pure, Except.pure] at h
      · obtain ⟨rest, -, h⟩ := ok_bind.1 h
        simp [pure, Except.pure] at h
      · rename_i p ps hps
        obtain ⟨initial, hinitial, h⟩ := ok_bind.1 h
        obtain ⟨rest, hrest, h⟩ := ok_bind.1 h
        simp only [pure, Except.pure, Except.ok.injEq, List.append_eq_nil_iff, orFault_eq_nil] at h
        obtain ⟨⟨⟨⟨hnew, hlabel⟩, hpositions⟩, rfl⟩, rfl⟩ := h
        have hnew : ∀ r ∈ seen, r.1 ≠ id := by simpa using hnew
        obtain ⟨label, hlabel⟩ := filled_isSome hlabel
        obtain ⟨positions, hmap, hids⟩ := positionsOf_ok (P := P) hpositions
        obtain ⟨tracks, htracks, hnodup, hapart, hinitials, hdeclared⟩ := ih hrest
        have hhas : has ((p :: ps).filterMap objectId) (t.field "initial") = true := by
          unfold initialFaults at hinitial
          split at hinitial
          · assumption
          · obtain ⟨shown, -, h⟩ := ok_bind.1 hinitial
            cases h
        obtain ⟨first, hfirst, hstring⟩ := has_string hhas
        rw [hids] at hfirst
        obtain ⟨q, hq, hqid⟩ := List.mem_map.1 hfirst
        have htrack : trackOf P t = some ⟨id, label, first, positions⟩ := by
          simp only [trackOf, hid, hlabel, hstring, hps, hmap, bind, Option.bind, pure]
        refine ⟨⟨id, label, first, positions⟩ :: tracks, ?_, ?_, ?_, ?_, ?_⟩
        · rw [List.mapM_cons, htrack, htracks]
          rfl
        · rw [List.map_cons, List.nodup_cons]
          refine ⟨fun hmem => ?_, hnodup⟩
          obtain ⟨t', ht', hid'⟩ := List.mem_map.1 hmem
          exact hapart t' ht' _ List.mem_cons_self hid'.symm
        · intro t' ht' r hr
          rcases List.mem_cons.1 ht' with rfl | ht'
          · exact hnew r hr
          · exact hapart t' ht' r (List.mem_cons_of_mem _ hr)
        · intro t' ht'
          rcases List.mem_cons.1 ht' with rfl | ht'
          · exact ⟨q, hq, hqid⟩
          · exact hinitials t' ht'
        · rw [declaredTracks, List.filterMap_cons_some (by rw [hid, hps]), List.reverse_cons,
            List.map_cons, List.reverse_cons, ← hdeclared, hids]
          rfl

variable {tracks : List (String × List String)}

theorem strangers_nil {front : String} {vs : List (Option Json)}
    (h : strangers P ids front vs = .ok []) : ∀ v ∈ vs, has ids v = true := by
  induction vs with
  | nil => simp
  | cons v vs ih =>
    rw [strangers] at h
    split at h
    · rename_i hv
      exact List.forall_mem_cons.2 ⟨hv, ih h⟩
    · obtain ⟨shown, -, h⟩ := ok_bind.1 h
      obtain ⟨rest, -, h⟩ := ok_bind.1 h
      cases h

theorem moveOf_ok {m : Json} (h : moveFaultsOf P tracks step m = .ok []) :
    ∃ x, moveOf m = some x ∧ ∃ ids, positionsIn tracks x.track = some ids ∧ x.dest ∈ ids := by
  unfold moveFaultsOf at h
  split at h
  · obtain ⟨shown, -, h⟩ := ok_bind.1 h
    cases h
  · rename_i ids hids
    obtain ⟨track, htrack, hpositions⟩ := Option.bind_eq_some_iff.1 hids
    obtain ⟨froms, hfroms, h⟩ := ok_bind.1 h
    obtain ⟨dest, hdest, h⟩ := ok_bind.1 h
    obtain ⟨rfl, rfl⟩ := List.append_eq_nil_iff.1 (Except.ok.inj h)
    obtain ⟨d, hd, hto⟩ := has_string (strangers_nil hdest _ List.mem_cons_self)
    unfold fromFaults at hfroms
    split at hfroms
    · cases hfroms
    · cases hfroms
    · rename_i p ps hlist
      have hall : ∀ v ∈ p :: ps, ∃ s, stringOf (some v) = some s := fun v hv => by
        obtain ⟨s, -, hs⟩ := has_string (strangers_nil hfroms _ (List.mem_map_of_mem hv))
        exact ⟨s, hs⟩
      obtain ⟨origins, horigins, -⟩ := exists_mapM hall
      refine ⟨⟨track, origins, d⟩, ?_, ids, hpositions, hd⟩
      simp only [moveOf, htrack, hlist, horigins, hto, bind, Option.bind, pure]

theorem movesOf_ok (h : movesFaultsOf P tracks step ms = .ok []) :
    ∃ moves, ms.mapM moveOf = some moves ∧
      ∀ m ∈ moves, ∃ ids, positionsIn tracks m.track = some ids ∧ m.dest ∈ ids := by
  induction ms with
  | nil => exact ⟨[], rfl, by simp⟩
  | cons m ms ih =>
    rw [movesFaultsOf] at h
    obtain ⟨faults, hm, h⟩ := ok_bind.1 h
    obtain ⟨rest, hms, h⟩ := ok_bind.1 h
    obtain ⟨rfl, rfl⟩ := List.append_eq_nil_iff.1 (Except.ok.inj h)
    obtain ⟨x, hx, hdest⟩ := moveOf_ok hm
    obtain ⟨moves, hmoves, hall⟩ := ih hms
    exact ⟨x :: moves, by rw [List.mapM_cons, hx, hmoves]; rfl, List.forall_mem_cons.2 ⟨hdest, hall⟩⟩

theorem requiresOf_ok {e : Json} (h : requiresFaults tracks step e = []) :
    ∃ rs requires, requiredBy e = some rs ∧ rs.mapM pairOf = some requires := by
  unfold requiresFaults at h
  split at h
  · rename_i hnone
    exact ⟨[], [], by rw [requiredBy, hnone], rfl⟩
  · rename_i rs hrs
    have hall : ∀ r ∈ rs, ∃ x, pairOf r = some x := by
      intro r hr
      have hr := List.flatMap_eq_nil_iff.1 h r hr
      rw [orFault_eq_nil] at hr
      unfold isRequired at hr
      split at hr
      · rename_i track position
        obtain ⟨ids, -, hhas⟩ := Option.any_eq_true _ _ |>.1 hr
        obtain ⟨s, -, hs⟩ := has_string hhas
        unfold stringOf at hs
        split at hs
        · rename_i hposition
          cases hposition
          exact ⟨_, rfl⟩
        · cases hs
      · cases hr
    obtain ⟨requires, hrequires, -⟩ := exists_mapM hall
    exact ⟨rs, requires, by rw [requiredBy, hrs], hrequires⟩
  · cases h

theorem stepIn_ok {id : String} {channels e : Json} (hid : objectId e = some id)
    (h : stepFaults P channels tracks id e = .ok []) :
    ∃ x, stepIn e = some x ∧ x.id = id ∧
      ∀ m ∈ x.moves, ∃ ids, positionsIn tracks m.track = some ids ∧ m.dest ∈ ids := by
  unfold stepFaults at h
  dsimp only at h
  split at h
  · simp [pure, Except.pure] at h
  · rename_i ms hlist
    obtain ⟨faults, hmoves, h⟩ := ok_bind.1 h
    simp only [pure, Except.pure, Except.ok.injEq, List.append_eq_nil_iff, orFault_eq_nil] at h
    obtain ⟨⟨⟨⟨⟨⟨hkind, hmover⟩, hvia⟩, -⟩, -⟩, rfl⟩, hrequires⟩ := h
    obtain ⟨mover, hmover⟩ := filled_isSome hmover
    obtain ⟨via, hvia, -⟩ := Option.any_eq_true _ _ |>.1 hvia
    obtain ⟨moves, hmoves, hall⟩ := movesOf_ok hmoves
    obtain ⟨rs, requires, hrs, hpairs⟩ := requiresOf_ok hrequires
    have hkind : ∃ kind, kindOf (e.field "kind") = some kind := by
      unfold kindOf
      by_cases hi : isString "intent" (e.field "kind") = true
      · exact ⟨_, if_pos hi⟩
      · rw [if_neg hi, if_pos (by simpa [hi] using hkind)]
        exact ⟨_, rfl⟩
    obtain ⟨kind, hkind⟩ := hkind
    refine ⟨⟨id, kind, mover, via, moves, requires, actionOf (e.field "action"),
      (e.field "retired").any truthy⟩, ?_, rfl, hall⟩
    simp only [stepIn, hid, hkind, hmover, hvia, hlist, hmoves, hrs, hpairs, bind, Option.bind, pure]

theorem stepsOf_ok {channels : Json} (h : stepsFaultsOf P channels tracks seenIds es = .ok []) :
    ∃ events, es.mapM stepIn = some events ∧ (events.map (·.id)).Nodup ∧
      (∀ e ∈ events, e.id ∉ seenIds) ∧ ∀ e ∈ events, ∀ m ∈ e.moves,
        ∃ ids, positionsIn tracks m.track = some ids ∧ m.dest ∈ ids := by
  induction es generalizing seenIds with
  | nil => exact ⟨[], rfl, List.nodup_nil, by simp, by simp⟩
  | cons e es ih =>
    rw [stepsFaultsOf] at h
    split at h
    · obtain ⟨rest, -, h⟩ := ok_bind.1 h
      cases h
    · rename_i id hid
      obtain ⟨faults, he, h⟩ := ok_bind.1 h
      obtain ⟨rest, hes, h⟩ := ok_bind.1 h
      simp only [pure, Except.pure, Except.ok.injEq, List.append_eq_nil_iff, orFault_eq_nil] at h
      obtain ⟨⟨hnew, rfl⟩, rfl⟩ := h
      obtain ⟨x, hx, rfl, hdest⟩ := stepIn_ok hid he
      obtain ⟨events, hevents, hnodup, hapart, hall⟩ := ih hes
      have hfresh : x.id ∉ events.map (·.id) := fun hmem => by
        obtain ⟨e', he', hsame⟩ := List.mem_map.1 hmem
        exact hapart e' he' (hsame ▸ List.mem_cons_self)
      exact ⟨x :: events, by rw [List.mapM_cons, hx, hevents]; rfl, List.nodup_cons.2 ⟨hfresh, hnodup⟩,
        List.forall_mem_cons.2 ⟨by simpa using hnew,
          fun e' he' hmem => hapart e' he' (List.mem_cons_of_mem _ hmem)⟩,
        List.forall_mem_cons.2 ⟨hdest, hall⟩⟩

theorem isString_iff {s : String} {v : Option Json} : isString s v = true ↔ v = some (.string s) := by
  unfold isString
  split
  · simp [eq_comm]
  · rename_i hno
    simpa using fun h => hno s h

/-- What is accepted without a fault is a SOP, and its tracks and moves name positions there are. -/
theorem validateFile_accepts (h : validateFile P v fileSop = .ok []) :
    ∃ s, sopOf P v = some s ∧ s.Declared := by
  unfold validateFile at h
  split at h
  · rename_i fields
    dsimp only at h
    split at h
    · rename_i hhead
      exact absurd (Except.ok.inj h) hhead
    · rename_i hhead
      obtain ⟨inTracks, htracks, h⟩ := ok_bind.1 h
      obtain ⟨inSteps, hsteps, h⟩ := ok_bind.1 h
      obtain ⟨chasing, -, h⟩ := ok_bind.1 h
      simp only [pure, Except.pure, Except.ok.injEq, List.append_eq_nil_iff] at h
      obtain ⟨⟨rfl, rfl⟩, rfl⟩ := h
      have hhead : headFaults (.object fields) fileSop = [] := by simpa using hhead
      simp only [headFaults, List.append_eq_nil_iff, orFault_eq_nil] at hhead
      obtain ⟨⟨⟨⟨hsop, hversion⟩, hlist⟩, hevents⟩, hchannels⟩ := hhead
      obtain ⟨version, hversion⟩ := filled_isSome hversion
      obtain ⟨ts, hts, -⟩ := (Option.any_eq_true _ _).1 hlist
      obtain ⟨es, hes⟩ := Option.isSome_iff_exists.1 hevents
      obtain ⟨channels, hchannels, -⟩ := (Option.any_eq_true _ _).1 hchannels
      rw [hts, Option.getD_some] at htracks hsteps
      rw [hes, Option.getD_some] at hsteps
      obtain ⟨tracks, hmap, hnodup, -, hinitial, hdeclared⟩ := tracksOf_ok htracks
      obtain ⟨events, heventsMap, hsteps, -, hmoves⟩ := stepsOf_ok hsteps
      refine ⟨⟨fileSop, version, tracks, events, namesIn channels⟩, ?_, hnodup, hinitial, hsteps,
        fun e he m hm => ?_⟩
      · simp only [sopOf, isString_iff.1 hsop, stringOf, hversion, hts, hmap, hes, heventsMap,
          hchannels, bind, Option.bind, pure]
      · obtain ⟨ids, hids, hdest⟩ := hmoves e he m hm
        rw [hdeclared] at hids
        obtain ⟨q, hq, rfl⟩ := Option.map_eq_some_iff.1 hids
        have hmem := List.mem_of_find?_eq_some hq
        have hnamed := List.find?_some hq
        obtain ⟨t, ht, rfl⟩ := List.mem_map.1 (List.mem_reverse.1 hmem)
        obtain ⟨x, hx, hid⟩ := List.mem_map.1 hdest
        exact ⟨t, ht, by simpa using hnamed, x, hx, hid⟩
  · cases h

end CarbonRuntime.Jobs
