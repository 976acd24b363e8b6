import CarbonRuntime.Core.Log
import CarbonRuntime.Core.LTS
import CarbonRuntime.Core.Table
import Mathlib.Algebra.GroupWithZero.Nat

/-!
# The evidence of a browser conversation (runtime/browser-evidence.ts)

Evidence is an append-only series of captures: each adds items, each with what is retained of its
source, and removes presented ones. The current set and its pages are derived. A reader keeps what
it derived in the memory of the store, beside a version that the store counts up at each capture
(stream/store.ts:210). One version behind, it folds in the capture the store named last, read back
from disk; further behind, or in a process that has just started, it folds the history again,
from whatever order the directory is listed in.

A publication is one step: nothing is awaited between its guards and its capture. A process that
dies within it has taken ordinals and written nothing, or has written the record: what is left is
what ordinals taken, or the publication, and a new start leave.

**Results.** `evidence_folded`, over every run of publications, reads and restarts in any number
of conversations: what a read derives is the fold of all captures of its conversation in their
order, and a reader that follows the changes from the start has got each of them once and in
order up to its cursor, and all of them when it is told that there are no more.
-/

open CarbonRuntime.Core Log

namespace CarbonRuntime.BrowserEvidence

inductive Origin
  | original | analysis
deriving DecidableEq

/-- `EvidenceItem`, browser-evidence.ts:15. A record may lack the template. -/
structure Item where
  id : String
  label : String
  origin : Origin
  template : Option String
  sourceId : String
  digest : String
  note : Option String
  changeId : String
deriving DecidableEq

/-- `EvidenceSource`, browser-evidence.ts:16. A producer's own is left null. -/
structure Source where
  id : String
  digest : String
  originalPath : String
  origin : Origin
  producer : Option Source

structure Detail where
  item : Item
  source : Source

structure Removal where
  itemId : String
  reason : String
deriving DecidableEq

/-- `EvidenceChange`, browser-evidence.ts:18 -/
structure Change where
  changeId : String
  messageId : String
  revision : Nat
  createdAt : String
  author : String
  releaseId : String
  turnId : String
  added : List Item
  removed : List Removal
  note : Option String
deriving DecidableEq

/-- The evidence fields of a record. -/
structure Evidence where
  change : Change
  details : List Detail
  identity : String

/-- What the store keeps of a message, as far as evidence is concerned. -/
structure Record where
  conversationId : String
  messageId : String
  evidence : Option Evidence

def Record.key (r : Record) : String × String := (r.conversationId, r.messageId)

structure State where
  changes : List Change := []
  details : Table fun d : Detail => d.item.id := .empty
  current : Table Item.id := .empty
  sources : Table Source.id := .empty
  revision : Nat := 0

/-- mirrors browser-evidence.ts:93, `template??=` -/
def Item.templated (i : Item) : Item :=
  { i with
    template := i.template <|> some (if i.origin = .original then "original" else "analysis") }

def Change.templated (c : Change) : Change := { c with added := c.added.map Item.templated }

/-- mirrors browser-evidence.ts:93, one detail of a record -/
def State.retain (s : State) (d : Detail) : State :=
  let d := { d with item := d.item.templated }
  let sources := s.sources.put d.source
  { s with
    details := s.details.put d
    current := s.current.put d.item
    sources := match d.source.producer with
      | some producer => sources.put producer
      | none => sources }

/-- mirrors browser-evidence.ts:93 -/
def applyRecord (found : State) (e : Evidence) : State :=
  let c := e.change.templated
  let found := { found with changes := found.changes ++ [c], revision := c.revision }
  let found := e.details.foldl State.retain found
  { found with current := c.removed.foldl (fun current r => current.erase r.itemId) found.current }

/-- What the store says of the evidence of a conversation, stream/store.ts:199. -/
structure Latest where
  version : Nat
  messageId : String

/-- What a reader derived, and the version it derived it at. -/
structure Found where
  version : Nat
  state : State

/-- The reply the runtime is at, stream/store.ts:195. -/
structure Active where
  conversationId : String
  releaseId : String
  turnId : String
deriving DecidableEq

/-- The store: its ordinals and records are on disk, the rest is in memory. -/
structure World where
  seq : Nat := 0
  records : Table Record.key := .empty
  active : Option Active := none
  versions : String → Option Latest := fun _ => none
  cache : String → Option Found := fun _ => none

def World.read (w : World) (conversation message : String) : Option Record :=
  w.records.find (conversation, message)

/-- A record of the conversation and its evidence. -/
def evidenceIn (conversation : String) (r : Record) : Option Evidence :=
  if r.conversationId = conversation then r.evidence else none

/-- A listing of the directory of a conversation, in any order. -/
def World.Lists (w : World) (conversation : String) (listing : List Record) : Prop :=
  listing.Perm (w.records.rows.filter fun r => r.conversationId = conversation)

/-- mirrors browser-evidence.ts:100-101: what a reader one capture behind folds in -/
def World.oneBehind (w : World) (conversation : String) (found : Found) : Option Evidence :=
  match w.versions conversation with
  | none => none
  | some latest =>
    if latest.version = found.version + 1 then
      ((w.read conversation latest.messageId).bind (·.evidence)).filter
        fun e => found.state.revision < e.change.revision
    else none

def revisionOf (e : Evidence) : Nat := e.change.revision

/-- mirrors browser-evidence.ts:102-104 -/
def rebuilt (listing : List Record) : State :=
  (sortBy (below revisionOf) (listing.filterMap (·.evidence))).foldl applyRecord {}

def World.versionOf (w : World) (conversation : String) : Nat :=
  ((w.versions conversation).map (·.version)).getD 0

/-- mirrors browser-evidence.ts:94-104, off a listing: the state, and what is kept of it -/
def stateOf (w : World) (conversation : String) (listing : List Record) : State × World :=
  let version := w.versionOf conversation
  let rebuild := rebuilt listing
  let keep := fun s : State =>
    (s, { w with cache := Function.update w.cache conversation (some ⟨version, s⟩) })
  match w.cache conversation with
  | none => keep rebuild
  | some found =>
    if found.version = version then (found.state, w)
    else match w.oneBehind conversation found with
      | some e => keep (applyRecord found.state e)
      | none => keep rebuild

/-! ## Reading -/

inductive Fault
  | turnRefused | changeConflict | deltaEmpty | pageInvalid
  | removeInvalid (itemId : String)
  | itemConflict (itemId : String)
  | templateRefused (itemId : String)
  | unready (itemId code : String)
deriving DecidableEq

structure ChangesPage where
  revision : Nat
  changes : List Change
  cursor : Nat
  hasMore : Bool

/-- `Number.isSafeInteger` of what is not negative. -/
def isSafeInteger (n : Nat) : Bool := decide (n < 2 ^ 53)

def pageValid (cursor limit : Nat) : Bool :=
  isSafeInteger cursor && decide (1 ≤ limit) && decide (limit ≤ 1000)

/-- mirrors browser-evidence.ts:157, of the state -/
def changesPage (s : State) (cursor limit : Nat) : ChangesPage :=
  let all := pastCursor Change.revision s.changes cursor
  let changes := all.take limit
  { revision := s.revision
    changes
    cursor := pageEnd Change.revision cursor changes
    hasMore := decide (changes.length < all.length) }

/-- mirrors browser-evidence.ts:157 -/
def readEvidenceChanges (w : World) (conversation : String) (listing : List Record)
    (cursor limit : Nat) : Except Fault ChangesPage × World :=
  if pageValid cursor limit then
    let (s, w) := stateOf w conversation listing
    (.ok (changesPage s cursor limit), w)
  else (.error .pageInvalid, w)

structure ItemsPage where
  revision : Nat
  anchor : Option String
  items : List Item
  cursor : Nat
  hasMore : Bool
  total : Nat

/-- mirrors browser-evidence.ts:149-155, of the current set of the state -/
def itemsPage (s : State) (cursor limit : Nat) : ItemsPage :=
  let selected := (s.current.rows.drop cursor).take limit
  let last := cursor + selected.length
  { revision := s.revision
    anchor := s.changes.getLast?.map (·.messageId)
    items := selected
    cursor := last
    hasMore := decide (last < s.current.rows.length)
    total := s.current.rows.length }

/-- mirrors browser-evidence.ts:147-156, with no anchor -/
def readEvidence (w : World) (conversation : String) (listing : List Record)
    (cursor limit : Nat) : Except Fault ItemsPage × World :=
  if pageValid cursor limit then
    let (s, w) := stateOf w conversation listing
    (.ok (itemsPage s cursor limit), w)
  else (.error .pageInvalid, w)

/-! ## Publishing -/

/-- `Addition`, browser-evidence.ts:19, as far as it is decided without the files. -/
structure Addition where
  itemId : String
  template : Option String
  label : String
  note : Option String

/-- `EvidenceDelta`, normalised. -/
structure Delta where
  changeId : String
  add : List Addition
  remove : List Removal
  note : Option String

/-- What the files an addition names come to, browser-evidence.ts:66-78 and 131-132. -/
abbrev Resolve := State → Addition → Except Fault Source

/-- mirrors browser-evidence.ts:119-126; the pattern is `matched` -/
def templateFor (matched : String → Bool) (origin : Origin) (supplied : Option String) :
    Option String :=
  match supplied with
  | none => some (if origin = .original then "original" else "analysis")
  | some template =>
    if !matched template then none
    else match origin with
      | .original => if template = "original" then some "original" else none
      | .analysis => if template = "original" then none else some template

/-- mirrors browser-evidence.ts:129: each removal that does not name a presented item once -/
def removalFaults (s : State) : List String → List Removal → List Fault
  | _, [] => []
  | removed, r :: rest =>
    let faults := removalFaults s (r.itemId :: removed) rest
    if decide (r.itemId ∈ removed) || (s.current.find r.itemId).isNone then
      .removeInvalid r.itemId :: faults
    else faults

/-- mirrors browser-evidence.ts:130-132, of one addition -/
def readyDetail (matched : String → Bool) (resolve : Resolve) (s : State) (changeId : String)
    (added : List String) (a : Addition) : Except Fault Detail :=
  if decide (a.itemId ∈ added) || (s.details.find a.itemId).isSome then
    .error (.itemConflict a.itemId)
  else do
    let source ← resolve s a
    match templateFor matched source.origin a.template with
    | none => .error (.templateRefused a.itemId)
    | some template =>
      .ok ⟨⟨a.itemId, a.label, source.origin, some template, source.id, source.digest, a.note,
        changeId⟩, source⟩

/-- mirrors browser-evidence.ts:130-132: the details that are ready, and the faults -/
def prepareAdditions (matched : String → Bool) (resolve : Resolve) (s : State) (changeId : String) :
    List String → List Addition → List Detail × List Fault
  | _, [] => ([], [])
  | added, a :: rest =>
    let (ready, faults) := prepareAdditions matched resolve s changeId (a.itemId :: added) rest
    match readyDetail matched resolve s changeId added a with
    | .ok d => (d :: ready, faults)
    | .error f => (ready, f :: faults)

/-- mirrors browser-evidence.ts:127-134 -/
def prepareDelta (matched : String → Bool) (resolve : Resolve) (s : State) (delta : Delta) :
    Except (List Fault) (List Detail) :=
  let (ready, faults) := prepareAdditions matched resolve s delta.changeId [] delta.add
  match removalFaults s [] delta.remove ++ faults with
  | [] => .ok ready
  | faults => .error faults

/-- `turnId` and `now` of a call, browser-evidence.ts:135. -/
structure Call where
  agent : String
  conversationId : String
  releaseId : String
  turnId : String
  now : String
  delta : Delta

def Call.messageId (call : Call) : String :=
  call.conversationId ++ ":evidence:" ++ call.delta.changeId

/-- The record of a publication, browser-evidence.ts:142-143. -/
def Call.evidence (call : Call) (identity : String) (revision : Nat) (ready : List Detail) :
    Evidence where
  change := {
    changeId := call.delta.changeId
    messageId := call.messageId
    revision
    createdAt := call.now
    author := call.agent
    releaseId := call.releaseId
    turnId := call.turnId
    added := ready.map (·.item)
    removed := call.delta.remove
    note := call.delta.note }
  details := ready
  identity

/-- What of `Store.capture` and `publishBrowserChange` a new record of evidence moves,
stream/store.ts:208-219 and 258-316. -/
def World.capture (w : World) (r : Record) : World :=
  let latest := (w.versions r.conversationId).map (·.version)
  { w with
    seq := w.seq + 1
    records := w.records.put r
    versions := if r.evidence.isSome then
        Function.update w.versions r.conversationId (some ⟨latest.getD 0 + 1, r.messageId⟩)
      else w.versions }

/-- What a publication answers, and what it captured. -/
structure Presented where
  change : Change
  duplicate : Bool
  captured : Option Evidence

section

variable (identityOf : Delta → String) (matched : String → Bool)

/-- mirrors browser-evidence.ts:135-145, of a delta that is normalised; `identityOf` is its hash -/
def presentEvidence (resolve : Resolve) (w : World) (call : Call) (listing : List Record) :
    Except (List Fault) Presented × World :=
  if w.active ≠ some ⟨call.conversationId, call.releaseId, call.turnId⟩ then
    (.error [.turnRefused], w)
  else match w.read call.conversationId call.messageId with
    | some prior =>
      match prior.evidence with
      | some e =>
        if e.identity = identityOf call.delta then (.ok ⟨e.change, true, none⟩, w)
        else (.error [.changeConflict], w)
      | none => (.error [.changeConflict], w)
    | none =>
      if call.delta.add.isEmpty && call.delta.remove.isEmpty then (.error [.deltaEmpty], w)
      else
        let (s, w) := stateOf w call.conversationId listing
        match prepareDelta matched resolve s call.delta with
        | .error faults => (.error faults, w)
        | .ok ready =>
          let e := call.evidence (identityOf call.delta) (w.seq + 1) ready
          let w := { w with seq := w.seq + 1 }
          (.ok ⟨e.change, false, some e⟩, w.capture ⟨call.conversationId, call.messageId, some e⟩)

/-! ## Runs -/

inductive Op
  /-- A publication, with what it captured. -/
  | present (conversation : String) (captured : Option Evidence)
  /-- Whatever reads the state, with what it is answered. -/
  | read (conversation : String) (answered : State)
  | changes (conversation : String) (cursor limit : Nat) (page : ChangesPage)
  /-- An ordinal is taken. -/
  | ordinal
  /-- A message that is no evidence is captured. -/
  | message (r : Record)
  /-- A record is written again with the evidence it has. -/
  | annotated (r : Record)
  /-- The runtime starts or ends a reply. -/
  | activate (active : Option Active)
  /-- Another process opens the store. -/
  | reopen

def step (w : World) : Op → World → Prop
  | .present c captured, w' => ∃ call listing resolve, call.conversationId = c ∧
      w.Lists c listing ∧ ∃ result, presentEvidence identityOf matched resolve w call listing =
        (result, w') ∧ captured = result.toOption.bind (·.captured)
  | .read c answered, w' => ∃ listing, w.Lists c listing ∧ stateOf w c listing = (answered, w')
  | .changes c cursor limit page, w' => ∃ listing, w.Lists c listing ∧
      readEvidenceChanges w c listing cursor limit = (.ok page, w')
  | .ordinal, w' => w' = { w with seq := w.seq + 1 }
  | .message r, w' => r.evidence = none ∧ w.read r.conversationId r.messageId = none ∧
      w' = w.capture r
  | .annotated r, w' => ∃ old, w.read r.conversationId r.messageId = some old ∧
      r.evidence = old.evidence ∧ w' = { w with seq := w.seq + 1, records := w.records.put r }
  | .activate active, w' => w' = { w with active }
  | .reopen, w' => w' = { seq := w.seq, records := w.records }

def evidence : LTS World Op where
  init w := w = {}
  step := step identityOf matched

/-- What is captured in a conversation, in order. -/
def Op.captured (c : String) : Op → Option Evidence
  | .present c' captured => if c' = c then captured else none
  | _ => none

def captured (c : String) (ops : List Op) : List Evidence := ops.filterMap (Op.captured c)

/-- What `evidence_changes` hands over of each of them. -/
def changesOf (log : List Evidence) : List Change := log.map (·.change.templated)

/-- A reader of the changes goes on from the cursor it was given last, whatever else is done in
between: where it is and what it has, before and after. -/
inductive Follows (c : String) : Nat → List Change → List Op → Nat → List Change → Prop
  | nil (cursor : Nat) (got : List Change) : Follows c cursor got [] cursor got
  | other {cursor cursor' : Nat} {got got' : List Change} {op : Op} {ops : List Op} :
      Follows c cursor got ops cursor' got' → Follows c cursor got (op :: ops) cursor' got'
  | page {cursor cursor' limit : Nat} {got got' : List Change} {page : ChangesPage}
      {ops : List Op} : Follows c page.cursor (got ++ page.changes) ops cursor' got' →
      Follows c cursor got (.changes c cursor limit page :: ops) cursor' got'

/-! ## What a state holds -/

theorem retain_changes (s : State) (ds : List Detail) :
    (ds.foldl State.retain s).changes = s.changes := by
  induction ds generalizing s with
  | nil => rfl
  | cons d ds ih => exact ih _

theorem applyRecord_changes (s : State) (e : Evidence) :
    (applyRecord s e).changes = s.changes ++ [e.change.templated] := retain_changes _ _

theorem foldl_changes (s : State) (log : List Evidence) :
    (log.foldl applyRecord s).changes = s.changes ++ changesOf log := by
  induction log generalizing s with
  | nil => simp [changesOf]
  | cons e log ih =>
    rw [List.foldl_cons, ih, applyRecord_changes, List.append_assoc]
    rfl

/-! ## The invariant -/

/-- The disk has the captures in their order, the ordinals rise, and what is kept in memory of a
conversation is the fold of all but as many captures as its version is behind. -/
structure Stands (w : World) (log : String → List Evidence) : Prop where
  disk : ∀ c, (w.records.rows.map (evidenceIn c)).filterMap id = log c
  rising : ∀ c, Rising revisionOf (log c)
  taken : ∀ c, ∀ e ∈ log c, 0 < revisionOf e ∧ revisionOf e ≤ w.seq
  latest : ∀ c latest, w.versions c = some latest → ∃ r e,
    w.read c latest.messageId = some r ∧ r.evidence = some e ∧ (log c).getLast? = some e
  kept : ∀ c found, w.cache c = some found → ∃ behind,
    found.version + behind = w.versionOf c ∧ Folded applyRecord {} (log c) behind found.state

variable {w w' : World} {log : String → List Evidence} {c : String} {listing : List Record}
  {identityOf matched}

theorem stands_empty : Stands {} fun _ => [] where
  disk _ := rfl
  rising _ := List.Pairwise.nil
  taken _ _ h := nomatch h
  latest _ _ h := nomatch h
  kept _ _ h := nomatch h

theorem listing_evidence (h : Stands w log) (hl : w.Lists c listing) :
    (listing.filterMap (·.evidence)).Perm (log c) := by
  have hrows : (w.records.rows.filter fun r => r.conversationId = c).filterMap (·.evidence) =
      log c := by
    rw [← h.disk c, List.filterMap_filter, List.filterMap_map]
    refine congrArg (List.filterMap · _) (funext fun r => ?_)
    by_cases hc : r.conversationId = c
    · simp [evidenceIn, hc]
    · simp [evidenceIn, hc]
  exact hrows ▸ hl.filterMap _

theorem rebuilt_folded (h : Stands w log) (hl : w.Lists c listing) :
    Folded applyRecord {} (log c) 0 (rebuilt listing) :=
  foldl_sortBy (h.rising c) (listing_evidence h hl)

/-- A reader that is one capture behind folds in that capture. -/
theorem oneBehind_folded (h : Stands w log) {found : Found} {e : Evidence}
    (hc : w.cache c = some found) (he : w.oneBehind c found = some e) :
    Folded applyRecord {} (log c) 0 (applyRecord found.state e) := by
  rw [World.oneBehind] at he
  cases hv : w.versions c with
  | none => simp [hv] at he
  | some latest =>
    simp only [hv] at he
    split at he
    · rename_i hone
      obtain ⟨r, e', hr, he', hlast⟩ := h.latest c latest hv
      rw [hr, Option.bind_some, he'] at he
      obtain rfl := Option.some.inj (Option.filter_eq_some_iff.1 he).1
      obtain ⟨behind, hb, hf⟩ := h.kept c found hc
      rw [World.versionOf, hv] at hb
      simp only [Option.map_some, Option.getD_some] at hb
      obtain rfl : behind = 1 := by omega
      rw [hf.catchUp hlast]
      exact folded_all
    · cases he

/-- What is kept in place of what was kept is up to date. -/
theorem Stands.keep (h : Stands w log) {s : State} (hs : Folded applyRecord {} (log c) 0 s) :
    Stands { w with cache := Function.update w.cache c (some ⟨w.versionOf c, s⟩) } log := by
  refine ⟨h.disk, h.rising, h.taken, h.latest, fun c' found hc' => ?_⟩
  by_cases he : c' = c
  · subst he
    simp only [Function.update_self, Option.some.injEq] at hc'
    subst hc'
    exact ⟨0, rfl, hs⟩
  · simp only [Function.update_of_ne he] at hc'
    exact h.kept c' found hc'

theorem stateOf_folds (h : Stands w log) (hl : w.Lists c listing) :
    (stateOf w c listing).1 = (log c).foldl applyRecord {} ∧
      Stands (stateOf w c listing).2 log := by
  have hanew := rebuilt_folded h hl
  unfold stateOf
  cases hc : w.cache c with
  | none => exact ⟨hanew.all, h.keep hanew⟩
  | some found =>
    dsimp only
    split
    · rename_i hv
      obtain ⟨behind, hb, hf⟩ := h.kept c found hc
      obtain rfl : behind = 0 := by omega
      exact ⟨hf.all, h⟩
    · cases ho : w.oneBehind c found with
      | none => exact ⟨hanew.all, h.keep hanew⟩
      | some e =>
        have hone := oneBehind_folded h hc ho
        exact ⟨hone.all, h.keep hone⟩

theorem stateOf_records : (stateOf w c listing).2.records = w.records := by
  unfold stateOf
  cases w.cache c with
  | none => rfl
  | some found =>
    dsimp only
    split
    · rfl
    · cases w.oneBehind c found with
      | none => rfl
      | some e => rfl

/-- Ordinals taken and replies started and ended leave what is derived. -/
theorem Stands.tick (h : Stands w log) (active : Option Active) (n : Nat) :
    Stands { w with seq := w.seq + n, active } log :=
  ⟨h.disk, h.rising, fun c e he => ⟨(h.taken c e he).1, Nat.le_add_right_of_le (h.taken c e he).2⟩,
    h.latest, h.kept⟩

theorem Stands.reopen (h : Stands w log) :
    Stands { seq := w.seq, records := w.records } log :=
  ⟨h.disk, h.rising, h.taken, fun _ _ hv => (nomatch hv), fun _ _ hc => (nomatch hc)⟩

/-- The captures in a conversation, with what a step captured there. -/
def logged (log : String → List Evidence) (op : Op) (c : String) : List Evidence :=
  log c ++ (op.captured c).toList

theorem logged_none {op : Op} (h : ∀ c, op.captured c = none) : logged log op = log :=
  funext fun c => by rw [logged, h, Option.toList_none, List.append_nil]

theorem rows_put_fresh {r : Record} (hr : w.read r.conversationId r.messageId = none) (c : String) :
    ((w.records.put r).rows.map (evidenceIn c)).filterMap id =
      (w.records.rows.map (evidenceIn c)).filterMap id ++ (evidenceIn c r).toList := by
  rw [Table.rows_put_new hr, List.map_append, List.filterMap_append]
  refine congrArg (_ ++ ·) ?_
  cases he : evidenceIn c r with
  | none => simp [he]
  | some e => simp [he]

/-- A record at a key nothing was at does not change what is read elsewhere. -/
theorem read_put {r r' : Record} (hr : w.read r.conversationId r.messageId = none) {m : String}
    (h : w.read c m = some r') : (w.records.put r).find (c, m) = some r' := by
  rw [Table.find_put, if_neg]
  · exact h
  · intro hk
    rw [World.read, ← Record.key, ← hk] at hr
    rw [World.read, hr] at h
    cases h

theorem Stands.message (h : Stands w log) {r : Record} (he : r.evidence = none)
    (hr : w.read r.conversationId r.messageId = none) : Stands (w.capture r) log := by
  have hver : (w.capture r).versions = w.versions := by simp [World.capture, he]
  refine ⟨fun c => ?_, h.rising, fun c e hm => ⟨(h.taken c e hm).1, ?_⟩, fun c latest hv => ?_,
    fun c found hc => ?_⟩
  · have hnone : evidenceIn c r = none := by simp [evidenceIn, he]
    have := rows_put_fresh hr c
    rw [hnone, Option.toList_none, List.append_nil, h.disk c] at this
    exact this
  · exact Nat.le_succ_of_le (h.taken c e hm).2
  · rw [hver] at hv
    obtain ⟨r', e, hr', hrest⟩ := h.latest c latest hv
    exact ⟨r', e, read_put hr hr', hrest⟩
  · obtain ⟨behind, hb, hf⟩ := h.kept c found hc
    exact ⟨behind, by rw [hb, World.versionOf, World.versionOf, hver], hf⟩

theorem Stands.annotated (h : Stands w log) {r old : Record}
    (hr : w.read r.conversationId r.messageId = some old) (he : r.evidence = old.evidence) :
    Stands { w with seq := w.seq + 1, records := w.records.put r } log := by
  have hkey : old.key = r.key := Table.find_key hr
  have hconv : old.conversationId = r.conversationId := congrArg Prod.fst hkey
  refine ⟨fun c => ?_, h.rising, fun c e hm => ⟨(h.taken c e hm).1, ?_⟩, fun c latest hv => ?_,
    h.kept⟩
  · rw [← h.disk c]
    exact congrArg _ (Table.map_rows_put (evidenceIn c) hr (by rw [evidenceIn, evidenceIn, hconv, he]))
  · exact Nat.le_succ_of_le (h.taken c e hm).2
  · obtain ⟨r', e, hr', hre, hlast⟩ := h.latest c latest hv
    by_cases hk : (c, latest.messageId) = r.key
    · refine ⟨r, e, ?_, ?_, hlast⟩
      · show (w.records.put r).find (c, latest.messageId) = some r
        rw [Table.find_put, if_pos hk]
      · have hold : w.records.find r.key = some r' := hk ▸ hr'
        obtain rfl := Option.some.inj (hold.symm.trans hr)
        rw [he, hre]
    · exact ⟨r', e, by
        show (w.records.put r).find (c, latest.messageId) = some r'
        rw [Table.find_put, if_neg hk]
        exact hr', hre, hlast⟩

/-- A publication captures one more, a version further. -/
theorem Stands.publish (h : Stands w log) {m : String} {e : Evidence} (hr : w.read c m = none)
    (hrev : revisionOf e = w.seq + 1) :
    Stands ({ w with seq := w.seq + 1 }.capture ⟨c, m, some e⟩)
      (logged log (.present c (some e))) := by
  have hself : logged log (.present c (some e)) c = log c ++ [e] := by
    simp [logged, Op.captured]
  have hother : ∀ c', c' ≠ c → logged log (.present c (some e)) c' = log c' := by
    intro c' hne
    simp [logged, Op.captured, Ne.symm hne]
  let w' := { w with seq := w.seq + 1 }.capture ⟨c, m, some e⟩
  have hver : w'.versionOf c = w.versionOf c + 1 := by
    simp [w', World.capture, World.versionOf]
  have hvother : ∀ c', c' ≠ c → w'.versions c' = w.versions c' := by
    intro c' hne
    simp [w', World.capture, hne]
  refine ⟨fun c' => ?_, fun c' => ?_, fun c' e' he' => ?_, fun c' latest hv => ?_,
    fun c' found hc' => ?_⟩
  · have := rows_put_fresh (r := ⟨c, m, some e⟩) hr c'
    rw [h.disk c'] at this
    refine this.trans (congrArg (log c' ++ ·) ?_)
    by_cases hne : c = c'
    · simp [evidenceIn, Op.captured, hne]
    · simp [evidenceIn, Op.captured, hne]
  · by_cases hne : c' = c
    · subst hne
      rw [hself]
      refine rising_append (h.rising c') fun y hy => ?_
      have := (h.taken c' y hy).2
      omega
    · rw [hother c' hne]
      exact h.rising c'
  · show 0 < revisionOf e' ∧ revisionOf e' ≤ w.seq + 1 + 1
    by_cases hne : c' = c
    · subst hne
      rw [hself, List.mem_append, List.mem_singleton] at he'
      rcases he' with he' | rfl
      · have := h.taken c' e' he'
        exact ⟨this.1, by omega⟩
      · exact ⟨by omega, by omega⟩
    · rw [hother c' hne] at he'
      have := h.taken c' e' he'
      exact ⟨this.1, by omega⟩
  · by_cases hne : c' = c
    · subst hne
      have hlatest : latest.messageId = m := by
        simp only [World.capture, Option.isSome_some, if_true, Function.update_self] at hv
        rw [← Option.some.inj hv]
      refine ⟨⟨c', m, some e⟩, e, ?_, rfl, ?_⟩
      · rw [hlatest]
        exact Table.find_put_self _ _
      · rw [hself, List.getLast?_append_of_ne_nil _ (by simp)]
        rfl
    · rw [hvother c' hne] at hv
      obtain ⟨r', e', hr', hrest⟩ := h.latest c' latest hv
      rw [hother c' hne]
      exact ⟨r', e', read_put (r := ⟨c, m, some e⟩) hr hr', hrest⟩
  · obtain ⟨behind, hb, hf⟩ := h.kept c' found hc'
    by_cases hne : c' = c
    · subst hne
      refine ⟨behind + 1, by rw [hver]; omega, ?_⟩
      rw [hself]
      exact hf.append e
    · refine ⟨behind, ?_, ?_⟩
      · rw [hb, World.versionOf, World.versionOf, hvother c' hne]
      · rw [hother c' hne]
        exact hf
theorem Stands.uncaptured (h : Stands w log) {r : Option Evidence} (hr : r = none) :
    Stands w (logged log (.present c r)) := by
  rw [logged_none fun c' => by simp [Op.captured, hr]]
  exact h

/-- A publication is refused, is one that was made before, or captures one more. -/
theorem present_stands (h : Stands w log) {call : Call} {resolve : Resolve}
    (hl : w.Lists call.conversationId listing) {result : Except (List Fault) Presented}
    (hp : presentEvidence identityOf matched resolve w call listing = (result, w')) :
    Stands w' (logged log
      (.present call.conversationId (result.toOption.bind (·.captured)))) := by
  unfold presentEvidence at hp
  split at hp
  · cases hp
    exact h.uncaptured rfl
  · cases hr : w.read call.conversationId call.messageId with
    | some prior =>
      simp only [hr] at hp
      cases he : prior.evidence with
      | none =>
        simp only [he] at hp
        cases hp
        exact h.uncaptured rfl
      | some e =>
        simp only [he] at hp
        split at hp
        · cases hp
          exact h.uncaptured rfl
        · cases hp
          exact h.uncaptured rfl
    | none =>
      simp only [hr] at hp
      split at hp
      · cases hp
        exact h.uncaptured rfl
      · have hs := (stateOf_folds h hl).2
        have hread : (stateOf w call.conversationId listing).2.records = w.records := stateOf_records
        generalize stateOf w call.conversationId listing = read at hp hs hread
        obtain ⟨s, w₁⟩ := read
        simp only at hp hs hread
        cases hd : prepareDelta matched resolve s call.delta with
        | error faults =>
          simp only [hd] at hp
          cases hp
          exact hs.uncaptured rfl
        | ok ready =>
          simp only [hd] at hp
          cases hp
          refine hs.publish ?_ rfl
          rw [World.read, hread]
          exact hr

theorem step_stands (h : Stands w log) {op : Op} (hst : step identityOf matched w op w') :
    Stands w' (logged log op) := by
  cases op with
  | present c captured =>
    obtain ⟨call, listing, resolve, rfl, hl, result, hp, rfl⟩ := hst
    exact present_stands h hl hp
  | read c answered =>
    obtain ⟨listing, hl, hs⟩ := hst
    rw [logged_none fun _ => rfl]
    have := (stateOf_folds h hl).2
    rwa [hs] at this
  | changes c cursor limit page =>
    obtain ⟨listing, hl, hs⟩ := hst
    rw [logged_none fun _ => rfl]
    have := (stateOf_folds h hl).2
    rw [readEvidenceChanges] at hs
    split at hs
    · rwa [← (Prod.mk.inj hs).2]
    · cases hs
  | ordinal =>
    obtain rfl := hst
    rw [logged_none fun _ => rfl]
    exact h.tick w.active 1
  | message r =>
    obtain ⟨he, hr, rfl⟩ := hst
    rw [logged_none fun _ => rfl]
    exact h.message he hr
  | annotated r =>
    obtain ⟨old, hr, he, rfl⟩ := hst
    rw [logged_none fun _ => rfl]
    exact h.annotated hr he
  | activate active =>
    obtain rfl := hst
    rw [logged_none fun _ => rfl]
    exact h.tick active 0
  | reopen =>
    obtain rfl := hst
    rw [logged_none fun _ => rfl]
    exact h.reopen
theorem logged_captured (c : String) (op : Op) (ops : List Op) :
    logged log op c ++ captured c ops = log c ++ captured c (op :: ops) := by
  rw [logged, List.append_assoc, captured, captured, List.filterMap_cons]
  cases op.captured c with
  | none => rfl
  | some e => rfl

theorem run_stands {ops : List Op} (hrun : (evidence identityOf matched).Run w ops w')
    (h : Stands w log) : Stands w' fun c => log c ++ captured c ops := by
  induction hrun generalizing log with
  | nil w =>
    have : (fun c => log c ++ captured c []) = log := funext fun c => List.append_nil _
    rwa [this]
  | @cons w w₁ w' op ops hst _ ih =>
    have hrest := ih (step_stands h hst)
    have : (fun c => logged log op c ++ captured c ops) =
        fun c => log c ++ captured c (op :: ops) := funext fun c => logged_captured c op ops
    rwa [← this]

/-! ## Following the changes -/

theorem rising_changes {log : List Evidence} (h : Rising revisionOf log) :
    Rising Change.revision (changesOf log) := List.pairwise_map.2 h

/-- A cursor is where a reader starts, or the revision of a change. -/
def Reached (changes : List Change) (cursor : Nat) : Prop :=
  cursor = 0 ∨ ∃ x ∈ changes, x.revision = cursor

/-- A reader has each change up to its cursor, once and in order. -/
structure Caught (changes : List Change) (cursor : Nat) (got : List Change) : Prop where
  reached : Reached changes cursor
  got : got = upTo Change.revision changes cursor

/-- What is captured meanwhile is past the cursor. -/
theorem Caught.logged {op : Op} (h : Stands w' (logged log op)) {cursor : Nat}
    {got : List Change} (hc : Caught (changesOf (log c)) cursor got) :
    Caught (changesOf (logged log op c)) cursor got := by
  have hrise := h.rising c
  have htaken := h.taken c
  rw [BrowserEvidence.logged] at hrise htaken ⊢
  generalize op.captured c = captured at hrise htaken ⊢
  cases captured with
  | none =>
    rw [Option.toList_none, List.append_nil]
    exact hc
  | some e =>
    have hpast : cursor < e.change.templated.revision := by
      rcases hc.reached with rfl | ⟨x, hx, rfl⟩
      · exact (htaken e (by simp)).1
      · obtain ⟨y, hy, rfl⟩ := List.mem_map.1 hx
        exact (List.pairwise_append.1 hrise).2.2 y hy e (by simp)
    have hchanges : changesOf (log c ++ (some e).toList) =
        changesOf (log c) ++ [e.change.templated] := by
      simp [changesOf]
    rw [hchanges]
    refine ⟨?_, by rw [upTo_append hpast]; exact hc.got⟩
    rcases hc.reached with h0 | ⟨x, hx, hrev⟩
    · exact .inl h0
    · exact .inr ⟨x, List.mem_append_left _ hx, hrev⟩

theorem changesPage_caught {s : State} {cursor limit : Nat} {got : List Change}
    (hr : Rising Change.revision s.changes) (hc : Caught s.changes cursor got) :
    Caught s.changes (changesPage s cursor limit).cursor
      (got ++ (changesPage s cursor limit).changes) := by
  refine ⟨?_, ?_⟩
  · show Reached _ (pageEnd Change.revision cursor _)
    unfold pageEnd
    cases hl : ((pastCursor Change.revision s.changes cursor).take limit).getLast? with
    | none => exact hc.reached
    | some x =>
      refine .inr ⟨x, ?_, rfl⟩
      exact List.mem_of_mem_filter (List.mem_of_mem_take (List.mem_of_getLast? hl))
  · rw [hc.got]
    exact (upTo_page hr).symm

/-- A page of a state that is derived as it should be. -/
theorem changes_answered (h : Stands w log) {cursor limit : Nat} {page : ChangesPage}
    (hst : step identityOf matched w (.changes c cursor limit page) w') :
    page = changesPage ((log c).foldl applyRecord {}) cursor limit ∧ 0 < limit := by
  obtain ⟨listing, hl, hs⟩ := hst
  rw [readEvidenceChanges] at hs
  split at hs
  · rename_i hv
    have hpage : changesPage (stateOf w c listing).1 cursor limit = page :=
      Except.ok.inj (congrArg Prod.fst hs)
    rw [← (stateOf_folds h hl).1, hpage]
    simp only [pageValid, Bool.and_eq_true, decide_eq_true_eq] at hv
    exact ⟨rfl, hv.1.2⟩
  · cases (Prod.mk.inj hs).1

theorem derived_changes (log : List Evidence) :
    (log.foldl applyRecord {}).changes = changesOf log := by
  rw [foldl_changes]
  rfl

theorem follows_caught {ops : List Op} (hrun : (evidence identityOf matched).Run w ops w')
    (h : Stands w log) {cursor cursor' : Nat} {got got' : List Change}
    (hc : Caught (changesOf (log c)) cursor got) (hf : Follows c cursor got ops cursor' got') :
    Caught (changesOf (log c ++ captured c ops)) cursor' got' := by
  induction hrun generalizing log cursor got with
  | nil w =>
    cases hf
    rw [captured, List.filterMap_nil, List.append_nil]
    exact hc
  | @cons w w₁ w' op ops hst _ ih =>
    have hw₁ := step_stands h hst
    rw [← logged_captured]
    cases hf with
    | other hf => exact ih hw₁ (hc.logged hw₁) hf
    | @page _ _ limit _ _ page _ hf =>
      have hread : step identityOf matched w (.changes c cursor limit page) w₁ := hst
      obtain ⟨rfl, -⟩ := changes_answered h hread
      refine ih hw₁ ?_ hf
      refine Caught.logged hw₁ ?_
      have hr := rising_changes (h.rising c)
      rw [← derived_changes] at hr hc ⊢
      exact changesPage_caught hr hc
/-- Whatever is published, read and restarted in whatever order: what is derived of a conversation
is the fold of its captures in their order, and who follows the changes from the start has each
of them up to its cursor once and in order, is given one more where it is told of more, and has
all of them where it is not. -/
theorem evidence_folded {ops : List Op} (hrun : (evidence identityOf matched).Run {} ops w)
    (c : String) :
    (∀ answered w', step identityOf matched w (.read c answered) w' →
      answered = (captured c ops).foldl applyRecord {}) ∧
    ((changesOf (captured c ops)).Pairwise fun x y => x.revision < y.revision) ∧
    ∀ cursor got, Follows c 0 [] ops cursor got →
      got = upTo Change.revision (changesOf (captured c ops)) cursor ∧
      got <+: changesOf (captured c ops) ∧
      ∀ limit page w', step identityOf matched w (.changes c cursor limit page) w' →
        if page.hasMore then page.changes ≠ []
        else got ++ page.changes = changesOf (captured c ops) := by
  have h := run_stands hrun stands_empty
  simp only [List.nil_append] at h
  have hrise := rising_changes (h.rising c)
  refine ⟨fun answered w' hst => ?_, hrise, fun cursor got hf => ?_⟩
  · obtain ⟨listing, hl, hs⟩ := hst
    rw [← (stateOf_folds h hl).1, hs]
  · have hstart : Caught (changesOf []) 0 [] := ⟨.inl rfl, rfl⟩
    have hc := follows_caught hrun (show Stands { } fun _ => [] from stands_empty) hstart hf
    rw [List.nil_append] at hc
    have hsplit := @upTo_pastCursor _ _ _ cursor hrise
    rw [← hc.got] at hsplit
    refine ⟨hc.got, ⟨_, hsplit⟩, fun limit page w' hst => ?_⟩
    obtain ⟨rfl, hl⟩ := changes_answered h hst
    simp only [changesPage, derived_changes, decide_eq_true_eq]
    split
    · rename_i hmore
      intro hnil
      rcases List.take_eq_nil_iff.1 hnil with h0 | h0
      · omega
      · rw [h0] at hmore
        simp at hmore
    · rename_i hmore
      rw [List.take_of_length_le, hsplit]
      rw [List.length_take] at hmore
      omega
end

/-! ## A source that is added and removed -/

def item (id : String) : Addition := ⟨id, none, "Comments", none⟩

/-- A publication of the reply the runtime is at. -/
def call (changeId : String) (add : List Addition) (remove : List Removal) : Call where
  agent := "agent"
  conversationId := "c"
  releaseId := "release"
  turnId := "turn"
  now := "0"
  delta := ⟨changeId, add, remove, none⟩

def received : Resolve := fun _ a => .ok ⟨"source-" ++ a.itemId, "digest", "/evidence", .original, none⟩

/-- A script of steps in the conversation `c`, each off the rows as they are on disk. -/
inductive Act
  | present (call : Call) | read | changes (cursor limit : Nat) | activate (active : Option Active)
  | reopen

def World.rows (w : World) (c : String) : List Record :=
  w.records.rows.filter fun r => r.conversationId = c

def act (w : World) : Act → Op × World
  | .present call =>
    let (result, w') := presentEvidence (·.changeId) (fun _ => true) received w call
      (w.rows call.conversationId)
    (.present call.conversationId (result.toOption.bind (·.captured)), w')
  | .read =>
    let (s, w') := stateOf w "c" (w.rows "c")
    (.read "c" s, w')
  | .changes cursor limit =>
    match readEvidenceChanges w "c" (w.rows "c") cursor limit with
    | (.ok page, w') => (.changes "c" cursor limit page, w')
    | (.error _, _) => (.activate w.active, w)
  | .activate active => (.activate active, { w with active })
  | .reopen => (.reopen, { seq := w.seq, records := w.records })

def acted : World → List Act → List Op × World
  | w, [] => ([], w)
  | w, a :: acts =>
    let (op, w₁) := act w a
    let (ops, w') := acted w₁ acts
    (op :: ops, w')

theorem act_step (w : World) (a : Act) :
    step (·.changeId) (fun _ => true) w (act w a).1 (act w a).2 := by
  cases a with
  | present call => exact ⟨call, _, received, rfl, .refl _, _, rfl, rfl⟩
  | read => exact ⟨_, .refl _, rfl⟩
  | changes cursor limit =>
    simp only [act]
    split
    · rename_i page w' hr
      exact ⟨_, .refl _, hr⟩
    · rfl
  | activate active => rfl
  | reopen => rfl

theorem acted_run (acts : List Act) : ∀ w : World,
    (evidence (·.changeId) fun _ => true).Run w (acted w acts).1 (acted w acts).2 := by
  induction acts with
  | nil => exact fun w => .nil w
  | cons a acts ih => exact fun w => .cons (act_step w a) (ih _)

/-- An item is added and read, and removed by a publication that a second process reads. -/
def removal : List Act :=
  [.activate (some ⟨"c", "release", "turn"⟩), .present (call "1" [item "a"] []), .read,
    .present (call "2" [] [⟨"a", "superseded"⟩]), .changes 0 1, .reopen]

theorem evidence_folded_removal : ∃ ops w answered w',
    (evidence (·.changeId) fun _ => true).Run {} ops w ∧
    step (·.changeId) (fun _ => true) w (.read "c" answered) w' ∧
    answered = (captured "c" ops).foldl applyRecord {} ∧
    answered.changes.map (·.revision) = [1, 3] ∧ answered.current.rows = [] := by
  have hread := act_step (acted {} removal).2 .read
  have hfold := (evidence_folded (acted_run removal {}) "c").1 _ _ hread
  exact ⟨_, _, _, _, acted_run removal {}, hread, hfold, by decide +kernel, by decide +kernel⟩

end CarbonRuntime.BrowserEvidence
