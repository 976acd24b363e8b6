import CarbonRuntime.Adapters.Telegram.Adapter
import CarbonRuntime.Core.LTS

/-!
# The long poll

The worker behind the Telegram channel (adapters/telegram/live.ts:269-406), the server it asks
and the loop it hands batches to, as one system. The server forgets every update below the
offset it is asked for. The worker keeps what it was shown and the store has not confirmed
(`seen`), asks for the offset the store's cursor gives, and hands over all it keeps; it does not
ask again until the offset is past the batch it handed over. The loop captures a batch it was
handed: it writes the records of what is pending and then consumes it, item by item. The
process may die at any point of any of it, and what the worker and the loop keep is gone; a
capture that raises ends where it stands.

`asked`, `shown`, `answered` and `consumed` are what was seen of the run; no step reads them.
-/

open CarbonRuntime.Core CarbonRuntime.Stream

namespace CarbonRuntime.Adapters.Telegram

open Store

/-! ## The worker -/

def idOf (x : Item) : Nat := x.update.updateId.getD 0

/-- One poll of an account, between the batches it hands over. -/
structure Worker where
  seen : List Item := []
  /-- The highest update of the batch that was handed over last. -/
  highest : Option Nat := none
  items : List Item := []
  /-- The offset of the batch that is being collected. -/
  asking : Option (Option Nat) := none
  shown : List Nat := []
deriving DecidableEq

/-- What was handed over is not consumed yet, live.ts:277-283. -/
def Worker.waits (w : Worker) (offset : Option Nat) : Bool :=
  match w.highest with
  | none => false
  | some highest =>
    match offset with
    | none => true
    | some offset => offset ≤ highest

/-- At or past the offset. -/
def unconfirmed (offset : Option Nat) (x : Item) : Bool := offset.all (· ≤ idOf x)

def dropConfirmed (offset : Option Nat) (seen : List Item) : List Item :=
  seen.filter (unconfirmed offset)

/-- mirrors live.ts:333-339 -/
def retained (offset : Option Nat) (seen : List Item) : List Item :=
  (seen.filter (unconfirmed offset)).mergeSort fun x y => idOf x ≤ idOf y

/-- The item of an update, live.ts:389-396. -/
def itemFor (receivedAt : String) (u : Update) : Item :=
  { position :=
      match u.content with
      | .message m _ _ => some (positionOf m.messageId)
      | .unknown _ => none
    receivedAt := some receivedAt
    update := u }

def remember (receivedAt : String) (seen : List Item) (updates : List Update) : List Item :=
  updates.foldl (fun seen u =>
    if seen.any (·.update.updateId = u.updateId) then seen else seen ++ [itemFor receivedAt u]) seen

/-- The items with what was fetched of their media. -/
def hydrated (media : Nat → Option (List Attachment)) (items : List Item) : List Item :=
  items.map fun x => { x with attachments := media (idOf x) }

/-- `Math.max(...items.map(update_id))`, or as it was where there is none. -/
def highestOf (items : List Item) (before : Option Nat) : Option Nat :=
  match items with
  | [] => before
  | x :: items => some (items.foldl (fun highest y => max highest (idOf y)) (idOf x))

/-! ## The system -/

/-- What the loop does with a batch: the items still to be consumed. -/
inductive Capturing
  | idle
  | handed (items : List Item)
  | consuming (items : List Item)
deriving DecidableEq

structure State where
  /-- What the server holds. -/
  queue : List Update := []
  disk : Disk := {}
  /-- Absent where no process runs. -/
  worker : Option Worker := none
  loop : Capturing := .idle
  asked : List Nat := []
  answered : List Nat := []
  consumed : List Nat := []

/-- What becomes of an answer: the album is waited for, the batch is settled with what was
fetched, or a download fails. -/
inductive Outcome
  | again
  | settled (media : Nat → Option (List Attachment))
  | failed

inductive Event
  | arrive (u : Update)
  | boot
  | turn
  | answer (updates : List Update) (receivedAt : String) (outcome : Outcome)
  /-- The call reaches the server and its answer is lost. -/
  | lost
  | hand
  | skip
  | write
  | consume
  | other
  | die
  | cut

/-- The server forgets what is below the offset. -/
def forgets (offset : Option Nat) (queue : List Update) : List Update :=
  queue.filter fun u => offset.all (· ≤ u.updateId.getD 0)

/-- The worker once it has remembered an answer to the call at `offset`. -/
def Worker.told (w : Worker) (offset : Option Nat) (updates : List Update) (receivedAt : String)
    (outcome : Outcome) : Worker :=
  let seen := remember receivedAt w.seen updates
  let shown := w.shown ++ updates.map (·.updateId.getD 0)
  match outcome with
  | .again => { w with seen, shown }
  | .failed => { w with seen, shown, asking := none }
  | .settled media =>
    let items := hydrated media (retained offset seen)
    { seen, shown, items, highest := highestOf items w.highest, asking := none }

variable (L : Loop) (B : Bot)

/-- A run of `p` on the disk of the state. -/
def Does {α : Type} (p : Program L α) (d d' : Disk) : Prop :=
  ∃ s s' a, Prog.Runs p s (.ok a) s' ∧ s.disk = d ∧ s'.disk = d'

/-- `p` is cut short on the disk of the state, wherever it stands, or raises. -/
def Breaks {α : Type} (p : Program L α) (d d' : Disk) : Prop :=
  ∃ s s' p', Prog.Steps (p, s) (p', s') ∧ s.disk = d ∧ s'.disk = d'

inductive Step : State → Event → State → Prop
  | arrive {σ : State} {u : Update} {id : Nat} : u.updateId = some id → id < 2 ^ 53 →
      Step σ (.arrive u) { σ with queue := σ.queue ++ [u] }
  | boot {σ : State} : σ.worker = none → Step σ .boot { σ with worker := some {}, loop := .idle }
  | turn {σ : State} {w : Worker} : σ.worker = some w → w.asking = none →
      w.waits (nextOffset B σ.disk) = false →
      Step σ .turn { σ with
        worker := some { w with
          seen := dropConfirmed (nextOffset B σ.disk) w.seen, asking := some (nextOffset B σ.disk) } }
  | answer {σ : State} {w : Worker} {offset : Option Nat} {updates : List Update}
      {receivedAt : String} {outcome : Outcome} : σ.worker = some w → w.asking = some offset →
      (∀ u ∈ updates, u ∈ forgets offset σ.queue) →
      Step σ (.answer updates receivedAt outcome) { σ with
        queue := forgets offset σ.queue
        asked := offset.toList ++ σ.asked
        answered := updates.map (·.updateId.getD 0) ++ σ.answered
        worker := some (w.told offset updates receivedAt outcome) }
  | lost {σ : State} {w : Worker} {offset : Option Nat} : σ.worker = some w →
      w.asking = some offset →
      Step σ .lost { σ with
        queue := forgets offset σ.queue
        asked := offset.toList ++ σ.asked
        worker := some { w with asking := none } }
  | hand {σ : State} {w : Worker} : σ.worker = some w → σ.loop = .idle →
      Step σ .hand { σ with loop := .handed w.items }
  | skip {σ : State} {items : List Item} : σ.loop = .handed items →
      listPending B L.js σ.disk items = [] → Step σ .skip { σ with loop := .idle }
  | write {σ : State} {items : List Item} {now : String} {batch : Payload} {d : Disk} :
      σ.loop = .handed items →
      payloadOf B L.js σ.disk now (listPending B L.js σ.disk items) = .ok batch →
      Does L (putItems L batch) σ.disk d →
      Step σ .write { σ with disk := d, loop := .consuming (listPending B L.js σ.disk items) }
  | consume {σ : State} {x : Item} {items : List Item} {d : Disk} :
      σ.loop = .consuming (x :: items) → Does L (consumeItem L (adapter B L.js) x) σ.disk d →
      Step σ .consume { σ with disk := d, loop := .consuming items, consumed := idOf x :: σ.consumed }
  | consumed {σ : State} : σ.loop = .consuming [] → Step σ .consume { σ with loop := .idle }
  /-- The rest of the runtime moves no cursor of the stream of updates. -/
  | other {σ : State} {d : Disk} :
      d.cursorsOf (updatesConversation B) = σ.disk.cursorsOf (updatesConversation B) →
      Step σ .other { σ with disk := d }
  | die {σ : State} : Step σ .die { σ with worker := none, loop := .idle }
  /-- The writes are cut short by a death, or raise and the worker goes on. -/
  | cutWriting {σ : State} {items : List Item} {now : String} {batch : Payload} {d : Disk}
      {worker : Option Worker} : σ.loop = .handed items →
      payloadOf B L.js σ.disk now (listPending B L.js σ.disk items) = .ok batch →
      Breaks L (putItems L batch) σ.disk d → worker = none ∨ worker = σ.worker →
      Step σ .cut { σ with disk := d, worker, loop := .idle }
  | cutConsuming {σ : State} {x : Item} {items : List Item} {d : Disk} {worker : Option Worker} :
      σ.loop = .consuming (x :: items) → Breaks L (consumeItem L (adapter B L.js) x) σ.disk d →
      worker = none ∨ worker = σ.worker →
      -- The offset moves last, so where it has moved the item is consumed.
      Step σ .cut { σ with
        disk := d, worker, loop := .idle
        consumed :=
          if nextOffset B d = nextOffset B σ.disk then σ.consumed else idOf x :: σ.consumed }

/-- The channel from an empty store on. -/
def system : LTS State Event where
  init σ := σ = {}
  step := Step L B

end CarbonRuntime.Adapters.Telegram
