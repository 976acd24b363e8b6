import CarbonRuntime.Adapters.Telegram.Read
import CarbonRuntime.Core.LTS
import CarbonRuntime.Core.Table
import Mathlib.Algebra.GroupWithZero.Nat

/-!
# Media fetched before a batch is settled (adapters/telegram/live.ts:312-328, 391-568)

While an album may still grow, the media of what was seen is fetched ahead: `startEager` takes a member into the
speculative set and reserves its size, `judge` looks at what came, and a settled batch takes over what it wants,
cached, under way or not begun. `dropConfirmed` forgets what the store has confirmed.

A fetch is one `Chain`, and what the provider answers it is on the step that ends it. The lanes a chain waits for
only delay it; `unlaned` is a chain that was aborted before it had one. The logs are left out, and so is `stop`.

`handed`, `late` and `repeated`, and the chain of what is cached, are for statements only.
-/

open CarbonRuntime.Core

namespace CarbonRuntime.Adapters.Telegram.Speculation

/-! ## What is kept -/

/-- An update that was seen, and the media of its message. -/
structure Member where
  update : Nat
  media : Option Media
deriving DecidableEq

structure Settings where
  /-- `max_attachment_bytes` -/
  limit : Nat
  /-- `album_quiet_ms` -/
  quiet : Nat

def speculativeMembers : Nat := 16

def speculativeChains : Nat := 4

def speculativeQuietFactor : Nat := 20

structure Fetched where
  bytes : List Nat
  mime : String
  fileName : Option String
deriving DecidableEq

/-- What `fetchMedia` comes to; the body is whole. -/
inductive Got
  | oversize | failed
  | body (bytes : List Nat)
deriving DecidableEq

/-- What became of a chain: what it got, and whether it had been aborted. -/
structure Done where
  got : Got
  aborted : Bool
deriving DecidableEq

structure Chain where
  update : Nat
  media : Media
  speculative : Bool
  aborted : Bool := false
  done : Option Done := none

structure Speculative where
  update : Nat
  reserved : Nat
  since : Nat
  chain : Nat

structure Cached where
  update : Nat
  fetched : Option Fetched
  chain : Nat

structure Flight where
  update : Nat
  chain : Nat
deriving DecidableEq

/-- A member of a settled batch, and the chain it waits for. -/
structure Waiting where
  member : Member
  chain : Nat

structure State where
  seen : List Member := []
  sighted : List (Nat × Nat) := []
  media : Table Cached.update := Table.empty
  inflight : Table Flight.update := Table.empty
  spec : Table Speculative.update := Table.empty
  abandoned : List Nat := []
  /-- The offset that was confirmed last. -/
  offset : Option Nat := none
  waiting : List Waiting := []
  chains : List Chain := []
  /-- The files of settled batches. -/
  handed : List (Member × Option Fetched) := []
  /-- Updates whose fetch was in flight when they were confirmed. -/
  late : List Nat := []
  /-- Updates the server showed after they were confirmed. -/
  repeated : List Nat := []

variable (K : Settings)

/-- At or past the confirmed offset. -/
def State.open' (s : State) (update : Nat) : Bool := s.offset.all (· ≤ update)

/-- mirrors live.ts:338-345 -/
def retained (s : State) : List Member :=
  (s.seen.filter fun m => s.open' m.update).mergeSort fun a b => a.update ≤ b.update

/-- mirrors live.ts:391-406 -/
def remember (s : State) (now : Nat) (m : Member) : State :=
  if s.seen.any (·.update = m.update) then s
  else
    { s with
      seen := s.seen ++ [m]
      sighted := s.sighted ++ [(m.update, now)]
      repeated := if s.open' m.update then s.repeated else s.repeated ++ [m.update] }

/-- mirrors live.ts:462-468 -/
def wanted (m : Member) : Option Media := m.media.filter fun media => media.bytes ≤ K.limit

def reservedBytes (s : State) : Nat := (s.spec.rows.map (·.reserved)).sum

/-- What the fetch of an update is begun with: nothing of it is cached or in flight. -/
def State.begin (s : State) (update : Nat) (media : Media) (speculative : Bool) : State :=
  { s with
    inflight := s.inflight.put ⟨update, s.chains.length⟩
    chains := s.chains ++ [{ update, media, speculative }] }

/-- mirrors live.ts:500-510: the answer that is cached, or the chain that is waited for -/
def mediaFor (s : State) (update : Nat) (media : Media) (speculative : Option (Nat × Nat)) :
    State × (Option Fetched ⊕ Nat) :=
  let s := if speculative.isNone then { s with spec := s.spec.erase update } else s
  match s.media.find update with
  | some c => (s, .inl c.fetched)
  | none =>
    match s.inflight.find update with
    | some f => (s, .inr f.chain)
    | none =>
      let chain := s.chains.length
      match speculative with
      | none => (s.begin update media false, .inr chain)
      | some (reserved, since) =>
        ({ s.begin update media true with spec := s.spec.put ⟨update, reserved, since, chain⟩ }, .inr chain)

def abort (s : State) (k : Nat) : State :=
  { s with chains := s.chains.mapIdx fun i c => if i = k then { c with aborted := true } else c }

/-- mirrors live.ts:474-481 -/
def expire (now : Nat) (s : State) (member : Speculative) : State :=
  if now - member.since ≤ K.quiet * speculativeQuietFactor then s
  else
    abort
      { s with
        spec := s.spec.erase member.update
        abandoned := s.abandoned ++ [member.update]
        media := s.media.erase member.update
        inflight := s.inflight.erase member.update } member.chain

/-- mirrors live.ts:485-492; `held` is what is reserved -/
def consider (now : Nat) (x : State × Nat) (m : Member) : State × Nat :=
  let (s, held) := x
  match wanted K m with
  | none => (s, held)
  | some media =>
    if (s.media.find m.update).isSome || (s.inflight.find m.update).isSome || s.abandoned.contains m.update then
      (s, held)
    else
      let reserved := media.bytes
      if s.spec.rows.length ≥ speculativeMembers || held + reserved > speculativeChains * K.limit then (s, held)
      else ((mediaFor s m.update media (some (reserved, now))).1, held + reserved)

def startEager (s : State) (now : Nat) : State :=
  let s := s.spec.rows.foldl (expire K now) s
  ((retained s).foldl (consider K now) (s, reservedBytes s)).1

/-- A member of a batch that settles, live.ts:440-450. -/
def settleOne (s : State) (m : Member) : State :=
  match wanted K m with
  | none => s
  | some media =>
    match mediaFor s m.update media none with
    | (s, .inl fetched) => { s with handed := s.handed ++ [(m, fetched)] }
    | (s, .inr chain) => { s with waiting := s.waiting ++ [⟨m, chain⟩] }

def settle (s : State) : State := (retained s).foldl (settleOne K) s

/-! ## What a fetch comes to -/

/-- A download under the limit. -/
inductive Download
  | failed | tooLarge
  | whole (bytes : List Nat)

/-- What getFile answers: the size it reports, and what the download of its path comes to. -/
structure File where
  size : Option Nat
  download : Download

/-- mirrors live.ts:559-577; `none` where getFile fails or names no path -/
def fetchMedia : Option File → Got
  | none => .failed
  | some file =>
    if file.size.any (K.limit < ·) then .oversize
    else
      match file.download with
      | .failed => .failed
      | .tooLarge => .oversize
      | .whole bytes => .body bytes

/-- The file, where it is not over the limit. -/
def fileOf (media : Media) : Got → Option Fetched
  | .body bytes => if bytes.length > K.limit then none else some ⟨bytes, media.mime, media.fileName⟩
  | _ => none

def isOversize : Got → Bool
  | .oversize => true
  | .failed => false
  | .body bytes => bytes.length > K.limit

/-- mirrors live.ts:533-556: the file that is returned, and whether it is kept -/
def judge (s : State) (update : Nat) (media : Media) (got : Got) (ended : Bool) : State × Option Fetched × Bool :=
  let fetched := fileOf K media got
  let s := if isOversize K got then { s with spec := s.spec.erase update } else s
  match fetched, s.spec.find update with
  | some file, some member =>
    if ended then (s, fetched, false)
    else
      let s := { s with spec := s.spec.put { member with reserved := file.bytes.length } }
      if reservedBytes s > speculativeChains * K.limit then
        ({ s with spec := s.spec.erase update, abandoned := s.abandoned ++ [update] }, none, false)
      else (s, fetched, true)
  | _, _ => (s, fetched, !ended)

/-- What follows in the `finally` of a chain: it is no longer in flight, and who waits for it goes on. -/
def State.finished (s : State) (k update : Nat) (fetched : Option Fetched) : State :=
  { s with
    inflight := if s.inflight.find update = some ⟨update, k⟩ then s.inflight.erase update else s.inflight
    waiting := s.waiting.filter fun w => w.chain ≠ k
    handed := s.handed ++ (s.waiting.filter fun w => w.chain = k).map fun w => (w.member, fetched) }

/-- mirrors live.ts:514-530 -/
def finish (s : State) (k : Nat) (file : Option File) : Option State :=
  (s.chains[k]?).bind fun c =>
    if c.done.isSome then none
    else
      let got := fetchMedia K file
      let (s, fetched, keep) := judge K s c.update c.media got c.aborted
      let s := { s with chains := s.chains.set k { c with done := some ⟨got, c.aborted⟩ } }
      let s := if keep then { s with media := s.media.put ⟨c.update, fetched, k⟩ } else s
      some (s.finished k c.update fetched)

/-- A chain that had no lane when it was aborted. -/
def unlaned (s : State) (k : Nat) : Option State :=
  (s.chains[k]?).bind fun c =>
    if c.done.isSome || !c.aborted then none
    else
      some (({ s with chains := s.chains.set k { c with done := some ⟨.failed, true⟩ } } : State).finished k
        c.update none)

/-- mirrors live.ts:312-328 -/
def dropConfirmed (s : State) (offset : Nat) : State :=
  { s with
    seen := s.seen.filter fun m => offset ≤ m.update
    media := s.media.restrict fun update => offset ≤ update
    spec := s.spec.restrict fun update => offset ≤ update
    abandoned := s.abandoned.filter fun update => offset ≤ update
    sighted := s.sighted.filter fun p => offset ≤ p.1
    offset := some offset
    late := s.late ++ (s.inflight.rows.filter fun f => f.update < offset).map (·.update) }

/-! ## The system -/

inductive Step
  | remember (updates : List Member) (now : Nat)
  | eager (now : Nat)
  | settle
  | finish (chain : Nat) (file : Option File)
  | unlaned (chain : Nat)
  /-- The cursor of the store only goes on. -/
  | confirm (offset : Nat)

def exec (s : State) : Step → Option State
  | .remember updates now => some (updates.foldl (fun s m => Speculation.remember s now m) s)
  | .eager now => some (startEager K s now)
  | .settle => some (Speculation.settle K s)
  | .finish chain file => Speculation.finish K s chain file
  | .unlaned chain => Speculation.unlaned s chain
  | .confirm offset => if s.offset.all (· ≤ offset) then some (dropConfirmed s offset) else none

def fetching : LTS State Step := .ofExec (· = {}) (exec K)

end CarbonRuntime.Adapters.Telegram.Speculation
