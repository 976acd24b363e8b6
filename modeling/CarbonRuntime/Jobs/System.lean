import CarbonRuntime.Core.LTS
import CarbonRuntime.Jobs.Upgrade

/-!
# Jobs, over whole runs

The records database with the calls that are under way and what was answered so far: each
transaction of a job tool is one step, `action_finish` two, and between them anything may
happen, an install included. Random ids are new.

**Results.** `inv_reachable`: every pending action has an id of its own, and the receipt of an
action that is pending is for its job and step. `exec_loses`: the steps an action leaves the
pending ones by.
-/

open CarbonRuntime.Core CarbonRuntime.Stream

namespace CarbonRuntime.Jobs

open Records

/-- A call of `action_finish`. -/
structure Finish where
  job : String
  step : String
  cause : String
  actionId : String
deriving DecidableEq

structure St where
  db : Db := {}
  /-- The calls of `action_finish` that are between their transactions. -/
  finishing : List Finish := []
  /-- The random ids that were drawn. -/
  minted : List String := []
  /-- What `action_begin` answered. -/
  made : List Claimed := []
  /-- The actions whose `action_finish` or `action_reconcile_absent` returned. -/
  closed : List String := []
deriving DecidableEq

inductive Op
  | opens (current : Option TurnContext) (sop unit : String) (references : List String)
      (cause : String) (m : Mint)
  | collect (cause channel unit : String)
  | begin (ps : Processes) (job step cause operation : String) (owner : Owner) (m : Mint)
  | receipt (f : Finish)
  | finish (f : Finish) (verified : Except (List Fault) Bool) (m : Mint)
  /-- A call of `action_finish` that is refused in its second transaction, or breaks off. -/
  | abandon (f : Finish)
  | reconcile (ps : Processes) (job step cause actionId : String) (read : ReadReceipt)
  | record (job step : String) (kind : Kind) (cause : String)
      (verified : Except (List Fault) Bool) (m : Mint)
  /-- Files that were checked: each is valid, each SOP has tables of its own. -/
  | install (files : List SopFile)

/-- A random id is one that was never drawn. -/
def St.mint (s : St) (m : Mint) : Except (List Fault) Unit :=
  check (isUuid m.id && uuid m.id = m.id && !s.minted.contains m.id) []

def checkFiles (files : List SopFile) : Bool :=
  files.all (fun c => validateSop c.definition c.sop = []) &&
    decide (files.map fun c => tableOf c.sop).Nodup

/-- The transaction, and what becomes of the calls. -/
def St.exec (s : St) : Op → Except (List Fault) St
  | .opens current sop unit references cause m => do
    s.mint m
    let db ← jobOpen s.db current sop unit references cause m
    return { s with db, minted := m.id :: s.minted }
  | .collect cause channel unit => do
    let db ← collect s.db cause channel unit
    return { s with db }
  | .begin ps job step cause operation owner m => do
    s.mint m
    let (db, claim) ← actionBegin ps s.db job step cause operation owner m
    return { s with db, minted := m.id :: s.minted, made := claim :: s.made }
  | .receipt f => do
    let db ← finishReceipt s.db f.job f.step f.cause f.actionId
    return { s with db, finishing := f :: s.finishing }
  | .finish f verified m => do
    check (s.finishing.contains f) []
    s.mint m
    let (db, _) ← jobRecord s.db f.job f.step .observation f.cause verified m
    return { s with
      db, minted := m.id :: s.minted, finishing := s.finishing.erase f,
      closed := uuid f.actionId :: s.closed }
  | .abandon f => .ok { s with finishing := s.finishing.erase f }
  | .reconcile ps job step cause actionId read => do
    let db ← actionReconcileAbsent ps s.db job step cause actionId read
    return { s with db, closed := actionId :: s.closed }
  | .record job step kind cause verified m => do
    s.mint m
    let (db, _) ← jobRecord s.db job step kind cause verified m
    return { s with db, minted := m.id :: s.minted }
  | .install files => do
    check (checkFiles files) []
    let db ← installSops s.db files
    return { s with db }

def jobs : LTS St Op where
  init s := s = {}
  step s op s' := s.exec op = .ok s'

/-- The steps one after the other. -/
def St.run (s : St) (ops : List Op) : Except (List Fault) St := ops.foldlM St.exec s

theorem run_runs : ∀ {ops : List Op} {s s' : St}, s.run ops = .ok s' → jobs.Run s ops s'
  | [], s, s', h => by
    cases h
    exact .nil s
  | op :: ops, s, s', h => by
    rw [St.run, List.foldlM_cons, ok_bind] at h
    obtain ⟨s₁, h₁, h₂⟩ := h
    exact .cons h₁ (run_runs h₂)

theorem run_append (s : St) (ops ops' : List Op) :
    s.run (ops ++ ops') = (s.run ops).bind fun s₁ => s₁.run ops' := List.foldlM_append

/-- A run that goes through goes as far as any step of it. -/
theorem run_take {ops : List Op} {s s' : St} (h : s.run ops = .ok s') (d : St) (n : Nat) :
    s.run (ops.take n) = .ok ((s.run (ops.take n)).toOption.getD d) := by
  rw [← List.take_append_drop n ops, run_append] at h
  cases hs : s.run (ops.take n) with
  | error faults =>
    rw [hs] at h
    cases h
  | ok s₁ => rfl

/-- The steps of a run that goes through, one after the other. -/
theorem run_step {ops : List Op} {s s' : St} (h : s.run ops = .ok s') (d : St) {n : Nat}
    (hn : n < ops.length) :
    ((s.run (ops.take n)).toOption.getD d).exec ops[n] =
      .ok ((s.run (ops.take (n + 1))).toOption.getD d) := by
  have hone : s.run (ops.take (n + 1)) = (s.run (ops.take n)).bind fun s₁ => s₁.run [ops[n]] := by
    rw [List.take_succ_eq_append_getElem hn, run_append]
  have hsingle : ∀ s₁ : St, s₁.run [ops[n]] = s₁.exec ops[n] := fun s₁ => bind_pure _
  rw [run_take h d n] at hone
  exact (hsingle _).symm.trans (hone.symm.trans (run_take h d (n + 1)))

/-! ## What the database holds -/

/-- The pending action, under its key, of the job and its SOP. -/
def Db.Holds (db : Db) (id sop : String) (x : String × PendingAction) : Prop :=
  ∃ row, db.jobs.find id = some row ∧ row.sop = sop ∧ x ∈ row.pending.rows

/-- Nothing is pending that was not. -/
def Db.NoNew (db db' : Db) : Prop :=
  ∀ id sop x, db'.Holds id sop x → db.Holds id sop x

/-- What is pending and was not is one action, under the id. -/
def Db.OneNew (db db' : Db) (actionId : String) : Prop :=
  ∃ id₀ x₀, x₀.2.actionId = actionId ∧
    ∀ id sop x, db'.Holds id sop x → db.Holds id sop x ∨ id = id₀ ∧ x = x₀

/-- What was pending still is, but for what `gone` says. -/
def Db.Loses (db db' : Db) (gone : String → String × PendingAction → Prop) : Prop :=
  ∀ id sop x, db.Holds id sop x → db'.Holds id sop x ∨ gone id x

section Effects

variable {db db' : Db} {row row' : Job} {r : EventRow} {id sop : String}
  {x : String × PendingAction}

theorem holds_jobs (h : db'.jobs = db.jobs) : db'.Holds id sop x ↔ db.Holds id sop x := by
  unfold Db.Holds
  rw [h]

theorem find_wrote (hid : row'.id = row.id) :
    (db.wrote row' r).jobs.find id = if id = row.id then some row' else db.jobs.find id := by
  rw [← hid]
  exact Table.find_put db.jobs row' id

theorem holds_wrote (row row' : Job) (hid : row'.id = row.id) (hsop : row'.sop = row.sop) :
    (db.wrote row' r).Holds id sop x ↔
      if id = row.id then row.sop = sop ∧ x ∈ row'.pending.rows else db.Holds id sop x := by
  unfold Db.Holds
  rw [find_wrote hid]
  split
  · rename_i he
    constructor
    · rintro ⟨row₁, he₁, rfl, hx⟩
      cases he₁
      exact ⟨hsop.symm, hx⟩
    · rintro ⟨rfl, hx⟩
      exact ⟨row', rfl, hsop, hx⟩
  · rfl

theorem holds_row (hrow : db.jobs.find row.id = some row) :
    db.Holds row.id sop x ↔ row.sop = sop ∧ x ∈ row.pending.rows := by
  unfold Db.Holds
  rw [hrow]
  simp

/-- An action taken where none is. -/
theorem take_effect {track : String} (action : PendingAction) (r : EventRow)
    (hrow : db.jobs.find row.id = some row) (hfree : row.pending.truthy track = false) :
    db.OneNew (db.wrote (row.take track action) r) action.actionId ∧
      db.Loses (db.wrote (row.take track action) r) fun _ _ => False := by
  have hnone : ∀ y ∈ row.pending.rows, y.1 ≠ track := by
    intro y hy he
    have := Table.mem_find hy
    rw [he] at this
    simp [Entries.truthy, Entries.get, this] at hfree
  constructor
  · refine ⟨row.id, (track, action), rfl, fun id sop x hx => ?_⟩
    rw [holds_wrote row (row.take track action) rfl rfl] at hx
    split at hx
    · rename_i hid
      subst hid
      rcases Table.mem_put.1 hx.2 with rfl | ⟨hold, -⟩
      · exact .inr ⟨rfl, rfl⟩
      · exact .inl ((holds_row hrow).2 ⟨hx.1, hold⟩)
    · exact .inl hx
  · intro id sop x hx
    left
    rw [holds_wrote row (row.take track action) rfl rfl]
    split
    · rename_i hid
      subst hid
      obtain ⟨hsop, hmem⟩ := (holds_row hrow).1 hx
      exact ⟨hsop, Table.mem_put.2 (.inr ⟨hmem, hnone x hmem⟩)⟩
    · exact hx

/-- Actions taken away. -/
theorem drop_effect (row row' : Job) (hid : row'.id = row.id) (hsop : row'.sop = row.sop)
    (hrow : db.jobs.find row.id = some row) {gone : String × PendingAction → Prop}
    (hsub : ∀ y ∈ row'.pending.rows, y ∈ row.pending.rows)
    (hgone : ∀ y ∈ row.pending.rows, y ∈ row'.pending.rows ∨ gone y) :
    db.NoNew (db.wrote row' r) ∧ db.Loses (db.wrote row' r) fun id y => id = row.id ∧ gone y := by
  constructor
  · intro id sop x hx
    rw [holds_wrote row row' hid hsop] at hx
    split at hx
    · rename_i he
      subst he
      exact (holds_row hrow).2 ⟨hx.1, hsub x hx.2⟩
    · exact hx
  · intro id sop x hx
    rw [holds_wrote row row' hid hsop]
    split
    · rename_i he
      subst he
      obtain ⟨hs, hmem⟩ := (holds_row hrow).1 hx
      rcases hgone x hmem with h | h
      · exact .inl ⟨hs, h⟩
      · exact .inr ⟨rfl, h⟩
    · exact .inl hx

theorem mem_eraseAll : ∀ {keys : List String} {t : Entries PendingAction},
    x ∈ (keys.foldl Table.erase t).rows ↔ x ∈ t.rows ∧ x.1 ∉ keys
  | [], t => by simp
  | k :: ks, t => by
    rw [List.foldl_cons, mem_eraseAll, Table.mem_erase]
    simp only [List.mem_cons, not_or, and_assoc]

/-- The tracks an observation of the step moves. -/
def Job.moves (row : Job) (event : Step) : List String :=
  (applyObservation event row.positions).changed row.positions

theorem observe_effect (event : Step) (now : String) (hrow : db.jobs.find row.id = some row) :
    db.NoNew (db.wrote (row.observed event now) r) ∧
      db.Loses (db.wrote (row.observed event now) r) fun id y =>
        id = row.id ∧ y.1 ∈ row.moves event := by
  refine drop_effect row (row.observed event now) rfl rfl hrow
    (fun y hy => (mem_eraseAll.1 hy).1) fun y hy => ?_
  by_cases hm : y.1 ∈ row.moves event
  · exact .inr hm
  · exact .inl (mem_eraseAll.2 ⟨hy, hm⟩)

theorem reconcile_effect {track : String} {action : PendingAction}
    (hrow : db.jobs.find row.id = some row) (hmem : (track, action) ∈ row.pending.rows) :
    db.NoNew (db.wrote { row with pending := row.pending.erase track } r) ∧
      db.Loses (db.wrote { row with pending := row.pending.erase track } r) fun id y =>
        id = row.id ∧ y = (track, action) := by
  refine drop_effect row { row with pending := row.pending.erase track } rfl rfl hrow
    (fun y hy => (Table.mem_erase.1 hy).1) fun y hy => ?_
  by_cases hk : y.1 = track
  · exact .inr (Table.ext_key hy hmem hk)
  · exact .inl (Table.mem_erase.2 ⟨hy, hk⟩)

theorem definitionFor_congr {s : Sop} (hd : db'.definitions = db.definitions)
    (hsop : row'.sop = row.sop) (hversion : row'.sopVersion = row.sopVersion)
    (h : db.definitionFor row = .ok s) : db'.definitionFor row' = .ok s := by
  rw [Db.definitionFor, ok_present] at h ⊢
  rw [hd, hsop, hversion]
  exact h

end Effects

/-! ## What an install leaves of a job -/

section Install

variable {db db' : Db}

/-- Every job stays, with its pending actions, under the version it had or the one of a file. -/
structure Migrated (files : List SopFile) (db db' : Db) : Prop where
  forth : ∀ id row, db.jobs.find id = some row → ∃ row', db'.jobs.find id = some row' ∧
    row'.sop = row.sop ∧ row'.pending = row.pending ∧
    ∀ sop, db.definitionFor row = .ok sop → ∃ sop', db'.definitionFor row' = .ok sop' ∧
      (sop' = sop ∨ ∃ c ∈ files, c.sop = row.sop ∧ sop' = c.definition)
  back : ∀ id row', db'.jobs.find id = some row' → ∃ row, db.jobs.find id = some row
  definitions : ∀ d ∈ db'.definitions, d ∈ db.definitions ∨ d.version = d.definition.version
  events : db'.events = db.events
  receipts : db'.receipts = db.receipts

theorem migrateRow_keeps (c : SopFile) (renames : List Rename) (j : Job) :
    (c.migrateRow renames j).sop = j.sop ∧ (c.migrateRow renames j).pending = j.pending ∧
      (c.migrateRow renames j).sopVersion =
        if j.sop = c.sop then c.definition.version else j.sopVersion := by
  obtain ⟨-, hsop, -, hpending⟩ := SopFile.migrate_fold renames j
  have hversion : (renames.foldl (fun j r => r.apply j) j).sopVersion = j.sopVersion := by
    clear hsop hpending
    induction renames generalizing j with
    | nil => rfl
    | cons r rs ih => exact ih (r.apply j)
  unfold SopFile.migrateRow SopFile.migrate
  by_cases hs : j.sop = c.sop
  · rw [if_pos (congrArg tableOf hs), if_pos hs, if_pos hs]
    exact ⟨hsop, hpending, rfl⟩
  · rw [if_neg hs, if_neg hs]
    split
    · exact ⟨hsop, hpending, hversion⟩
    · exact ⟨rfl, rfl, rfl⟩

theorem installSop_migrated {c : SopFile} (h : installSop db c = .ok db') :
    Migrated [c] db db' := by
  rcases installSop_ok h with ⟨-, rfl⟩ | ⟨renames, hnone, -, hjobs, hdefs, hevents, hreceipts, -⟩
  · exact ⟨fun id row hrow => ⟨row, hrow, rfl, rfl, fun sop hsop => ⟨sop, hsop, .inl rfl⟩⟩,
      fun id row' hrow' => ⟨row', hrow'⟩, fun d hd => .inl hd, rfl, rfl⟩
  · refine ⟨fun id row hrow => ?_, fun id row' hrow' => ?_, fun d hd => ?_, hevents, hreceipts⟩
    · obtain ⟨hsop, hpending, hversion⟩ := migrateRow_keeps c renames row
      refine ⟨_, by rw [hjobs, hrow]; rfl, hsop, hpending, fun sop hdef => ?_⟩
      rw [Db.definitionFor, ok_present] at hdef
      by_cases hs : row.sop = c.sop
      · refine ⟨c.definition, ?_, .inr ⟨c, List.mem_singleton_self _, hs.symm, rfl⟩⟩
        rw [if_pos hs] at hversion
        rw [Db.definitionFor, ok_present, hdefs, List.find?_append, hsop, hversion, hs]
        rw [Db.installedAs] at hnone
        rw [hnone]
        simp
      · refine ⟨sop, ?_, .inl rfl⟩
        rw [if_neg hs] at hversion
        rw [Db.definitionFor, ok_present, hdefs, List.find?_append, hsop, hversion,
          Option.map_or, hdef]
        rfl
    · rw [hjobs] at hrow'
      obtain ⟨row, hrow, -⟩ := Option.map_eq_some_iff.1 hrow'
      exact ⟨row, hrow⟩
    · rw [hdefs] at hd
      rcases List.mem_append.1 hd with hd | hd
      · exact .inl hd
      · cases List.mem_singleton.1 hd
        exact .inr rfl

theorem installSops_migrated : ∀ {files : List SopFile} {db db' : Db},
    installSops db files = .ok db' → Migrated files db db'
  | [], db, db', h => by
    cases h
    exact ⟨fun id row hrow => ⟨row, hrow, rfl, rfl, fun sop hsop => ⟨sop, hsop, .inl rfl⟩⟩,
      fun id row' hrow' => ⟨row', hrow'⟩, fun d hd => .inl hd, rfl, rfl⟩
  | c :: cs, db, db', h => by
    rw [installSops, List.foldlM_cons, ok_bind] at h
    obtain ⟨db₁, h₁, h₂⟩ := h
    have hc := installSop_migrated h₁
    have hcs := installSops_migrated h₂
    refine ⟨fun id row hrow => ?_, fun id row' hrow' => ?_, fun d hd => ?_,
      hcs.events.trans hc.events, hcs.receipts.trans hc.receipts⟩
    · obtain ⟨row₁, hrow₁, hsop₁, hpending₁, hdef₁⟩ := hc.forth id row hrow
      obtain ⟨row', hrow', hsop', hpending', hdef'⟩ := hcs.forth id row₁ hrow₁
      refine ⟨row', hrow', hsop'.trans hsop₁, hpending'.trans hpending₁, fun sop hdef => ?_⟩
      obtain ⟨sop₁, hd₁, hor₁⟩ := hdef₁ sop hdef
      obtain ⟨sop', hd', hor'⟩ := hdef' sop₁ hd₁
      refine ⟨sop', hd', ?_⟩
      rcases hor' with rfl | ⟨c', hc', hs', rfl⟩
      · rcases hor₁ with rfl | ⟨c', hc', hs', rfl⟩
        · exact .inl rfl
        · cases List.mem_singleton.1 hc'
          exact .inr ⟨c, List.mem_cons_self, hs', rfl⟩
      · exact .inr ⟨c', List.mem_cons_of_mem _ hc', hs'.trans hsop₁, rfl⟩
    · obtain ⟨row₁, hrow₁⟩ := hcs.back id row' hrow'
      exact hc.back id row₁ hrow₁
    · rcases hcs.definitions d hd with hd | hd
      · exact hc.definitions d hd
      · exact .inr hd

theorem Migrated.holds {files : List SopFile} (h : Migrated files db db') {id sop : String}
    {x : String × PendingAction} : db'.Holds id sop x ↔ db.Holds id sop x := by
  constructor
  · rintro ⟨row', hrow', rfl, hx⟩
    obtain ⟨row, hrow⟩ := h.back id row' hrow'
    obtain ⟨row₁, hrow₁, hsop, hpending, -⟩ := h.forth id row hrow
    cases hrow'.symm.trans hrow₁
    exact ⟨row, hrow, hsop.symm, hpending ▸ hx⟩
  · rintro ⟨row, hrow, rfl, hx⟩
    obtain ⟨row', hrow', hsop, hpending, -⟩ := h.forth id row hrow
    exact ⟨row', hrow', hsop, hpending ▸ hx⟩

end Install

/-! ## What a step does -/

/-- The observation of the step moves the track on the job. -/
def Db.Moves (db : Db) (job step cause id track : String) : Prop :=
  ∃ row sop event, db.readJob job = .ok row ∧ db.definitionFor row = .ok sop ∧
    stepOf sop step = .ok event ∧
    db.events.find (row.id, cause, step, .observation) = none ∧ id = row.id ∧
    track ∈ row.moves event

/-- The actions that a step takes from the pending ones. -/
def St.gone (s : St) (op : Op) (id : String) (x : String × PendingAction) : Prop :=
  match op with
  | .finish f _ _ => s.db.Moves f.job f.step f.cause id x.1
  | .record job step .observation cause _ _ => s.db.Moves job step cause id x.1
  | .reconcile _ _ _ _ actionId _ => x.2.actionId = actionId
  | _ => False

/-- A step, but for the first transaction of `action_finish`, as the invariants see it. -/
structure Effect (s : St) (op : Op) (s' : St) : Prop where
  minted : s'.minted = s.minted ∨ ∃ m : Mint, s.mint m = .ok () ∧ s'.minted = m.id :: s.minted
  holds : s.db.NoNew s'.db ∨ ∃ m : Mint, s.mint m = .ok () ∧ s'.minted = m.id :: s.minted ∧
    s.db.OneNew s'.db m.id
  loses : s.db.Loses s'.db (s.gone op)
  forth : ∀ id row, s.db.jobs.find id = some row → ∃ row', s'.db.jobs.find id = some row' ∧
    row'.sop = row.sop ∧ ∀ sop, s.db.definitionFor row = .ok sop →
      ∃ sop', s'.db.definitionFor row' = .ok sop' ∧ (sop' = sop ∨
        ∃ files c, op = .install files ∧ c ∈ files ∧ c.sop = row.sop ∧ sop' = c.definition)
  back : ∀ id row', s'.db.jobs.find id = some row' → (∃ row, s.db.jobs.find id = some row) ∨
    id ∈ s'.minted ∧ ∃ sop, s'.db.definitionFor row' = .ok sop
  definitions : ∀ d ∈ s'.db.definitions, d ∈ s.db.definitions ∨ d.version = d.definition.version
  events : ∀ k, (s.db.events.find k).isSome → (s'.db.events.find k).isSome
  receipts : s'.db.receipts = s.db.receipts
  finishing : ∀ f ∈ s'.finishing, f ∈ s.finishing
  made : ∀ c ∈ s'.made, c ∈ s.made ∨ c.actionId ∈ s'.minted
  closed : ∀ a ∈ s'.closed, a ∈ s.closed ∨
    (∃ f ∈ s.finishing, a = uuid f.actionId ∧ ∃ verified m, op = .finish f verified m) ∨
    (∃ id sop x, s.db.Holds id sop x ∧ x.2.actionId = a) ∧
      ∃ ps job step cause read, op = .reconcile ps job step cause a read

section Step

variable {s s' : St} {op : Op} {db' : Db} {row row' : Job} {r : EventRow} {m : Mint}

theorem mint_ok (h : s.mint m = .ok ()) :
    isUuid m.id = true ∧ uuid m.id = m.id ∧ m.id ∉ s.minted := by
  rw [St.mint, ok_check] at h
  simpa [and_assoc] using h

/-- A job's row and an event row written, the ids of the job and its SOP as they were. -/
theorem wrote_forth (row row' : Job) (hid : row'.id = row.id) (hsop : row'.sop = row.sop)
    (hversion : row'.sopVersion = row.sopVersion) (hrow : s.db.jobs.find row.id = some row) :
    (∀ id row₁, s.db.jobs.find id = some row₁ →
      ∃ row₂, (s.db.wrote row' r).jobs.find id = some row₂ ∧ row₂.sop = row₁.sop ∧
        ∀ sop, s.db.definitionFor row₁ = .ok sop →
          (s.db.wrote row' r).definitionFor row₂ = .ok sop) ∧
      (∀ id row₂, (s.db.wrote row' r).jobs.find id = some row₂ →
        ∃ row₁, s.db.jobs.find id = some row₁) ∧
      ∀ k, (s.db.events.find k).isSome → ((s.db.wrote row' r).events.find k).isSome := by
  refine ⟨fun id row₁ h₁ => ?_, fun id row₂ h₂ => ?_, fun k hk => Table.find_put_isSome r hk⟩
  · rw [find_wrote hid]
    split
    · rename_i he
      subst he
      cases hrow.symm.trans h₁
      exact ⟨row', rfl, hsop, fun sop hdef => definitionFor_congr rfl hsop hversion hdef⟩
    · exact ⟨row₁, h₁, rfl, fun sop hdef => definitionFor_congr rfl rfl rfl hdef⟩
  · rw [find_wrote hid] at h₂
    split at h₂
    · rename_i he
      exact ⟨row, he ▸ hrow⟩
    · exact ⟨row₂, h₂⟩

/-- The database as it was, or one row and one event written. -/
structure Writes (s : St) (op : Op) (db' : Db) : Prop where
  loses : s.db.Loses db' (s.gone op)
  forth : ∀ id row, s.db.jobs.find id = some row → ∃ row', db'.jobs.find id = some row' ∧
    row'.sop = row.sop ∧ ∀ sop, s.db.definitionFor row = .ok sop → db'.definitionFor row' = .ok sop
  back : ∀ id row', db'.jobs.find id = some row' → ∃ row, s.db.jobs.find id = some row
  definitions : db'.definitions = s.db.definitions
  events : ∀ k, (s.db.events.find k).isSome → (db'.events.find k).isSome
  receipts : db'.receipts = s.db.receipts

theorem Writes.same : Writes s op s.db :=
  ⟨fun _ _ _ h => .inl h, fun _ row h => ⟨row, h, rfl, fun _ hdef => hdef⟩,
    fun _ row h => ⟨row, h⟩, rfl, fun _ h => h, rfl⟩

theorem Writes.wrote (row row' : Job) (hid : row'.id = row.id) (hsop : row'.sop = row.sop)
    (hversion : row'.sopVersion = row.sopVersion) (hrow : s.db.jobs.find row.id = some row)
    (hloses : s.db.Loses (s.db.wrote row' r) (s.gone op)) : Writes s op (s.db.wrote row' r) := by
  obtain ⟨hforth, hback, hevents⟩ := wrote_forth (s := s) (r := r) row row' hid hsop hversion hrow
  exact ⟨hloses, hforth, hback, rfl, hevents, rfl⟩

/-- What recording an observation does. -/
theorem observation_writes (op : Op) {job step cause : String} {verified : Except (List Fault) Bool}
    {rec : Recorded} (h : jobRecord s.db job step .observation cause verified m = .ok (db', rec))
    (hgone : ∀ id x, s.db.Moves job step cause id x.1 → s.gone op id x) :
    s.db.NoNew db' ∧ Writes s op db' := by
  obtain ⟨row, sop, event, hrow, hsop, hevent, hrest⟩ := jobRecord_ok h
  obtain ⟨hfind, hid⟩ := Db.readJob_ok hrow
  rw [← hid] at hfind
  rcases hrest with ⟨-, rfl⟩ | ⟨hnone, -, hobserve⟩
  · exact ⟨fun _ _ _ hx => hx, Writes.same⟩
  · obtain ⟨-, -, rfl⟩ := observe_ok.1 hobserve
    obtain ⟨hnew, hloses⟩ := observe_effect event m.now hfind
    refine ⟨hnew, Writes.wrote row (row.observed event m.now) rfl rfl rfl hfind fun id sop' x hx => ?_⟩
    rcases hloses id sop' x hx with h | ⟨he, hm⟩
    · exact .inl h
    · exact .inr (hgone id x ⟨row, sop, event, hrow, hsop, hevent, hnone, he, hm⟩)

/-- A step that draws an id and puts nothing under it. -/
theorem Writes.effect (hw : Writes s op s'.db) (hnew : s.db.NoNew s'.db)
    (hminted : s'.minted = s.minted ∨ ∃ m : Mint, s.mint m = .ok () ∧ s'.minted = m.id :: s.minted)
    (hfinishing : ∀ f ∈ s'.finishing, f ∈ s.finishing) (hmade : s'.made = s.made)
    (hclosed : ∀ a ∈ s'.closed, a ∈ s.closed ∨
      (∃ f ∈ s.finishing, a = uuid f.actionId ∧ ∃ verified m, op = .finish f verified m) ∨
      (∃ id sop x, s.db.Holds id sop x ∧ x.2.actionId = a) ∧
        ∃ ps job step cause read, op = .reconcile ps job step cause a read) : Effect s op s' where
  minted := hminted
  holds := .inl hnew
  loses := hw.loses
  forth id row hrow := by
    obtain ⟨row', hrow', hsop, hdef⟩ := hw.forth id row hrow
    exact ⟨row', hrow', hsop, fun sop h => ⟨sop, hdef sop h, .inl rfl⟩⟩
  back id row' hrow' := .inl (hw.back id row' hrow')
  definitions d hd := .inl (hw.definitions ▸ hd)
  events := hw.events
  receipts := hw.receipts
  finishing := hfinishing
  made c hc := .inl (hmade ▸ hc)
  closed := hclosed

/-- A step that puts an action under the id it draws. -/
theorem Writes.claim (hw : Writes s op s'.db) (hmint : s.mint m = .ok ())
    (hminted : s'.minted = m.id :: s.minted) (hnew : s.db.OneNew s'.db m.id)
    (hfinishing : s'.finishing = s.finishing)
    (hmade : ∀ c ∈ s'.made, c ∈ s.made ∨ c.actionId = m.id)
    (hclosed : s'.closed = s.closed) : Effect s op s' where
  minted := .inr ⟨m, hmint, hminted⟩
  holds := .inr ⟨m, hmint, hminted, hnew⟩
  loses := hw.loses
  forth id row hrow := by
    obtain ⟨row', hrow', hsop, hdef⟩ := hw.forth id row hrow
    exact ⟨row', hrow', hsop, fun sop h => ⟨sop, hdef sop h, .inl rfl⟩⟩
  back id row' hrow' := .inl (hw.back id row' hrow')
  definitions d hd := .inl (hw.definitions ▸ hd)
  events := hw.events
  receipts := hw.receipts
  finishing f hf := hfinishing ▸ hf
  made c hc := (hmade c hc).imp_right fun h => by rw [h, hminted]; exact List.mem_cons_self
  closed a ha := .inl (hclosed ▸ ha)

theorem reserve_writes (op : Op) {sop : Sop} {event : Step} {cause : String} {rec : Recorded}
    (hrow : s.db.jobs.find row.id = some row)
    (h : reserve s.db row sop event cause m = .ok (db', rec)) :
    s.db.OneNew db' m.id ∧ Writes s op db' := by
  obtain ⟨hfree, -, rfl⟩ := reserve_ok h
  obtain ⟨hnew, hloses⟩ := take_effect ⟨event.id, m.id, cause, .reserved, m.now, none⟩
    { job := row.id, event := event.id, kind := .intent, sourceId := cause } hrow hfree
  refine ⟨hnew, Writes.wrote row _ rfl rfl rfl hrow fun id sop x hx => ?_⟩
  exact (hloses id sop x hx).imp_right False.elim

/-- The definition a new job is opened with is there under the version the job names. -/
theorem latestSop_installed {db : Db} {sop : String} {d : Sop} (h : db.latestSop sop = .ok d)
    (hversions : ∀ d ∈ db.definitions, d.version = d.definition.version) (hs : row.sop = sop)
    (hv : row.sopVersion = d.version) : ∃ d', db.definitionFor row = .ok d' := by
  rw [Db.latestSop, ok_present] at h
  obtain ⟨e, he, rfl⟩ := Option.map_eq_some_iff.1 h
  have hmem := List.mem_reverse.1 (List.mem_of_find?_eq_some he)
  have hsop : e.sop = sop := by simpa using List.find?_some he
  have hsome : (db.definitions.find? fun d => d.sop = row.sop ∧ d.version = row.sopVersion).isSome := by
    rw [List.find?_isSome]
    exact ⟨e, hmem, by simp [hsop, hs, hv, hversions e hmem]⟩
  obtain ⟨e', he'⟩ := Option.isSome_iff_exists.1 hsome
  exact ⟨e'.definition, by rw [Db.definitionFor, ok_present, he']; rfl⟩

theorem open_effect {current : Option TurnContext} {sop unit cause : String}
    {references : List String} (hfresh : s.db.jobs.find m.id = none) (hmint : s.mint m = .ok ())
    (hversions : ∀ d ∈ s.db.definitions, d.version = d.definition.version)
    (h : jobOpen s.db current sop unit references cause m = .ok db') :
    Effect s (.opens current sop unit references cause m)
      { s with db := db', minted := m.id :: s.minted } := by
  obtain ⟨d, row, hd, hid, hsop, hversion, hpending, rfl⟩ := jobOpen_ok h
  have hfind : ∀ id, (s.db.putJob row).jobs.find id =
      if id = m.id then some row else s.db.jobs.find id := by
    intro id
    rw [← hid]
    exact Table.find_put s.db.jobs row id
  have hold : ∀ id row', s.db.jobs.find id = some row' →
      (s.db.putJob row).jobs.find id = some row' := by
    intro id row' hrow'
    rw [hfind, if_neg, hrow']
    rintro rfl
    rw [hfresh] at hrow'
    cases hrow'
  refine ⟨.inr ⟨m, hmint, rfl⟩, .inl ?_, ?_, ?_, ?_, fun d hd => .inl hd, fun k hk => hk, rfl,
    fun f hf => hf, fun c hc => .inl hc, fun a ha => .inl ha⟩
  · rintro id sop' x ⟨row', hrow', hs, hx⟩
    dsimp only at hrow'
    rw [hfind] at hrow'
    split at hrow'
    · cases hrow'
      rw [hpending] at hx
      cases hx
    · exact ⟨row', hrow', hs, hx⟩
  · rintro id sop' x ⟨row', hrow', hs, hx⟩
    exact .inl ⟨row', hold id row' hrow', hs, hx⟩
  · intro id row' hrow'
    exact ⟨row', hold id row' hrow', rfl, fun sop' hdef =>
      ⟨sop', definitionFor_congr rfl rfl rfl hdef, .inl rfl⟩⟩
  · intro id row' hrow'
    dsimp only at hrow'
    rw [hfind] at hrow'
    split at hrow'
    · rename_i he
      cases hrow'
      obtain ⟨d', hd'⟩ := latestSop_installed hd hversions hsop hversion
      exact .inr ⟨he ▸ List.mem_cons_self, d', definitionFor_congr rfl rfl rfl hd'⟩
    · exact .inl ⟨row', hrow'⟩

/-- What a step does, the first transaction of `action_finish` apart. -/
theorem exec_effect (h : s.exec op = .ok s') (hop : ∀ f, op ≠ .receipt f)
    (hrows : ∀ id row, s.db.jobs.find id = some row → id ∈ s.minted)
    (hversions : ∀ d ∈ s.db.definitions, d.version = d.definition.version) : Effect s op s' := by
  cases op with
  | opens current sop unit references cause m =>
    simp only [St.exec, ok_bind] at h
    obtain ⟨⟨⟩, hmint, db', hopen, h⟩ := h
    cases h
    refine open_effect ?_ hmint hversions hopen
    cases hfind : s.db.jobs.find m.id with
    | none => rfl
    | some row => exact absurd (hrows m.id row hfind) (mint_ok hmint).2.2
  | collect cause channel unit =>
    simp only [St.exec, collect, ok_bind] at h
    obtain ⟨db', ⟨-, -, hdb⟩, h⟩ := h
    cases h
    have hw : Writes s (.collect cause channel unit) db' := by
      cases hdb
      split
      · exact Writes.same
      · exact ⟨fun id sop x hx => .inl hx,
          fun id row hrow => ⟨row, hrow, rfl, fun sop hdef => definitionFor_congr rfl rfl rfl hdef⟩,
          fun id row' hrow' => ⟨row', hrow'⟩, rfl, fun k hk => hk, rfl⟩
    have hnew : s.db.NoNew db' := by
      cases hdb
      split <;> exact fun id sop x hx => hx
    exact hw.effect hnew (.inl rfl) (fun f hf => hf) rfl fun a ha => .inl ha
  | begin ps job step cause operation owner m =>
    simp only [St.exec, ok_bind] at h
    obtain ⟨⟨⟩, hmint, ⟨db', claim⟩, hbegin, h⟩ := h
    cases h
    obtain ⟨row, sop, event, -, -, hrow, -, -, -, hfree, -, rfl, rfl⟩ := actionBegin_ok hbegin
    obtain ⟨hfind, hid⟩ := Db.readJob_ok hrow
    rw [← hid] at hfind
    obtain ⟨hnew, hloses⟩ := take_effect ⟨step, m.id, cause, .claimed, m.now, some owner⟩
      { job := row.id, event := step, kind := .intent, sourceId := cause } hfind hfree
    refine Writes.claim (Writes.wrote row _ rfl rfl rfl hfind fun id sop' x hx =>
      (hloses id sop' x hx).imp_right False.elim) hmint rfl hnew rfl (fun c hc => ?_) rfl
    rcases List.mem_cons.1 hc with rfl | hc
    · exact .inr rfl
    · exact .inl hc
  | receipt f => exact absurd rfl (hop f)
  | finish f verified m =>
    simp only [St.exec, ok_bind, ok_check] at h
    obtain ⟨-, hf, ⟨⟩, hmint, ⟨db', rec⟩, hrec, h⟩ := h
    cases h
    obtain ⟨hnew, hw⟩ := observation_writes (.finish f verified m) hrec fun id x hm => hm
    refine hw.effect hnew (.inr ⟨m, hmint, rfl⟩) (fun g hg => List.mem_of_mem_erase hg) rfl
      fun a ha => ?_
    rcases List.mem_cons.1 ha with rfl | ha
    · exact .inr (.inl ⟨f, by simpa using hf, rfl, verified, m, rfl⟩)
    · exact .inl ha
  | abandon f =>
    cases h
    refine Writes.effect Writes.same (fun _ _ _ hx => hx) (.inl rfl) (fun g hg => ?_) rfl
      fun a ha => .inl ha
    exact List.mem_of_mem_erase hg
  | reconcile ps job step cause actionId read =>
    simp only [St.exec, ok_bind] at h
    obtain ⟨db', hrec, h⟩ := h
    cases h
    obtain ⟨row, track, action, hrow, hfound, -, rfl⟩ := actionReconcileAbsent_ok hrec
    obtain ⟨hfind, hid⟩ := Db.readJob_ok hrow
    rw [← hid] at hfind
    have hmem : (track, action) ∈ row.pending.rows :=
      Job.mem_actions.1 (List.mem_of_find?_eq_some hfound)
    have haction : action.actionId = actionId := by simpa using List.find?_some hfound
    obtain ⟨hnew, hloses⟩ := reconcile_effect
      (r := ⟨row.id, step, .reconciledAbsent, cause, some read.evidenceId, false⟩) hfind hmem
    refine Writes.effect (Writes.wrote row _ rfl rfl rfl hfind fun id sop x hx => ?_) hnew
      (.inl rfl) (fun f hf => hf) rfl fun a ha => ?_
    · rcases hloses id sop x hx with hx | ⟨-, rfl⟩
      · exact .inl hx
      · exact .inr haction
    · rcases List.mem_cons.1 ha with rfl | ha
      · exact .inr (.inr ⟨⟨row.id, row.sop, _, (holds_row hfind).2 ⟨rfl, hmem⟩, haction⟩,
          ps, job, step, cause, read, rfl⟩)
      · exact .inl ha
  | record job step kind cause verified m =>
    simp only [St.exec, ok_bind] at h
    obtain ⟨⟨⟩, hmint, ⟨db', rec⟩, hrec, h⟩ := h
    cases h
    cases kind with
    | observation =>
      obtain ⟨hnew, hw⟩ := observation_writes
        (.record job step .observation cause verified m) hrec fun id x hm => hm
      exact hw.effect hnew (.inr ⟨m, hmint, rfl⟩) (fun f hf => hf) rfl fun a ha => .inl ha
    | intent =>
      obtain ⟨row, sop, event, hrow, -, -, hrest⟩ := jobRecord_ok hrec
      obtain ⟨hfind, hid⟩ := Db.readJob_ok hrow
      rw [← hid] at hfind
      rcases hrest with ⟨-, rfl⟩ | ⟨-, hreserve⟩
      · refine Writes.effect Writes.same (fun _ _ _ hx => hx) (.inr ⟨m, hmint, rfl⟩)
          (fun f hf => hf) rfl fun a ha => .inl ha
      · obtain ⟨hnew, hw⟩ := reserve_writes (.record job step .intent cause verified m) hfind hreserve
        exact hw.claim hmint rfl hnew rfl (fun c hc => .inl hc) rfl
  | install files =>
    simp only [St.exec, ok_bind, ok_check] at h
    obtain ⟨-, -, db', hinstall, h⟩ := h
    cases h
    have hm := installSops_migrated hinstall
    refine ⟨.inl rfl, .inl fun id sop x hx => hm.holds.1 hx, fun id sop x hx => .inl (hm.holds.2 hx),
      fun id row hrow => ?_, fun id row' hrow' => .inl (hm.back id row' hrow'), hm.definitions,
      fun k hk => ?_, hm.receipts, fun f hf => hf, fun c hc => .inl hc, fun a ha => .inl ha⟩
    · obtain ⟨row', hrow', hsop, -, hdef⟩ := hm.forth id row hrow
      refine ⟨row', hrow', hsop, fun sop h => ?_⟩
      obtain ⟨sop', hsop', hor⟩ := hdef sop h
      refine ⟨sop', hsop', hor.imp_right ?_⟩
      rintro ⟨c, hnew⟩
      exact ⟨files, c, rfl, hnew⟩
    · dsimp only
      rw [hm.events]
      exact hk

/-- What the first transaction of `action_finish` does: there is a receipt of the action, for
the job and step of the call, that was there or is for an action which is pending. -/
theorem receipt_effect {f : Finish} (h : s.exec (.receipt f) = .ok s') :
    ∃ r row, s.db.jobs.find (uuid f.job) = some row ∧ isUuid f.job = true ∧
      isSourceId f.cause = true ∧
      (r ∈ s.db.receipts.rows ∧ s'.db = s.db ∧ r.job = row.id ∧ r.step = f.step ∨
        ∃ x ∈ row.pending.rows, x.2.actionId = f.actionId ∧ x.2.step = f.step ∧
          x.2.state = .claimed ∧ r = ⟨uuid f.actionId, row.id, row.sop, f.step, f.cause⟩ ∧
          s'.db = s.db.receipted r) ∧
      r.actionId = uuid f.actionId ∧ s' = { s with db := s'.db, finishing := f :: s.finishing } := by
  simp only [St.exec, ok_bind] at h
  obtain ⟨db', hrec, h⟩ := h
  cases h
  obtain ⟨hjob, hcause, row, hrow, hcase⟩ := finishReceipt_ok hrec
  obtain ⟨hfind, -⟩ := Db.readJob_ok hrow
  rcases hcase with ⟨r, hr, hrjob, hrstep, -, rfl⟩ | ⟨track, action, hfound, hstep, hstate, rfl⟩
  · exact ⟨r, row, hfind, hjob, hcause, .inl ⟨Table.find_mem hr, rfl, hrjob, hrstep⟩,
      Table.find_key hr, rfl⟩
  · refine ⟨_, row, hfind, hjob, hcause, .inr ⟨(track, action), ?_, ?_, hstep, hstate, rfl, rfl⟩,
      rfl, rfl⟩
    · exact Job.mem_actions.1 (List.mem_of_find?_eq_some hfound)
    · simpa using List.find?_some hfound

theorem receipted_same (db : Db) (r : Receipt) :
    (db.receipted r).jobs = db.jobs ∧ (db.receipted r).definitions = db.definitions ∧
      (db.receipted r).events = db.events := by
  unfold Db.receipted
  split <;> exact ⟨rfl, rfl, rfl⟩

/-- The receipt of an action, whether it was there or is new. -/
theorem receipted_find (db : Db) (r : Receipt) :
    (∀ r' ∈ (db.receipted r).receipts.rows, r' ∈ db.receipts.rows ∨ r' = r) ∧
      (∀ r' ∈ db.receipts.rows, r' ∈ (db.receipted r).receipts.rows) ∧
      ∃ r' ∈ (db.receipted r).receipts.rows, r'.actionId = r.actionId := by
  unfold Db.receipted
  split
  · rename_i hsome
    obtain ⟨r', hr'⟩ := Option.isSome_iff_exists.1 hsome
    exact ⟨fun r' h => .inl h, fun r' h => h, r', Table.find_mem hr', Table.find_key hr'⟩
  · rename_i hnone
    rw [Option.not_isSome_iff_eq_none, Table.find_none] at hnone
    refine ⟨fun r' h => ?_, fun r' h => Table.mem_put.2 (.inr ⟨h, fun e => ?_⟩), r,
      Table.mem_put.2 (.inl rfl), rfl⟩
    · rcases Table.mem_put.1 h with rfl | ⟨h, -⟩
      · exact .inr rfl
      · exact .inl h
    · exact hnone (e ▸ List.mem_map_of_mem h)

end Step

/-! ## What holds over a run -/

structure Inv (s : St) : Prop where
  uuids : ∀ a ∈ s.minted, isUuid a = true ∧ uuid a = a
  versions : ∀ d ∈ s.db.definitions, d.version = d.definition.version
  jobs : ∀ id row, s.db.jobs.find id = some row →
    id ∈ s.minted ∧ ∃ sop, s.db.definitionFor row = .ok sop
  actions : ∀ id sop x, s.db.Holds id sop x → x.2.actionId ∈ s.minted
  single : ∀ id sop x id' sop' x', s.db.Holds id sop x → s.db.Holds id' sop' x' →
    x.2.actionId = x'.2.actionId → id = id' ∧ x = x'
  receipts : ∀ r ∈ s.db.receipts.rows, r.actionId ∈ s.minted ∧ isSourceId r.sourceId = true ∧
    ∀ id sop x, s.db.Holds id sop x → x.2.actionId = r.actionId →
      r.job = id ∧ r.sop = sop ∧ r.step = x.2.step
  finishing : ∀ f ∈ s.finishing, ∃ r ∈ s.db.receipts.rows,
    r.actionId = uuid f.actionId ∧ r.job = uuid f.job ∧ r.step = f.step
  made : ∀ c ∈ s.made, c.actionId ∈ s.minted
  closed : ∀ a ∈ s.closed, a ∈ s.minted

section Invariant

variable {s s' : St} {op : Op}

/-- What is held was held before, or is new under the id that was drawn, one action only. -/
theorem effect_new (hi : Inv s) (he : Effect s op s') :
    (∀ id sop x, s'.db.Holds id sop x →
      s.db.Holds id sop x ∨ x.2.actionId ∉ s.minted ∧ x.2.actionId ∈ s'.minted) ∧
      ∀ id sop x id' sop' x', s'.db.Holds id sop x → s'.db.Holds id' sop' x' →
        x.2.actionId ∉ s.minted → x'.2.actionId ∉ s.minted → id = id' ∧ x = x' := by
  have hno : ∀ {id sop x}, s.db.Holds id sop x → x.2.actionId ∉ s.minted → False :=
    fun hx hn => hn (hi.actions _ _ _ hx)
  rcases he.holds with hnew | ⟨m, hmint, hminted, id₀, x₀, hx₀, hone⟩
  · exact ⟨fun id sop x hx => .inl (hnew id sop x hx), fun id sop x id' sop' x' hx _ hn _ =>
      (hno (hnew id sop x hx) hn).elim⟩
  · refine ⟨fun id sop x hx => ?_, fun id sop x id' sop' x' hx hx' hn hn' => ?_⟩
    · rcases hone id sop x hx with hx | ⟨-, rfl⟩
      · exact .inl hx
      · rw [hx₀, hminted]
        exact .inr ⟨(mint_ok hmint).2.2, List.mem_cons_self⟩
    · rcases hone id sop x hx with hx | ⟨rfl, rfl⟩
      · exact (hno hx hn).elim
      · rcases hone id' sop' x' hx' with hx' | ⟨rfl, rfl⟩
        · exact (hno hx' hn').elim
        · exact ⟨rfl, rfl⟩

theorem inv_effect (hi : Inv s) (he : Effect s op s') : Inv s' := by
  have hsub : ∀ a ∈ s.minted, a ∈ s'.minted := by
    rcases he.minted with h | ⟨m, -, h⟩
    · rw [h]; exact fun a ha => ha
    · rw [h]; exact fun a ha => List.mem_cons_of_mem _ ha
  obtain ⟨hnew, huniq⟩ := effect_new hi he
  refine ⟨fun a ha => ?_, fun d hd => ?_, fun id row' hrow' => ?_, fun id sop x hx => ?_,
    fun id sop x id' sop' x' hx hx' heq => ?_, fun r hr => ?_, fun f hf => ?_, fun c hc => ?_,
    fun a ha => ?_⟩
  · rcases he.minted with h | ⟨m, hmint, h⟩
    · exact hi.uuids a (h ▸ ha)
    · rw [h] at ha
      rcases List.mem_cons.1 ha with rfl | ha
      · exact ⟨(mint_ok hmint).1, (mint_ok hmint).2.1⟩
      · exact hi.uuids a ha
  · exact (he.definitions d hd).elim (hi.versions d) id
  · rcases he.back id row' hrow' with ⟨row, hrow⟩ | hnew
    · obtain ⟨hid, sop, hsop⟩ := hi.jobs id row hrow
      obtain ⟨row₁, hrow₁, -, hdef⟩ := he.forth id row hrow
      cases hrow'.symm.trans hrow₁
      obtain ⟨sop', hsop', -⟩ := hdef sop hsop
      exact ⟨hsub id hid, sop', hsop'⟩
    · exact hnew
  · rcases hnew id sop x hx with hx | ⟨-, hx⟩
    · exact hsub _ (hi.actions id sop x hx)
    · exact hx
  · by_cases hold : x.2.actionId ∈ s.minted
    · rcases hnew id sop x hx with hx | ⟨hn, -⟩
      · rcases hnew id' sop' x' hx' with hx' | ⟨hn, -⟩
        · exact hi.single id sop x id' sop' x' hx hx' heq
        · exact absurd (heq ▸ hold) hn
      · exact absurd hold hn
    · exact huniq id sop x id' sop' x' hx hx' hold (heq ▸ hold)
  · rw [he.receipts] at hr
    obtain ⟨hminted, hsource, hall⟩ := hi.receipts r hr
    refine ⟨hsub _ hminted, hsource, fun id sop x hx heq => ?_⟩
    rcases hnew id sop x hx with hx | ⟨hn, -⟩
    · exact hall id sop x hx heq
    · exact absurd (heq ▸ hminted) hn
  · rw [he.receipts]
    exact hi.finishing f (he.finishing f hf)
  · exact (he.made c hc).elim (fun h => hsub _ (hi.made c h)) id
  · rcases he.closed a ha with h | ⟨f, hf, rfl, -⟩ | ⟨⟨id, sop, x, hx, rfl⟩, -⟩
    · exact hsub _ (hi.closed a h)
    · obtain ⟨r, hr, hid, -⟩ := hi.finishing f hf
      rw [← hid]
      exact hsub _ (hi.receipts r hr).1
    · exact hsub _ (hi.actions id sop x hx)

theorem inv_receipt {f : Finish} (hi : Inv s) (h : s.exec (.receipt f) = .ok s') : Inv s' := by
  obtain ⟨r, row, hrow, -, hcause, hcase, hrid, hs'⟩ := receipt_effect h
  have hid : row.id = uuid f.job := Table.find_key hrow
  -- the rows of the database are as they were, and the receipts grew at most by this one
  have hdb : s'.db.jobs = s.db.jobs ∧ s'.db.definitions = s.db.definitions := by
    rcases hcase with ⟨-, hdb, -⟩ | ⟨x, -, -, -, -, -, hdb⟩
    · rw [hdb]; exact ⟨rfl, rfl⟩
    · rw [hdb]; exact ⟨(receipted_same s.db r).1, (receipted_same s.db r).2.1⟩
  have hholds : ∀ {id sop x}, s'.db.Holds id sop x ↔ s.db.Holds id sop x := holds_jobs hdb.1
  have hreceipt : ∀ r' ∈ s'.db.receipts.rows, r'.actionId ∈ s.minted ∧
      isSourceId r'.sourceId = true ∧ ∀ id sop x, s.db.Holds id sop x →
        x.2.actionId = r'.actionId → r'.job = id ∧ r'.sop = sop ∧ r'.step = x.2.step := by
    intro r' hr'
    rcases hcase with ⟨-, hdb, -⟩ | ⟨x, hx, hxid, hxstep, -, hr, hdb⟩
    · exact hi.receipts r' (by rwa [hdb] at hr')
    · rw [hdb] at hr'
      rcases (receipted_find s.db r).1 r' hr' with hr' | rfl
      · exact hi.receipts r' hr'
      · have hheld : s.db.Holds row.id row.sop x := (holds_row (hid ▸ hrow)).2 ⟨rfl, hx⟩
        have hmint := hi.actions _ _ _ hheld
        have huuid : uuid f.actionId = x.2.actionId := by rw [← hxid, (hi.uuids _ hmint).2]
        rw [hr]
        refine ⟨by rw [huuid]; exact hmint, hcause, fun id sop y hy heq => ?_⟩
        obtain ⟨rfl, rfl⟩ := hi.single _ _ _ _ _ _ hheld hy (by rw [heq, ← huuid])
        obtain ⟨row₁, hrow₁, rfl, -⟩ := hy
        cases (hid ▸ hrow : s.db.jobs.find row.id = some row).symm.trans hrow₁
        exact ⟨rfl, rfl, hxstep.symm⟩
  have hkept : ∀ r' ∈ s.db.receipts.rows, r' ∈ s'.db.receipts.rows := by
    intro r' hr'
    rcases hcase with ⟨-, hdb, -⟩ | ⟨x, -, -, -, -, -, hdb⟩
    · rw [hdb]; exact hr'
    · rw [hdb]; exact (receipted_find s.db r).2.1 r' hr'
  have hminted : s'.minted = s.minted := by rw [hs']
  have hmade : s'.made = s.made := by rw [hs']
  have hclosed : s'.closed = s.closed := by rw [hs']
  have hfinishing : s'.finishing = f :: s.finishing := by rw [hs']
  refine ⟨by rw [hminted]; exact hi.uuids, by rw [hdb.2]; exact hi.versions, fun id row₁ h₁ => ?_,
    fun id sop x hx => ?_, fun id sop x id' sop' x' hx hx' => ?_, fun r' hr' => ?_, fun g hg => ?_,
    by rw [hmade, hminted]; exact hi.made, by rw [hclosed, hminted]; exact hi.closed⟩
  · rw [hdb.1] at h₁
    obtain ⟨h, sop, hdef⟩ := hi.jobs id row₁ h₁
    exact ⟨hminted ▸ h, sop, definitionFor_congr hdb.2 rfl rfl hdef⟩
  · rw [hminted]
    exact hi.actions id sop x (hholds.1 hx)
  · exact hi.single id sop x id' sop' x' (hholds.1 hx) (hholds.1 hx')
  · obtain ⟨h₁, h₂, h₃⟩ := hreceipt r' hr'
    exact ⟨hminted ▸ h₁, h₂, fun id sop x hx => h₃ id sop x (hholds.1 hx)⟩
  · rw [hfinishing] at hg
    rcases List.mem_cons.1 hg with rfl | hg
    · rcases hcase with ⟨hr, hdb, hrjob, hrstep⟩ | ⟨x, hx, hxid, hxstep, -, hr, hdb⟩
      · exact ⟨r, hkept r hr, hrid, hrjob.trans hid, hrstep⟩
      · -- the receipt there is of the action, whichever call it was written for
        obtain ⟨r', hr', hr'id⟩ := (receipted_find s.db r).2.2
        have hr's : r' ∈ s'.db.receipts.rows := hdb ▸ hr'
        have hheld : s.db.Holds row.id row.sop x := (holds_row (hid ▸ hrow)).2 ⟨rfl, hx⟩
        have huuid : uuid g.actionId = x.2.actionId := by
          rw [← hxid, (hi.uuids _ (hi.actions _ _ _ hheld)).2]
        have := (hreceipt r' hr's).2.2 _ _ _ hheld (by rw [hr'id, hrid, huuid])
        exact ⟨r', hr's, hr'id.trans hrid, this.1.trans hid, this.2.2.trans hxstep⟩
    · obtain ⟨r', hr', h⟩ := hi.finishing g hg
      exact ⟨r', hkept r' hr', h⟩

theorem inv_step (hi : Inv s) (h : s.exec op = .ok s') : Inv s' := by
  by_cases hop : ∃ f, op = .receipt f
  · obtain ⟨f, rfl⟩ := hop
    exact inv_receipt hi h
  · exact inv_effect hi (exec_effect h (fun f e => hop ⟨f, e⟩)
      (fun id row hrow => (hi.jobs id row hrow).1) hi.versions)

theorem inv_init : Inv {} := by
  have hnone : ∀ id sop x, ¬ (({} : St).db.Holds id sop x) := by
    rintro id sop x ⟨row, hrow, -⟩
    cases hrow
  refine ⟨?_, ?_, ?_, fun id sop x hx => (hnone id sop x hx).elim,
    fun id sop x _ _ _ hx => (hnone id sop x hx).elim, ?_, ?_, ?_, ?_⟩
  case refine_3 => exact fun id row hrow => nomatch hrow
  all_goals exact fun _ h => nomatch h

theorem inv_reachable (hr : jobs.Reachable s) : Inv s :=
  LTS.Inductive.reachable (T := jobs) (I := Inv)
    ⟨fun s hs => by rw [show s = {} from hs]; exact inv_init, fun s l s' hi hst => inv_step hi hst⟩
    s hr

/-! ## Looking a job and an action up -/

theorem Inv.readJob (hi : Inv s) {id : String} {row : Job} (h : s.db.jobs.find id = some row) :
    s.db.readJob id = .ok row := by
  obtain ⟨hid, sop, hdef⟩ := hi.jobs id row h
  rw [Db.definitionFor, ok_present] at hdef
  obtain ⟨d, hd, -⟩ := Option.map_eq_some_iff.1 hdef
  have hsop : d.sop = row.sop := by
    have := List.find?_some hd
    simp only [decide_eq_true_eq] at this
    exact this.1
  rw [Db.readJob, ok_present, (hi.uuids id hid).2, h, Option.filter_eq_some_iff]
  refine ⟨rfl, ?_⟩
  rw [List.any_eq_true]
  exact ⟨d, List.mem_of_find?_eq_some hd, by simp [hsop]⟩

/-- The one action of an id. -/
theorem Inv.found (hi : Inv s) {id : String} {row : Job} {x : String × PendingAction}
    (h : s.db.jobs.find id = some row) (hx : x ∈ row.pending.rows) :
    row.actions.find? (·.2.actionId = x.2.actionId) = some x := by
  have hsome : (row.actions.find? (·.2.actionId = x.2.actionId)).isSome := by
    rw [List.find?_isSome]
    exact ⟨x, Job.mem_actions.2 hx, by simp⟩
  obtain ⟨y, hy⟩ := Option.isSome_iff_exists.1 hsome
  have hid : row.id = id := Table.find_key h
  rw [← hid] at h
  have hymem : y ∈ row.pending.rows := Job.mem_actions.1 (List.mem_of_find?_eq_some hy)
  have heq : y.2.actionId = x.2.actionId := by simpa using List.find?_some hy
  rw [hy, (hi.single _ _ _ _ _ _ ((holds_row h).2 ⟨rfl, hymem⟩) ((holds_row h).2 ⟨rfl, hx⟩) heq).2]

/-- A claim that is pending can be given its receipt. -/
theorem Inv.receipt (hi : Inv s) {id sop cause : String} {x : String × PendingAction}
    (hx : s.db.Holds id sop x) (hclaimed : x.2.state = .claimed) (hcause : isSourceId cause = true) :
    finishReceipt s.db id x.2.step cause x.2.actionId =
      .ok (s.db.receipted ⟨x.2.actionId, id, sop, x.2.step, cause⟩) := by
  have hminted := hi.uuids _ (hi.actions _ _ _ hx)
  obtain ⟨row, hrow, rfl, hmem⟩ := hx
  have hid : row.id = id := Table.find_key hrow
  have hjob := hi.uuids id (hi.jobs id row hrow).1
  unfold finishReceipt
  rw [check, check, check, if_pos hjob.1, if_pos hcause, if_pos hminted.1, hi.readJob hrow]
  simp only [bind, Except.bind, hi.found hrow hmem, check, hclaimed, decide_true, Bool.and_self,
    if_true, hminted.2, hid]
  rfl

end Invariant

/-! ## A box with one job -/

namespace OneJob

def position (id : String) : Position :=
  { id, label := id, means := id, doHere := "look at it", waitingOn := "none", terminal := some false }

def sendQuote : Step :=
  { id := "send-quote", kind := .intent, mover := "agent", observedVia := "agent_action"
    moves := [⟨"quote", ["open"], "quoted"⟩], action := some (.operation "carbon-send") }

def clientCancels : Step :=
  { id := "client-cancels", kind := .observation, mover := "client", observedVia := "email"
    moves := [⟨"quote", ["open", "quoted"], "cancelled"⟩] }

def tow (version : String) (retired : Bool) : Sop :=
  { sop := "tow", version, events := [{ sendQuote with retired }, clientCancels]
    tracks := [⟨"quote", "Quote", "open", ["open", "quoted", "cancelled"].map position⟩]
    collectedChannels := ["agent_action", "email"] }

def version (v : String) (retired : Bool) : Op := .install [⟨"tow", tow v retired, v⟩]

/-- The `n`th random id, and the clock. -/
def drawn (n : Nat) : Mint :=
  ⟨"00000000-0000-4000-8000-00000000000" ++ toString n, "2026-03-01T09:00:00.000Z"⟩

def owner : Owner := ⟨7, "linux:1"⟩

/-- The process that claims is there. -/
def running : Processes := fun _ => .ok (some "linux:1")

/-- It is gone. -/
def exited : Processes := fun _ => .ok none

/-- A job is opened and its quote claimed, for the reply `req-1`. -/
def claiming : List Op :=
  [version "1" false,
    .opens (some ⟨"rel-1", "unit-1", ["m1"], owner⟩) "tow" "unit-1" [] "m1" (drawn 1),
    .begin running (drawn 1).id "send-quote" "req-1" "carbon-send" owner (drawn 2)]

def action : PendingAction :=
  ⟨"send-quote", (drawn 2).id, "req-1", .claimed, (drawn 2).now, some owner⟩

/-- Where the claim leaves the box. -/
def claimed : St := (({} : St).run claiming).toOption.getD {}

theorem claimed_ran : ({} : St).run claiming = .ok claimed := by decide +kernel

/-- The job holds the claim. -/
theorem claimed_holds : claimed.db.Holds (drawn 1).id "tow" ("quote", action) := by
  refine ⟨(claimed.db.jobs.find (drawn 1).id).getD
    ⟨"", "", [], "", "", Table.empty, Table.empty, Table.empty⟩, ?_, ?_, ?_⟩ <;> decide +kernel

-- Neither the job nor the claim is made a second time.
example : (claimed.run claiming).toOption = none := by decide +kernel

end OneJob

end CarbonRuntime.Jobs
