import CarbonRuntime.Jobs.Tools

/-!
# Installing a new version of a SOP

What an install does to a SOP and to the jobs of it (records/migrate.ts:146-226): a new
version may rename positions and add tracks, positions and steps, and takes none away; the
jobs' positions are renamed in place and every job is moved to the new version. The tables,
their grants and triggers and the guard over the catalog are not here, and neither are the
migrations.

**Results.** `forwardOnly_position` and `forwardOnly_rename` say what becomes of the old
positions in an upgrade that is accepted; `installSop_ok` and `installSops_migrates` what an
install leaves of the database and of the jobs of one SOP.
-/

open CarbonRuntime.Core CarbonRuntime.Stream

namespace CarbonRuntime.Jobs

def migrationRefused (problem : String) : List Fault :=
  [⟨"RECORDS_MIGRATION_REFUSED", "records", problem,
    "correct the forward-only records files and install a new version"⟩]

/-- A position that goes on under another id. -/
structure Rename where
  track : String
  /-- `from` -/
  origin : String
  /-- `to` -/
  dest : String
deriving DecidableEq

/-- The track of an id; of two the later. -/
def Sop.trackOf (s : Sop) (id : String) : Option Track := s.tracks.reverse.find? (·.id = id)

/-- What becomes of one position, migrate.ts:152-157. -/
def renameOf (next : Sop) (track : Track) (p : Position) : Except (List Fault) (List Rename) :=
  if track.positions.any (·.id = p.id) then .ok []
  else
    match track.positions.filter (·.renamedFrom = some p.id) with
    | [renamed] => .ok [⟨track.id, p.id, renamed.id⟩]
    | _ => .error (migrationRefused ("SOP " ++ next.sop ++ ": position " ++ track.id ++ "." ++ p.id ++
        " needs one renamed_from"))

/-- mirrors migrate.ts:149-158 -/
def renamesOf (next : Sop) (old : Track) : Except (List Fault) (List Rename) := do
  let track ← present (next.trackOf old.id)
    (migrationRefused ("SOP " ++ next.sop ++ ": track " ++ old.id ++ " cannot be removed"))
  let renames ← old.positions.mapM (renameOf next track)
  return renames.flatten

/-- mirrors migrate.ts:160-164 -/
def stepKept (next : Sop) (old : Step) : Except (List Fault) Unit := do
  let step ← present (next.events.reverse.find? (·.id = old.id))
    (migrationRefused ("SOP " ++ next.sop ++ ": step " ++ old.id ++
      " cannot be removed; mark it retired"))
  check (!old.retired || step.retired)
    (migrationRefused ("SOP " ++ next.sop ++ ": retired step " ++ old.id ++ " cannot reopen"))

/-- mirrors migrate.ts:146-166 -/
def forwardOnly (previous next : Sop) : Except (List Fault) (List Rename) := do
  let renames ← previous.tracks.mapM (renamesOf next)
  let _ ← previous.events.mapM (stepKept next)
  return renames.flatten

/-- What is read of `since` under a name that has no entry and is put back under another is
no text, and no entry when it is written. mirrors migrate.ts:210 -/
def moveSince (r : Rename) (since : Entries String) : Entries String :=
  match since.get r.origin with
  | some at' => (since.put (r.dest, at')).erase r.origin
  | none => if inherited r.origin then since.erase r.dest else since

/-- mirrors migrate.ts:205-210; what `pending` holds is an object and never the position's id -/
def Rename.apply (r : Rename) (j : Job) : Job :=
  { j with
    positions :=
      if j.positions.get r.track = some r.origin then j.positions.put (r.track, r.dest)
      else j.positions
    since := moveSince r j.since }

/-- A SOP file that was checked. -/
structure SopFile where
  sop : String
  definition : Sop
  sha256 : String

def Db.latest (db : Db) (sop : String) : Option Definition :=
  db.definitions.reverse.find? (·.sop = sop)

def Db.installedAs (db : Db) (sop version : String) : Option Definition :=
  db.definitions.find? fun d => d.sop = sop ∧ d.version = version

/-- The renames of an upgrade over a row of the SOP's table, and its new version. -/
def SopFile.migrate (c : SopFile) (renames : List Rename) (j : Job) : Job :=
  let j' := renames.foldl (fun j r => r.apply j) j
  if j.sop = c.sop then { j' with sopVersion := c.definition.version } else j'

theorem SopFile.migrate_fold (renames : List Rename) (j : Job) :
    (renames.foldl (fun j r => r.apply j) j).id = j.id ∧
      (renames.foldl (fun j r => r.apply j) j).sop = j.sop ∧
      (renames.foldl (fun j r => r.apply j) j).unit = j.unit ∧
      (renames.foldl (fun j r => r.apply j) j).pending = j.pending := by
  induction renames generalizing j with
  | nil => exact ⟨rfl, rfl, rfl, rfl⟩
  | cons r rs ih => exact ih (r.apply j)

/-- Only the rows of the SOP's table are read. -/
def SopFile.migrateRow (c : SopFile) (renames : List Rename) (j : Job) : Job :=
  if tableOf j.sop = tableOf c.sop then c.migrate renames j else j

theorem SopFile.migrateRow_id (c : SopFile) (renames : List Rename) (j : Job) :
    (c.migrateRow renames j).id = j.id := by
  have hid := (SopFile.migrate_fold renames j).1
  unfold SopFile.migrateRow SopFile.migrate
  split
  · split <;> exact hid
  · rfl

/-- The renames of a version over the latest one, migrate.ts:182-183. -/
def SopFile.renames (c : SopFile) (old same : Option Definition) :
    Except (List Fault) (List Rename) :=
  match same, old with
  | none, some d => forwardOnly d.definition c.definition
  | _, _ => .ok []

/-- mirrors one round of the loop, migrate.ts:172-221 -/
def installSop (db : Db) (c : SopFile) : Except (List Fault) Db := do
  let old := db.latest c.sop
  let same := db.installedAs c.sop c.definition.version
  check (same.all (·.sha256 = c.sha256)) (migrationRefused ("SOP " ++ c.sop ++ "@" ++
    c.definition.version ++ " changed after install"))
  check (same.isSome || !old.any (·.version = c.definition.version)) (migrationRefused ("SOP " ++
    c.sop ++ " version " ++ c.definition.version ++ " changed without a new version"))
  let renames ← c.renames old same
  if same.isSome then return db
  else return { db with
    jobs := db.jobs.mapRows (c.migrateRow renames) (SopFile.migrateRow_id c renames)
    definitions := db.definitions ++ [⟨c.sop, c.definition.version, c.sha256, c.definition⟩] }

/-- mirrors migrate.ts:168-226, one transaction -/
def installSops (db : Db) (candidates : List SopFile) : Except (List Fault) Db :=
  candidates.foldlM installSop db

/-! ## What an accepted upgrade says of a position -/

section Accepted

variable {previous next : Sop} {renames : List Rename}

/-- A rename the upgrade asks for: the old id is gone from the track, and one position of it
names the old one. -/
structure Renamed (next : Sop) (old : Track) (p : Position) (r : Rename) : Prop where
  track : r.track = old.id
  origin : r.origin = p.id
  gone : ∀ t, next.trackOf old.id = some t → ∀ x ∈ t.positions, x.id ≠ p.id
  named : ∃ t x, next.trackOf old.id = some t ∧
    t.positions.filter (·.renamedFrom = some p.id) = [x] ∧ r.dest = x.id

theorem Sop.trackOf_mem {s : Sop} {id : String} {t : Track} (h : s.trackOf id = some t) :
    t ∈ s.tracks ∧ t.id = id :=
  ⟨List.mem_reverse.1 (List.mem_of_find?_eq_some h), by simpa using List.find?_some h⟩

theorem Sop.trackOf_eq {s : Sop} {t t' : Track} (hn : (s.tracks.map (·.id)).Nodup)
    (ht : t ∈ s.tracks) (h : s.trackOf t.id = some t') : t' = t :=
  List.inj_on_of_nodup_map hn (Sop.trackOf_mem h).1 ht (Sop.trackOf_mem h).2

/-- Each old position is kept or renamed. -/
theorem forwardOnly_position (h : forwardOnly previous next = .ok renames) {old : Track}
    (hold : old ∈ previous.tracks) : ∃ t, next.trackOf old.id = some t ∧ ∀ p ∈ old.positions,
      (∃ x ∈ t.positions, x.id = p.id) ∨ ∃ r ∈ renames, Renamed next old p r := by
  simp only [forwardOnly, ok_bind] at h
  obtain ⟨perTrack, htracks, -, -, h⟩ := h
  cases h
  obtain ⟨rs, hrs, hof⟩ := (ok_mapM htracks).1 old hold
  simp only [renamesOf, ok_bind, ok_present] at hof
  obtain ⟨t, ht, perPosition, hpos, hof⟩ := hof
  cases hof
  refine ⟨t, ht, fun p hp => ?_⟩
  obtain ⟨one, hone, hren⟩ := (ok_mapM hpos).1 p hp
  unfold renameOf at hren
  split at hren
  · rename_i hkept
    simp only [List.any_eq_true, decide_eq_true_eq] at hkept
    exact .inl hkept
  · rename_i hgone
    simp only [List.any_eq_true, decide_eq_true_eq, not_exists, not_and] at hgone
    split at hren
    · rename_i x hx
      cases hren
      refine .inr ⟨⟨t.id, p.id, x.id⟩, ?_, ?_⟩
      · exact List.mem_flatten.2 ⟨_, hrs, List.mem_flatten.2 ⟨_, hone, List.mem_singleton_self _⟩⟩
      · refine ⟨(Sop.trackOf_mem ht).2, rfl, fun t' ht' => ?_, t, x, ht, hx, rfl⟩
        cases ht.symm.trans ht'
        exact hgone
    · cases hren

/-- Each rename is of an old position. -/
theorem forwardOnly_rename (h : forwardOnly previous next = .ok renames) {r : Rename}
    (hr : r ∈ renames) : ∃ old ∈ previous.tracks, ∃ p ∈ old.positions, Renamed next old p r := by
  simp only [forwardOnly, ok_bind] at h
  obtain ⟨perTrack, htracks, -, -, h⟩ := h
  cases h
  obtain ⟨rs, hrs, hr⟩ := List.mem_flatten.1 hr
  obtain ⟨old, hold, hof⟩ := (ok_mapM htracks).2 rs hrs
  simp only [renamesOf, ok_bind, ok_present] at hof
  obtain ⟨t, ht, perPosition, hpos, hof⟩ := hof
  cases hof
  obtain ⟨one, hone, hr⟩ := List.mem_flatten.1 hr
  obtain ⟨p, hp, hren⟩ := (ok_mapM hpos).2 one hone
  refine ⟨old, hold, p, hp, ?_⟩
  unfold renameOf at hren
  split at hren
  · cases hren; simp at hr
  · rename_i hgone
    simp only [List.any_eq_true, decide_eq_true_eq, not_exists, not_and] at hgone
    split at hren
    · rename_i x hx
      cases hren
      cases List.mem_singleton.1 hr
      refine ⟨(Sop.trackOf_mem ht).2, rfl, fun t' ht' => ?_, t, x, ht, hx, rfl⟩
      cases ht.symm.trans ht'
      exact hgone
    · cases hren

end Accepted

/-! ## What an install leaves -/

section Installed

variable {db db' : Db} {c : SopFile} {sop : String}

theorem installSop_ok (h : installSop db c = .ok db') :
    ((db.installedAs c.sop c.definition.version).isSome ∧ db' = db) ∨
      ∃ renames,
        db.installedAs c.sop c.definition.version = none ∧
        (∀ d, db.latest c.sop = some d → forwardOnly d.definition c.definition = .ok renames) ∧
        (∀ id, db'.jobs.find id = (db.jobs.find id).map (c.migrateRow renames)) ∧
        db'.definitions =
          db.definitions ++ [⟨c.sop, c.definition.version, c.sha256, c.definition⟩] ∧
        db'.events = db.events ∧ db'.receipts = db.receipts ∧ db'.collected = db.collected := by
  simp only [installSop, ok_bind] at h
  obtain ⟨-, -, -, -, renames, hren, h⟩ := h
  split at h
  · rename_i hsame
    cases h
    exact .inl ⟨hsame, rfl⟩
  · rename_i hsame
    rw [Option.not_isSome_iff_eq_none] at hsame
    cases h
    refine .inr ⟨renames, hsame, fun d hd => ?_, fun id => ?_, rfl, rfl, rfl, rfl⟩
    · rw [hsame, hd] at hren
      exact hren
    · exact Table.find_mapRows db.jobs _ (SopFile.migrateRow_id c renames) id

/-- Nothing of the SOP of that name has changed. -/
structure Untouched (sop : String) (db db' : Db) : Prop where
  latest : db'.latest sop = db.latest sop
  installedAs : ∀ version, db'.installedAs sop version = db.installedAs sop version
  jobs : ∀ id j, tableOf j.sop = tableOf sop →
    (db'.jobs.find id = some j ↔ db.jobs.find id = some j)

theorem Untouched.trans {db'' : Db} (h : Untouched sop db db') (h' : Untouched sop db' db'') :
    Untouched sop db db'' where
  latest := h'.latest.trans h.latest
  installedAs v := (h'.installedAs v).trans (h.installedAs v)
  jobs id j hj := (h'.jobs id j hj).trans (h.jobs id j hj)

theorem migrate_sop (renames : List Rename) (j : Job) : (c.migrate renames j).sop = j.sop := by
  have h := (SopFile.migrate_fold renames j).2.1
  unfold SopFile.migrate
  split <;> exact h

theorem installSop_untouched (h : installSop db c = .ok db') (hne : tableOf c.sop ≠ tableOf sop) :
    Untouched sop db db' := by
  have hsop : c.sop ≠ sop := fun e => hne (congrArg tableOf e)
  rcases installSop_ok h with ⟨-, rfl⟩ | ⟨renames, -, -, hjobs, hdefs, -⟩
  · exact ⟨rfl, fun _ => rfl, fun _ _ _ => Iff.rfl⟩
  · refine ⟨?_, fun v => ?_, fun id j hj => ?_⟩
    · unfold Db.latest
      rw [hdefs, List.reverse_append]
      simp [hsop]
    · unfold Db.installedAs
      rw [hdefs, List.find?_append]
      simp [hsop]
    · rw [hjobs]
      cases db.jobs.find id with
      | none => simp
      | some j₀ =>
        simp only [Option.map_some, Option.some.injEq, SopFile.migrateRow]
        split
        · rename_i heq
          constructor
          · rintro rfl
            rw [migrate_sop, heq] at hj
            exact absurd hj hne
          · rintro rfl
            exact absurd (heq.symm.trans hj) hne
        · rfl

theorem installSops_untouched : ∀ {cs : List SopFile} {db db' : Db},
    installSops db cs = .ok db' → (∀ c ∈ cs, tableOf c.sop ≠ tableOf sop) → Untouched sop db db'
  | [], db, db', h, _ => by
    cases h
    exact ⟨rfl, fun _ => rfl, fun _ _ _ => Iff.rfl⟩
  | c :: cs, db, db', h, hne => by
    rw [installSops, List.foldlM_cons, ok_bind] at h
    obtain ⟨db₁, h₁, h₂⟩ := h
    have hrest := installSops_untouched h₂ fun c' hc' => hne c' (List.mem_cons_of_mem _ hc')
    exact (installSop_untouched h₁ (hne c List.mem_cons_self)).trans hrest

/-- The jobs of one SOP of many, each with tables of its own. -/
theorem installSops_migrates {cs : List SopFile} {d : Definition} {renames : List Rename}
    (h : installSops db cs = .ok db') (hc : c ∈ cs)
    (hapart : (cs.map fun c => tableOf c.sop).Nodup)
    (hlatest : db.latest c.sop = some d)
    (hnew : db.installedAs c.sop c.definition.version = none)
    (hfwd : forwardOnly d.definition c.definition = .ok renames) {j : Job}
    (hj : db.jobs.find j.id = some j) (htable : tableOf j.sop = tableOf c.sop) :
    db'.jobs.find j.id = some (c.migrate renames j) := by
  obtain ⟨l, l', rfl⟩ := List.append_of_mem hc
  rw [List.map_append, List.map_cons, List.nodup_append] at hapart
  obtain ⟨-, hright, hcross⟩ := hapart
  rw [installSops, List.foldlM_append, ok_bind] at h
  obtain ⟨db₁, h₁, h⟩ := h
  rw [List.foldlM_cons, ok_bind] at h
  obtain ⟨db₂, h₂, h₃⟩ := h
  have hbefore : Untouched c.sop db db₁ := installSops_untouched h₁ fun c' hc' e =>
    hcross _ (List.mem_map_of_mem hc') _ List.mem_cons_self e
  have hafter : Untouched c.sop db₂ db' := installSops_untouched h₃ fun c' hc' e =>
    (List.nodup_cons.1 hright).1 (e ▸ List.mem_map_of_mem hc')
  have hmid : db₂.jobs.find j.id = some (c.migrate renames j) := by
    rcases installSop_ok h₂ with ⟨hsome, -⟩ | ⟨renames', -, hren, hjobs, -⟩
    · rw [hbefore.installedAs, hnew] at hsome
      simp at hsome
    · have hren' := hren d (hbefore.latest.trans hlatest)
      rw [hfwd] at hren'
      cases hren'
      rw [hjobs, (hbefore.jobs j.id j htable).2 hj, Option.map_some, SopFile.migrateRow,
        if_pos htable]
  exact (hafter.jobs j.id _ (by rw [migrate_sop, htable])).2 hmid

end Installed

end CarbonRuntime.Jobs
