import CarbonRuntime.Jobs.Positions
import CarbonRuntime.Jobs.Upgrade

/-!
# An upgrade that leaves jobs behind

An accepted upgrade renames the positions that are gone and moves every job to the new
version (records/migrate.ts:146-226). Three things it does not look at:

* a track the new version adds gets no position in the jobs there are, so the view of every
  such job is refused (records/sop-definition.ts:158-161);
* a position that is kept is not renamed, whatever names it in `renamed_from`;
* `since` is keyed by track and is searched for the renamed *position*'s id
  (migrate.ts:210), so a track with a position of its own name, or of another track's, loses
  the date it was entered.

`upgrade_carries_iff`: an upgrade carries the jobs over exactly where none of the three
applies to one of them.

Counterexample: the position `review` of the track `review` is renamed, and the date is gone.
-/

open CarbonRuntime.Core CarbonRuntime.Stream

namespace CarbonRuntime.Bugs.StrandedUpgrade

open Jobs

variable {previous next : Sop} {renames : List Rename} {j : Job} {k : String}

/-! ## What carrying a job over means -/

/-- Every track of the SOP has one of its positions. -/
def Placed (s : Sop) (j : Job) : Prop :=
  ∀ t ∈ s.tracks, ∃ p ∈ t.positions, j.positions.get t.id = some p.id

/-- What the track maps an old position to: the position naming it, or else itself. -/
def Image (t : Track) (p q : String) : Prop :=
  (∃ x ∈ t.positions, x.renamedFrom = some p ∧ x.id = q) ∨
    (∀ x ∈ t.positions, x.renamedFrom ≠ some p) ∧ q = p

structure Carried (previous next : Sop) (j j' : Job) : Prop where
  placed : Placed next j'
  image : ∀ old ∈ previous.tracks, ∀ t ∈ next.tracks, t.id = old.id →
    ∀ p, j.positions.get old.id = some p → ∃ q, j'.positions.get old.id = some q ∧ Image t p q
  since : ∀ old ∈ previous.tracks, j'.since.get old.id = j.since.get old.id

/-- What is claimed of the jobs an upgrade finds, `after` it. -/
structure Upgraded (previous next : Sop) (jobs : List Job) (after : Job → Option Job) : Prop where
  carried : ∀ j ∈ jobs, ∃ j', after j = some j' ∧ Carried previous next j j'
  apart : ∀ j₁ ∈ jobs, ∀ j₂ ∈ jobs, ∀ old ∈ previous.tracks, ∀ t ∈ next.tracks, t.id = old.id →
    ∀ p₁ p₂ q, j₁.positions.get old.id = some p₁ → j₂.positions.get old.id = some p₂ →
      ((after j₁).bind fun j' => j'.positions.get old.id) = some q →
      ((after j₂).bind fun j' => j'.positions.get old.id) = some q →
      Image t p₁ q ∧ Image t p₂ q
  viewed : ∀ j ∈ jobs, ∃ j', after j = some j' ∧
    ∃ views, positionViews next j'.positions j'.since = .ok views

/-! ## What the renames do to the entries of `since` -/

/-- One rename over the names the entries stand under: `place n` is the name, before the
upgrade, of the entry under `n`. -/
def moveNames (r : Rename) (place : String → Option String) (n : String) : Option String :=
  match place r.origin with
  | some o => if n = r.origin then none else if n = r.dest then some o else place n
  | none => if inherited r.origin ∧ n = r.dest then none else place n

/-- Whose entry stands under a name behind the renames. -/
def standing (renames : List Rename) (since : Entries String) : String → Option String :=
  renames.foldl (fun place r => moveNames r place)
    fun n => if (since.get n).isSome then some n else none

/-- The entries of `now` are those of `was`, under other names. -/
def Stands (was now : Entries String) (place : String → Option String) : Prop :=
  ∀ n, now.get n = (place n).bind was.get ∧ ∀ o, place n = some o → (was.get o).isSome

theorem stands_move {was now : Entries String} {place : String → Option String} (r : Rename)
    (h : Stands was now place) : Stands was (moveSince r now) (moveNames r place) := by
  intro n
  unfold moveSince moveNames
  cases hp : place r.origin with
  | some o =>
    obtain ⟨v, hv⟩ := Option.isSome_iff_exists.1 ((h r.origin).2 o hp)
    have hget : now.get r.origin = some v := by rw [(h r.origin).1, hp]; exact hv
    simp only [hget, Entries.get_erase, Entries.get_put]
    split
    · exact ⟨rfl, fun _ ho => by cases ho⟩
    · split
      · refine ⟨by rw [← hv]; rfl, fun o' ho' => ?_⟩
        cases ho'
        rw [hv]
        rfl
      · exact h n
  | none =>
    have hget : now.get r.origin = none := by rw [(h r.origin).1, hp]; rfl
    simp only [hget]
    by_cases hin : inherited r.origin = true
    · rw [if_pos hin, Entries.get_erase]
      by_cases hn : n = r.dest
      · rw [if_pos hn, if_pos ⟨hin, hn⟩]
        exact ⟨rfl, fun _ ho => by cases ho⟩
      · rw [if_neg hn, if_neg fun hc => hn hc.2]
        exact h n
    · rw [if_neg hin, if_neg fun hc => hin hc.1]
      exact h n

theorem stands_fold {was : Entries String} : ∀ (renames : List Rename) (j : Job)
    {place : String → Option String}, Stands was j.since place →
    Stands was (renames.foldl (fun j r => r.apply j) j).since
      (renames.foldl (fun place r => moveNames r place) place)
  | [], _, _, h => h
  | r :: rs, j, _, h => stands_fold rs (r.apply j) (stands_move r h)

theorem since_fold (renames : List Rename) (j : Job) (n : String) :
    (renames.foldl (fun j r => r.apply j) j).since.get n =
      (standing renames j.since n).bind j.since.get := by
  have hstart : Stands j.since j.since fun n => if (j.since.get n).isSome then some n else none := by
    intro n
    dsimp only
    cases hn : j.since.get n with
    | none => simp
    | some v =>
      refine ⟨by simp [hn], fun o ho => ?_⟩
      rw [Option.isSome_some, if_pos rfl] at ho
      cases ho
      rw [hn]
      rfl
  exact (stands_fold renames j hstart n).1

/-! ## What the renames do to the positions -/

theorem apply_other {r : Rename} (h : r.track = k → j.positions.get k ≠ some r.origin) :
    (r.apply j).positions.get k = j.positions.get k := by
  unfold Rename.apply
  dsimp only
  split
  · rename_i hat
    rw [Entries.get_put]
    split
    · rename_i hk
      exact absurd (hk ▸ hat) (h hk.symm)
    · rfl
  · rfl

theorem fold_other : ∀ {renames : List Rename} {j : Job},
    (∀ r ∈ renames, r.track = k → j.positions.get k ≠ some r.origin) →
    (renames.foldl (fun j r => r.apply j) j).positions.get k = j.positions.get k
  | [], _, _ => rfl
  | r :: rs, j, h => by
    have hhead := apply_other (h r List.mem_cons_self)
    rw [List.foldl_cons, fold_other fun r' hr' => ?_, hhead]
    rw [hhead]
    exact h r' (List.mem_cons_of_mem _ hr')

/-- A position that is renamed, to what is itself renamed by nothing. -/
theorem fold_renamed {r₀ : Rename} : ∀ {renames : List Rename} {j : Job}, r₀ ∈ renames →
    j.positions.get r₀.track = some r₀.origin →
    (∀ r ∈ renames, r.track = r₀.track → r.origin = r₀.origin → r.dest = r₀.dest) →
    (∀ r ∈ renames, r.track = r₀.track → r.origin ≠ r₀.dest) →
    (renames.foldl (fun j r => r.apply j) j).positions.get r₀.track = some r₀.dest
  | r :: rs, j, hmem, hat, hsame, hend => by
    rw [List.foldl_cons]
    by_cases hhit : r.track = r₀.track ∧ r.origin = r₀.origin
    · -- from here on the job stands where no rename takes it from
      have hdest := hsame r List.mem_cons_self hhit.1 hhit.2
      have hnow : (r.apply j).positions.get r₀.track = some r₀.dest := by
        unfold Rename.apply
        dsimp only
        rw [if_pos (by rw [hhit.1, hhit.2]; exact hat), Entries.get_put, if_pos hhit.1.symm, hdest]
      rw [fold_other fun r' hr' htr => ?_, hnow]
      rw [hnow]
      exact fun e => hend r' (List.mem_cons_of_mem _ hr') htr (Option.some.inj e).symm
    · have hstay : (r.apply j).positions.get r₀.track = some r₀.origin := by
        rw [apply_other fun htr e => ?_, hat]
        rw [hat] at e
        exact hhit ⟨htr, (Option.some.inj e).symm⟩
      have hmem' : r₀ ∈ rs := by
        rcases List.mem_cons.1 hmem with rfl | hmem
        · exact absurd ⟨rfl, rfl⟩ hhit
        · exact hmem
      exact fold_renamed hmem' hstay (fun r' hr' => hsame r' (List.mem_cons_of_mem _ hr'))
        fun r' hr' => hend r' (List.mem_cons_of_mem _ hr')

/-! ## The jobs an upgrade carries over -/

/-- Where an upgrade does right by a job. -/
structure Carriable (previous next : Sop) (renames : List Rename) (j : Job) : Prop where
  /-- A track that is new finds the job placed on it. -/
  added : ∀ t ∈ next.tracks, t.id ∉ previous.tracks.map (·.id) →
    ∃ p ∈ t.positions, j.positions.get t.id = some p.id
  /-- No other position names the one the job is at, where that one is kept. -/
  kept : ∀ old ∈ previous.tracks, ∀ t ∈ next.tracks, t.id = old.id →
    ∀ x ∈ t.positions, j.positions.get old.id = some x.id →
      (∃ y ∈ t.positions, y.renamedFrom = some x.id ∧ y.id = x.id) ∨
        ∀ y ∈ t.positions, y.renamedFrom ≠ some x.id
  /-- Where entries of `since` were moved for a position's id, each track is left with its
  own or an equal one. -/
  since : ∀ old ∈ previous.tracks,
    (standing renames j.since old.id).bind j.since.get = j.since.get old.id

section Renames

variable (hfwd : forwardOnly previous next = .ok renames)
  (hprev : (previous.tracks.map (·.id)).Nodup) (hnext : (next.tracks.map (·.id)).Nodup)

include hfwd

/-- No rename is of a track that is new. -/
theorem rename_track {r : Rename} (hr : r ∈ renames) : r.track ∈ previous.tracks.map (·.id) := by
  obtain ⟨old, hold, p, hp, hren⟩ := forwardOnly_rename hfwd hr
  rw [hren.track]
  exact List.mem_map_of_mem hold

include hprev hnext

/-- A rename of a track, read off the two versions. -/
theorem rename_of {old t : Track} (hold : old ∈ previous.tracks) (ht : t ∈ next.tracks)
    (hid : t.id = old.id) {r : Rename} (hr : r ∈ renames) (htr : r.track = old.id) :
    (∀ x ∈ t.positions, x.id ≠ r.origin) ∧
      ∃ x, t.positions.filter (·.renamedFrom = some r.origin) = [x] ∧ r.dest = x.id := by
  obtain ⟨old', hold', p, hp, hren⟩ := forwardOnly_rename hfwd hr
  have hsame : old' = old :=
    List.inj_on_of_nodup_map hprev hold' hold (hren.track.symm.trans htr)
  subst hsame
  obtain ⟨t', x, ht', hx, hdest⟩ := hren.named
  have heq : t' = t := Sop.trackOf_eq hnext ht (by rw [hid]; exact ht')
  subst heq
  rw [hren.origin]
  exact ⟨hren.gone t' ht', x, hx, hdest⟩

/-- Where a job at a kept position ends. -/
theorem kept_position {old t : Track} (hold : old ∈ previous.tracks) (ht : t ∈ next.tracks)
    (hid : t.id = old.id) {x : Position} (hx : x ∈ t.positions)
    (hat : j.positions.get old.id = some x.id) :
    (renames.foldl (fun j r => r.apply j) j).positions.get old.id = some x.id := by
  rw [fold_other fun r hr htr e => ?_, hat]
  rw [hat] at e
  exact (rename_of hfwd hprev hnext hold ht hid hr htr).1 x hx (Option.some.inj e)

/-- Where a job at a position that is gone ends. -/
theorem renamed_position {old t : Track} (hold : old ∈ previous.tracks) (ht : t ∈ next.tracks)
    (hid : t.id = old.id) {r : Rename} (hr : r ∈ renames) (htr : r.track = old.id)
    (hat : j.positions.get old.id = some r.origin) :
    ∃ x ∈ t.positions, x.renamedFrom = some r.origin ∧
      (renames.foldl (fun j r => r.apply j) j).positions.get old.id = some x.id := by
  obtain ⟨-, x, hx, hdest⟩ := rename_of hfwd hprev hnext hold ht hid hr htr
  have hxm : x ∈ t.positions.filter (·.renamedFrom = some r.origin) := hx ▸ List.mem_cons_self
  simp only [List.mem_filter, decide_eq_true_eq] at hxm
  refine ⟨x, hxm.1, hxm.2, ?_⟩
  rw [← hdest, ← htr]
  refine fold_renamed hr (by rw [htr]; exact hat) (fun r' hr' htr' hor => ?_) fun r' hr' htr' e => ?_
  · -- one position only names the old one
    obtain ⟨-, x', hx', hdest'⟩ := rename_of hfwd hprev hnext hold ht hid hr' (htr'.trans htr)
    rw [hor, hx] at hx'
    cases hx'
    rw [hdest', hdest]
  · have hgone := (rename_of hfwd hprev hnext hold ht hid hr' (htr'.trans htr)).1
    exact hgone x hxm.1 (hdest.symm.trans e.symm)

/-- Every job that is placed ends at a position the new version declares. -/
theorem fold_placed {old t : Track} (hold : old ∈ previous.tracks) (ht : t ∈ next.tracks)
    (hid : t.id = old.id) (hplaced : Placed previous j) :
    ∃ p x, j.positions.get old.id = some p ∧ x ∈ t.positions ∧
      (renames.foldl (fun j r => r.apply j) j).positions.get old.id = some x.id ∧
      (x.renamedFrom = some p ∨ x.id = p) := by
  obtain ⟨p, hp, hat⟩ := hplaced old hold
  obtain ⟨t', ht', hpos⟩ := forwardOnly_position hfwd hold
  have heq : t' = t := Sop.trackOf_eq hnext ht (by rw [hid]; exact ht')
  subst heq
  rcases hpos p hp with ⟨x, hx, hxid⟩ | ⟨r, hr, hren⟩
  · have hat' : j.positions.get old.id = some x.id := by rw [hxid]; exact hat
    exact ⟨p.id, x, hat, hx, kept_position hfwd hprev hnext hold ht hid hx hat', .inr hxid⟩
  · have hat' : j.positions.get old.id = some r.origin := by rw [hren.origin]; exact hat
    obtain ⟨x, hx, hfrom, hend⟩ := renamed_position hfwd hprev hnext hold ht hid hr hren.track hat'
    exact ⟨p.id, x, hat, hx, hend, .inl (by rw [← hren.origin]; exact hfrom)⟩

/-- A job is carried over exactly where the three conditions hold of it. -/
theorem carried_iff (hplaced : Placed previous j) {j' : Job}
    (hpos : j'.positions = (renames.foldl (fun j r => r.apply j) j).positions)
    (hsince : j'.since = (renames.foldl (fun j r => r.apply j) j).since) :
    Carried previous next j j' ↔ Carriable previous next renames j := by
  constructor
  · intro h
    refine ⟨fun t ht hnew => ?_, fun old hold t ht hid x hx hat => ?_, fun old hold => ?_⟩
    · obtain ⟨p, hp, hat⟩ := h.placed t ht
      rw [hpos, fold_other fun r hr htr e => ?_] at hat
      · exact ⟨p, hp, hat⟩
      · exact hnew (htr ▸ rename_track hfwd hr)
    · obtain ⟨q, hq, himage⟩ := h.image old hold t ht hid x.id hat
      rw [hpos, kept_position hfwd hprev hnext hold ht hid hx hat] at hq
      cases hq
      rcases himage with himage | ⟨hnone, -⟩
      · exact .inl himage
      · exact .inr hnone
    · rw [← since_fold, ← hsince]
      exact h.since old hold
  · intro h
    refine ⟨fun t ht => ?_, fun old hold t ht hid p hp => ?_, fun old hold => ?_⟩
    · rw [hpos]
      by_cases hold : t.id ∈ previous.tracks.map (·.id)
      · obtain ⟨old, hold, hid⟩ := List.mem_map.1 hold
        obtain ⟨-, x, -, hx, hend, -⟩ := fold_placed hfwd hprev hnext hold ht hid.symm hplaced
        exact ⟨x, hx, by rw [← hid]; exact hend⟩
      · rw [fold_other fun r hr htr _ => hold (by rw [← htr]; exact rename_track hfwd hr)]
        exact h.added t ht hold
    · obtain ⟨p', x, hat, hx, hend, hfrom⟩ := fold_placed hfwd hprev hnext hold ht hid hplaced
      cases hp.symm.trans hat
      refine ⟨x.id, by rw [hpos]; exact hend, ?_⟩
      rcases hfrom with hfrom | rfl
      · exact .inl ⟨x, hx, hfrom, rfl⟩
      · rcases h.kept old hold t ht hid x hx hat with himage | hnone
        · exact .inl himage
        · exact .inr ⟨hnone, rfl⟩
    · rw [hsince, since_fold]
      exact h.since old hold

end Renames

/-- A job whose tracks are all placed can be viewed. -/
theorem placed_viewed {s : Sop} (h : Placed s j) (since : Entries String) :
    ∃ views, positionViews s j.positions since = .ok views := positionViews_ok h since

theorem migrate_positions (c : SopFile) (renames : List Rename) (j : Job) :
    (c.migrate renames j).positions = (renames.foldl (fun j r => r.apply j) j).positions ∧
      (c.migrate renames j).since = (renames.foldl (fun j r => r.apply j) j).since := by
  unfold SopFile.migrate
  split <;> exact ⟨rfl, rfl⟩

/-- The jobs in the SOP's table. -/
def jobsOf (db : Db) (sop : String) : List Job :=
  db.jobs.rows.filter fun j => tableOf j.sop = tableOf sop

/-- An upgrade that is accepted carries the jobs over exactly where no added track finds a job
without a position on it, no kept position a job is at is named by another, and no entry of
`since` is taken from a track or put over its own. -/
theorem upgrade_carries_iff {db db' : Db} {cs : List SopFile} {c : SopFile} {d : Definition}
    {renames : List Rename} (hc : c ∈ cs) (hapart : (cs.map fun c => tableOf c.sop).Nodup)
    (hlatest : db.latest c.sop = some d)
    (hnew : db.installedAs c.sop c.definition.version = none)
    (hprev : validateSop d.definition c.sop = []) (hnext : validateSop c.definition c.sop = [])
    (hfwd : forwardOnly d.definition c.definition = .ok renames)
    (hplaced : ∀ j ∈ jobsOf db c.sop, Placed d.definition j)
    (h : installSops db cs = .ok db') :
    Upgraded d.definition c.definition (jobsOf db c.sop) (fun j => db'.jobs.find j.id) ↔
      ∀ j ∈ jobsOf db c.sop, Carriable d.definition c.definition renames j := by
  have hafter : ∀ j ∈ jobsOf db c.sop, db'.jobs.find j.id = some (c.migrate renames j) := by
    intro j hj
    obtain ⟨hrow, htable⟩ := List.mem_filter.1 hj
    exact installSops_migrates h hc hapart hlatest hnew hfwd (Table.mem_find hrow)
      (by simpa using htable)
  have hiff : ∀ j ∈ jobsOf db c.sop, Carried d.definition c.definition j (c.migrate renames j) ↔
      Carriable d.definition c.definition renames j := fun j hj =>
    carried_iff hfwd (validateSop_tracks hprev) (validateSop_tracks hnext) (hplaced j hj)
      (migrate_positions c renames j).1 (migrate_positions c renames j).2
  constructor
  · intro hup j hj
    obtain ⟨j', hj', hcarried⟩ := hup.carried j hj
    cases (hafter j hj).symm.trans hj'
    exact (hiff j hj).1 hcarried
  · intro hall
    have hcarried : ∀ j ∈ jobsOf db c.sop,
        Carried d.definition c.definition j (c.migrate renames j) := fun j hj =>
      (hiff j hj).2 (hall j hj)
    have himage : ∀ j ∈ jobsOf db c.sop, ∀ old ∈ d.definition.tracks, ∀ t ∈ c.definition.tracks,
        t.id = old.id → ∀ p q, j.positions.get old.id = some p →
          ((db'.jobs.find j.id).bind fun j' => j'.positions.get old.id) = some q → Image t p q := by
      intro j hj old hold t ht hid p q hp hq
      obtain ⟨q', hq', himage⟩ := (hcarried j hj).image old hold t ht hid p hp
      rw [hafter j hj, Option.bind_some] at hq
      cases hq'.symm.trans hq
      exact himage
    refine ⟨fun j hj => ⟨_, hafter j hj, hcarried j hj⟩, ?_, fun j hj => ⟨_, hafter j hj, ?_⟩⟩
    · intro j₁ hj₁ j₂ hj₂ old hold t ht hid p₁ p₂ q hp₁ hp₂ hq₁ hq₂
      exact ⟨himage j₁ hj₁ old hold t ht hid p₁ q hp₁ hq₁,
        himage j₂ hj₂ old hold t ht hid p₂ q hp₂ hq₂⟩
    · exact placed_viewed (hcarried j hj).placed _

/-! ## A position of its track's name -/

def position (id label : String) (renamedFrom : Option String) : Position :=
  { id, label, means := label, doHere := "look at it", waitingOn := "none", terminal := some false,
    renamedFrom }

def review (first : Position) : Track :=
  ⟨"review", "Review", first.id, [first, position "done" "done" none]⟩

def tow (version : String) (first : Position) : Sop :=
  { sop := "tow", version, events := [], collectedChannels := ["agent_action"],
    tracks := [review first] }

def before : Sop := tow "1" (position "review" "under review" none)

def after : Sop := tow "2" (position "checking" "being checked" (some "review"))

def renamed : List Rename := [⟨"review", "review", "checking"⟩]

/-- One job, at the position `review` since the first of March. -/
def job : Job :=
  { id := "00000000-0000-4000-8000-000000000001", unit := "unit-1", sop := "tow", sopVersion := "1",
    positions := Table.empty.put ("review", "review")
    since := Table.empty.put ("review", "2026-03-01T09:00:00.000Z") }

def box : Db :=
  { definitions := [⟨"tow", "1", "a1", before⟩], jobs := Table.empty.put job }

def file : SopFile := ⟨"tow", after, "b2"⟩

def upgraded : Db :=
  { definitions := [⟨"tow", "1", "a1", before⟩, ⟨"tow", "2", "b2", after⟩]
    jobs := Table.empty.put { job with
      sopVersion := "2"
      positions := Table.empty.put ("review", "checking")
      since := Table.empty.put ("checking", "2026-03-01T09:00:00.000Z") } }

/-- The versions are accepted, and what the upgrade does to the box. -/
theorem box_upgraded :
    (validateSop before "tow" = [] ∧ validateSop after "tow" = [] ∧ forwardOnly before after = .ok renamed) ∧
    (([file].map fun c => tableOf c.sop).Nodup ∧ box.latest "tow" = some ⟨"tow", "1", "a1", before⟩ ∧
      box.installedAs "tow" "2" = none) ∧
    (∀ j ∈ jobsOf box "tow", Placed before j) ∧ installSops box [file] = .ok upgraded ∧
    job ∈ jobsOf box "tow" ∧ (job.since.get "review").isSome = true ∧
    ((upgraded.jobs.find job.id).bind fun j => j.since.get "review") = none := by
  unfold Placed
  decide +kernel

/-- The upgrade at a box with one job. -/
theorem upgrade_carries_job :
    Upgraded before after (jobsOf box "tow") (fun j => upgraded.jobs.find j.id) ↔
      ∀ j ∈ jobsOf box "tow", Carriable before after renamed j := by
  obtain ⟨⟨hbefore, hafter, hfwd⟩, ⟨hapart, hlatest, hnew⟩, hplaced, hinstall, -⟩ := box_upgraded
  exact upgrade_carries_iff (c := file) (d := ⟨"tow", "1", "a1", before⟩)
    (List.mem_singleton_self file) hapart hlatest hnew hbefore hafter hfwd hplaced hinstall

/-- **Counterexample**: the upgrade is accepted and the job is where the new version wants it,
and no longer says since when. -/
theorem since_lost :
    validateSop before "tow" = [] ∧ validateSop after "tow" = [] ∧
      forwardOnly before after = .ok renamed ∧ (∀ j ∈ jobsOf box "tow", Placed before j) ∧
      installSops box [file] = .ok upgraded ∧
      ¬ Upgraded before after (jobsOf box "tow") fun j => upgraded.jobs.find j.id := by
  obtain ⟨⟨hbefore, hafter, hfwd⟩, -, hplaced, hinstall, hjob, hsome, hgone⟩ := box_upgraded
  refine ⟨hbefore, hafter, hfwd, hplaced, hinstall, ?_⟩
  intro hup
  obtain ⟨j', hj', hcarried⟩ := hup.carried job hjob
  have hsince : j'.since.get "review" = job.since.get "review" :=
    hcarried.since (review (position "review" "under review" none)) (List.mem_singleton_self _)
  rw [hj', Option.bind_some] at hgone
  rw [← hsince, hgone] at hsome
  cases hsome

end CarbonRuntime.Bugs.StrandedUpgrade
