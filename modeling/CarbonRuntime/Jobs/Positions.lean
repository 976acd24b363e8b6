import CarbonRuntime.Jobs.Sop
import CarbonRuntime.Core.LTS

/-!
# Where a step takes a job

`legality` says whether a step may be taken, `applyObservation` what an observation of it leaves
and whether the model admits it (records/sop-definition.ts:124-156). The two ask the same of the
moves of the first track by themselves: one whether any of them admits the position, the other
whether one was taken.

**Results.** `legal_iff`, for every step and all positions: a step is legal exactly where its
observation is not off the model, and then each track is where the first move that admits its
position takes it, or where it was. `placed_reachable`, for a SOP whose tracks and moves name
positions there are: whatever is observed of a job, every track of it has one of its positions.
-/

open CarbonRuntime.Core CarbonRuntime.Stream

namespace CarbonRuntime.Jobs

variable {old next positions : Entries String} {moves : List Move} {moved : List String}
  {e : Step} {k : String}

/-- The move's `from` has the position of its track. -/
def Move.admits (positions : Entries String) (m : Move) : Bool :=
  (positions.get m.track).any m.froms.contains

/-- The first move of a track that admits its position. -/
def admitting (positions : Entries String) (moves : List Move) (k : String) : Option Move :=
  moves.find? fun m => m.track = k && m.admits positions

theorem admitting_isSome : (admitting positions moves k).isSome = true ↔
    ∃ m ∈ moves, m.track = k ∧ m.admits positions = true := by
  simp [admitting, List.find?_isSome]

/-- The loop does not come back to a track that has moved. -/
theorem applyMoves_moved (h : k ∈ moved) :
    (applyMoves old moves (next, moved)).1.get k = next.get k ∧
      k ∈ (applyMoves old moves (next, moved)).2 := by
  induction moves generalizing next moved with
  | nil => exact ⟨rfl, h⟩
  | cons m ms ih =>
    rw [applyMoves]
    split
    · exact ih h
    · rename_i hnew
      have hne : k ≠ m.track := by
        rintro rfl
        exact hnew (by simpa using h)
      split
      · obtain ⟨hget, hmem⟩ := @ih (next.put (m.track, m.dest)) _ (List.mem_cons_of_mem m.track h)
        exact ⟨by rw [hget, Entries.get_put, if_neg hne], hmem⟩
      · exact ih h

/-- What it leaves of a track that has not: the first of the moves that admits its position. -/
theorem applyMoves_get (h : k ∉ moved) :
    (applyMoves old moves (next, moved)).1.get k =
        ((admitting old moves k).map (·.dest)).or (next.get k) ∧
      (k ∈ (applyMoves old moves (next, moved)).2 ↔ (admitting old moves k).isSome = true) := by
  induction moves generalizing next moved with
  | nil => simp [applyMoves, admitting, h]
  | cons m ms ih =>
    rw [applyMoves]
    by_cases hk : m.track = k
    · have hnew : moved.contains m.track = false := by simpa [hk] using h
      rw [if_neg (by rw [hnew]; exact Bool.false_ne_true)]
      by_cases hadmits : (old.get m.track).any m.froms.contains = true
      · -- This is the move, and the rest of the loop passes the track over.
        have hfirst : admitting old (m :: ms) k = some m :=
          List.find?_cons_of_pos (by simpa [hk, Move.admits] using hadmits)
        obtain ⟨hget, hmem⟩ := @applyMoves_moved old (next.put (m.track, m.dest)) ms (m.track :: moved) k
          (by simp [hk])
        rw [if_pos hadmits, hfirst, hget, Entries.get_put, if_pos hk.symm]
        exact ⟨rfl, by simpa using hmem⟩
      · have hrest : admitting old (m :: ms) k = admitting old ms k :=
          List.find?_cons_of_neg (by simp [Move.admits, hadmits])
        rw [if_neg hadmits, hrest]
        exact ih h
    · have hrest : admitting old (m :: ms) k = admitting old ms k :=
        List.find?_cons_of_neg (by simp [hk])
      rw [hrest]
      split
      · exact ih h
      split
      · obtain ⟨hget, hmem⟩ := @ih (next.put (m.track, m.dest)) (m.track :: moved)
          (by simp [h, Ne.symm hk])
        exact ⟨by rw [hget, Entries.get_put, if_neg (Ne.symm hk)], hmem⟩
      · exact ih h

/-- A step without moves has no first track, and any other has the one its first move names. -/
theorem primary_cases (e : Step) : (e.moves = [] ∧ e.primary = none) ∨
    ∃ m ms, e.moves = m :: ms ∧ e.primary = some m.track := by
  cases hm : e.moves with
  | nil => exact .inl ⟨rfl, by simp [Step.primary, hm]⟩
  | cons m ms => exact .inr ⟨m, ms, rfl, by simp [Step.primary, hm]⟩

theorem legality_nil : legality e positions = [] ↔
    (∀ r ∈ e.requires, positions.get r.1 = some r.2) ∧
      ∀ primary, e.primary = some primary → (admitting positions e.moves primary).isSome = true := by
  have hrequires : (e.requires.filter fun r => positions.get r.1 ≠ some r.2) = [] ↔
      ∀ r ∈ e.requires, positions.get r.1 = some r.2 := by
    simp [List.filter_eq_nil_iff]
  rw [legality, List.append_eq_nil_iff, List.map_eq_nil_iff, hrequires]
  refine and_congr_right fun _ => ?_
  cases hp : e.primary with
  | none => simp
  | some primary =>
    simp only [orFault_eq_nil, Option.some.injEq, forall_eq', admitting_isSome, Move.admits,
      Option.any_eq_true, List.contains_iff_mem, List.mem_flatMap, List.mem_filter, decide_eq_true_eq]
    constructor
    · rintro ⟨p, hp, m, ⟨hm, ht⟩, hfrom⟩
      exact ⟨m, hm, ht, p, by rw [ht]; exact hp, hfrom⟩
    · rintro ⟨m, hm, rfl, p, hp, hfrom⟩
      exact ⟨p, hp, m, ⟨hm, rfl⟩, hfrom⟩

/-- What an observation does: where a move of the first track admits its position, or there is no
move at all, what the loop does; and else it puts the first track where a move of it goes. -/
theorem applyObservation_cases (e : Step) (positions : Entries String) :
    ((∀ primary, e.primary = some primary → (admitting positions e.moves primary).isSome = true) ∧
      applyObservation e positions = ⟨(applyMoves positions e.moves (positions, [])).1,
        e.requires.any fun r => positions.get r.1 ≠ some r.2⟩) ∨
    ∃ m ∈ e.moves, e.primary = some m.track ∧ admitting positions e.moves m.track = none ∧
      applyObservation e positions =
        ⟨(applyMoves positions e.moves (positions, [])).1.put (m.track, m.dest), true⟩ := by
  unfold applyObservation
  rcases primary_cases e with ⟨-, hp⟩ | ⟨first, more, hmoves, hp⟩
  · rw [hp]
    exact .inl ⟨by simp, rfl⟩
  · obtain ⟨-, hmoved⟩ :=
      @applyMoves_get positions positions e.moves [] first.track List.not_mem_nil
    rw [hp]
    by_cases hadmits : (admitting positions e.moves first.track).isSome = true
    · refine .inl ⟨by simpa using hadmits, ?_⟩
      dsimp only
      rw [if_pos (by simpa using hmoved.2 hadmits)]
    · -- The first track has a move, so it has a last one.
      have hne : e.moves.filter (fun m => m.track = first.track) ≠ [] :=
        List.ne_nil_of_mem (List.mem_filter.2 ⟨by rw [hmoves]; exact List.mem_cons_self, by simp⟩)
      have hlast := List.getLast_mem hne
      obtain ⟨hm, ht⟩ := List.mem_filter.1 hlast
      have ht := of_decide_eq_true ht
      refine .inr ⟨_, hm, by rw [ht], by rw [ht]; simpa using hadmits, ?_⟩
      dsimp only
      rw [if_neg (by simpa using fun h => hadmits (hmoved.1 h)), List.getLast?_eq_some_getLast hne]
      simp only [Option.map_some, ht]

/-- Whether an observation is off the model. -/
theorem offModel_iff : (applyObservation e positions).offModel = false ↔
    (∀ r ∈ e.requires, positions.get r.1 = some r.2) ∧
      ∀ primary, e.primary = some primary → (admitting positions e.moves primary).isSome = true := by
  rcases applyObservation_cases e positions with ⟨hadmits, h⟩ | ⟨m, -, hp, hnone, h⟩
  · rw [h]
    simpa [List.any_eq_false] using fun _ => hadmits
  · rw [h]
    simp [hp, hnone]

/-- A step is legal exactly where its observation is not off the model; each track is then where the
first move that admits its position takes it, and where it was if there is none. -/
theorem legal_iff (e : Step) (positions : Entries String) :
    (legality e positions = [] ↔ (applyObservation e positions).offModel = false) ∧
      (legality e positions = [] → ∀ k, (applyObservation e positions).positions.get k =
        ((admitting positions e.moves k).map (·.dest)).or (positions.get k)) := by
  refine ⟨by rw [legality_nil, offModel_iff], fun hlegal k => ?_⟩
  obtain ⟨-, hadmits⟩ := legality_nil.1 hlegal
  rcases applyObservation_cases e positions with ⟨-, h⟩ | ⟨m, -, hp, hnone, -⟩
  · rw [h]
    exact (applyMoves_get List.not_mem_nil).1
  · have := hadmits _ hp
    rw [hnone] at this
    cases this

/-! ## The positions of a job -/

/-- The tracks, their initial positions and where the moves go are declared, each track and each step
once. -/
structure Sop.Declared (s : Sop) : Prop where
  tracks : (s.tracks.map (·.id)).Nodup
  initial : ∀ t ∈ s.tracks, ∃ q ∈ t.positions, q.id = t.initial
  steps : (s.events.map (·.id)).Nodup
  moves : ∀ e ∈ s.events, ∀ m ∈ e.moves, ∃ t ∈ s.tracks, t.id = m.track ∧ ∃ q ∈ t.positions, q.id = m.dest

/-- Every track has a position of its own, and there is nothing else. -/
structure Sop.Placed (s : Sop) (positions : Entries String) : Prop where
  every : ∀ t ∈ s.tracks, ∃ q ∈ t.positions, positions.get t.id = some q.id
  only : ∀ k, (positions.get k).isSome = true → ∃ t ∈ s.tracks, t.id = k

/-- Observations of live steps, of a job that starts where the SOP says. -/
def observing (s : Sop) : LTS (Entries String) String where
  init positions := positions = initialPositions s
  step positions id positions' :=
    ∃ e, stepOf s id = .ok e ∧ positions' = (applyObservation e positions).positions

variable {s : Sop}

theorem foldl_put_get {ts : List Track} (h : (ts.map (·.id)).Nodup) (entries : Entries String) :
    (∀ t ∈ ts, (ts.foldl (fun e t => e.put (t.id, t.initial)) entries).get t.id = some t.initial) ∧
      ∀ k, (∀ t ∈ ts, t.id ≠ k) →
        (ts.foldl (fun e t => e.put (t.id, t.initial)) entries).get k = entries.get k := by
  induction ts generalizing entries with
  | nil => simp
  | cons t ts ih =>
    rw [List.map_cons, List.nodup_cons] at h
    obtain ⟨hnew, hrest⟩ := h
    obtain ⟨hevery, hother⟩ := ih hrest (entries.put (t.id, t.initial))
    rw [List.foldl_cons]
    constructor
    · intro t' ht'
      rcases List.mem_cons.1 ht' with rfl | ht'
      · rw [hother t'.id fun x hx he => hnew (he ▸ List.mem_map_of_mem hx), Entries.get_put, if_pos rfl]
      · exact hevery t' ht'
    · intro k hk
      rw [hother k fun x hx => hk x (List.mem_cons_of_mem _ hx), Entries.get_put,
        if_neg (Ne.symm (hk t List.mem_cons_self))]

theorem placed_initial (h : s.Declared) : s.Placed (initialPositions s) := by
  obtain ⟨hevery, hother⟩ := foldl_put_get h.tracks Table.empty
  constructor
  · intro t ht
    obtain ⟨q, hq, hid⟩ := h.initial t ht
    exact ⟨q, hq, by rw [hid]; exact hevery t ht⟩
  · intro k hk
    by_contra hno
    have hnone := hother k fun t ht he => hno ⟨t, ht, he⟩
    rw [initialPositions, hnone] at hk
    cases hk

/-- A move takes a placed job to a placed one. -/
theorem placed_put (h : s.Declared) {m : Move} (he : e ∈ s.events) (hm : m ∈ e.moves) :
    (∃ t ∈ s.tracks, t.id = m.track) ∧
      ∀ t ∈ s.tracks, t.id = m.track → ∃ q ∈ t.positions, q.id = m.dest := by
  obtain ⟨t, ht, hid, hdest⟩ := h.moves e he m hm
  refine ⟨⟨t, ht, hid⟩, fun t' ht' hid' => ?_⟩
  rw [List.inj_on_of_nodup_map h.tracks ht' ht (hid'.trans hid.symm)]
  exact hdest

theorem placed_applied (h : s.Declared) (he : e ∈ s.events) (hp : s.Placed positions) :
    s.Placed (applyObservation e positions).positions := by
  -- The loop leaves every track at its old position or where an admitting move of it goes.
  have hloop : s.Placed (applyMoves positions e.moves (positions, [])).1 := by
    constructor
    · intro t ht
      rw [(applyMoves_get List.not_mem_nil).1]
      cases hm : admitting positions e.moves t.id with
      | none => simpa using hp.every t ht
      | some m =>
        obtain ⟨q, hq, hid⟩ := (placed_put h he (List.mem_of_find?_eq_some hm)).2 t ht
          (by have := List.find?_some hm; simp at this; exact this.1.symm)
        exact ⟨q, hq, by simp [hid]⟩
    · intro k hk
      rw [(applyMoves_get List.not_mem_nil).1] at hk
      cases hm : admitting positions e.moves k with
      | none => exact hp.only k (by simpa [hm] using hk)
      | some m =>
        obtain ⟨t, ht, hid⟩ := (placed_put h he (List.mem_of_find?_eq_some hm)).1
        exact ⟨t, ht, by have := List.find?_some hm; simp at this; rw [hid, this.1]⟩
  rcases applyObservation_cases e positions with ⟨-, ha⟩ | ⟨m, hm, -, -, ha⟩
  · rw [ha]
    exact hloop
  · rw [ha]
    obtain ⟨⟨t₀, ht₀, hid₀⟩, hdest⟩ := placed_put h he hm
    constructor
    · intro t ht
      by_cases hid : t.id = m.track
      · obtain ⟨q, hq, hqid⟩ := hdest t ht hid
        exact ⟨q, hq, by rw [Entries.get_put, if_pos hid, hqid]⟩
      · obtain ⟨q, hq, hget⟩ := hloop.every t ht
        exact ⟨q, hq, by rw [Entries.get_put, if_neg hid, hget]⟩
    · intro k hk
      by_cases hid : k = m.track
      · exact ⟨t₀, ht₀, hid₀.trans hid.symm⟩
      · rw [Entries.get_put, if_neg hid] at hk
        exact hloop.only k hk

theorem placed_reachable (h : s.Declared) (hr : (observing s).Reachable positions) :
    s.Placed positions := by
  have hind : (observing s).Inductive s.Placed := by
    refine ⟨fun p hp => ?_, fun p id p' hp hst => ?_⟩
    · rw [hp]
      exact placed_initial h
    · obtain ⟨e, he, rfl⟩ := hst
      exact placed_applied h (stepOf_ok he).1 hp
  exact hind.reachable positions hr

/-- A job whose tracks are all placed can be viewed. -/
theorem positionViews_ok (h : ∀ t ∈ s.tracks, ∃ q ∈ t.positions, positions.get t.id = some q.id)
    (since : Entries String) : ∃ views, positionViews s positions since = .ok views := by
  unfold positionViews
  revert h
  induction s.tracks with
  | nil => exact fun _ => ⟨[], rfl⟩
  | cons t ts ih =>
    intro hall
    obtain ⟨views, hviews⟩ := ih fun t' ht' => hall t' (List.mem_cons_of_mem _ ht')
    obtain ⟨p, hp, hat⟩ := hall t List.mem_cons_self
    have hfound : (t.positions.find? fun p => positions.get t.id = some p.id).isSome := by
      rw [List.find?_isSome]
      exact ⟨p, hp, by simpa using hat⟩
    obtain ⟨x, hx⟩ := Option.isSome_iff_exists.1 hfound
    refine ⟨⟨t.id, x, since.get t.id⟩ :: views, ?_⟩
    rw [List.mapM_cons, hx, hviews]
    rfl

/-- What is allowed is a legal step that is live. -/
theorem allowedIntents_live (h : s.Declared) {id : String} (hid : id ∈ allowedIntents s positions) :
    ∃ e, stepOf s id = .ok e ∧ legality e positions = [] := by
  unfold allowedIntents at hid
  obtain ⟨e, he, rfl⟩ := List.mem_map.1 hid
  obtain ⟨hmem, hallowed⟩ := List.mem_filter.1 he
  simp only [Bool.and_eq_true, Bool.not_eq_true', decide_eq_true_eq] at hallowed
  obtain ⟨⟨-, hlive⟩, hlegal⟩ := hallowed
  refine ⟨e, ?_, hlegal⟩
  -- No other step has its id.
  have hfound : s.events.find? (·.id = e.id) = some e := by
    obtain ⟨x, hx⟩ := Option.isSome_iff_exists.1
      (List.find?_isSome.2 ⟨e, hmem, by simp⟩ : (s.events.find? (·.id = e.id)).isSome)
    have hsame : x.id = e.id := by simpa using List.find?_some hx
    rw [hx, List.inj_on_of_nodup_map h.steps (List.mem_of_find?_eq_some hx) hmem hsame]
  rw [stepOf, hfound]
  simp [hlive]

end CarbonRuntime.Jobs
