import CarbonRuntime.Runtime.Fragments
import Mathlib.Logic.Relation
import Mathlib.Tactic.Linarith

/-!
# Context before the range to ask for next

The next selector of an answer is as long as the limit (runtime/browser-evidence-representation.ts:91-94),
and an answer starts `contextBefore` lines before the range asked for. So to ask for the next selector
with some context before it is refused, "requested context would exclude the selected ending"
(line 88), unless the end of the representation is near enough.

Whoever follows the selectors comes to the end exactly where there is no context before, or the first
answer reaches the end, or the second one does (`paging_iff`). What is answered is always in
order (`answer_sound`).

Counterexample: three lines, one at a time, with one line of context before.
-/

open CarbonRuntime.Core

namespace CarbonRuntime.Bugs.RefusedContinuation

open Runtime.Fragments

/-- The answer to a selector. -/
def Answers (rep : Representation) (cb ca limit : Nat) (selector : Option Selector) (f : Fragment) : Prop :=
  resolveEvidenceFragment rep selector cb ca limit = .ok (.fragment f)

/-- The answer to the next selector of an answer, with the same contexts and limit. -/
def Next (rep : Representation) (cb ca limit : Nat) (f g : Fragment) : Prop :=
  f.nextSelector.isSome ∧ Answers rep cb ca limit f.nextSelector g

/-- An answer shows the line, or the row, of this number. -/
def Shows (f : Fragment) (n : Nat) : Prop :=
  (∃ t, (n, t) ∈ f.lines) ∨ ∃ cells, (n, cells) ∈ f.rows

/-- What every answer is to be: within the limit, the range asked for and all of it, each line under its
number. -/
structure Sound (rep : Representation) (limit : Nat) (selector : Option Selector) (f : Fragment) : Prop where
  short : f.lines.length ≤ limit ∧ f.rows.length ≤ limit
  whole : ∀ s ∈ selector, ∀ range ∈ rep.range s, ∀ n : Nat, range.1 ≤ n → n ≤ range.2 → Shows f n
  lines : ∀ n t, (n, t) ∈ f.lines → 1 ≤ n ∧ rep.linesOf[n - 1]? = some t
  rows : ∀ n cells, (n, cells) ∈ f.rows → 1 ≤ n ∧ rep.rowsOf[n - 1]? = some cells

/-- From an answer on, whoever follows the next selectors. -/
def Reaches (rep : Representation) (cb ca limit : Nat) : Fragment → Fragment → Prop :=
  Relation.ReflTransGen (Next rep cb ca limit)

/-- The selectors lead on to the end, and leave nothing out on the way. -/
structure Paged (rep : Representation) (cb ca limit : Nat) (first : Fragment) : Prop where
  sound : ∀ selector f, Answers rep cb ca limit selector f → Sound rep limit selector f
  answered : ∀ f, Reaches rep cb ca limit first f → f.nextSelector ≠ none →
    ∃ g, Next rep cb ca limit f g
  ends : ∃ last, Reaches rep cb ca limit first last ∧ last.nextSelector = none ∧ last.hasMore = false
  all : ∀ n, 1 ≤ n → first.start ≤ n → n ≤ rep.total → ∃ f, Reaches rep cb ca limit first f ∧ Shows f n

/-- Where the context behind a range and the limit let the answer to it end. -/
def shownUpTo (rep : Representation) (cb ca limit : Nat) (selector : Option Selector) : Nat :=
  match rep.range (selector.getD (rep.selector 1 ↑(min rep.total limit))) with
  | none => 0
  | some (start, stop) =>
    min (min rep.total (stop.num.toNat + ca)) (max 1 (start.num.toNat - cb) + limit - 1)

/-- No context before; or the range and the context behind it come to the end; or what is left after them
fits into the limit together with the context before it. -/
def Followable (rep : Representation) (cb ca limit : Nat) (selector : Option Selector) : Prop :=
  cb = 0 ∨ rep.total ≤ shownUpTo rep cb ca limit selector ∨
    rep.total < max 1 (shownUpTo rep cb ca limit selector + 1 - cb) + limit

variable {rep : Representation} {cb ca limit start stop first last n : Nat} {selector : Option Selector}
  {f g : Fragment} {α : Type} {values : List α} {v : α}

/-! ## What an answer shows -/

theorem mem_numbered (hs : 1 ≤ start) : (n, v) ∈ numbered values start stop ↔
    start ≤ n ∧ n ≤ stop ∧ values[n - 1]? = some v := by
  rw [numbered, List.mem_mapIdx]
  constructor
  · rintro ⟨i, hi, he⟩
    simp only [List.length_drop, List.length_take] at hi
    simp only [List.getElem_drop, List.getElem_take, Prod.mk.injEq] at he
    obtain ⟨rfl, rfl⟩ := he
    refine ⟨by omega, by omega, ?_⟩
    rw [List.getElem?_eq_some_iff]
    exact ⟨by omega, by congr 1; omega⟩
  · rintro ⟨hn, hstop, hv⟩
    obtain ⟨hlt, rfl⟩ := List.getElem?_eq_some_iff.1 hv
    refine ⟨n - start, by simp; omega, ?_⟩
    simp only [List.getElem_drop, List.getElem_take, Prod.mk.injEq]
    exact ⟨by omega, by congr 1; omega⟩

theorem length_numbered : (numbered values start stop).length ≤ stop + 1 - start := by
  simp only [numbered, List.length_mapIdx, List.length_drop, List.length_take]
  omega

theorem total_lt (rep : Representation) : rep.total < 2 ^ 32 := by
  cases rep with
  | text lines h => exact h
  | table columns rows h => exact h
  | file => exact Nat.two_pow_pos 32

/-- A range is shown line by line. -/
theorem shows_iff (hs : 1 ≤ start) (ht : stop ≤ rep.total) :
    Shows (rangeContent rep start stop limit) n ↔ start ≤ n ∧ n ≤ stop := by
  simp only [Shows, rangeContent, mem_numbered hs]
  constructor
  · rintro (⟨_, h, h', -⟩ | ⟨_, h, h', -⟩) <;> exact ⟨h, h'⟩
  · rintro ⟨h, h'⟩
    cases rep with
    | text lines _ =>
      have hlt : n - 1 < lines.length := by
        simp only [Representation.total] at ht
        omega
      exact .inl ⟨_, h, h', List.getElem?_eq_getElem hlt⟩
    | table _ rows _ =>
      have hlt : n - 1 < rows.length := by
        simp only [Representation.total] at ht
        omega
      exact .inr ⟨_, h, h', List.getElem?_eq_getElem hlt⟩
    | file =>
      simp only [Representation.total] at ht
      omega

/-! ## When a selector is answered -/

/-- The range of an answer: where the range asked for lets it start and end. -/
structure Shown (rep : Representation) (cb ca limit first last start stop : Nat) : Prop where
  valid : 1 ≤ first ∧ first ≤ last ∧ last ≤ rep.total
  short : last - first + 1 ≤ limit
  starts : start = max 1 (first - cb)
  stops : stop = min (min rep.total (last + ca)) (start + limit - 1)
  whole : last ≤ stop

theorem isSafeInteger_natCast {k : Nat} (h : k < 2 ^ 32) : isSafeInteger (k : Rat) = true := by
  have hk : (k : Rat) < 2 ^ 32 := by exact_mod_cast h
  have h0 : (0 : Rat) ≤ k := Nat.cast_nonneg k
  rw [isSafeInteger, decide_eq_true_eq]
  exact ⟨Rat.den_natCast k, by linarith, by linarith⟩

theorem exists_natCast {q : Rat} (h : isSafeInteger q = true) (hq : 0 ≤ q) : ∃ k : Nat, q = k := by
  rw [isSafeInteger, decide_eq_true_eq] at h
  have hnum : 0 ≤ q.num := Rat.num_nonneg.2 hq
  refine ⟨q.num.toNat, ?_⟩
  have hcast : ((q.num.toNat : Int) : Rat) = q := by
    rw [Int.toNat_of_nonneg hnum]
    exact Rat.coe_int_num_of_den_eq_one h.1
  exact_mod_cast hcast.symm

theorem boundsFault_natCast {name : String} {k least : Nat} :
    boundsFault name k least = .ok () ↔ least ≤ k ∧ k ≤ 1000 := by
  rw [boundsFault, ok_check, Bool.and_eq_true, Bool.and_eq_true, decide_eq_true_eq, decide_eq_true_eq,
    Nat.cast_le]
  constructor
  · rintro ⟨⟨-, hl⟩, hk⟩
    exact ⟨hl, by exact_mod_cast hk⟩
  · rintro ⟨hl, hk⟩
    exact ⟨⟨isSafeInteger_natCast (by omega), hl⟩, by exact_mod_cast hk⟩

theorem bounds_ok : validateFragmentBounds selector cb ca limit = .ok () ↔ selector ≠ some .malformed ∧
    cb ≤ 1000 ∧ ca ≤ 1000 ∧ 1 ≤ limit ∧ limit ≤ 1000 := by
  have h0 : ∀ (name : String) (k : Nat), boundsFault name k 0 = .ok () ↔ k ≤ 1000 := fun name k => by
    rw [← Nat.cast_zero, boundsFault_natCast]
    exact and_iff_right (Nat.zero_le k)
  have h1 : boundsFault "limit" limit 1 = .ok () ↔ 1 ≤ limit ∧ limit ≤ 1000 := by
    rw [← Nat.cast_one, boundsFault_natCast]
  rw [validateFragmentBounds, ok_check_bind, decide_eq_true_eq, ← h0 "contextBefore", ← h0 "contextAfter", ← h1]
  simp only [ok_bind]
  constructor
  · rintro ⟨hs, ⟨⟩, hb, ⟨⟩, ha, hl⟩
    exact ⟨hs, hb, ha, hl⟩
  · rintro ⟨hs, hb, ha, hl⟩
    exact ⟨hs, (), hb, (), ha, hl⟩

theorem validRange_iff {a b : Rat} : validRange a b rep.total = true ↔
    ∃ first last : Nat, a = first ∧ b = last ∧ 1 ≤ first ∧ first ≤ last ∧ last ≤ rep.total := by
  have ht := total_lt rep
  simp only [validRange, Bool.and_eq_true, decide_eq_true_eq]
  constructor
  · rintro ⟨⟨⟨⟨ha, hb⟩, h1⟩, hle⟩, htotal⟩
    obtain ⟨first, rfl⟩ := exists_natCast ha (by linarith)
    obtain ⟨last, rfl⟩ := exists_natCast hb (by linarith)
    exact ⟨first, last, rfl, rfl, by exact_mod_cast h1, by exact_mod_cast hle, by exact_mod_cast htotal⟩
  · rintro ⟨first, last, rfl, rfl, h1, hle, htotal⟩
    exact ⟨⟨⟨⟨isSafeInteger_natCast (by omega), isSafeInteger_natCast (by omega)⟩, by exact_mod_cast h1⟩,
      by exact_mod_cast hle⟩, by exact_mod_cast htotal⟩

/-- What is not a file is answered within the bounds where the range stands in it, is within the limit,
and is not cut short by the context before it. -/
theorem answers_iff (h : ∀ limitation, rep ≠ .file limitation) : Answers rep cb ca limit selector f ↔
    (cb ≤ 1000 ∧ ca ≤ 1000 ∧ 1 ≤ limit ∧ limit ≤ 1000) ∧
    ((rep.total = 0 ∧ selector = none ∧ f = ⟨0, 0, 0, [], [], rep.columnsOf, false, none⟩) ∨
      ∃ first last start stop : Nat,
        rep.range (selector.getD (rep.selector 1 ↑(min rep.total limit))) = some (↑first, ↑last) ∧
          Shown rep cb ca limit first last start stop ∧ f = rangeContent rep start stop limit) := by
  have hresolve : Answers rep cb ca limit selector f ↔ validateFragmentBounds selector cb ca limit = .ok () ∧
      rangeFragment rep selector cb ca limit = .ok f := by
    cases rep with
    | file limitation => exact absurd rfl (h limitation)
    | _ => 
      rw [Answers, resolveEvidenceFragment, ok_bind]
      simp only [Rat.num_natCast, Int.toNat_natCast, ok_bind]
      constructor
      · rintro ⟨⟨⟩, hb, f, hf, he⟩
        cases he
        exact ⟨hb, hf⟩
      · rintro ⟨hb, hf⟩
        exact ⟨(), hb, f, hf, rfl⟩
  rw [hresolve, bounds_ok, rangeFragment, ok_bind]
  simp only [ok_present]
  constructor
  · rintro ⟨⟨-, hb⟩, range, hrange, hf⟩
    refine ⟨hb, ?_⟩
    split at hf
    · split at hf
      · rename_i hempty
        cases hf
        exact .inl ⟨hempty.1, hempty.2, rfl⟩
      · cases hf
    · rename_i hvalid
      obtain ⟨first, last, hfirst, hlast, h1, hle, ht⟩ := validRange_iff.1 (by simpa using hvalid)
      obtain ⟨hshort, hf⟩ := ok_check_bind.1 hf
      obtain ⟨hwhole, hf⟩ := ok_check_bind.1 hf
      simp only [hfirst, hlast, Rat.num_natCast, Int.toNat_natCast, decide_eq_true_eq] at hshort hwhole hf
      cases hf
      exact .inr ⟨first, last, _, _, by rw [hrange, ← hfirst, ← hlast], ⟨⟨h1, hle, ht⟩, hshort, rfl, rfl, hwhole⟩, rfl⟩
  · rintro ⟨hb, ⟨ht, rfl, rfl⟩ | ⟨first, last, start, stop, hrange, hshown, rfl⟩⟩
    · have hrange : ∃ range : Rat × Rat, rep.range (rep.selector 1 ↑(min rep.total limit)) = some range ∧
          range.1 = 1 ∧ range.2 = 0 := by
        cases rep with
        | file limitation => exact absurd rfl (h limitation)
        | _ => exact ⟨_, rfl, rfl, by simp [ht]⟩
      obtain ⟨range, hrange, h1, h0⟩ := hrange
      refine ⟨⟨by simp, hb⟩, range, hrange, ?_⟩
      have hinvalid : validRange range.1 range.2 rep.total = false := by simp [validRange, h1, h0]
      rw [hinvalid, if_pos Bool.not_false, if_pos ⟨ht, rfl⟩]
    · obtain ⟨⟨h1, hle, ht⟩, hshort, rfl, rfl, hwhole⟩ := hshown
      refine ⟨⟨?_, hb⟩, _, hrange, ?_⟩
      · rintro rfl
        simp [Representation.range] at hrange
      · have hvalid : validRange (first : Rat) (last : Rat) rep.total = true :=
          validRange_iff.2 ⟨first, last, rfl, rfl, h1, hle, ht⟩
        simp only [hvalid, Bool.not_true, Bool.false_eq_true, if_false, Rat.num_natCast, Int.toNat_natCast]
        rw [ok_check_bind, ok_check_bind]
        exact ⟨decide_eq_true hshort, decide_eq_true hwhole, rfl⟩

theorem ne_file (h : Answers rep cb ca limit selector f) (limitation : Option String) :
    rep ≠ .file limitation := by
  rintro rfl
  obtain ⟨-, -, he⟩ := ok_bind.1 h
  obtain ⟨-, he⟩ := ok_check_bind.1 he
  cases he

/-- An answer shows the range asked for, within the limit. -/
theorem answer_sound (h : Answers rep cb ca limit selector f) : Sound rep limit selector f := by
  have hfile := ne_file h
  obtain ⟨-, ⟨-, rfl, rfl⟩ | ⟨first, last, start, stop, hrange, hshown, rfl⟩⟩ := (answers_iff hfile).1 h
  · exact ⟨by simp, by simp, by simp, by simp⟩
  · obtain ⟨⟨h1, hle, ht⟩, hshort, hstart, hstop, hwhole⟩ := hshown
    have hpos : 1 ≤ start := by omega
    refine ⟨?_, ?_, ?_, ?_⟩
    · have hn : stop + 1 - start ≤ limit := by omega
      exact ⟨length_numbered.trans hn, length_numbered.trans hn⟩
    · rintro s rfl range hr n hn hn'
      obtain rfl : range = _ := Option.some.inj (hr.symm.trans hrange)
      dsimp only at hn hn'
      rw [Nat.cast_le] at hn hn'
      exact (shows_iff hpos (by omega)).2 ⟨by omega, by omega⟩
    · intro n t hmem
      obtain ⟨hn, -, ht⟩ := (mem_numbered hpos).1 hmem
      exact ⟨hpos.trans hn, ht⟩
    · intro n cells hmem
      obtain ⟨hn, -, ht⟩ := (mem_numbered hpos).1 hmem
      exact ⟨hpos.trans hn, ht⟩

/-! ## The way to the end -/

/-- The next selector is answered where its range is not cut short: then from the context before it on. -/
theorem next_iff (h : ∀ limitation, rep ≠ .file limitation)
    (hb : cb ≤ 1000 ∧ ca ≤ 1000 ∧ 1 ≤ limit ∧ limit ≤ 1000) :
    Next rep cb ca limit (rangeContent rep start stop limit) g ↔ stop < rep.total ∧
      ∃ start' stop', Shown rep cb ca limit (stop + 1) (min rep.total (stop + limit)) start' stop' ∧
        g = rangeContent rep start' stop' limit := by
  by_cases hstop : stop < rep.total
  · have hnext : (rangeContent rep start stop limit).nextSelector =
        some (rep.selector ↑(stop + 1) ↑(min rep.total (stop + limit))) := if_pos hstop
    have hrange : rep.range (rep.selector ↑(stop + 1) ↑(min rep.total (stop + limit))) =
        some (↑(stop + 1), ↑(min rep.total (stop + limit))) := by
      cases rep with
      | file limitation => exact absurd rfl (h limitation)
      | _ => rfl
    rw [Next, hnext, answers_iff h, Option.getD_some, hrange]
    constructor
    · rintro ⟨-, -, ⟨-, hnone, -⟩ | ⟨first, last, start', stop', he, hshown, rfl⟩⟩
      · cases hnone
      · simp only [Option.some.injEq, Prod.mk.injEq, Nat.cast_inj] at he
        obtain ⟨rfl, rfl⟩ := he
        exact ⟨hstop, start', stop', hshown, rfl⟩
    · rintro ⟨-, start', stop', hshown, rfl⟩
      exact ⟨rfl, hb, .inr ⟨_, _, start', stop', rfl, hshown, rfl⟩⟩
  · have hnext : (rangeContent rep start stop limit).nextSelector = none := if_neg hstop
    rw [Next, hnext]
    simp [hstop]

/-- What an answer that ends here has to be for the selectors to lead on. -/
def Leads (rep : Representation) (cb limit stop : Nat) : Prop :=
  cb = 0 ∨ rep.total ≤ stop ∨ rep.total < max 1 (stop + 1 - cb) + limit

/-- One step: the next answer starts no later than behind this one, ends later, and leads on. -/
theorem next_leads (h1 : 1 ≤ stop) (hlimit : 1 ≤ limit) (hstop : stop < rep.total)
    (hl : Leads rep cb limit stop) : ∃ start' stop',
      Shown rep cb ca limit (stop + 1) (min rep.total (stop + limit)) start' stop' ∧
        stop < stop' ∧ Leads rep cb limit stop' := by
  refine ⟨_, _, ⟨?_, ?_, rfl, rfl, ?_⟩, ?_, ?_⟩
  · omega
  · omega
  · obtain rfl | hl | hl := hl <;> omega
  · obtain rfl | hl | hl := hl <;> omega
  · obtain hl | hl | hl := hl
    · exact .inl hl
    · omega
    · exact .inr (.inl (by omega))

/-- From an answer that leads on, every answer reached leads on. -/
theorem reaches_leads (h : ∀ limitation, rep ≠ .file limitation)
    (hb : cb ≤ 1000 ∧ ca ≤ 1000 ∧ 1 ≤ limit ∧ limit ≤ 1000) (h1 : 1 ≤ stop) (hl : Leads rep cb limit stop)
    (hr : Reaches rep cb ca limit (rangeContent rep start stop limit) f) :
    ∃ start' stop', 1 ≤ stop' ∧ Leads rep cb limit stop' ∧ f = rangeContent rep start' stop' limit := by
  induction hr with
  | refl => exact ⟨start, stop, h1, hl, rfl⟩
  | tail _ hstep ih =>
    obtain ⟨start₁, stop₁, h1₁, hl₁, rfl⟩ := ih
    obtain ⟨hlt, start', stop', hshown, rfl⟩ := (next_iff h hb).1 hstep
    obtain ⟨start₂, stop₂, hshown₂, hlt₂, hl₂⟩ := @next_leads rep cb ca limit stop₁ h1₁ hb.2.2.1 hlt hl₁
    obtain rfl : start' = start₂ := hshown.starts.trans hshown₂.starts.symm
    obtain rfl : stop' = stop₂ := hshown.stops.trans hshown₂.stops.symm
    exact ⟨start', stop', by omega, hl₂, rfl⟩

/-- The end is reached, with every line up to it shown on the way. -/
theorem reaches_end (h : ∀ limitation, rep ≠ .file limitation)
    (hb : cb ≤ 1000 ∧ ca ≤ 1000 ∧ 1 ≤ limit ∧ limit ≤ 1000) (hs : 1 ≤ start) (h1 : 1 ≤ stop)
    (ht : stop ≤ rep.total) (hl : Leads rep cb limit stop) :
    (∃ last, Reaches rep cb ca limit (rangeContent rep start stop limit) last ∧
      last.nextSelector = none ∧ last.hasMore = false) ∧
    ∀ n, start ≤ n → n ≤ rep.total →
      ∃ f, Reaches rep cb ca limit (rangeContent rep start stop limit) f ∧ Shows f n := by
  induction hk : rep.total - stop using Nat.strong_induction_on generalizing start stop with
  | _ k ih =>
    by_cases hlt : stop < rep.total
    · obtain ⟨start', stop', hshown, hlt', hl'⟩ := @next_leads rep cb ca limit stop h1 hb.2.2.1 hlt hl
      have hstep := (@next_iff rep cb ca limit start stop _ h hb).2
        ⟨hlt, start', stop', hshown, rfl⟩
      have hstarts := hshown.starts
      have hstops := hshown.stops
      obtain ⟨⟨last, hlast, hnone⟩, hall⟩ :=
        @ih (rep.total - stop') (by omega) start' stop' (by omega) (by omega) (by omega) hl' rfl
      refine ⟨⟨last, .head hstep hlast, hnone⟩, fun n hn hn' => ?_⟩
      by_cases hin : n ≤ stop
      · exact ⟨_, .refl, (shows_iff hs ht).2 ⟨hn, hin⟩⟩
      · obtain ⟨f, hf, hshows⟩ := hall n (by omega) hn'
        exact ⟨f, .head hstep hf, hshows⟩
    · refine ⟨⟨_, .refl, if_neg hlt, decide_eq_false hlt⟩, fun n hn hn' => ?_⟩
      exact ⟨_, .refl, (shows_iff hs ht).2 ⟨hn, by omega⟩⟩

/-- Whoever follows the next selectors comes to the end exactly where nothing of the context before the
next range is in its way. -/
theorem paging_iff (h : Answers rep cb ca limit selector f) :
    Paged rep cb ca limit f ↔ Followable rep cb ca limit selector := by
  have hfile := ne_file h
  obtain ⟨hb, ⟨ht, rfl, rfl⟩ | ⟨first, last, start, stop, hrange, hshown, rfl⟩⟩ := (answers_iff hfile).1 h
  · have hlast : ∀ g, Reaches rep cb ca limit ⟨0, 0, 0, [], [], rep.columnsOf, false, none⟩ g →
        g = ⟨0, 0, 0, [], [], rep.columnsOf, false, none⟩ := fun g hg => by
      obtain rfl | ⟨g, hstep, -⟩ := Relation.ReflTransGen.cases_head hg
      · rfl
      · exact absurd hstep.1 (by simp)
    refine iff_of_true ⟨fun _ _ => answer_sound, fun g hg hne => ?_, ⟨_, .refl, rfl, rfl⟩, ?_⟩
      (.inr (.inl (by omega)))
    · rw [hlast g hg] at hne
      exact absurd rfl hne
    · intro n h1 _ hn
      omega
  · have hstarts := hshown.starts
    have hstops := hshown.stops
    have hvalid := hshown.valid
    have hwhole := hshown.whole
    have hup : shownUpTo rep cb ca limit selector = stop := by
      rw [shownUpTo, hrange]
      simp only [Rat.num_natCast, Int.toNat_natCast]
      rw [hstops, hstarts]
    have hiff : Followable rep cb ca limit selector ↔ Leads rep cb limit stop := by
      rw [Followable, hup, Leads]
    rw [hiff]
    constructor
    · intro hp
      by_contra hno
      simp only [Leads, not_or, not_le, not_lt] at hno
      obtain ⟨g, hg⟩ := hp.answered _ .refl (by rw [rangeContent]; simp [hno.2.1])
      obtain ⟨-, start', stop', hshown', -⟩ := (next_iff hfile hb).1 hg
      have := hshown'.starts
      have := hshown'.stops
      have := hshown'.whole
      omega
    · intro hl
      obtain ⟨hend, hall⟩ := @reaches_end rep cb ca limit start stop hfile hb (by omega) (by omega) (by omega) hl
      refine ⟨fun _ _ => answer_sound, fun f hf hne => ?_, hend, fun n _ => hall n⟩
      obtain ⟨start', stop', h1, hl', rfl⟩ := reaches_leads hfile hb (by omega) hl hf
      have hlt : stop' < rep.total := by
        by_contra hlt
        exact hne (if_neg hlt)
      obtain ⟨start₂, stop₂, hshown₂, -⟩ := @next_leads rep cb ca limit stop' h1 hb.2.2.1 hlt hl'
      exact ⟨_, (next_iff hfile hb).2 ⟨hlt, start₂, stop₂, hshown₂, rfl⟩⟩

/-- Three lines, one at a time. -/
def threeLines : Representation := .text [[0x61], [0x62], [0x63]] (by decide)

theorem threeLines_first (h : cb ≤ 1000) :
    Answers threeLines cb 0 1 none (rangeContent threeLines 1 1 1) := by
  refine (answers_iff (by simp [threeLines])).2 ⟨by omega, .inr ⟨1, 1, 1, 1, ?_, ?_, rfl⟩⟩
  · simp [threeLines, Representation.range, Representation.selector, Representation.total]
  · exact ⟨by decide, by decide, by omega, by decide, by decide⟩

/-- With no context before, the three answers are followed to the end. -/
theorem threeLines_paged : ∃ f, Answers threeLines 0 0 1 none f ∧ Paged threeLines 0 0 1 f :=
  ⟨_, threeLines_first (by decide), (paging_iff (threeLines_first (by decide))).2 (.inl rfl)⟩

/-- With a line of context before, the next selector of the first answer is refused. -/
theorem continuation_refused : ∃ f, Answers threeLines 1 0 1 none f ∧ f.nextSelector.isSome ∧
    ∀ g, ¬Answers threeLines 1 0 1 f.nextSelector g := by
  refine ⟨_, threeLines_first (by decide), rfl, fun g hg => ?_⟩
  obtain ⟨-, start, stop, hshown, -⟩ := (next_iff (by simp [threeLines]) (by decide)).1 ⟨rfl, hg⟩
  have hstart := hshown.starts
  have hstop := hshown.stops
  have hwhole := hshown.whole
  simp [threeLines, Representation.total] at hwhole hstop
  omega

end CarbonRuntime.Bugs.RefusedContinuation
