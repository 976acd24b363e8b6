import CarbonRuntime.Core.Grouping
import Mathlib.Data.List.Nodup

/-!
# A log of rising ordinals, folded and followed

Entries are added at the end, each with an ordinal above those before it. One reader keeps a fold
of the log and knows by how many entries it is behind (`Folded`); another reads the entries past
the ordinal it has reached, page by page (`upTo`, `pageAfter`).

**Results.** A fold that is one entry behind is caught up by that entry (`Folded.catchUp`), and one
made anew from the entries in any order, sorted, is not behind (`foldl_sortBy`). A page joins what
is up to a cursor with what is up to the page's end (`upTo_page`), and entries added later do not
change what was read (`upTo_append`).
-/
namespace CarbonRuntime.Core

namespace Log

variable {α σ : Type*} {ordinal : α → Nat} {log : List α} {f : σ → α → σ} {s₀ s : σ}
  {behind cursor limit n : Nat} {x : α}

/-- Each entry's ordinal is above those of the entries before it. -/
def Rising (ordinal : α → Nat) (log : List α) : Prop :=
  log.Pairwise fun x y => ordinal x < ordinal y

theorem rising_append (h : Rising ordinal log) (hx : ∀ y ∈ log, ordinal y < ordinal x) :
    Rising ordinal (log ++ [x]) :=
  List.pairwise_append.2 ⟨h, List.pairwise_singleton _ _, fun y hy z hz => by
    rw [List.mem_singleton.1 hz]
    exact hx y hy⟩

/-- An ordinal is one entry's. -/
theorem rising_inj {y : α} (h : Rising ordinal log) (hx : x ∈ log) (hy : y ∈ log)
    (he : ordinal x = ordinal y) : x = y := by
  have hnodup : (log.map ordinal).Nodup :=
    List.pairwise_map.2 (h.imp fun hlt => Nat.ne_of_lt hlt)
  exact List.inj_on_of_nodup_map hnodup hx hy he

/-! ## Folded -/

/-- What the fold of all but the last `behind` entries comes to. -/
structure Folded (f : σ → α → σ) (s₀ : σ) (log : List α) (behind : Nat) (s : σ) : Prop where
  short : behind ≤ log.length
  eq : s = (log.take (log.length - behind)).foldl f s₀

theorem folded_all : Folded f s₀ log 0 (log.foldl f s₀) :=
  ⟨Nat.zero_le _, by rw [Nat.sub_zero, List.take_length]⟩

theorem Folded.all (h : Folded f s₀ log 0 s) : s = log.foldl f s₀ := by
  rw [h.eq, Nat.sub_zero, List.take_length]

theorem Folded.append (h : Folded f s₀ log behind s) (x : α) :
    Folded f s₀ (log ++ [x]) (behind + 1) s := by
  refine ⟨by simp only [List.length_append, List.length_singleton]; exact Nat.succ_le_succ h.short, ?_⟩
  have hlen : (log ++ [x]).length - (behind + 1) = log.length - behind := by
    simp only [List.length_append, List.length_singleton]
    omega
  rw [hlen, List.take_append_of_le_length (Nat.sub_le _ _)]
  exact h.eq

theorem Folded.catchUp (h : Folded f s₀ log 1 s) (hx : log.getLast? = some x) :
    f s x = log.foldl f s₀ := by
  obtain ⟨older, rfl⟩ := List.getLast?_eq_some_iff.1 hx
  rw [List.foldl_append, h.eq]
  simp

def below (ordinal : α → Nat) (x y : α) : Bool := decide (ordinal x < ordinal y)

theorem weakOrder_below (ordinal : α → Nat) : WeakOrder (below ordinal) where
  asymm x y h := by
    simp only [below, decide_eq_true_eq, decide_eq_false_iff_not] at h ⊢
    omega
  split x y z h := by
    simp only [below, decide_eq_true_eq] at h ⊢
    omega

/-- The entries in whatever order, sorted, are the log. -/
theorem sortBy_rising (h : Rising ordinal log) {l : List α} (hl : l.Perm log) :
    sortBy (below ordinal) l = log := by
  have hperm := (sortBy_perm (below ordinal) l).trans hl
  have hsorted := sortBy_sorted (weakOrder_below ordinal) l
  have hlog : log.Pairwise fun x y => below ordinal y x = false := h.imp fun hlt => by
    simp only [below, decide_eq_false_iff_not]
    omega
  refine hperm.eq_of_pairwise (fun x y hx hy hxy hyx => ?_) hsorted hlog
  simp only [below, decide_eq_false_iff_not] at hxy hyx
  exact rising_inj h (hperm.mem_iff.1 hx) hy (by omega)

theorem foldl_sortBy (h : Rising ordinal log) {l : List α} (hl : l.Perm log) :
    Folded f s₀ log 0 ((sortBy (below ordinal) l).foldl f s₀) := by
  rw [sortBy_rising h hl]
  exact folded_all

/-! ## Followed -/

/-- The entries up to a cursor. -/
def upTo (ordinal : α → Nat) (log : List α) (cursor : Nat) : List α :=
  log.filter fun x => decide (ordinal x ≤ cursor)

/-- The entries past a cursor. -/
def pastCursor (ordinal : α → Nat) (log : List α) (cursor : Nat) : List α :=
  log.filter fun x => decide (cursor < ordinal x)

/-- Where a reader goes on after a page. -/
def pageEnd (ordinal : α → Nat) (cursor : Nat) (page : List α) : Nat :=
  (page.getLast?.map ordinal).getD cursor

theorem upTo_append (h : cursor < ordinal x) :
    upTo ordinal (log ++ [x]) cursor = upTo ordinal log cursor := by
  rw [upTo, List.filter_append, List.filter_cons_of_neg (by simpa using h)]
  simp [upTo]

theorem upTo_pastCursor (h : Rising ordinal log) :
    upTo ordinal log cursor ++ pastCursor ordinal log cursor = log := by
  induction log with
  | nil => rfl
  | cons x log ih =>
    obtain ⟨hx, hlog⟩ := List.pairwise_cons.1 h
    by_cases hc : ordinal x ≤ cursor
    · have hn : ¬ cursor < ordinal x := Nat.not_lt.2 hc
      rw [upTo, pastCursor, List.filter_cons_of_pos (by simpa using hc),
        List.filter_cons_of_neg (by simpa using hn), List.cons_append]
      exact congrArg (x :: ·) (ih hlog)
    · have hlt := Nat.lt_of_not_le hc
      have hnil : upTo ordinal (x :: log) cursor = [] := by
        refine List.filter_eq_nil_iff.2 fun y hy => ?_
        simp only [decide_eq_true_eq, Nat.not_le]
        rcases List.mem_cons.1 hy with rfl | hy
        · exact hlt
        · exact Nat.lt_trans hlt (hx y hy)
      have hall : pastCursor ordinal (x :: log) cursor = x :: log := by
        refine List.filter_eq_self.2 fun y hy => ?_
        simp only [decide_eq_true_eq]
        rcases List.mem_cons.1 hy with rfl | hy
        · exact hlt
        · exact Nat.lt_trans hlt (hx y hy)
      rw [hnil, hall, List.nil_append]

/-- In a rising log that starts with what is up to `cursor`, what is up to the end of a page of
the rest is that and the page. -/
theorem upTo_page (h : Rising ordinal log) :
    upTo ordinal log (pageEnd ordinal cursor ((pastCursor ordinal log cursor).take limit)) =
      upTo ordinal log cursor ++ (pastCursor ordinal log cursor).take limit := by
  have hsplit := @upTo_pastCursor _ _ _ cursor h
  generalize hp : pastCursor ordinal log cursor = past at hsplit ⊢
  generalize hu : upTo ordinal log cursor = before at hsplit ⊢
  cases hl : (past.take limit).getLast? with
  | none =>
    have hnil := List.getLast?_eq_none_iff.1 hl
    rw [hnil, pageEnd, List.getLast?_nil, List.append_nil]
    exact hu
  | some x =>
    rw [pageEnd, hl]
    simp only [Option.map_some, Option.getD_some]
    obtain ⟨page, hpage⟩ := List.getLast?_eq_some_iff.1 hl
    have hlog : log = (before ++ past.take limit) ++ past.drop limit := by
      rw [List.append_assoc, List.take_append_drop, hsplit]
    have hrise := h
    rw [hlog, Rising, List.pairwise_append] at hrise
    obtain ⟨hfirst, -, hcross⟩ := hrise
    rw [hpage, ← List.append_assoc, List.pairwise_append] at hfirst
    have hx : x ∈ before ++ past.take limit := List.mem_append_right _ (List.mem_of_getLast? hl)
    rw [hlog, upTo, List.filter_append]
    have hkeep : (before ++ past.take limit).filter (fun y => decide (ordinal y ≤ ordinal x)) =
        before ++ past.take limit := by
      refine List.filter_eq_self.2 fun y hy => ?_
      rw [hpage, ← List.append_assoc] at hy
      simp only [decide_eq_true_eq]
      rcases List.mem_append.1 hy with hy | hy
      · exact Nat.le_of_lt (hfirst.2.2 y hy x (List.mem_singleton_self x))
      · exact Nat.le_of_eq (by rw [List.mem_singleton.1 hy])
    have hdrop : (past.drop limit).filter (fun y => decide (ordinal y ≤ ordinal x)) = [] := by
      refine List.filter_eq_nil_iff.2 fun y hy => ?_
      have := hcross x hx y hy
      simp only [decide_eq_true_eq]
      omega
    rw [hkeep, hdrop, List.append_nil]

end Log

end CarbonRuntime.Core
