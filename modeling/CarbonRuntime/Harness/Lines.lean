import CarbonRuntime.Adapters.Chunks
import CarbonRuntime.Core.Splitting

/-!
# Lines from the harness

`LineSplitter` of harness/codex/protocol.ts:19-38: it keeps the line it is in and gives the complete ones,
trimmed and without the empty ones. The limit is on what it keeps together with the chunk.

**Results.** `pushes_returned`: what comes back is a beginning of the whole text's lines, and all of them
where nothing is thrown (`pushes_all`), however the text is cut.
-/

open CarbonRuntime.Core Cutting Splitting

namespace CarbonRuntime.Harness

open Adapters.Chunks (isSpace)

/-- `'\n'` -/
def lf : UInt16 := 0xa

structure LineSplitter where
  buffer : Utf16.Text := []
  limit : Nat
deriving DecidableEq

/-- `line.trim()`, and the empty ones dropped. -/
def trimmed (lines : List Utf16.Text) : List Utf16.Text :=
  (lines.map (trim isSpace)).filter (0 < ·.length)

def tooLong (limit : Nat) : String :=
  "a single protocol line exceeded " ++ toString limit ++ " bytes with no newline"

/-- mirrors protocol.ts:30-37; what is thrown leaves the chunk in the buffer -/
def LineSplitter.push (s : LineSplitter) (chunk : Utf16.Text) :
    Except String (List Utf16.Text) × LineSplitter :=
  let buffer := s.buffer ++ chunk
  if s.limit < buffer.length then (.error (tooLong s.limit), { s with buffer })
  else (.ok (trimmed (complete lf buffer)), { s with buffer := tail lf buffer })

/-- What each push comes to, one after the other. -/
def LineSplitter.pushes : LineSplitter → List Utf16.Text → List (Except String (List Utf16.Text))
  | _, [] => []
  | s, chunk :: chunks => (s.push chunk).1 :: (s.push chunk).2.pushes chunks

/-- Some push throws. -/
def throws (outcomes : List (Except String (List Utf16.Text))) : Bool := outcomes.any fun o => !o.toBool

/-- The lines that come back. -/
def returned (outcomes : List (Except String (List Utf16.Text))) : List Utf16.Text :=
  outcomes.flatMap fun o => o.toOption.getD []

variable {s : LineSplitter} {chunks : List Utf16.Text} {limit : Nat}

theorem trimmed_append (a b : List Utf16.Text) : trimmed (a ++ b) = trimmed a ++ trimmed b := by
  simp [trimmed]

/-- Once something is thrown nothing comes back. -/
theorem pushes_over (h : s.limit < s.buffer.length) : returned (s.pushes chunks) = [] := by
  induction chunks generalizing s with
  | nil => rfl
  | cons chunk chunks ih =>
    have hlong : s.limit < (s.buffer ++ chunk).length := by
      rw [List.length_append]
      omega
    rw [LineSplitter.pushes, LineSplitter.push]
    simp only [if_pos hlong]
    rw [returned, List.flatMap_cons]
    exact ih hlong

/-- A push that does not throw gives its lines and keeps the one it is in. -/
theorem pushes_within {chunk : Utf16.Text} (h : (s.buffer ++ chunk).length ≤ s.limit) :
    s.pushes (chunk :: chunks) = .ok (trimmed (complete lf (s.buffer ++ chunk))) ::
      ({ s with buffer := tail lf (s.buffer ++ chunk) } : LineSplitter).pushes chunks := by
  rw [LineSplitter.pushes, LineSplitter.push]
  simp only [if_neg (Nat.not_lt.2 h)]

theorem pushes_past {chunk : Utf16.Text} (h : s.limit < (s.buffer ++ chunk).length) :
    s.pushes (chunk :: chunks) = .error (tooLong s.limit) ::
      ({ s with buffer := s.buffer ++ chunk } : LineSplitter).pushes chunks := by
  rw [LineSplitter.pushes, LineSplitter.push]
  simp only [if_pos h]

theorem throws_iff (hopen : lf ∉ s.buffer) : throws (s.pushes chunks) = true ↔
    ∃ before chunk after, chunks = before ++ chunk :: after ∧
      s.limit < (tail lf (s.buffer ++ before.flatten)).length + chunk.length := by
  induction chunks generalizing s with
  | nil =>
    refine iff_of_false (fun h => by cases h) ?_
    rintro ⟨before, chunk, after, h, -⟩
    cases before <;> cases h
  | cons chunk chunks ih =>
    have hhere : tail lf (s.buffer ++ ([] : List Utf16.Text).flatten) = s.buffer := by
      rw [List.flatten_nil, List.append_nil, tail_open hopen]
    by_cases hlong : s.limit < (s.buffer ++ chunk).length
    · rw [pushes_past hlong]
      refine iff_of_true rfl ⟨[], chunk, chunks, rfl, ?_⟩
      rw [hhere, ← List.length_append]
      exact hlong
    · rw [pushes_within (Nat.not_lt.1 hlong)]
      have hmore := ih (s := { s with buffer := tail lf (s.buffer ++ chunk) }) (not_mem_tail _)
      refine Iff.trans hmore ⟨?_, ?_⟩
      · rintro ⟨before, c, after, rfl, hc⟩
        refine ⟨chunk :: before, c, after, rfl, ?_⟩
        rwa [List.flatten_cons, ← List.append_assoc, tail_append]
      · rintro ⟨before, c, after, heq, hc⟩
        cases before with
        | nil =>
          obtain ⟨rfl, rfl⟩ := List.cons.inj heq
          rw [hhere, ← List.length_append] at hc
          exact absurd hc hlong
        | cons b before =>
          obtain ⟨rfl, rfl⟩ := List.cons.inj heq
          refine ⟨before, c, after, rfl, ?_⟩
          rwa [List.flatten_cons, ← List.append_assoc, tail_append] at hc

theorem pushes_all (hopen : lf ∉ s.buffer) (h : throws (s.pushes chunks) = false) :
    returned (s.pushes chunks) = trimmed (complete lf (s.buffer ++ chunks.flatten)) := by
  induction chunks generalizing s with
  | nil =>
    rw [List.flatten_nil, List.append_nil, complete_open hopen]
    rfl
  | cons chunk chunks ih =>
    by_cases hlong : s.limit < (s.buffer ++ chunk).length
    · rw [pushes_past hlong] at h
      cases h
    · rw [pushes_within (Nat.not_lt.1 hlong)] at h ⊢
      have hrest := ih (s := { s with buffer := tail lf (s.buffer ++ chunk) }) (not_mem_tail _) h
      rw [returned, List.flatMap_cons]
      change trimmed _ ++ returned _ = _
      rw [hrest, ← trimmed_append, ← complete_append, List.flatten_cons, List.append_assoc]

theorem pushes_returned (hopen : lf ∉ s.buffer) :
    returned (s.pushes chunks) <+: trimmed (complete lf (s.buffer ++ chunks.flatten)) := by
  induction chunks generalizing s with
  | nil => exact List.nil_prefix
  | cons chunk chunks ih =>
    by_cases hlong : s.limit < (s.buffer ++ chunk).length
    · rw [pushes_past hlong, returned, List.flatMap_cons]
      change [] ++ returned _ <+: _
      rw [pushes_over hlong]
      exact List.nil_prefix
    · have hrest := ih (s := { s with buffer := tail lf (s.buffer ++ chunk) }) (not_mem_tail _)
      have hall := complete_append (s := lf) (a := s.buffer ++ chunk) (b := chunks.flatten)
      rw [pushes_within (Nat.not_lt.1 hlong), returned, List.flatMap_cons, List.flatten_cons,
        ← List.append_assoc, hall, trimmed_append]
      exact (List.prefix_append_right_inj _).2 hrest

/-- A line over the limit is noticed. -/
theorem throws_of_long {line : Utf16.Text} (hbuffer : s.buffer.length ≤ s.limit)
    (hline : line ∈ (s.buffer ++ chunks.flatten).splitOn lf) (hlong : s.limit < line.length) :
    throws (s.pushes chunks) = true := by
  induction chunks generalizing s with
  | nil =>
    rw [List.flatten_nil, List.append_nil] at hline
    have := length_le_splitOn hline
    omega
  | cons chunk chunks ih =>
    by_cases hover : s.limit < (s.buffer ++ chunk).length
    · rw [pushes_past hover]
      rfl
    · rw [pushes_within (Nat.not_lt.1 hover)]
      rw [List.flatten_cons, ← List.append_assoc, splitOn_append] at hline
      obtain hline | hline := List.mem_append.1 hline
      · have := length_le_splitOn (List.dropLast_subset _ hline)
        omega
      · refine ih (s := { s with buffer := tail lf (s.buffer ++ chunk) }) ?_ hline hlong
        have htail : tail lf (s.buffer ++ chunk) ∈ (s.buffer ++ chunk).splitOn lf := by
          rw [splitOn_eq]
          exact List.mem_append_right _ List.mem_cons_self
        have := length_le_splitOn htail
        change (tail lf (s.buffer ++ chunk)).length ≤ s.limit
        omega

end CarbonRuntime.Harness
