import CarbonRuntime.Runtime.Fragments

/-!
# A last row of one empty field in quotes

`csv` keeps no note of the quotes a field had (runtime/browser-evidence-representation.ts:16-27). At the
end of the text it takes a row where the field has text or fields come before it, so a last row `""`
that no line break ends is none.

Every table is read back from each of its encodings exactly where the text does not end so
(`reads_back_iff`); of any other text that is read, nothing is lost but such a row.

Counterexample: the table of that one row.
-/

open CarbonRuntime.Core Utf16

namespace CarbonRuntime.Bugs.DroppedRow

open Runtime.Fragments Csv

variable {t rest text : Text} {s s' : Scan} {c : Cell} {b : Break} {r : Record} {L : Layout}
  {rows : List (List Text)}

/-! ## A layout, read -/

/-- Within quotes anything is the field's, a quote by two. -/
theorem scan_quoted (hrest : rest.head? ≠ some quote) (hs : s.quoted = true) :
    scan (doubled t ++ quote :: rest) s =
      scan rest { s with field := s.field ++ t, quoted := false } := by
  induction t generalizing s with
  | nil =>
    rw [doubled, List.nil_append, scan, if_pos rfl, if_neg fun h => hrest h.2, toggleQuote,
      if_pos (.inr hs), List.append_nil, hs]
    rfl
  | cons u t ih =>
    by_cases hu : u = quote
    · rw [doubled, if_pos hu, List.cons_append, scan, if_pos rfl, if_pos ⟨hs, rfl⟩, List.cons_append,
        List.tail_cons, ih (by exact hs), hu]
      simp
    · rw [doubled, if_neg hu, List.cons_append, scan, if_neg hu]
      simp only [hs, Bool.not_true, Bool.false_eq_true, false_and, if_false]
      rw [ih rfl]
      simp

theorem scan_plain (ht : ∀ u ∈ t, Plain u) (hs : s.quoted = false) :
    scan (t ++ rest) s = scan rest { s with field := s.field ++ t } := by
  induction t generalizing s with
  | nil => simp
  | cons u t ih =>
    obtain ⟨hq, hc, hl, hr⟩ := ht u List.mem_cons_self
    rw [List.cons_append, scan, if_neg hq, if_neg fun h => hc h.2, if_neg fun h => h.2.elim hl hr,
      ih (fun u hu => ht u (List.mem_cons_of_mem _ hu)) (by exact hs)]
    simp

/-- One field, up to what ends it. -/
theorem scan_cell (hrest : rest.head? ≠ some quote) (hs : s.quoted = false) (hf : s.field = []) :
    scan (c.write ++ rest) s = scan rest { s with field := c.value } := by
  obtain ⟨quoted, tail, bare⟩ := c
  cases quoted with
  | none => simp [Cell.write, Cell.value, scan_plain bare hs, hf]
  | some t =>
    have hhead : (tail ++ rest).head? ≠ some quote := by
      cases tail with
      | nil => exact hrest
      | cons u tail => simpa using (bare u List.mem_cons_self).1
    have hopen : scan (quote :: (doubled t ++ quote :: (tail ++ rest))) s =
        scan (doubled t ++ quote :: (tail ++ rest)) { s with quoted := true } := by
      rw [scan, if_pos rfl, if_neg fun h => by simp [hs] at h, toggleQuote, if_pos (.inl hf), hs]
      rfl
    simp only [Cell.write, Cell.value, List.cons_append, List.append_assoc]
    rw [hopen, scan_quoted hhead rfl, scan_plain bare rfl]
    simp [hf, hs]

/-- The fields behind a comma, up to what ends the record. -/
theorem scan_cells {cells : List Cell} (hrest : rest.head? ≠ some quote) (hs : s.quoted = false) :
    ∃ row field, row ++ [field] = s.row ++ [s.field] ++ cells.map (·.value) ∧
      scan ((cells.flatMap fun c => comma :: c.write) ++ rest) s = scan rest { s with row, field } := by
  induction cells generalizing s with
  | nil => exact ⟨s.row, s.field, by simp, rfl⟩
  | cons c cells ih =>
    have hnext : ((cells.flatMap fun c => comma :: c.write) ++ rest).head? ≠ some quote := by
      cases cells with
      | nil => exact hrest
      | cons => simp [comma, quote]
    have hcomma : scan (comma :: (c.write ++ ((cells.flatMap fun c => comma :: c.write) ++ rest))) s =
        scan (c.write ++ ((cells.flatMap fun c => comma :: c.write) ++ rest))
          { s with row := s.row ++ [s.field], field := [] } := by
      rw [scan, if_neg (by decide), if_pos ⟨by simp [hs], rfl⟩]
    obtain ⟨row, field, hrow, hscan⟩ :=
      @ih { s with row := s.row ++ [s.field], field := c.value } hs
    refine ⟨row, field, by simpa using hrow, ?_⟩
    rw [List.flatMap_cons, List.cons_append, List.cons_append, List.append_assoc, hcomma,
      scan_cell hnext (by exact hs) (by rfl), hscan]

theorem scan_record (hrest : rest.head? ≠ some quote) (hs : s.quoted = false) (hf : s.field = [])
    (hr : s.row = []) : ∃ row field, row ++ [field] = r.values ∧
      scan (r.write ++ rest) s = scan rest { s with row, field } := by
  have hnext : ((r.others.flatMap fun c => comma :: c.write) ++ rest).head? ≠ some quote := by
    cases r.others with
    | nil => exact hrest
    | cons => simp [comma, quote]
  obtain ⟨row, field, hrow, hscan⟩ := @scan_cells rest { s with field := r.first.value } r.others hrest hs
  refine ⟨row, field, by simpa [hr, Record.values, Record.cells] using hrow, ?_⟩
  rw [Record.write, List.append_assoc, scan_cell hnext hs hf, hscan]

theorem scan_break (hb : b ≠ .cr) (hs : s.quoted = false) : scan (b.write ++ rest) s =
    scan rest { s with rows := s.rows ++ [s.row ++ [s.field]], row := [], field := [] } := by
  cases b with
  | cr => exact absurd rfl hb
  | lf =>
    rw [Break.write, List.cons_append, scan, if_neg (by decide), if_neg fun h => absurd h.2 (by decide),
      if_pos ⟨by simp [hs], .inl rfl⟩, if_neg fun h => absurd h.1 (by decide)]
    rfl
  | crlf =>
    rw [Break.write, List.cons_append, scan, if_neg (by decide), if_neg fun h => absurd h.2 (by decide),
      if_pos ⟨by simp [hs], .inr rfl⟩, if_pos ⟨rfl, rfl⟩]
    rfl

theorem head_break : (b.write ++ rest).head? ≠ some quote := by
  cases b <;> simp [Break.write, quote, Csv.lf, Csv.cr]

/-- The records that a break ends become rows. -/
theorem scan_ended {ended : List (Record × Break)} (hb : ∀ r ∈ ended, r.2 ≠ .cr) :
    scan ((ended.flatMap fun r => r.1.write ++ r.2.write) ++ rest) ⟨rows, [], [], false⟩ =
      scan rest ⟨rows ++ ended.map (·.1.values), [], [], false⟩ := by
  induction ended generalizing rows with
  | nil => simp
  | cons r ended ih =>
    obtain ⟨row, field, hrow, hscan⟩ := @scan_record
      (r.2.write ++ ((ended.flatMap fun r => r.1.write ++ r.2.write) ++ rest))
      ⟨rows, [], [], false⟩ r.1 head_break rfl rfl rfl
    rw [List.flatMap_cons, List.append_assoc, List.append_assoc, hscan,
      scan_break (hb r List.mem_cons_self) rfl, hrow, ih fun r hr => hb r (List.mem_cons_of_mem _ hr)]
    simp

/-! ## A text, laid out

What has been read, as a layout so far. -/

/-- What is read of a field: quotes are open around it, or it may be at its end. -/
inductive Part (rest field raw : Text) : Bool → Prop
  | opened (hw : quote :: doubled field = raw) : Part rest field raw true
  | closed (c : Cell) (hv : c.value = field) (hw : c.write = raw)
      (hnext : field = [] → c.quoted ≠ none → rest.head? ≠ some quote) : Part rest field raw false

/-- The text read, where the loop stands at these values with the rest to come. -/
def Laid (text rest : Text) (s : Scan) : Prop :=
  ∃ (ended : List (Record × Break)) (cells : List Cell) (raw : Text),
    text = (ended.flatMap fun r => r.1.write ++ r.2.write) ++
      ((cells.flatMap fun c => c.write ++ [comma]) ++ raw) ∧
    s.rows = ended.map (·.1.values) ∧ s.row = cells.map (·.value) ∧ Part rest s.field raw s.quoted

/-- Fields with a comma behind each, and the last one, are a record. -/
theorem exists_record (cells : List Cell) (c : Cell) : ∃ r : Record, r.cells = cells ++ [c] ∧
    r.write = (cells.flatMap fun c => c.write ++ [comma]) ++ c.write := by
  induction cells with
  | nil => exact ⟨⟨c, []⟩, rfl, by simp [Record.write]⟩
  | cons d cells ih =>
    obtain ⟨⟨first, others⟩, hcells, hwrite⟩ := ih
    refine ⟨⟨d, first :: others⟩, by simpa [Record.cells] using hcells, ?_⟩
    rw [Record.write] at hwrite
    simp [Record.write, ← hwrite]

theorem part_none : Part rest [] [] false :=
  .closed ⟨none, [], by simp⟩ rfl rfl fun _ h => absurd rfl h

theorem laid_doubled (h : Laid text (quote :: quote :: rest) s) (hs : s.quoted = true) :
    Laid (text ++ [quote, quote]) rest { s with field := s.field ++ [quote] } := by
  obtain ⟨ended, cells, raw, rfl, hrows, hrow, hpart⟩ := h
  rw [hs] at hpart
  cases hpart with
  | opened hw =>
    refine ⟨ended, cells, raw ++ [quote, quote], by simp, hrows, hrow, ?_⟩
    dsimp only
    rw [hs]
    exact .opened (by simp [doubled, doubled_append, ← hw])

/-- A quote that is not the first of two, where the loop takes it. -/
theorem laid_toggle {quoted : Bool} (h : Laid text (quote :: rest) s)
    (hone : ¬(s.quoted = true ∧ rest.head? = some quote)) (ht : toggleQuote s.field s.quoted = .ok quoted) :
    Laid (text ++ [quote]) rest { s with quoted } := by
  obtain ⟨ended, cells, raw, rfl, hrows, hrow, hpart⟩ := h
  unfold toggleQuote at ht
  split at ht
  · rename_i hfield
    cases ht
    refine ⟨ended, cells, raw ++ [quote], by simp, hrows, hrow, ?_⟩
    dsimp only
    cases hq : s.quoted with
    | true =>
      rw [hq] at hpart
      cases hpart with
      | opened hw =>
        refine .closed ⟨some s.field, [], by simp⟩ (by simp [Cell.value]) ?_ fun _ _ hh => hone ⟨hq, hh⟩
        simp [Cell.write, ← hw]
    | false =>
      rw [hq] at hpart hfield
      have hempty : s.field = [] := by simpa using hfield
      cases hpart with
      | closed c hv hw hnext =>
        have hbare : c.quoted = none := by
          by_contra hq
          exact hnext hempty hq rfl
        have hvalue : c.tail = [] := by simpa [hempty, Cell.value, hbare] using hv
        have hraw : raw = [] := by simpa [Cell.write, hbare, hvalue] using hw.symm
        rw [hempty, hraw]
        exact .opened rfl
  · cases ht

theorem laid_comma (h : Laid text (comma :: rest) s) (hs : s.quoted = false) :
    Laid (text ++ [comma]) rest { s with row := s.row ++ [s.field], field := [] } := by
  obtain ⟨ended, cells, raw, rfl, hrows, hrow, hpart⟩ := h
  rw [hs] at hpart
  cases hpart with
  | closed c hv hw =>
    refine ⟨ended, cells ++ [c], [], by simp [hw], hrows, by simp [hrow, hv], ?_⟩
    dsimp only
    rw [hs]
    exact part_none

theorem laid_break {before : Text} (h : Laid text before s) (hs : s.quoted = false) (b : Break) :
    Laid (text ++ b.write) rest { s with rows := s.rows ++ [s.row ++ [s.field]], row := [], field := [] } := by
  obtain ⟨ended, cells, raw, rfl, hrows, hrow, hpart⟩ := h
  rw [hs] at hpart
  cases hpart with
  | closed c hv hw =>
    obtain ⟨r, hcells, hwrite⟩ := exists_record cells c
    refine ⟨ended ++ [(r, b)], [], [], by simp [hwrite, hw], ?_, rfl, ?_⟩
    · simp [hrows, hrow, Record.values, hcells, hv]
    · dsimp only
      rw [hs]
      exact part_none

theorem laid_char {u : UInt16} (h : Laid text (u :: rest) s) (hq : u ≠ quote)
    (hc : ¬((!s.quoted) = true ∧ u = comma)) (hb : ¬((!s.quoted) = true ∧ (u = Csv.lf ∨ u = Csv.cr))) :
    Laid (text ++ [u]) rest { s with field := s.field ++ [u] } := by
  obtain ⟨ended, cells, raw, rfl, hrows, hrow, hpart⟩ := h
  refine ⟨ended, cells, raw ++ [u], by simp, hrows, hrow, ?_⟩
  dsimp only
  cases hs : s.quoted with
  | true =>
    rw [hs] at hpart
    cases hpart with
    | opened hw => exact .opened (by simp [doubled, doubled_append, hq, ← hw])
  | false =>
    rw [hs] at hpart
    simp only [hs, Bool.not_false, true_and, not_or] at hc hb
    cases hpart with
    | closed c hv hw =>
      have hplain : ∀ v ∈ c.tail ++ [u], Plain v := by
        simp only [List.mem_append, List.mem_singleton]
        rintro v (hv | rfl)
        · exact c.bare v hv
        · exact ⟨hq, hc, hb⟩
      refine .closed ⟨c.quoted, c.tail ++ [u], hplain⟩ ?_ ?_ fun h => by simp at h
      · simp [← hv, Cell.value]
      · rw [← hw, Cell.write, Cell.write]
        cases c.quoted <;> simp

/-- The whole text, laid out. -/
theorem laid_scan (h : Laid text rest s) (hs : scan rest s = .ok s') : Laid (text ++ rest) [] s' := by
  fun_induction scan rest s generalizing text with
  | case1 s =>
    cases hs
    simpa using h
  | case2 rest s hq ih =>
    cases rest with
    | nil => simp at hq
    | cons u rest =>
      obtain rfl : u = quote := by simpa using hq.2
      simpa using ih (laid_doubled h hq.1) hs
  | case3 rest s hq ih =>
    obtain ⟨quoted, ht, hs⟩ := ok_bind.1 hs
    simpa using ih quoted (laid_toggle h hq ht) hs
  | case4 c rest s hq hc ih =>
    obtain ⟨hs', rfl⟩ := hc
    simpa using ih (laid_comma h (by simpa using hs')) hs
  | case5 =>
    rename_i c after s hq hc hb rest ih
    obtain ⟨b, hbreak⟩ : ∃ b : Break, c :: after = b.write ++ rest := by
      by_cases hcrlf : c = Csv.cr ∧ after.head? = some Csv.lf
      · cases after with
        | nil => simp at hcrlf
        | cons u after => exact ⟨.crlf, by simp_all [rest, Break.write]⟩
      · obtain rfl | rfl := hb.2
        · exact ⟨.lf, by simp [rest, hcrlf, Break.write]⟩
        · have hrest : rest = after := dif_neg hcrlf
          exact ⟨.cr, by rw [hrest]; rfl⟩
    rw [hbreak, ← List.append_assoc]
    exact ih (laid_break h (by simpa using hb.1) b) hs
  | case6 c rest s hq hc hb ih => simpa using ih (laid_char h hq hc hb) hs

/-! ## Back from an encoding -/

/-- What the end of the text makes of the record it stands in. -/
theorem csv_of_scan (h : scan text ⟨[], [], [], false⟩ = .ok s) (hq : s.quoted = false) :
    csv text = .ok (if s.row ++ [s.field] ≠ [[]] then s.rows ++ [s.row ++ [s.field]] else s.rows) := by
  have hiff : (s.field ≠ [] ∨ s.row ≠ []) ↔ s.row ++ [s.field] ≠ [[]] := by
    cases s.row <;> simp
  rw [csv, h]
  simp only [bind, Except.bind, hq, Bool.not_false, check, if_true, hiff]
  rfl

theorem csv_write (hL : L.Strict) : csv L.write = .ok (L.ended.map (·.1.values) ++
    (L.last.toList.map (·.values)).filter (· ≠ [[]])) := by
  obtain ⟨ended, last⟩ := L
  have hended : scan ((ended.flatMap fun r => r.1.write ++ r.2.write) ++ last.toList.flatMap (·.write))
      ⟨[], [], [], false⟩ = _ := scan_ended hL.breaks
  cases last with
  | none =>
    rw [Option.toList_none, List.flatMap_nil, scan] at hended
    rw [Layout.write, Option.toList_none, List.flatMap_nil, csv_of_scan hended rfl]
    simp
  | some r =>
    obtain ⟨row, field, hrow, hscan⟩ :=
      @scan_record [] ⟨ended.map (·.1.values), [], [], false⟩ r (by simp) rfl rfl rfl
    rw [List.append_nil, scan] at hscan
    simp only [Option.toList_some, List.flatMap_singleton] at hended
    rw [List.nil_append, hscan] at hended
    rw [Layout.write]
    simp only [Option.toList_some, List.flatMap_singleton]
    rw [csv_of_scan hended rfl, hrow]
    by_cases hv : r.values = [[]] <;> simp [hv]

/-- Of every text that is read, each character is a field's, or writes a field down or parts two. All
fields are in the table but that of a last row `""`. -/
theorem csv_laid (h : csv text = .ok rows) : ∃ L : Layout, L.write = text ∧
    (L.table = rows ∨ ∃ r ∈ L.last, r.values = [[]] ∧ L.table = rows ++ [r.values]) := by
  obtain ⟨s, hscan, hrest⟩ := ok_bind.1 h
  obtain ⟨hquoted, -⟩ := ok_check_bind.1 hrest
  have hq : s.quoted = false := by simpa using hquoted
  rw [csv_of_scan hscan hq] at h
  obtain ⟨ended, cells, raw, htext, hrows, hrow, hpart⟩ :=
    laid_scan ⟨[], [], [], rfl, rfl, rfl, part_none⟩ hscan
  rw [hq] at hpart
  cases hpart with
  | closed c hv hw =>
    obtain ⟨r, hcells, hwrite⟩ := exists_record cells c
    have hvalues : r.values = s.row ++ [s.field] := by simp [Record.values, hcells, hrow, hv]
    refine ⟨⟨ended, some r⟩, by simpa [Layout.write, hwrite, hw] using htext.symm, ?_⟩
    rw [← hvalues] at h
    by_cases hempty : r.values = [[]]
    · rw [if_neg (by simpa using hempty)] at h
      cases h
      exact .inr ⟨r, rfl, hempty, by simp [Layout.table, hrows]⟩
    · rw [if_pos hempty] at h
      cases h
      exact .inl (by simp [Layout.table, hrows])

/-- Every encoding of a table is read back to it but where its last row, which no line break ends, is
one empty field; and of whatever else is read no field is lost but in such a row. -/
theorem reads_back_iff (hL : L.Strict) (text : Text) :
    (csv L.write = .ok L.table ↔ ∀ r ∈ L.last, r.values ≠ [[]]) ∧
    ∀ rows, csv text = .ok rows → ∃ L : Layout, L.write = text ∧
      (L.table = rows ∨ ∃ r ∈ L.last, r.values = [[]] ∧ L.table = rows ++ [r.values]) := by
  refine ⟨?_, fun rows => csv_laid⟩
  rw [csv_write hL, Layout.table, Except.ok.injEq, List.append_cancel_left_eq, List.filter_eq_self]
  simp

/-- Behind the same row a line break stands, and it is read back. -/
theorem broken_off : ∃ L : Layout, L.Strict ∧ L.write = [quote, quote, Csv.lf] ∧ csv L.write = .ok [[[]]] := by
  have hL : Layout.Strict ⟨[(⟨⟨some [], [], by simp⟩, []⟩, .lf)], none⟩ :=
    ⟨by simp [Layout.records], by simp [Layout.records, Record.cells], by simp, by simp⟩
  exact ⟨_, hL, rfl, (reads_back_iff hL []).1.2 (by simp)⟩

/-- The table of one row, which is one empty field, reads as no row. -/
theorem quotes_dropped : ∃ L : Layout, L.Strict ∧ L.write = [quote, quote] ∧
    csv L.write = .ok [] ∧ L.table = [[[]]] := by
  have hL : Layout.Strict ⟨[], some ⟨⟨some [], [], by simp⟩, []⟩⟩ :=
    ⟨by simp [Layout.records], by simp [Layout.records, Record.cells], by simp,
      by simp [Record.write, Cell.write]⟩
  exact ⟨_, hL, rfl, by rw [csv_write hL]; rfl, rfl⟩

end CarbonRuntime.Bugs.DroppedRow
