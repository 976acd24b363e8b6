import CarbonRuntime.Import.Zip

/-!
# What the zip reader reads

The format as the reader has it: where the end record is that it finds, what it or a 64-bit record points to,
and the headers of the central directory, field by field.

**Results.** The end record that is found is the last in reach (`findEnd_ok`), and the directory is the one
that it points to (`directoryOf_ok`, `directoryOf_cases`). The headers are read as they stand, or refused by
name, exactly where each that is come to lies in the buffer (`readHeaders_iff`).
-/

open CarbonRuntime.Core CarbonRuntime.Stream

namespace CarbonRuntime.Import.Zip

open Core.Bytes

variable {b rest : Buffer} {pos n i count offset : Nat} {e : ZipEntry} {es : List ZipEntry}

/-- A result or a refusal that is named. -/
def Named {α : Type} : Except Thrown α → Prop
  | .ok _ => True
  | .error (.zip _) => True
  | .error _ => False

theorem named_error {α β : Type} {thrown : Thrown} (h : Named (.error thrown : Except Thrown α)) :
    Named (.error thrown : Except Thrown β) := by
  cases thrown with
  | zip faults => trivial
  | range => exact h
  | inflate => exact h

/-! ## Reads -/

theorem readUInt_ok (h : pos + n ≤ b.length) : readUInt n b pos = .ok (number b pos n) := if_pos h

theorem readUInt_range (h : ¬ pos + n ≤ b.length) : readUInt n b pos = .error .range := if_neg h

/-! ## The end record -/

/-- The last place in reach at which the signature of an end record stands. -/
structure LastEnd (b : Buffer) (pos : Nat) : Prop where
  room : pos + 22 ≤ b.length
  near : b.length ≤ pos + 66000
  signature : number b pos 4 = EOCD
  last : ∀ later, pos < later → later + 22 ≤ b.length → number b later 4 ≠ EOCD

theorem LastEnd.unique {pos' : Nat} (h : LastEnd b pos) (h' : LastEnd b pos') : pos = pos' := by
  obtain hlt | heq | hgt := Nat.lt_trichotomy pos pos'
  · exact absurd h'.signature (h.last pos' hlt h'.room)
  · exact heq
  · exact absurd h.signature (h'.last pos hgt h.room)

theorem findFrom_ok (earliest : Nat) (h : pos + 22 ≤ b.length) : ∃ r, findFrom b earliest pos = .ok r ∧
    (∀ p ∈ r, p ≤ pos ∧ earliest ≤ p ∧ number b p 4 = EOCD) ∧
    ∀ later ≤ pos, earliest ≤ later → (∀ p ∈ r, p < later) → number b later 4 ≠ EOCD := by
  induction pos with
  | zero =>
    unfold findFrom
    by_cases hearly : 0 < earliest
    · rw [if_pos hearly]
      exact ⟨none, rfl, by simp, fun later h1 h2 => by omega⟩
    · rw [if_neg hearly, readUInt32LE, readUInt_ok (by omega)]
      by_cases hs : number b 0 4 = EOCD
      · exact ⟨some 0, if_pos hs, by simp [hs]; omega, fun later h1 _ h3 => by simp at h3; omega⟩
      · refine ⟨none, if_neg hs, by simp, fun later h1 _ _ => ?_⟩
        obtain rfl : later = 0 := by omega
        exact hs
  | succ pos ih =>
    unfold findFrom
    by_cases hearly : pos + 1 < earliest
    · rw [if_pos hearly]
      exact ⟨none, rfl, by simp, fun later h1 h2 => by omega⟩
    · rw [if_neg hearly, readUInt32LE, readUInt_ok (by omega)]
      by_cases hs : number b (pos + 1) 4 = EOCD
      · exact ⟨some (pos + 1), if_pos hs, by simp [hs]; omega, fun later h1 _ h3 => by simp at h3; omega⟩
      · obtain ⟨r, hr, hfound, hnone⟩ := ih (by omega)
        refine ⟨r, (if_neg hs).trans hr, fun p hp => ?_, fun later h1 h2 h3 => ?_⟩
        · obtain ⟨hle, hrest⟩ := hfound p hp
          exact ⟨by omega, hrest⟩
        · obtain h1 | rfl := Nat.le_or_eq_of_le_succ h1
          · exact hnone later h1 h2 h3
          · exact hs

/-- The end record that is found is the last one in reach. -/
theorem findEnd_ok (b : Buffer) : ∃ r, findEndOfCentralDirectory b = .ok r ∧ ∀ p, r = some p ↔ LastEnd b p := by
  unfold findEndOfCentralDirectory
  by_cases hshort : b.length < 22
  · have hno : ∀ p, ¬ LastEnd b p := fun p h => by have := h.room; omega
    exact ⟨none, if_pos hshort, fun p => by simp [hno]⟩
  · rw [if_neg hshort]
    obtain ⟨r, hr, hfound, hnone⟩ := @findFrom_ok b (b.length - 22) (b.length - 66000) (by omega)
    have hlast : ∀ p ∈ r, LastEnd b p := by
      intro p hp
      obtain ⟨hle, hearly, hs⟩ := hfound p hp
      refine ⟨by omega, by omega, hs, fun later hlt hroom => hnone later (by omega) (by omega) fun q hq => ?_⟩
      obtain rfl : p = q := Option.some.inj (hp.symm.trans hq)
      exact hlt
    refine ⟨r, hr, fun p => ⟨hlast p, fun h => ?_⟩⟩
    cases r with
    | some q => rw [(hlast q rfl).unique h]
    | none => exact absurd h.signature (hnone p (by have := h.room; omega) (by have := h.near; omega) (by simp))

/-! ## Where the directory is -/

/-- The record says itself where the directory is. -/
def Narrow (b : Buffer) (pos : Nat) : Prop := number b (pos + 10) 2 ≠ 0xffff ∧ number b (pos + 16) 4 ≠ 0xffffffff

/-- The locator of a 64-bit record stands before it. -/
def HasLocator (b : Buffer) (pos : Nat) : Prop := 20 ≤ pos ∧ number b (pos - 20) 4 = EOCD64_LOCATOR

/-- Where the locator points. -/
def wideAt (b : Buffer) (pos : Nat) : Nat := number b (pos - 20 + 8) 8

/-- The end record, or the 64-bit one that it leads to, counts so many entries from there on. -/
inductive Points (b : Buffer) : Nat → Nat → Prop
  | narrow (pos : Nat) : LastEnd b pos → Narrow b pos → Points b (number b (pos + 10) 2) (number b (pos + 16) 4)
  | wide (pos : Nat) : LastEnd b pos → ¬ Narrow b pos → HasLocator b pos → wideAt b pos + 56 ≤ b.length →
      number b (wideAt b pos) 4 = EOCD64 →
      Points b (number b (wideAt b pos + 32) 8) (number b (wideAt b pos + 48) 8)

/-- A locator leads to something in the buffer, and to all of a 64-bit record. -/
def Reaches (b : Buffer) : Prop :=
  ∀ pos, LastEnd b pos → ¬ Narrow b pos → HasLocator b pos → wideAt b pos + 4 ≤ b.length ∧
    (number b (wideAt b pos) 4 = EOCD64 → wideAt b pos + 56 ≤ b.length)

theorem directoryOf_missing (h : ∀ pos, ¬ LastEnd b pos) : ∃ faults, directoryOf b = .error (.zip faults) := by
  obtain ⟨r, hr, hlast⟩ := findEnd_ok b
  cases r with
  | some p => exact absurd ((hlast p).1 rfl) (h p)
  | none => exact ⟨_, by rw [directoryOf, hr]; rfl⟩

theorem directoryOf_narrow (h : LastEnd b pos) (hnarrow : Narrow b pos) :
    directoryOf b = .ok (number b (pos + 10) 2, number b (pos + 16) 4) := by
  have hroom := h.room
  obtain ⟨r, hr, hlast⟩ := findEnd_ok b
  obtain rfl : r = some pos := (hlast pos).2 h
  obtain ⟨hcount, hoffset⟩ := hnarrow
  rw [directoryOf, hr]
  simp only [readUInt16LE, readUInt32LE, readUInt_ok (show pos + 10 + 2 ≤ b.length by omega),
    readUInt_ok (show pos + 16 + 4 ≤ b.length by omega), bind, Except.bind]
  exact if_neg (by simp [hcount, hoffset])

theorem directoryOf_wide (h : LastEnd b pos) (hnarrow : ¬ Narrow b pos) : directoryOf b = directory64Of b pos := by
  have hroom := h.room
  obtain ⟨r, hr, hlast⟩ := findEnd_ok b
  obtain rfl : r = some pos := (hlast pos).2 h
  rw [directoryOf, hr]
  simp only [readUInt16LE, readUInt32LE, readUInt_ok (show pos + 10 + 2 ≤ b.length by omega),
    readUInt_ok (show pos + 16 + 4 ≤ b.length by omega), bind, Except.bind]
  exact if_pos (by unfold Narrow at hnarrow; tauto)

theorem directory64Of_absent (hroom : pos + 22 ≤ b.length) (h : ¬ HasLocator b pos) :
    ∃ faults, directory64Of b pos = .error (.zip faults) := by
  unfold directory64Of
  by_cases hfar : pos < 20
  · exact ⟨_, if_pos hfar⟩
  · have hs : number b (pos - 20) 4 ≠ EOCD64_LOCATOR := fun hs => h ⟨by omega, hs⟩
    rw [if_neg hfar]
    simp only [readUInt32LE, readUInt_ok (show pos - 20 + 4 ≤ b.length by omega), bind, Except.bind]
    exact ⟨_, if_pos hs⟩

theorem directory64Of_at (hroom : pos + 22 ≤ b.length) (h : HasLocator b pos) : directory64Of b pos = (do
    let signature ← readUInt32LE b (wideAt b pos)
    if signature ≠ EOCD64 then
      .error (unreadable "the export" "the 64-bit directory the archive points at is not there"
        "produce the export again")
    else
      let count ← readBigUInt64LE b (wideAt b pos + 32)
      let offset ← readBigUInt64LE b (wideAt b pos + 48)
      .ok (count, offset)) := by
  obtain ⟨hfar, hs⟩ := h
  unfold directory64Of
  rw [if_neg (by omega)]
  simp only [readUInt32LE, readBigUInt64LE, readUInt_ok (show pos - 20 + 4 ≤ b.length by omega), bind, Except.bind,
    hs, ne_eq, not_true_eq_false, if_false, readUInt_ok (show pos - 20 + 8 + 8 ≤ b.length by omega)]
  rfl

theorem directoryOf_ok (h : Points b count offset) : directoryOf b = .ok (count, offset) := by
  cases h with
  | narrow pos hlast hnarrow => exact directoryOf_narrow hlast hnarrow
  | wide pos hlast hnarrow hloc hin hs =>
    rw [directoryOf_wide hlast hnarrow, directory64Of_at hlast.room hloc]
    simp only [readUInt32LE, readBigUInt64LE, readUInt_ok (show wideAt b pos + 4 ≤ b.length by omega), bind,
      Except.bind, hs, ne_eq, not_true_eq_false, if_false,
      readUInt_ok (show wideAt b pos + 32 + 8 ≤ b.length by omega),
      readUInt_ok (show wideAt b pos + 48 + 8 ≤ b.length by omega)]

/-- What is not found is refused by name, where the locator leads into the buffer. -/
theorem directoryOf_cases (b : Buffer) : (∃ count offset, Points b count offset) ∨
    Reaches b ∧ (∃ faults, directoryOf b = .error (.zip faults)) ∨ ¬ Reaches b ∧ directoryOf b = .error .range := by
  by_cases hend : ∃ pos, LastEnd b pos
  · obtain ⟨pos, hlast⟩ := hend
    have hother : ∀ {P : Nat → Prop}, P pos → ∀ other, LastEnd b other → P other :=
      fun hP other ho => hlast.unique ho ▸ hP
    by_cases hnarrow : Narrow b pos
    · exact .inl ⟨_, _, .narrow pos hlast hnarrow⟩
    rw [directoryOf_wide hlast hnarrow]
    by_cases hloc : HasLocator b pos
    · rw [directory64Of_at hlast.room hloc]
      by_cases hin : wideAt b pos + 4 ≤ b.length
      · simp only [readUInt32LE, readUInt_ok hin, bind, Except.bind]
        by_cases hs : number b (wideAt b pos) 4 = EOCD64
        · by_cases hall : wideAt b pos + 56 ≤ b.length
          · exact .inl ⟨_, _, .wide pos hlast hnarrow hloc hall hs⟩
          · refine .inr (.inr ⟨fun hreach => hall ((hreach pos hlast hnarrow hloc).2 hs), ?_⟩)
            rw [if_neg (by simpa using hs), readBigUInt64LE]
            by_cases h32 : wideAt b pos + 32 + 8 ≤ b.length
            · rw [readUInt_ok h32]
              simp only [readUInt_range (show ¬ wideAt b pos + 48 + 8 ≤ b.length by omega)]
            · rw [readUInt_range h32]
        · exact .inr (.inl ⟨hother fun _ _ => ⟨hin, fun h => absurd h hs⟩, _, if_pos hs⟩)
      · refine .inr (.inr ⟨fun hreach => hin (hreach pos hlast hnarrow hloc).1, ?_⟩)
        rw [readUInt32LE, readUInt_range hin]
        rfl
    · exact .inr (.inl ⟨hother fun _ h => absurd h hloc, directory64Of_absent hlast.room hloc⟩)
  · have hno : ∀ pos, ¬ LastEnd b pos := fun pos h => hend ⟨pos, h⟩
    exact .inr (.inl ⟨fun pos h => absurd h (hno pos), directoryOf_missing hno⟩)

theorem Points.unique {count' offset' : Nat} (h : Points b count offset) (h' : Points b count' offset') :
    count = count' ∧ offset = offset' := by
  have := (directoryOf_ok h).symm.trans (directoryOf_ok h')
  rwa [Except.ok.injEq, Prod.mk.injEq] at this

theorem Points.reaches (h : Points b count offset) : Reaches b := by
  cases h with
  | narrow pos hlast hnarrow => exact fun other ho hno => absurd (hlast.unique ho ▸ hnarrow) hno
  | wide pos hlast hnarrow hloc hin hs =>
    intro other ho _ _
    obtain rfl := hlast.unique ho
    exact ⟨by omega, fun _ => hin⟩

/-! ## The headers of the directory -/

/-- A header of the central directory, with what the reader passes over. -/
structure Central where
  made : {x : Buffer // x.length = 6}
  method : {v : Nat // v < 256 ^ 2}
  modified : {x : Buffer // x.length = 4}
  crc : {v : Nat // v < 256 ^ 4}
  compressedSize : {v : Nat // v < 256 ^ 4}
  size : {v : Nat // v < 256 ^ 4}
  disk : {x : Buffer // x.length = 8}
  localOffset : {v : Nat // v < 256 ^ 4}
  name : {x : Buffer // x.length < 256 ^ 2}
  extra : {x : Buffer // x.length < 256 ^ 2}
  comment : {x : Buffer // x.length < 256 ^ 2}

def Central.bytes (h : Central) : Buffer :=
  le 4 CENTRAL ++ (h.made.1 ++ (le 2 h.method.1 ++ (h.modified.1 ++ (le 4 h.crc.1 ++ (le 4 h.compressedSize.1 ++
    (le 4 h.size.1 ++ (le 2 h.name.1.length ++ (le 2 h.extra.1.length ++ (le 2 h.comment.1.length ++ (h.disk.1 ++
    (le 4 h.localOffset.1 ++ (h.name.1 ++ (h.extra.1 ++ h.comment.1)))))))))))))

theorem Central.length_bytes (h : Central) :
    h.bytes.length = 46 + h.name.1.length + h.extra.1.length + h.comment.1.length := by
  simp only [bytes, List.length_append, length_le, h.made.2, h.modified.2, h.disk.2]
  omega

def Central.entry (h : Central) : ZipEntry where
  name := String.ofList (Utf8.decode (h.name.1.map (·.toNat)))
  method := h.method.1
  crc := h.crc.1
  compressedSize := h.compressedSize.1
  size := h.size.1
  localOffset := h.localOffset.1

/-- The numbers of a header that stands in the buffer. -/
structure Reads (b : Buffer) (pos : Nat) (h : Central) : Prop where
  signature : number b pos 4 = CENTRAL
  method : number b (pos + 10) 2 = h.method.1
  crc : number b (pos + 16) 4 = h.crc.1
  compressedSize : number b (pos + 20) 4 = h.compressedSize.1
  size : number b (pos + 24) 4 = h.size.1
  nameLength : number b (pos + 28) 2 = h.name.1.length
  extraLength : number b (pos + 30) 2 = h.extra.1.length
  commentLength : number b (pos + 32) 2 = h.comment.1.length
  localOffset : number b (pos + 42) 4 = h.localOffset.1
  name : slice b (pos + 46) h.name.1.length = h.name.1

theorem reads_of_at {h : Central} (hat : At b pos (h.bytes ++ rest)) : Reads b pos h := by
  simp only [Central.bytes, List.append_assoc] at hat
  have hmade := hat.skip_eq (k := pos + 4) (by simp)
  have hmethod := hmade.skip_eq (k := pos + 10) (by rw [h.made.2])
  have hmodified := hmethod.skip_eq (k := pos + 12) (by simp)
  have hcrc := hmodified.skip_eq (k := pos + 16) (by rw [h.modified.2])
  have hcompressed := hcrc.skip_eq (k := pos + 20) (by simp)
  have hsize := hcompressed.skip_eq (k := pos + 24) (by simp)
  have hname := hsize.skip_eq (k := pos + 28) (by simp)
  have hextra := hname.skip_eq (k := pos + 30) (by simp)
  have hcomment := hextra.skip_eq (k := pos + 32) (by simp)
  have hdisk := hcomment.skip_eq (k := pos + 34) (by simp)
  have hoffset := hdisk.skip_eq (k := pos + 42) (by rw [h.disk.2])
  have htext := hoffset.skip_eq (k := pos + 46) (by simp)
  exact ⟨hat.number (by decide), hmethod.number h.method.2, hcrc.number h.crc.2,
    hcompressed.number h.compressedSize.2, hsize.number h.size.2, hname.number h.name.2,
    hextra.number h.extra.2, hcomment.number h.comment.2, hoffset.number h.localOffset.2, htext.slice⟩

/-- The length of the header at a place. -/
def headerLength (b : Buffer) (pos : Nat) : Nat :=
  46 + number b (pos + 28) 2 + number b (pos + 30) 2 + number b (pos + 32) 2

theorem Reads.length {h : Central} (hr : Reads b pos h) : headerLength b pos = h.bytes.length := by
  rw [headerLength, hr.nameLength, hr.extraLength, hr.commentLength, h.length_bytes]

/-- A header stands where its signature does, if it is all in the buffer. -/
theorem header_of_signature (hs : number b pos 4 = CENTRAL) (hlen : pos + headerLength b pos ≤ b.length) :
    ∃ (h : Central) (rest : Buffer), At b pos (h.bytes ++ rest) := by
  unfold headerLength at hlen
  have hfront : ∃ front rest, b = front ++ rest ∧ front.length = pos :=
    ⟨b.take pos, b.drop pos, (List.take_append_drop pos b).symm, by rw [List.length_take]; omega⟩
  obtain ⟨front, rest, hb, hpos⟩ := hfront
  obtain ⟨r1, h0, h1⟩ := At.split_number (n := 4) ⟨front, hb, hpos⟩ (by omega)
  obtain ⟨made, r2, rfl, hmade, h2⟩ := h1.split (n := 6) (by omega)
  obtain ⟨r3, rfl, h3⟩ := h2.split_number (n := 2) (by omega)
  obtain ⟨modified, r4, rfl, hmodified, h4⟩ := h3.split (n := 4) (by omega)
  obtain ⟨r5, rfl, h5⟩ := h4.split_number (n := 4) (by omega)
  obtain ⟨r6, rfl, h6⟩ := h5.split_number (n := 4) (by omega)
  obtain ⟨r7, rfl, h7⟩ := h6.split_number (n := 4) (by omega)
  obtain ⟨r8, rfl, h8⟩ := h7.split_number (n := 2) (by omega)
  obtain ⟨r9, rfl, h9⟩ := h8.split_number (n := 2) (by omega)
  obtain ⟨r10, rfl, h10⟩ := h9.split_number (n := 2) (by omega)
  obtain ⟨disk, r11, rfl, hdisk, h11⟩ := h10.split (n := 8) (by omega)
  obtain ⟨r12, rfl, h12⟩ := h11.split_number (n := 4) (by omega)
  obtain ⟨name, r13, rfl, hname, h13⟩ := h12.split (n := number b (pos + 28) 2) (by omega)
  obtain ⟨extra, r14, rfl, hextra, h14⟩ := h13.split (n := number b (pos + 30) 2) (by omega)
  obtain ⟨comment, r15, rfl, hcomment, -⟩ := h14.split (n := number b (pos + 32) 2) (by omega)
  let h : Central :=
    { made := ⟨made, hmade⟩, method := ⟨_, number_lt b (pos + 10) 2⟩, modified := ⟨modified, hmodified⟩
      crc := ⟨_, number_lt b (pos + 16) 4⟩, compressedSize := ⟨_, number_lt b (pos + 20) 4⟩
      size := ⟨_, number_lt b (pos + 24) 4⟩, disk := ⟨disk, hdisk⟩
      localOffset := ⟨_, number_lt b (pos + 42) 4⟩
      name := ⟨name, hname ▸ number_lt b (pos + 28) 2⟩, extra := ⟨extra, hextra ▸ number_lt b (pos + 30) 2⟩
      comment := ⟨comment, hcomment ▸ number_lt b (pos + 32) 2⟩ }
  refine ⟨h, r15, front, ?_, hpos⟩
  rw [hb, h0, hs]
  simp only [h, Central.bytes, hname, hextra, hcomment, List.append_assoc]

/-- From `pos` on there are the headers of these entries, each all in the buffer. -/
def Lists (b : Buffer) : Nat → List ZipEntry → Prop
  | _, [] => True
  | pos, e :: es => ∃ (h : Central) (rest : Buffer), At b pos (h.bytes ++ rest) ∧ h.entry = e ∧
      Lists b (pos + h.bytes.length) es

/-- Each of the headers, up to the first that has no signature, begins in the buffer, and one that has it is
all in there. -/
def Whole (b : Buffer) : Nat → Nat → Prop
  | 0, _ => True
  | n + 1, pos => pos + 4 ≤ b.length ∧ (number b pos 4 = CENTRAL →
      pos + headerLength b pos ≤ b.length ∧ Whole b n (pos + headerLength b pos))

/-- One header, of which all that is read is in the buffer. -/
theorem readHeaders_step (hs : number b pos 4 = CENTRAL) (hin : pos + 46 ≤ b.length) :
    readHeaders b (n + 1) i pos = (readHeaders b n (i + 1) (pos + headerLength b pos)).map fun found =>
      { name := textOf b (pos + 46) (number b (pos + 28) 2), method := number b (pos + 10) 2
        crc := number b (pos + 16) 4, compressedSize := number b (pos + 20) 4, size := number b (pos + 24) 4
        localOffset := number b (pos + 42) 4 } :: found := by
  rw [readHeaders]
  simp only [readUInt16LE, readUInt32LE, readUInt_ok (show pos + 4 ≤ b.length by omega), hs, ne_eq, not_true_eq_false,
    if_false, readUInt_ok (show pos + 28 + 2 ≤ b.length by omega),
    readUInt_ok (show pos + 30 + 2 ≤ b.length by omega), readUInt_ok (show pos + 32 + 2 ≤ b.length by omega),
    readUInt_ok (show pos + 10 + 2 ≤ b.length by omega), readUInt_ok (show pos + 16 + 4 ≤ b.length by omega),
    readUInt_ok (show pos + 20 + 4 ≤ b.length by omega), readUInt_ok (show pos + 24 + 4 ≤ b.length by omega),
    readUInt_ok (show pos + 42 + 4 ≤ b.length by omega), bind, Except.bind, headerLength]
  cases readHeaders b n (i + 1) (pos + (46 + number b (pos + 28) 2 + number b (pos + 30) 2 + number b (pos + 32) 2)) with
  | error e => rfl
  | ok found => rfl

theorem readHeaders_range (hin : ¬ pos + 46 ≤ b.length) (h : number b pos 4 = CENTRAL ∨ ¬ pos + 4 ≤ b.length) :
    readHeaders b (n + 1) i pos = .error .range := by
  rw [readHeaders]
  by_cases h4 : pos + 4 ≤ b.length
  · have hs := h.resolve_right (by simpa using h4)
    simp only [readUInt16LE, readUInt32LE, readUInt_ok h4, hs, ne_eq, not_true_eq_false, if_false, bind, Except.bind]
    -- The last number of the header ends where its fixed part does.
    have hlast : readUInt 4 b (pos + 42) = .error .range := readUInt_range (by omega)
    rw [hlast]
    unfold readUInt
    split_ifs <;> rfl
  · rw [readUInt32LE, readUInt_range h4]
    rfl

theorem Reads.entry {h : Central} (hr : Reads b pos h) : h.entry =
    { name := textOf b (pos + 46) (number b (pos + 28) 2), method := number b (pos + 10) 2
      crc := number b (pos + 16) 4, compressedSize := number b (pos + 20) 4, size := number b (pos + 24) 4
      localOffset := number b (pos + 42) 4 } := by
  simp only [textOf, hr.nameLength, hr.name, hr.method, hr.crc, hr.compressedSize, hr.size, hr.localOffset]
  rfl

theorem readHeaders_ok (h : Lists b pos es) : readHeaders b es.length i pos = .ok es := by
  induction es generalizing pos i with
  | nil => rfl
  | cons e es ih =>
    obtain ⟨header, rest, hat, rfl, hes⟩ := h
    have hr := reads_of_at hat
    have hin : pos + 46 ≤ b.length := by
      have := hat.length
      rw [List.length_append, header.length_bytes] at this
      omega
    rw [List.length_cons, readHeaders_step hr.signature hin, hr.length, ih hes, hr.entry]
    rfl

/-- The reader of the headers says what they say, or that they are not all there, exactly where each that it
comes to is in the buffer. -/
theorem readHeaders_iff : Named (readHeaders b n i pos) ∧
    (∀ es, readHeaders b n i pos = .ok es → es.length = n ∧ Lists b pos es) ↔ Whole b n pos := by
  induction n generalizing pos i with
  | zero =>
    refine ⟨fun _ => trivial, fun _ => ⟨trivial, fun es h => ?_⟩⟩
    obtain rfl : [] = es := Except.ok.inj h
    exact ⟨rfl, trivial⟩
  | succ n ih =>
    by_cases h4 : pos + 4 ≤ b.length
    swap
    · rw [readHeaders_range (by omega) (.inr h4)]
      exact ⟨fun h => h.1.elim, fun h => absurd h.1 h4⟩
    by_cases hs : number b pos 4 = CENTRAL
    swap
    · have : ∃ faults, readHeaders b (n + 1) i pos = .error (.zip faults) := by
        rw [readHeaders]
        simp only [readUInt32LE, readUInt_ok h4, bind, Except.bind]
        exact ⟨_, if_pos hs⟩
      obtain ⟨faults, h⟩ := this
      rw [h]
      exact ⟨fun _ => ⟨h4, fun h => absurd h hs⟩, fun _ => ⟨trivial, fun es h => by cases h⟩⟩
    by_cases hin : pos + 46 ≤ b.length
    swap
    · rw [readHeaders_range hin (.inl hs)]
      refine ⟨fun h => h.1.elim, fun h => absurd (h.2 hs).1 ?_⟩
      unfold headerLength
      omega
    rw [readHeaders_step hs hin]
    have ih := @ih (pos + headerLength b pos) (i + 1)
    cases hrest : readHeaders b n (i + 1) (pos + headerLength b pos) with
    | error thrown =>
      rw [hrest] at ih
      constructor
      · rintro ⟨hnamed, -⟩
        have hwhole := ih.1 ⟨hnamed, fun es h => by cases h⟩
        refine ⟨h4, fun _ => ⟨?_, hwhole⟩⟩
        cases n with
        | zero => cases hrest
        | succ n => have := hwhole.1; omega
      · rintro ⟨-, h⟩
        exact ⟨(ih.2 (h hs).2).1, fun es h => by cases h⟩
    | ok found =>
      rw [hrest] at ih
      constructor
      · rintro ⟨-, hlists⟩
        obtain ⟨hlen, header, rest, hat, -, hfound⟩ := hlists _ rfl
        have hbytes := (reads_of_at hat).length
        have hroom := hat.length
        rw [← hbytes] at hfound
        rw [List.length_append, ← hbytes] at hroom
        refine ⟨h4, fun _ => ⟨by omega, ih.1 ⟨trivial, fun es hes => ?_⟩⟩⟩
        obtain rfl := Except.ok.inj hes
        exact ⟨by simpa using hlen, hfound⟩
      · rintro ⟨-, h⟩
        obtain ⟨hroom, hwhole⟩ := h hs
        obtain ⟨hlen, hfound⟩ := (ih.2 hwhole).2 found rfl
        obtain ⟨header, rest, hat⟩ := header_of_signature hs hroom
        have hr := reads_of_at hat
        refine ⟨trivial, fun es hes => ?_⟩
        obtain rfl := Except.ok.inj hes
        refine ⟨by rw [List.length_cons, hlen], header, rest, hat, hr.entry, ?_⟩
        rwa [← hr.length]

end CarbonRuntime.Import.Zip
