import CarbonRuntime.Import.ZipFormat

/-!
# An archive taken at its word

`entries` and `readEntry` (import/zip.ts:83-177) follow the offsets that they read wherever these lead. The
end record is the last place at which its signature stands, also inside the comment; a directory or a file
that begins outside the buffer is read there, which throws a `RangeError` and no `ZipFault`; the error of
bytes that do not inflate goes through; the size is never compared, and the checksum not where it is 0.

For every buffer the directory is read as it stands or refused by name exactly where all that the reader comes
to lies in the buffer (`InBounds`), and so for an entry (`Readable`). An archive is read as it was written
where nothing behind its end record's beginning looks like another one (`archive_iff`).

Counterexample: a comment that is an end record, a directory that begins where the file ends, and a checksum 0.
-/

open CarbonRuntime.Core CarbonRuntime.Stream

namespace CarbonRuntime.Bugs.UncheckedArchive

open Core.Bytes Import.Zip

variable {b rest : Buffer} {pos n i count offset : Nat} {e : ZipEntry} {es : List ZipEntry}

/-! ## The whole directory -/

/-- What the reader comes to lies in the buffer: what a locator leads to, and the headers of the directory. -/
structure InBounds (b : Buffer) : Prop where
  reaches : Reaches b
  whole : ∀ count offset, Points b count offset → Whole b count offset

/-- The entries of the directory that the end record points to, or a refusal that is named. -/
structure SoundDirectory (b : Buffer) : Prop where
  named : Named (entries b)
  listed : ∀ es, entries b = .ok es → ∃ count offset, Points b count offset ∧ es.length = count ∧ Lists b offset es

theorem entries_of_points (h : Points b count offset) : entries b = readHeaders b count 0 offset := by
  rw [entries, directoryOf_ok h]
  rfl

theorem directory_iff : SoundDirectory b ↔ InBounds b := by
  obtain ⟨count, offset, h⟩ | ⟨hreach, faults, h⟩ | ⟨hreach, h⟩ := directoryOf_cases b
  · have hiff := @readHeaders_iff b offset count 0
    have hentries := entries_of_points h
    rw [← hentries] at hiff
    constructor
    · rintro ⟨hnamed, hlisted⟩
      refine ⟨h.reaches, fun count' offset' h' => ?_⟩
      obtain ⟨rfl, rfl⟩ := h.unique h'
      refine hiff.1 ⟨hnamed, fun es hes => ?_⟩
      obtain ⟨count', offset', h', hlen, hlists⟩ := hlisted es hes
      obtain ⟨rfl, rfl⟩ := h.unique h'
      exact ⟨hlen, hlists⟩
    · rintro ⟨-, hwhole⟩
      obtain ⟨hnamed, hlisted⟩ := hiff.2 (hwhole _ _ h)
      exact ⟨hnamed, fun es hes => ⟨count, offset, h, hlisted es hes⟩⟩
  · have hno : ∀ count offset, ¬ Points b count offset := fun count offset hp => by
      rw [directoryOf_ok hp] at h
      cases h
    have hentries : entries b = .error (.zip faults) := by rw [entries, h]; rfl
    refine ⟨fun _ => ⟨hreach, fun _ _ hp => absurd hp (hno _ _)⟩, fun _ => ⟨by rw [hentries]; trivial, fun es hes => ?_⟩⟩
    rw [hentries] at hes
    cases hes
  · have hentries : entries b = .error .range := by rw [entries, h]; rfl
    refine ⟨fun hsound => ?_, fun hin => absurd hin.reaches hreach⟩
    have := hsound.named
    rw [hentries] at this
    exact this.elim

/-! ## One entry -/

section
variable {inflate : Buffer → Option Buffer}

/-- Where the bytes of an entry are. -/
def rawOf (b : Buffer) (e : ZipEntry) : Buffer :=
  slice b (e.localOffset + 30 + number b (e.localOffset + 26) 2 + number b (e.localOffset + 28) 2) e.compressedSize

/-- Bytes that pass for the entry's, by a checksum that is right or not there, are as the directory has them. -/
def Declared (e : ZipEntry) (data : Buffer) : Prop :=
  e.crc = 0 ∨ crc32 data = e.crc → data.length = e.size ∧ crc32 data = e.crc

/-- The entry's local header is in the buffer, its bytes inflate, and the size and the checksum are theirs. -/
structure Readable (inflate : Buffer → Option Buffer) (b : Buffer) (e : ZipEntry) : Prop where
  begins : e.localOffset + 4 ≤ b.length
  header : number b e.localOffset 4 = LOCAL → e.localOffset + 30 ≤ b.length
  stored : number b e.localOffset 4 = LOCAL → e.method = 0 → Declared e (rawOf b e)
  deflated : number b e.localOffset 4 = LOCAL → e.method = 8 → ∃ data, inflate (rawOf b e) = some data ∧ Declared e data

/-- The bytes that the directory declares, or a refusal that is named. -/
structure SoundEntry (inflate : Buffer → Option Buffer) (b : Buffer) (e : ZipEntry) : Prop where
  named : Named (readEntry inflate b e)
  declared : ∀ data, readEntry inflate b e = .ok data → data.length = e.size ∧ crc32 data = e.crc

theorem readEntry_at (hin : e.localOffset + 30 ≤ b.length) (hs : number b e.localOffset 4 = LOCAL) :
    readEntry inflate b e = (do
      let data ← dataOf inflate e (rawOf b e)
      if e.crc ≠ 0 ∧ crc32 data ≠ e.crc then
        .error (.zip [⟨"ZIP_ENTRY_CORRUPT", e.name,
          "the entry does not match the checksum the archive recorded for it",
          "the export is damaged in transit; copy it again"⟩])
      else .ok data) := by
  unfold readEntry rawOf
  simp only [readUInt16LE, readUInt32LE, readUInt_ok (show e.localOffset + 4 ≤ b.length by omega), hs, ne_eq,
    not_true_eq_false, if_false, readUInt_ok (show e.localOffset + 26 + 2 ≤ b.length by omega),
    readUInt_ok (show e.localOffset + 28 + 2 ≤ b.length by omega), bind, Except.bind]

/-- Bytes that are compared with the checksum, where there is one. -/
theorem checked_iff {data : Buffer} {faults : List Fault} {r : Except Thrown Buffer}
    (hr : r = if e.crc ≠ 0 ∧ crc32 data ≠ e.crc then .error (.zip faults) else .ok data) :
    Named r ∧ ((∀ got, r = .ok got → got.length = e.size ∧ crc32 got = e.crc) ↔ Declared e data) := by
  subst hr
  by_cases hbad : e.crc ≠ 0 ∧ crc32 data ≠ e.crc
  · rw [if_pos hbad]
    refine ⟨trivial, fun _ h => ?_, fun _ got h => by cases h⟩
    obtain h | h := h
    · exact absurd h hbad.1
    · exact absurd h hbad.2
  · rw [if_neg hbad]
    have hpass : e.crc = 0 ∨ crc32 data = e.crc := by tauto
    refine ⟨trivial, fun h _ => h data rfl, fun h got hgot => ?_⟩
    obtain rfl := Except.ok.inj hgot
    exact h hpass

theorem entry_iff : SoundEntry inflate b e ↔ Readable inflate b e := by
  by_cases h4 : e.localOffset + 4 ≤ b.length
  swap
  · have hread : readEntry inflate b e = .error .range := by
      rw [readEntry, readUInt32LE, readUInt_range h4]
      rfl
    exact ⟨fun h => by have := h.named; rw [hread] at this; exact this.elim, fun h => absurd h.begins h4⟩
  by_cases hs : number b e.localOffset 4 = LOCAL
  swap
  · have hread : ∃ faults, readEntry inflate b e = .error (.zip faults) := by
      rw [readEntry]
      simp only [readUInt32LE, readUInt_ok h4, bind, Except.bind]
      exact ⟨_, if_pos hs⟩
    obtain ⟨faults, hread⟩ := hread
    refine ⟨fun _ => ⟨h4, fun h => absurd h hs, fun h => absurd h hs, fun h => absurd h hs⟩, fun _ => ?_⟩
    exact ⟨by rw [hread]; trivial, fun data h => by rw [hread] at h; cases h⟩
  by_cases h30 : e.localOffset + 30 ≤ b.length
  swap
  · have hread : readEntry inflate b e = .error .range := by
      rw [readEntry]
      simp only [readUInt32LE, readUInt16LE, readUInt_ok h4, hs, ne_eq, not_true_eq_false, if_false, bind, Except.bind,
        readUInt_range (show ¬ e.localOffset + 28 + 2 ≤ b.length by omega)]
      unfold readUInt
      split_ifs <;> rfl
    exact ⟨fun h => by have := h.named; rw [hread] at this; exact this.elim, fun h => absurd (h.header hs) h30⟩
  have hread : readEntry inflate b e = _ := readEntry_at h30 hs
  by_cases h0 : e.method = 0
  · rw [dataOf, if_pos h0] at hread
    obtain ⟨hnamed, hiff⟩ := checked_iff hread
    exact ⟨fun h => ⟨h4, fun _ => h30, fun _ _ => hiff.1 h.declared, fun _ h8 => by omega⟩,
      fun h => ⟨hnamed, hiff.2 (h.stored hs h0)⟩⟩
  by_cases h8 : e.method = 8
  · rw [dataOf, if_neg h0, if_pos h8] at hread
    cases hinf : inflate (rawOf b e) with
    | none =>
      rw [hinf] at hread
      have hread : readEntry inflate b e = .error .inflate := hread
      refine ⟨fun h => by have := h.named; rw [hread] at this; exact this.elim, fun h => ?_⟩
      obtain ⟨data, hdata, -⟩ := h.deflated hs h8
      rw [hinf] at hdata
      cases hdata
    | some data =>
      rw [hinf] at hread
      obtain ⟨hnamed, hiff⟩ := checked_iff hread
      refine ⟨fun h => ⟨h4, fun _ => h30, fun _ h => absurd h h0, fun _ _ => ⟨data, hinf, hiff.1 h.declared⟩⟩,
        fun h => ⟨hnamed, hiff.2 ?_⟩⟩
      obtain ⟨other, hother, hdeclared⟩ := h.deflated hs h8
      rw [hinf] at hother
      obtain rfl := Option.some.inj hother
      exact hdeclared
  · rw [dataOf, if_neg h0, if_neg h8] at hread
    refine ⟨fun _ => ⟨h4, fun _ => h30, fun _ h => absurd h h0, fun _ h => absurd h h8⟩, fun _ => ?_⟩
    exact ⟨by rw [hread]; trivial, fun data h => by rw [hread] at h; cases h⟩

end

/-! ## Opening -/

/-- What is opened is of the directory: the messages file and every media entry, by name, and no entry is of
another kind. Else there is a refusal that is named. -/
structure SoundOpen (b : Buffer) : Prop where
  named : Named (openExport b)
  opened : ∀ o, openExport b = .ok o → ∃ es, entries b = .ok es ∧ (∀ e ∈ es, entryKind e.name ≠ none) ∧
    o.messages ∈ es ∧ entryKind o.messages.name = some .messages ∧
    (∀ e ∈ o.media, e ∈ es ∧ entryKind e.name = some .media) ∧
    ∀ e ∈ es, entryKind e.name = some .media → ∃ m ∈ o.media, m.name = e.name

theorem mem_setMedia {m : ZipEntry} {media : List ZipEntry} (h : m ∈ setMedia e media) : m = e ∨ m ∈ media := by
  unfold setMedia at h
  split at h
  · obtain ⟨other, hother, rfl⟩ := List.mem_map.1 h
    split
    · exact .inl rfl
    · exact .inr hother
  · rw [List.mem_append, List.mem_singleton] at h
    exact h.symm

theorem name_setMedia {media : List ZipEntry} {name : String} (h : name = e.name ∨ ∃ m ∈ media, m.name = name) :
    ∃ m ∈ setMedia e media, m.name = name := by
  unfold setMedia
  by_cases hany : media.any (·.name = e.name) = true
  · rw [if_pos hany]
    obtain ⟨other, hother, hname⟩ : ∃ m ∈ media, m.name = name := by
      obtain rfl | h := h
      · simpa using hany
      · exact h
    refine ⟨_, List.mem_map_of_mem hother, ?_⟩
    split
    · rename_i heq
      rw [← hname, heq]
    · exact hname
  · rw [if_neg hany]
    obtain rfl | ⟨m, hm, hname⟩ := h
    · exact ⟨e, by simp, rfl⟩
    · exact ⟨m, List.mem_append_left _ hm, hname⟩

/-- What the loop of `open` has of the entries it has seen. -/
structure SortedOf (seen : List ZipEntry) (sorted : Sorted) : Prop where
  refused : sorted.refused = [] → ∀ e ∈ seen, entryKind e.name ≠ none
  messages : ∀ m ∈ sorted.messages, m ∈ seen ∧ entryKind m.name = some .messages
  media : ∀ m ∈ sorted.media, m ∈ seen ∧ entryKind m.name = some .media
  all : ∀ e ∈ seen, entryKind e.name = some .media → ∃ m ∈ sorted.media, m.name = e.name

theorem SortedOf.step {seen : List ZipEntry} {sorted : Sorted} (h : SortedOf seen sorted) (e : ZipEntry) :
    SortedOf (seen ++ [e]) (sortEntry sorted e) := by
  have hin : ∀ {x}, x ∈ seen → x ∈ seen ++ [e] := fun hx => List.mem_append_left _ hx
  have hlast : ∀ {x}, x ∈ seen ++ [e] → x ∈ seen ∨ x = e := fun hx => by simpa using hx
  have hmessages : ∀ m ∈ sorted.messages, m ∈ seen ++ [e] ∧ entryKind m.name = some .messages :=
    fun m hm => ⟨hin (h.messages m hm).1, (h.messages m hm).2⟩
  have hmedia : ∀ m ∈ sorted.media, m ∈ seen ++ [e] ∧ entryKind m.name = some .media :=
    fun m hm => ⟨hin (h.media m hm).1, (h.media m hm).2⟩
  unfold sortEntry
  cases hkind : entryKind e.name with
  | none =>
    refine ⟨fun hno => by simp at hno, hmessages, hmedia, fun x hx hk => ?_⟩
    obtain hx | rfl := hlast hx
    · exact h.all x hx hk
    · rw [hkind] at hk
      cases hk
  | some kind =>
    have hrefused : sorted.refused = [] → ∀ x ∈ seen ++ [e], entryKind x.name ≠ none := by
      intro hno x hx
      obtain hx | rfl := hlast hx
      · exact h.refused hno x hx
      · simp [hkind]
    have hall : kind ≠ .media → ∀ x ∈ seen ++ [e], entryKind x.name = some .media →
        ∃ m ∈ sorted.media, m.name = x.name := by
      intro hne x hx hk
      obtain hx | rfl := hlast hx
      · exact h.all x hx hk
      · exact absurd (Option.some.inj (hkind.symm.trans hk)) hne
    cases kind with
    | messages =>
      refine ⟨hrefused, fun m hm => ?_, hmedia, hall (by decide)⟩
      obtain rfl : e = m := Option.some.inj hm
      exact ⟨by simp, hkind⟩
    | directory => exact ⟨hrefused, hmessages, hmedia, hall (by decide)⟩
    | media =>
      refine ⟨hrefused, hmessages, fun m hm => ?_, fun x hx hk => name_setMedia ?_⟩
      · obtain rfl | hm := mem_setMedia hm
        · exact ⟨by simp, hkind⟩
        · exact hmedia m hm
      · obtain hx | rfl := hlast hx
        · exact .inr (h.all x hx hk)
        · exact .inl rfl

theorem sortedOf_all (es : List ZipEntry) : SortedOf es (es.foldl sortEntry {}) := by
  have hrun : ∀ (rest seen : List ZipEntry) (sorted : Sorted), SortedOf seen sorted →
      SortedOf (seen ++ rest) (rest.foldl sortEntry sorted) := by
    intro rest
    induction rest with
    | nil => exact fun seen sorted h => by rwa [List.append_nil]
    | cons e rest ih =>
      intro seen sorted h
      rw [List.append_cons]
      exact ih _ _ (h.step e)
  exact hrun es [] {} ⟨by simp, by simp, by simp, by simp⟩

/-- The export of these entries. -/
def exported (es : List ZipEntry) : Except Thrown Export :=
  let sorted := es.foldl sortEntry {}
  if sorted.refused ≠ [] then .error (.zip sorted.refused) else
  match sorted.messages with
  | none => .error (.zip [⟨"ZIP_MESSAGES_MISSING", String.ofList MESSAGES_ENTRY,
      "the export carries no messages file",
      "export again with media included; an export without media is a plain JSON file and not a zip"⟩])
  | some messages => .ok ⟨messages, sorted.media⟩

theorem open_iff : SoundOpen b ↔ Named (entries b) := by
  cases hentries : entries b with
  | error thrown =>
    have hopen : openExport b = .error thrown := by rw [openExport, hentries]; rfl
    refine ⟨fun h => named_error (hopen ▸ h.named), fun h => ⟨hopen ▸ named_error h, fun o ho => ?_⟩⟩
    rw [hopen] at ho
    cases ho
  | ok es =>
    refine ⟨fun _ => trivial, fun _ => ?_⟩
    have hsorted := sortedOf_all es
    have hopen : openExport b = exported es := by
      rw [openExport, hentries]
      rfl
    dsimp only [exported] at hopen
    by_cases hrefused : (es.foldl sortEntry {}).refused = []
    · rw [if_neg (by simpa using hrefused)] at hopen
      cases hm : (es.foldl sortEntry {}).messages with
      | none =>
        rw [hm] at hopen
        exact ⟨by rw [hopen]; trivial, fun o ho => by rw [hopen] at ho; cases ho⟩
      | some messages =>
        rw [hm] at hopen
        refine ⟨by rw [hopen]; trivial, fun o ho => ?_⟩
        rw [hopen] at ho
        obtain rfl := Except.ok.inj ho
        obtain ⟨hin, hkind⟩ := hsorted.messages messages hm
        exact ⟨es, hentries, hsorted.refused hrefused, hin, hkind, hsorted.media, hsorted.all⟩
    · rw [if_pos (by simpa using hrefused)] at hopen
      exact ⟨by rw [hopen]; trivial, fun o ho => by rw [hopen] at ho; cases ho⟩

/-! ## Archives -/

section
variable (inflate : Buffer → Option Buffer)

/-- A file of an archive: its header in the directory, and what stands at its place, the sizes and the
checksum there or in a descriptor behind it. -/
structure Member where
  header : Central
  text : List Char
  encoded : header.name.1.map (·.toNat) = Utf8.encode text
  head : {x : Buffer // x.length = 22}
  name : {x : Buffer // x.length < 256 ^ 2}
  extra : {x : Buffer // x.length < 256 ^ 2}
  packed : Buffer
  data : Buffer
  packedSize : header.compressedSize.1 = packed.length
  size : header.size.1 = data.length
  crc : header.crc.1 = crc32 data
  packing : header.method.1 = 0 ∧ packed = data ∨ header.method.1 = 8 ∧ inflate packed = some data

/-- The 64-bit record and its locator. -/
structure Wide where
  head : {x : Buffer // x.length = 28}
  directorySize : {x : Buffer // x.length = 8}
  more : Buffer
  disk : {x : Buffer // x.length = 4}
  disks : {x : Buffer // x.length = 4}

variable {inflate}

def Member.bytes (m : Member inflate) : Buffer :=
  le 4 LOCAL ++ (m.head.1 ++ (le 2 m.name.1.length ++ (le 2 m.extra.1.length ++ (m.name.1 ++ (m.extra.1 ++ m.packed)))))

def directoryBytes (members : List (Member inflate)) : Buffer := members.flatMap (·.header.bytes)

def Wide.bytes (w : Wide) (count offset pos : Nat) : Buffer :=
  le 4 EOCD64 ++ (w.head.1 ++ (le 8 count ++ (w.directorySize.1 ++ (le 8 offset ++ (w.more ++ (le 4 EOCD64_LOCATOR ++
    (w.disk.1 ++ (le 8 pos ++ w.disks.1))))))))

variable (inflate) in
/-- An archive: files anywhere in its body, in any order, then the directory, a 64-bit record where there is
need of one, and the end record with the comment. -/
structure Archive where
  body : Buffer
  members : List (Member inflate)
  placed : ∀ m ∈ members, ∃ rest, At body m.header.localOffset.1 (m.bytes ++ rest)
  wide : Option Wide
  disks : {x : Buffer // x.length = 6}
  count : {v : Nat // v < 256 ^ 2}
  directorySize : {x : Buffer // x.length = 4}
  offset : {v : Nat // v < 256 ^ 4}
  comment : {x : Buffer // x.length < 256 ^ 2}
  narrow : wide = none → count.1 = members.length ∧ offset.1 = body.length ∧ count.1 ≠ 0xffff ∧ offset.1 ≠ 0xffffffff
  overflow : wide ≠ none → (count.1 = 0xffff ∨ offset.1 = 0xffffffff) ∧ members.length < 256 ^ 8 ∧
    body.length + (directoryBytes members).length < 256 ^ 8

namespace Archive

def wideBytes (A : Archive inflate) : Buffer :=
  match A.wide with
  | none => []
  | some w => w.bytes A.members.length A.body.length (A.body.length + (directoryBytes A.members).length)

def endBytes (A : Archive inflate) : Buffer :=
  le 4 EOCD ++ (A.disks.1 ++ (le 2 A.count.1 ++ (A.directorySize.1 ++ (le 4 A.offset.1 ++
    (le 2 A.comment.1.length ++ A.comment.1)))))

def bytes (A : Archive inflate) : Buffer :=
  A.body ++ (directoryBytes A.members ++ (A.wideBytes ++ A.endBytes))

/-- Where the end record is. -/
def endAt (A : Archive inflate) : Nat := A.body.length + (directoryBytes A.members).length + A.wideBytes.length

/-- Nothing behind the beginning of the end record looks like the beginning of one. -/
def NoImitation (A : Archive inflate) : Prop :=
  ∀ pos, A.endAt < pos → pos + 22 ≤ A.bytes.length → number A.bytes pos 4 ≠ EOCD

variable {A : Archive inflate}

theorem at_directory (A : Archive inflate) :
    At A.bytes A.body.length (directoryBytes A.members ++ (A.wideBytes ++ A.endBytes)) := At.mk _ _

theorem at_wide (A : Archive inflate) : At A.bytes (A.body.length + (directoryBytes A.members).length)
    (A.wideBytes ++ A.endBytes) := A.at_directory.skip

theorem at_end (A : Archive inflate) : At A.bytes A.endAt A.endBytes := A.at_wide.skip

theorem length_endBytes (A : Archive inflate) : A.endBytes.length = 22 + A.comment.1.length := by
  simp only [endBytes, List.length_append, length_le, A.disks.2, A.directorySize.2]
  omega

theorem lastEnd (h : A.NoImitation) : LastEnd A.bytes A.endAt := by
  have hlen := A.at_end.length
  have hcomment := A.comment.2
  rw [length_endBytes] at hlen
  refine ⟨by omega, by omega, ?_, h⟩
  exact (show At A.bytes A.endAt (le 4 EOCD ++ _) from A.at_end).number (by decide)

theorem end_numbers (A : Archive inflate) : number A.bytes (A.endAt + 10) 2 = A.count.1 ∧
    number A.bytes (A.endAt + 16) 4 = A.offset.1 := by
  have hend := A.at_end
  unfold endBytes at hend
  have hdisks := hend.skip_eq (k := A.endAt + 4) (by simp)
  have hcount := hdisks.skip_eq (k := A.endAt + 10) (by rw [A.disks.2])
  have hsize := hcount.skip_eq (k := A.endAt + 12) (by simp)
  have hoffset := hsize.skip_eq (k := A.endAt + 16) (by rw [A.directorySize.2])
  exact ⟨hcount.number A.count.2, hoffset.number A.offset.2⟩

/-- The numbers of a 64-bit record and of its locator. -/
theorem wide_numbers {b rest : Buffer} {w : Wide} {count offset pos : Nat} (hcount : count < 256 ^ 8)
    (hoffset : offset < 256 ^ 8) (hpos : pos < 256 ^ 8) (hat : At b pos (w.bytes count offset pos ++ rest)) :
    let last := pos + (w.bytes count offset pos).length
    20 ≤ last ∧ pos + 56 ≤ b.length ∧ number b (last - 20) 4 = EOCD64_LOCATOR ∧ number b (last - 20 + 8) 8 = pos ∧
      number b pos 4 = EOCD64 ∧ number b (pos + 32) 8 = count ∧ number b (pos + 48) 8 = offset := by
  have hlen : (w.bytes count offset pos).length = 76 + w.more.length := by
    simp only [Wide.bytes, List.length_append, length_le, w.head.2, w.directorySize.2, w.disk.2, w.disks.2]
    omega
  have hroom := hat.length
  rw [List.length_append] at hroom
  dsimp only
  rw [hlen] at hroom ⊢
  simp only [Wide.bytes, List.append_assoc] at hat
  have hhead := hat.skip_eq (k := pos + 4) (by simp)
  have hc := hhead.skip_eq (k := pos + 32) (by rw [w.head.2])
  have hs := hc.skip_eq (k := pos + 40) (by simp)
  have ho := hs.skip_eq (k := pos + 48) (by rw [w.directorySize.2])
  have hm := ho.skip_eq (k := pos + 56) (by simp)
  have hl := hm.skip_eq (k := pos + (76 + w.more.length) - 20) (by omega)
  have hd := hl.skip_eq (k := pos + (76 + w.more.length) - 20 + 4) (by simp)
  have hp := hd.skip_eq (k := pos + (76 + w.more.length) - 20 + 8) (by rw [w.disk.2])
  exact ⟨by omega, by omega, hl.number (by decide), hp.number hpos, hat.number (by decide), hc.number hcount,
    ho.number hoffset⟩

/-- The end record leads to the directory. -/
theorem points (h : A.NoImitation) : Points A.bytes A.members.length A.body.length := by
  have hlast := lastEnd h
  obtain ⟨hcount, hoffset⟩ := A.end_numbers
  cases hw : A.wide with
  | none =>
    obtain ⟨hc, ho, hc', ho'⟩ := A.narrow hw
    have hpoints := Points.narrow A.endAt hlast ⟨by rw [hcount]; exact hc', by rw [hoffset]; exact ho'⟩
    rwa [hcount, hoffset, hc, ho] at hpoints
  | some w =>
    obtain ⟨hover, hmany, hfar⟩ := A.overflow (by rw [hw]; simp)
    have hnarrow : ¬ Narrow A.bytes A.endAt := by
      unfold Narrow
      rw [hcount, hoffset]
      tauto
    have hat := A.at_wide
    have hbytes : A.wideBytes = w.bytes A.members.length A.body.length
        (A.body.length + (directoryBytes A.members).length) := by rw [wideBytes, hw]
    have hend : A.endAt = A.body.length + (directoryBytes A.members).length + A.wideBytes.length := rfl
    rw [hbytes] at hat hend
    obtain ⟨h20, h56, hloc, hwide, hs, hc, ho⟩ := wide_numbers hmany (by omega) hfar hat
    rw [← hend] at h20 hloc hwide
    have hwideAt : wideAt A.bytes A.endAt = A.body.length + (directoryBytes A.members).length := hwide
    rw [← hwideAt] at h56 hs hc ho
    have hpoints := Points.wide A.endAt hlast hnarrow ⟨h20, hloc⟩ h56 hs
    rwa [hc, ho] at hpoints

theorem lists_directory {b rest : Buffer} {pos : Nat} {members : List (Member inflate)}
    (h : At b pos (directoryBytes members ++ rest)) : Lists b pos (members.map (·.header.entry)) := by
  induction members generalizing pos with
  | nil => trivial
  | cons m members ih =>
    simp only [directoryBytes, List.flatMap_cons, List.append_assoc] at h
    exact ⟨m.header, _, h, rfl, ih h.skip⟩

theorem entries_read (h : A.NoImitation) : entries A.bytes = .ok (A.members.map (·.header.entry)) := by
  have hread := readHeaders_ok (i := 0) (lists_directory A.at_directory)
  rw [List.length_map] at hread
  rw [entries_of_points (points h), hread]

end Archive

theorem member_read {b rest : Buffer} {m : Member inflate} (hat : At b m.header.localOffset.1 (m.bytes ++ rest)) :
    readEntry inflate b m.header.entry = .ok m.data := by
  have hoffset : m.header.entry.localOffset = m.header.localOffset.1 := rfl
  have hroom := hat.length
  simp only [Member.bytes, List.append_assoc] at hat
  have hhead := hat.skip_eq (k := m.header.localOffset.1 + 4) (by simp)
  have hname := hhead.skip_eq (k := m.header.localOffset.1 + 26) (by rw [m.head.2])
  have hextra := hname.skip_eq (k := m.header.localOffset.1 + 28) (by simp)
  have htext := hextra.skip_eq (k := m.header.localOffset.1 + 30) (by simp)
  have hraw := htext.skip.skip.slice
  have hn := hname.number m.name.2
  have hx := hextra.number m.extra.2
  have hin : m.header.entry.localOffset + 30 ≤ b.length := by
    have := htext.length
    rw [hoffset]
    omega
  have hdata : rawOf b m.header.entry = m.packed := by
    unfold rawOf
    rw [hoffset, hn, hx]
    rw [show m.header.entry.compressedSize = m.packed.length from m.packedSize]
    exact hraw
  rw [readEntry_at hin (hat.number (by decide)), hdata]
  have hok : dataOf inflate m.header.entry m.packed = .ok m.data := by
    unfold dataOf
    have hpacking : m.header.entry.method = 0 ∧ m.packed = m.data ∨
        m.header.entry.method = 8 ∧ inflate m.packed = some m.data := m.packing
    obtain ⟨hmethod, hpacked⟩ | ⟨hmethod, hinflate⟩ := hpacking
    · rw [if_pos hmethod, hpacked]
    · rw [if_neg (by omega), if_pos hmethod, hinflate]
  rw [hok]
  refine if_neg fun hbad => hbad.2 ?_
  exact m.crc.symm

theorem archive_iff (inflate : Buffer → Option Buffer) (b : Buffer) (e : ZipEntry) (A : Archive inflate) :
    (SoundDirectory b ∧ SoundOpen b ↔ InBounds b) ∧ (SoundEntry inflate b e ↔ Readable inflate b e) ∧
    (A.NoImitation → entries A.bytes = .ok (A.members.map (·.header.entry)) ∧
      ∀ m ∈ A.members, m.header.entry.name = String.ofList m.text ∧
        readEntry inflate A.bytes m.header.entry = .ok m.data) := by
  refine ⟨?_, entry_iff, fun h => ⟨A.entries_read h, fun m hm => ?_⟩⟩
  · rw [open_iff, ← directory_iff]
    exact ⟨fun h => h.1, fun h => ⟨h, h.named⟩⟩
  · obtain ⟨rest, hat⟩ := A.placed m hm
    have hat := hat.append (directoryBytes A.members ++ (A.wideBytes ++ A.endBytes))
    rw [List.append_assoc] at hat
    refine ⟨?_, member_read hat⟩
    rw [Central.entry, m.encoded, Utf8.decode_encode]

end

/-! ## An archive that is read, and what goes wrong -/

def noInflate : Buffer → Option Buffer := fun _ => none

def zeros (n : Nat) : {x : Buffer // x.length = n} := ⟨List.replicate n 0, List.length_replicate⟩

/-- The header of a file that is stored at the beginning. -/
def storedHeader (crc size : {v : Nat // v < 256 ^ 4}) : Central where
  made := zeros 6
  method := ⟨0, by decide⟩
  modified := zeros 4
  crc := crc
  compressedSize := size
  size := size
  disk := zeros 8
  localOffset := ⟨0, by decide⟩
  name := ⟨(Utf8.encode MESSAGES_ENTRY).map UInt8.ofNat, by decide⟩
  extra := ⟨[], by decide⟩
  comment := ⟨[], by decide⟩

def emptyList : Buffer := "[]".toList.map fun c => UInt8.ofNat c.toNat

def messagesFile : Member noInflate where
  header := storedHeader ⟨crc32 emptyList, by decide +kernel⟩ ⟨2, by decide⟩
  text := MESSAGES_ENTRY
  encoded := by decide
  head := zeros 22
  name := ⟨(Utf8.encode MESSAGES_ENTRY).map UInt8.ofNat, by decide⟩
  extra := ⟨[], by decide⟩
  packed := emptyList
  data := emptyList
  packedSize := by decide
  size := by decide
  crc := rfl
  packing := .inl ⟨rfl, rfl⟩

/-- The file, the directory and the end record. -/
def oneFile : Archive noInflate where
  body := messagesFile.bytes
  members := [messagesFile]
  placed m hm := by
    rw [List.mem_singleton.1 hm]
    exact ⟨[], by rw [List.append_nil]; exact At.zero _⟩
  wide := none
  disks := zeros 6
  count := ⟨1, by decide⟩
  directorySize := zeros 4
  offset := ⟨messagesFile.bytes.length, by decide⟩
  comment := ⟨[], by decide⟩
  narrow _ := by decide
  overflow h := absurd rfl h

theorem oneFile_read : entries oneFile.bytes = .ok [messagesFile.header.entry] ∧
    readEntry noInflate oneFile.bytes messagesFile.header.entry = .ok emptyList := by
  have hno : oneFile.NoImitation := by
    intro pos hlt hroom
    have hlen := oneFile.at_end.length
    rw [oneFile.length_endBytes, show oneFile.comment.1.length = 0 from rfl] at hlen
    omega
  obtain ⟨hentries, hread⟩ := (archive_iff noInflate [] messagesFile.header.entry oneFile).2.2 hno
  exact ⟨hentries, (hread messagesFile (List.mem_singleton_self _)).2⟩

/-- An end record with this count, directory and comment. -/
def endRecord (count offset : Nat) (comment : Buffer) : Buffer :=
  le 4 EOCD ++ (List.replicate 6 0 ++ (le 2 count ++ (List.replicate 4 0 ++ (le 4 offset ++
    (le 2 comment.length ++ comment)))))

/-- No file, and an end record for the comment. -/
def imitated : Archive noInflate where
  body := []
  members := []
  placed m hm := absurd hm List.not_mem_nil
  wide := none
  disks := zeros 6
  count := ⟨0, by decide⟩
  directorySize := zeros 4
  offset := ⟨0, by decide⟩
  comment := ⟨endRecord 1 0 [], by decide⟩
  narrow _ := by decide
  overflow h := absurd rfl h

/-- A file for which the directory has the checksum 0. -/
def unchecked : Buffer :=
  messagesFile.bytes ++ ((storedHeader ⟨0, by decide⟩ ⟨2, by decide⟩).bytes ++ endRecord 1 messagesFile.bytes.length [])

theorem misread :
    -- The comment is taken for the end record.
    entries imitated.bytes ≠ .ok (imitated.members.map (·.header.entry)) ∧
    -- A directory that begins at the end of the file is read there.
    entries (endRecord 1 22 []) = .error .range ∧
    -- Bytes with another checksum than the directory's are returned.
    ∃ e data, entries unchecked = .ok [e] ∧ readEntry noInflate unchecked e = .ok data ∧ crc32 data ≠ e.crc := by
  refine ⟨by decide +kernel, by decide +kernel, (storedHeader ⟨0, by decide⟩ ⟨2, by decide⟩).entry, emptyList, ?_⟩
  exact ⟨by decide +kernel, by decide +kernel, by decide +kernel⟩

end CarbonRuntime.Bugs.UncheckedArchive
