import CarbonRuntime.Adapters.Email.Build
import CarbonRuntime.Runtime.Process

/-!
# A subject that looks encoded

`buildMessage` encodes the subject where it is not printable ASCII (adapters/email/index.ts:730-734).
A subject that is, and looks like an encoded word, goes out as it is, and whoever reads it back
decodes it (mime.ts:107-123): `=?utf-8?Q?a?=` comes back as `a`. White space between a `?=` and a
`=?` goes too, whether or not words stand around it.

**Results.** `decodeWords_iff`: ASCII is read back where nothing in it is read as an encoded word; what
is decoded is shorter than what it was. `reply_reads_back`: a reply reads back as what it is, but for
white space around subject and body, exactly where its subject is plain, it has an id, it is from an
address that is read as declared, and what it answers has no line feed in its id. `subject_decoded`:
the subject above.
-/

open CarbonRuntime.Core CarbonRuntime.Stream Utf16 Rewrite

namespace CarbonRuntime.Bugs.DecodedSubject

open Adapters Adapters.Email Mime Store Runtime
open Chunks (isSpace)

variable {P : Platform} {t : Text}

/-- Nothing in the text is read as an encoded word, or as the white space between two. -/
def Unencoded (t : Text) : Prop := ∀ a b, t = a ++ b → betweenWords b = none ∧ encodedWord b = none

/-- The subject goes out as an encoded word, or is plain ASCII that is not read as one. -/
def Plain (subject : Text) : Prop := printable subject = false ∨ Unencoded (trim subject)

/-! ## Lengths -/

theorem unitsOf_length (c : Char) : (unitsOf c).length ≤ 2 := by
  unfold unitsOf
  dsimp only
  split <;> simp

theorem unitsOf_ascii {n : Nat} (h : n < 0x80) : (unitsOf (Char.ofNat n)).length = 1 := by
  have hn : (Char.ofNat n).toNat = n := toNat_ofNat (by rw [Nat.isValidChar]; omega)
  unfold unitsOf
  simp only [hn]
  rw [if_pos (by omega)]
  rfl

/-- One if a sequence is open. -/
def openUnits (p : Option Utf8.Pending) : Nat := if p.isSome then 1 else 0

theorem first_units (b : Nat) :
    (ofChars (Utf8.first b).1).length + openUnits (Utf8.first b).2 ≤ 1 := by
  unfold Utf8.first
  split_ifs with h
  · simp [openUnits, unitsOf_ascii h]
  all_goals exact Nat.le_refl 1

theorem step_units (p : Option Utf8.Pending) (b : Nat) :
    (ofChars (Utf8.step p b).1).length + openUnits (Utf8.step p b).2 ≤ openUnits p + 1 := by
  cases p with
  | none => exact (first_units b).trans (by simp [openUnits])
  | some p =>
    have hfirst := first_units b
    have hopen : openUnits (some p) = 1 := rfl
    rw [Utf8.step, hopen]
    split
    · dsimp only
      split
      · have := unitsOf_length (Char.ofNat (p.point * 0x40 + (b - 0x80)))
        simpa [openUnits] using this
      · exact Nat.le_succ 1
    · have hone : (unitsOf Utf8.replacement).length = 1 := by decide
      dsimp only
      rw [ofChars_cons, List.length_append, hone]
      omega

theorem decodeFrom_units (bytes : List Nat) : ∀ p,
    (ofChars (Utf8.decodeFrom p bytes)).length ≤ bytes.length + openUnits p := by
  induction bytes with
  | nil =>
    intro p
    cases p with
    | none => exact Nat.zero_le _
    | some p => exact Nat.le_refl 1
  | cons b bytes ih =>
    intro p
    have hstep := step_units p b
    have hrest := ih (Utf8.step p b).2
    rw [Utf8.decodeFrom_cons, ofChars_append, List.length_append, List.length_cons]
    omega

theorem decodeText_length (hP : P.Standard) (bytes : List Nat) (charset : Option Text) :
    (decodeText P bytes charset).length ≤ bytes.length := by
  unfold decodeText
  dsimp only
  split
  · rename_i decode h
    exact hP.short _ _ h bytes
  · exact decodeFrom_units bytes none

theorem unitBytes_ascii {u : UInt16} (h : u < 0x80) : (unitBytes u).length = 1 := by
  have hlt : u.toNat < 0x80 := by simpa [UInt16.lt_iff_toNat_lt] using h
  have hlone : lone u = Char.ofNat u.toNat := by
    rw [lone, isHigh_eq, isLow_eq, if_neg]
    simp only [Bool.or_eq_true, decide_eq_true_eq]
    omega
  have hn : (Char.ofNat u.toNat).toNat = u.toNat := toNat_ofNat (by rw [Nat.isValidChar]; omega)
  rw [unitBytes, hlone, Utf8.encodeChar]
  simp only [hn]
  rw [if_pos hlt]
  rfl

theorem quotedBytes_length (h : ∀ u ∈ t, u < 0x80) (skip : Nat) :
    (quotedBytes skip t).length ≤ t.length - skip := by
  induction t generalizing skip with
  | nil => simp [quotedBytes]
  | cons u t ih =>
    have ht : ∀ v ∈ t, v < 0x80 := fun v hv => h v (List.mem_cons_of_mem _ hv)
    cases skip with
    | succ skip => simpa [quotedBytes] using ih ht skip
    | zero =>
      rw [quotedBytes]
      split
      · have := ih ht 2
        simp only [List.length_cons]
        omega
      · have := ih ht 0
        have hu := unitBytes_ascii (h u (by simp))
        simp only [List.length_append, List.length_cons]
        omega

theorem decoded_length (hP : P.Standard) {w : EncodedWord} (h : ∀ u ∈ w.text, u < 0x80) :
    (w.decoded P).length ≤ w.text.length := by
  refine (decodeText_length hP _ _).trans ?_
  split
  · exact Base64.length_decode_le _
  · rw [decodeQuotedPrintable]
    simp only [if_true]
    refine (quotedBytes_length (fun u hu => ?_) 0).trans ?_
    · obtain ⟨v, hv, rfl⟩ := List.mem_map.1 hu
      split
      · decide
      · exact h v hv
    · simp

theorem built_length (w : EncodedWord) (encoding : UInt16) :
    (w.built encoding).length = w.charset.length + w.text.length + w.rest.length + 7 := by
  have h1 : (ofString "=?").length = 2 := rfl
  have h2 : (ofString "?=").length = 2 := rfl
  simp only [EncodedWord.built, List.length_append, List.length_cons, h1, h2]
  omega

theorem wordsFrom_length (hP : P.Standard) (h : ∀ u ∈ t, u < 0x80) (skip : Nat) :
    (wordsFrom P skip t).length ≤ t.length - skip := by
  induction t generalizing skip with
  | nil => simp [wordsFrom]
  | cons u t ih =>
    have ht : ∀ v ∈ t, v < 0x80 := fun v hv => h v (List.mem_cons_of_mem _ hv)
    cases skip with
    | succ skip => simpa [wordsFrom] using ih ht skip
    | zero =>
      rw [wordsFrom]
      cases hw : encodedWord (u :: t) with
      | none => simpa using ih ht 0
      | some w =>
        obtain ⟨encoding, -, -, hbuilt⟩ := encodedWord_some hw
        have hlen := built_length w encoding
        rw [← hbuilt, List.length_cons] at hlen
        have hdec := decoded_length hP (w := w) fun v hv => h v (by
          rw [hbuilt, EncodedWord.built]
          simp [hv])
        have := ih ht (t.length - w.rest.length)
        simp only [List.length_append, List.length_cons]
        omega

/-- A word that is decoded is longer than what it says. -/
theorem wordsFrom_lt (hP : P.Standard) {a b : Text} (h : ∀ u ∈ a ++ b, u < 0x80) {w : EncodedWord}
    (hw : encodedWord b = some w) : (wordsFrom P 0 (a ++ b)).length < (a ++ b).length := by
  have hword : ∀ {u : UInt16} {t : Text} {w : EncodedWord}, (∀ v ∈ u :: t, v < 0x80) →
      encodedWord (u :: t) = some w → (wordsFrom P 0 (u :: t)).length < (u :: t).length := by
    intro u t w h hw
    obtain ⟨encoding, -, -, hbuilt⟩ := encodedWord_some hw
    have hlen := built_length w encoding
    rw [← hbuilt, List.length_cons] at hlen
    have hdec := decoded_length hP (w := w) fun v hv => h v (by
      rw [hbuilt, EncodedWord.built]
      simp [hv])
    have := wordsFrom_length hP (fun v hv => h v (List.mem_cons_of_mem _ hv))
      (t.length - w.rest.length)
    rw [wordsFrom, hw]
    simp only [List.length_append, List.length_cons]
    omega
  induction a with
  | nil =>
    cases b with
    | nil => cases hw
    | cons u b => exact hword h hw
  | cons u a ih =>
    cases hu : encodedWord (u :: (a ++ b)) with
    | some w' => exact hword h hu
    | none =>
      have := ih fun v hv => h v (List.mem_cons_of_mem _ hv)
      rw [List.cons_append, wordsFrom, hu]
      simpa using this

/-! ## Subjects -/

theorem betweenWords_some {rest : Text} (h : betweenWords t = some rest) :
    ∃ gap, t = ofString "?=" ++ (gap ++ (ofString "=?" ++ rest)) ∧ gap ≠ [] := by
  simp only [betweenWords, bind, Option.bind_eq_some_iff] at h
  obtain ⟨t₁, h₁, _, hlt, h₂⟩ := h
  obtain ⟨p, rfl, hp⟩ := List.dropPrefix?_eq_some_iff.1 h₁
  obtain ⟨q, hq, hqe⟩ := List.dropPrefix?_eq_some_iff.1 h₂
  obtain rfl := eq_of_beq hp
  obtain rfl := eq_of_beq hqe
  have hguard : (t₁.dropWhile isSpace).length < t₁.length := by
    by_contra hn
    rw [guard, if_neg hn] at hlt
    cases hlt
  have hsplit := List.takeWhile_append_dropWhile (p := isSpace) (l := t₁)
  refine ⟨t₁.takeWhile isSpace, by rw [← hq, hsplit], ?_⟩
  intro hnil
  rw [hnil, List.nil_append] at hsplit
  rw [hsplit] at hguard
  exact Nat.lt_irrefl _ hguard

theorem includes_middle (a p b : Text) : includes (a ++ (p ++ b)) p = true :=
  List.any_eq_true.2 ⟨p ++ b, (List.mem_tails _ _).2 (List.suffix_append _ _),
    List.isPrefixOf_iff_prefix.2 (List.prefix_append p b)⟩

theorem betweenWords_shortens : Shortens betweenWords (ofString "?==?") := by
  intro t rest h
  obtain ⟨gap, rfl, hne⟩ := betweenWords_some h
  have := List.length_pos_iff.2 hne
  have h1 : (ofString "=?").length = 2 := rfl
  have h2 : (ofString "?=").length = 2 := rfl
  have h3 : (ofString "?==?").length = 4 := rfl
  simp only [List.length_append]
  omega

theorem mem_replaceFrom {m : Matcher UInt16} {replacement : Text} {u : UInt16} (skip : Nat)
    (h : u ∈ replaceFrom m replacement skip t) : u ∈ replacement ∨ u ∈ t := by
  induction t generalizing skip with
  | nil => simp [replaceFrom] at h
  | cons v t ih =>
    cases skip with
    | succ skip => exact (ih skip h).imp_right (List.mem_cons_of_mem _)
    | zero =>
      rw [replaceFrom] at h
      split at h
      · rcases List.mem_append.1 h with h | h
        · exact .inl h
        · exact (ih _ h).imp_right (List.mem_cons_of_mem _)
      · rcases List.mem_cons.1 h with rfl | h
        · exact .inr List.mem_cons_self
        · exact (ih _ h).imp_right (List.mem_cons_of_mem _)

theorem wordsFrom_none (h : ∀ a b, t = a ++ b → encodedWord b = none) : wordsFrom P 0 t = t := by
  induction t with
  | nil => rfl
  | cons u t ih =>
    rw [wordsFrom, h [] (u :: t) rfl]
    exact congrArg (u :: ·) (ih fun a b hab => h (u :: a) b (by rw [hab]; rfl))

theorem decodeWords_unencoded (h : Unencoded t) : decodeWords P t = t := by
  rw [decodeWords]
  split
  · rw [replaceAll_none fun a b hab => (h a b hab).1, wordsFrom_none fun a b hab => (h a b hab).2]
  · rfl

/-- A text that is read as more than it is comes out shorter. -/
theorem decodeWords_lt (hP : P.Standard) (ha : ∀ u ∈ t, u < 0x80) (h : ¬ Unencoded t) :
    (decodeWords P t).length < t.length := by
  have hreplaced : ∀ u ∈ replaceAll betweenWords (ofString "?==?") t, u < 0x80 := fun u hu =>
    (mem_replaceFrom 0 hu).elim
      (fun hu => (List.forall_iff_forall_mem.1 (by decide) : ∀ u ∈ ofString "?==?", u < 0x80) u hu)
      (ha u)
  have hwords := wordsFrom_length hP hreplaced 0
  rw [Nat.sub_zero] at hwords
  unfold Unencoded at h
  push Not at h
  obtain ⟨a, b, rfl, h⟩ := h
  cases hb : betweenWords b with
  | some rest =>
    -- The white space between two words goes, whether or not they are words.
    have hlt := replaceAll_some betweenWords_shortens (a := a) hb
    obtain ⟨gap, rfl, -⟩ := betweenWords_some hb
    have hin : includes (a ++ (ofString "?=" ++ (gap ++ (ofString "=?" ++ rest))))
        (ofString "=?") = true := by
      rw [← List.append_assoc, ← List.append_assoc]
      exact includes_middle _ _ _
    rw [decodeWords, hin, if_pos rfl]
    omega
  | none =>
    obtain ⟨w, hw⟩ := Option.ne_none_iff_exists'.1 (h hb)
    obtain ⟨encoding, -, -, rfl⟩ := encodedWord_some hw
    have hin : includes (a ++ w.built encoding) (ofString "=?") = true := includes_middle _ _ _
    rw [decodeWords, hin, if_pos rfl]
    rcases replaceAll_lt betweenWords_shortens (a ++ w.built encoding) with heq | hlt
    · rw [heq]
      exact wordsFrom_lt hP ha hw
    · omega

/-- Plain ASCII reads back where nothing in it is read as an encoded word. -/
theorem decodeWords_iff (hP : P.Standard) (ha : ∀ u ∈ t, u < 0x80) :
    trim (decodeWords P (trim t)) = trim t ↔ Unencoded (trim t) := by
  constructor
  · intro h
    by_contra hn
    have hlt := decodeWords_lt hP (fun u hu => ha u (Cutting.mem_of_mem_trim hu)) hn
    have hle := Cutting.length_trim_le (p := isSpace) (l := decodeWords P (trim t))
    rw [← trim, h] at hle
    exact absurd hlt (Nat.not_lt.2 hle)
  · intro h
    rw [decodeWords_unencoded h, trim, trim, Cutting.trim_trim]

/-- An encoded word has no white space around it. -/
theorem trim_encoded (b : Text) : trim (ofString "=?utf-8?B?" ++ b ++ ofString "?=") =
    ofString "=?utf-8?B?" ++ b ++ ofString "?=" := by
  have hfront : ofString "=?utf-8?B?" = chr '=' :: ofString "?utf-8?B?" := by decide
  have hback : ofString "?=" = [chr '?'] ++ [chr '='] := by decide
  rw [hfront, hback, List.cons_append, List.cons_append, ← List.append_assoc, trim]
  exact Cutting.trim_eq_self (by decide) (by decide) _

/-- What is decoded of a subject that is built is the subject, exactly where it is plain. -/
theorem subject_iff (hP : P.Standard) (cs : List Char) :
    trim (decodeWords P (trim (encodeHeaderWord (ofChars cs)))) = trim (ofChars cs) ↔
      Plain (ofChars cs) := by
  cases hp : printable (ofChars cs) with
  | true =>
    have ha : ∀ u ∈ ofChars cs, u < 0x80 := by
      intro u hu
      have := List.all_eq_true.1 hp u hu
      simp only [Bool.and_eq_true, decide_eq_true_eq, UInt16.le_iff_toNat_le,
        UInt16.reduceToNat] at this
      rw [UInt16.lt_iff_toNat_lt]
      exact Nat.lt_succ_of_le (this.2.trans (by decide))
    rw [encodeHeaderWord, hp, if_pos rfl, decodeWords_iff hP ha, Plain, hp]
    simp
  | false =>
    rw [encodeHeaderWord, hp, if_neg Bool.false_ne_true, utf8Bytes_ofChars, trim_encoded,
      decodeWords_encoded hP, trim_withoutMark]
    simp [Plain, hp]

/-! ## The reply -/

variable {M : Mail} {J : Js} {target : MessageRecord} {part : Part}

/-- The record of mail that was captured: as it was read, in a conversation the store takes. -/
structure Captured (M : Mail) (J : Js) (target : MessageRecord) : Prop where
  read : ∃ d receivedAt x, target = (candidateOf M J d receivedAt x).1.record
  taken : componentFaults J "conversation_id" target.conversationId = []

/-- What `send` puts in the headers of a part is on one line. -/
structure OneLine (part : Part) : Prop where
  requestId : '\n' ∉ part.requestId.toList
  random : '\n' ∉ part.random.toList
  recipients : ∀ address ∈ part.recipients, '\n' ∉ address.toList
  date : '\n' ∉ part.date.toList

/-- The headers a message reads back with. -/
def readBack (held : MimeAttachment → Attachment) (m : MimeMessage) : List Header :=
  (m.read held).headers

/-- A part of a reply, read as the message `m`, reads back as what it is. -/
structure ReadsBack (M : Mail) (J : Js) (held : MimeAttachment → Attachment) (d : Disk)
    (receivedAt : String) (x : Item) (target : MessageRecord) (part : Part) (m : MimeMessage) :
    Prop where
  kept : (candidateOf M J d receivedAt { x with message := .ok (m.read held) }).2 = none
  conversation : (candidateOf M J d receivedAt
    { x with message := .ok (m.read held) }).1.record.conversationId = target.conversationId
  answers : (candidateOf M J d receivedAt
    { x with message := .ok (m.read held) }).1.record.replyTo = some target.platformMessageId
  role : (candidateOf M J d receivedAt
    { x with message := .ok (m.read held) }).1.record.role = .agent
  stamped : M.lower ((Email.header (m.read held).headers sentStamp).getD "") = "agent"
  body : m.body = trim (ofString part.body)
  subject : (Mime.header m.headers "subject").map trim = some (trim (ofString part.subject))
  /-- Mail that names what this names and then this one. -/
  peers : ∀ (d : Disk) (peer : Item) (message : Message) (references messageId : String),
    peer.message = .ok message → Readable peer →
    Email.headerRaw (m.read held).headers "references" = some references →
    Email.headerRaw (m.read held).headers "message-id" = some messageId →
    Email.headerRaw message.headers "references" = some (references ++ " " ++ messageId) →
    (Email.readItem M J d peer).conversationId = target.conversationId

/-- A `From` of the account is read as a declared address. -/
def Recognised (M : Mail) : Prop :=
  ((addressesIn M (text (trim (ofString M.account)))).head?).getD "unknown" ∈ declaredAddresses M

theorem captured_ids (h : Captured M J target) : target.account = M.account ∧
    ∃ root, target.conversationId = M.account ++ ":" ++ root ∧ IdText root ∧
      IdText target.platformMessageId := by
  obtain ⟨⟨d, receivedAt, x, rfl⟩, -⟩ := h
  obtain ⟨root, hconv, hroot, hpid⟩ := readItem_ids M J d x
  cases hc : (Email.readItem M J d x).content with
  | ok message =>
    rw [candidateOf_ok hc]
    exact ⟨rfl, root, hconv, hroot, hpid⟩
  | error reason =>
    rw [candidateOf_error hc]
    exact ⟨rfl, root, hconv, hroot, hpid⟩

/-- A conversation the store takes is on one line. -/
theorem captured_line (h : Captured M J target) : '\n' ∉ target.conversationId.toList := by
  intro hm
  have := h.taken
  unfold componentFaults at this
  split_ifs at this
  all_goals
    simp only [List.append_eq_nil_iff] at this
    obtain ⟨⟨-, hcontrol⟩, -⟩ := this
    split at hcontrol
    · cases hcontrol
    · rename_i hnone
      exact absurd (List.find?_eq_none.1 hnone _ hm) (by decide)

/-- The fields a part is read back with. -/
def fieldsRead (M : Mail) (target : MessageRecord) (part : Part) : List (String × Text) :=
  readFields (part.input M.account target) (ofString "agent") (ofString target.platformMessageId)

/-- A header as it is read on. -/
def kept (P : Platform) (f : String × Text) : Header :=
  ⟨f.1, text (decodeWords P (trim f.2)), text (trim f.2)⟩

theorem read_headers (held : MimeAttachment → Attachment) (fields : List (String × Text))
    (body : Text) (kind : BodyKind) :
    (MimeMessage.read held ⟨fields.map (headerOf P), body, kind, []⟩).headers =
      fields.map (kept P) := by
  rw [MimeMessage.read, List.map_map]
  refine List.map_congr_left fun f _ => ?_
  simp only [Function.comp_apply, headerOf, text_ofString]
  rfl

theorem headerRaw_kept (fields : List (String × Text)) (name : String) :
    Email.headerRaw (fields.map (kept P)) name =
      (fields.find? (·.1 = name)).map fun f => text (trim f.2) := by
  rw [Email.headerRaw, List.find?_map, Option.map_map]
  rfl

theorem header_kept (fields : List (String × Text)) (name : String) :
    Email.header (fields.map (kept P)) name =
      (fields.find? (·.1 = name)).map fun f => text (decodeWords P (trim f.2)) := by
  rw [Email.header, List.find?_map, Option.map_map]
  rfl

theorem references_part {root : String} (ha : target.account = M.account)
    (hc : target.conversationId = M.account ++ ":" ++ root) :
    (part.input M.account target).references =
      ofString root :: (if target.platformMessageId = root then []
        else [ofString target.platformMessageId]) := by
  rw [Part.input, ha, hc, referencesFor_eq]
  split <;> rfl

/-- The chain as it is read back. -/
theorem references_read {root : String} (ha : target.account = M.account)
    (hc : target.conversationId = M.account ++ ":" ++ root) :
    ∃ rest, text (trim (joinWith [chr ' '] ((part.input M.account target).references.map angled))) =
      "<" ++ root ++ ">" ++ rest := by
  rw [references_part ha hc]
  have hone : angled (ofString root) = chr '<' :: (ofString root ++ [chr '>']) := rfl
  split
  · refine ⟨"", ?_⟩
    simp only [List.map_cons, List.map_nil, joinWith]
    rw [hone, trim_angled, ← hone, angled_ofString, text_ofString, String.append_empty]
  · refine ⟨" " ++ ("<" ++ target.platformMessageId ++ ">"), ?_⟩
    have hspace : [chr ' '] = ofString " " := by decide
    have hjoin : angled (ofString root) ++ [chr ' '] ++ angled (ofString target.platformMessageId) =
        chr '<' :: ((ofString root ++ ofString "> <" ++ ofString target.platformMessageId) ++
          [chr '>']) := by
      have h : ofString "> <" = [chr '>', chr ' ', chr '<'] := by decide
      simp [angled, h]
    simp only [List.map_cons, List.map_nil, joinWith]
    rw [hjoin, trim_angled, ← hjoin, angled_ofString, angled_ofString, hspace, ← ofString_append,
      ← ofString_append, text_ofString, String.append_assoc]

theorem splitOn_mem {sep c : Char} {acc cs : List Char} :
    ∀ s ∈ splitOn sep acc cs, c ∈ s.toList → c ∈ acc ∨ c ∈ cs := by
  induction cs generalizing acc with
  | nil =>
    intro s hs hc
    rw [splitOn, List.mem_singleton] at hs
    rw [hs, String.toList_ofList, List.mem_reverse] at hc
    exact .inl hc
  | cons a cs ih =>
    intro s hs hc
    rw [splitOn] at hs
    split at hs
    · rcases List.mem_cons.1 hs with rfl | hs
      · rw [String.toList_ofList, List.mem_reverse] at hc
        exact .inl hc
      · exact .inr ((ih s hs hc).elim (fun h => nomatch h) (List.mem_cons_of_mem _))
    · rcases ih s hs hc with h | h
      · rcases List.mem_cons.1 h with rfl | h
        · exact .inr List.mem_cons_self
        · exact .inl h
      · exact .inr (List.mem_cons_of_mem _ h)

theorem addressesIn_line (hM : ∀ s, '\n' ∈ (M.lower s).toList → '\n' ∈ s.toList) {value : String}
    (h : '\n' ∉ value.toList) : ∀ address ∈ addressesIn M value, '\n' ∉ address.toList := by
  intro address ha hm
  obtain ⟨piece, hpiece, hsome⟩ := List.mem_filterMap.1 ha
  obtain ⟨-, hlower⟩ := Option.ite_none_right_eq_some.1 hsome
  obtain rfl := Option.some.inj hlower
  have htrim := hM _ hm
  rw [Email.trim_eq, String.toList_ofList] at htrim
  have hsource := Cutting.mem_of_mem_trim htrim
  refine h ((splitOn_mem piece hpiece ?_).elim (fun h => nomatch h) id)
  cases hf : (bracketed none piece.toList).find? (· ≠ "") with
  | none => rwa [hf] at hsource
  | some angled =>
    rw [hf] at hsource
    rcases bracketed_mem none angled (List.mem_of_find?_eq_some hf) _ hsource with h | ⟨_, h, _⟩
    · exact h
    · cases h

/-- The addresses a reply goes to are on one line where the mail it answers was. -/
theorem replyRecipients_line {headers : List Header}
    (hM : ∀ s, '\n' ∈ (M.lower s).toList → '\n' ∈ s.toList)
    (hh : ∀ header ∈ headers, '\n' ∉ header.raw.toList) (ht : '\n' ∉ target.senderId.toList) :
    ∀ address ∈ replyRecipients M target headers, '\n' ∉ address.toList := by
  have hraw : '\n' ∉ ((Email.headerRaw headers "reply-to").getD "").toList := by
    rw [Email.headerRaw]
    cases hf : headers.find? (·.name = "reply-to") with
    | none => decide
    | some header => exact hh header (List.mem_of_find?_eq_some hf)
  unfold replyRecipients
  split
  · split
    · exact fun _ h => nomatch h
    · intro address h
      rw [List.mem_singleton.1 h]
      exact ht
  · exact addressesIn_line hM hraw

theorem sentId_line {account : String} (hp : OneLine part) (ha : '\n' ∉ account.toList) :
    '\n' ∉ (sentId account part).toList := by
  have hdomain : '\n' ∉ (((splitOn '@' [] account.toList)[1]?).getD "localhost").toList := by
    cases hs : (splitOn '@' [] account.toList)[1]? with
    | none => decide
    | some domain =>
      exact fun hm => (splitOn_mem domain (List.mem_of_getElem? hs) hm).elim
        (fun h => nomatch h) ha
  have hindex : '\n' ∉ (toString (part.index + 1)).toList := fun hm =>
    absurd (Nat.isDigit_of_mem_toDigits (by decide) (by decide)
      (show '\n' ∈ Nat.toDigits 10 (part.index + 1) by simpa using hm)) (by decide)
  have hdot : '\n' ∉ ".".toList := by decide
  have hat : '\n' ∉ "@".toList := by decide
  have hfirst : '\n' ∉ "carbon.".toList := by decide
  simp only [sentId, String.toList_append, List.mem_append, not_or]
  exact ⟨⟨⟨⟨⟨⟨⟨hfirst, hp.requestId⟩, hdot⟩, hindex⟩, hdot⟩, hp.random⟩, hat⟩, hdomain⟩

theorem lined_part (ht : Captured M J target) (hp : OneLine part)
    (hpid : '\n' ∉ target.platformMessageId.toList) :
    Lined (part.input M.account target) (ofString "agent") := by
  obtain ⟨ha, root, hc, -, -⟩ := captured_ids ht
  have hline := captured_line ht
  rw [hc, String.toList_append, String.toList_append, List.mem_append, List.mem_append, not_or,
    not_or] at hline
  obtain ⟨⟨haccount, -⟩, hroot⟩ := hline
  have hfree : ∀ s : String, '\n' ∉ s.toList → lf ∉ ofString s := fun s h hm =>
    h (lf_mem_ofString.1 hm)
  refine ⟨hfree _ haccount, ?_, hfree _ hp.date, hfree _ ?_, ?_, ?_, by decide⟩
  · intro t hin
    obtain ⟨address, hmem, rfl⟩ := List.mem_map.1 hin
    exact hfree _ (hp.recipients address hmem)
  · exact sentId_line hp haccount
  · intro id hid
    rw [← Option.some.inj hid]
    exact hfree _ hpid
  · rw [references_part ha hc]
    intro id hid
    rcases List.mem_cons.1 hid with rfl | hid
    · exact hfree _ hroot
    · split at hid
      · cases hid
      · rw [List.mem_singleton.1 hid]
        exact hfree _ hpid

variable {held : MimeAttachment → Attachment} {d : Disk} {receivedAt : String} {x : Item}

/-- What a part on one line is read as. -/
def builtMessage (P : Platform) (M : Mail) (target : MessageRecord) (part : Part) : MimeMessage :=
  ⟨(fieldsRead M target part).map (headerOf P), trim (ofString part.body), .textPlain, []⟩

theorem read_part (hP : P.Standard) (ht : Captured M J target) (hp : OneLine part)
    (hpid : '\n' ∉ target.platformMessageId.toList) (cap : Nat) :
    ∃ mime, buildMessage (part.input M.account target) = .ok mime ∧
      readMessage P (fetchMessage mime) (some cap) = .ok (builtMessage P M target part) := by
  have hl := lined_part ht hp hpid
  obtain ⟨ha, root, hc, -, -⟩ := captured_ids ht
  refine ⟨_, buildMessage_ok rfl (by decide), ?_⟩
  rw [@fetched_built _ _ part.body.toList hl rfl]
  exact readMessage_built hP rfl (by rw [references_part ha hc]; exact List.cons_ne_nil _ _) rfl cap

/-- The headers a part is read on with. -/
def headersOf (P : Platform) (M : Mail) (target : MessageRecord) (part : Part) : List Header :=
  (fieldsRead M target part).map (kept P)

theorem trim_id (s : String) : text (trim (angled (ofString s))) = "<" ++ s ++ ">" := by
  have h : angled (ofString s) = chr '<' :: (ofString s ++ [chr '>']) := rfl
  rw [h, trim_angled, ← h, angled_ofString, text_ofString]

theorem messageId_read : Email.headerRaw (headersOf P M target part) "message-id" =
    some ("<" ++ sentId M.account part ++ ">") := by
  rw [headersOf, headerRaw_kept]
  simp only [fieldsRead, readFields, List.find?, String.reduceEq, decide_false, decide_true,
    Option.map_some]
  exact congrArg some (trim_id _)

theorem ownId_read : ownIdOf (headersOf P M target part) =
    (idsIn ("<" ++ sentId M.account part ++ ">")).head? := by
  rw [ownIdOf, messageId_read, Option.getD_some]

theorem superseded_read : supersededBy (headersOf P M target part) = none := by
  rw [supersededBy, headersOf, headerRaw_kept]
  simp only [fieldsRead, readFields, List.find?, String.reduceEq, decide_false, Option.map_none,
    Option.getD_none]
  rfl

theorem referencesRaw_read : Email.headerRaw (headersOf P M target part) "references" =
    some (text (trim (joinWith [chr ' '] ((part.input M.account target).references.map angled)))) := by
  rw [headersOf, headerRaw_kept]
  simp only [fieldsRead, readFields, List.find?, String.reduceEq, decide_false, decide_true,
    Option.map_some]

theorem root_read {root : String} (ha : target.account = M.account)
    (hc : target.conversationId = M.account ++ ":" ++ root) (hr : IdText root) (own : String) :
    threadRoot (headersOf P M target part) own = root := by
  obtain ⟨rest, hread⟩ := @references_read _ _ part _ ha hc
  rw [threadRoot, referencesRaw_read, Option.getD_some, hread, idsIn_angled hr]

theorem answers_read (hpid : IdText target.platformMessageId) :
    (idsIn ((Email.headerRaw (headersOf P M target part) "in-reply-to").getD "")).head? =
      some target.platformMessageId := by
  have hraw : Email.headerRaw (headersOf P M target part) "in-reply-to" =
      some ("<" ++ target.platformMessageId ++ ">" ++ "") := by
    rw [headersOf, headerRaw_kept, String.append_empty]
    simp only [fieldsRead, readFields, List.find?, String.reduceEq, decide_false, decide_true,
      Option.map_some]
    exact congrArg some (trim_id _)
  rw [hraw, Option.getD_some, idsIn_angled hpid, List.head?_cons]

theorem stamp_read : (Email.header (headersOf P M target part) sentStamp).getD "" = "agent" := by
  rw [headersOf, header_kept]
  simp only [fieldsRead, readFields, sentStamp, List.find?, String.reduceEq, decide_false, decide_true,
    Option.map_some, Option.getD_some]
  rw [decodeWords, if_neg (by decide)]
  decide

theorem sender_read : senderOf M (headersOf P M target part) =
    ((addressesIn M (text (trim (ofString M.account)))).head?).getD "unknown" := by
  rw [senderOf, headersOf, headerRaw_kept]
  simp only [fieldsRead, readFields, List.find?, decide_true,
    Option.map_some, Option.getD_some]
  rfl

theorem headers_read : (MimeMessage.read held (builtMessage P M target part)).headers =
    headersOf P M target part := read_headers held _ _ _

theorem roleOf_read {read : ReadResult} (hM : M.lower "agent" = "agent")
    (hh : read.headers = headersOf P M target part) :
    roleOf M J d read = .agent ↔ Recognised M := by
  have hown : isOwn M J d read = true ↔ Recognised M := by
    rw [isOwn, hh, stamp_read, sender_read, hM]
    simp [Recognised]
  unfold roleOf
  constructor
  · intro h
    split at h
    · rename_i ho
      exact hown.1 ho
    · split at h <;> cases h
  · intro h
    rw [if_pos (hown.2 h)]

theorem subject_read (hP : P.Standard) :
    (Mime.header (builtMessage P M target part).headers "subject").map trim =
      some (trim (ofString part.subject)) ↔ Plain (ofString part.subject) := by
  refine Iff.trans ?_ (subject_iff hP part.subject.toList)
  rw [Mime.header, builtMessage, find_header]
  simp only [fieldsRead, readFields, List.find?, String.reduceEq, decide_false, decide_true,
    Option.map_some, Option.some.injEq, headerOf]
  exact Iff.rfl

/-- The record of mail with such headers. -/
theorem record_read (hM : M.lower "agent" = "agent") (ht : Captured M J target) {message : Message}
    (hh : message.headers = headersOf P M target part) (own : String) :
    (recordOf M J d receivedAt (plainRead M message own) message).conversationId =
        target.conversationId ∧
      (recordOf M J d receivedAt (plainRead M message own) message).replyTo =
        some target.platformMessageId ∧
      ((recordOf M J d receivedAt (plainRead M message own) message).role = .agent ↔
        Recognised M) := by
  obtain ⟨ha, root, hc, hroot, hpid⟩ := captured_ids ht
  have hread : (plainRead M message own).headers = headersOf P M target part := hh
  have hconv : (plainRead M message own).conversationId =
      M.account ++ ":" ++ threadRoot message.headers own := rfl
  refine ⟨?_, ?_, roleOf_read hM hread⟩
  · rw [recordOf, hconv, hh, root_read ha hc hroot, hc]
  · rw [recordOf, hread, answers_read hpid]

/-- Mail that names the chain of a part lands in the conversation of it. -/
theorem peer_read {root : String} (ha : target.account = M.account)
    (hc : target.conversationId = M.account ++ ":" ++ root) (hr : IdText root) {peer : Item}
    {message : Message} {references messageId : String} (hm : peer.message = .ok message)
    (hreadable : Readable peer)
    (href : Email.headerRaw (headersOf P M target part) "references" = some references)
    (hchain : Email.headerRaw message.headers "references" =
      some (references ++ " " ++ messageId)) :
    (Email.readItem M J d peer).conversationId = target.conversationId := by
  obtain ⟨message', own, hm', hown⟩ := hreadable
  obtain rfl := Except.ok.inj (hm.symm.trans hm')
  have hkey := readItem_key (M := M) (J := J) (d := d) (x := peer)
    (k := (M.account ++ ":" ++ threadRoot message.headers own, own)) (by
      simp only [keyOf, hm, hown, Option.map_some])
  obtain ⟨rest, hread⟩ := @references_read _ _ part _ ha hc
  have hrefs : references = "<" ++ root ++ ">" ++ rest := by
    rw [referencesRaw_read] at href
    rw [← Option.some.inj href, hread]
  have hfront : references ++ " " ++ messageId = "<" ++ root ++ ">" ++ (rest ++ " " ++ messageId) := by
    simp only [hrefs, String.append_assoc]
  have hroot : threadRoot message.headers own = root := by
    rw [threadRoot, hchain, Option.getD_some, hfront, idsIn_angled hr]
  rw [(Prod.mk.inj hkey).1, hroot, hc]

/-- A part on one line reads back where it has an id, its account is read as declared, and its
subject is plain. -/
theorem part_reads_back (hP : P.Standard) (hM : M.lower "agent" = "agent")
    (ht : Captured M J target) :
    ReadsBack M J held d receivedAt x target part (builtMessage P M target part) ↔
      idsIn ("<" ++ sentId M.account part ++ ">") ≠ [] ∧ Recognised M ∧
        Plain (ofString part.subject) := by
  have hh : (MimeMessage.read held (builtMessage P M target part)).headers =
      headersOf P M target part := headers_read
  generalize hx : ({ x with message := .ok (MimeMessage.read held (builtMessage P M target part)) } :
    Item) = x'
  have hm : x'.message = .ok (MimeMessage.read held (builtMessage P M target part)) := by rw [← hx]
  generalize hw : x'.with_ (MimeMessage.read held (builtMessage P M target part)) = message
  have hheaders : message.headers = headersOf P M target part := by
    rw [← hw]
    exact hh
  cases hids : idsIn ("<" ++ sentId M.account part ++ ">") with
  | nil =>
    -- Without an id of its own the message is parked.
    have hnone : ownIdOf message.headers = none := by
      rw [hheaders, ownId_read, hids, List.head?_nil]
    refine iff_of_false (fun h => ?_) fun h => h.1 rfl
    have hkept := h.kept
    rw [hx, candidateOf] at hkept
    simp only [Email.readItem, hm, hw, hnone, unreadable] at hkept
    cases hkept
  | cons own more =>
    have hown : ownIdOf (MimeMessage.read held (builtMessage P M target part)).headers = some own := by
      rw [hh, ownId_read, hids, List.head?_cons]
    have hread := readItem_plain (M := M) (J := J) (d := d) hm hown (by rw [hh, superseded_read])
    rw [hw] at hread
    have hcand : candidateOf M J d receivedAt x' = _ :=
      candidateOf_ok (show _ = Except.ok message by rw [hread]; rfl)
    rw [hread] at hcand
    obtain ⟨hconv, hanswers, hrole⟩ := @record_read P M J target part d receivedAt hM ht _
      hheaders own
    constructor
    · intro h
      have hagent := h.role
      rw [hx, hcand] at hagent
      exact ⟨List.cons_ne_nil _ _, hrole.1 hagent, (subject_read hP).1 h.subject⟩
    · rintro ⟨-, hdeclared, hplain⟩
      exact {
        kept := by rw [hx, hcand]
        conversation := by rw [hx, hcand, hconv]
        answers := by rw [hx, hcand, hanswers]
        role := by rw [hx, hcand]; exact hrole.2 hdeclared
        stamped := by rw [hh, stamp_read, hM]
        body := rfl
        subject := (subject_read hP).2 hplain
        peers := by
          rw [hh]
          intro d peer message references messageId hmessage hreadable href _ hchain
          obtain ⟨ha, root, hc, hroot, -⟩ := captured_ids ht
          exact peer_read ha hc hroot hmessage hreadable href hchain }

theorem readItem_headers {message : Message} (hm : x.message = .ok message) :
    (Email.readItem M J d x).headers = message.headers := by
  cases hid : ownIdOf message.headers with
  | none =>
    have hid' : ownIdOf (x.with_ message).headers = none := hid
    simp only [Email.readItem, hm, hid', unreadable]
    rfl
  | some own =>
    cases hs : supersededBy message.headers with
    | none =>
      rw [readItem_plain hm hid hs]
      rfl
    | some supersedes =>
      rw [readItem_correction hm hid hs]
      unfold revisedRead
      split <;> rfl

/-- No id is read back with a line feed in it. -/
theorem answers_line {lines : List Text} {cap : Option Nat} {m : MimeMessage}
    (hl : ∀ line ∈ lines, lf ∉ line) (hread : readMessage P lines cap = .ok m)
    (hm : x.message = .ok (m.read held)) {pid : String}
    (h : (candidateOf M J d receivedAt x).1.record.replyTo = some pid) : '\n' ∉ pid.toList := by
  intro hpid
  cases hc : (Email.readItem M J d x).content with
  | error reason =>
    rw [candidateOf_error hc] at h
    cases h
  | ok message =>
    rw [candidateOf_ok hc, recordOf, readItem_headers hm] at h
    have hmem := mem_of_mem_idsIn (List.mem_of_head? h) hpid
    rw [Email.headerRaw] at hmem
    cases hf : (m.read held).headers.find? (·.name = "in-reply-to") with
    | none =>
      rw [hf] at hmem
      cases hmem
    | some header =>
      rw [hf] at hmem
      obtain ⟨entry, hentry, rfl⟩ := List.mem_map.1 (List.mem_of_find?_eq_some hf)
      rw [readMessage_headers hread] at hentry
      exact raw_feed hl entry hentry (lf_mem_of_text hmem)

/-- What the agent mails reads back as what it said, exactly where the id it answers is on one
line, its own id is one, its account is read as a declared address, and its subject is plain. -/
theorem reply_reads_back (hP : P.Standard) (hM : M.lower "agent" = "agent")
    (ht : Captured M J target) (hp : OneLine part) (held : MimeAttachment → Attachment)
    (cap : Nat) (d : Disk) (receivedAt : String) (x : Item) :
    ∃ mime, buildMessage (part.input M.account target) = .ok mime ∧
      ((∃ m, readMessage P (fetchMessage mime) (some cap) = .ok m ∧
          ReadsBack M J held d receivedAt x target part m) ↔
        '\n' ∉ target.platformMessageId.toList ∧
          idsIn ("<" ++ sentId M.account part ++ ">") ≠ [] ∧ Recognised M ∧
          Plain (ofString part.subject)) := by
  by_cases hpid : '\n' ∈ target.platformMessageId.toList
  · refine ⟨_, buildMessage_ok rfl (by decide), iff_of_false ?_ fun h => h.1 hpid⟩
    rintro ⟨m, hm, h⟩
    exact answers_line (fetched_plain _) hm rfl h.answers hpid
  · obtain ⟨mime, hmime, hread⟩ := read_part hP ht hp hpid cap
    refine ⟨mime, hmime, ?_⟩
    rw [hread]
    constructor
    · rintro ⟨m, hm, h⟩
      obtain rfl := Except.ok.inj hm
      exact ⟨hpid, (part_reads_back hP hM ht).1 h⟩
    · rintro ⟨-, h⟩
      exact ⟨_, rfl, (part_reads_back hP hM ht).2 h⟩

/-! ## A run -/

/-- A platform that knows UTF-8, and the case of ASCII. -/
def asciiPlatform : Platform where
  toLowerCase t := t.map lowerUnit
  textDecoder label :=
    if label = ofString "utf-8" then some fun bytes => ofChars (withoutMark (Utf8.decode bytes))
    else none

theorem withoutMark_length (cs : List Char) :
    (ofChars (withoutMark cs)).length ≤ (ofChars cs).length := by
  cases cs with
  | nil => exact Nat.le_refl _
  | cons c cs =>
    rw [withoutMark]
    split
    · rw [ofChars_cons, List.length_append]
      omega
    · exact Nat.le_refl _

theorem asciiPlatform_standard : asciiPlatform.Standard where
  ascii _ _ := rfl
  utf8 := by
    rw [asciiPlatform]
    simp only [if_true]
  short label decode h bytes := by
    obtain ⟨-, hd⟩ := Option.ite_none_right_eq_some.1 h
    rw [← Option.some.inj hd]
    exact (withoutMark_length _).trans (decodeFrom_units bytes none)

def mail : Mail := { agent := "a", account := "a@b.c" }

/-- A question came in. -/
def question : Item where
  position := "1"
  message := .ok { headers := [⟨"message-id", "<q@x.y>", "<q@x.y>"⟩, ⟨"from", "p@x.y", "p@x.y"⟩] }

def questionRecord : MessageRecord := (candidateOf mail plainJs {} "0" question).1.record

theorem question_captured : Captured mail plainJs questionRecord :=
  ⟨⟨{}, "0", question, rfl⟩, by decide +kernel⟩

def answer (subject : String) : Part where
  requestId := "r"
  index := 0
  random := "00"
  recipients := ["p@x.y"]
  date := "Thu, 01 Jan 1970 00:00:00 +0000"
  subject
  body := "Yes."

theorem answer_oneLine (subject : String) : OneLine (answer subject) :=
  ⟨show '\n' ∉ "r".toList by decide, show '\n' ∉ "00".toList by decide,
    show ∀ address ∈ ["p@x.y"], '\n' ∉ address.toList by decide,
    show '\n' ∉ "Thu, 01 Jan 1970 00:00:00 +0000".toList by decide⟩

def filed (a : MimeAttachment) : Attachment where
  file := ""
  mime := text a.mime
  bytes := a.bytes.length
  sha256 := ""

/-- A subject that says what it is goes out and comes back. -/
theorem encoded_reads_back : ∃ mime, buildMessage ((answer "Zürich").input "a@b.c" questionRecord) =
    .ok mime ∧ ∃ m, readMessage asciiPlatform (fetchMessage mime) (some 9) = .ok m ∧
      ReadsBack mail plainJs filed {} "1" question questionRecord (answer "Zürich") m := by
  obtain ⟨mime, hmime, hiff⟩ := reply_reads_back asciiPlatform_standard (M := mail)
    (by decide +kernel) question_captured (answer_oneLine "Zürich") filed 9 {} "1" question
  have hplain : Plain (ofString (answer "Zürich").subject) := .inl (by decide +kernel)
  exact ⟨mime, hmime, hiff.2 ⟨by decide +kernel, by decide +kernel,
    show _ ∈ _ by decide +kernel, hplain⟩⟩

/-- A subject that looks encoded comes back decoded. -/
theorem subject_decoded : Captured mail plainJs questionRecord ∧ OneLine (answer "=?utf-8?Q?a?=") ∧
    ∃ mime m, buildMessage ((answer "=?utf-8?Q?a?=").input "a@b.c" questionRecord) = .ok mime ∧
      readMessage asciiPlatform (fetchMessage mime) (some 9) = .ok m ∧
      Mime.header m.headers "subject" = some (ofString "a") ∧
      ¬ ReadsBack mail plainJs filed {} "1" question questionRecord (answer "=?utf-8?Q?a?=") m := by
  obtain ⟨mime, hmime, hread⟩ := read_part asciiPlatform_standard question_captured
    (answer_oneLine "=?utf-8?Q?a?=") (by decide +kernel) 9
  have hsubject : Mime.header (builtMessage asciiPlatform mail questionRecord
      (answer "=?utf-8?Q?a?=")).headers "subject" = some (ofString "a") := by decide +kernel
  refine ⟨question_captured, answer_oneLine _, mime, _, hmime, hread, hsubject, fun h => ?_⟩
  have := h.subject
  rw [hsubject] at this
  exact absurd this (by decide +kernel)

end CarbonRuntime.Bugs.DecodedSubject
