import CarbonRuntime.Adapters.Email.Mime
import CarbonRuntime.Runtime.Process

/-!
# A numeric entity that is no code point

`readItem` says of itself that it never throws (adapters/email/index.ts:329-330): what cannot be read
comes back as parked. It parks what leaves the reader as `MimeUnreadable` and lets everything else
through. `stripHtml` makes a code point of every numeric entity (mime.ts:238), and
`String.fromCodePoint` raises a `RangeError` above U+10FFFF; so one HTML mail with `&#1114112;`
leaves `listPending` with that error, on every poll.

**Results.** `read_total_iff`: of all the conversions this is the only one that throws. A mail is
read or parked exactly where a part of it cannot be read, or it has a text part, or no HTML part, or
the first HTML part, without its tags, has no entity with a number above the last code point.
`read_throws`: the mail above.
-/

open CarbonRuntime.Core CarbonRuntime.Stream Utf16

namespace CarbonRuntime.Bugs.OverlargeEntity

open Adapters.Email Mime

/-- The name of a numeric entity that is no code point. -/
def TooLarge (name : Text) : Prop :=
  ∃ digits, name = chr '#' :: digits ∧ digits ≠ [] ∧ (∀ u ∈ digits, isDigit u = true) ∧
    maxPoint < number digits

/-- Somewhere in the text stands such an entity. -/
def Overlarge (t : Text) : Prop :=
  ∃ before name behind, t = before ++ chr '&' :: (name ++ chr ';' :: behind) ∧ TooLarge name

/-- No entity that is read is too large, where the body is read off HTML. -/
def Convertible (P : Platform) (cap : Nat) (lines : List Text) : Prop :=
  ∀ collected, walk P cap maxDepth lines {} = .ok collected → collected.text = [] →
    ∀ html ∈ collected.html.head?, ¬ Overlarge (untagged html)

/-! ## Names -/

variable {t name rest before behind : Text} {u : UInt16}

/-- What an entity's name is made of. -/
def Name (name : Text) : Prop := ∀ u ∈ name, u = chr '#' ∨ isAlphanumeric u = true

theorem Name.ne (h : Name name) : chr ';' ∉ name ∧ chr '&' ∉ name := by
  constructor
  · intro hm
    rcases h _ hm with h | h
    · revert h; decide
    · revert h; decide
  · intro hm
    rcases h _ hm with h | h
    · revert h; decide
    · revert h; decide

theorem digit_alphanumeric (h : isDigit u = true) : isAlphanumeric u = true := by
  simp [isAlphanumeric, h]

theorem TooLarge.isName (h : TooLarge name) : Name name := by
  obtain ⟨digits, rfl, -, hd, -⟩ := h
  intro u hu
  rcases List.mem_cons.1 hu with rfl | hu
  · exact .inl rfl
  · exact .inr (digit_alphanumeric (hd u hu))

theorem entityName_some (h : entityName t = some name) :
    Name name ∧ ∃ rest, t = chr '&' :: (name ++ chr ';' :: rest) := by
  cases t with
  | nil => cases h
  | cons u t =>
    obtain ⟨⟨rfl, -, hsemi⟩, hname⟩ := Option.ite_none_right_eq_some.1 h
    obtain rfl := Option.some.inj hname
    generalize hhash : (if t.head? = some (chr '#') then [chr '#'] else []) = hash at hsemi ⊢
    have hmem : ∀ v ∈ hash, v = chr '#' := by
      rw [← hhash]
      split <;> simp
    have ht : t = hash ++ t.drop hash.length := by
      rw [← hhash]
      split
      · rename_i h
        obtain ⟨t, rfl⟩ := List.head?_eq_some_iff.1 h
        rfl
      · rfl
    obtain ⟨rest, hrest⟩ : ∃ rest, (t.drop hash.length).dropWhile isAlphanumeric =
        chr ';' :: rest := by
      cases hd : (t.drop hash.length).dropWhile isAlphanumeric with
      | nil => simp [hd] at hsemi
      | cons v rest =>
        rw [hd] at hsemi
        exact ⟨rest, by rw [Option.some.inj hsemi]⟩
    constructor
    · intro v hv
      rcases List.mem_append.1 hv with hv | hv
      · exact .inl (hmem v hv)
      · exact .inr (List.mem_takeWhile_imp hv)
    · refine ⟨rest, congrArg (chr '&' :: ·) ?_⟩
      rw [← hrest, List.append_assoc, List.takeWhile_append_dropWhile]
      exact ht

/-- A name that is too large is met wherever it stands behind `&`. -/
theorem entityName_tooLarge (h : TooLarge name) (rest : Text) :
    entityName (chr '&' :: (name ++ chr ';' :: rest)) = some name := by
  obtain ⟨digits, rfl, hne, hd, -⟩ := h
  have halnum : ∀ u ∈ digits, isAlphanumeric u = true := fun u hu => digit_alphanumeric (hd u hu)
  have hsemi : ¬ isAlphanumeric (chr ';') = true := by decide
  have htake : (digits ++ chr ';' :: rest).takeWhile isAlphanumeric = digits := by
    rw [List.takeWhile_append_of_pos halnum, List.takeWhile_cons_of_neg hsemi, List.append_nil]
  have hdrop : (digits ++ chr ';' :: rest).dropWhile isAlphanumeric = chr ';' :: rest := by
    rw [List.dropWhile_append_of_pos halnum, List.dropWhile_cons_of_neg hsemi]
  simp only [entityName, List.cons_append, List.head?_cons, if_true, List.length_singleton,
    List.drop_succ_cons, List.drop_zero, htake, hdrop]
  simp [hne]

/-! ## Reading entities -/

theorem lowerUnit_digit (h : isDigit (lowerUnit u) = true) : lowerUnit u = u := by
  unfold lowerUnit at h ⊢
  split
  · rename_i hl
    rw [if_pos hl] at h
    simp only [isDigit, Bool.and_eq_true, decide_eq_true_eq, UInt16.le_iff_toNat_le,
      UInt16.toNat_add] at h hl
    simp only [UInt16.reduceToNat] at h hl
    omega
  · rfl

theorem lowerUnit_of_digit (h : isDigit u = true) : lowerUnit u = u := by
  unfold lowerUnit
  split
  · rename_i hl
    simp only [isDigit, Bool.and_eq_true, decide_eq_true_eq, UInt16.le_iff_toNat_le,
      UInt16.reduceToNat] at h hl
    omega
  · rfl

theorem lowerUnit_hash (h : lowerUnit u = chr '#') : u = chr '#' := by
  unfold lowerUnit at h
  split at h
  · rename_i hl
    have hn := congrArg UInt16.toNat h
    have hhash : (chr '#').toNat = 35 := rfl
    simp only [UInt16.le_iff_toNat_le, UInt16.toNat_add, UInt16.reduceToNat] at hl hn
    omega
  · exact h

/-- A name is too large where it is read as digits of such a number. -/
theorem tooLarge_iff : TooLarge name ↔
    ∃ digits, numeric (name.map lowerUnit) = some digits ∧ maxPoint < number digits := by
  constructor
  · rintro ⟨digits, rfl, hne, hd, hmax⟩
    have hsame : digits.map lowerUnit = digits :=
      (List.map_congr_left fun u hu => lowerUnit_of_digit (hd u hu)).trans (List.map_id digits)
    refine ⟨digits, ?_, hmax⟩
    rw [List.map_cons, hsame]
    exact if_pos ⟨rfl, hne, List.all_eq_true.2 hd⟩
  · rintro ⟨digits, hnum, hmax⟩
    cases name with
    | nil => cases hnum
    | cons u name =>
      obtain ⟨⟨hu, hne, hd⟩, hdigits⟩ := Option.ite_none_right_eq_some.1 hnum
      obtain rfl := Option.some.inj hdigits
      have hall := List.all_eq_true.1 hd
      have hsame : name.map lowerUnit = name :=
        (List.map_congr_left fun v hv =>
          lowerUnit_digit (hall _ (List.mem_map_of_mem hv))).trans (List.map_id name)
      rw [hsame] at hne hall hmax
      exact ⟨name, by rw [lowerUnit_hash hu], hne, hall, hmax⟩

theorem fromCodePoint_error {n : Nat} {e : Thrown} :
    fromCodePoint n = .error e ↔ e = .rangeError ∧ maxPoint < n := by
  unfold fromCodePoint
  split
  · rename_i h
    simp [h, eq_comm]
  · rename_i h
    split <;> simp [h]

/-- An entity that is read raises for its number and for nothing else. -/
theorem entityText_error {e : Thrown} :
    entityText name = .error e ↔ e = .rangeError ∧ TooLarge name := by
  have hsmall : ∀ entity ∈ entities, ∀ digits ∈ numeric entity.1, number digits ≤ maxPoint := by
    decide
  rw [tooLarge_iff]
  unfold entityText
  dsimp only
  cases hf : entities.find? fun entity => entity.1 = name.map lowerUnit with
  | some entity =>
    have hkey : entity.1 = name.map lowerUnit := by simpa using List.find?_some hf
    refine ⟨fun h => (nomatch h), fun ⟨_, digits, hnum, hmax⟩ => ?_⟩
    have := hsmall entity (List.mem_of_find?_eq_some hf) digits (hkey ▸ hnum)
    omega
  | none =>
    cases hnum : numeric (name.map lowerUnit) with
    | none => simp
    | some digits => simp [fromCodePoint_error]

/-! ## Texts -/

theorem overlarge_nil : ¬ Overlarge [] := by
  rintro ⟨before, name, behind, h, -⟩
  cases before <;> cases h

/-- In front of an entity, or of a unit that begins none, nothing is hidden. -/
theorem overlarge_cons (h : ∀ name rest, u :: t = chr '&' :: (name ++ chr ';' :: rest) →
    ¬ TooLarge name) : Overlarge (u :: t) ↔ Overlarge t := by
  constructor
  · rintro ⟨before, name, behind, ht, hl⟩
    cases before with
    | nil => exact absurd hl (h name behind ht)
    | cons v before => exact ⟨before, name, behind, (List.cons.inj ht).2, hl⟩
  · rintro ⟨before, name, behind, rfl, hl⟩
    exact ⟨u :: before, name, behind, rfl, hl⟩

/-- Two texts up to their first `;`. -/
theorem upTo_inj {a b c d : Text} (ha : chr ';' ∉ a) (hb : chr ';' ∉ b)
    (h : a ++ chr ';' :: c = b ++ chr ';' :: d) : a = b := by
  have htake : ∀ {a c : Text}, chr ';' ∉ a → (a ++ chr ';' :: c).takeWhile (· ≠ chr ';') = a := by
    intro a c ha
    rw [List.takeWhile_append_of_pos, List.takeWhile_cons_of_neg (by simp), List.append_nil]
    intro u hu
    simp only [ne_eq, decide_not, Bool.not_eq_true', decide_eq_false_iff_not]
    exact fun he => ha (he ▸ hu)
  rw [← htake ha, h, htake hb]

/-- What stands in front of a later `&` has the whole entity in it. -/
theorem behind_entity {rest' : Text} (hn : Name name)
    (h : name ++ chr ';' :: rest = before ++ chr '&' :: rest') :
    ∃ middle, before = name ++ chr ';' :: middle := by
  induction name generalizing before with
  | nil =>
    cases before with
    | nil => exact absurd (List.cons.inj h).1 (by decide)
    | cons v before => exact ⟨before, by rw [← (List.cons.inj h).1]; rfl⟩
  | cons u name ih =>
    cases before with
    | nil => exact absurd (by rw [(List.cons.inj h).1]; simp) hn.ne.2
    | cons v before =>
      obtain ⟨rfl, htail⟩ := List.cons.inj h
      obtain ⟨middle, rfl⟩ := ih (fun w hw => hn w (List.mem_cons_of_mem _ hw)) htail
      exact ⟨middle, rfl⟩

/-- An entity is the one that stands there, or stands behind it. -/
theorem overlarge_entity (hn : Name name) :
    Overlarge (chr '&' :: (name ++ chr ';' :: rest)) ↔ TooLarge name ∨ Overlarge rest := by
  constructor
  · rintro ⟨before, name', behind, ht, hl⟩
    cases before with
    | nil =>
      have hsplit := (List.cons.inj ht).2
      rw [upTo_inj hn.ne.1 hl.isName.ne.1 hsplit]
      exact .inl hl
    | cons v before =>
      obtain ⟨middle, rfl⟩ := behind_entity hn (List.cons.inj ht).2
      have hrest : name ++ chr ';' :: rest =
          (name ++ chr ';' :: middle) ++ chr '&' :: (name' ++ chr ';' :: behind) := (List.cons.inj ht).2
      rw [List.append_assoc, List.append_cancel_left_eq, List.cons_append] at hrest
      exact .inr ⟨middle, name', behind, (List.cons.inj hrest).2, hl⟩
  · rintro (hl | ⟨before, name', behind, rfl, hl⟩)
    · exact ⟨[], name, rest, rfl, hl⟩
    · exact ⟨chr '&' :: (name ++ chr ';' :: before), name', behind, by simp, hl⟩

theorem entitiesFrom_error (t : Text) : ∀ skip e,
    entitiesFrom skip t = .error e ↔ e = .rangeError ∧ Overlarge (t.drop skip) := by
  induction t with
  | nil =>
    intro skip e
    have hnil : entitiesFrom skip [] = .ok [] := by cases skip <;> rfl
    rw [hnil, List.drop_nil]
    simp [overlarge_nil]
  | cons u t ih =>
    rintro (_ | skip) e
    · rw [entitiesFrom, List.drop_zero]
      cases hname : entityName (u :: t) with
      | none =>
        have hcons : Overlarge (u :: t) ↔ Overlarge t := overlarge_cons fun name rest ht hl => by
          rw [ht, entityName_tooLarge hl] at hname
          cases hname
        rw [hcons]
        have := ih 0 e
        rw [List.drop_zero] at this
        rw [← this]
        cases entitiesFrom 0 t with
        | error e' => simp [bind, Except.bind]
        | ok text => simp [bind, Except.bind, pure, Except.pure]
      | some name =>
        obtain ⟨hn, rest, ht⟩ := entityName_some hname
        obtain ⟨rfl, rfl⟩ := List.cons.inj ht
        have hdrop : (name ++ chr ';' :: rest).drop (name.length + 1) = rest := by
          rw [List.drop_append, List.drop_of_length_le (Nat.le_succ _)]
          simp
        have := ih (name.length + 1) e
        rw [hdrop] at this
        rw [overlarge_entity hn]
        have htext := @entityText_error name e
        cases het : entityText name with
        | error e' =>
          rw [het] at htext
          have hl := (entityText_error.1 het).2
          simp [bind, Except.bind, het, htext, hl]
        | ok text =>
          have hl : ¬ TooLarge name := fun hl => by
            rw [entityText_error.2 ⟨rfl, hl⟩] at het
            cases het
          rw [or_iff_right hl, ← this]
          cases hr : entitiesFrom (name.length + 1) (name ++ chr ';' :: rest) with
          | error e' => simp [bind, Except.bind, het, hr]
          | ok text' => simp [bind, Except.bind, pure, Except.pure, het, hr]
    · rw [entitiesFrom, List.drop_succ_cons]
      exact ih skip e

theorem stripHtml_error {html : Text} {e : Thrown} :
    stripHtml html = .error e ↔ e = .rangeError ∧ Overlarge (untagged html) := by
  have := entitiesFrom_error (untagged html) 0 e
  rw [List.drop_zero] at this
  rw [← this, stripHtml]
  cases entitiesFrom 0 (untagged html) with
  | error e' => simp [bind, Except.bind]
  | ok text => simp [bind, Except.bind, pure, Except.pure]

/-! ## Mails -/

variable {P : Platform} {cap : Nat} {e : Thrown}

theorem decodeBody_error {bodyLines : List Text} {encoding : Option Text}
    (h : decodeBody P bodyLines encoding name = .error e) : ∃ reason, e = .unreadable reason := by
  unfold decodeBody at h
  dsimp only at h
  split at h
  · cases h
    exact ⟨_, rfl⟩
  · split at h
    · cases h
    · split at h <;> cases h

theorem collect_error {headers : List EmailHeader} {contentType : ParsedParameters}
    {bodyLines : List Text} {collected : CollectedParts}
    (h : collect P cap headers contentType bodyLines collected = .error e) :
    ∃ reason, e = .unreadable reason := by
  unfold collect at h
  dsimp only at h
  split at h
  · cases hb : decodeBody P bodyLines (headerRaw headers "content-transfer-encoding")
      (((parseParameters P ((headerRaw headers "content-disposition").getD [])).param
        "filename" |>.or (contentType.param "name")).getD contentType.value) with
    | error e' =>
      rw [hb] at h
      cases h
      exact decodeBody_error hb
    | ok bytes =>
      rw [hb] at h
      cases h
  · cases hb : decodeBody P bodyLines (headerRaw headers "content-transfer-encoding")
      contentType.value with
    | error e' =>
      rw [hb] at h
      cases h
      exact decodeBody_error hb
    | ok bytes =>
      rw [hb] at h
      simp only [bind, Except.bind] at h
      split at h <;> cases h

theorem foldlM_error {walkPart : CollectedParts → List Text → Except Thrown CollectedParts}
    (hw : ∀ part collected e, walkPart collected part = .error e → ∃ reason, e = .unreadable reason)
    (parts : List (List Text)) : ∀ collected, parts.foldlM walkPart collected = .error e →
      ∃ reason, e = .unreadable reason := by
  induction parts with
  | nil =>
    intro collected h
    cases h
  | cons part parts ih =>
    intro collected h
    rw [List.foldlM_cons] at h
    cases hp : walkPart collected part with
    | error e' =>
      rw [hp] at h
      cases h
      exact hw _ _ _ hp
    | ok next =>
      rw [hp] at h
      exact ih next h

/-- Whatever goes wrong while the parts are walked is said to be unreadable. -/
theorem walk_error (levels : Nat) : ∀ lines collected e,
    walk P cap levels lines collected = .error e → ∃ reason, e = .unreadable reason := by
  induction levels with
  | zero =>
    intro lines collected e h
    cases h
    exact ⟨_, rfl⟩
  | succ levels ih =>
    intro lines collected e h
    rw [walk] at h
    dsimp only at h
    split at h
    · split at h
      · cases h
        exact ⟨_, rfl⟩
      · exact foldlM_error (fun part collected e => ih part collected e) _ _ h
    · exact collect_error h

theorem bodyRead_error {collected : CollectedParts} : bodyRead collected = .error e ↔
    e = .rangeError ∧ collected.text = [] ∧
      ∃ html ∈ collected.html.head?, Overlarge (untagged html) := by
  unfold bodyRead
  cases ht : collected.text with
  | cons text texts => simp
  | nil =>
    cases hh : collected.html with
    | nil => simp
    | cons html htmls =>
      simp only [List.head?_cons, Option.mem_def, Option.some.injEq, exists_eq_left', true_and]
      rw [← stripHtml_error]
      cases stripHtml html with
      | error e' => simp [bind, Except.bind]
      | ok text => simp [bind, Except.bind, pure, Except.pure]

/-- The reader raises what it does not call unreadable where a number is no code point. -/
theorem readMessage_range {lines : List Text} :
    readMessage P lines (some cap) = .error .rangeError ↔ ¬ Convertible P cap lines := by
  unfold readMessage Convertible
  dsimp only
  cases hw : walk P cap maxDepth lines {} with
  | error e =>
    obtain ⟨reason, rfl⟩ := walk_error _ _ _ _ hw
    simp [bind, Except.bind]
  | ok collected =>
    have hbody := @bodyRead_error .rangeError collected
    cases hb : bodyRead collected with
    | error e =>
      obtain ⟨rfl, htext, html, hhtml, hl⟩ := bodyRead_error.1 hb
      refine iff_of_true ?_ fun h => h collected rfl htext html hhtml hl
      simp [bind, Except.bind, hb]
    | ok body =>
      rw [hb] at hbody
      refine iff_of_false (by simp [bind, Except.bind, hb, pure, Except.pure]) fun h => ?_
      refine h fun collected' hc htext html hhtml hl => ?_
      obtain rfl := Except.ok.inj hc
      exact nomatch hbody.2 ⟨rfl, htext, html, hhtml, hl⟩

variable {held : MimeAttachment → Attachment} {M : Mail} {J : Js} {d : Disk} {x : Item}

/-- For every list of lines, cap and item: the reader returns a message or says that it is
unreadable, and the item is read or parked, exactly where no entity is too large. -/
theorem read_total_iff (lines : List Text) (cap : Option Nat) :
    ((∀ e, readMessage P lines cap = .error e → ∃ reason, e = .unreadable reason) ∧
      ∃ read, Mime.readItem P held M J d x lines cap = .ok read) ↔
    ∀ max ∈ cap, Convertible P max lines := by
  cases cap with
  | none =>
    refine iff_of_true ⟨fun e he => ?_, ?_⟩ fun max hmax => (nomatch hmax)
    · cases he
      exact ⟨_, rfl⟩
    · exact ⟨_, rfl⟩
  | some cap =>
    simp only [Option.mem_def, Option.some.injEq, forall_eq']
    unfold Mime.readItem
    cases hr : readMessage P lines (some cap) with
    | ok message =>
      refine iff_of_true ⟨fun e he => (nomatch he), _, rfl⟩ ?_
      by_contra hc
      rw [readMessage_range.2 hc] at hr
      cases hr
    | error e =>
      cases e with
      | unreadable reason =>
        refine iff_of_true ⟨fun e he => ⟨reason, (Except.error.inj he).symm⟩, _, rfl⟩ ?_
        by_contra hc
        rw [readMessage_range.2 hc] at hr
        cases hr
      | rangeError =>
        refine iff_of_false (fun h => ?_) (readMessage_range.1 hr)
        obtain ⟨reason, he⟩ := h.1 _ rfl
        cases he

/-! ## A mail of one entity -/

/-- A platform that knows UTF-8. -/
def plain : Platform where
  toLowerCase t := t.map lowerUnit
  textDecoder label :=
    if label = ofString "utf-8" then some fun bytes => ofChars (Utf8.decode bytes) else none

/-- The number is one above the last code point. -/
def newsletter : List Text :=
  ["Message-ID: <n@example.test>", "Content-Type: text/html", "", "<p>&#1114112;</p>"].map ofString

theorem read_throws : ¬ ∀ (P : Platform) (held : MimeAttachment → Attachment) (M : Mail) (J : Js)
    (d : Disk) (x : Item) (lines : List Text) (cap : Option Nat),
    (∀ e, readMessage P lines cap = .error e → ∃ reason, e = .unreadable reason) ∧
      ∃ read, Mime.readItem P held M J d x lines cap = .ok read := by
  intro h
  have hr : readMessage plain newsletter (some 0) = .error .rangeError := by decide +kernel
  obtain ⟨reason, he⟩ := (h plain (fun a => ⟨"", text a.mime, 0, "", false, none, none⟩)
    { agent := "", account := "" } plainJs {} { position := "", message := .error "" } newsletter
    (some 0)).1 _ hr
  cases he

end CarbonRuntime.Bugs.OverlargeEntity
