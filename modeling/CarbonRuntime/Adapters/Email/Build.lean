import CarbonRuntime.Adapters.Email.Adapter
import CarbonRuntime.Adapters.Email.Mime
import Mathlib.Data.List.Infix

/-!
# What the agent mails (adapters/email/index.ts)

`send` builds a reply from the message it answers: its References are the root of the conversation
and the message itself, its Subject an encoded word where it is not printable ASCII, its body UTF-8
in base64, and it is stamped with its origin. The lines come back as the transport fetches them
(adapters/email/curl.ts).

**Results.** `readItem_ids`: what is read is filed under ids that can stand between brackets, and
`idsIn_angled` reads them there. `fetched_join`: lines come back as they were joined, where none has a
line feed in it. `decodeWords_encoded`: what is encoded is decoded. `readMessage_built`: a message
that is built reads back, each header under its name and its body but for white space around it.
-/

open CarbonRuntime.Core CarbonRuntime.Stream Utf16 Rewrite

namespace CarbonRuntime.Adapters.Email

open Store Teachings

variable {c : Char} {cs : List Char} {s value : String}

/-! ## Identifiers -/

theorem trim_eq (s : String) : trim s = String.ofList (Cutting.trim isSpace s.toList) := rfl

/-- A text as it stands between brackets: something, with no bracket in it and no white space
around it. -/
structure IdText (s : String) : Prop where
  ne : s ≠ ""
  plain : '<' ∉ s.toList ∧ '>' ∉ s.toList
  trimmed : trim s = s

theorem bracketed_plain (cur : Option (List Char)) (h : ∀ acc ∈ cur, '<' ∉ acc ∧ '>' ∉ acc) :
    ∀ id ∈ bracketed cur cs, '<' ∉ id.toList ∧ '>' ∉ id.toList := by
  induction cs generalizing cur with
  | nil => exact fun _ hm => nomatch hm
  | cons c cs ih =>
    rw [bracketed.eq_def]
    dsimp only
    split_ifs with h1 h2
    · exact ih _ fun acc hacc => by
        obtain rfl := Option.mem_some.1 hacc
        simp
    · cases cur with
      | none => exact ih _ fun _ hm => nomatch hm
      | some acc =>
        intro id hid
        rcases List.mem_cons.1 hid with rfl | hid
        · simpa using h acc rfl
        · exact ih none (fun _ hm => nomatch hm) id hid
    · refine ih _ fun acc hacc => ?_
      obtain ⟨acc', hacc', rfl⟩ := Option.map_eq_some_iff.1 hacc
      have := h acc' hacc'
      simp only [List.mem_cons, not_or]
      exact ⟨⟨fun he => h1 he.symm, this.1⟩, fun he => h2 he.symm, this.2⟩

theorem bracketed_mem (cur : Option (List Char)) :
    ∀ id ∈ bracketed cur cs, ∀ c ∈ id.toList, c ∈ cs ∨ ∃ acc ∈ cur, c ∈ acc := by
  induction cs generalizing cur with
  | nil => exact fun _ hm => nomatch hm
  | cons a cs ih =>
    rw [bracketed.eq_def]
    dsimp only
    split_ifs with h1 h2
    · intro id hid c hc
      rcases ih _ id hid c hc with hc | ⟨acc, hacc, hc⟩
      · exact .inl (List.mem_cons_of_mem _ hc)
      · obtain rfl := Option.mem_some.1 hacc
        cases hc
    · cases cur with
      | none =>
        intro id hid c hc
        exact (ih _ id hid c hc).imp_left (List.mem_cons_of_mem _)
      | some acc =>
        intro id hid c hc
        rcases List.mem_cons.1 hid with rfl | hid
        · exact .inr ⟨acc, rfl, by simpa using hc⟩
        · rcases ih none id hid c hc with hc | ⟨_, hm, _⟩
          · exact .inl (List.mem_cons_of_mem _ hc)
          · cases hm
    · intro id hid c hc
      rcases ih _ id hid c hc with hc | ⟨acc, hacc, hc⟩
      · exact .inl (List.mem_cons_of_mem _ hc)
      · obtain ⟨acc', hacc', rfl⟩ := Option.map_eq_some_iff.1 hacc
        rcases List.mem_cons.1 hc with rfl | hc
        · exact .inl List.mem_cons_self
        · exact .inr ⟨acc', hacc', hc⟩

theorem idText_of_mem {id : String} (h : id ∈ idsIn value) : IdText id := by
  obtain ⟨hm, hne⟩ := List.mem_filter.1 h
  obtain ⟨raw, hraw, rfl⟩ := List.mem_map.1 hm
  have hplain := bracketed_plain none (fun _ hm => nomatch hm) raw hraw
  refine ⟨by simpa using hne, ?_, ?_⟩
  · rw [trim_eq, String.toList_ofList]
    exact ⟨fun hc => hplain.1 (Cutting.mem_of_mem_trim hc),
      fun hc => hplain.2 (Cutting.mem_of_mem_trim hc)⟩
  · rw [trim_eq, trim_eq, String.toList_ofList, Cutting.trim_trim]

theorem mem_of_mem_idsIn {id : String} (h : id ∈ idsIn value) (hc : c ∈ id.toList) :
    c ∈ value.toList := by
  obtain ⟨hm, -⟩ := List.mem_filter.1 h
  obtain ⟨raw, hraw, rfl⟩ := List.mem_map.1 hm
  rw [trim_eq, String.toList_ofList] at hc
  rcases bracketed_mem none raw hraw c (Cutting.mem_of_mem_trim hc) with hc | ⟨_, hm, _⟩
  · exact hc
  · cases hm

theorem bracketed_angled (h : '<' ∉ cs ∧ '>' ∉ cs) (acc rest : List Char) :
    bracketed (some acc) (cs ++ '>' :: rest) =
      String.ofList (acc.reverse ++ cs) :: bracketed none rest := by
  induction cs generalizing acc with
  | nil => simp [bracketed]
  | cons c cs ih =>
    simp only [List.mem_cons, not_or] at h
    rw [List.cons_append, bracketed, if_neg fun he => h.1.1 he.symm, if_neg fun he => h.2.1 he.symm,
      Option.map_some, ih ⟨h.1.2, h.2.2⟩]
    simp

/-- An id in brackets is read, and what follows it. -/
theorem idsIn_angled (h : IdText s) (rest : String) :
    idsIn ("<" ++ s ++ ">" ++ rest) = s :: idsIn rest := by
  have hlist : ("<" ++ s ++ ">" ++ rest).toList = '<' :: (s.toList ++ '>' :: rest.toList) := by
    simp
  rw [idsIn, hlist, bracketed, if_pos rfl, bracketed_angled h.plain]
  simp only [List.reverse_nil, List.nil_append, String.ofList_toList, List.map_cons, h.trimmed]
  rw [List.filter_cons_of_pos (by simpa using h.ne), idsIn]

theorem idText_of_chars (hne : s ≠ "")
    (h : ∀ c ∈ s.toList, isSpace c = false ∧ c ≠ '<' ∧ c ≠ '>') : IdText s := by
  refine ⟨hne, ⟨fun hm => (h _ hm).2.1 rfl, fun hm => (h _ hm).2.2 rfl⟩, ?_⟩
  have hdrop : ∀ l : List Char, (∀ c ∈ l, isSpace c = false) → l.dropWhile isSpace = l := by
    intro l hl
    cases l with
    | nil => rfl
    | cons c l => exact List.dropWhile_cons_of_neg (by simp [hl c (by simp)])
  have hs : ∀ c ∈ s.toList, isSpace c = false := fun c hc => (h c hc).1
  rw [trim, hdrop _ hs, hdrop _ fun c hc => hs c (List.mem_reverse.1 hc), List.reverse_reverse,
    String.ofList_toList]

variable {M : Mail} {J : Js} {d : Disk} {x : Item}

theorem idText_uid (x : Item) : IdText (uidText x) := by
  have hnumber : ∀ n : Option Nat, ∀ c ∈ (numberText n).toList,
      isSpace c = false ∧ c ≠ '<' ∧ c ≠ '>' := by
    intro n c hc
    cases n with
    | none => exact (List.forall_iff_forall_mem.1 (by decide) :
        ∀ c ∈ "undefined".toList, isSpace c = false ∧ c ≠ '<' ∧ c ≠ '>') c hc
    | some n =>
      have hdigit := Nat.isDigit_of_mem_toDigits (by decide) (by decide)
        (show c ∈ Nat.toDigits 10 n by simpa [numberText] using hc)
      obtain ⟨hl, hu⟩ : 48 ≤ c.toNat ∧ c.toNat ≤ 57 := by
        simpa [Char.isDigit, UInt32.le_iff_toNat_le] using hdigit
      have hne : ∀ e : Char, 57 < e.toNat → c ≠ e := fun e he h => by
        rw [h] at hu
        omega
      refine ⟨?_, hne '<' (by decide), hne '>' (by decide)⟩
      simp only [isSpace, Bool.or_eq_false_iff, Bool.and_eq_false_iff, decide_eq_false_iff_not,
        List.mem_cons, List.not_mem_nil, or_false]
      omega
  refine idText_of_chars (by simp [uidText]) fun c hc => ?_
  simp only [uidText, String.toList_append, List.mem_append] at hc
  rcases hc with ((hc | hc) | hc) | hc
  · exact (List.forall_iff_forall_mem.1 (by decide) :
      ∀ c ∈ "uid-".toList, isSpace c = false ∧ c ≠ '<' ∧ c ≠ '>') c hc
  · exact hnumber _ c hc
  · exact (List.forall_iff_forall_mem.1 (by decide) :
      ∀ c ∈ "-".toList, isSpace c = false ∧ c ≠ '<' ∧ c ≠ '>') c hc
  · exact hnumber _ c hc

theorem threadRoot_idText {headers : List Header} {own : String} (h : IdText own) :
    IdText (threadRoot headers own) := by
  unfold threadRoot
  split
  · rename_i root _ hids
    exact idText_of_mem (by rw [hids]; exact List.mem_cons_self)
  · split
    · rename_i parent _ hids
      exact idText_of_mem (by rw [hids]; exact List.mem_cons_self)
    · exact h

theorem ownIdOf_idText {headers : List Header} {own : String} (h : ownIdOf headers = some own) :
    IdText own := idText_of_mem (List.mem_of_head? h)

/-- Whatever is read is read in a conversation of the account, under an id that could stand in a
header. -/
theorem readItem_ids (M : Mail) (J : Js) (d : Disk) (x : Item) :
    ∃ root, (readItem M J d x).conversationId = M.account ++ ":" ++ root ∧ IdText root ∧
      IdText (readItem M J d x).platformMessageId := by
  have hunread : ∀ reason headers, ownIdOf headers = none →
      ∃ root, (unreadable M x reason headers).conversationId = M.account ++ ":" ++ root ∧
        IdText root ∧ IdText (unreadable M x reason headers).platformMessageId := by
    intro reason headers h
    unfold unreadable
    rw [h]
    have hroot : IdText "unreadable" := ⟨by decide, by decide, by decide⟩
    refine ⟨"unreadable", ?_, hroot, idText_uid x⟩
    rw [String.append_assoc]
    rfl
  cases hm : x.message with
  | error reason =>
    rw [readItem, hm]
    exact hunread reason [] rfl
  | ok message =>
    cases hid : ownIdOf message.headers with
    | none =>
      have hid' : ownIdOf (x.with_ message).headers = none := hid
      simp only [readItem, hm, hid']
      exact hunread _ _ hid
    | some own =>
      have hkey := readItem_key (M := M) (J := J) (d := d) (x := x)
        (k := (M.account ++ ":" ++ threadRoot message.headers own, own)) (by
          simp only [keyOf, hm, hid, Option.map_some])
      obtain ⟨hconv, hpid⟩ := Prod.mk.inj hkey
      have hown := ownIdOf_idText hid
      exact ⟨_, hconv, threadRoot_idText hown, hpid ▸ hown⟩

end CarbonRuntime.Adapters.Email

namespace CarbonRuntime.Adapters.Email.Mime

open Chunks (isSpace)

/-- `/^[\x20-\x7e]*$/` -/
def printable (t : Text) : Bool := t.all fun u => 0x20 ≤ u && u ≤ 0x7e

/-- mirrors index.ts:730-734 -/
def encodeHeaderWord (value : Text) : Text :=
  if printable value then value
  else ofString "=?utf-8?B?" ++ Base64.encode (utf8Bytes value) ++ ofString "?="

/-- `text.match(/.{1,76}/g)`, for at most so many rounds. -/
def wrapped : Nat → Text → List Text
  | 0, _ => []
  | rounds + 1, t => if t = [] then [] else t.take 76 :: wrapped rounds (t.drop 76)

/-- `lines.join('\r\n')` -/
def joinCrLf : List Text → Text
  | [] => []
  | [line] => line
  | line :: lines => line ++ cr :: lf :: joinCrLf lines

/-- A header line. -/
def field (name : String) (value : Text) : Text := ofString (name ++ ": ") ++ value

def angled (id : Text) : Text := chr '<' :: (id ++ [chr '>'])

/-- `texts.join(separator)` -/
def joinWith (separator : Text) : List Text → Text
  | [] => []
  | [t] => t
  | t :: ts => t ++ separator ++ joinWith separator ts

structure BuildMessageInput where
  from_ : Text
  recipients : List Text
  subject : Text
  messageId : Text
  inReplyTo : Option Text := none
  references : List Text := []
  /-- `date.toUTCString().replace('GMT', '+0000')` -/
  date : Text
  body : Option Text := none
  origin : Option Text := none

/-- The headers of a message, index.ts:747-761. -/
def headerFields (input : BuildMessageInput) (origin : Text) : List (String × Text) :=
  [("From", input.from_), ("To", joinWith (ofString ", ") input.recipients),
    ("Subject", encodeHeaderWord input.subject), ("Date", input.date),
    ("Message-ID", angled input.messageId), ("MIME-Version", ofString "1.0"),
    ("Content-Type", ofString "text/plain; charset=utf-8"),
    ("Content-Transfer-Encoding", ofString "base64"), ("X-Carbon-Origin", origin)] ++
  (input.inReplyTo.map fun id => ("In-Reply-To", angled id)).toList ++
  if input.references = [] then []
  else [("References", joinWith [chr ' '] (input.references.map angled))]

/-- The lines of the body, index.ts:762. -/
def bodyLines (body : Text) : List Text :=
  let encoded := Base64.encode (utf8Bytes body)
  if encoded = [] then [[]] else wrapped encoded.length encoded

/-- mirrors index.ts:740-764; without an origin it is refused -/
def buildMessage (input : BuildMessageInput) : Except String Text :=
  match input.origin with
  | none => .error "SEND_ORIGIN_MISSING"
  | some origin =>
    if origin = [] then .error "SEND_ORIGIN_MISSING"
    else
      let fields := (headerFields input origin).map fun f => field f.1 f.2
      .ok (joinCrLf (fields ++ [[]] ++ bodyLines (input.body.getD []) ++ [[]]))

/-- mirrors index.ts:691-696 -/
def referencesFor (account conversationId platformMessageId : String) : List String :=
  let root := text ((ofString conversationId).drop ((ofString account).length + 1))
  root :: if platformMessageId = root then [] else [platformMessageId]

/-- mirrors index.ts:676-680 -/
def replyRecipients (M : Mail) (target : MessageRecord) (headers : List Header) : List String :=
  match addressesIn M ((Email.headerRaw headers "reply-to").getD "") with
  | [] => if target.senderId = "unknown" then [] else [target.senderId]
  | addresses => addresses

/-- What `send` makes a part of a reply of: the request and the addresses it answers to, which part
it is, the moment and what it says. -/
structure Part where
  requestId : String
  index : Nat
  /-- `crypto.randomBytes(6).toString('hex')` -/
  random : String
  recipients : List String
  /-- `date.toUTCString().replace('GMT', '+0000')` -/
  date : String
  subject : String
  body : String

/-- mirrors index.ts:596, 602 -/
def sentId (account : String) (part : Part) : String :=
  let domain := ((splitOn '@' [] account.toList)[1]?).getD "localhost"
  "carbon." ++ part.requestId ++ "." ++ toString (part.index + 1) ++ "." ++ part.random ++ "@" ++
    domain

/-- What is built of it, index.ts:603-613. -/
def Part.input (account : String) (target : MessageRecord) (part : Part) : BuildMessageInput where
  from_ := ofString account
  recipients := part.recipients.map ofString
  subject := ofString part.subject
  messageId := ofString (sentId account part)
  inReplyTo := some (ofString target.platformMessageId)
  references := (referencesFor target.account target.conversationId target.platformMessageId).map
    ofString
  date := ofString part.date
  body := some (ofString part.body)
  origin := some (ofString "agent")

/-- `text.split('\n')` -/
def splitLines : Text → List Text
  | [] => [[]]
  | u :: t =>
    if u = lf then [] :: splitLines t
    else match splitLines t with
      | line :: lines => (u :: line) :: lines
      | [] => [[u]]

/-- mirrors curl.ts:202, of what the server sends -/
def fetchMessage (out : Text) : List Text := (splitLines out).map stripCr

/-! ## Lines -/

variable {line t rest : Text} {lines : List Text}

theorem splitLines_line (h : lf ∉ line) (rest : Text) :
    splitLines (line ++ lf :: rest) = line :: splitLines rest := by
  induction line with
  | nil => simp [splitLines]
  | cons u line ih =>
    have hu : u ≠ lf := fun he => h (by simp [he])
    rw [List.cons_append, splitLines, if_neg hu, ih fun hm => h (List.mem_cons_of_mem _ hm)]

theorem stripCr_cr (line : Text) : stripCr (line ++ [cr]) = line := by
  simp [stripCr]

/-- Lines come back as they were joined; the last one is empty. -/
theorem fetched_join (h : ∀ line ∈ lines, lf ∉ line) :
    fetchMessage (joinCrLf (lines ++ [[]])) = lines ++ [[]] := by
  induction lines with
  | nil => rfl
  | cons line lines ih =>
    have hjoin : joinCrLf (line :: lines ++ [[]]) =
        (line ++ [cr]) ++ lf :: joinCrLf (lines ++ [[]]) := by
      cases lines <;> simp [joinCrLf]
    have hline : lf ∉ line ++ [cr] := by
      rw [List.mem_append, not_or]
      exact ⟨h line (by simp), by decide⟩
    rw [hjoin, fetchMessage, splitLines_line hline, List.map_cons, stripCr_cr]
    exact congrArg (line :: ·) (ih fun l hl => h l (List.mem_cons_of_mem _ hl))

/-- No line that is fetched has a line feed in it. -/
theorem fetched_plain (out : Text) : ∀ line ∈ fetchMessage out, lf ∉ line := by
  have hsplit : ∀ line ∈ splitLines out, lf ∉ line := by
    induction out with
    | nil => simp [splitLines]
    | cons u t ih =>
      rw [splitLines]
      split
      · intro line hl
        rcases List.mem_cons.1 hl with rfl | hl
        · simp
        · exact ih line hl
      · rename_i hu
        cases hs : splitLines t with
        | nil =>
          intro line hl
          rw [List.mem_singleton.1 hl, List.mem_singleton]
          exact fun he => hu he.symm
        | cons first lines =>
          rw [hs] at ih
          intro line hl
          rcases List.mem_cons.1 hl with rfl | hl
          · rw [List.mem_cons, not_or]
            exact ⟨fun he => hu he.symm, ih first (by simp)⟩
          · exact ih line (List.mem_cons_of_mem _ hl)
  intro line hl
  obtain ⟨line, hm, rfl⟩ := List.mem_map.1 hl
  intro hlf
  refine hsplit line hm ?_
  unfold stripCr at hlf
  split at hlf
  · exact (List.dropLast_sublist line).mem hlf
  · exact hlf

theorem wrapped_flatten {rounds : Nat} (h : t.length ≤ rounds) : (wrapped rounds t).flatten = t := by
  induction rounds generalizing t with
  | zero =>
    rw [List.length_eq_zero_iff.1 (Nat.le_zero.1 h)]
    rfl
  | succ rounds ih =>
    rw [wrapped]
    split
    · rename_i ht
      rw [ht]
      rfl
    · rename_i ht
      have hpos := List.length_pos_iff.2 ht
      rw [List.flatten_cons, ih (by rw [List.length_drop]; omega), List.take_append_drop]

theorem bodyLines_flatten (body : Text) :
    (bodyLines body).flatten = Base64.encode (utf8Bytes body) := by
  unfold bodyLines
  dsimp only
  split
  · rename_i h
    rw [h]
    rfl
  · exact wrapped_flatten (Nat.le_refl _)

/-! ## Headers -/

variable {P : Platform} {name : String} {value : Text}

/-- A header's name as it is built: with no colon in it and no white space around it. -/
def Named (name : String) : Prop :=
  ofString name ≠ [] ∧ chr ':' ∉ ofString name ∧ trim (ofString name) = ofString name

instance : Decidable (Named name) := inferInstanceAs (Decidable (_ ∧ _ ∧ _))

theorem field_eq (name : String) (value : Text) :
    field name value = ofString name ++ chr ':' :: chr ' ' :: value := by
  rw [field, ofString, String.toList_append, ofChars_append, List.append_assoc]
  rfl

theorem trim_stripCr (t : Text) : trim (stripCr t) = trim t := by
  unfold stripCr
  split
  · rename_i h
    obtain ⟨line, rfl⟩ := List.getLast?_eq_some_iff.1 h
    rw [List.dropLast_concat]
    exact (Cutting.trim_append_blank (by decide) line).symm
  · rfl

theorem stripCr_append {a b : Text} (hb : b ≠ []) : stripCr (a ++ b) = a ++ stripCr b := by
  unfold stripCr
  rw [List.getLast?_append_of_ne_nil _ hb]
  split
  · exact List.dropLast_append_of_ne_nil hb
  · rfl

/-- The value of a built line, whatever of its end is taken for the end of the line. -/
theorem stripCr_field (name : String) (value : Text) : ∃ value', stripCr (field name value) =
    ofString name ++ chr ':' :: value' ∧ trim value' = trim value := by
  refine ⟨stripCr (chr ' ' :: value), ?_, ?_⟩
  · have hsplit : chr ':' :: chr ' ' :: value = [chr ':'] ++ (chr ' ' :: value) := rfl
    rw [field_eq, stripCr_append (by simp), hsplit, stripCr_append (by simp)]
    rfl
  · rw [trim_stripCr]
    exact Cutting.trim_cons (by decide) value

theorem parseHeader_field (hn : Named name) (value : Text) :
    parseHeader P (stripCr (field name value)) =
      some ⟨P.toLowerCase (ofString name), trim value, decodeWords P (trim value)⟩ := by
  obtain ⟨value', hstrip, hvalue⟩ := stripCr_field name value
  obtain ⟨hne, hcolon, htrim⟩ := hn
  have hindex : indexOf (chr ':') (ofString name ++ chr ':' :: value') =
      some (ofString name).length := by
    have hnone : (ofString name).findIdx? (· = chr ':') = none :=
      List.findIdx?_eq_none_iff.2 fun u hu => decide_eq_false fun he => hcolon (he ▸ hu)
    rw [indexOf, List.findIdx?_append, hnone, List.findIdx?_cons]
    simp
  obtain ⟨n, hlen⟩ := Nat.exists_eq_succ_of_ne_zero (Nat.ne_of_gt (List.length_pos_iff.2 hne))
  have htake : (ofString name ++ chr ':' :: value').take n.succ = ofString name := by
    rw [← hlen, List.take_left]
  have hdrop : (ofString name ++ chr ':' :: value').drop (n.succ + 1) = value' := by
    rw [← hlen, List.drop_append, List.drop_of_length_le (Nat.le_succ _)]
    simp
  rw [hstrip, parseHeader, hindex, hlen]
  show some (EmailHeader.mk (P.toLowerCase (trim (List.take n.succ _)))
    (trim (List.drop (n.succ + 1) _)) (decodeWords P (trim (List.drop (n.succ + 1) _)))) = _
  rw [htake, hdrop, htrim, hvalue]

theorem folded_field (hn : Named name) (value : Text) :
    folded (stripCr (field name value)) = false := by
  obtain ⟨value', hstrip, -⟩ := stripCr_field name value
  obtain ⟨hne, -, htrim⟩ := hn
  rw [hstrip]
  cases hname : ofString name with
  | nil => exact absurd hname hne
  | cons u n =>
    have hu := Cutting.head_trim (p := isSpace) (l := ofString name) (a := u) (by
      rw [trim] at htrim
      rw [htrim, hname]
      rfl)
    simp only [folded, List.cons_append, List.head?_cons, Option.some.injEq, Bool.or_eq_false_iff,
      decide_eq_false_iff_not]
    constructor
    · rintro rfl
      exact absurd hu (by decide)
    · rintro rfl
      exact absurd hu (by decide)

theorem unfoldFrom_plain (last : Text) (h : ∀ line ∈ lines, folded (stripCr line) = false) :
    unfoldFrom last lines = last :: lines.map stripCr := by
  induction lines generalizing last with
  | nil => rfl
  | cons line lines ih =>
    rw [unfoldFrom, h line (by simp)]
    simp only [Bool.false_eq_true, if_false, List.map_cons]
    rw [ih _ fun l hl => h l (List.mem_cons_of_mem _ hl)]

theorem unfold_plain (h : ∀ line ∈ lines, folded (stripCr line) = false) :
    unfold lines = lines.map stripCr := by
  cases lines with
  | nil => rfl
  | cons line lines => exact unfoldFrom_plain _ fun l hl => h l (List.mem_cons_of_mem _ hl)

/-- Each header that is built comes back under its name, its value trimmed. -/
theorem parseHeaders_fields {fields : List (String × Text)} (h : ∀ f ∈ fields, Named f.1) :
    parseHeaders P (fields.map fun f => field f.1 f.2) = fields.map fun f =>
      ⟨P.toLowerCase (ofString f.1), trim f.2, decodeWords P (trim f.2)⟩ := by
  have hplain : ∀ line ∈ fields.map (fun f => field f.1 f.2), folded (stripCr line) = false := by
    intro line hl
    obtain ⟨f, hf, rfl⟩ := List.mem_map.1 hl
    exact folded_field (h f hf) f.2
  rw [parseHeaders, unfold_plain hplain, List.map_map, List.filterMap_map]
  have hall : ∀ f ∈ fields, ((parseHeader P) ∘ (stripCr ∘ fun f => field f.1 f.2)) f =
      some ((fun f : String × Text => (⟨P.toLowerCase (ofString f.1), trim f.2,
        decodeWords P (trim f.2)⟩ : EmailHeader)) f) := fun f hf => parseHeader_field (h f hf) f.2
  rw [List.filterMap_congr hall, List.filterMap_eq_map']

theorem splitHeaders_fields (fields : List (String × Text)) (rest : List Text) :
    splitHeaders (fields.map (fun f => field f.1 f.2) ++ [] :: rest) =
      (fields.map fun f => field f.1 f.2, rest) := by
  have hnone : (fields.map fun f => field f.1 f.2).findIdx?
      (fun line => decide (line = [] ∨ line = [cr])) = none := by
    refine List.findIdx?_eq_none_iff.2 fun line hl => ?_
    obtain ⟨f, hf, rfl⟩ := List.mem_map.1 hl
    rw [decide_eq_false_iff_not, field_eq]
    rintro (he | he)
    · simp at he
    · have := congrArg List.length he
      simp only [List.length_append, List.length_cons, List.length_nil] at this
      omega
  rw [splitHeaders, List.findIdx?_append, hnone]
  simp only [Option.none_or, List.findIdx?_cons, true_or, decide_true, if_true, Option.map_some,
    Nat.zero_add]
  rw [List.take_left, List.drop_append, List.drop_of_length_le (Nat.le_succ _)]
  simp

variable {last : Text}

theorem not_mem_stripCr (h : lf ∉ line) : lf ∉ stripCr line := by
  unfold stripCr
  split
  · exact fun hm => h ((List.dropLast_sublist line).mem hm)
  · exact h

theorem unfoldFrom_feed (hlast : lf ∉ last) (h : ∀ line ∈ lines, lf ∉ line) :
    ∀ line ∈ unfoldFrom last lines, lf ∉ line := by
  induction lines generalizing last with
  | nil => exact fun line hm => List.mem_singleton.1 hm ▸ hlast
  | cons line lines ih =>
    have hrest : ∀ line ∈ lines, lf ∉ line := fun l hl => h l (List.mem_cons_of_mem _ hl)
    have hline := not_mem_stripCr (h line (by simp))
    rw [unfoldFrom]
    split
    · refine ih ?_ hrest
      rw [List.mem_append, List.mem_cons, not_or, not_or]
      exact ⟨hlast, by decide, fun hm => hline (Cutting.mem_of_mem_trim hm)⟩
    · intro l hl
      rcases List.mem_cons.1 hl with rfl | hl
      · exact hlast
      · exact ih hline hrest l hl

theorem unfold_feed (h : ∀ line ∈ lines, lf ∉ line) : ∀ line ∈ unfold lines, lf ∉ line := by
  cases lines with
  | nil => exact fun _ hm => nomatch hm
  | cons line lines =>
    exact unfoldFrom_feed (not_mem_stripCr (h line (by simp)))
      fun l hl => h l (List.mem_cons_of_mem _ hl)

theorem splitHeaders_sublist (lines : List Text) : (splitHeaders lines).1.Sublist lines := by
  unfold splitHeaders
  split
  · exact List.Sublist.refl _
  · exact List.take_sublist _ _

/-- No header of lines without a line feed has one as it came. -/
theorem raw_feed (h : ∀ line ∈ lines, lf ∉ line) :
    ∀ x ∈ parseHeaders P (splitHeaders lines).1, lf ∉ x.raw := by
  intro x hx
  obtain ⟨line, hline, hparse⟩ := List.mem_filterMap.1 hx
  have hfree := unfold_feed (fun l hl => h l ((splitHeaders_sublist lines).mem hl)) line hline
  unfold parseHeader at hparse
  split at hparse
  · cases hparse
  · cases hparse
  · obtain rfl := Option.some.inj hparse
    exact fun hm => hfree (List.mem_of_mem_drop (Cutting.mem_of_mem_trim hm))

theorem readMessage_headers {m : MimeMessage} {cap : Option Nat}
    (h : readMessage P lines cap = .ok m) : m.headers = parseHeaders P (splitHeaders lines).1 := by
  cases cap with
  | none => cases h
  | some cap =>
    simp only [readMessage, bind, Except.bind] at h
    split at h
    · cases h
    · split at h
      · cases h
      · rw [← Except.ok.inj h]

/-! ## What is promised of the platform -/

/-- A byte order mark in front is no part of the text. -/
def withoutMark : List Char → List Char
  | [] => []
  | c :: t => if c = '\uFEFF' then t else c :: t

structure Platform.Standard (P : Platform) : Prop where
  /-- Of ASCII only the capitals change. -/
  ascii : ∀ t : Text, (∀ u ∈ t, u < 0x80) → P.toLowerCase t = t.map lowerUnit
  utf8 : P.textDecoder (ofString "utf-8") =
    some fun bytes => ofChars (withoutMark (Utf8.decode bytes))
  /-- No decoder makes more code units than it is given bytes. -/
  short : ∀ label decode, P.textDecoder label = some decode →
    ∀ bytes, (decode bytes).length ≤ bytes.length

def isAscii (t : Text) : Bool := t.all (· < 0x80)

theorem Platform.Standard.lower (h : P.Standard) {t : Text} (ht : isAscii t = true) :
    P.toLowerCase t = t.map lowerUnit :=
  h.ascii t fun u hu => by simpa using List.all_eq_true.1 ht u hu

theorem utf8Bytes_ofChars (cs : List Char) : utf8Bytes (ofChars cs) = Utf8.encode cs := by
  rw [utf8Bytes, chars_ofChars]

theorem decodeText_utf8 (hP : P.Standard) (cs : List Char) :
    decodeText P (Utf8.encode cs) (some (ofString "utf-8")) = ofChars (withoutMark cs) := by
  have hname : unquoted (P.toLowerCase (ofString "utf-8")) = ofString "utf-8" := by
    rw [hP.lower (by decide)]
    decide
  rw [decodeText, Option.getD_some, if_neg (by decide), hname, hP.utf8]
  exact congrArg (fun cs => ofChars (withoutMark cs)) (Utf8.decode_encode cs)

/-- A byte order mark is white space. -/
theorem trim_withoutMark (cs : List Char) :
    trim (ofChars (withoutMark cs)) = trim (ofChars cs) := by
  cases cs with
  | nil => rfl
  | cons c cs =>
    rw [withoutMark]
    split
    · rename_i h
      rw [h]
      exact (Cutting.trim_cons (by decide) (ofChars cs)).symm
    · rfl

/-! ## The body -/

theorem unit_range {u : UInt16} (h : Base64.Unit u) :
    0x2b ≤ u.toNat ∧ u.toNat ≤ 0x7a ∧ u.toNat ≠ 0x3f := by
  rcases h with h | rfl
  · unfold Base64.bits at h
    split_ifs at h with h1 h2 h3 h4 h5
    · simp only [UInt16.le_iff_toNat_le, UInt16.reduceToNat] at h1
      omega
    · simp only [UInt16.le_iff_toNat_le, UInt16.reduceToNat] at h2
      omega
    · simp only [UInt16.le_iff_toNat_le, UInt16.reduceToNat] at h3
      omega
    · rcases h4 with rfl | rfl <;> decide
    · rcases h5 with rfl | rfl <;> decide
    · cases h
  · decide

theorem isSpace_ascii {u : UInt16} (hl : 0x20 < u.toNat) (hu : u.toNat < 0x80) :
    isSpace u = false := by
  simp only [isSpace, Bool.or_eq_false_iff, Bool.and_eq_false_iff, decide_eq_false_iff_not,
    UInt16.le_iff_toNat_le, List.mem_cons, List.not_mem_nil, or_false, ← UInt16.toNat_inj,
    UInt16.reduceToNat]
  omega

theorem unit_plain {u : UInt16} (h : Base64.Unit u) : isSpace u = false := by
  have := unit_range h
  exact isSpace_ascii (by omega) (by omega)

theorem filter_joinLines (lines : List Text) :
    (joinLines lines).filter (fun u => !isSpace u) =
      (lines.map fun line => line.filter fun u => !isSpace u).flatten := by
  induction lines with
  | nil => rfl
  | cons line lines ih =>
    cases lines with
    | nil => simp [joinLines]
    | cons next lines =>
      have hjoin : joinLines (line :: next :: lines) = line ++ lf :: joinLines (next :: lines) := rfl
      rw [hjoin, List.filter_append, List.filter_cons_of_neg (by decide), ih]
      rfl

/-- White space is passed over wherever the lines are cut. -/
theorem decodeBody_base64 (hP : P.Standard) (cs : List Char) (name : Text) :
    decodeBody P (bodyLines (ofChars cs) ++ [[]]) (some (ofString "base64")) name =
      .ok (Utf8.encode cs) := by
  have hkind : trim (P.toLowerCase (ofString "base64")) = ofString "base64" := by
    rw [hP.lower (by decide)]
    decide
  have hunits : ∀ u ∈ (bodyLines (ofChars cs) ++ [[]]).flatten, Base64.Unit u := by
    rw [List.flatten_append, bodyLines_flatten, utf8Bytes_ofChars]
    simpa using Base64.mem_encode (Utf8.encode_lt cs)
  have hline : ∀ line ∈ bodyLines (ofChars cs) ++ [[]],
      (stripCr line).filter (fun u => !isSpace u) = line := by
    intro line hl
    have hplain : ∀ u ∈ line, isSpace u = false := fun u hu =>
      unit_plain (hunits u (List.mem_flatten.2 ⟨line, hl, hu⟩))
    have hcr : stripCr line = line := by
      rw [stripCr, if_neg]
      intro hlast
      exact absurd (hplain cr (List.mem_of_getLast? hlast)) (by decide)
    rw [hcr, List.filter_eq_self]
    exact fun u hu => by rw [hplain u hu]; rfl
  have hlines : (bodyLines (ofChars cs) ++ [[]]).map
      ((fun line : Text => line.filter fun u => !isSpace u) ∘ stripCr) = bodyLines (ofChars cs) ++ [[]] :=
    (List.map_congr_left hline).trans (List.map_id' _)
  rw [decodeBody, Option.getD_some, hkind, if_neg (by decide)]
  dsimp only
  rw [if_pos rfl, filter_joinLines, List.map_map, hlines,
    List.flatten_append, bodyLines_flatten, utf8Bytes_ofChars]
  simp only [List.flatten_cons, List.flatten_nil, List.append_nil]
  rw [Base64.decode_encode (Utf8.encode_lt cs)]

/-! ## The subject -/

/-- The units up to a question mark are not one. -/
theorem takeWhile_mark {a : Text} (ha : chr '?' ∉ a) (b : Text) :
    (a ++ chr '?' :: b).takeWhile (· ≠ chr '?') = a := by
  have hkeep : ∀ u ∈ a, decide (u ≠ chr '?') = true := fun u hu =>
    decide_eq_true fun he : u = chr '?' => ha (he ▸ hu)
  rw [List.takeWhile_append_of_pos hkeep, List.takeWhile_cons_of_neg (by simp), List.append_nil]

theorem drop_takeWhile (p : UInt16 → Bool) (t : Text) :
    t.drop (t.takeWhile p).length = t.dropWhile p := by
  induction t with
  | nil => rfl
  | cons u t ih =>
    by_cases hu : p u = true
    · rw [List.takeWhile_cons_of_pos hu, List.dropWhile_cons_of_pos hu, List.length_cons,
        List.drop_succ_cons, ih]
    · rw [List.takeWhile_cons_of_neg hu, List.dropWhile_cons_of_neg hu]
      rfl

theorem dropPrefix_append (p t : Text) : (p ++ t).dropPrefix? p = some t :=
  List.dropPrefix?_eq_some_iff.2 ⟨p, rfl, beq_self_eq_true p⟩

/-- An encoded word by its pieces. -/
def EncodedWord.built (w : EncodedWord) (encoding : UInt16) : Text :=
  ofString "=?" ++ (w.charset ++ chr '?' :: encoding :: chr '?' :: (w.text ++
    (ofString "?=" ++ w.rest)))

/-- What is read as an encoded word is one. -/
theorem encodedWord_some {w : EncodedWord} (h : encodedWord t = some w) :
    ∃ encoding, encoding ∈ ofString "bBqQ" ∧ w.charset ≠ [] ∧ t = w.built encoding := by
  simp only [encodedWord, bind, Option.bind_eq_some_iff] at h
  obtain ⟨t₁, h₁, _, hne, h⟩ := h
  obtain ⟨p, rfl, hp⟩ := List.dropPrefix?_eq_some_iff.1 h₁
  obtain rfl := eq_of_beq hp
  generalize hc : t₁.takeWhile (fun u => decide (u ≠ chr '?')) = charset at h hne
  cases hd : t₁.drop (charset.length + 1) with
  | nil =>
    rw [hd] at h
    cases h
  | cons encoding t₂ =>
    cases t₂ with
    | nil =>
      rw [hd] at h
      cases h
    | cons q t₂ =>
      rw [hd] at h
      simp only [Option.bind_eq_some_iff] at h
      obtain ⟨_, hg, rest, hrest, hw⟩ := h
      have hguard : encoding ∈ ofString "bBqQ" ∧ q = chr '?' := by
        by_contra hn
        rw [guard, if_neg hn] at hg
        cases hg
      have hcharset : charset ≠ [] := by
        rintro rfl
        cases hne
      obtain ⟨he, rfl⟩ := hguard
      obtain rfl := Option.some.inj hw
      refine ⟨encoding, he, hcharset, congrArg (ofString "=?" ++ ·) ?_⟩
      obtain ⟨p, hp, hpe⟩ := List.dropPrefix?_eq_some_iff.1 hrest
      obtain rfl := eq_of_beq hpe
      rw [drop_takeWhile] at hp
      have ht₂ : t₂ = t₂.takeWhile (fun u => decide (u ≠ chr '?')) ++ (ofString "?=" ++ rest) := by
        rw [← hp, List.takeWhile_append_dropWhile]
      have ht₁ : t₁ = charset ++ chr '?' :: encoding :: chr '?' :: t₂ := by
        have hsplit := List.takeWhile_append_dropWhile (p := fun u => decide (u ≠ chr '?')) (l := t₁)
        rw [hc] at hsplit
        cases hrest : t₁.dropWhile (fun u => decide (u ≠ chr '?')) with
        | nil =>
          rw [hrest, List.append_nil] at hsplit
          rw [hsplit, List.drop_of_length_le (Nat.le_succ _)] at hd
          cases hd
        | cons u t₃ =>
          have hu := List.head_dropWhile_not (fun u => decide (u ≠ chr '?')) (l := t₁)
            (by rw [hrest]; exact List.cons_ne_nil _ _)
          simp only [hrest, List.head_cons, decide_eq_false_iff_not, ne_eq, not_not] at hu
          rw [hrest, hu] at hsplit
          rw [← hsplit, List.drop_append, List.drop_of_length_le (Nat.le_succ _)] at hd
          simp only [Nat.add_sub_cancel_left, List.drop_succ_cons, List.drop_zero,
            List.nil_append] at hd
          rw [← hsplit, hd]
      rw [ht₁, ← ht₂]

/-- An encoded word is read by its pieces. -/
theorem encodedWord_built {w : EncodedWord} {encoding : UInt16} (he : encoding ∈ ofString "bBqQ")
    (hb : w.base64 = decide (encoding ∈ ofString "bB")) (hne : w.charset ≠ [])
    (hc : chr '?' ∉ w.charset) (ht : chr '?' ∉ w.text) : encodedWord (w.built encoding) = some w := by
  have hdrop : (w.charset ++ chr '?' :: encoding :: chr '?' ::
      (w.text ++ (ofString "?=" ++ w.rest))).drop (w.charset.length + 1) =
      encoding :: chr '?' :: (w.text ++ (ofString "?=" ++ w.rest)) := by
    rw [List.drop_append, List.drop_of_length_le (Nat.le_succ _)]
    simp
  have htext : (w.text ++ (ofString "?=" ++ w.rest)).takeWhile (· ≠ chr '?') = w.text :=
    takeWhile_mark ht _
  rw [encodedWord, EncodedWord.built, dropPrefix_append]
  simp only [bind, Option.bind_some, takeWhile_mark hc, hdrop, hne, ne_eq, not_false_eq_true,
    guard_true, he, and_self, htext, List.drop_left, dropPrefix_append]
  rw [← hb]
  rfl

theorem wordsFrom_nil {skip : Nat} (h : t.length ≤ skip) : wordsFrom P skip t = [] := by
  induction t generalizing skip with
  | nil => cases skip <;> rfl
  | cons u t ih =>
    cases skip with
    | zero => simp at h
    | succ skip => exact ih (by simpa using h)

/-- Between words there is white space. -/
theorem betweenWords_none (h : ∀ u ∈ t, isSpace u = false) : betweenWords t = none := by
  rw [betweenWords]
  cases hp : t.dropPrefix? (ofString "?=") with
  | none => rfl
  | some t₁ =>
    obtain ⟨p, rfl, -⟩ := List.dropPrefix?_eq_some_iff.1 hp
    have hdrop : t₁.dropWhile isSpace = t₁ := by
      cases t₁ with
      | nil => rfl
      | cons u t₁ => exact List.dropWhile_cons_of_neg (by simp [h u (by simp)])
    simp only [bind, Option.bind_some, hdrop]
    rw [guard, if_neg (Nat.lt_irrefl _)]
    rfl

theorem includes_prefix (p t : Text) : includes (p ++ t) p = true :=
  List.any_eq_true.2 ⟨p ++ t, (List.mem_tails _ _).2 (List.suffix_refl _),
    List.isPrefixOf_iff_prefix.2 (List.prefix_append p t)⟩

/-- What is encoded is decoded, but for a byte order mark. -/
theorem decodeWords_encoded (hP : P.Standard) (cs : List Char) :
    decodeWords P (ofString "=?utf-8?B?" ++ Base64.encode (Utf8.encode cs) ++ ofString "?=") =
      ofChars (withoutMark cs) := by
  have hunits := Base64.mem_encode (Utf8.encode_lt cs)
  generalize hb : Base64.encode (Utf8.encode cs) = b64 at hunits
  let w : EncodedWord := ⟨ofString "utf-8", true, b64, []⟩
  have hmark : chr '?' ∉ b64 := fun hm => absurd (unit_range (hunits _ hm)).2.2 (by decide)
  have hword : ofString "=?utf-8?B?" ++ b64 ++ ofString "?=" = w.built (chr 'B') := by
    have hfront : ofString "=?utf-8?B?" =
        ofString "=?" ++ (ofString "utf-8" ++ [chr '?', chr 'B', chr '?']) := by decide
    rw [hfront]
    simp [EncodedWord.built, w]
  have hread : encodedWord (w.built (chr 'B')) = some w :=
    encodedWord_built (by decide) rfl
      (show ofString "utf-8" ≠ [] by decide) (show chr '?' ∉ ofString "utf-8" by decide) hmark
  have hspace : ∀ u ∈ w.built (chr 'B'), isSpace u = false := by
    have hfront : ∀ u ∈ ofString "=?utf-8?B?", isSpace u = false :=
      List.forall_iff_forall_mem.1 (by decide)
    have hback : ∀ u ∈ ofString "?=", isSpace u = false := List.forall_iff_forall_mem.1 (by decide)
    rw [← hword]
    intro u hu
    rcases List.mem_append.1 hu with hu | hu
    · rcases List.mem_append.1 hu with hu | hu
      · exact hfront u hu
      · exact unit_plain (hunits u hu)
    · exact hback u hu
  have hjoined : replaceAll betweenWords (ofString "?==?") (w.built (chr 'B')) =
      w.built (chr 'B') := replaceAll_none fun a b hab => betweenWords_none fun u hu =>
    hspace u (by rw [hab]; exact List.mem_append_right _ hu)
  have hincludes : includes (w.built (chr 'B')) (ofString "=?") = true := includes_prefix _ _
  rw [hword, decodeWords, hincludes, if_pos rfl, hjoined]
  cases hbuilt : w.built (chr 'B') with
  | nil =>
    rw [hbuilt] at hread
    cases hread
  | cons u t =>
    rw [hbuilt] at hread
    rw [wordsFrom, hread]
    dsimp only
    rw [wordsFrom_nil (by simp [w]), List.append_nil, EncodedWord.decoded]
    simp only [w, if_true]
    rw [← hb, Base64.decode_encode (Utf8.encode_lt cs)]
    exact decodeText_utf8 hP cs

/-! ## Texts of strings -/

@[simp] theorem text_ofString (s : String) : text (ofString s) = s := by
  rw [text, ofString, chars_ofChars, String.ofList_toList]

theorem ofString_append (a b : String) : ofString (a ++ b) = ofString a ++ ofString b := by
  rw [ofString, String.toList_append, ofChars_append]
  rfl

theorem angled_ofString (s : String) : angled (ofString s) = ofString ("<" ++ s ++ ">") := by
  rw [ofString_append, ofString_append, angled]
  rfl

theorem lf_mem_ofString {s : String} : lf ∈ ofString s ↔ '\n' ∈ s.toList := mem_ofChars (by decide)

theorem lf_mem_of_text {t : Text} (h : '\n' ∈ (text t).toList) : lf ∈ t := by
  rw [text, String.toList_ofList] at h
  exact mem_of_mem_chars (by decide) h

/-- What stands between an opening and a closing bracket has no white space around it. -/
theorem trim_angled (t : Text) : trim (chr '<' :: (t ++ [chr '>'])) = chr '<' :: (t ++ [chr '>']) :=
  Cutting.trim_eq_self (by decide) (by decide) t

theorem referencesFor_eq (account root pid : String) :
    referencesFor account (account ++ ":" ++ root) pid =
      root :: if pid = root then [] else [pid] := by
  have hroot : (ofString (account ++ ":" ++ root)).drop ((ofString account).length + 1) =
      ofString root := by
    rw [ofString_append, ofString_append, List.append_assoc, List.drop_append,
      List.drop_of_length_le (Nat.le_succ _)]
    have hone : ofString ":" = [chr ':'] := by decide
    simp [hone]
  rw [referencesFor, hroot, text_ofString]

/-! ## The message -/

theorem contentType_built (hP : P.Standard) :
    parseParameters P (ofString "text/plain; charset=utf-8") =
      ⟨ofString "text/plain", [(ofString "charset", ofString "utf-8")]⟩ := by
  have hparts : splitOnSemicolons false [] (ofString "text/plain; charset=utf-8") =
      [ofString "text/plain", ofString " charset=utf-8"] := by decide
  have hvalue : trim (ofString "text/plain") = ofString "text/plain" := by decide
  have hindex : indexOf (chr '=') (ofString " charset=utf-8") = some 8 := by decide
  have hname : trim ((ofString " charset=utf-8").take 8) = ofString "charset" := by decide
  have htext : parameterText (trim ((ofString " charset=utf-8").drop 9)) = ofString "utf-8" := by
    decide
  have hplain : decodeWords P (ofString "utf-8") = ofString "utf-8" := by
    rw [decodeWords, if_neg (by decide)]
  have hlower := hP.lower (t := ofString "charset") (by decide)
  have hparam : parameter P (ofString " charset=utf-8") =
      some (ofString "charset", ofString "utf-8") := by
    simp only [parameter, hindex, Option.map_some, hname, htext, hplain, hlower]
    rfl
  have hkind := hP.lower (t := ofString "text/plain") (by decide)
  rw [parseParameters, hparts]
  simp only [hvalue, hkind, List.filterMap_cons, hparam, List.filterMap_nil]
  rfl

/-- A header as it is read. -/
def headerOf (P : Platform) (f : String × Text) : EmailHeader :=
  ⟨ofString f.1, trim f.2, decodeWords P (trim f.2)⟩

theorem ofString_inj {a b : String} (h : ofString a = ofString b) : a = b :=
  String.toList_inj.1 (ofChars_inj h)

theorem find_header (P : Platform) (fields : List (String × Text)) (name : String) :
    (fields.map (headerOf P)).find? (·.name = ofString name) =
      (fields.find? (·.1 = name)).map (headerOf P) := by
  rw [List.find?_map]
  refine congrArg (Option.map _) (congrArg (List.find? · fields) (funext fun f => ?_))
  exact decide_eq_decide.2 ⟨ofString_inj, congrArg ofString⟩

theorem headerRaw_fields (P : Platform) (fields : List (String × Text)) (name : String) :
    headerRaw (fields.map (headerOf P)) name =
      (fields.find? (·.1 = name)).map fun f => trim f.2 := by
  rw [headerRaw, find_header, Option.map_map]
  rfl

/-- The headers of a reply as they are read. -/
def readFields (input : BuildMessageInput) (origin : Text) (inReplyTo : Text) :
    List (String × Text) :=
  [("from", input.from_), ("to", joinWith (ofString ", ") input.recipients),
    ("subject", encodeHeaderWord input.subject), ("date", input.date),
    ("message-id", angled input.messageId), ("mime-version", ofString "1.0"),
    ("content-type", ofString "text/plain; charset=utf-8"),
    ("content-transfer-encoding", ofString "base64"), ("x-carbon-origin", origin),
    ("in-reply-to", angled inReplyTo),
    ("references", joinWith [chr ' '] (input.references.map angled))]

variable {input : BuildMessageInput} {origin inReplyTo : Text}

def builtNames : List String :=
  ["From", "To", "Subject", "Date", "Message-ID", "MIME-Version", "Content-Type",
    "Content-Transfer-Encoding", "X-Carbon-Origin", "In-Reply-To", "References"]

theorem headerFields_names (f : String × Text) (hf : f ∈ headerFields input origin) :
    f.1 ∈ builtNames := by
  rw [headerFields, List.mem_append, List.mem_append] at hf
  rcases hf with (hf | hf) | hf
  · simp only [List.mem_cons, List.not_mem_nil, or_false] at hf
    rcases hf with rfl | rfl | rfl | rfl | rfl | rfl | rfl | rfl | rfl <;> simp [builtNames]
  · obtain ⟨id, -, rfl⟩ := Option.map_eq_some_iff.1 (Option.mem_toList.1 hf)
    simp [builtNames]
  · split at hf
    · cases hf
    · rw [List.mem_singleton.1 hf]
      simp [builtNames]

theorem headerFields_named (f : String × Text) (hf : f ∈ headerFields input origin) :
    Named f.1 :=
  (by decide : ∀ name ∈ builtNames, Named name) _ (headerFields_names f hf)

theorem parseHeaders_built (hP : P.Standard) (hi : input.inReplyTo = some inReplyTo)
    (hr : input.references ≠ []) :
    parseHeaders P ((headerFields input origin).map fun f => field f.1 f.2) =
      (readFields input origin inReplyTo).map (headerOf P) := by
  rw [parseHeaders_fields headerFields_named, headerFields, hi, if_neg hr]
  have hlower : ∀ name lower : String, isAscii (ofString name) = true →
      (ofString name).map lowerUnit = ofString lower → P.toLowerCase (ofString name) = ofString lower :=
    fun name lower ha hl => (hP.lower ha).trans hl
  simp only [Option.map_some, Option.toList_some, List.map_cons, List.map_nil,
    List.cons_append, List.nil_append, readFields, headerOf,
    hlower "From" "from" (by decide) (by decide), hlower "To" "to" (by decide) (by decide),
    hlower "Subject" "subject" (by decide) (by decide),
    hlower "Date" "date" (by decide) (by decide),
    hlower "Message-ID" "message-id" (by decide) (by decide),
    hlower "MIME-Version" "mime-version" (by decide) (by decide),
    hlower "Content-Type" "content-type" (by decide) (by decide),
    hlower "Content-Transfer-Encoding" "content-transfer-encoding" (by decide) (by decide),
    hlower "X-Carbon-Origin" "x-carbon-origin" (by decide) (by decide),
    hlower "In-Reply-To" "in-reply-to" (by decide) (by decide),
    hlower "References" "references" (by decide) (by decide)]

/-- What a message is built of has no line feed in it. -/
structure Lined (input : BuildMessageInput) (origin : Text) : Prop where
  from_ : lf ∉ input.from_
  recipients : ∀ t ∈ input.recipients, lf ∉ t
  date : lf ∉ input.date
  messageId : lf ∉ input.messageId
  inReplyTo : ∀ id ∈ input.inReplyTo, lf ∉ id
  references : ∀ id ∈ input.references, lf ∉ id
  origin : lf ∉ origin

theorem joinWith_feed {separator : Text} (hs : lf ∉ separator) {ts : List Text}
    (h : ∀ t ∈ ts, lf ∉ t) : lf ∉ joinWith separator ts := by
  induction ts with
  | nil => exact List.not_mem_nil
  | cons t ts ih =>
    cases ts with
    | nil => exact h t (by simp)
    | cons u ts =>
      rw [joinWith, List.mem_append, List.mem_append, not_or, not_or]
      · exact ⟨⟨h t (by simp), hs⟩, ih fun v hv => h v (List.mem_cons_of_mem _ hv)⟩
      · simp

theorem angled_feed {id : Text} (h : lf ∉ id) : lf ∉ angled id := by
  rw [angled, List.mem_cons, List.mem_append, List.mem_singleton, not_or, not_or]
  exact ⟨by decide, h, by decide⟩

theorem encodeHeaderWord_feed (t : Text) : lf ∉ encodeHeaderWord t := by
  unfold encodeHeaderWord
  split
  · rename_i h
    exact fun hm => absurd (List.all_eq_true.1 h lf hm) (by decide)
  · rw [List.mem_append, List.mem_append, not_or, not_or]
    exact ⟨⟨by decide, fun hm => absurd (unit_range (Base64.mem_encode (Utf8.encode_lt _) lf hm)).1
      (by decide)⟩, by decide⟩

theorem headerFields_feed (h : Lined input origin) :
    ∀ f ∈ headerFields input origin, lf ∉ f.2 := by
  intro f hf
  rw [headerFields, List.mem_append, List.mem_append] at hf
  rcases hf with (hf | hf) | hf
  · simp only [List.mem_cons, List.not_mem_nil, or_false] at hf
    rcases hf with rfl | rfl | rfl | rfl | rfl | rfl | rfl | rfl | rfl
    · exact h.from_
    · exact joinWith_feed (by decide) h.recipients
    · exact encodeHeaderWord_feed _
    · exact h.date
    · exact angled_feed h.messageId
    · decide
    · decide
    · decide
    · exact h.origin
  · obtain ⟨id, hid, rfl⟩ := Option.map_eq_some_iff.1 (Option.mem_toList.1 hf)
    exact angled_feed (h.inReplyTo id hid)
  · split at hf
    · cases hf
    · rw [List.mem_singleton.1 hf]
      refine joinWith_feed (by decide) fun t ht => ?_
      obtain ⟨id, hid, rfl⟩ := List.mem_map.1 ht
      exact angled_feed (h.references id hid)

/-- The lines of a message that is built. -/
def builtLines (input : BuildMessageInput) (origin : Text) : List Text :=
  (headerFields input origin).map (fun f => field f.1 f.2) ++
    [] :: (bodyLines (input.body.getD []) ++ [[]])

theorem buildMessage_ok (ho : input.origin = some origin) (hne : origin ≠ []) :
    buildMessage input = .ok (joinCrLf (builtLines input origin)) := by
  rw [buildMessage, ho]
  dsimp only
  rw [if_neg hne]
  simp [builtLines]

theorem field_feed {f : String × Text} (hn : f ∈ headerFields input origin) (h : lf ∉ f.2) :
    lf ∉ field f.1 f.2 := by
  have hname := (by decide : ∀ name ∈ builtNames, lf ∉ ofString name) _ (headerFields_names f hn)
  rw [field_eq, List.mem_append, List.mem_cons, List.mem_cons, not_or, not_or, not_or]
  exact ⟨hname, by decide, by decide, h⟩

theorem bodyLines_feed (cs : List Char) : ∀ line ∈ bodyLines (ofChars cs), lf ∉ line := by
  intro line hl hm
  have := List.mem_flatten.2 ⟨line, hl, hm⟩
  rw [bodyLines_flatten] at this
  exact absurd (unit_range (Base64.mem_encode (Utf8.encode_lt _) lf this)).1 (by decide)

theorem fetched_built {cs : List Char} (h : Lined input origin)
    (hb : input.body.getD [] = ofChars cs) :
    fetchMessage (joinCrLf (builtLines input origin)) = builtLines input origin := by
  have hsplit : builtLines input origin = ((headerFields input origin).map
      (fun f => field f.1 f.2) ++ [] :: bodyLines (input.body.getD [])) ++ [[]] := by
    simp [builtLines]
  rw [hsplit]
  refine fetched_join fun line hl => ?_
  rcases List.mem_append.1 hl with hl | hl
  · obtain ⟨f, hf, rfl⟩ := List.mem_map.1 hl
    exact field_feed hf (headerFields_feed h f hf)
  · rcases List.mem_cons.1 hl with rfl | hl
    · exact List.not_mem_nil
    · rw [hb] at hl
      exact bodyLines_feed cs line hl

/-- A reply reads back: its headers each by its name, its body but for white space around it. -/
theorem readMessage_built (hP : P.Standard)
    (hi : input.inReplyTo = some inReplyTo) (hr : input.references ≠ []) {cs : List Char}
    (hb : input.body.getD [] = ofChars cs) (cap : Nat) :
    readMessage P (builtLines input origin) (some cap) =
      .ok ⟨(readFields input origin inReplyTo).map (headerOf P), trim (ofChars cs), .textPlain, []⟩ := by
  have hheaders := @parseHeaders_built P input origin inReplyTo hP hi hr
  have hsplit : splitHeaders (builtLines input origin) = _ :=
    splitHeaders_fields (headerFields input origin) (bodyLines (input.body.getD []) ++ [[]])
  have hkind : headerRaw ((readFields input origin inReplyTo).map (headerOf P)) "content-type" =
      some (ofString "text/plain; charset=utf-8") := by
    rw [headerRaw_fields]
    simp only [readFields, List.find?, String.reduceEq, decide_false, decide_true, Option.map_some]
    decide
  have hdisposition : headerRaw ((readFields input origin inReplyTo).map (headerOf P))
      "content-disposition" = none := by
    rw [headerRaw_fields]
    simp only [readFields, List.find?, String.reduceEq, decide_false, Option.map_none]
  have hencoding : headerRaw ((readFields input origin inReplyTo).map (headerOf P))
      "content-transfer-encoding" = some (ofString "base64") := by
    rw [headerRaw_fields]
    simp only [readFields, List.find?, String.reduceEq, decide_false, decide_true, Option.map_some]
    decide
  have hnone : parseParameters P [] = ⟨[], []⟩ := by
    show ParsedParameters.mk (P.toLowerCase []) [] = _
    rw [hP.lower (t := []) rfl]
    rfl
  have hcharset : ParsedParameters.param ⟨ofString "text/plain",
      [(ofString "charset", ofString "utf-8")]⟩ "charset" = some (ofString "utf-8") := by decide
  have hattached : isAttachment ⟨[], []⟩
      ⟨ofString "text/plain", [(ofString "charset", ofString "utf-8")]⟩ = false := by decide
  have hcollect : collect P cap ((readFields input origin inReplyTo).map (headerOf P))
      ⟨ofString "text/plain", [(ofString "charset", ofString "utf-8")]⟩
      (bodyLines (ofChars cs) ++ [[]]) {} = .ok { text := [ofChars (withoutMark cs)] } := by
    rw [collect, hdisposition, hencoding, Option.getD_none, hnone, hattached]
    simp only [Bool.false_eq_true, if_false, decodeBody_base64 hP, hcharset]
    have hplain : ofString "text/plain" ≠ ofString "text/html" := by decide
    simp only [bind, Except.bind, if_neg hplain, decodeText_utf8 hP, List.nil_append]
    rfl
  have hwalk : walk P cap maxDepth (builtLines input origin) {} =
      .ok { text := [ofChars (withoutMark cs)] } := by
    rw [maxDepth, walk, hsplit]
    simp only [hheaders, hkind, Option.getD_some, contentType_built hP]
    rw [if_neg (by decide), hb]
    exact hcollect
  simp only [readMessage, hwalk, hsplit, hheaders]
  show Except.ok (MimeMessage.mk _ (trim (ofChars (withoutMark cs))) BodyKind.textPlain []) = _
  rw [trim_withoutMark]

end CarbonRuntime.Adapters.Email.Mime
