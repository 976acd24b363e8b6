import CarbonRuntime.Adapters.Email.AgentMail
import CarbonRuntime.Adapters.Email.Rescan

/-!
# Unreadable mails under one identity

What cannot be read, or carries no Message-ID, is parked under `account:unreadable` and
`account:unreadable:uid-V-U`, with the UIDVALIDITY and the uid of the item (adapters/email/index.ts:335-350).
An item of the AgentMail API has neither (agentmail-api.ts:327-338): every one it parks is
`uid-undefined-undefined`, and a capture that finds the identity on disk merges into it
(stream/store.ts:300-318). Two mailboxes may number alike. And the id of a readable message is put
together the same way from what its sender wrote: one in the thread `<unreadable>` under the id
`<uid-7-1>` is the parked one's.

`reads_apart_iff`: the parked mails have records of their own exactly where none of these happens.

Counterexample: two mails over the API without a Message-ID in angles.
-/

open CarbonRuntime.Core CarbonRuntime.Stream

namespace CarbonRuntime.Bugs.SharedIdentity

open Store Adapters.Email

variable {M : Mail} {J : Js} {d : Disk} {x y : Item} {message : Message} {own : String}

/-! ## What a poll hands over -/

/-- An item over IMAP (index.ts:826-834), or over the API. -/
inductive Polled (J : Js) : Item → Prop
  | imap (mailbox : String) (uidvalidity uid : Nat) (raw : String) (message : Except String Message) :
      Polled J { mailbox := some mailbox, uidvalidity := some uidvalidity, uid := some uid
                 position := positionOf uidvalidity uid, raw, message }
  | api {mailbox : String} {m : Provided} {x : Item} : itemFor J mailbox m = some x → Polled J x

/-- Its place in its mailbox. -/
def placeOf (x : Item) : Option String × String := (x.mailbox, x.mailboxPosition.getD x.position)

/-- An item, with the store as it is when the item is read. -/
structure Reading where
  store : Disk
  item : Item

def Reading.result (M : Mail) (J : Js) (r : Reading) : ReadResult := readItem M J r.store r.item

def Reading.parked (M : Mail) (J : Js) (r : Reading) : Bool :=
  match (r.result M J).content with
  | .error _ => true
  | .ok _ => false

/-- The identity a record is filed under, revisions aside. -/
def Reading.key (M : Mail) (J : Js) (r : Reading) : String × String :=
  ((r.result M J).conversationId, (r.result M J).messageId)

/-- Two readings one of which is parked have different identities. -/
def Apart (M : Mail) (J : Js) (r r' : Reading) : Prop :=
  (r.parked M J = true ∨ r'.parked M J = true) → r.key M J ≠ r'.key M J

/-- Every mail that is parked has a record of its own. -/
def OwnRecords (M : Mail) (J : Js) (readings : List Reading) : Prop := readings.Pairwise (Apart M J)

/-! ## When they clash -/

/-- The id a readable message is filed under: of what it corrects, where that is on disk. -/
def filedUnder (M : Mail) (J : Js) (d : Disk) (headers : List Header) (own : String) : String :=
  match supersededBy headers with
  | none => own
  | some s =>
    let conversationId := M.account ++ ":" ++ threadRoot headers own
    if existingRevisions J d conversationId (conversationId ++ ":" ++ s) = [] then own else s

/-- A readable message of the thread `unreadable`, filed under what stands for a uid. -/
def Crafted (M : Mail) (J : Js) (r : Reading) (x : Item) : Prop :=
  ∃ message own, r.item.message = .ok message ∧ ownIdOf message.headers = some own ∧
    threadRoot message.headers own = "unreadable" ∧
    filedUnder M J r.store message.headers own = uidText x

/-- A mail that cannot be read, or has no Message-ID. -/
def Unnamed (x : Item) : Prop := ∀ message, x.message = .ok message → ownIdOf message.headers = none

/-- Two mails of one number, or one that is crafted for the other. -/
def Clash (M : Mail) (J : Js) (r r' : Reading) : Prop :=
  (Unnamed r.item ∧ Unnamed r'.item ∧
      (r.item.uidvalidity, r.item.uid) = (r'.item.uidvalidity, r'.item.uid)) ∨
    (Unnamed r.item ∧ Crafted M J r' r.item) ∨ (Unnamed r'.item ∧ Crafted M J r r'.item)

/-! ## The identities -/

theorem numberText_inj {a b : Option Nat} (h : numberText a = numberText b) : a = b := by
  have hdigits : ∀ n : Nat, 'u' ∉ (toString n).toList := by
    intro n hu
    rw [Nat.toString_eq_ofList_toDigits, String.toList_ofList] at hu
    have hdigit := Nat.isDigit_of_mem_toDigits (by decide) (by decide) hu
    revert hdigit
    decide
  cases a with
  | none =>
    cases b with
    | none => rfl
    | some n =>
      have hu : 'u' ∈ (numberText none).toList := by decide
      rw [h] at hu
      exact absurd hu (hdigits n)
  | some m =>
    cases b with
    | none =>
      have hu : 'u' ∈ (numberText none).toList := by decide
      rw [← h] at hu
      exact absurd hu (hdigits m)
    | some n =>
      have hnum := congrArg (fun t : String => Nat.ofDigitChars 10 t.toList 0) h
      simpa [numberText, Nat.toString_eq_ofList_toDigits] using hnum

theorem dash_not_mem (n : Option Nat) : '-' ∉ (numberText n).toList := by
  cases n with
  | none => decide
  | some n =>
    intro h
    rw [numberText, Option.map_some, Option.getD_some, Nat.toString_eq_ofList_toDigits,
      String.toList_ofList] at h
    have hdigit := Nat.isDigit_of_mem_toDigits (by decide) (by decide) h
    revert hdigit
    decide

/-- Texts around the first dash. -/
theorem dash_inj {a a' b b' : List Char} (ha : '-' ∉ a) (ha' : '-' ∉ a')
    (h : a ++ '-' :: b = a' ++ '-' :: b') : a = a' ∧ b = b' := by
  have htake : ∀ {l m : List Char}, '-' ∉ l → (l ++ '-' :: m).takeWhile (· ≠ '-') = l := by
    intro l m hl
    have hkeep : ∀ c ∈ l, decide (c ≠ '-') = true := fun c hc => by
      rw [decide_eq_true_eq]
      rintro rfl
      exact hl hc
    rw [List.takeWhile_append_of_pos hkeep, List.takeWhile_cons_of_neg (by simp), List.append_nil]
  have hfront : a = a' := by rw [← htake (m := b) ha, h, htake ha']
  subst hfront
  exact ⟨rfl, List.cons_inj_right _ |>.1 (List.append_cancel_left h)⟩

theorem uidText_inj : uidText x = uidText y ↔ (x.uidvalidity, x.uid) = (y.uidvalidity, y.uid) := by
  constructor
  · intro h
    have hl := congrArg String.toList h
    simp only [uidText, String.toList_append, List.append_assoc, List.append_cancel_left_eq] at hl
    obtain ⟨hv, hu⟩ := dash_inj (dash_not_mem _) (dash_not_mem _) hl
    rw [numberText_inj (String.toList_inj.1 hv), numberText_inj (String.toList_inj.1 hu)]
  · intro h
    obtain ⟨hv, hu⟩ := Prod.mk.inj h
    rw [uidText, uidText, hv, hu]

theorem readItem_unnamed (h : Unnamed x) : ∃ reason headers, ownIdOf headers = none ∧
    readItem M J d x = unreadable M x reason headers := by
  cases hm : x.message with
  | error reason => exact ⟨reason, [], rfl, by rw [readItem, hm]⟩
  | ok message =>
    have hid : ownIdOf (x.with_ message).headers = none := h message hm
    refine ⟨noMessageId, _, hid, ?_⟩
    simp only [readItem, hm, hid]

/-- What has no id of its own is parked, under its number. -/
theorem unnamed_key {r : Reading} (h : Unnamed r.item) : r.parked M J = true ∧
    r.key M J = (M.account ++ ":unreadable", M.account ++ ":unreadable" ++ ":" ++ uidText r.item) := by
  obtain ⟨reason, headers, hid, hread⟩ := readItem_unnamed (M := M) (J := J) (d := r.store) h
  simp only [Reading.parked, Reading.key, Reading.result, hread, unreadable, hid, and_self]

/-- What has one is not, and is filed in its thread. -/
theorem named_key {r : Reading} (hm : r.item.message = .ok message)
    (hid : ownIdOf message.headers = some own) : r.parked M J = false ∧
    r.key M J = (M.account ++ ":" ++ threadRoot message.headers own,
      M.account ++ ":" ++ threadRoot message.headers own ++ ":" ++
        filedUnder M J r.store message.headers own) := by
  unfold Reading.parked Reading.key Reading.result filedUnder
  cases hs : supersededBy message.headers with
  | none =>
    rw [readItem_plain hm hid hs]
    exact ⟨rfl, rfl⟩
  | some s =>
    rw [readItem_correction hm hid hs]
    have hc : (plainRead M (r.item.with_ message) own).conversationId =
        M.account ++ ":" ++ threadRoot message.headers own := rfl
    simp only [hc]
    cases existingRevisions J r.store (M.account ++ ":" ++ threadRoot message.headers own)
        (M.account ++ ":" ++ threadRoot message.headers own ++ ":" ++ s) with
    | nil => exact ⟨rfl, rfl⟩
    | cons n ns => exact ⟨rfl, rfl⟩

theorem unnamed_or (x : Item) : Unnamed x ∨
    ∃ message own, x.message = .ok message ∧ ownIdOf message.headers = some own := by
  by_cases h : Unnamed x
  · exact .inl h
  · simp only [Unnamed, not_forall] at h
    obtain ⟨message, hm, hid⟩ := h
    obtain ⟨own, hown⟩ := Option.ne_none_iff_exists'.1 hid
    exact .inr ⟨message, own, hm, hown⟩

theorem parked_iff {r : Reading} : r.parked M J = true ↔ Unnamed r.item := by
  constructor
  · intro h
    rcases unnamed_or r.item with hun | ⟨message, own, hm, hid⟩
    · exact hun
    · rw [(named_key hm hid).1] at h
      cases h
  · exact fun h => (unnamed_key h).1

/-- The identity of a readable message is that of an unnamed one only where it is crafted so. -/
theorem key_crafted {r r' : Reading} (h : Unnamed r.item) (h' : ¬ Unnamed r'.item) :
    r.key M J = r'.key M J ↔ Crafted M J r' r.item := by
  obtain ⟨message, own, hm, hid⟩ := (unnamed_or r'.item).resolve_left h'
  have hconv : M.account ++ ":unreadable" = M.account ++ ":" ++ "unreadable" := by
    rw [String.append_assoc]
    rfl
  rw [(unnamed_key h).2, (named_key hm hid).2, hconv, Prod.mk.injEq]
  constructor
  · rintro ⟨hroot, hfiled⟩
    rw [String.append_right_inj] at hroot
    rw [hroot, String.append_right_inj] at hfiled
    exact ⟨message, own, hm, hid, hroot.symm, hfiled.symm⟩
  · rintro ⟨message', own', hm', hid', hroot, hfiled⟩
    rw [hm] at hm'
    cases hm'
    rw [hid] at hid'
    cases hid'
    rw [hroot, hfiled]
    exact ⟨rfl, rfl⟩

theorem apart_iff {r r' : Reading} : Apart M J r r' ↔ ¬ Clash M J r r' := by
  unfold Apart Clash
  rw [parked_iff, parked_iff]
  by_cases h : Unnamed r.item
  · by_cases h' : Unnamed r'.item
    · have hcrafted : ∀ {r₁ r₂ : Reading}, Unnamed r₁.item → ¬ Crafted M J r₁ r₂.item := by
        rintro r₁ r₂ hun ⟨message, own, hm, hid, -⟩
        rw [hun message hm] at hid
        cases hid
      have hkey : r.key M J = r'.key M J ↔
          (r.item.uidvalidity, r.item.uid) = (r'.item.uidvalidity, r'.item.uid) := by
        rw [(unnamed_key h).2, (unnamed_key h').2, Prod.mk.injEq, and_iff_right rfl,
          String.append_right_inj, uidText_inj]
      simp only [h, h', true_or, forall_const, ne_eq, hkey, true_and, hcrafted h', hcrafted h, or_false]
    · simp only [h, h', or_false, forall_const, ne_eq, key_crafted h h', false_and, true_and, and_false,
        false_or]
  · by_cases h' : Unnamed r'.item
    · simp only [h, h', or_true, forall_const, ne_eq, eq_comm (a := r.key M J), key_crafted h' h,
        false_and, true_and, false_or]
    · simp only [h, h', or_self, false_implies, false_and, not_false_eq_true]

theorem reads_apart_iff (M : Mail) (J : Js) (readings : List Reading) :
    OwnRecords M J readings ↔ readings.Pairwise fun r r' => ¬ Clash M J r r' := by
  have hpair : Apart M J = fun r r' => ¬ Clash M J r r' :=
    funext fun _ => funext fun _ => propext apart_iff
  rw [OwnRecords, hpair]

/-! ## Two mails over the API -/

/-- A mail whose Message-ID is not in angles, at this time. -/
def unangled (timestamp : String) : Provided where
  messageId := "m"
  timestamp
  message := .ok { headers := [⟨"message-id", "m", "m"⟩] }

def oneMs : String := "1970-01-01T00:00:00.001Z"
def twoMs : String := "1970-01-01T00:00:00.002Z"

/-- The dates of these two moments. -/
def twoDates : Js :=
  { plainJs with
    parse text := if text = oneMs then some 1 else if text = twoMs then some 2 else none
    iso t := if t = 1 then oneMs else twoMs }

def reading (timestamp : String) : Option Reading :=
  (itemFor twoDates "INBOX" (unangled timestamp)).map (⟨{}, ·⟩)

/-- Two mails at different moments are parked as one. -/
theorem unangled_clash : ¬ ∀ (M : Mail) (J : Js) (readings : List Reading),
    (∀ r ∈ readings, Polled J r.item) →
    readings.Pairwise (fun r r' => placeOf r.item ≠ placeOf r'.item) → OwnRecords M J readings := by
  intro hall
  have h : (reading oneMs).any (fun r => (reading twoMs).any fun r' =>
      decide (placeOf r.item ≠ placeOf r'.item) && r.parked boxOf twoDates &&
        decide (r.key boxOf twoDates = r'.key boxOf twoDates)) = true := by decide +kernel
  obtain ⟨r, hr, h⟩ := (Option.any_eq_true _ _).1 h
  obtain ⟨r', hr', h⟩ := (Option.any_eq_true _ _).1 h
  simp only [Bool.and_eq_true, decide_eq_true_eq] at h
  obtain ⟨⟨hplaces, hparked⟩, hkey⟩ := h
  obtain ⟨x, hx, rfl⟩ := Option.map_eq_some_iff.1 hr
  obtain ⟨x', hx', rfl⟩ := Option.map_eq_some_iff.1 hr'
  have hapart := hall boxOf twoDates [⟨{}, x⟩, ⟨{}, x'⟩]
    (by simp only [List.forall_mem_cons, List.not_mem_nil, false_implies, implies_true, and_true]
        exact ⟨.api hx, .api hx'⟩)
    (List.pairwise_pair.2 hplaces)
  exact List.pairwise_pair.1 hapart (.inl hparked) hkey

end CarbonRuntime.Bugs.SharedIdentity
