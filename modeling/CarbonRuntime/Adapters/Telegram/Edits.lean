import CarbonRuntime.Adapters.Editions
import CarbonRuntime.Adapters.Telegram.Progress

/-!
# Telegram edits

The Telegram adapter as one that numbers edits: an edit is an update of its own, of the message
it names in its chat.
-/

open CarbonRuntime.Core CarbonRuntime.Stream

namespace CarbonRuntime.Adapters.Telegram

open Store Numbering

variable (B : Bot) (J : Js)

/-- Its chat is there, or it has no message. -/
def isNamed (x : Item) : Bool :=
  match x.update.content with
  | .message m _ _ => m.chat.isSome
  | .unknown _ => true

/-- Where the records of the item are. -/
def conversationOf (x : Item) : String := (conversationIdOf B x).getD (B.account ++ ":unreadable")

def platformOf (x : Item) : String :=
  match x.update.content with
  | .message m _ _ => toString m.messageId
  | .unknown _ => (x.update.updateId.map toString).getD "unknown"

def messageIdOf (x : Item) : String :=
  match x.update.content with
  | .message m _ _ => conversationOf B x ++ ":" ++ toString m.messageId
  | .unknown _ => B.account ++ ":unreadable:update-" ++ platformOf x

def bodyOf (x : Item) : String :=
  match x.update.content with
  | .message m _ _ => if readable m then m.body else ""
  | .unknown _ => ""

def edits : Edits Item (Option Nat) where
  named := isNamed
  conversation := conversationOf B
  platform := platformOf
  messageId := messageIdOf B
  edited x := x.update.content.edited
  edit x := x.update.updateId
  body := bodyOf

/-- `readItem`, of an item that was numbered. -/
def writeOf (receivedAt : String) (x : Item) (revision : Nat) : Candidate × Option String :=
  let unread (kind : String) :=
    let (c, reason) := unreadOf B (x.receivedAt.getD receivedAt) kind x
    ({ c with record := { c.record with revision } }, reason)
  match x.update.content with
  | .unknown kind => unread kind
  | .message m edited channelPost =>
    match m.chat with
    | none => unread ""
    | some chat => candidateOf B J (x.receivedAt.getD receivedAt) x m chat edited channelPost revision

variable {B J} {d : Disk} {x y : Item} {items : List Item}

theorem conversationOf_message {m : Message} {edited channelPost : Bool} {chat : Chat}
    (hc : x.update.content = .message m edited channelPost) (hchat : m.chat = some chat) :
    conversationOf B x = B.account ++ ":" ++ toString chat.id := by
  simp only [conversationOf, conversationIdOf, hc, hchat, Option.map_some, Option.getD_some]

theorem conversationOf_unknown {kind : String} (hc : x.update.content = .unknown kind) :
    conversationOf B x = B.account ++ ":unreadable" := by
  simp only [conversationOf, conversationIdOf, hc, Option.getD_none]

/-- No chat is called so. -/
theorem chat_ne_unreadable (chat : Chat) :
    B.account ++ ":" ++ toString chat.id ≠ B.account ++ ":unreadable" := by
  rw [show ":unreadable" = ":" ++ "unreadable" from rfl, ← String.append_assoc]
  intro he
  have hid := (String.append_right_inj _).1 he
  have hhead := toString_head chat.id 'u' (by rw [hid]; rfl)
  simp at hhead

theorem candidateOf_record (receivedAt : String) (m : Message) (chat : Chat)
    (edited channelPost : Bool) (revision : Nat) :
    let w := (candidateOf B J receivedAt x m chat edited channelPost revision).1
    w.record.id = ⟨B.account ++ ":" ++ toString chat.id,
        B.account ++ ":" ++ toString chat.id ++ ":" ++ toString m.messageId, revision⟩ ∧
      w.record.platformMessageId = toString m.messageId ∧
      w.record.body = (if readable m then m.body else "") ∧ w.record.source = source ∧
      w.typeFaults = [] := by
  unfold candidateOf
  dsimp only
  split <;> exact ⟨rfl, rfl, rfl, rfl, rfl⟩

theorem readAll_number (now : String) : ∀ {items : List Item} {revisions : Numbered},
    (∀ x ∈ items, isNamed x = true) → readAll B J d now revisions items =
      .ok ((number (edits B).scheme (fun x => countRevisions J d (conversationOf B x) (platformOf x))
        revisions items).map fun a => writeOf B J now a.1 a.2) := by
  intro items
  induction items with
  | nil => exact fun _ => rfl
  | cons x items ih =>
    intro revisions hnamed
    have hx := hnamed x List.mem_cons_self
    have hmore : ∀ y ∈ items, isNamed y = true := fun y hy => hnamed y (List.mem_cons_of_mem _ hy)
    rw [readAll, number]
    cases hc : x.update.content with
    | unknown kind =>
      have hedited : (edits B).scheme.edited x = false := by
        show x.update.content.edited = false
        rw [hc]
        rfl
      rw [if_neg (by simp [hedited])]
      simp only [readItem, hc, bind, Except.bind, ih hmore, List.map_cons, writeOf]
      rfl
    | message m edited channelPost =>
      simp only [isNamed, hc] at hx
      obtain ⟨chat, hchat⟩ := Option.isSome_iff_exists.1 hx
      have hconv := conversationOf_message (B := B) hc hchat
      have hplatform : platformOf x = toString m.messageId := by simp only [platformOf, hc]
      have hedited : (edits B).scheme.edited x = edited := by
        show x.update.content.edited = edited
        rw [hc]
        rfl
      have hslot : (edits B).scheme.slot x = toString m.messageId := hplatform
      cases edited with
      | true =>
        rw [if_pos hedited]
        simp only [readItem, hc, hchat, numberOf, if_true, bind, Except.bind, ih hmore,
          List.map_cons, writeOf, hslot, hconv, hplatform]
      | false =>
        rw [if_neg (by simp [hedited])]
        simp only [readItem, hc, hchat, numberOf, bind, Except.bind, ih hmore, List.map_cons,
          writeOf, Bool.false_eq_true, if_false]

theorem payload_number (d : Disk) (now : String) (hnamed : ∀ x ∈ items, isNamed x = true) :
    payloadOf B J d now items = .ok (Adapters.payloadOf ((number (edits B).scheme
      (fun x => countRevisions J d (conversationOf B x) (platformOf x)) [] items).map fun a =>
        writeOf B J now a.1 a.2)) := by
  rw [payloadOf, readAll_number now hnamed]
  rfl

theorem writeOf_record (now : String) (revision : Nat) (h : isNamed x = true) :
    (writeOf B J now x revision).1.record.id =
        ⟨conversationOf B x, messageIdOf B x, revision⟩ ∧
      (writeOf B J now x revision).1.record.platformMessageId = platformOf x ∧
      (writeOf B J now x revision).1.record.body = bodyOf x := by
  cases hc : x.update.content with
  | unknown kind =>
    simp only [writeOf, messageIdOf, platformOf, bodyOf, conversationOf_unknown hc, hc]
    exact ⟨rfl, rfl, rfl⟩
  | message m edited channelPost =>
    simp only [isNamed, hc] at h
    obtain ⟨chat, hchat⟩ := Option.isSome_iff_exists.1 h
    obtain ⟨hid, hplatform, hbody, -, -⟩ := candidateOf_record (B := B) (J := J) (x := x)
      (x.receivedAt.getD now) m chat edited channelPost revision
    simp only [writeOf, messageIdOf, platformOf, bodyOf, conversationOf_message hc hchat, hc, hchat]
    exact ⟨hid, hplatform, hbody⟩

theorem writeOf_source (now : String) (revision : Nat) :
    (writeOf B J now x revision).1.record.source = source ∧
      (writeOf B J now x revision).1.typeFaults = [] := by
  unfold writeOf
  split
  · exact ⟨rfl, rfl⟩
  · split
    · exact ⟨rfl, rfl⟩
    · exact (candidateOf_record _ _ _ _ _ _).2.2.2

/-- In one conversation the record ids differ as the platform's do. -/
theorem messageIdOf_iff (hx : isNamed x = true) (hy : isNamed y = true)
    (h : conversationOf B x = conversationOf B y) :
    messageIdOf B x = messageIdOf B y ↔ platformOf x = platformOf y := by
  cases hcx : x.update.content with
  | unknown kind =>
    cases hcy : y.update.content with
    | unknown kind' =>
      simp only [messageIdOf, hcx, hcy, String.append_right_inj]
    | message m' edited' channelPost' =>
      simp only [isNamed, hcy] at hy
      obtain ⟨chat, hchat⟩ := Option.isSome_iff_exists.1 hy
      rw [conversationOf_unknown hcx, conversationOf_message hcy hchat] at h
      exact absurd h.symm (chat_ne_unreadable chat)
  | message m edited channelPost =>
    cases hcy : y.update.content with
    | unknown kind' =>
      simp only [isNamed, hcx] at hx
      obtain ⟨chat, hchat⟩ := Option.isSome_iff_exists.1 hx
      rw [conversationOf_unknown hcy, conversationOf_message hcx hchat] at h
      exact absurd h (chat_ne_unreadable chat)
    | message m' edited' channelPost' =>
      simp only [messageIdOf, platformOf, hcx, hcy, h, String.append_right_inj]

variable (B J)

def editor : Editor Item (Option Nat) J where
  toEdits := edits B
  adapter := adapter B J
  source := source
  skips _ _ := false
  count d x := countRevisions J d (conversationOf B x) (platformOf x)
  write at_ := writeOf B J (J.iso at_)
  listed_mem d now items pending h x hx := by
    cases h
    exact List.mem_of_mem_filter hx
  payload_eq d at_ items hnamed := by
    have hall : items.filter (fun _ => !false) = items := List.filter_eq_self.2 fun _ _ => rfl
    rw [hall]
    exact payload_number d (J.iso at_) hnamed
  write_id at_ x n h := (writeOf_record _ n h).1
  write_platform at_ x n h := (writeOf_record _ n h).2.1
  write_body at_ x n h := (writeOf_record _ n h).2.2
  write_source at_ x n := (writeOf_source _ n).1
  write_types at_ x n := (writeOf_source _ n).2
  messageId_iff x y hx hy h := messageIdOf_iff hx hy h
  count_eq d x _ h := if_pos h

end CarbonRuntime.Adapters.Telegram
