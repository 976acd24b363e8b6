import CarbonRuntime.Adapters.Editions
import CarbonRuntime.Adapters.WhatsApp.Adapter

/-!
# WhatsApp edits

The WhatsApp adapter as one that numbers edits: an edit is an event with an id of its own in its
chat, of the message it names.
-/

open CarbonRuntime.Core CarbonRuntime.Stream

namespace CarbonRuntime.Adapters.WhatsApp

open Store Numbering

variable (W : Account) (J : Js)

def conversationOf (x : Item) : String := (conversationIdOf W x).getD W.account

def messageIdOf (x : Item) : String := conversationOf W x ++ ":" ++ platformMessageIdOf x

def bodyOf (x : Item) : String := if (contentOf x).kind.isSome then (contentOf x).text else ""

/-- The second upload of a picture is no edit. -/
def isEdit (x : Item) : Bool := x.event.edit.isSome && !x.event.isHdChild

def edits : Edits Item (String × String) where
  named x := x.event.chat.isSome
  conversation := conversationOf W
  platform := platformMessageIdOf
  messageId := messageIdOf W
  edited := isEdit
  edit x := (conversationOf W x, x.event.id)
  body := bodyOf

/-- What `payload` leaves out. -/
def isSkipped (d : Disk) (x : Item) : Bool :=
  x.event.isHdChild || (x.event.fromMe && isOwnSend J d (conversationOf W x) x)

def writeOf (receivedAt : String) (x : Item) (revision : Nat) : Candidate × Option String :=
  candidateOf W J (x.receivedAt.getD receivedAt) x (x.event.chat.getD "") revision

variable {W J} {d : Disk} {x y : Item} {items : List Item}

theorem conversationOf_chat {chat : String} (h : x.event.chat = some chat) :
    conversationOf W x = W.account ++ ":" ++ chat := by
  simp only [conversationOf, conversationIdOf, h, Option.map_some, Option.getD_some]

theorem readAll_number (now : String) : ∀ {items : List Item} {revisions : Numbered},
    (∀ x ∈ items, x.event.chat.isSome = true) → readAll W J d now revisions items =
      .ok ((number (edits W).scheme
        (fun x => countRevisions J d (conversationOf W x) (platformMessageIdOf x)) revisions
        (items.filter fun x => !isSkipped W J d x)).map fun a => writeOf W J now a.1 a.2) := by
  intro items
  induction items with
  | nil => exact fun _ => rfl
  | cons x items ih =>
    intro revisions hnamed
    obtain ⟨chat, hchat⟩ := Option.isSome_iff_exists.1 (hnamed x List.mem_cons_self)
    have hmore : ∀ y ∈ items, y.event.chat.isSome = true :=
      fun y hy => hnamed y (List.mem_cons_of_mem _ hy)
    have hconv := conversationOf_chat (W := W) hchat
    rw [readAll, List.filter_cons]
    by_cases hhd : x.event.isHdChild = true
    · rw [if_pos hhd, if_neg (by simp [isSkipped, hhd])]
      exact ih hmore
    · rw [if_neg hhd]
      simp only [hchat]
      have hhd : x.event.isHdChild = false := by simpa using hhd
      have hskip : isSkipped W J d x =
          (x.event.fromMe && isOwnSend J d (W.account ++ ":" ++ chat) x) := by
        rw [isSkipped, hhd, hconv, Bool.false_or]
      by_cases hown : (x.event.fromMe && isOwnSend J d (W.account ++ ":" ++ chat) x) = true
      · rw [if_pos hown, if_neg (by simp [hskip, hown])]
        exact ih hmore
      · rw [if_neg hown, if_pos (by
          rw [hskip, Bool.not_eq_true', ← Bool.not_eq_true]
          exact hown), number]
        have hedited : (edits W).scheme.edited x = x.event.edit.isSome := by
          show isEdit x = _
          rw [isEdit, hhd, Bool.not_false, Bool.and_true]
        have hslot : (edits W).scheme.slot x = platformMessageIdOf x := rfl
        by_cases hedit : x.event.edit.isSome = true
        · rw [if_pos (hedited.trans hedit)]
          simp only [numberOf, if_pos hedit, ← hconv, bind, Except.bind, ih hmore, hslot,
            List.map_cons, writeOf, hchat, Option.getD_some]
        · rw [if_neg (by rw [hedited]; exact hedit)]
          simp only [numberOf, if_neg hedit, bind, Except.bind, ih hmore, List.map_cons, writeOf,
            hchat, Option.getD_some]

theorem payload_number (d : Disk) (now : String)
    (hnamed : ∀ x ∈ items, x.event.chat.isSome = true) :
    payloadOf W J d now items = .ok (Adapters.payloadOf ((number (edits W).scheme
      (fun x => countRevisions J d (conversationOf W x) (platformMessageIdOf x)) []
      (items.filter fun x => !isSkipped W J d x)).map fun a => writeOf W J now a.1 a.2)) := by
  rw [payloadOf, readAll_number now hnamed]
  rfl

theorem listFrom_mem {now : Int} {all : List Item} : ∀ {items pending : List Item},
    listFrom W J d now all items = .ok pending → ∀ x ∈ pending, x ∈ items := by
  intro items
  induction items with
  | nil =>
    intro pending h x hx
    cases h
    exact hx
  | cons y items ih =>
    intro pending h x hx
    rw [listFrom] at h
    cases hp : pastCursors W J d y with
    | error e =>
      rw [hp] at h
      cases h
    | ok isPast =>
      cases hrest : listFrom W J d now all items with
      | error e =>
        simp only [hp, hrest, bind, Except.bind] at h
        cases h
      | ok rest =>
        simp only [hp, hrest, bind, Except.bind, Except.ok.injEq] at h
        subst h
        split at hx
        · rcases List.mem_cons.1 hx with rfl | hx
          · exact List.mem_cons_self
          · exact List.mem_cons_of_mem _ (ih hrest x hx)
        · exact List.mem_cons_of_mem _ (ih hrest x hx)

theorem writeOf_record (now : String) (revision : Nat) (h : x.event.chat.isSome = true) :
    (writeOf W J now x revision).1.record.id =
        ⟨conversationOf W x, messageIdOf W x, revision⟩ ∧
      (writeOf W J now x revision).1.record.platformMessageId = platformMessageIdOf x ∧
      (writeOf W J now x revision).1.record.body = bodyOf x := by
  obtain ⟨chat, hchat⟩ := Option.isSome_iff_exists.1 h
  simp only [writeOf, messageIdOf, bodyOf, conversationOf_chat hchat, hchat, Option.getD_some]
  unfold candidateOf
  dsimp only
  split <;> exact ⟨rfl, rfl, rfl⟩

theorem writeOf_source (now : String) (revision : Nat) :
    (writeOf W J now x revision).1.record.source = source ∧
      (writeOf W J now x revision).1.typeFaults = [] := by
  unfold writeOf candidateOf
  dsimp only
  split <;> exact ⟨rfl, rfl⟩

variable (W J)

def editor : Editor Item (String × String) J where
  toEdits := edits W
  adapter := adapter W J
  source := source
  skips := isSkipped W J
  count d x := countRevisions J d (conversationOf W x) (platformMessageIdOf x)
  write at_ := writeOf W J (J.iso at_)
  listed_mem d now items pending h := listFrom_mem h
  payload_eq d at_ items hnamed := payload_number d (J.iso at_) hnamed
  write_id at_ x n h := (writeOf_record _ n h).1
  write_platform at_ x n h := (writeOf_record _ n h).2.1
  write_body at_ x n h := (writeOf_record _ n h).2.2
  write_source at_ x n := (writeOf_source _ n).1
  write_types at_ x n := (writeOf_source _ n).2
  messageId_iff x y _ _ h := by
    show messageIdOf W x = messageIdOf W y ↔ _
    rw [messageIdOf, messageIdOf, show conversationOf W x = conversationOf W y from h,
      String.append_right_inj]
    exact Iff.rfl
  count_eq d x _ h := if_pos h

end CarbonRuntime.Adapters.WhatsApp
