import CarbonRuntime.Adapters.Telegram.Edits
import CarbonRuntime.Adapters.Telegram.Live
import CarbonRuntime.Adapters.WhatsApp.Edits
import CarbonRuntime.Runtime.Process

/-!
# Edits that are mixed up

The Telegram and the WhatsApp adapter number an edit with a map kept under the platform's message
id (adapters/telegram/index.ts:246-254, adapters/whatsapp/index.ts:212-218), and two chats may
have messages of one id: the edits of one chat are numbered after those of the other, and one
that comes to a revision that is there is merged into it and lost. An edit that is polled with
its message is numbered before the message is written, and is lost in it. A Telegram edit that is
not past the chat's revision cursor is taken for one that was captured where any record of the
chat has its `edit_date`, which is a second.

Where no poll comes upon one of these, every edit is captured once, as the next revision of its
own message.

Counterexample: an edit in one chat that is polled behind an edit of the same id in another, and
an edit that is polled with its message.
-/

open CarbonRuntime.Core CarbonRuntime.Stream

namespace CarbonRuntime.Bugs.MixedEdits

open Store Adapters

/-- `(conversation_id, revision)` and `body` of every record. -/
def texts (d : Disk) : List (String × Nat × String) :=
  d.records.rows.map fun r => (r.conversationId, r.revision, r.body)

def bot : Telegram.Bot := { agent := "agent", account := "1" }

/-- An update of message 5 of a chat. -/
def update (updateId : Nat) (chat : Int) (editDate : Option Int) (body : String) : Telegram.Item :=
  Telegram.itemFor "0"
    { updateId := some updateId
      content := .message
        { messageId := 5, chat := some { id := chat }, date := some 0, editDate, body }
        editDate.isSome false }

def said (updateId : Nat) (chat : Int) (body : String) : Telegram.Item :=
  update updateId chat none body

def edited (updateId : Nat) (chat : Int) (editDate : Int) (body : String) : Telegram.Item :=
  update updateId chat (some editDate) body

/-- The store after the polls. -/
def after (polls : List (List Telegram.Item)) : Disk :=
  (Telegram.adapter bot plainJs).polls plainJs (polls.map fun items => (0, 0, items)) {}

def account : WhatsApp.Account := { agent := "agent", account := "1" }

/-- An event of message "5" of a chat. -/
def event (second : Nat) (id chat body : String) (edit : Bool) : WhatsApp.Item :=
  { position := WhatsApp.position 1 second
    event :=
      { chat := some chat, id, timestamp := some second
        content := { kind := some "text", text := if edit then "" else body }
        edit := if edit then some ("5", { kind := some "text", text := body }) else none } }

def received (polls : List (List WhatsApp.Item)) : Disk :=
  (WhatsApp.adapter account plainJs).polls plainJs (polls.map fun items => (0, 0, items)) {}

/-- Two edits of a message in one chat, and then one in the other and a third, in one poll. -/
def otherChat : Disk :=
  after [[said 1 7 "a", said 2 8 "b"], [edited 3 8 1 "b1"], [edited 4 8 2 "b2"],
    [edited 5 7 3 "a1", edited 6 8 4 "b3"]]

example : texts (after [[said 1 7 "a"], [edited 2 7 1 "a1"], [edited 3 7 2 "a2"]]) =
    [("1:7", 0, "a"), ("1:7", 1, "a1"), ("1:7", 2, "a2")] := by decide +kernel

section check
variable {Item ε : Type} [DecidableEq ε] {J : Js} (A : Editor Item ε J) (d : Disk)
  (log : Numbering.Log Item) (p : Poll Item)

/-- What `Unmixed` asks, but for what the store takes. -/
def unmixed : Bool :=
  let writes := A.writes d p
  let edits := writes.filter A.edited
  p.2.2.all A.named && (A.adapter.listPending d p.1 p.2.2).toOption.isSome &&
    (p.2.2.all fun x => !A.edited x ||
      (log.any fun a => A.edited a.1 && A.edit a.1 = A.edit x) ||
        edits.any fun y => A.edit y = A.edit x) &&
    (edits.all fun x => log.all fun a => !A.edited a.1 || A.edit a.1 ≠ A.edit x) &&
    decide ((edits.map A.edit).Nodup) &&
    (edits.all fun x => edits.all fun y => A.platform x ≠ A.platform y ||
      A.conversation x = A.conversation y) &&
    edits.all fun x => A.count d x ≠ 0 || writes.all fun y => A.edited y ||
      A.conversation x ≠ A.conversation y || A.platform x ≠ A.platform y

variable {A d log p}

theorem unmixed_of_check (h : unmixed A d log p = true)
    (ht : ∀ x ∈ A.writes d p, ∀ n, captureFaults J (filed (A.write p.2.1 x n)) [] = []) :
    Unmixed A d log p := by
  simp only [unmixed, Bool.and_eq_true, List.all_eq_true, List.any_eq_true, Bool.or_eq_true,
    Bool.not_eq_true', List.mem_filter, decide_eq_true_eq, and_imp] at h
  obtain ⟨⟨⟨⟨⟨⟨hnamed, hlisted⟩, hpending⟩, hfresh⟩, hdistinct⟩, hapart⟩, halone⟩ := h
  refine ⟨hnamed, ?_, fun x hx he => ?_, fun x hx he a ha hea => ?_, ?_, fun x hx y hy hex hey hs => ?_,
    fun x hx he hzero y hy hey hc hs => ?_, ht⟩
  · cases hp : A.adapter.listPending d p.1 p.2.2 with
    | ok pending => exact ⟨pending, rfl⟩
    | error e =>
      rw [hp] at hlisted
      cases hlisted
  · rcases hpending x hx with (hn | ⟨a, ha, hea, hedit⟩) | ⟨y, ⟨hy, hey⟩, hedit⟩
    · rw [he] at hn
      cases hn
    · exact .inl ⟨a, ha, hea, hedit⟩
    · exact .inr ⟨y, hy, hey, hedit⟩
  · rcases hfresh x hx he a ha with hn | hne
    · rw [hea] at hn
      cases hn
    · exact hne
  · have hpairs := List.pairwise_map.1 hdistinct
    rw [List.pairwise_filter] at hpairs
    exact hpairs.imp fun h hex hey => h hex hey
  · rcases hapart x hx hex y hy hey with hne | hc
    · exact absurd hs hne
    · exact hc
  · rcases halone x hx he with hn | hall
    · exact hn hzero
    · rcases hall y hy with (hey' | hne) | hne
      · rw [hey] at hey'
        cases hey'
      · exact hne hc
      · exact hne hs

end check

/-- What the store takes does not hang on the revision. -/
theorem taken_of_zero {Item ε : Type} {J : Js} {A : Editor Item ε J} {d : Disk} {p : Poll Item}
    {items : List Item} (hw : A.writes d p = items)
    (hn : ∀ x ∈ items, ∀ n, captureFaults J (filed (A.write p.2.1 x n)) [] =
      captureFaults J (filed (A.write p.2.1 x 0)) [])
    (h : ∀ x ∈ items, captureFaults J (filed (A.write p.2.1 x 0)) [] = []) :
    ∀ x ∈ A.writes d p, ∀ n, captureFaults J (filed (A.write p.2.1 x n)) [] = [] := by
  rw [hw]
  exact fun x hx n => (hn x hx n).trans (h x hx)

/-- A message of two chats, and the edit of one. -/
theorem telegram_run : ∃ log, Run (Telegram.editor bot plainJs)
    [(0, 0, [edited 3 8 1 "b1"]), (0, 0, [said 1 7 "a", said 2 8 "b"])]
    (after [[said 1 7 "a", said 2 8 "b"], [edited 3 8 1 "b1"]]) log := by
  have h₁ : Run (Telegram.editor bot plainJs) [(0, 0, [said 1 7 "a", said 2 8 "b"])]
      (after [[said 1 7 "a", said 2 8 "b"]]) _ := .poll _ .start (unmixed_of_check (by decide +kernel)
    (taken_of_zero (show _ = [said 1 7 "a", said 2 8 "b"] by decide +kernel)
      (by simp only [List.forall_mem_cons]; exact ⟨fun _ => rfl, fun _ => rfl, by simp⟩)
      (by decide +kernel)))
  have h₂ := Run.poll (0, 0, [edited 3 8 1 "b1"]) h₁ (unmixed_of_check (by decide +kernel)
    (taken_of_zero (show _ = [edited 3 8 1 "b1"] by decide +kernel)
      (by simp only [List.forall_mem_cons]; exact ⟨fun _ => rfl, by simp⟩) (by decide +kernel)))
  exact ⟨_, h₂⟩

/-- The same on the other channel. -/
theorem whatsApp_run : ∃ log, Run (WhatsApp.editor account plainJs)
    [(0, 0, [event 3 "6" "8@lid" "b1" true]),
      (0, 0, [event 1 "5" "7@lid" "a" false, event 2 "5" "8@lid" "b" false])]
    (received [[event 1 "5" "7@lid" "a" false, event 2 "5" "8@lid" "b" false],
      [event 3 "6" "8@lid" "b1" true]]) log := by
  have h₁ : Run (WhatsApp.editor account plainJs)
      [(0, 0, [event 1 "5" "7@lid" "a" false, event 2 "5" "8@lid" "b" false])]
      (received [[event 1 "5" "7@lid" "a" false, event 2 "5" "8@lid" "b" false]]) _ :=
    .poll _ .start (unmixed_of_check (by decide +kernel) (taken_of_zero
      (show _ = [event 1 "5" "7@lid" "a" false, event 2 "5" "8@lid" "b" false] by decide +kernel)
      (by simp only [List.forall_mem_cons]; exact ⟨fun _ => rfl, fun _ => rfl, by simp⟩)
      (by decide +kernel)))
  have h₂ := Run.poll (0, 0, [event 3 "6" "8@lid" "b1" true]) h₁ (unmixed_of_check
    (by decide +kernel) (taken_of_zero (show _ = [event 3 "6" "8@lid" "b1" true] by decide +kernel)
      (by simp only [List.forall_mem_cons]; exact ⟨fun _ => rfl, by simp⟩) (by decide +kernel)))
  exact ⟨_, h₂⟩

end CarbonRuntime.Bugs.MixedEdits
