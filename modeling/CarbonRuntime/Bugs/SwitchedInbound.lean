import CarbonRuntime.Adapters.Email.AgentMail
import CarbonRuntime.Runtime.Process

/-!
# Two inbounds mint positions that do not sort together

A conversation has one message cursor, and both inbounds move it: IMAP to
`uidvalidity:uid`, zero-padded (adapters/email/index.ts:280-284), the AgentMail API to the
moment of the message as an ISO text (agentmail-api.ts:316-338). Only the mailbox watermark is
kept apart (index.ts:290-293). The two compare at their first characters: the first four digits
of the UIDVALIDITY against the year. Every message after a switch is above what the other inbound
left, or every one is below it and is never captured.

Counterexample: a conversation read over the API in 2026 and then over IMAP, in a mailbox
whose UIDVALIDITY is 1.
-/

open CarbonRuntime.Core CarbonRuntime.Stream

namespace CarbonRuntime.Bugs.SwitchedInbound

open Store Adapters Adapters.Email Padded

/-! ## The two positions -/

/-- `toISOString` of a moment in the year `y`. -/
def isoText (y : Int) (rest : String) : String :=
  (if 0 ≤ y ∧ y ≤ 9999 then Padded.pad 4 y.toNat
    else (if y < 0 then "-" else "+") ++ Padded.pad 6 y.natAbs) ++ "-" ++ rest

/-- The first four digits of the UIDVALIDITY are below the year. -/
def YearAbove (uidvalidity : Nat) (y : Int) : Prop :=
  0 ≤ y ∧ y ≤ 9999 ∧ (uidvalidity / 10 ^ 6 : Nat) < y

theorem positionOf_toList {v : Nat} (u : Nat) (hv : v < 10 ^ 10) :
    (positionOf v u).toList = digits 4 (v / 10 ^ 6) ++ (digits 6 v ++ ':' :: (Email.pad u).toList) := by
  have hp : (Email.pad v).toList = digits 4 (v / 10 ^ 6) ++ digits 6 v := by
    rw [Email.pad, pad_eq (by omega) hv, String.toList_ofList, ← digits_append]
  rw [positionOf, String.toList_append, String.toList_append, hp]
  simp

theorem digit_above (n : Nat) : '-' < Nat.digitChar (n % 10) ∧ '+' < Nat.digitChar (n % 10) := by
  have h : ∀ d : Fin 10, '-' < Nat.digitChar d ∧ '+' < Nat.digitChar d := by decide
  exact h ⟨n % 10, Nat.mod_lt n (by omega)⟩

/-- Four digits, or a sign. -/
theorem isoText_toList (y : Int) (rest : String) :
    (0 ≤ y ∧ y ≤ 9999 ∧ (isoText y rest).toList = digits 4 y.toNat ++ '-' :: rest.toList) ∨
      (¬ (0 ≤ y ∧ y ≤ 9999) ∧ ∃ sign tail, (isoText y rest).toList = sign :: tail ∧
        (sign = '-' ∨ sign = '+')) := by
  unfold isoText
  by_cases hy : 0 ≤ y ∧ y ≤ 9999
  · refine .inl ⟨hy.1, hy.2, ?_⟩
    rw [if_pos hy, pad_eq (by omega) (by omega)]
    simp
  · refine .inr ⟨hy, ?_⟩
    rw [if_neg hy]
    by_cases hneg : y < 0
    · exact ⟨'-', (Padded.pad 6 y.natAbs).toList ++ '-' :: rest.toList, by simp [hneg], .inl rfl⟩
    · exact ⟨'+', (Padded.pad 6 y.natAbs).toList ++ '-' :: rest.toList, by simp [hneg], .inr rfl⟩

theorem lt_iff_toList (s t : String) : s < t ↔ s.toList < t.toList := Iff.rfl

/-- Where the years are equal the digit after them decides. -/
theorem imap_lt_iso {v u : Nat} {y : Int} {rest : String} (hv : v < 10 ^ 10) :
    positionOf v u < isoText y rest ↔ YearAbove v y := by
  rw [lt_iff_toList, positionOf_toList u hv]
  rcases isoText_toList y rest with ⟨h0, h1, htext⟩ | ⟨hy, sign, tail, htext, hsign⟩
  · rw [htext, append_lt_iff (by simp), digits_lt_iff (by omega) (by omega), digits_succ 5 v]
    have hno : ¬ (Nat.digitChar (v / 10 ^ 5 % 10) :: digits 5 v ++ ':' :: (Email.pad u).toList <
        '-' :: rest.toList) := by
      have := (digit_above (v / 10 ^ 5)).1
      rw [List.cons_append, List.cons_lt_cons_iff]
      rintro (h | ⟨h, -⟩)
      · exact absurd h (Char.lt_asymm this)
      · rw [h] at this
        exact Char.lt_irrefl _ this
    simp only [hno, and_false, or_false, YearAbove]
    omega
  · have hno : ¬ digits 4 (v / 10 ^ 6) ++ (digits 6 v ++ ':' :: (Email.pad u).toList) < sign :: tail := by
      have := digit_above (v / 10 ^ 6 / 10 ^ 3)
      rw [digits_succ 3, List.cons_append, List.cons_lt_cons_iff]
      rintro (h | ⟨h, -⟩)
      · rcases hsign with rfl | rfl
        · exact Char.lt_asymm this.1 h
        · exact Char.lt_asymm this.2 h
      · rcases hsign with rfl | rfl
        · rw [h] at this
          exact Char.lt_irrefl _ this.1
        · rw [h] at this
          exact Char.lt_irrefl _ this.2
    rw [htext]
    simp only [hno, false_iff]
    exact fun h => hy ⟨h.1, h.2.1⟩

/-- The two are never equal. -/
theorem imap_ne_iso {v u : Nat} {y : Int} {rest : String} (hv : v < 10 ^ 10) :
    positionOf v u ≠ isoText y rest := by
  intro h
  have h := congrArg String.toList h
  rw [positionOf_toList u hv] at h
  rcases isoText_toList y rest with ⟨-, -, htext⟩ | ⟨-, sign, tail, htext, hsign⟩
  · rw [htext] at h
    have := (List.append_inj h (by simp)).2
    rw [digits_succ 5, List.cons_append] at this
    have hd := (digit_above (v / 10 ^ 5)).1
    rw [(List.cons.inj this).1] at hd
    exact Char.lt_irrefl _ hd
  · rw [htext, digits_succ 3, List.cons_append] at h
    have hd := digit_above (v / 10 ^ 6 / 10 ^ 3)
    rw [(List.cons.inj h).1] at hd
    rcases hsign with rfl | rfl
    · exact Char.lt_irrefl _ hd.1
    · exact Char.lt_irrefl _ hd.2

theorem iso_lt_imap {v u : Nat} {y : Int} {rest : String} (hv : v < 10 ^ 10) :
    isoText y rest < positionOf v u ↔ ¬ YearAbove v y := by
  have h : positionOf v u < isoText y rest ↔ YearAbove v y := imap_lt_iso hv
  rw [← h]
  constructor
  · exact fun h => String.lt_asymm h
  · intro h
    rcases String.le_total (isoText y rest) (positionOf v u) with hle | hle
    · by_contra hn
      exact imap_ne_iso hv (String.le_antisymm (String.not_lt.1 hn) hle)
    · exact absurd (String.le_antisymm (String.not_lt.1 h) hle).symm (imap_ne_iso hv)

theorem past_iff {p h : String} : past p (some h) = true ↔ h < p := by
  simp [past]

/-! ## A message after the switch -/

variable {M : Mail} {J : Js} {d : Disk}

/-- The cursor a message is compared with. -/
def cursorAt (M : Mail) (J : Js) (d : Disk) (x : Item) : Option String :=
  (d.cursorsOf (readItem M J d x).conversationId).at' (readItem M J d x).cursorKind

/-- The store takes the conversation's name. -/
def Named (M : Mail) (J : Js) (d : Disk) (x : Item) : Prop :=
  componentFaults J "conversation_id" (readItem M J d x).conversationId = []

theorem isPending_iff {x : Item} {held : String} (hn : Named M J d x)
    (hc : cursorAt M J d x = some held) : isPending M J d x = true ↔ held < x.position := by
  unfold Named at hn
  unfold cursorAt at hc
  simp only [isPending, hn, hc, ne_eq, not_true_eq_false, decide_false, Bool.false_or]
  exact past_iff

/-- A message the other inbound reads is pending exactly where the first four digits of the
UIDVALIDITY, which is 32 bits, are on the right side of the year. -/
theorem pending_iff {x : Item} (hn : Named M J d x) {v u : Nat} (hv : v < 2 ^ 32) {y : Int}
    {rest : String} :
    (cursorAt M J d x = some (positionOf v u) → x.position = isoText y rest →
      (isPending M J d x = true ↔ YearAbove v y)) ∧
    (cursorAt M J d x = some (isoText y rest) → x.position = positionOf v u →
      (isPending M J d x = true ↔ ¬ YearAbove v y)) := by
  have hv : v < 10 ^ 10 := by omega
  refine ⟨fun hc hp => ?_, fun hc hp => ?_⟩
  · rw [isPending_iff hn hc, hp, imap_lt_iso hv]
  · rw [isPending_iff hn hc, hp, iso_lt_imap hv]

/-! ## A conversation read over the API and then over IMAP -/

def moment : String := "2026-03-01T08:00:00.000Z"

/-- `Date` at one moment. -/
def momentJs : Js :=
  { plainJs with
    parse := fun text => if text = moment then some 0 else none
    iso := fun t => if t = 0 then moment else "" }

def mailbox : Mail := { agent := "agent", account := "a@b" }

def mailOf (id : String) : Message :=
  { headers := [("message-id", id), ("references", "<r>"), ("from", "c@d"), ("to", "a@b")].map
      fun (name, text) => { name, value := text, raw := text } }

/-- The store the API leaves of one message. -/
def overApi : Disk :=
  ((adapter mailbox momentJs).capture momentJs 0 0 (((itemFor momentJs "INBOX"
    { messageId := "m", timestamp := moment, message := .ok (mailOf "<m>") })).toList) {}).2

/-- The next message of the conversation, over IMAP. -/
def overImap (uidvalidity : Nat) : Item :=
  { uidvalidity := some uidvalidity, uid := some 2, position := positionOf uidvalidity 2
    message := .ok (mailOf "<n>") }

/-- What the API left, as it is found over IMAP. -/
theorem overImap_read :
    (cursorAt mailbox momentJs overApi (overImap 1) = some moment ∧
      isPending mailbox momentJs overApi (overImap 1) = false) ∧
    ∀ v ∈ [2100000000, 1700000000],
      cursorAt mailbox momentJs overApi (overImap v) = some (isoText 2026 "03-01T08:00:00.000Z") ∧
        Named mailbox momentJs overApi (overImap v) := by
  unfold Named
  decide +kernel

/-- It is below the cursor the API left, and is not read. -/
theorem switched_lost : cursorAt mailbox momentJs overApi (overImap 1) = some moment ∧
    isPending mailbox momentJs overApi (overImap 1) = false := overImap_read.1

theorem pending_run : isPending mailbox momentJs overApi (overImap 2100000000) = true ∧
    ¬ isPending mailbox momentJs overApi (overImap 1700000000) = true := by
  have hcursor := overImap_read.2
  refine ⟨?_, ?_⟩
  · obtain ⟨hc, hn⟩ := hcursor 2100000000 (by decide)
    exact ((pending_iff hn (by omega)).2 hc rfl).2 (by unfold YearAbove; omega)
  · obtain ⟨hc, hn⟩ := hcursor 1700000000 (by decide)
    exact fun h => ((pending_iff hn (by omega)).2 hc rfl).1 h (by unfold YearAbove; omega)

end CarbonRuntime.Bugs.SwitchedInbound
