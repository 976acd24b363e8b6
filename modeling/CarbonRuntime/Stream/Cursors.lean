import CarbonRuntime.Adapters.Email.Read
import CarbonRuntime.Stream.Places

/-!
# Cursors (stream/store.ts:502-539)

A conversation has a file with two positions, how far its messages were read and how far their revisions.
`advanceCursor` reads it, and writes it anew where the position is past the one held.

**Results.** What one call leaves in the files (`advanced_eq`). The positions of a mailbox sort as its
UIDVALIDITY and UID do (`positionOf_lt_iff`).
-/

open CarbonRuntime.Core Utf16 Paths

namespace CarbonRuntime.Stream.Cursors

open Encode Places

structure CursorState where
  message : Option Text := none
  revision : Option Text := none
deriving DecidableEq

def CursorState.get (c : CursorState) : CursorKind → Option Text
  | .message => c.message
  | .revision => c.revision

/-- `{ ...current, [kind]: position }` -/
def CursorState.set (c : CursorState) (kind : CursorKind) (position : Text) : CursorState :=
  match kind with
  | .message => { c with message := some position }
  | .revision => { c with revision := some position }

/-- What is in each cursor file. -/
abbrev Files := Text → Option CursorState

def Files.put (files : Files) (name : Text) (content : CursorState) : Files :=
  fun n => if n = name then some content else files n

variable (K : Crypto) (store : Path)

def cursorFile (conversationId : Text) : Except Refusal Text :=
  let faults := Encode.componentFaults K "conversation_id" conversationId
  if faults ≠ [] then .error (.stream faults)
  else resolveUnderStore store [ofString "cursors", encodeComponent K conversationId ++ ofString ".json"]

def cursors (files : Files) (conversationId : Text) : Except Refusal CursorState := do
  let file ← cursorFile K store conversationId
  pure ((files file).getD {})

def kindOf (kind : Text) : Option CursorKind :=
  if kind = ofString "message" then some .message
  else if kind = ofString "revision" then some .revision
  else none

def cursorKindUnknown (kind : Text) : Fault :=
  ⟨"CURSOR_KIND_UNKNOWN", String.ofList (chars kind), "a conversation has exactly two cursors, message and revision",
    "pass message or revision"⟩

/-- The state answered, and the files after it. -/
def advanceCursor (files : Files) (conversationId kind position : Text) : Except Refusal (CursorState × Files) :=
  match kindOf kind with
  | none => .error (.stream [cursorKindUnknown kind])
  | some kind => do
    let current ← cursors K store files conversationId
    if (current.get kind).any fun held => position ≤ held then pure (current, files)
    else do
      let next := current.set kind position
      let file ← cursorFile K store conversationId
      pure (next, files.put file next)

structure Advance where
  conversationId : Text
  kind : Text
  position : Text

/-- The files after a call; one that is refused writes nothing. -/
def advanced (files : Files) (c : Advance) : Files :=
  match advanceCursor K store files c.conversationId c.kind c.position with
  | .ok (_, files) => files
  | .error _ => files

variable {K} {store} {files : Files} {c : Advance} {f : Text} {kind : CursorKind}

@[simp] theorem get_set_self (s : CursorState) (p : Text) : (s.set kind p).get kind = some p := by
  cases kind <;> rfl

theorem get_set_other {other : CursorKind} (h : other ≠ kind) (s : CursorState) (p : Text) :
    (s.set kind p).get other = s.get other := by
  cases kind <;> cases other <;> first | rfl | exact absurd rfl h

/-- What a call of a kind leaves in the files. -/
theorem advanced_eq (hk : kindOf c.kind = some kind) (hf : cursorFile K store c.conversationId = .ok f) :
    advanced K store files c =
      if (((files f).getD {}).get kind).any fun held => c.position ≤ held then files
      else files.put f (((files f).getD {}).set kind c.position) := by
  simp only [advanced, advanceCursor, hk, cursors, hf, bind, Except.bind, pure, Except.pure]
  split <;> rename_i h
  · split at h <;> cases h <;> simp_all
  · split at h <;> cases h

theorem advanced_refused (h : ∀ kind f, kindOf c.kind = some kind → cursorFile K store c.conversationId ≠ .ok f) :
    advanced K store files c = files := by
  unfold advanced advanceCursor
  cases hk : kindOf c.kind with
  | none => rfl
  | some kind =>
    cases hf : cursorFile K store c.conversationId with
    | error e => simp [cursors, hf, bind, Except.bind]
    | ok f => exact absurd hf (h kind f hk)

/-- A conversation's file, where it has one. -/
theorem cursorFile_ok {conversationId : Text} (h : cursorFile K store conversationId = .ok f) :
    ∃ r : Path, f = r.text ∧
      r.names = store.names ++ [ofString "cursors", encodeComponent K conversationId ++ ofString ".json"] := by
  unfold cursorFile at h
  dsimp only at h
  split at h
  · cases h
  · rename_i hfaults
    have hconv := ne_nil_of_accepted (not_not.1 hfaults)
    refine (resolveUnderStore_names (fun s hs => ?_) (by simp) h).2
    simp only [List.mem_cons, List.not_mem_nil, or_false] at hs
    rcases hs with rfl | rfl
    · decide
    · have hslash : slash ∉ encodeComponent K conversationId := fun h => (encodeComponent_plain h).2 rfl
      have hsuffix : slash ∉ ofString ".json" := by decide
      have hlength : (ofString ".json").length = 5 := by decide
      refine ⟨fun h => ?_, fun h => (List.mem_append.1 h).elim hslash hsuffix, fun h => ?_, fun h => ?_⟩ <;>
      · have := congrArg List.length h
        simp [hlength] at this

/-- Two conversations have one file exactly where they agree, halves without the other replaced. -/
theorem cursorFile_inj {c d f g : Text} (hfree : Free K c d) (hc : cursorFile K store c = .ok f)
    (hd : cursorFile K store d = .ok g) : f = g ↔ replaced c = replaced d := by
  obtain ⟨r, rfl, hr⟩ := cursorFile_ok hc
  obtain ⟨r', rfl, hr'⟩ := cursorFile_ok hd
  have hnames : r = r' ↔ r.names = r'.names := ⟨congrArg _, Path.ext_names⟩
  rw [Path.text_inj, hnames, hr, hr', List.append_cancel_left_eq, List.cons.injEq, List.cons.injEq,
    List.append_cancel_right_eq, encodeComponent_inj hfree, replaced_inj]
  simp

/-! ## Positions of a mailbox -/

def positionOf (uidvalidity uid : UInt32) : Text := ofString (Adapters.Email.positionOf uidvalidity.toNat uid.toNat)

theorem positionOf_eq (v u : UInt32) : positionOf v u =
    ofChars (Padded.digits 10 v.toNat ++ ':' :: Padded.digits 10 u.toNat) := by
  have hpad : ∀ n : UInt32, (Adapters.Email.pad n.toNat).toList = Padded.digits 10 n.toNat := fun n => by
    have := n.toNat_lt
    rw [Adapters.Email.pad, Padded.pad_eq (by omega) (by omega), String.toList_ofList]
  rw [positionOf, ofString, Adapters.Email.positionOf, String.toList_append, String.toList_append, hpad, hpad]
  simp

/-- Positions sort as the pairs do. -/
theorem positionOf_lt_iff (v u v' u' : UInt32) :
    positionOf v u < positionOf v' u' ↔ v < v' ∨ v = v' ∧ u < u' := by
  have hascii : ∀ v u : UInt32, ∀ c ∈ Padded.digits 10 v.toNat ++ ':' :: Padded.digits 10 u.toNat,
      c.toNat < 0x80 := by
    intro v u c hc
    rcases List.mem_append.1 hc with hc | hc
    · exact Padded.digits_ascii _ _ c hc
    · rcases List.mem_cons.1 hc with rfl | hc
      · decide
      · exact Padded.digits_ascii _ _ c hc
  have hbound : ∀ n : UInt32, n.toNat < 10 ^ 10 := fun n => by
    have := n.toNat_lt
    omega
  have hpart : ∀ n m : UInt32, Padded.digits 10 n.toNat < Padded.digits 10 m.toNat ↔ n < m := fun n m => by
    rw [Padded.digits_lt_iff (hbound n) (hbound m), UInt32.lt_iff_toNat_lt]
  have heq : Padded.digits 10 v.toNat = Padded.digits 10 v'.toNat ↔ v = v' := by
    refine ⟨fun h => UInt32.toNat_inj.1 (Padded.digits_inj (hbound v) (hbound v') h), fun h => by rw [h]⟩
  rw [positionOf_eq, positionOf_eq, ofChars_lt_iff (hascii v u) (hascii v' u'),
    Padded.append_lt_iff (by simp), List.cons_lt_cons_iff, hpart, hpart, heq]
  simp

end CarbonRuntime.Stream.Cursors
