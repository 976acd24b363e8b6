import CarbonRuntime.Stream.Cursors
import Mathlib.Data.Set.Insert

/-!
# A cursor of two conversations

A cursor file is named after its conversation as a record is (stream/store.ts:513-517), so two conversations
whose identifiers differ only in halves of pairs have one file, and the one's positions move the other's
cursor.

Over any conversations, every sequence of calls leaves each cursor at the greatest position it was given,
whatever the order of the calls, exactly where no two of them that have a file agree once such halves are
replaced (`cursors_iff`).

Counterexample: the conversations `U+D800` and `U+FFFD`.
-/

open CarbonRuntime.Core Utf16 Paths

namespace CarbonRuntime.Bugs.SharedCursor

open Stream.Encode Stream.Places Stream.Cursors

variable {K : Crypto} {store : Path} {C : Set Text} {calls : List Advance} {files : Files} {c d : Text}

/-! ## What the cursors have to be -/

/-- The files after the calls, from an empty directory on. -/
def run (K : Crypto) (store : Path) (calls : List Advance) : Files := calls.foldl (advanced K store) fun _ => none

/-- The positions given for a conversation and a kind. -/
def positionsOf (calls : List Advance) (conversationId : Text) (kind : CursorKind) : List Text :=
  (calls.filter fun c => c.conversationId = conversationId ∧ kindOf c.kind = some kind).map Advance.position

/-- The greatest of the positions, `none` where there are none. -/
def Greatest (positions : List Text) : Option Text → Prop
  | none => positions = []
  | some p => p ∈ positions ∧ ∀ q ∈ positions, q ≤ p

/-- Each cursor is at the greatest of its positions, in whatever order they come. -/
def KeepCursors (K : Crypto) (store : Path) (C : Set Text) : Prop :=
  ∀ calls : List Advance, (∀ c ∈ calls, c.conversationId ∈ C) →
    ∀ c ∈ C, ∀ state, cursors K store (run K store calls) c = .ok state →
      (∀ kind, Greatest (positionsOf calls c kind) (state.get kind)) ∧
        ∀ calls', calls.Perm calls' → cursors K store (run K store calls') c = .ok state

/-- The conversation has a cursor file. -/
def HasFile (K : Crypto) (store : Path) (conversationId : Text) : Prop :=
  ∃ f, cursorFile K store conversationId = .ok f

/-! ## The greatest position -/

theorem Greatest.unique {l m : List Text} {x y : Option Text} (h : ∀ p, p ∈ l ↔ p ∈ m) (hx : Greatest l x)
    (hy : Greatest m y) : x = y := by
  cases x with
  | none =>
    cases y with
    | none => rfl
    | some q =>
      have hl : l = [] := hx
      have := (h q).2 hy.1
      rw [hl] at this
      cases this
  | some p =>
    cases y with
    | none =>
      have hm : m = [] := hy
      have := (h p).1 hx.1
      rw [hm] at this
      cases this
    | some q => exact congrArg some (List.le_antisymm (hy.2 p ((h p).1 hx.1)) (hx.2 q ((h q).2 hy.1)))

/-- One more position: the one held stays where it is not below. -/
theorem Greatest.append {l : List Text} {x : Option Text} (h : Greatest l x) (p : Text) :
    Greatest (l ++ [p]) (if x.any fun held => p ≤ held then x else some p) := by
  cases x with
  | none =>
    have hl : l = [] := h
    simp [hl, Greatest]
  | some held =>
    by_cases hp : p ≤ held
    · simp only [Option.any_some, hp, decide_true, if_true]
      refine ⟨List.mem_append_left _ h.1, fun q hq => ?_⟩
      rcases List.mem_append.1 hq with hq | hq
      · exact h.2 q hq
      · rwa [List.mem_singleton.1 hq]
    · simp only [Option.any_some, hp, decide_false, Bool.false_eq_true, if_false]
      refine ⟨by simp, fun q hq => ?_⟩
      rcases List.mem_append.1 hq with hq | hq
      · exact List.le_trans (h.2 q hq) ((List.le_total p held).resolve_left hp)
      · rw [List.mem_singleton.1 hq]
        exact List.le_refl p

/-! ## Where no file is shared -/

/-- The conversations that have a file tell themselves apart, halves without the other replaced. -/
def ToldApart (K : Crypto) (store : Path) (C : Set Text) : Prop :=
  ∀ c ∈ C, ∀ d ∈ C, HasFile K store c → HasFile K store d → replaced c = replaced d → c = d

/-- Every conversation's file holds the greatest of its positions. -/
def Tracks (K : Crypto) (store : Path) (C : Set Text) (calls : List Advance) (files : Files) : Prop :=
  ∀ c ∈ C, ∀ f, cursorFile K store c = .ok f → ∀ kind,
    Greatest (positionsOf calls c kind) (((files f).getD {}).get kind)

theorem positionsOf_append {kind : CursorKind} (call : Advance) : positionsOf (calls ++ [call]) c kind =
    positionsOf calls c kind ++
      if call.conversationId = c ∧ kindOf call.kind = some kind then [call.position] else [] := by
  simp only [positionsOf, List.filter_append, List.map_append]
  by_cases h : call.conversationId = c ∧ kindOf call.kind = some kind <;> simp [h]

/-- One call keeps it. -/
theorem tracks_step (hfree : ∀ c ∈ C, ∀ d ∈ C, Free K c d) (hC : ToldApart K store C)
    (h : Tracks K store C calls files) {call : Advance} (hcall : call.conversationId ∈ C) :
    Tracks K store C (calls ++ [call]) (advanced K store files call) := by
  intro c hc f hf kind
  rw [positionsOf_append]
  by_cases hmade : ∃ k g, kindOf call.kind = some k ∧ cursorFile K store call.conversationId = .ok g
  · obtain ⟨k, g, hk, hg⟩ := hmade
    rw [advanced_eq hk hg, hk]
    by_cases hcd : call.conversationId = c
    · obtain rfl := hcd
      obtain rfl : g = f := Except.ok.inj (hg.symm.trans hf)
      by_cases hkind : k = kind
      · obtain rfl := hkind
        simp only [true_and, if_true]
        have hnext := (h _ hc g hg k).append call.position
        split at hnext <;> rename_i hpast
        · rw [if_pos hpast]
          exact hnext
        · rw [if_neg hpast, Files.put, if_pos rfl, Option.getD_some, get_set_self]
          exact hnext
      · have hother : ¬ (some k = some kind) := fun he => hkind (Option.some.inj he)
        simp only [hother, and_false, if_false, List.append_nil]
        split
        · exact h _ hc g hg kind
        · rw [Files.put, if_pos rfl, Option.getD_some, get_set_other (Ne.symm hkind)]
          exact h _ hc g hg kind
    · have hfile : f ≠ g := fun he => hcd
        (hC _ hcall _ hc ⟨g, hg⟩ ⟨f, hf⟩ ((cursorFile_inj (hfree _ hcall _ hc) hg hf).1 he.symm))
      simp only [hcd, false_and, if_false, List.append_nil]
      split
      · exact h c hc f hf kind
      · rw [Files.put, if_neg hfile]
        exact h c hc f hf kind
  · have hrefused : ∀ k g, kindOf call.kind = some k → cursorFile K store call.conversationId ≠ .ok g :=
      fun k g hk hg => hmade ⟨k, g, hk, hg⟩
    have hnone : ¬ (call.conversationId = c ∧ kindOf call.kind = some kind) := by
      rintro ⟨rfl, hk⟩
      exact hmade ⟨kind, f, hk, hf⟩
    rw [advanced_refused hrefused, if_neg hnone, List.append_nil]
    exact h c hc f hf kind

/-- Every sequence of calls keeps it. -/
theorem tracks_run (hfree : ∀ c ∈ C, ∀ d ∈ C, Free K c d) (hC : ToldApart K store C)
    (hcalls : ∀ c ∈ calls, c.conversationId ∈ C) : Tracks K store C calls (run K store calls) := by
  induction calls using List.reverseRecOn with
  | nil =>
    intro c _ f _ kind
    cases kind <;> rfl
  | append_singleton calls call ih =>
    rw [run, List.foldl_append]
    exact tracks_step hfree hC (ih fun c hc => hcalls c (List.mem_append_left _ hc)) (hcalls call (by simp))

theorem cursors_of_file {f : Text} (h : cursorFile K store c = .ok f) :
    cursors K store files c = .ok ((files f).getD {}) := by
  rw [cursors, h]
  rfl

theorem state_ext {s t : CursorState} (h : ∀ kind, s.get kind = t.get kind) : s = t := by
  cases s
  cases t
  exact congrArg₂ CursorState.mk (h .message) (h .revision)

/-! ## When it is -/

/-- Over any conversations, the cursors are kept and the positions of a mailbox sort as its messages exactly where
the conversations that have a file still differ with every half that has no other replaced. -/
theorem cursors_iff (hfree : ∀ c ∈ C, ∀ d ∈ C, Free K c d) :
    (KeepCursors K store C ∧
        ∀ v u v' u' : UInt32, positionOf v u < positionOf v' u' ↔ v < v' ∨ v = v' ∧ u < u') ↔
      ToldApart K store C := by
  rw [and_iff_left positionOf_lt_iff]
  constructor
  · rintro h c hc d hd ⟨f, hf⟩ ⟨g, hg⟩ hcd
    by_contra hne
    obtain rfl : f = g := (cursorFile_inj (hfree c hc d hd) hf hg).2 hcd
    have hkind : kindOf (ofString "message") = some .message := rfl
    -- one position for `c`, which is then the cursor of `d`
    let call : Advance := ⟨c, ofString "message", []⟩
    have hrun : run K store [call] f = some ⟨some [], none⟩ := by
      simp only [run, List.foldl_cons, List.foldl_nil]
      rw [advanced_eq hkind hf]
      simp [call, Files.put, CursorState.get, CursorState.set]
    have hd := (h [call] (by simpa [call] using hc) d hd _ (cursors_of_file hg)).1 .message
    rw [hrun] at hd
    have hmem := hd.1
    simp [positionsOf, call, hne] at hmem
  · intro hC calls hcalls c hc state hstate
    obtain ⟨f, hf⟩ : ∃ f, cursorFile K store c = .ok f := by
      cases hf : cursorFile K store c with
      | ok f => exact ⟨f, rfl⟩
      | error e =>
        rw [cursors, hf] at hstate
        cases hstate
    obtain rfl := Except.ok.inj ((cursors_of_file hf).symm.trans hstate)
    refine ⟨tracks_run hfree hC hcalls c hc f hf, fun calls' hperm => ?_⟩
    rw [cursors_of_file hf]
    refine congrArg Except.ok (state_ext fun kind => ?_)
    refine Greatest.unique (fun p => ?_) (tracks_run hfree hC (fun d hd => hcalls d (hperm.mem_iff.2 hd)) c hc f hf kind)
      (tracks_run hfree hC hcalls c hc f hf kind)
    exact ((hperm.symm.filter _).map _).mem_iff

/-- The cursors of two conversations by letters are kept. -/
theorem letters_kept : KeepCursors digits smallStore {ofString "a", ofString "b"} ∧
    ∀ v u v' u' : UInt32, positionOf v u < positionOf v' u' ↔ v < v' ∨ v = v' ∧ u < u' := by
  have hfree : ∀ c ∈ ({ofString "a", ofString "b"} : Set Text), ∀ d ∈ ({ofString "a", ofString "b"} : Set Text),
      Free digits c d := by
    rintro c (rfl | rfl) d (rfl | rfl) <;> unfold Free <;> decide
  refine (cursors_iff hfree).2 ?_
  rintro c (rfl | rfl) d (rfl | rfl) - - <;> decide

/-- A position of the conversation `U+D800` is the cursor of `U+FFFD`, which was given none. -/
theorem half_moves_cursor : ∃ calls : List Advance, positionsOf calls [0xfffd] .message = [] ∧
    cursors digits smallStore (run digits smallStore calls) [0xfffd] = .ok ⟨some (ofString "7"), none⟩ :=
  ⟨[⟨[0xd800], ofString "message", ofString "7"⟩], by decide, by rfl⟩

end CarbonRuntime.Bugs.SharedCursor
