import CarbonRuntime.Adapters.Email.Parts

/-!
# A long mail that loses a line break, cuts a code point or outgrows its part

Email's `splitBody` (adapters/email/index.ts:704-728) keeps the part in filling as a text, and the
empty text stands for no line yet and for an empty line. So an empty line at the start of the reply,
or where a part is exactly full, is dropped with its line break (index.ts:709). A line longer than
a part is cut only where it comes while that text is empty, which is the first line; a later one
becomes a part of its own of any length (index.ts:710-712). And the cut counts bytes, so a code
point across it comes out as replacement characters (index.ts:717).

Every reply comes out as parts that are short enough, stand in the reply as they are and rejoin to
it exactly where none of that happens (`split_rejoins_iff`).

Counterexamples, at parts of four bytes: a leading line break, a code point across the cut, and a
long second line.
-/

open CarbonRuntime.Core Utf8

namespace CarbonRuntime.Bugs.LostBreak

open Adapters.Email Adapters.Email.Parts

/-- What a reply in parts keeps: parts that fit, each of them text of the reply, and with the line
breaks it was cut at put back, the reply. -/
structure Preserves (max : Nat) (body : Text) (parts : List Text) : Prop where
  short : ∀ p ∈ parts, size p ≤ max
  within : ∀ p ∈ parts, p <:+: body
  rejoins : Rejoins body parts

/-- The reply fits in one part; or it starts with no line break, in its first line a code point ends
at every multiple of the part size, no later line is longer than a part, and no empty line comes
where the part in filling has no room for its line break. -/
def Kept (max : Nat) (body : Text) : Prop :=
  size body ≤ max ∨ ∃ first rest, lines body = first :: rest ∧ first ≠ [] ∧ Bounded max first ∧
    Fits max (left max (size first)) rest

variable {max : Nat} {body first current : Text} {rest parts : List Text}

theorem preserves_iff : Preserves max body parts ↔
    (∀ p ∈ parts, size p ≤ max) ∧ Rejoins body parts :=
  ⟨fun h => ⟨h.short, h.rejoins⟩, fun h => ⟨h.1, fun _ hp => h.2.isInfix hp, h.2⟩⟩

/-- The first line is cut, and what is left of it is the part the other lines go into. -/
theorem firstLine_iff (hmax : 4 ≤ max) (hn : '\n' ∉ first) (hne : first ≠ [])
    (hr : ∀ l ∈ rest, '\n' ∉ l) (hlt : max < size first)
    (h : partsOf max [] (first :: rest) = some parts) :
    ((∀ p ∈ parts, size p ≤ max) ∧ Rejoins (joined first rest) parts) ↔
      Bounded max first ∧ Fits max (left max (size first)) rest := by
  rcases @partsOf_cons max [] first rest with ⟨hc, -⟩ | ⟨hc, -⟩ | ⟨-, -, hp⟩ | ⟨-, hle, -⟩
  · exact absurd rfl hc
  · exact absurd rfl hc
  · rw [hp] at h
    obtain ⟨⟨cuts, last⟩, hcut, he⟩ := Option.bind_eq_some_iff.1 h
    obtain ⟨ps, hps, rfl⟩ := Option.map_eq_some_iff.1 he
    obtain ⟨hclean, hbad⟩ := cutBytes_spec (by omega) hn hne (by omega) hcut
    constructor
    · rintro ⟨hsz, hj⟩
      have hb : Bounded max first := by
        by_contra hb
        obtain ⟨p, hp, hlt'⟩ := hbad hb _ ps hj
        have := hsz p (by simp [hp])
        omega
      obtain ⟨hs, hl, -, hrj⟩ := hclean hb
      refine ⟨hb, hl ▸ (partsOf_iff hmax hr hs ?_ hps).1 ⟨fun p hp => hsz p (by simp [hp]), (hrj _ ps).1 hj⟩⟩
      rw [hl, left]
      exact Nat.mod_lt _ (by omega)
    · rintro ⟨hb, hf⟩
      obtain ⟨hs, hl, hcs, hrj⟩ := hclean hb
      obtain ⟨hsz, hj⟩ := (partsOf_iff hmax hr hs (by rw [hl, left]; exact Nat.mod_lt _ (by omega)) hps).2
        (hl ▸ hf)
      refine ⟨fun p hp => ?_, (hrj _ ps).2 hj⟩
      rcases List.mem_append.1 hp with hp | hp
      · exact hcs p hp
      · exact hsz p hp
  · omega

theorem loop_iff (hmax : 4 ≤ max) (hl : lines body = first :: rest) (ht : body = joined first rest)
    (hn : ∀ l ∈ lines body, '\n' ∉ l) (hlt : max < size body)
    (h : partsOf max [] (lines body) = some parts) :
    ((∀ p ∈ parts, size p ≤ max) ∧ Rejoins body parts) ↔
      first ≠ [] ∧ Bounded max first ∧ Fits max (left max (size first)) rest := by
  rw [hl] at hn h
  have hr : ∀ l ∈ rest, '\n' ∉ l := fun l hm => hn l (by simp [hm])
  by_cases hne : first = []
  · -- an empty first line is taken for no line yet
    rw [hne] at ht h
    refine iff_of_false ?_ (by simp [hne])
    rintro ⟨-, hj⟩
    rcases @partsOf_cons max [] [] rest with ⟨hc, -⟩ | ⟨hc, -⟩ | ⟨-, hlt', -⟩ | ⟨-, -, hp⟩
    · exact hc rfl
    · exact hc rfl
    · simp at hlt'
    · rw [hp] at h
      cases rest with
      | nil => simp [ht] at hlt
      | cons line rest =>
        have hs := partsOf_starts hmax hr (.inl rfl) h
        rw [ht, joined_cons, List.nil_append] at hj
        cases parts with
        | nil => exact not_rejoins_nil hj
        | cons q qs => exact hj.not_break (hs q rfl)
  · rw [and_iff_right hne, ht]
    by_cases hlt' : max < size first
    · exact firstLine_iff hmax (hn first (by simp)) hne hr hlt' h
    · have hpos : 0 < size first := Nat.pos_of_ne_zero fun h0 => hne (size_eq_zero.1 h0)
      rcases @partsOf_cons max [] first rest with ⟨hc, -⟩ | ⟨hc, -⟩ | ⟨-, hlt', -⟩ | ⟨-, -, hp⟩
      · exact absurd rfl hc
      · exact absurd rfl hc
      · omega
      · rw [hp] at h
        have hb : Bounded max first := by
          intro k hk hlt
          have := Nat.mul_le_mul_right max hk
          omega
        rw [partsOf_iff hmax hr (starts_of_line (hn first (by simp)) hne) (by omega) h,
          left_of_le hpos (by omega), and_iff_right hb]

/-- The splitting ends, and preserves the reply exactly where no line break, code point or part size
is in its way. -/
theorem split_rejoins_iff (body : Text) (max : Nat) (hmax : 4 ≤ max) :
    (∃ parts, splitBody (some body) max = some parts ∧ Preserves max body parts) ↔ Kept max body := by
  by_cases hle : size body ≤ max
  · refine iff_of_true ⟨[body], if_pos hle, ?_⟩ (.inl hle)
    exact preserves_iff.2 ⟨by simpa using hle, .last⟩
  · obtain ⟨first, rest, hl, ht, hn⟩ := lines_joined body
    obtain ⟨parts, hp⟩ := partsOf_some (by omega : 0 < max) [] (lines body)
    have hs : splitBody (some body) max = some parts := by
      rw [splitBody, Option.getD_some, if_neg hle, hp]
    have hiff := loop_iff hmax hl ht hn (by omega) hp
    rw [Kept, or_iff_right hle]
    constructor
    · rintro ⟨ps, hps, hpr⟩
      rw [hs] at hps
      obtain rfl := Option.some.inj hps
      exact ⟨first, rest, hl, hiff.1 (preserves_iff.1 hpr)⟩
    · rintro ⟨first', rest', hl', hk⟩
      rw [hl] at hl'
      obtain ⟨rfl, rfl⟩ := List.cons.inj hl'
      exact ⟨parts, hs, preserves_iff.2 (hiff.2 hk)⟩

theorem split_rejoins_two :
    (∃ parts, splitBody (some "ab\ncdef".toList) 4 = some parts ∧ Preserves 4 "ab\ncdef".toList parts) ↔
      Kept 4 "ab\ncdef".toList :=
  split_rejoins_iff _ 4 (by decide)

/-- A leading line break is lost, a code point across the cut comes out as replacement characters,
and a long second line is a part of its own. -/
theorem split_loses :
    (¬ ∃ parts, splitBody (some "\nabcd".toList) 4 = some parts ∧
      Preserves 4 "\nabcd".toList parts) ∧
    (¬ ∃ parts, splitBody (some "aaaé".toList) 4 = some parts ∧ Preserves 4 "aaaé".toList parts) ∧
    (¬ ∃ parts, splitBody (some "a\nbbbbb".toList) 4 = some parts ∧
      Preserves 4 "a\nbbbbb".toList parts) := by
  refine ⟨?_, ?_, ?_⟩
  · rintro ⟨parts, hs, hp⟩
    rw [show splitBody (some "\nabcd".toList) 4 = some ["abcd".toList] by decide] at hs
    obtain rfl := Option.some.inj hs
    exact hp.rejoins.not_break ⟨'a', _, rfl, by decide⟩
  · rintro ⟨parts, hs, hp⟩
    rw [show splitBody (some "aaaé".toList) 4 = some [['a', 'a', 'a', replacement], [replacement]]
      by decide] at hs
    obtain rfl := Option.some.inj hs
    exact absurd (hp.short _ (by simp : ['a', 'a', 'a', replacement] ∈ _)) (by decide)
  · rintro ⟨parts, hs, hp⟩
    rw [show splitBody (some "a\nbbbbb".toList) 4 = some ["a".toList, "bbbbb".toList] by decide] at hs
    obtain rfl := Option.some.inj hs
    exact absurd (hp.short "bbbbb".toList (by simp)) (by decide)

end CarbonRuntime.Bugs.LostBreak
