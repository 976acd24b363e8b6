import CarbonRuntime.Core.Utf16

/-!
# A reply in chunks (adapters/telegram/index.ts, adapters/whatsapp/index.ts)

A chat message has a maximum length, in code units, and a longer reply goes out as several. Each
cut is searched backwards from the maximum: a blank line, the end of a sentence or a space in the
second half of the window, and where there is none the maximum itself. Both sides of a cut are
trimmed.

**Results.** `cutOf_le`, `cutOf_pos`: a cut takes something and at most the maximum, so the loop
ends (`chunksOf_some`). `cutOf_plain`: short of the maximum a cut stands before a line break, a full
stop or a space. `chunksOf_cut`: the chunks are the text but for whitespace around them.
-/

open CarbonRuntime.Core Cutting Utf16

namespace CarbonRuntime.Adapters.Chunks

/-- What `trim` strips: the white space and the line terminators. -/
def isSpace (u : UInt16) : Bool :=
  (0x9 ≤ u && u ≤ 0xd) || (0x2000 ≤ u && u ≤ 0x200a) ||
    u ∈ ([0x20, 0xa0, 0x1680, 0x2028, 0x2029, 0x202f, 0x205f, 0x3000, 0xfeff] : Text)

/-- `text.lastIndexOf(needle)`, -1 where there is none. -/
def lastIndexOf (needle : Text) : Text → Int
  | [] => if needle = [] then 0 else -1
  | u :: t =>
    let later := lastIndexOf needle t
    if 0 ≤ later then later + 1 else if needle.isPrefixOf (u :: t) then 0 else -1

/-- `'\n\n'` -/
def blankLine : Text := [0xa, 0xa]

/-- `'. '` -/
def sentenceEnd : Text := [0x2e, 0x20]

/-- `' '` -/
def space : Text := [0x20]

/-- The break a window is cut at, the later half of it preferred, telegram/index.ts:403-406,
whatsapp/index.ts:369-372. -/
def breakIn (max : Nat) (window : Text) : Int :=
  let cut := lastIndexOf blankLine window
  let cut := if 2 * cut < max then lastIndexOf sentenceEnd window else cut
  let cut := if 0 < cut ∧ 2 * cut < max then -1 else cut
  if cut < 0 then lastIndexOf space window else cut

/-- Where the text is cut next, telegram/index.ts:402-407, whatsapp/index.ts:368-373. -/
def cutOf (max : Nat) (rest : Text) : Nat :=
  let cut := breakIn max (rest.take max)
  if 2 * cut < max then max else cut.toNat

/-- The loop, telegram/index.ts:400-412, whatsapp/index.ts:366-378, for at most so many rounds. -/
def chunksOf (max : Nat) : Nat → Text → Option (List Text)
  | 0, _ => none
  | rounds + 1, rest =>
    if rest.length ≤ max then some (if rest = [] then [] else [rest])
    else
      let cut := cutOf max rest
      (chunksOf max rounds (trim isSpace (rest.drop cut))).map (trim isSpace (rest.take cut) :: ·)

/-- mirrors telegram/index.ts:396-413, whatsapp/index.ts:362-379 -/
def splitBody (body : Option Text) (max : Nat) : Option (List Text) :=
  let text := body.getD []
  if text.length ≤ max then some [text] else chunksOf max (text.length + 1) text

/-- What the loop still has to cut, at the start and after each round. -/
inductive Remains (max : Nat) : Text → Text → Prop where
  | here {t : Text} : Remains max t t
  | after {t rest : Text} : max < t.length →
      Remains max (trim isSpace (t.drop (cutOf max t))) rest → Remains max t rest

/-! ## Where the cut stands -/

variable {max rounds n : Nat} {t rest needle : Text} {chunks : List Text}

theorem lastIndexOf_spec (needle t : Text) : lastIndexOf needle t = -1 ∨
    ∃ i : Nat, lastIndexOf needle t = i ∧ needle <+: t.drop i := by
  induction t with
  | nil =>
    by_cases hn : needle = []
    · exact .inr ⟨0, by simp [lastIndexOf, hn], by simp [hn]⟩
    · exact .inl (by simp [lastIndexOf, hn])
  | cons u t ih =>
    simp only [lastIndexOf]
    rcases ih with h | ⟨i, h, hp⟩
    · rw [h, if_neg (by decide)]
      split
      · exact .inr ⟨0, rfl, List.isPrefixOf_iff_prefix.1 ‹_›⟩
      · exact .inl rfl
    · rw [h, if_pos (Int.natCast_nonneg i)]
      exact .inr ⟨i + 1, rfl, by simpa using hp⟩

theorem breakIn_cases (max : Nat) (window : Text) : breakIn max window = -1 ∨
    ∃ needle ∈ [blankLine, sentenceEnd, space], breakIn max window = lastIndexOf needle window := by
  simp only [List.mem_cons, List.not_mem_nil, or_false, exists_eq_or_imp, exists_eq_left]
  unfold breakIn
  dsimp only
  split_ifs <;> simp

/-- Short of the maximum the cut is at the start of a break. -/
theorem cutOf_cases (max : Nat) (rest : Text) : cutOf max rest = max ∨
    ∃ needle ∈ [blankLine, sentenceEnd, space], needle <+: (rest.take max).drop (cutOf max rest) ∧
      max ≤ 2 * cutOf max rest := by
  rw [cutOf]
  by_cases hlt : 2 * breakIn max (rest.take max) < max
  · exact .inl (if_pos hlt)
  · rw [if_neg hlt]
    right
    rcases breakIn_cases max (rest.take max) with hb | ⟨needle, hn, hb⟩
    · omega
    · rcases lastIndexOf_spec needle (rest.take max) with h | ⟨i, h, hp⟩
      · omega
      · refine ⟨needle, hn, ?_, by omega⟩
        rw [hb, h]
        exact hp

theorem cutOf_le (max : Nat) (rest : Text) : cutOf max rest ≤ max := by
  rcases cutOf_cases max rest with h | ⟨needle, hn, hp, -⟩
  · omega
  · have hne : needle ≠ [] := by
      rintro rfl
      simp [blankLine, sentenceEnd, space] at hn
    have := hp.length_le
    have := List.length_pos_iff.2 hne
    simp only [List.length_drop, List.length_take] at *
    omega

theorem cutOf_pos (h : 0 < max) (rest : Text) : 0 < cutOf max rest := by
  rcases cutOf_cases max rest with hc | ⟨needle, -, -, hp⟩ <;> omega

/-- Short of the maximum the cut is not between the halves of a pair. -/
theorem cutOf_plain (h : Halves rest (cutOf max rest)) : cutOf max rest = max := by
  rcases cutOf_cases max rest with hc | ⟨needle, hn, hp, -⟩
  · exact hc
  · obtain ⟨u, hu, hlow⟩ := h
    exfalso
    have hhead : ∀ v more, needle = v :: more → v = u := by
      rintro v more rfl
      obtain ⟨tail, ht⟩ := hp
      have hv := congrArg List.head? ht
      rw [List.cons_append, List.head?_cons, List.head?_drop] at hv
      have hlt : cutOf max rest < max := by
        rcases Nat.lt_or_ge (cutOf max rest) max with hlt | hge
        · exact hlt
        · rw [List.getElem?_eq_none (by simp only [List.length_take]; omega)] at hv
          cases hv
      rw [List.getElem?_take_of_lt hlt] at hv
      rw [hu] at hv
      exact Option.some.inj hv
    simp only [List.mem_cons, List.not_mem_nil, or_false] at hn
    rcases hn with rfl | rfl | rfl
    all_goals
      rw [← hhead _ _ rfl] at hlow
      revert hlow
      decide

/-- White space is no half of a pair. -/
theorem isSpace_plain {u : UInt16} (h : isSpace u = true) : isLow u = false ∧ isHigh u = false := by
  have hu : u.toNat < 0xd800 ∨ 0xe000 ≤ u.toNat := by
    simp only [isSpace, Bool.or_eq_true, Bool.and_eq_true, decide_eq_true_eq, List.mem_cons,
      List.not_mem_nil, or_false, UInt16.le_iff_toNat_le] at h
    rcases h with (h | h) | h
    · exact .inl (Nat.lt_of_le_of_lt h.2 (by decide))
    · exact .inl (Nat.lt_of_le_of_lt h.2 (by decide))
    · rcases h with rfl | rfl | rfl | rfl | rfl | rfl | rfl | rfl | rfl <;> decide
  have h1 : (0xd800 : UInt16).toNat = 0xd800 := rfl
  have h2 : (0xdc00 : UInt16).toNat = 0xdc00 := rfl
  have h3 : (0xe000 : UInt16).toNat = 0xe000 := rfl
  simp only [isLow, isHigh, Bool.and_eq_false_iff, decide_eq_false_iff_not,
    UInt16.le_iff_toNat_le, UInt16.lt_iff_toNat_lt]
  constructor <;> omega

/-! ## The loop -/

/-- What a round leaves is shorter, so there are rounds enough. -/
theorem chunksOf_some (hmax : 0 < max) (h : rest.length < rounds) :
    ∃ chunks, chunksOf max rounds rest = some chunks := by
  induction rounds generalizing rest with
  | zero => omega
  | succ rounds ih =>
    rw [chunksOf]
    by_cases hle : rest.length ≤ max
    · exact ⟨_, if_pos hle⟩
    · have hpos := cutOf_pos hmax rest
      have hlen : (trim isSpace (rest.drop (cutOf max rest))).length < rounds := by
        have := length_trim_le (p := isSpace) (l := rest.drop (cutOf max rest))
        rw [List.length_drop] at this
        omega
      obtain ⟨chunks, hc⟩ := ih hlen
      exact ⟨trim isSpace (rest.take (cutOf max rest)) :: chunks, by simp [hle, hc]⟩

/-- A round that is not the last: the chunk it takes, and the chunks of what remains. -/
theorem chunksOf_cases (h : chunksOf max (rounds + 1) rest = some chunks) :
    rest.length ≤ max ∧ chunks = (if rest = [] then [] else [rest]) ∨
    ∃ more, max < rest.length ∧ chunks = trim isSpace (rest.take (cutOf max rest)) :: more ∧
      chunksOf max rounds (trim isSpace (rest.drop (cutOf max rest))) = some more := by
  rw [chunksOf] at h
  by_cases hle : rest.length ≤ max
  · rw [if_pos hle] at h
    exact .inl ⟨hle, (Option.some.inj h).symm⟩
  · rw [if_neg hle] at h
    obtain ⟨more, hm, hc⟩ := Option.map_eq_some_iff.1 h
    exact .inr ⟨more, by omega, hc.symm, hm⟩

theorem chunksOf_cut (h : chunksOf max rounds rest = some chunks) : Cut isSpace rest chunks := by
  induction rounds generalizing rest chunks with
  | zero => cases h
  | succ rounds ih =>
    rcases chunksOf_cases h with ⟨-, rfl⟩ | ⟨more, -, rfl, hm⟩
    · split
      · subst rest
        exact .done blank_nil
      · exact .whole rest
    · exact .at_pos _ (ih hm)

theorem chunksOf_short (h : chunksOf max rounds rest = some chunks) :
    ∀ c ∈ chunks, c.length ≤ max := by
  induction rounds generalizing rest chunks with
  | zero => cases h
  | succ rounds ih =>
    rcases chunksOf_cases h with ⟨hle, rfl⟩ | ⟨more, -, rfl, hm⟩
    · split <;> simp [hle]
    · intro c hc
      rcases List.mem_cons.1 hc with rfl | hc
      · have := length_trim_le (p := isSpace) (l := rest.take (cutOf max rest))
        have := cutOf_le max rest
        rw [List.length_take] at *
        omega
      · exact ih hm c hc

/-- Where the first cut takes more than whitespace every chunk has more: what remains after it
starts with something else. -/
theorem chunksOf_filled (hmax : 0 < max) (h : chunksOf max rounds rest = some chunks)
    (hf : rest ≠ [] → ¬ Blank isSpace (rest.take (cutOf max rest)))
    (hs : rest.length ≤ max → rest ≠ [] → ¬ Blank isSpace rest) :
    ∀ c ∈ chunks, ¬ Blank isSpace c := by
  induction rounds generalizing rest chunks with
  | zero => cases h
  | succ rounds ih =>
    rcases chunksOf_cases h with ⟨hle, rfl⟩ | ⟨more, hlt, rfl, hm⟩
    · split
      · simp
      · simpa using hs hle ‹_›
    · have started : ∀ n, 0 < n → trim isSpace (rest.drop (cutOf max rest)) ≠ [] →
          ¬ Blank isSpace ((trim isSpace (rest.drop (cutOf max rest))).take n) := by
        intro n hn hne hb
        obtain ⟨u, more', hu⟩ := List.exists_cons_of_ne_nil hne
        have hsp := head_trim (p := isSpace) (l := rest.drop (cutOf max rest)) (by rw [hu]; rfl)
        have := hb u (by
          rw [hu]
          cases n with
          | zero => omega
          | succ n => simp)
        rw [hsp] at this
        cases this
      intro c hc
      rcases List.mem_cons.1 hc with rfl | hc
      · rw [blank_trim]
        exact hf (by rintro rfl; simp at hlt)
      · refine ih hm (started _ (cutOf_pos hmax _)) (fun hle hne => ?_) c hc
        have := started max hmax hne
        rwa [List.take_of_length_le hle] at this

/-- Every chunk is of whole code points exactly where no round cuts between the halves of a pair:
a cut there leaves a chunk without its last half. -/
theorem chunksOf_whole (hw : Whole rest) (h : chunksOf max rounds rest = some chunks) :
    (∀ c ∈ chunks, Whole c) ↔
      ∀ r, Remains max rest r → max < r.length → cutOf max r = max → ¬ Halves r max := by
  induction rounds generalizing rest chunks with
  | zero => cases h
  | succ rounds ih =>
    rcases chunksOf_cases h with ⟨hle, rfl⟩ | ⟨more, hlt, rfl, hm⟩
    · constructor
      · intro _ r hr hlt
        cases hr with
        | here => omega
        | after hlt' => omega
      · intro _ c hc
        split at hc
        · cases hc
        · rw [List.mem_singleton.1 hc]
          exact hw
    · have here : Whole (trim isSpace (rest.take (cutOf max rest))) ↔
          ¬ Halves rest (cutOf max rest) := by
        rw [whole_trim fun u => isSpace_plain, whole_take hw]
      have hdrop : ¬ Halves rest (cutOf max rest) →
          Whole (trim isSpace (rest.drop (cutOf max rest))) := fun hn =>
        (whole_trim fun u => isSpace_plain).2 (whole_drop hw hn)
      constructor
      · intro hall r hr hltr hcut
        have hn := here.1 (hall _ (by simp))
        cases hr with
        | here => exact hcut ▸ hn
        | after _ hr =>
          exact (ih (hdrop hn) hm).1 (fun c hc => hall c (by simp [hc])) r hr hltr hcut
      · intro hall
        have hn : ¬ Halves rest (cutOf max rest) := by
          intro hh
          have hcut := cutOf_plain hh
          exact hall rest .here hlt hcut (hcut ▸ hh)
        intro c hc
        rcases List.mem_cons.1 hc with rfl | hc
        · exact here.2 hn
        · exact (ih (hdrop hn) hm).2 (fun r hr => hall r (.after hlt hr)) c hc

end CarbonRuntime.Adapters.Chunks

namespace CarbonRuntime.Adapters

/-- mirrors telegram/index.ts:396-413 -/
def Telegram.splitBody (body : Option Text) (max : Nat) : Option (List Text) :=
  Chunks.splitBody body max

/-- mirrors whatsapp/index.ts:362-379 -/
def WhatsApp.splitBody (body : Option Text) (max : Nat) : Option (List Text) :=
  Chunks.splitBody body max

end CarbonRuntime.Adapters
