import CarbonRuntime.Core.Utf8

/-!
# A reply in parts (adapters/email/index.ts)

A reply longer than the channel's part size goes out as several messages. `splitBody` fills a part
with lines while they fit, and cuts a line longer than a part on a byte boundary where the part
before it holds nothing. The part being filled is a text, and the empty text stands both for no
line yet and for an empty one.

**Results.** With a part size of at least one the splitting ends (`splitBody_some`). A first part
that goes out starts with what a line starts with (`partsOf_starts`). A line cut at positions that
are all ends of code points comes out as it was, and one cut anywhere else does not
(`cutBytes_spec`). A part in filling goes on to parts that fit and rejoin exactly where `Fits` holds
(`partsOf_iff`).
-/

open CarbonRuntime.Core Utf8

namespace CarbonRuntime.Adapters.Email

namespace Parts

/-- A text, as its code points. -/
abbrev Text := List Char

/-- `text.split('\n')` -/
def lines : Text → List Text
  | [] => [[]]
  | c :: t =>
    if c = '\n' then [] :: lines t
    else
      match lines t with
      | [] => [[c]]
      | l :: ls => (c :: l) :: ls

/-- A line longer than a whole part, for at most so many rounds: the parts cut off it and what is
left of it, index.ts:713-719. -/
def cutBytes (max : Nat) : Nat → List Nat → Option (List Text × Text)
  | 0, _ => none
  | rounds + 1, rest =>
    if rest.length ≤ max then some ([], decode rest)
    else
      (cutBytes max rounds (rest.drop max)).map fun (parts, last) =>
        (decode (rest.take max) :: parts, last)

/-- The loop over the lines and the last part, index.ts:708-726. -/
def partsOf (max : Nat) (current : Text) : List Text → Option (List Text)
  | [] => some (if current = [] then [] else [current])
  | line :: rest =>
    let candidate := if current = [] then line else current ++ '\n' :: line
    if max < size candidate ∧ current ≠ [] then (partsOf max line rest).map (current :: ·)
    else if max < size candidate then
      (cutBytes max (size candidate + 1) (encode candidate)).bind fun (parts, last) =>
        (partsOf max last rest).map (parts ++ ·)
    else partsOf max candidate rest

end Parts

open Parts

/-- mirrors index.ts:704-728 -/
def splitBody (body : Option Text) (maxPartBytes : Nat) : Option (List Text) :=
  let text := body.getD []
  if size text ≤ maxPartBytes then some [text] else partsOf maxPartBytes [] (lines text)

namespace Parts

variable {max n rounds : Nat} {p q r t current line : Text} {ps qs rest : List Text}

/-- A text of lines, a part in filling first. -/
def joined (current : Text) (rest : List Text) : Text := current ++ rest.flatMap ('\n' :: ·)

@[simp] theorem joined_nil : joined current [] = current := by simp [joined]

@[simp] theorem joined_cons :
    joined current (line :: rest) = current ++ '\n' :: joined line rest := by simp [joined]

theorem lines_joined (t : Text) :
    ∃ first rest, lines t = first :: rest ∧ t = joined first rest ∧ ∀ l ∈ lines t, '\n' ∉ l := by
  induction t with
  | nil => exact ⟨[], [], rfl, rfl, by simp [lines]⟩
  | cons c t ih =>
    obtain ⟨first, rest, hl, ht, hn⟩ := ih
    by_cases hc : c = '\n'
    · refine ⟨[], first :: rest, by rw [lines, if_pos hc, hl], by simp [hc, ht], ?_⟩
      rw [lines, if_pos hc]
      simpa using hn
    · have hlc : lines (c :: t) = (c :: first) :: rest := by rw [lines, if_neg hc, hl]
      refine ⟨c :: first, rest, hlc, ?_, ?_⟩
      · rw [ht]
        rfl
      · rw [hlc]
        rw [hl] at hn
        intro l hm
        rcases List.mem_cons.1 hm with rfl | hm
        · simpa [Ne.symm hc] using hn first (by simp)
        · exact hn l (by simp [hm])

/-! ## Parts that rejoin -/

/-- The text is the parts in their order, each behind the one before it or a line break on. -/
inductive Rejoins : Text → List Text → Prop where
  | last {p : Text} : Rejoins p [p]
  | inLine {p q t : Text} {ps : List Text} : Rejoins t (q :: ps) → Rejoins (p ++ t) (p :: q :: ps)
  | atBreak {p q t : Text} {ps : List Text} :
    Rejoins t (q :: ps) → Rejoins (p ++ '\n' :: t) (p :: q :: ps)

theorem not_rejoins_nil : ¬ Rejoins t [] := nofun

theorem Rejoins.isPrefix (h : Rejoins t (p :: ps)) : p <+: t := by
  cases h with
  | last => exact List.prefix_rfl
  | inLine _ => exact List.prefix_append _ _
  | atBreak _ => exact List.prefix_append _ _

theorem Rejoins.isInfix (h : Rejoins t ps) (hp : p ∈ ps) : p <:+: t := by
  induction h with
  | last =>
    obtain rfl := List.mem_singleton.1 hp
    exact List.infix_rfl
  | inLine _ ih =>
    rcases List.mem_cons.1 hp with rfl | hp
    · exact (List.prefix_append _ _).isInfix
    · exact (ih hp).trans (List.suffix_append _ _).isInfix
  | atBreak _ ih =>
    rcases List.mem_cons.1 hp with rfl | hp
    · exact (List.prefix_append _ _).isInfix
    · exact (ih hp).trans ((List.suffix_cons _ _).trans (List.suffix_append _ _)).isInfix

/-- A part that starts with something that is no line break. -/
def Starts (p : Text) : Prop := ∃ c rest, p = c :: rest ∧ c ≠ '\n'

theorem Rejoins.not_break (h : Rejoins ('\n' :: t) (p :: ps)) : ¬ Starts p := by
  rintro ⟨c, rest, rfl, hc⟩
  exact hc (List.cons_prefix_cons.1 h.isPrefix).1

/-- Behind a part that goes on in the same line stands what the rest rejoins to. -/
theorem rejoins_inLine (ht : Starts t) : Rejoins (p ++ t) (p :: ps) ↔ Rejoins t ps := by
  obtain ⟨c, rest, rfl, hc⟩ := ht
  constructor
  · intro h
    generalize hg : p ++ c :: rest = g at h
    cases h with
    | last => simp at hg
    | inLine h => exact List.append_cancel_left hg ▸ h
    | atBreak h => exact absurd (List.cons.inj (List.append_cancel_left hg)).1 hc
  · intro h
    cases ps with
    | nil => exact absurd h not_rejoins_nil
    | cons q ps => exact .inLine h

/-- Behind a part that ends its line stands a line break and what the rest rejoins to. -/
theorem rejoins_atBreak (hs : ∀ q ∈ ps.head?, Starts q) :
    Rejoins (p ++ '\n' :: t) (p :: ps) ↔ Rejoins t ps := by
  constructor
  · intro h
    generalize hg : p ++ '\n' :: t = g at h
    cases h with
    | last => simp at hg
    | inLine h => exact absurd (hs _ rfl) (List.append_cancel_left hg ▸ h).not_break
    | atBreak h => exact (List.cons.inj (List.append_cancel_left hg)).2 ▸ h
  · intro h
    cases ps with
    | nil => exact absurd h not_rejoins_nil
    | cons q ps => exact .atBreak h

theorem starts_of_line (hn : '\n' ∉ p) (hne : p ≠ []) : Starts p := by
  obtain ⟨c, rest, rfl⟩ := List.exists_cons_of_ne_nil hne
  exact ⟨c, rest, rfl, by rintro rfl; simp at hn⟩

theorem Starts.append (h : Starts p) (t : Text) : Starts (p ++ t) := by
  obtain ⟨c, rest, rfl, hc⟩ := h
  exact ⟨c, rest ++ t, rfl, hc⟩

theorem Starts.ne_nil (h : Starts p) : p ≠ [] := by
  obtain ⟨c, rest, rfl, -⟩ := h
  simp

/-! ## A line longer than a part -/

/-- A code point of the line ends at every multiple of the part size. -/
def Bounded (max : Nat) (l : Text) : Prop := ∀ k, 0 < k → k * max < size l → Boundary l (k * max)

/-- The bytes of the last piece of a line. -/
def left (max n : Nat) : Nat := (n - 1) % max + 1

theorem left_of_le (h0 : 0 < n) (h : n ≤ max) : left max n = n := by
  rw [left, Nat.mod_eq_of_lt (by omega)]
  omega

theorem left_add (h0 : 0 < n) : left max (max + n) = left max n := by
  rw [left, left, show max + n - 1 = n - 1 + max by omega, Nat.add_mod_right]

theorem bounded_append {a b : Text} (ha : size a = max) (hb : b ≠ []) :
    Bounded max (a ++ b) ↔ Bounded max b := by
  have hpos : 0 < size b := Nat.pos_of_ne_zero fun h => hb (size_eq_zero.1 h)
  constructor
  · intro h k hk hlt
    have := h (k + 1) (by omega) (by rw [size_append, ha, Nat.succ_mul]; omega)
    rw [Nat.succ_mul, Nat.add_comm, ← ha] at this
    exact ha ▸ boundary_append.1 this
  · intro h k hk hlt
    obtain ⟨m, rfl⟩ : ∃ m, k = m + 1 := ⟨k - 1, by omega⟩
    have hm : (m + 1) * max = size a + m * max := by rw [Nat.succ_mul, ha]; omega
    rw [hm]
    cases m with
    | zero => exact ⟨a, b, rfl, by simp⟩
    | succ m =>
      refine boundary_append.2 (h (m + 1) (by omega) ?_)
      rw [size_append, hm] at hlt
      omega

theorem take_encode {a b : Text} : (encode (a ++ b)).take (size a) = encode a := by
  rw [encode_append, size, List.take_left]

theorem drop_encode {a b : Text} : (encode (a ++ b)).drop (size a) = encode b := by
  rw [encode_append, size, List.drop_left]

theorem cutBytes_some (hmax : 0 < max) {bytes : List Nat} (h : bytes.length < rounds) :
    ∃ cuts last, cutBytes max rounds bytes = some (cuts, last) := by
  induction rounds generalizing bytes with
  | zero => omega
  | succ rounds ih =>
    rw [cutBytes]
    by_cases hle : bytes.length ≤ max
    · exact ⟨_, _, if_pos hle⟩
    · obtain ⟨cuts, last, hc⟩ := 
        ih (show (bytes.drop max).length < rounds by rw [List.length_drop]; omega)
      exact ⟨decode (bytes.take max) :: cuts, last, by simp [hle, hc]⟩

/-- A piece that ends inside a code point is too long, or is no part of the text. -/
theorem not_piece {a b t : Text} {c : Char}
    (hb : max < size a + (encodeChar c).length)
    (hp : a ++ [replacement] <+: a ++ c :: b ++ t) : max < size (a ++ [replacement]) := by
  have hc : replacement = c := by
    rw [List.append_assoc, List.prefix_append_right_inj, List.cons_append] at hp
    exact (List.cons_prefix_cons.1 hp).1
  have h3 : (encodeChar replacement).length = 3 := rfl
  rw [← hc, h3] at hb
  rw [size_append, size_cons, h3, size_nil]
  omega

/-- A line cut where code points end goes on to the parts of what is left of it; cut anywhere else
a piece of it is too long or the pieces do not rejoin. -/
theorem cutBytes_spec {l : Text} (hmax : 0 < max) (hn : '\n' ∉ l) (hne : l ≠ [])
    (hr : size l < rounds) {cuts : List Text} {last : Text}
    (h : cutBytes max rounds (encode l) = some (cuts, last)) :
    (Bounded max l → Starts last ∧ size last = left max (size l) ∧ (∀ p ∈ cuts, size p ≤ max) ∧
      ∀ t ps, Rejoins (l ++ t) (cuts ++ ps) ↔ Rejoins (last ++ t) ps) ∧
    (¬ Bounded max l → ∀ t ps, Rejoins (l ++ t) (cuts ++ ps) → ∃ p ∈ cuts, max < size p) := by
  induction rounds generalizing l cuts with
  | zero => omega
  | succ rounds ih =>
    have hpos : 0 < size l := Nat.pos_of_ne_zero fun h => hne (size_eq_zero.1 h)
    rw [cutBytes] at h
    by_cases hle : (encode l).length ≤ max
    · rw [if_pos hle, decode_encode] at h
      obtain ⟨rfl, rfl⟩ := Prod.mk.inj (Option.some.inj h)
      have hb : Bounded max l := by
        intro k hk hlt
        have := Nat.mul_le_mul_right max hk
        simp only [size] at hlt
        omega
      exact ⟨fun _ => ⟨starts_of_line hn hne, (left_of_le hpos hle).symm, by simp, fun t ps => Iff.rfl⟩,
        fun hb' => absurd hb hb'⟩
    · rw [if_neg hle] at h
      obtain ⟨⟨cuts', last'⟩, hc, he⟩ := Option.map_eq_some_iff.1 h
      obtain ⟨rfl, rfl⟩ := Prod.mk.inj he
      rcases boundary_or (t := l) (n := max) (by simp only [size]; omega) with
        ⟨a, b, rfl, ha⟩ | ⟨a, c, b, rfl, ha, hb⟩
      · -- the piece ends where a code point ends
        have hb : b ≠ [] := by
          rintro rfl
          rw [List.append_nil] at hle
          simp only [size] at ha
          omega
        have hnb : '\n' ∉ b := fun hm => hn (List.mem_append_right _ hm)
        have hsb : Starts b := starts_of_line hnb hb
        have htake : (encode (a ++ b)).take max = encode a := ha ▸ take_encode
        have hdrop : (encode (a ++ b)).drop max = encode b := ha ▸ drop_encode
        rw [hdrop] at hc
        rw [htake, decode_encode]
        obtain ⟨ih1, ih2⟩ := ih hnb hb (by rw [size_append] at hr; omega) hc
        have hpre : ∀ t ps, Rejoins (a ++ b ++ t) (a :: cuts' ++ ps) ↔ Rejoins (b ++ t) (cuts' ++ ps) := by
          intro t ps
          rw [List.append_assoc, List.cons_append]
          exact rejoins_inLine (hsb.append t)
        rw [bounded_append ha hb]
        constructor
        · intro hbd
          obtain ⟨hs, hl, hsz, hrj⟩ := ih1 hbd
          refine ⟨hs, ?_, ?_, fun t ps => (hpre t ps).trans (hrj t ps)⟩
          · rw [hl, size_append, ha, left_add]
            exact Nat.pos_of_ne_zero fun h => hb (size_eq_zero.1 h)
          · simpa [ha] using hsz
        · intro hbd t ps hrj
          obtain ⟨p, hp, hlt⟩ := ih2 hbd t ps ((hpre t ps).1 hrj)
          exact ⟨p, List.mem_cons_of_mem _ hp, hlt⟩
      · -- the piece ends inside a code point
        rw [decode_inside ha hb]
        constructor
        · intro hbd
          have := hbd 1 (by omega) (by rw [Nat.one_mul, size]; omega)
          rw [Nat.one_mul] at this
          exact absurd this (not_boundary ha hb)
        · intro _ t ps hrj
          exact ⟨_, by simp, not_piece hb hrj.isPrefix⟩

/-! ## The loop -/

theorem partsOf_some (hmax : 0 < max) (current : Text) (rest : List Text) :
    ∃ ps, partsOf max current rest = some ps := by
  induction rest generalizing current with
  | nil => exact ⟨_, rfl⟩
  | cons line rest ih =>
    rw [partsOf]
    dsimp only
    generalize (if current = [] then line else current ++ '\n' :: line) = candidate
    split
    · obtain ⟨ps, hp⟩ := ih line
      exact ⟨current :: ps, by rw [hp]; rfl⟩
    · split
      · obtain ⟨cuts, last, hc⟩ := cutBytes_some hmax
          (show (encode candidate).length < size candidate + 1 by simp [size])
        obtain ⟨ps, hp⟩ := ih last
        exact ⟨cuts ++ ps, by simp [hc, hp]⟩
      · exact ih candidate

/-- What a round makes of a line: the part is full, or the line is cut, or the part takes it. -/
theorem partsOf_cons (current line : Text) (rest : List Text) :
    (current ≠ [] ∧ max < size (current ++ '\n' :: line) ∧
      partsOf max current (line :: rest) = (partsOf max line rest).map (current :: ·)) ∨
    (current ≠ [] ∧ size (current ++ '\n' :: line) ≤ max ∧
      partsOf max current (line :: rest) = partsOf max (current ++ '\n' :: line) rest) ∨
    (current = [] ∧ max < size line ∧ partsOf max current (line :: rest) =
      (cutBytes max (size line + 1) (encode line)).bind fun (parts, last) =>
        (partsOf max last rest).map (parts ++ ·)) ∨
    (current = [] ∧ size line ≤ max ∧ partsOf max current (line :: rest) = partsOf max line rest) := by
  rw [partsOf]
  by_cases hc : current = []
  · right; right
    by_cases hlt : max < size line
    · exact .inl ⟨hc, hlt, by simp [hc, hlt]⟩
    · exact .inr ⟨hc, by omega, by simp [hc, hlt]⟩
  · by_cases hlt : max < size (current ++ '\n' :: line)
    · exact .inl ⟨hc, hlt, by simp only [if_neg hc]; rw [if_pos ⟨hlt, hc⟩]⟩
    · exact .inr (.inl ⟨hc, by omega, by simp only [if_neg hc]; rw [if_neg fun h => hlt h.1, if_neg hlt]⟩)

/-- The first piece cut off a line starts with what the line starts with: a code point is at most
four bytes. -/
theorem cutBytes_starts (hmax : 4 ≤ max) {l : Text} (hs : Starts l) {cuts : List Text} {last : Text}
    (h : cutBytes max rounds (encode l) = some (cuts, last)) (hlt : max < size l) :
    ∃ q qs, cuts = q :: qs ∧ Starts q := by
  cases rounds with
  | zero => cases h
  | succ rounds =>
    rw [cutBytes, if_neg (by simp only [size] at hlt; omega)] at h
    obtain ⟨⟨cuts', last'⟩, -, he⟩ := Option.map_eq_some_iff.1 h
    obtain ⟨rfl, rfl⟩ := Prod.mk.inj he
    refine ⟨_, _, rfl, ?_⟩
    obtain ⟨c, t, rfl, hc⟩ := hs
    have hlen := (encodeChar_length c).2
    obtain ⟨k, rfl⟩ : ∃ k, max = (encodeChar c).length + k := ⟨max - (encodeChar c).length, by omega⟩
    rw [encode_cons, List.take_length_add_append, decode, decode_char]
    exact ⟨c, _, rfl, hc⟩

theorem partsOf_starts (hmax : 4 ≤ max) (hr : ∀ l ∈ rest, '\n' ∉ l)
    (hs : current = [] ∨ Starts current) (h : partsOf max current rest = some ps) :
    ∀ q ∈ ps.head?, Starts q := by
  induction rest generalizing current ps with
  | nil =>
    obtain rfl := Option.some.inj h
    split
    · simp
    · intro q hq
      obtain rfl := Option.some.inj hq
      exact hs.resolve_left ‹_›
  | cons line rest ih =>
    have hline : line = [] ∨ Starts line := by
      by_cases hl : line = []
      · exact .inl hl
      · exact .inr (starts_of_line (hr line (by simp)) hl)
    have hrest : ∀ l ∈ rest, '\n' ∉ l := fun l hl => hr l (by simp [hl])
    rcases @partsOf_cons max current line rest with ⟨hc, -, hp⟩ | ⟨hc, -, hp⟩ | ⟨hc, hlt, hp⟩ | ⟨hc, -, hp⟩
    · rw [hp] at h
      obtain ⟨qs, -, rfl⟩ := Option.map_eq_some_iff.1 h
      intro q hq
      obtain rfl := Option.some.inj hq
      exact hs.resolve_left hc
    · exact ih hrest (.inr ((hs.resolve_left hc).append _)) (hp ▸ h)
    · rw [hp] at h
      obtain ⟨⟨cuts, last⟩, hcut, he⟩ := Option.bind_eq_some_iff.1 h
      obtain ⟨qs, -, rfl⟩ := Option.map_eq_some_iff.1 he
      have hl : Starts line := by
        rcases hline with rfl | hl
        · simp at hlt
        · exact hl
      obtain ⟨q, qs', rfl, hq⟩ := cutBytes_starts hmax hl hcut hlt
      intro q' hq'
      obtain rfl := Option.some.inj hq'
      exact hq
    · exact ih hrest hline (hp ▸ h)

/-- From a part of so many bytes on, no line is longer than a part and no empty line comes where the
part has no room for a line break. -/
def Fits (max : Nat) : Nat → List Text → Prop
  | _, [] => True
  | n, line :: rest =>
    size line ≤ max ∧
      if n + 1 + size line ≤ max then Fits max (n + 1 + size line) rest
      else line ≠ [] ∧ Fits max (size line) rest

/-- A part that is longer than a part goes out as it is: the next round finds it full. -/
theorem partsOf_long (hlt : max < size current) (h : partsOf max current rest = some ps) :
    current ∈ ps := by
  have hc : current ≠ [] := by
    rintro rfl
    simp at hlt
  cases rest with
  | nil =>
    rw [partsOf, if_neg hc] at h
    rw [← Option.some.inj h]
    simp
  | cons line rest =>
    rcases @partsOf_cons max current line rest with ⟨-, -, hp⟩ | ⟨-, hle, -⟩ | ⟨hc', -⟩ | ⟨hc', -⟩
    · rw [hp] at h
      obtain ⟨qs, -, rfl⟩ := Option.map_eq_some_iff.1 h
      simp
    · rw [size_append] at hle
      omega
    · exact absurd hc' hc
    · exact absurd hc' hc

theorem size_break : size ('\n' :: line) = 1 + size line := by
  rw [size_cons]
  rfl

/-- A part in filling goes on to parts that are short enough and rejoin exactly where what is still
to come fits. -/
theorem partsOf_iff (hmax : 4 ≤ max) (hr : ∀ l ∈ rest, '\n' ∉ l) (hs : Starts current)
    (hle : size current ≤ max) (h : partsOf max current rest = some ps) :
    ((∀ p ∈ ps, size p ≤ max) ∧ Rejoins (joined current rest) ps) ↔ Fits max (size current) rest := by
  induction rest generalizing current ps with
  | nil =>
    rw [partsOf, if_neg hs.ne_nil] at h
    rw [← Option.some.inj h]
    simpa [Fits, hle] using Rejoins.last
  | cons line rest ih =>
    have hrest : ∀ l ∈ rest, '\n' ∉ l := fun l hl => hr l (by simp [hl])
    rw [joined_cons, Fits]
    rcases @partsOf_cons max current line rest with ⟨-, hlt, hp⟩ | ⟨-, hfit, hp⟩ | ⟨hc, -⟩ | ⟨hc, -⟩
    · -- the part is full
      rw [hp] at h
      obtain ⟨qs, hq, rfl⟩ := Option.map_eq_some_iff.1 h
      rw [size_append, size_break] at hlt
      rw [if_neg (by omega)]
      have hline : line = [] ∨ Starts line := by
        by_cases hl : line = []
        · exact .inl hl
        · exact .inr (starts_of_line (hr line (by simp)) hl)
      rw [rejoins_atBreak (partsOf_starts hmax hrest hline hq)]
      constructor
      · rintro ⟨hsz, hj⟩
        have hsl : size line ≤ max := by
          by_contra hlt'
          exact hlt' (hsz line (by simp [partsOf_long (Nat.lt_of_not_le hlt') hq]))
        have hl : Starts line := by
          refine hline.resolve_left ?_
          rintro rfl
          -- the empty line is taken for no line yet, and its break is lost
          have hqs := partsOf_starts hmax hrest (.inl rfl) hq
          cases qs with
          | nil => exact not_rejoins_nil hj
          | cons q qs =>
            cases rest with
            | nil => simp [partsOf] at hq
            | cons l rest => exact hj.not_break (hqs q rfl)
        exact ⟨hsl, hl.ne_nil, (ih hrest hl hsl hq).1 ⟨fun p hp => hsz p (by simp [hp]), hj⟩⟩
      · rintro ⟨hsl, hl, hf⟩
        have hl := hline.resolve_left hl
        obtain ⟨hsz, hj⟩ := (ih hrest hl hsl hq).2 hf
        exact ⟨by simpa [hle] using hsz, hj⟩
    · -- the part takes the line
      have hsz : size (current ++ '\n' :: line) = size current + 1 + size line := by
        rw [size_append, size_break]
        omega
      rw [if_pos (by omega), ← hsz, ← ih hrest (hs.append _) hfit (hp ▸ h),
        and_iff_right (show size line ≤ max by omega)]
      simp [joined]
    · exact absurd hc hs.ne_nil
    · exact absurd hc hs.ne_nil

end Parts

end CarbonRuntime.Adapters.Email
