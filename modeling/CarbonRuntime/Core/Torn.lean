import CarbonRuntime.Core.Utf8

/-!
# Texts decoded in chunks

Bytes that come in chunks, each of which is decoded on its own. Where the bytes before a cut leave a
sequence open and the byte behind it goes on with the sequence, the chunks are torn (`Torn`).

**Results.** Decoded in chunks the bytes are the text they are at once exactly where no cut tears them
(`inChunks_iff`); where one does, more characters come out, line breaks not counted (`inChunks_more`). The
chunks of a text are torn exactly where a cut is inside a code point (`torn_iff`).
-/
namespace CarbonRuntime.Core.Utf8

/-- The sequence left open. -/
def leftOpen : Option Pending → List Nat → Option Pending
  | o, [] => o
  | o, b :: bytes => leftOpen (step o b).2 bytes

/-- What comes out of the bytes before the end is seen. -/
def output : Option Pending → List Nat → List Char
  | _, [] => []
  | o, b :: bytes => (step o b).1 ++ output (step o b).2 bytes

/-- The byte goes on with an open sequence. -/
def Continues (o : Option Pending) (b : Nat) : Prop := ∃ p ∈ o, p.lower ≤ b ∧ b ≤ p.upper

/-- Each chunk decoded on its own. -/
def inChunks (chunks : List (List Nat)) : List Char := chunks.flatMap decode

/-- Some cut is inside a sequence. -/
def Torn : List (List Nat) → Prop
  | [] => False
  | c :: chunks => (∃ b ∈ chunks.flatten.head?, Continues (leftOpen none c) b) ∨ Torn chunks

/-- The characters that are no line break. -/
def inked (t : List Char) : List Char := t.filter (· ≠ '\n')

variable {o : Option Pending} {bytes x y : List Nat} {chunks : List (List Nat)} {b : Nat} {t u : List Char}

@[simp] theorem inked_append : inked (t ++ u) = inked t ++ inked u := List.filter_append ..

theorem length_inked_le : (inked t).length ≤ t.length := List.length_filter_le ..

theorem decodeFrom_append : decodeFrom o (x ++ y) = output o x ++ decodeFrom (leftOpen o x) y := by
  induction x generalizing o with
  | nil => rfl
  | cons b x ih => rw [List.cons_append, decodeFrom_cons, ih, output, leftOpen, List.append_assoc]

theorem decodeFrom_output : decodeFrom o x =
    output o x ++ if (leftOpen o x).isSome then [replacement] else [] := by
  rw [← List.append_nil x, decodeFrom_append, List.append_nil]
  rfl

/-- Where a byte goes on with nothing, an open sequence is a replacement before it. -/
theorem step_ends (h : ¬Continues o b) :
    step o b = ((if o.isSome then [replacement] else []) ++ (first b).1, (first b).2) := by
  cases o with
  | none => rfl
  | some p => exact if_neg fun hb => h ⟨p, rfl, hb⟩

/-- What the next byte of a sequence may be. -/
def Bounded (o : Option Pending) : Prop := ∀ p ∈ o, 0x80 ≤ p.lower ∧ p.upper ≤ 0xbf

theorem bounded_first : Bounded (first b).2 := by
  unfold first
  intro p hp
  split_ifs at hp <;> cases hp <;> simp

theorem bounded_step : Bounded (step o b).2 := by
  cases o with
  | none => exact bounded_first
  | some p =>
    unfold step
    dsimp only
    split
    · split
      · exact fun _ h => nomatch h
      · intro q hq
        cases hq
        exact ⟨Nat.le_refl _, Nat.le_refl _⟩
    · exact bounded_first

theorem bounded_leftOpen (h : Bounded o) : Bounded (leftOpen o x) := by
  induction x generalizing o with
  | nil => exact h
  | cons b x ih => exact ih bounded_step

/-- A byte that goes on with a sequence begins none: alone it is a replacement. -/
theorem first_of_continues (ho : Bounded o) (h : Continues o b) : first b = ([replacement], none) := by
  obtain ⟨p, hp, hl, hu⟩ := h
  have := ho p hp
  unfold first
  repeat rw [if_neg (by omega)]

/-- A byte that goes on with a sequence ends it in a character or leaves it open. -/
theorem step_of_continues (h : Continues o b) : (∃ c, step o b = ([c], none)) ∨ ∃ p, step o b = ([], some p) := by
  obtain ⟨p, rfl, hb⟩ := h
  by_cases hn : p.needed = 1
  · exact .inl ⟨_, by rw [step, if_pos hb, if_pos hn]⟩
  · exact .inr ⟨_, by rw [step, if_pos hb, if_neg hn]⟩

/-- Where the next byte goes on with nothing, an open sequence is a replacement before it. -/
theorem decodeFrom_ends (h : ∀ b ∈ y.head?, ¬Continues o b) :
    decodeFrom o y = (if o.isSome then [replacement] else []) ++ decodeFrom none y := by
  cases y with
  | nil => simp [decodeFrom]
  | cons b y => rw [decodeFrom_cons, decodeFrom_cons, step_ends (h b rfl), List.append_assoc]; rfl

/-- An open sequence is one character of what follows, or takes one off it. -/
theorem decodeFrom_le (ho : Bounded o) : (inked (decodeFrom o y)).length ≤
    (if o.isSome then 1 else 0) + (inked (decodeFrom none y)).length ∧
    ∀ b ∈ y.head?, Continues o b →
      (inked (decodeFrom o y)).length < 1 + (inked (decodeFrom none y)).length := by
  induction y generalizing o with
  | nil =>
    refine ⟨?_, by simp⟩
    cases o <;> simp [decodeFrom, inked, replacement]
  | cons b y ih =>
    by_cases hc : Continues o b
    · have halone : inked (decodeFrom none (b :: y)) = replacement :: inked (decodeFrom none y) := by
        rw [decodeFrom_cons, step, first_of_continues ho hc]
        rfl
      have hle : (inked (decodeFrom o (b :: y))).length ≤ 1 + (inked (decodeFrom none y)).length := by
        rw [decodeFrom_cons]
        obtain ⟨c, hs⟩ | ⟨p, hs⟩ := step_of_continues hc
        · rw [hs, inked_append, List.length_append]
          exact Nat.add_le_add_right (Nat.le_trans length_inked_le (by simp)) _
        · have hp : Bounded (some p) := by
            have := @bounded_step o b
            rwa [hs] at this
          simpa [hs] using (ih hp).1
      rw [halone, List.length_cons]
      exact ⟨by omega, fun _ _ _ => by omega⟩
    · have hends : decodeFrom o (b :: y) = _ := decodeFrom_ends fun b' hb' => by
        obtain rfl : b = b' := by simpa using hb'
        exact hc
      refine ⟨?_, fun b' hb' hc' => ?_⟩
      · rw [hends, inked_append, List.length_append]
        exact Nat.add_le_add_right (by cases o <;> simp [inked, replacement]) _
      · obtain rfl : b = b' := by simpa using hb'
        exact absurd hc' hc

/-- Bytes cut in two: without a sequence across the cut they are the same text, with one more characters. -/
theorem decode_append : ((∃ b ∈ y.head?, Continues (leftOpen none x) b) ∧
      (inked (decode (x ++ y))).length < (inked (decode x ++ decode y)).length) ∨
    ((∀ b ∈ y.head?, ¬Continues (leftOpen none x) b) ∧ decode (x ++ y) = decode x ++ decode y) := by
  have hb : Bounded (leftOpen none x) := bounded_leftOpen fun _ h => nomatch h
  by_cases hc : ∃ b ∈ y.head?, Continues (leftOpen none x) b
  · obtain ⟨b, hy, hc⟩ := hc
    refine .inl ⟨⟨b, hy, hc⟩, ?_⟩
    have hlt := (decodeFrom_le hb).2 b hy hc
    have hsome : (leftOpen none x).isSome := by
      obtain ⟨p, hp, -⟩ := hc
      exact Option.isSome_of_mem hp
    have hx : decode x = output none x ++ [replacement] := by rw [decode, decodeFrom_output, if_pos hsome]
    have hone : (inked [replacement]).length = 1 := by decide
    rw [hx, decode, decode, decodeFrom_append]
    simp only [inked_append, List.length_append]
    omega
  · have hno : ∀ b ∈ y.head?, ¬Continues (leftOpen none x) b := fun b hy hcb => hc ⟨b, hy, hcb⟩
    refine .inr ⟨hno, ?_⟩
    have hx : decode x = output none x ++ _ := decodeFrom_output
    rw [hx, decode, decode, decodeFrom_append, decodeFrom_ends hno, List.append_assoc]

theorem inChunks_spec (chunks : List (List Nat)) :
    (inked (decode chunks.flatten)).length ≤ (inked (inChunks chunks)).length ∧
    (Torn chunks → (inked (decode chunks.flatten)).length < (inked (inChunks chunks)).length) ∧
    (¬Torn chunks → inChunks chunks = decode chunks.flatten) := by
  induction chunks with
  | nil => exact ⟨Nat.le_refl _, fun h => h.elim, fun _ => rfl⟩
  | cons c chunks ih =>
    obtain ⟨hle, hlt, heq⟩ := ih
    have hcons : inChunks (c :: chunks) = decode c ++ inChunks chunks := rfl
    rw [List.flatten_cons, hcons, inked_append, List.length_append]
    obtain ⟨hc, hcut⟩ | ⟨hc, hcut⟩ := @decode_append c chunks.flatten
    · rw [inked_append, List.length_append] at hcut
      exact ⟨by omega, fun _ => by omega, fun h => absurd (.inl hc) h⟩
    · rw [hcut, inked_append, List.length_append]
      refine ⟨by omega, fun h => ?_, fun h => ?_⟩
      · obtain ⟨b, hb, h⟩ | h := h
        · exact absurd h (hc b hb)
        · have := hlt h
          omega
      · rw [heq fun ht => h (.inr ht)]

/-- Torn bytes are more characters than they are at once, line breaks not counted. -/
theorem inChunks_more (h : Torn chunks) :
    (inked (decode chunks.flatten)).length < (inked (inChunks chunks)).length :=
  (inChunks_spec chunks).2.1 h

theorem inChunks_iff : inChunks chunks = decode chunks.flatten ↔ ¬Torn chunks :=
  ⟨fun h ht => absurd (inChunks_more ht) (by simp [h]), (inChunks_spec chunks).2.2⟩

/-! ## The chunks of a text -/

/-- Every chunk ends where a code point does. -/
def Uncut (t : List Char) (chunks : List (List Nat)) : Prop :=
  ∀ before after, chunks = before ++ after → Boundary t before.flatten.length

theorem inChunks_uncut (h : chunks.flatten = encode t) (hu : Uncut t chunks) : inChunks chunks = t := by
  induction chunks generalizing t with
  | nil =>
    have ht : size t = 0 := by rw [size, ← h]; rfl
    rw [size_eq_zero.1 ht]
    rfl
  | cons c chunks ih =>
    obtain ⟨a, b, rfl, ha⟩ := hu [c] chunks rfl
    rw [List.flatten_cons, encode_append] at h
    obtain ⟨hc, hrest⟩ := List.append_inj h (by simpa [size] using ha.symm)
    have hb : inChunks chunks = b := ih hrest fun before after hcut => by
      have hcut : Boundary (a ++ b) (c :: before).flatten.length := hu (c :: before) after (by rw [hcut]; rfl)
      rwa [List.flatten_cons, List.length_append, hc, ← size, boundary_append] at hcut
    rw [inChunks, List.flatMap_cons, hc, decode_encode]
    exact congrArg (a ++ ·) hb

/-- What is left of a replacement character after a cut is not nothing. -/
theorem decode_rest {n : Nat} (h0 : 0 < n) (hn : n < (encodeChar replacement).length) :
    decode ((encodeChar replacement).drop n ++ bytes) ≠ decode bytes := by
  have he : encodeChar replacement = [0xef, 0xbf, 0xbd] := by decide
  rw [he] at hn ⊢
  intro h
  have hlen := congrArg List.length h
  obtain rfl | rfl : n = 1 ∨ n = 2 := by simp at hn; omega
  · simp [decode, decodeFrom_cons, step, first] at hlen
    omega
  · simp [decode, decodeFrom_cons, step, first] at hlen

theorem torn_iff (h : chunks.flatten = encode t) : ¬Torn chunks ↔ Uncut t chunks := by
  refine ⟨fun hno before after hcut => ?_, fun hu => inChunks_iff.1 ?_⟩
  · subst hcut
    have hwhole := inChunks_iff.2 hno
    rw [h, decode_encode] at hwhole
    have hsplit : inChunks (before ++ after) = inChunks before ++ inChunks after := List.flatMap_append
    rw [List.flatten_append] at h
    -- the cut between these two is no more torn than the others
    have hcut : decode before.flatten ++ decode after.flatten = t := by
      obtain ⟨-, hlt⟩ | ⟨-, heq⟩ := @decode_append before.flatten after.flatten
      · have hb := (inChunks_spec before).1
        have ha := (inChunks_spec after).1
        rw [h, decode_encode, ← hwhole, hsplit] at hlt
        simp only [inked_append, List.length_append] at hlt
        omega
      · rw [← heq, h, decode_encode]
    have hle : before.flatten.length ≤ size t := by rw [size, ← h, List.length_append]; omega
    refine (boundary_or hle).resolve_right ?_
    rintro ⟨a, c, b, rfl, ha, hb⟩
    have hbefore : decode before.flatten = a ++ [replacement] := by
      have htake := @List.take_left' _ before.flatten after.flatten _ rfl
      rw [← htake, h, decode_inside ha hb]
    rw [hbefore, List.append_assoc, List.append_cancel_left_eq, List.singleton_append,
      List.cons.injEq] at hcut
    obtain ⟨rfl, hafter⟩ := hcut
    obtain ⟨k, hk⟩ : ∃ k, before.flatten.length = (encode a).length + k :=
      ⟨before.flatten.length - size a, by simp only [size] at *; omega⟩
    have h0 : 0 < k := by
      simp only [size] at ha
      omega
    have hn : k < (encodeChar replacement).length := by
      simp only [size] at hb
      omega
    have hrest : after.flatten = (encodeChar replacement).drop k ++ encode b := by
      have hdrop : after.flatten = (encode (a ++ replacement :: b)).drop before.flatten.length := by
        rw [← h, List.drop_left]
      rw [hdrop, hk, encode_append, List.drop_length_add_append, encode_cons,
        List.drop_append_of_le_length (Nat.le_of_lt hn)]
    exact decode_rest h0 hn (by rw [← hrest, hafter, decode_encode])
  · rw [inChunks_uncut h hu, h, decode_encode]

end CarbonRuntime.Core.Utf8
